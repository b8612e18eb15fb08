import NeonAuth.Lines

namespace NeonAuth.NegotiateRetries

open Text Protocol Session Verify Challenge Hooks Select Steps Forget Retries Lines

end NeonAuth.NegotiateRetries
