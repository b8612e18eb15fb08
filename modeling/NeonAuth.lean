import NeonAuth.Text
import NeonAuth.Tokenize
import NeonAuth.Protocol
import NeonAuth.Session
import NeonAuth.Verify
import NeonAuth.Challenge
import NeonAuth.Hooks
import NeonAuth.Registration
import NeonAuth.Forget
import NeonAuth.Insertion
import NeonAuth.Grammar
import NeonAuth.ChallengeParse
import NeonAuth.Select
import NeonAuth.Steps
import NeonAuth.Roles
import NeonAuth.Retries
import NeonAuth.DigestRun
import NeonAuth.NonceCount
import NeonAuth.Credentials
import NeonAuth.Mutual
import NeonAuth.Loops
import NeonAuth.Negotiate
import NeonAuth.Snapshot
import NeonAuth.Rounds
import NeonAuth.Lines
import NeonAuth.Remnants
import NeonAuth.NegotiateRetries
import NeonAuth.DigestFormat
