import NeonAuth.Session

namespace NeonAuth.Verify

open Text Tokenize Protocol Session

/-- The locals of verify_digest_response's parse loop. `nonceCount` is `none` while sscanf has
stored nothing in it, and `val` is `none` while no call of tokenize has assigned it. -/
structure InfoScan where
  qop : AuthQop := .none
  qopValue : Option (List Char) := none
  nextnonce : Option (List Char) := none
  rspauth : Option (List Char) := none
  cnonce : Option (List Char) := none
  nc : Option (List Char) := none
  nonceCount : Option Nat := none
  val : Option (Option (List Char)) := none
  deriving DecidableEq, Repr

def infoField (st : InfoScan) (key val : List Char) : InfoScan :=
  if neStrcasecmp key "qop".toList then
    { st with qopValue := some val, qop := if neStrcasecmp val "auth".toList then .auth else .none }
  else if neStrcasecmp key "nextnonce".toList then { st with nextnonce := some val }
  else if neStrcasecmp key "rspauth".toList then { st with rspauth := some val }
  else if neStrcasecmp key "cnonce".toList then { st with cnonce := some val }
  else if neStrcasecmp key "nc".toList then
    { st with nc := some val, nonceCount := (scanHex val).orElse fun _ => st.nonceCount }
  else st

def infoStep (st : InfoScan) (t : Token) : Option InfoScan :=
  match t.value <|> st.val, t.key with
  | some (some v), some key =>
      let v := neShave "\"".toList v
      some (infoField { st with val := some (some v) } key v)
  | _, _ => none

def infoLoop : Nat → InfoScan → List Char → Option InfoScan
  | 0, st, _ => some st
  | fuel + 1, st, pnt =>
      match tokenize pnt false with
      | .token t => (infoStep st t).bind fun st => infoLoop fuel st t.rest
      | _ => some st

/-- The checks after the loop, before the nextnonce update. `junk` is the value an unset
`nonce_count` happens to hold. -/
def infoCheck (c : Crypto) (junk : Nat) (req : AuthRequest) (s : AuthSession) (st : InfoScan) :
    Option (AuthSession × NeResult) :=
  if st.qop = .none then some (s, .ok)
  else
    match st.rspauth, st.cnonce, st.nc with
    | some rspauth, some cnonce, some _ =>
        match s.cnonce with
        | none => none
        | some sc =>
            if cnonce ≠ sc then
              some (neSetError s "Digest mutual authentication failure: client nonce mismatch", .error)
            else if st.nonceCount.getD junk ≠ s.nonceCount then
              some (neSetError s ("Digest mutual authentication failure: nonce count mismatch (" ++
                Nat.repr (st.nonceCount.getD junk) ++ " not " ++ Nat.repr s.nonceCount ++ ")"), .error)
            else
              match s.storedRdig, st.qopValue with
              | some stored, some qopValue =>
                  let a2 := c.md5 (":".toList ++ req.uri)
                  let rdig := c.md5 (stored ++ qopValue ++ ":".toList ++ a2.hex)
                  let s := { s with storedRdig := none }
                  if neStrcasecmp rdig.hex rspauth then some (s, .ok)
                  else some (neSetError s "Digest mutual authentication failure: request-digest mismatch", .error)
              | _, _ => none
    | _, _, _ =>
        some (neSetError s "Digest mutual authentication failure: missing parameters", .error)

def verifyDigestResponse (c : Crypto) (junk : Nat) (req : AuthRequest) (s : AuthSession)
    (value : List Char) : Option (AuthSession × NeResult) := do
  let st ← infoLoop (value.length + 1) {} value
  let (s, ret) ← infoCheck c junk req s st
  match st.nextnonce with
  | some n => some ({ s with nonce := some n }, ret)
  | none => some (s, ret)

def gssStep (c : Crypto) (g : GssReply) (s : AuthSession) : AuthSession × Bool :=
  match g.major with
  | .failure =>
      (neSetError s ("GSSAPI authentication error (" ++ String.mk g.message ++ ")"), false)
  | m =>
      ((if g.output = [] then s else { s with gssapiToken := some (c.base64 g.output) }),
        m = .complete || m = .continueNeeded)

/-- continue_negotiate, with the GSSAPI provider's answer `g`; the context handle itself is the
provider's and is not modelled. -/
def continueNegotiate (c : Crypto) (g : GssReply) (s : AuthSession) (token : Option (List Char)) :
    AuthSession × Bool :=
  match token with
  | some t => if c.unbase64 t = [] then (s, false) else gssStep c g s
  | none => gssStep c g s

def negotiateChallenge (c : Crypto) (x : Ext) (s : AuthSession) (attempt : Nat)
    (chall : AuthChallenge) : ChallengeResult :=
  if attempt = 0 || chall.opaqueValue.isSome then
    let r := continueNegotiate c x.gss s chall.opaqueValue
    ⟨r.1, r.2, []⟩
  else ⟨s, false, []⟩

def requestNegotiate (s : AuthSession) : Option (List Char) :=
  s.gssapiToken.map fun t => "Negotiate ".toList ++ t ++ "\r\n".toList

/-- verify_negotiate_response, with its copy `duphdr` apart from `hdr`: the length `ptr - hdr`
it passes to strncmp then reaches past the end of both strings, which are compared whole.
Only the bare word Negotiate passes, and the code then calls strlen on NULL + 1. -/
def verifyNegotiateResponse (s : AuthSession) (hdr : List Char) : Option (AuthSession × NeResult) :=
  if hdr = "Negotiate".toList then none else some (s, .error)

def challenge (p : AuthProtocol) (c : Crypto) (x : Ext) (s : AuthSession) (attempt : Nat)
    (chall : AuthChallenge) : ChallengeResult :=
  match p.scheme with
  | .basic => basicChallenge c x s attempt chall
  | .digest => digestChallenge c x s attempt chall
  | .negotiate => negotiateChallenge c x s attempt chall

theorem gssStep_frame (c : Crypto) (g : GssReply) (s : AuthSession) : Frame s (gssStep c g s).1 := by
  unfold gssStep
  split
  · exact ⟨rfl, rfl, rfl, rfl⟩
  · split_ifs <;> exact ⟨rfl, rfl, rfl, rfl⟩

theorem continueNegotiate_frame (c : Crypto) (g : GssReply) (s : AuthSession)
    (token : Option (List Char)) : Frame s (continueNegotiate c g s token).1 := by
  unfold continueNegotiate
  split
  · split_ifs
    · exact Frame.refl s
    · exact gssStep_frame c g s
  · exact gssStep_frame c g s

theorem negotiateChallenge_frame (c : Crypto) (x : Ext) (s : AuthSession) (attempt : Nat)
    (chall : AuthChallenge) : Frame s (negotiateChallenge c x s attempt chall).sess := by
  unfold negotiateChallenge
  split_ifs
  · exact continueNegotiate_frame c x.gss s _
  · exact Frame.refl s

theorem challenge_frame (p : AuthProtocol) (c : Crypto) (x : Ext) (s : AuthSession)
    (attempt : Nat) (chall : AuthChallenge) : Frame s (challenge p c x s attempt chall).sess := by
  unfold challenge
  split
  · exact basicChallenge_frame c x s attempt chall
  · exact digestChallenge_frame c x s attempt chall
  · exact negotiateChallenge_frame c x s attempt chall

def response (p : AuthProtocol) (c : Crypto) (s : AuthSession) (req : AuthRequest) :
    Option (AuthSession × Option (List Char)) :=
  match p.scheme with
  | .basic => some (s, some (requestBasic s))
  | .digest => (requestDigest c s req).map fun (s, v) => (s, some v)
  | .negotiate => some (s, requestNegotiate s)

def verify (p : AuthProtocol) (c : Crypto) (junk : Nat) (req : AuthRequest) (s : AuthSession)
    (value : List Char) : Option (AuthSession × NeResult) :=
  match p.scheme with
  | .basic => none
  | .digest => verifyDigestResponse c junk req s value
  | .negotiate => verifyNegotiateResponse s value

end NeonAuth.Verify
