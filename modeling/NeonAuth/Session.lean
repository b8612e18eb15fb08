import NeonAuth.Tokenize
import NeonAuth.Protocol

namespace NeonAuth.Session

open Text Protocol

structure Md5Hex where
  hex : List Char
  length_hex : hex.length = 32
  deriving DecidableEq

def Md5Hex.zero : Md5Hex := ⟨List.replicate 32 '\x00', rfl⟩

/-- The collaborators outside this source whose answers depend only on what they are given:
an MD5 context that absorbed the bytes `b` finishes to `md5 b`; the base64 codec. -/
structure Crypto where
  md5 : List Char → Md5Hex
  base64 : List Char → List Char
  unbase64 : List Char → List Char

structure CredsCall where
  handler : AuthHandler
  realm : Option (List Char)
  attempt : Nat
  deriving DecidableEq, Repr

structure CredsReply where
  refused : Bool
  username : Option (List Char)
  password : List Char
  deriving DecidableEq, Repr

inductive GssMajor
  | complete
  | continueNeeded
  | failure
  | other
  deriving DecidableEq, Repr

structure GssReply where
  major : GssMajor
  output : List Char
  message : List Char
  deriving DecidableEq, Repr

/-- What the outside world answers while one challenge is tried: the application's credentials
callback, the random bytes get_cnonce hashes, and the GSSAPI provider. -/
structure Ext where
  creds : CredsCall → CredsReply
  random : List Char
  gss : GssReply

inductive AuthContext
  | any
  | connect
  | notConnect
  deriving DecidableEq, Repr

/-- auth_session. `error` is the text last given to ne_set_error on the owning ne_session
through this record; the host and port fields are not read by the modelled code. -/
structure AuthSession where
  context : AuthContext
  spec : AuthClass
  protocol : Option AuthProtocol := none
  handlers : List AuthHandler := []
  username : List Char := []
  basic : Option (List Char) := none
  gssapiToken : Option (List Char) := none
  realm : Option (List Char) := none
  nonce : Option (List Char) := none
  cnonce : Option (List Char) := none
  opaqueValue : Option (List Char) := none
  qop : AuthQop := .none
  alg : AuthAlgorithm := .md5
  nonceCount : Nat := 0
  hA1 : Md5Hex := Md5Hex.zero
  storedRdig : Option (List Char) := none
  error : Option (List Char) := none
  deriving DecidableEq

structure AuthRequest where
  uri : List Char
  method : List Char
  attempt : Nat := 0
  deriving DecidableEq, Repr

/-- INT_MAX: `areq->attempt` is an int, so its increment at this value is undefined. -/
def intMax : Nat := 2 ^ 31 - 1

structure ChallengeResult where
  sess : AuthSession
  accepted : Bool
  calls : List CredsCall

def neSetError (s : AuthSession) (msg : String) : AuthSession := { s with error := some msg.toList }

def cleanSession (s : AuthSession) : AuthSession :=
  { s with
    basic := none, nonce := none, cnonce := none, opaqueValue := none, realm := none
    storedRdig := none, gssapiToken := none }

@[simp] theorem cleanSession_protocol (s : AuthSession) : (cleanSession s).protocol = s.protocol := rfl

@[simp] theorem cleanSession_handlers (s : AuthSession) : (cleanSession s).handlers = s.handlers := rfl

@[simp] theorem cleanSession_spec (s : AuthSession) : (cleanSession s).spec = s.spec := rfl

@[simp] theorem cleanSession_context (s : AuthSession) : (cleanSession s).context = s.context := rfl

def getCnonce (c : Crypto) (x : Ext) : List Char := (c.md5 x.random).hex

def credsCall (s : AuthSession) (attempt : Nat) (chall : AuthChallenge) : CredsCall :=
  ⟨chall.handler, s.realm, attempt⟩

def getCredentials (x : Ext) (s : AuthSession) (attempt : Nat) (chall : AuthChallenge) :
    AuthSession × CredsReply :=
  let r := x.creds (credsCall s attempt chall)
  ({ s with username := r.username.getD s.username }, r)

def basicChallenge (c : Crypto) (x : Ext) (s : AuthSession) (attempt : Nat)
    (parms : AuthChallenge) : ChallengeResult :=
  match parms.realm with
  | none => ⟨s, false, []⟩
  | some realm =>
      let s₁ := { cleanSession s with realm := some realm }
      let g := getCredentials x s₁ attempt parms
      if g.2.refused then ⟨g.1, false, [credsCall s₁ attempt parms]⟩
      else ⟨{ g.1 with basic := some (c.base64 (g.1.username ++ ":".toList ++ g.2.password)) }, true,
        [credsCall s₁ attempt parms]⟩

def requestBasic (s : AuthSession) : List Char :=
  neConcat [some "Basic ".toList, s.basic, some "\r\n".toList]

def digestHA1 (c : Crypto) (alg : AuthAlgorithm) (username realm password nonce cnonce : List Char) :
    Md5Hex :=
  let tmp := c.md5 (username ++ ":".toList ++ realm ++ ":".toList ++ password)
  if alg = .md5Sess then c.md5 (tmp.hex ++ ":".toList ++ nonce ++ ":".toList ++ cnonce) else tmp

def digestNonce (c : Crypto) (x : Ext) (s : AuthSession) (parms : AuthChallenge)
    (nonce : List Char) : AuthSession :=
  let s := { s with
    alg := parms.alg, nonce := some nonce, cnonce := some (getCnonce c x)
    opaqueValue := if parms.opaqueValue.isSome then parms.opaqueValue else s.opaqueValue }
  if parms.gotQop then { s with nonceCount := 0, qop := .auth } else { s with qop := .none }

def digestFresh (c : Crypto) (x : Ext) (s : AuthSession) (attempt : Nat) (parms : AuthChallenge)
    (realm nonce : List Char) : ChallengeResult :=
  let s₁ := { cleanSession s with realm := some realm }
  let g := getCredentials x s₁ attempt parms
  if g.2.refused then ⟨g.1, false, [credsCall s₁ attempt parms]⟩
  else
    let s₃ := digestNonce c x g.1 parms nonce
    ⟨{ s₃ with hA1 := digestHA1 c s₃.alg s₃.username realm g.2.password nonce (getCnonce c x) }, true,
      [credsCall s₁ attempt parms]⟩

def digestChallenge (c : Crypto) (x : Ext) (s : AuthSession) (attempt : Nat)
    (parms : AuthChallenge) : ChallengeResult :=
  if parms.alg = .unknown then
    ⟨neSetError s "Unknown algorithm in Digest authentication challenge", false, []⟩
  else if parms.alg = .md5Sess && !parms.qopAuth then
    ⟨neSetError s "Incompatible algorithm in Digest authentication challenge", false, []⟩
  else
    match parms.realm, parms.nonce with
    | some realm, some nonce =>
        if parms.stale then ⟨digestNonce c x s parms nonce, true, []⟩
        else digestFresh c x s attempt parms realm nonce
    | _, _ => ⟨neSetError s "Missing nonce or realm in Digest authentication challenge", false, []⟩

/-- request_digest; `none` when it calls strlen on a NULL nonce or client nonce. -/
def requestDigest (c : Crypto) (s : AuthSession) (req : AuthRequest) :
    Option (AuthSession × List Char) :=
  let s := if s.qop = .auth then { s with nonceCount := (s.nonceCount + 1) % 2 ^ 32 } else s
  let ncValue := hex8 s.nonceCount
  let a2 := c.md5 (req.method ++ ":".toList ++ req.uri)
  match s.nonce, s.qop, s.cnonce with
  | none, _, _ => none
  | some _, .auth, none => none
  | some nonce, qop, cnonce =>
      let head := s.hA1.hex ++ ":".toList ++ nonce ++ ":".toList
      let snapshot := head ++ ncValue ++ ":".toList ++ (cnonce.getD []) ++ ":".toList
      let s := if qop = .auth then { s with storedRdig := some snapshot } else s
      let rdig := c.md5 ((if qop = .auth then snapshot ++ "auth:".toList else head) ++ a2.hex)
      let value :=
        neConcat [some "Digest username=\"".toList, some s.username, some "\", realm=\"".toList,
          s.realm, some "\", nonce=\"".toList, some nonce, some "\", uri=\"".toList, some req.uri,
          some "\", response=\"".toList, some rdig.hex, some "\", algorithm=\"".toList,
          some (if s.alg = .md5 then "MD5".toList else "MD5-sess".toList), some "\"".toList] ++
        (if s.opaqueValue.isSome then neConcat [some ", opaque=\"".toList, s.opaqueValue, some "\"".toList]
          else []) ++
        (if qop = .auth then
          neConcat [some ", cnonce=\"".toList, cnonce, some "\", nc=".toList, some ncValue,
            some ", qop=\"".toList, some "auth".toList, some "\"".toList]
          else []) ++ "\r\n".toList
      some (s, value)

def Frame (s s' : AuthSession) : Prop :=
  s'.protocol = s.protocol ∧ s'.handlers = s.handlers ∧ s'.spec = s.spec ∧ s'.context = s.context

theorem Frame.refl (s : AuthSession) : Frame s s := ⟨rfl, rfl, rfl, rfl⟩

theorem Frame.trans {s t u : AuthSession} (h₁ : Frame s t) (h₂ : Frame t u) : Frame s u :=
  ⟨h₂.1.trans h₁.1, h₂.2.1.trans h₁.2.1, h₂.2.2.1.trans h₁.2.2.1, h₂.2.2.2.trans h₁.2.2.2⟩

theorem digestNonce_eq (c : Crypto) (x : Ext) (s : AuthSession) (parms : AuthChallenge)
    (nonce : List Char) :
    digestNonce c x s parms nonce =
      { s with
        alg := parms.alg
        nonce := some nonce
        cnonce := some (getCnonce c x)
        opaqueValue := if parms.opaqueValue.isSome then parms.opaqueValue else s.opaqueValue
        qop := if parms.gotQop then .auth else .none
        nonceCount := if parms.gotQop then 0 else s.nonceCount } := by
  unfold digestNonce
  by_cases hq : parms.gotQop <;> simp [hq]

theorem basicChallenge_frame (c : Crypto) (x : Ext) (s : AuthSession) (attempt : Nat)
    (parms : AuthChallenge) : Frame s (basicChallenge c x s attempt parms).sess := by
  unfold basicChallenge
  split
  · exact Frame.refl s
  · dsimp only; split_ifs <;> exact ⟨rfl, rfl, rfl, rfl⟩

theorem digestFresh_frame (c : Crypto) (x : Ext) (s : AuthSession) (attempt : Nat)
    (parms : AuthChallenge) (realm nonce : List Char) :
    Frame s (digestFresh c x s attempt parms realm nonce).sess := by
  unfold digestFresh
  dsimp only
  split_ifs <;> simp [digestNonce_eq, Frame, getCredentials, cleanSession]

theorem digestChallenge_frame (c : Crypto) (x : Ext) (s : AuthSession) (attempt : Nat)
    (parms : AuthChallenge) : Frame s (digestChallenge c x s attempt parms).sess := by
  unfold digestChallenge
  split_ifs <;> (try split) <;> first
    | exact ⟨rfl, rfl, rfl, rfl⟩
    | exact digestFresh_frame c x s attempt parms _ _
    | simp [digestNonce_eq, Frame]

theorem requestDigest_of_nonce_none (c : Crypto) (s : AuthSession) (req : AuthRequest)
    (h : s.nonce = none) : requestDigest c s req = none := by
  by_cases hq : s.qop = .auth <;> simp [requestDigest, hq, h]

end NeonAuth.Session
