import NeonAuth.Text

namespace NeonAuth.Protocol

/-- Modelled from the spec: the protocol bits of ne_auth.h, which this source does not include,
are distinct single bits ORed into a mask. -/
def neAuthBasic : Nat := 1

def neAuthDigest : Nat := 2

def neAuthNegotiate : Nat := 4

def authFlagOpaqueParam : Nat := 1

def authFlagVerifyNon40x : Nat := 2

/-- Modelled from the spec: the NE_* results of ne_utils.h that the hooks return. -/
inductive NeResult
  | ok
  | error
  | auth
  | proxyAuth
  | retry
  deriving DecidableEq, Repr

inductive Scheme
  | basic
  | digest
  | negotiate
  deriving DecidableEq, Repr

structure AuthProtocol where
  id : Nat
  strength : Nat
  name : List Char
  scheme : Scheme
  flags : Nat
  deriving DecidableEq, Repr

inductive Build
  | plain
  | gssapi
  deriving DecidableEq, Repr

def basicProtocol : AuthProtocol := ⟨neAuthBasic, 10, "Basic".toList, .basic, 0⟩

def digestProtocol : AuthProtocol := ⟨neAuthDigest, 20, "Digest".toList, .digest, 0⟩

def negotiateProtocol : AuthProtocol :=
  ⟨neAuthNegotiate, 30, "Negotiate".toList, .negotiate, authFlagOpaqueParam ||| authFlagVerifyNon40x⟩

def protocols : Build → List AuthProtocol
  | .plain => [basicProtocol, digestProtocol]
  | .gssapi => [basicProtocol, digestProtocol, negotiateProtocol]

def AuthProtocol.hasVerify (p : AuthProtocol) : Bool := p.scheme != .basic

structure AuthHandler where
  protomask : Nat
  creds : Nat
  userdata : Nat
  deriving DecidableEq, Repr

inductive AuthAlgorithm
  | md5
  | md5Sess
  | unknown
  deriving DecidableEq, Repr

inductive AuthQop
  | none
  | auth
  deriving DecidableEq, Repr

structure AuthChallenge where
  protocol : AuthProtocol
  handler : AuthHandler
  realm : Option (List Char) := none
  nonce : Option (List Char) := none
  opaqueValue : Option (List Char) := none
  stale : Bool := false
  gotQop : Bool := false
  qopAuth : Bool := false
  alg : AuthAlgorithm := .md5
  deriving DecidableEq, Repr

def insertChallenge (c : AuthChallenge) : List AuthChallenge → List AuthChallenge
  | [] => [c]
  | d :: ds =>
      if d.protocol.strength < c.protocol.strength then c :: d :: ds
      else d :: insertChallenge c ds

inductive Role
  | server
  | proxy
  deriving DecidableEq, Repr

structure AuthClass where
  id : List Char
  reqHdr : List Char
  respHdr : List Char
  respInfoHdr : List Char
  statusCode : Nat
  failCode : NeResult
  deriving DecidableEq, Repr

def ahServerClass : AuthClass :=
  ⟨"http://webdav.org/neon/hooks/server-auth".toList, "Authorization".toList,
    "WWW-Authenticate".toList, "Authentication-Info".toList, 401, .auth⟩

def ahProxyClass : AuthClass :=
  ⟨"http://webdav.org/neon/hooks/proxy-auth".toList, "Proxy-Authorization".toList,
    "Proxy-Authenticate".toList, "Proxy-Authentication-Info".toList, 407, .proxyAuth⟩

def Role.authClass : Role → AuthClass
  | .server => ahServerClass
  | .proxy => ahProxyClass

@[simp] theorem mem_insertChallenge {c d : AuthChallenge} {l : List AuthChallenge} :
    d ∈ insertChallenge c l ↔ d = c ∨ d ∈ l := by
  induction l with
  | nil => simp [insertChallenge]
  | cons e l ih =>
      unfold insertChallenge
      split <;> simp [ih, or_left_comm]

@[simp] theorem length_insertChallenge (c : AuthChallenge) (l : List AuthChallenge) :
    (insertChallenge c l).length = l.length + 1 := by
  induction l with
  | nil => rfl
  | cons e l ih =>
      unfold insertChallenge
      split <;> simp [ih]

end NeonAuth.Protocol
