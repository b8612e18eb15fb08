import NeonAuth.Hooks

namespace NeonAuth.Forget

open Protocol Session Verify Hooks

@[simp] theorem priv_neForgetAuth (ns : NeSession) (role : Role) :
    (neForgetAuth ns).priv role = (ns.priv role).map cleanSession := rfl

theorem ahPreSend_cleanSession_basic (c : Crypto) (s : AuthSession) (p : AuthProtocol)
    (areq : AuthRequest) (hp : s.protocol = some p) (hb : p.scheme = .basic) :
    ahPreSend c (cleanSession s) (some areq) =
      some (cleanSession s, some (s.spec.reqHdr ++ ": Basic ".toList)) := by
  simp [ahPreSend, hp, response, hb, requestBasic, cleanSession, Text.neConcat]

theorem ahPreSend_cleanSession_digest (c : Crypto) (s : AuthSession) (p : AuthProtocol)
    (areq : AuthRequest) (hp : s.protocol = some p) (hd : p.scheme = .digest) :
    ahPreSend c (cleanSession s) (some areq) = none := by
  simp [ahPreSend, hp, response, hd, requestDigest_of_nonce_none, cleanSession]

def challenge401 (h : String) : Response :=
  ⟨401, 4, fun n => if n = "WWW-Authenticate".toList then some h.toList else none⟩

def grantAll : Oracle :=
  ⟨fun _ => ⟨fun _ => ⟨false, some "jo".toList, "foo".toList⟩, [], ⟨.failure, [], []⟩⟩, 0⟩

def forgetRun (hdr : String) : List Event :=
  [.call (.setServerAuth 1 1), .create 0 "GET".toList "/".toList,
    .postSend 0 .server (challenge401 hdr) grantAll, .call .forgetAuth]

/-- A Basic challenge accepted and then forgotten: the session keeps Basic selected with its
blob gone. -/
theorem forget_leaves_basic_without_blob (c : Crypto) :
    ((run ⟨.plain, c⟩ (NeSession.init "http".toList) (forgetRun "Basic realm=\"x\"")).bind
      fun r => r.1.priv .server).map (fun s => (s.protocol, s.basic)) =
      some (some basicProtocol, none) := rfl

/-- After a forget the next pre-send still sends credentials: an empty Basic line, or, for a
Digest session, no line at all because request_digest runs into strlen(NULL); and so for every
session clean_session leaves with Basic or Digest selected. -/
theorem forget_then_presend_sends (c : Crypto) :
    (run ⟨.plain, c⟩ (NeSession.init "http".toList)
      (forgetRun "Basic realm=\"x\"" ++ [.preSend 0 .server])).map (fun r => r.2.getLast?) =
        some (some (.sent 0 .server (some "Authorization: Basic ".toList))) ∧
    run ⟨.plain, c⟩ (NeSession.init "http".toList)
      (forgetRun "Digest realm=\"x\", nonce=\"n\"" ++ [.preSend 0 .server]) = none ∧
    ∀ (s : AuthSession) (p : AuthProtocol) (areq : AuthRequest), s.protocol = some p →
      (p.scheme = .basic →
        ahPreSend c (cleanSession s) (some areq) = some (cleanSession s, some (s.spec.reqHdr ++ ": Basic ".toList))) ∧
      (p.scheme = .digest → ahPreSend c (cleanSession s) (some areq) = none) :=
  ⟨rfl, rfl, fun s p areq hp =>
    ⟨ahPreSend_cleanSession_basic c s p areq hp, ahPreSend_cleanSession_digest c s p areq hp⟩⟩

end NeonAuth.Forget
