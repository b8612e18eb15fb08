import NeonAuth.DigestRun
import NeonAuth.Forget

namespace NeonAuth.Credentials

open Text Protocol Session Verify Hooks Select Steps Forget DigestRun

structure DigestCredentials where
  username : List Char
  realm : List Char
  nonce : List Char
  uri : List Char
  response : List Char
  algorithm : AuthAlgorithm
  opaqueValue : Option (List Char)
  qop : Option (List Char × List Char)

def DigestCredentials.render (d : DigestCredentials) : List Char :=
  "Digest username=\"".toList ++ d.username ++ "\", realm=\"".toList ++ d.realm ++ "\", nonce=\"".toList ++
    d.nonce ++ "\", uri=\"".toList ++ d.uri ++ "\", response=\"".toList ++ d.response ++
    "\", algorithm=\"".toList ++ (if d.algorithm = .md5 then "MD5".toList else "MD5-sess".toList) ++ "\"".toList ++
    (match d.opaqueValue with
      | some o => ", opaque=\"".toList ++ o ++ "\"".toList
      | none => []) ++
    (match d.qop with
      | some (cn, nc) => ", cnonce=\"".toList ++ cn ++ "\", nc=".toList ++ nc ++ ", qop=\"auth\"".toList
      | none => []) ++
    "\r\n".toList

def rfcHA1 (c : Crypto) (alg : AuthAlgorithm) (user realm password nonce cnonce : List Char) : List Char :=
  let base := (c.md5 (user ++ ":".toList ++ realm ++ ":".toList ++ password)).hex
  if alg = .md5Sess then (c.md5 (base ++ ":".toList ++ nonce ++ ":".toList ++ cnonce)).hex else base

def rfcResponse (c : Crypto) (ha1 nonce : List Char) (qop : Option (List Char × List Char))
    (method uri : List Char) : List Char :=
  (c.md5 (ha1 ++ ":".toList ++ nonce ++ ":".toList ++
    (match qop with
      | some (cn, nc) => nc ++ ":".toList ++ cn ++ ":".toList ++ "auth".toList ++ ":".toList
      | none => []) ++
    (c.md5 (method ++ ":".toList ++ uri)).hex)).hex

variable {c : Crypto} {s s' : AuthSession} {areq : AuthRequest} {v realm : List Char}

theorem digestHA1_hex (alg : AuthAlgorithm) (user realm password nonce cnonce : List Char) :
    (digestHA1 c alg user realm password nonce cnonce).hex = rfcHA1 c alg user realm password nonce cnonce := by
  unfold digestHA1 rfcHA1
  split_ifs <;> rfl

theorem neConcat_opaque (o : Option (List Char)) :
    (if o.isSome = true then neConcat [some ", opaque=\"".toList, o, some "\"".toList] else []) =
      match o with
      | some o => ", opaque=\"".toList ++ o ++ "\"".toList
      | none => [] := by
  cases o <;> rfl

theorem requestDigest_render (h : requestDigest c s areq = some (s', v)) (hr : s.realm = some realm) :
    ∃ d : DigestCredentials, v = d.render ∧ d.username = s.username ∧ d.realm = realm ∧
      s.nonce = some d.nonce ∧ d.uri = areq.uri ∧ d.algorithm = s.alg ∧ d.opaqueValue = s.opaqueValue ∧
      (∀ q ∈ d.qop, s.cnonce = some q.1 ∧ q.2 = hex8 ((s.nonceCount + 1) % 2 ^ 32)) ∧
      (d.qop.isSome ↔ s.qop = .auth) ∧ d.response = rfcResponse c s.hA1.hex d.nonce d.qop areq.method areq.uri := by
  unfold requestDigest at h
  rcases hn : s.nonce with _ | nonce
  · cases hq : s.qop <;> simp [hq, hn] at h
  rcases hq : s.qop with _ | _
  · simp only [hq, hn, reduceCtorEq, if_false, Option.some.injEq, Prod.mk.injEq] at h
    obtain ⟨-, rfl⟩ := h
    refine ⟨⟨s.username, realm, nonce, areq.uri, rfcResponse c s.hA1.hex nonce none areq.method areq.uri,
      s.alg, s.opaqueValue, none⟩, ?_, rfl, rfl, rfl, rfl, rfl, rfl, by simp, by simp, rfl⟩
    rw [hr, neConcat_opaque]
    simp only [DigestCredentials.render, rfcResponse, hq, neConcat_cons_some, neConcat, if_false, reduceCtorEq,
      List.append_assoc, List.append_nil]
  rcases hc : s.cnonce with _ | cn
  · simp [hq, hn, hc] at h
  simp only [hq, hn, hc, if_true, Option.some.injEq, Prod.mk.injEq] at h
  obtain ⟨-, rfl⟩ := h
  refine ⟨⟨s.username, realm, nonce, areq.uri,
    rfcResponse c s.hA1.hex nonce (some (cn, hex8 ((s.nonceCount + 1) % 2 ^ 32))) areq.method areq.uri,
    s.alg, s.opaqueValue, some (cn, hex8 ((s.nonceCount + 1) % 2 ^ 32))⟩, ?_, rfl, rfl, rfl, rfl, rfl, rfl,
    by simp, by simp, rfl⟩
  rw [hr, neConcat_opaque]
  simp only [DigestCredentials.render, rfcResponse, neConcat_cons_some, neConcat, if_true, Option.getD_some,
    List.append_assoc]
  rfl

theorem requestDigest_value (h : requestDigest c s areq = some (s', v)) (hr : s.realm = some realm) :
    ∃ d : DigestCredentials, v = d.render ∧ d.username = s.username ∧ d.realm = realm ∧
      s.nonce = some d.nonce ∧ d.uri = areq.uri ∧ d.algorithm = s.alg ∧ d.opaqueValue = s.opaqueValue ∧
      (∀ q ∈ d.qop, s.cnonce = some q.1) ∧ (d.qop.isSome ↔ s.qop = .auth) ∧
      d.response = rfcResponse c s.hA1.hex d.nonce d.qop areq.method areq.uri := by
  obtain ⟨d, hv, hu, hr, hn, huri, ha, ho, hq, hqs, hresp⟩ := requestDigest_render h hr
  exact ⟨d, hv, hu, hr, hn, huri, ha, ho, fun q hq' => (hq q hq').1, hqs, hresp⟩

def RecOk (ns : NeSession) : Prop :=
  ∀ r req role areq, ns.requests r = some req → req.priv role = some areq →
    areq.method = req.method ∧ areq.uri = req.uri

section Run

variable {env : Env} {ns ns' : NeSession} {log : List (Event × Obs)} {e : Event} {o : Obs}

theorem RecOk.step (h : RecOk ns) (he : step env ns e = some (ns', o)) : RecOk ns' := by
  cases e with
  | call a =>
      cases he
      intro r req role areq hreq
      exact h r req role areq (by rwa [requests_apply] at hreq)
  | create r method uri =>
      cases he
      refine setRequest_forall h ?_
      rintro _ role areq ⟨⟩ ha
      obtain ⟨s, -, hc⟩ := Option.bind_eq_some.mp ha
      unfold ahCreate at hc
      dsimp only at hc
      split_ifs at hc
      cases hc
      exact ⟨rfl, rfl⟩
  | preSend r role =>
      rcases step_preSend he with ⟨rfl, -⟩ | ⟨-, -, -, -, -, -, -, rfl, -⟩ <;> exact h
  | postSend r role resp orc =>
      rcases step_postSend he with ⟨rfl, -⟩ | ⟨req, s, areq, p, hreq, -, hareq, hpost, rfl, -⟩
      · exact h
      have hp : p.areq.method = areq.method ∧ p.areq.uri = areq.uri := by
        rcases ahPostSend_cases hpost with ⟨-, h', -⟩ | ⟨-, -, -, -, -, -, h', -⟩ <;> rw [h'] <;> exact ⟨rfl, rfl⟩
      refine setRequest_forall h ?_
      rintro _ role' areq' ⟨⟩ ha
      rcases eq_or_ne role' role with rfl | hne
      · obtain rfl : p.areq = areq' := Option.some.inj ((Function.update_same role' _ req.priv).symm.trans ha)
        obtain ⟨hm, hu⟩ := h r req role' areq hreq hareq
        exact ⟨hp.1.trans hm, hp.2.trans hu⟩
      · exact h r req role' areq' hreq ((Function.update_noteq hne _ _).symm.trans ha)
  | destroy r =>
      cases he
      exact setRequest_forall h fun _ _ _ hx => nomatch hx

theorem reach_recOk (hr : Reach env ns log) : RecOk ns := by
  induction hr with
  | init scheme => intro _ _ _ _ h; cases h
  | step e hr he ih => exact ih.step he

end Run

/-- What the Digest credentials `d` sent for request `req` owe to the challenge `w.chall` that
opened the window `w`: its nonce or a nextnonce received since, its opaque value, algorithm and
realm, the qop fields iff it offered qop=auth, the request's URI, and the request-digest, over
the method and URI, of the RFC 2617 H(A1) of the sent username and realm and of the password the
credentials callback gave, with the challenge's nonce and the sent client nonce. -/
structure ForChallenge (c : Crypto) (w : Window) (req : NeRequest) (d : DigestCredentials) : Prop where
  nonce : some d.nonce = w.chall.nonce ∨ d.nonce ∈ w.nonces
  opaqueValue : d.opaqueValue = w.chall.opaqueValue
  algorithm : d.algorithm = w.chall.alg
  qop : d.qop.isSome = w.chall.gotQop
  uri : d.uri = req.uri
  realm : some d.realm = w.chall.realm
  response : ∃ ha1, d.response = rfcResponse c ha1 d.nonce d.qop req.method req.uri ∧
    (∀ q ∈ d.qop, q.1 = getCnonce c (w.orc.ext w.idx)) ∧
    ∃ call cNonce, w.calls.getLast? = some call ∧ ((w.orc.ext w.idx).creds call).refused = false ∧
      (∀ u, ((w.orc.ext w.idx).creds call).username = some u → d.username = u) ∧ w.chall.nonce = some cNonce ∧
      ha1 = rfcHA1 c d.algorithm d.username d.realm ((w.orc.ext w.idx).creds call).password cNonce
        (getCnonce c (w.orc.ext w.idx))

variable {env : Env} {ns ns' : NeSession} {log : List (Event × Obs)} {role : Role} {r : Nat} {l : List Char}
  {p : AuthProtocol}

theorem digest_credentials_of_challenge (hr : Reach env ns log) (hs : ns.priv role = some s)
    (hp : s.protocol = some p) (hd : p.scheme = .digest)
    (he : step env ns (.preSend r role) = some (ns', .sent r role (some l))) :
    ∃ w, window role log = some w ∧ w.chall.protocol = p ∧
      (w.chall.stale = false → w.forgot = false →
        ∃ req d, ns.requests r = some req ∧ l = role.authClass.reqHdr ++ ": ".toList ++ d.render ∧
          ForChallenge env.crypto w req d) := by
  obtain ⟨w, hw, hc⟩ := reach_protocolOk hr s p hs hp
  refine ⟨w, hw, hc, fun hst hfg => ?_⟩
  subst hc
  obtain ⟨s₀, hs₀, hi⟩ := reach_windowOk hr w hw hd
  obtain rfl : s = s₀ := Option.some.inj (hs.symm.trans hs₀)
  rcases step_preSend he with ⟨-, ho⟩ | ⟨req, s', s₁, line, hreq, hs', hpre, -, ho⟩
  · cases ho
  obtain rfl : s = s' := Option.some.inj (hs.symm.trans hs')
  obtain rfl : line = some l := by cases ho; rfl
  rcases ahPreSend_window hi hd hpre with ⟨hl, -⟩ | ⟨areq, v, ha, hpro, hrd, hl⟩
  · cases hl
  have hf := hi.fresh hst hfg hpro
  obtain ⟨call, realm, nonce, hcall, hcr, hcn, href, hu, hh⟩ := hf.creds
  obtain ⟨d, hv, hdu, hdr, hdn, hduri, hdalg, hdop, hdq, hdqi, hdresp⟩ := requestDigest_value hrd (hf.realm.trans hcr)
  obtain ⟨hm, hur⟩ := reach_recOk hr r req role areq hreq ha
  refine ⟨req, d, hreq, ?_, ?_, hdop.trans hf.opaqueValue, hdalg.trans hi.alg, ?_, hduri.trans hur,
    hdr ▸ hcr.symm, s.hA1.hex, by rw [hdresp, hm, hur], fun q hq => ?_, call, nonce, hcall, href,
    fun u hu' => hdu.trans (hu u hu'), hcn, ?_⟩
  · rw [Option.some.inj hl, hv, (reach_privOk hr).spec role s hs]
  · rcases hf.nonce with h' | ⟨n, hn, h'⟩
    · exact .inl (hdn.symm.trans h')
    · exact .inr (Option.some.inj (hdn.symm.trans h') ▸ hn)
  · rw [Bool.eq_iff_iff, hdqi, hi.qop]
    cases w.chall.gotQop <;> simp
  · exact Option.some.inj ((hdq q hq).symm.trans hf.cnonce)
  · rw [hh, digestHA1_hex, hdalg, hi.alg, hdu, hdr]

def digestEnv : Env := ⟨.plain, constCrypto⟩

theorem credentials_after_qop_challenge :
    ∃ ns log s p ns' l, Reach digestEnv ns log ∧ ns.priv .server = some s ∧ s.protocol = some p ∧
      p.scheme = .digest ∧ step digestEnv ns (.preSend 0 .server) = some (ns', .sent 0 .server (some l)) ∧
      ∃ w, window .server log = some w ∧ w.chall.protocol = p ∧
        (w.chall.stale = false → w.forgot = false →
          ∃ req d, ns.requests 0 = some req ∧ l = Role.server.authClass.reqHdr ++ ": ".toList ++ d.render ∧
            ForChallenge digestEnv.crypto w req d) :=
  let hr := ((@Reach.init digestEnv "http".toList).step (.call (.setServerAuth 1 1)) rfl).step
    (.create 0 "GET".toList "/".toList) rfl |>.step
    (.postSend 0 .server (challenge401 "Digest realm=\"r\", nonce=\"n\", opaque=\"o\", qop=\"auth\"") grantAll) rfl
  ⟨_, _, _, _, _, _, hr, rfl, rfl, rfl, rfl, digest_credentials_of_challenge hr rfl rfl rfl rfl⟩

/-- A stale challenge is accepted without the credentials callback and keeps what the session
held: after a challenge with an opaque value, a stale one without opaque leaves the value sent
with the earlier opaque. -/
theorem stale_challenge_keeps_opaque :
    ∃ ns log w l, Reach digestEnv ns log ∧ window .server log = some w ∧ w.chall.protocol.scheme = .digest ∧
      w.chall.stale = true ∧ w.chall.opaqueValue = none ∧ w.lines = [l] ∧ ", opaque=\"o1\"\r\n".toList <:+ l :=
  ⟨_, _, _, _, ((((@Reach.init digestEnv "http".toList).step (.call (.setServerAuth 1 1)) rfl).step
    (.create 0 "GET".toList "/".toList) rfl |>.step
    (.postSend 0 .server (challenge401 "Digest realm=\"r\", nonce=\"n1\", opaque=\"o1\"") grantAll) rfl).step
    (.postSend 0 .server (challenge401 "Digest realm=\"r\", nonce=\"n2\", stale=true") grantAll) rfl).step
    (.preSend 0 .server) rfl, rfl, rfl, rfl, rfl, rfl, by decide⟩

end NeonAuth.Credentials
