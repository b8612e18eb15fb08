import NeonAuth.Steps

namespace NeonAuth.DigestRun

open Text Protocol Session Verify Challenge Hooks Steps

variable {c : Crypto} {x : Ext} {s s' : AuthSession} {attempt : Nat} {ch : AuthChallenge}

theorem digestChallenge_accepted (h : (digestChallenge c x s attempt ch).accepted = true) :
    ∃ realm nonce, ch.realm = some realm ∧ ch.nonce = some nonce ∧
      (digestChallenge c x s attempt ch).sess.alg = ch.alg ∧
      (digestChallenge c x s attempt ch).sess.nonce = some nonce ∧
      (digestChallenge c x s attempt ch).sess.cnonce = some (getCnonce c x) ∧
      (digestChallenge c x s attempt ch).sess.qop = (if ch.gotQop then .auth else .none) ∧
      (ch.gotQop = true → (digestChallenge c x s attempt ch).sess.nonceCount = 0) ∧
      (ch.stale = false →
        (digestChallenge c x s attempt ch).sess.realm = some realm ∧
        (digestChallenge c x s attempt ch).sess.opaqueValue = ch.opaqueValue ∧
        ∃ s₁, (digestChallenge c x s attempt ch).calls = [credsCall s₁ attempt ch] ∧
          (x.creds (credsCall s₁ attempt ch)).refused = false ∧
          (∀ u, (x.creds (credsCall s₁ attempt ch)).username = some u →
            (digestChallenge c x s attempt ch).sess.username = u) ∧
          (digestChallenge c x s attempt ch).sess.hA1 = digestHA1 c ch.alg
            (digestChallenge c x s attempt ch).sess.username realm (x.creds (credsCall s₁ attempt ch)).password
            nonce (getCnonce c x)) := by
  unfold digestChallenge at h ⊢
  split at h
  · cases h
  rw [if_neg ‹_›]
  split at h
  · cases h
  rw [if_neg ‹_›]
  rcases hr : ch.realm with _ | realm <;> rcases hn : ch.nonce with _ | nonce <;> simp only [hr, hn] at h ⊢ <;>
    try cases h
  refine ⟨realm, nonce, rfl, rfl, ?_⟩
  cases hs : ch.stale
  · rw [hs, if_neg Bool.false_ne_true] at h
    simp only [hs, if_neg Bool.false_ne_true]
    unfold digestFresh at h ⊢
    dsimp only at h ⊢
    split_ifs at h with hc
    rw [if_neg hc]
    clear h
    simp only [getCredentials] at hc ⊢
    refine ⟨?_, ?_, ?_, ?_, ?_, fun _ => ⟨?_, ?opq, _, rfl, by simpa using hc, fun u hu => ?user, ?_⟩⟩
    case user => by_cases hq : ch.gotQop <;> simp [digestNonce_eq, hq, cleanSession] at hu ⊢ <;> simp [hu]
    case opq => cases hop : ch.opaqueValue <;> simp [digestNonce_eq, hop, cleanSession]
    all_goals by_cases hq : ch.gotQop <;> simp [digestNonce_eq, hq, cleanSession]
  · simp only [hs, if_true, digestNonce_eq]
    exact ⟨trivial, trivial, trivial, trivial, fun hq => if_pos hq, fun h => absurd h (by decide)⟩

structure DigestFrame (s s' : AuthSession) : Prop where
  protocol : s'.protocol = s.protocol
  alg : s'.alg = s.alg
  qop : s'.qop = s.qop
  nonceCount : s'.nonceCount = s.nonceCount
  cnonce : s'.cnonce = s.cnonce
  realm : s'.realm = s.realm
  opaqueValue : s'.opaqueValue = s.opaqueValue
  username : s'.username = s.username
  hA1 : s'.hA1 = s.hA1

theorem DigestFrame.refl (s : AuthSession) : DigestFrame s s := ⟨rfl, rfl, rfl, rfl, rfl, rfl, rfl, rfl, rfl⟩

theorem DigestFrame.trans {t u : AuthSession} (h₁ : DigestFrame s t) (h₂ : DigestFrame t u) : DigestFrame s u :=
  ⟨h₂.1.trans h₁.1, h₂.2.trans h₁.2, h₂.3.trans h₁.3, h₂.4.trans h₁.4, h₂.5.trans h₁.5, h₂.6.trans h₁.6,
    h₂.7.trans h₁.7, h₂.8.trans h₁.8, h₂.9.trans h₁.9⟩

def nextnonceOf (v : List Char) : Option (List Char) :=
  (infoLoop (v.length + 1) {} v).bind (·.nextnonce)

theorem infoCheck_fields {junk : Nat} {areq : AuthRequest} {st : InfoScan} {ret : NeResult}
    (h : infoCheck c junk areq s st = some (s', ret)) : DigestFrame s s' ∧ s'.nonce = s.nonce := by
  obtain ⟨r, e, rfl, -⟩ := infoCheck_shape h
  exact ⟨⟨rfl, rfl, rfl, rfl, rfl, rfl, rfl, rfl, rfl⟩, rfl⟩

theorem verifyDigestResponse_fields {junk : Nat} {areq : AuthRequest} {v : List Char} {ret : NeResult}
    (h : verifyDigestResponse c junk areq s v = some (s', ret)) :
    DigestFrame s s' ∧ (s'.nonce = s.nonce ∨ ∃ n, nextnonceOf v = some n ∧ s'.nonce = some n) := by
  unfold verifyDigestResponse at h
  obtain ⟨st, hst, h⟩ := Option.bind_eq_some.mp h
  obtain ⟨⟨s₁, ret₁⟩, hc, h⟩ := Option.bind_eq_some.mp h
  obtain ⟨hf, hn⟩ := infoCheck_fields hc
  dsimp only at h
  split at h
  · next _ n hn' =>
      cases h
      exact ⟨⟨hf.1, hf.2, hf.3, hf.4, hf.5, hf.6, hf.7, hf.8, hf.9⟩, .inr ⟨n, by simp [nextnonceOf, hst, hn'], rfl⟩⟩
  · cases h; exact ⟨hf, .inl hn⟩

/-- What the log shows since `role` last accepted a challenge: the challenge, the outside world's
answers in that post-send hook and the credentials calls it made; then every line the role sent,
every nextnonce offered to it in an Authentication-Info header, and whether the application has
called ne_forget_auth. -/
structure Window where
  chall : AuthChallenge
  orc : Oracle
  idx : Nat
  calls : List CredsCall
  lines : List (List Char)
  nonces : List (List Char)
  forgot : Bool

def windowStep (role : Role) (w : Option Window) : Event × Obs → Option Window
  | (.postSend _ _ resp orc, .posted _ role' _ acc calls idx) =>
      if role' = role then
        match acc with
        | some ch => some ⟨ch, orc, idx, calls, [], [], false⟩
        | none => w.map fun w =>
            { w with nonces := w.nonces ++ ((resp.header role.authClass.respInfoHdr).bind nextnonceOf).toList }
      else w
  | (_, .sent _ role' (some line)) =>
      if role' = role then w.map fun w => { w with lines := w.lines ++ [line] } else w
  | (.call .forgetAuth, _) => w.map fun w => { w with forgot := true }
  | _ => w

def window (role : Role) (log : List (Event × Obs)) : Option Window :=
  log.foldl (windowStep role) none

theorem window_append (role : Role) (log : List (Event × Obs)) (eo : Event × Obs) :
    window role (log ++ [eo]) = windowStep role (window role log) eo := by
  simp [window, List.foldl_append]

def ncTail (cn : List Char) (n : Nat) : List Char :=
  ", cnonce=\"".toList ++ cn ++ "\", nc=".toList ++ hex8 n ++ ", qop=\"".toList ++ "auth".toList ++ "\"".toList ++
    "\r\n".toList

structure Fresh (c : Crypto) (w : Window) (cn : List Char) (s : AuthSession) : Prop where
  realm : s.realm = w.chall.realm
  opaqueValue : s.opaqueValue = w.chall.opaqueValue
  cnonce : s.cnonce = some cn
  nonce : s.nonce = w.chall.nonce ∨ ∃ n ∈ w.nonces, s.nonce = some n
  creds : ∃ call realm nonce, w.calls.getLast? = some call ∧ w.chall.realm = some realm ∧
    w.chall.nonce = some nonce ∧ ((w.orc.ext w.idx).creds call).refused = false ∧
    (∀ u, ((w.orc.ext w.idx).creds call).username = some u → s.username = u) ∧
    s.hA1 = digestHA1 c w.chall.alg s.username realm ((w.orc.ext w.idx).creds call).password nonce cn

/-- What the session of a role holds in the window opened by the Digest challenge `w.chall`,
whose acceptor chose the client nonce `cn`. -/
structure WinInv (c : Crypto) (w : Window) (cn : List Char) (s : AuthSession) : Prop where
  flags : w.chall.protocol.flags = 0
  protocol : s.protocol = some w.chall.protocol ∨ s.protocol = none
  alg : s.alg = w.chall.alg
  qop : s.qop = if w.chall.gotQop then .auth else .none
  nonce : s.nonce = none ∨ s.nonce = w.chall.nonce ∨ ∃ n ∈ w.nonces, s.nonce = some n
  cnonce : ∀ x, s.cnonce = some x → x = cn
  count : w.chall.gotQop = true → s.nonceCount = w.lines.length % 2 ^ 32 ∧
    ∀ i (h : i < w.lines.length), ncTail cn ((i + 1) % 2 ^ 32) <:+ w.lines[i]
  fresh : w.chall.stale = false → w.forgot = false → s.protocol = some w.chall.protocol → Fresh c w cn s

variable {w : Window} {cn : List Char}

theorem Fresh.of_frame (h : Fresh c w cn s) (hf : DigestFrame s { s' with nonceCount := s.nonceCount })
    (hn : s'.nonce = s.nonce ∨ ∃ n ∈ w.nonces, s'.nonce = some n) : Fresh c w cn s' := by
  refine ⟨hf.6 ▸ h.1, hf.7 ▸ h.2, hf.5 ▸ h.3, ?_, ?_⟩
  · rcases hn with hn | hn
    · exact hn ▸ h.4
    · exact .inr hn
  · obtain ⟨call, realm, nonce, hc, hr, hn, href, hu, hh⟩ := h.5
    exact ⟨call, realm, nonce, hc, hr, hn, href, fun u hu' => hf.8 ▸ hu u hu',
      (congrArg AuthSession.hA1 rfl).trans (hf.9.trans (hf.8 ▸ hh))⟩

theorem Fresh.setLines (h : Fresh c w cn s) (l : List (List Char)) : Fresh c { w with lines := l } cn s :=
  ⟨h.1, h.2, h.3, h.4, h.5⟩

theorem WinInv.of_frame (h : WinInv c w cn s) (hf : DigestFrame s s')
    (hn : s'.nonce = s.nonce ∨ ∃ n ∈ w.nonces, s'.nonce = some n) : WinInv c w cn s' := by
  refine ⟨h.flags, hf.1 ▸ h.protocol, hf.2 ▸ h.alg, hf.3 ▸ h.qop, ?_, fun x hx => h.cnonce x (hf.5 ▸ hx),
    fun hq => hf.4 ▸ h.count hq, fun hs hfg hp => (h.fresh hs hfg (hf.1 ▸ hp)).of_frame
      ⟨hf.1, hf.2, hf.3, rfl, hf.5, hf.6, hf.7, hf.8, hf.9⟩ hn⟩
  rcases hn with hn | hn
  · exact hn ▸ h.nonce
  · exact .inr (.inr hn)

theorem WinInv.addNonces (h : WinInv c w cn s) (l : List (List Char)) :
    WinInv c { w with nonces := w.nonces ++ l } cn s := by
  have hm : ∀ n ∈ w.nonces, n ∈ w.nonces ++ l := fun n hn => List.mem_append_left _ hn
  refine ⟨h.flags, h.protocol, h.alg, h.qop, ?_, h.cnonce, h.count, fun hs hf hp => ?_⟩
  · rcases h.nonce with hn | hn | ⟨n, hn, he⟩
    · exact .inl hn
    · exact .inr (.inl hn)
    · exact .inr (.inr ⟨n, hm n hn, he⟩)
  · have hfr := h.fresh hs hf hp
    refine ⟨hfr.1, hfr.2, hfr.3, ?_, hfr.5⟩
    rcases hfr.4 with hn | ⟨n, hn, he⟩
    · exact .inl hn
    · exact .inr ⟨n, hm n hn, he⟩

theorem WinInv.forget (h : WinInv c w cn s) : WinInv c { w with forgot := true } cn (cleanSession s) :=
  ⟨h.flags, h.protocol, h.alg, h.qop, .inl rfl, fun _ hx => (by cases hx), h.count, fun _ hf => (by cases hf)⟩

theorem WinInv.refused (h : WinInv c w cn s) {s₁ : AuthSession} (hp : s₁.protocol = none)
    (hm : s₁.alg = s.alg ∧ s₁.qop = s.qop ∧ s₁.nonceCount = s.nonceCount) : WinInv c w cn (cleanSession s₁) :=
  ⟨h.flags, .inr hp, hm.1 ▸ h.alg, hm.2.1 ▸ h.qop, .inl rfl, fun _ hx => (by cases hx),
    fun hq => hm.2.2 ▸ h.count hq, fun _ _ hp' => (by simp [hp] at hp')⟩

theorem requestDigest_spec {areq : AuthRequest} {v : List Char} (h : requestDigest c s areq = some (s', v)) :
    s'.nonceCount = (if s.qop = .auth then (s.nonceCount + 1) % 2 ^ 32 else s.nonceCount) ∧
      DigestFrame s { s' with nonceCount := s.nonceCount } ∧ s'.nonce = s.nonce ∧
      (s.qop = .auth → ∃ cn, s.cnonce = some cn ∧ ncTail cn ((s.nonceCount + 1) % 2 ^ 32) <:+ v) := by
  unfold requestDigest at h
  by_cases hq : s.qop = .auth
  · simp only [hq, if_true] at h
    rcases hn : s.nonce with _ | nonce
    · simp only [hn] at h; cases h
    rcases hc : s.cnonce with _ | cn
    · simp only [hn, hc] at h; cases h
    simp only [hn, hc, hq, if_true, Option.some.injEq, Prod.mk.injEq] at h
    obtain ⟨rfl, rfl⟩ := h
    refine ⟨by simp [hq], by constructor <;> simp [hq, hc], by simp [hq, hn], fun _ => ⟨cn, rfl, ?_⟩⟩
    simp only [ncTail, neConcat, hq, if_true, List.append_assoc, List.append_nil]
    repeat (first | exact List.suffix_refl _ | refine List.IsSuffix.trans ?_ (List.suffix_append _ _))
  · rcases hqv : s.qop with _ | _
    · rcases hn : s.nonce with _ | nonce <;> simp [hn, hqv] at h
      obtain ⟨rfl, rfl⟩ := h
      exact ⟨by simp [hqv], by constructor <;> simp [hqv], by simp [hqv, hn], fun h => by cases h⟩
    · exact absurd hqv hq

theorem WinInv.emit (h : WinInv c w cn s) {areq : AuthRequest} {v pfx : List Char}
    (hr : requestDigest c s areq = some (s', v)) :
    WinInv c { w with lines := w.lines ++ [pfx ++ v] } cn s' := by
  obtain ⟨hnc, hf, hn, htail⟩ := requestDigest_spec hr
  refine ⟨h.flags, hf.1 ▸ h.protocol, hf.2 ▸ h.alg, hf.3 ▸ h.qop, hn ▸ h.nonce,
    fun x hx => h.cnonce x (hf.5 ▸ hx), fun hq => ?_,
    fun hs hfg hp => ((h.fresh hs hfg (hf.1 ▸ hp)).of_frame hf (.inl hn)).setLines _⟩
  have hqa : s.qop = .auth := by rw [h.qop, hq]; rfl
  obtain ⟨hc, hl⟩ := h.count hq
  obtain ⟨cn', hcn, hsuf⟩ := htail hqa
  obtain rfl := h.cnonce cn' hcn
  rw [hnc, if_pos hqa, hc, Nat.mod_add_mod] at *
  refine ⟨by simp, fun i hi => ?_⟩
  simp only [List.length_append, List.length_singleton] at hi
  rcases Nat.lt_succ_iff_lt_or_eq.mp hi with hi | rfl
  · rw [List.getElem_append_left hi]; exact hl i hi
  · simpa using hsuf.trans (List.suffix_append pfx v)

theorem getLast_of_suffix {x : CredsCall} {l : List CredsCall} (h : [x] <:+ l) : l.getLast? = some x := by
  obtain ⟨l', rfl⟩ := h
  exact List.getLast?_concat l'

theorem winInv_accept {orc : Oracle} {j : Nat} {s₁ : AuthSession} {calls : List CredsCall}
    (hfl : ch.protocol.flags = 0) (ha : (digestChallenge c (orc.ext j) s₁ attempt ch).accepted = true)
    (hcalls : (digestChallenge c (orc.ext j) s₁ attempt ch).calls <:+ calls) :
    WinInv c ⟨ch, orc, j, calls, [], [], false⟩ (getCnonce c (orc.ext j))
      { (digestChallenge c (orc.ext j) s₁ attempt ch).sess with protocol := some ch.protocol } := by
  obtain ⟨realm, nonce, hr, hn, halg, hnon, hcn, hq, hcount, hfresh⟩ := digestChallenge_accepted ha
  refine ⟨hfl, .inl rfl, halg, hq, .inr (.inl (hnon.trans hn.symm)), fun x hx => ?_,
    fun hg => ⟨by simp [hcount hg], fun i hi => absurd hi (Nat.not_lt_zero i)⟩, fun hs _ _ => ?_⟩
  · simp only [hcn, Option.some.injEq] at hx; exact hx.symm
  · obtain ⟨hre, hop, s₂, hc, href, hu, hh⟩ := hfresh hs
    exact ⟨hre.trans hr.symm, hop, hcn, .inl (hnon.trans hn.symm),
      ⟨_, realm, nonce, getLast_of_suffix (hc ▸ hcalls), hr, hn, href, hu, hh⟩⟩

theorem authRegister_frame {isproxy : Bool} {m : Nat} {ahc : AuthClass} {id role : Role} {cr ud : Nat}
    {ns : NeSession} (hs : ns.priv role = some s) :
    ∃ s', (authRegister ns isproxy m ahc id cr ud).priv role = some s' ∧ DigestFrame s s' ∧ s'.nonce = s.nonce := by
  rcases eq_or_ne role id with rfl | hne
  · simp only [Hooks.authRegister, hs, Function.update_same, Option.some.injEq, exists_eq_left']
    exact ⟨⟨rfl, rfl, rfl, rfl, rfl, rfl, rfl, rfl, rfl⟩, trivial⟩
  · cases h₀ : ns.priv id <;>
      exact ⟨s, by simp only [Hooks.authRegister, h₀, Function.update_noteq hne, hs], DigestFrame.refl s, rfl⟩

theorem WinInv.protocol_eq (h : WinInv c w cn s) {q : AuthProtocol} (hq : s.protocol = some q) :
    q = w.chall.protocol := by
  rcases h.protocol with h' | h' <;> rw [hq] at h'
  · exact Option.some.inj h'
  · cases h'

theorem ahPreSend_window (h : WinInv c w cn s) (hd : w.chall.protocol.scheme = .digest)
    {req : Option AuthRequest} {line : Option (List Char)} (hp : ahPreSend c s req = some (s', line)) :
    (line = none ∧ s' = s) ∨ ∃ areq v, req = some areq ∧ s.protocol = some w.chall.protocol ∧
      requestDigest c s areq = some (s', v) ∧ line = some (s.spec.reqHdr ++ ": ".toList ++ v) := by
  rcases hs : s.protocol with _ | q
  · simp only [ahPreSend, hs, Option.some.injEq, Prod.mk.injEq] at hp; exact .inl ⟨hp.2.symm, hp.1.symm⟩
  cases req with
  | none => simp only [ahPreSend, hs, Option.some.injEq, Prod.mk.injEq] at hp; exact .inl ⟨hp.2.symm, hp.1.symm⟩
  | some areq =>
      simp only [ahPreSend, hs, h.protocol_eq hs, response, hd, Option.map_map, Option.map_eq_some', Prod.exists,
        Function.comp, Option.map_some', Prod.mk.injEq] at hp
      obtain ⟨s₁, v, hr, rfl, rfl⟩ := hp
      exact .inr ⟨areq, v, rfl, by rw [h.protocol_eq hs], hr, by rw [(requestDigest_frame hr).2.2.1]⟩

theorem digest_mem_protocols {b : Build} {p : AuthProtocol} (hp : p ∈ protocols b) (hd : p.scheme = .digest) :
    p = digestProtocol := by
  cases b <;> simp only [protocols, List.mem_cons, List.mem_singleton, List.not_mem_nil, or_false] at hp <;>
    rcases hp with rfl | rfl | rfl <;> first | rfl | cases hd

theorem gssClear_frame (b : Build) (s : AuthSession) :
    DigestFrame s (if b = .gssapi then { s with gssapiToken := none } else s) ∧
      (if b = .gssapi then { s with gssapiToken := none } else s).nonce = s.nonce := by
  split_ifs <;> exact ⟨⟨rfl, rfl, rfl, rfl, rfl, rfl, rfl, rfl, rfl⟩, rfl⟩

theorem ahPostSend_digest_accept {b : Build} {orc : Oracle} {areq : AuthRequest} {resp : Response}
    {p : Posted} (h : ahPostSend b c orc s areq resp = some p) (ha : p.accepted = some ch)
    (hd : ch.protocol.scheme = .digest) :
    ch.protocol.flags = 0 ∧ ∃ s₁, (digestChallenge c (orc.ext p.index) s₁ areq.attempt ch).accepted = true ∧
      p.sess = { (digestChallenge c (orc.ext p.index) s₁ areq.attempt ch).sess with protocol := some ch.protocol } ∧
      (digestChallenge c (orc.ext p.index) s₁ areq.attempt ch).calls <:+ p.calls := by
  rcases ahPostSend_cases h with ⟨-, -, hn, -⟩ | ⟨s₀, v, sel, -, hsel, hs, -, hacc, hi, hcalls, -⟩
  · rw [hn] at ha; cases ha
  rw [ha] at hacc
  have hmem := ((authChallenge_spec hsel).2.2 ch hacc.symm).1
  obtain ⟨st, -, rfl⟩ := authChallenge_eq hsel
  obtain ⟨-, s₁, -, hj, hsess, hc⟩ := tryChallenges_accepted orc.ext areq.attempt _ 0 _ hacc.symm
  simp only [challenge, hd] at hj hsess hc
  rw [← hacc, Option.isSome_some, if_pos rfl] at hs
  rw [hi, hcalls]
  exact ⟨by rw [digest_mem_protocols hmem hd]; rfl, s₁, hj, hs.trans hsess, hc⟩

theorem WinInv.postSend {b : Build} {orc : Oracle} {areq : AuthRequest} {resp : Response} {p : Posted}
    {role : Role} (h : WinInv c w cn s) (hd : w.chall.protocol.scheme = .digest)
    (hspec : s.spec = role.authClass) (hp : ahPostSend b c orc s areq resp = some p) (ha : p.accepted = none) :
    WinInv c { w with nonces := w.nonces ++ ((resp.header role.authClass.respInfoHdr).bind nextnonceOf).toList }
      cn p.sess := by
  have hf := gssClear_frame b s
  obtain ⟨_, rfl, ⟨q, v, hsq, hv, hp⟩ | ⟨code, hdr, hc⟩⟩ := ahPostSend_branches hp
  · obtain rfl := h.protocol_eq hsq
    have hv' : resp.header role.authClass.respInfoHdr = some v := by
      rcases hv with hv | hv
      · rwa [hspec] at hv
      · exact absurd h.flags hv
    simp only [verify, hd, Option.map_eq_some'] at hp
    obtain ⟨⟨s', ret⟩, hr, rfl⟩ := hp
    obtain ⟨hf', hn⟩ := verifyDigestResponse_fields hr
    refine (h.addNonces _).of_frame (hf.1.trans hf') ?_
    rcases hn with hn | ⟨n, hn, hsn⟩
    · exact .inl (hn.trans hf.2)
    · exact .inr ⟨n, List.mem_append_right _ (by simp [hv', hn]), hsn⟩
  · rcases challengeBranch_cases hc with rfl | ⟨v, sel, hsel, hs, -, hacc, -, -⟩
    · exact (h.addNonces _).of_frame hf.1 (.inl hf.2)
    rw [ha] at hacc
    obtain ⟨st, -, rfl⟩ := authChallenge_eq hsel
    have hm := tryChallenges_refused orc.ext areq.attempt _ 0 _ hacc.symm
    rw [hs, ← hacc, Option.isSome_none, if_neg Bool.false_ne_true]
    exact (h.addNonces _).refused hm.protocol ⟨hm.alg.trans hf.1.alg, hm.qop.trans hf.1.qop,
      hm.nonceCount.trans hf.1.nonceCount⟩

theorem ahPostSend_protocol {b : Build} {orc : Oracle} {areq : AuthRequest} {resp : Response} {p : Posted}
    (h : ahPostSend b c orc s areq resp = some p) :
    (∀ ch, p.accepted = some ch → p.sess.protocol = some ch.protocol) ∧
      (p.accepted = none → p.sess.protocol = s.protocol ∨ p.sess.protocol = none) := by
  have hf := (gssClear_frame b s).1.protocol
  obtain ⟨_, rfl, ⟨q, v, -, -, hv⟩ | ⟨code, hdr, hc⟩⟩ := ahPostSend_branches h
  · obtain ⟨⟨s₁, ret⟩, hv', rfl⟩ := Option.map_eq_some'.mp hv
    exact ⟨fun _ h => (by cases h), fun _ => .inl ((verify_frame hv').1.1.trans hf)⟩
  rcases challengeBranch_cases hc with rfl | ⟨v, sel, hsel, hs, -, hacc, -, -⟩
  · exact ⟨fun _ h => (by cases h), fun _ => .inl hf⟩
  obtain ⟨st, -, rfl⟩ := authChallenge_eq hsel
  refine ⟨fun ch ha => ?_, fun ha => .inr ?_⟩
  · rw [ha] at hacc
    obtain ⟨-, s₁, -, -, hsess, -⟩ := tryChallenges_accepted orc.ext areq.attempt _ 0 _ hacc.symm
    rw [hs, ← hacc, Option.isSome_some, if_pos rfl, hsess]
  · rw [ha] at hacc
    rw [hs, ← hacc, Option.isSome_none, if_neg Bool.false_ne_true, cleanSession_protocol]
    exact (tryChallenges_refused orc.ext areq.attempt _ 0 _ hacc.symm).protocol

theorem authRegister_protocol {isproxy : Bool} {m : Nat} {ahc : AuthClass} {id role : Role} {cr ud : Nat}
    {ns : NeSession} (hs' : (authRegister ns isproxy m ahc id cr ud).priv role = some s') :
    (∃ s, ns.priv role = some s ∧ s'.protocol = s.protocol) ∨ s'.protocol = none := by
  rcases eq_or_ne role id with rfl | hne
  · cases h₀ : ns.priv role <;>
      simp only [Hooks.authRegister, h₀, Function.update_same, Option.some.injEq] at hs' <;> subst hs'
    · exact .inr rfl
    · exact .inl ⟨_, rfl, rfl⟩
  · cases h₀ : ns.priv id <;> simp only [Hooks.authRegister, h₀, Function.update_noteq hne] at hs' <;>
      exact .inl ⟨s', hs', rfl⟩

/-- The window invariant of a role along a run: while the last challenge the role accepted is a
Digest one, the role's session holds the window invariant for the client nonce the acceptor chose
from the answer it got. -/
def WindowOk (c : Crypto) (role : Role) (ns : NeSession) (log : List (Event × Obs)) : Prop :=
  ∀ w, window role log = some w → w.chall.protocol.scheme = .digest →
    ∃ s, ns.priv role = some s ∧ WinInv c w (getCnonce c (w.orc.ext w.idx)) s

section Run

variable {env : Env} {role : Role} {ns ns' : NeSession} {log : List (Event × Obs)} {e : Event} {o : Obs}

theorem WindowOk.apply (h : WindowOk env.crypto role ns log) (a : ApiCall) :
    WindowOk env.crypto role (a.apply ns) (log ++ [(.call a, .quiet)]) := by
  intro w hw hd
  rw [window_append] at hw
  cases a with
  | forgetAuth =>
      obtain ⟨w₀, hw₀, rfl⟩ := Option.map_eq_some'.mp hw
      obtain ⟨s, hs, hi⟩ := h w₀ hw₀ hd
      exact ⟨_, by simp [ApiCall.apply, neForgetAuth, hs], hi.forget⟩
  | _ =>
      obtain ⟨s, hs, hi⟩ := h w hw hd
      obtain ⟨s', hs', hf, hn⟩ := authRegister_frame hs
      exact ⟨s', hs', hi.of_frame hf (.inl hn)⟩

theorem WindowOk.preSend (h : WindowOk env.crypto role ns log) {r : Nat} {role' : Role}
    (he : step env ns (.preSend r role') = some (ns', o)) : WindowOk env.crypto role ns' (log ++ [(.preSend r role', o)]) := by
  intro w hw hd
  rw [window_append] at hw
  rcases step_preSend he with ⟨rfl, rfl⟩ | ⟨req, s, s₁, line, -, hs, hpre, rfl, rfl⟩
  · exact h w hw hd
  rcases eq_or_ne role' role with rfl | hne
  · cases line with
    | none =>
        obtain ⟨s₀, hs₀, hi⟩ := h w hw hd
        obtain rfl := Option.some.inj (hs₀.symm.trans hs)
        rcases ahPreSend_window hi hd hpre with ⟨-, rfl⟩ | ⟨_, _, -, -, -, hl⟩
        · exact ⟨_, by simp, hi⟩
        · cases hl
    | some l =>
        simp only [windowStep, ite_true] at hw
        obtain ⟨w₀, hw₀, rfl⟩ := Option.map_eq_some'.mp hw
        obtain ⟨s₀, hs₀, hi⟩ := h w₀ hw₀ hd
        obtain rfl := Option.some.inj (hs₀.symm.trans hs)
        rcases ahPreSend_window hi hd hpre with ⟨hl, -⟩ | ⟨areq, v, -, -, hr, hl⟩
        · cases hl
        · cases hl
          exact ⟨s₁, by simp, hi.emit hr⟩
  · have hw' : window role log = some w := by cases line <;> simpa [windowStep, hne] using hw
    obtain ⟨s₀, hs₀, hi⟩ := h w hw' hd
    exact ⟨s₀, by rw [setPriv_priv, Function.update_noteq hne.symm, hs₀], hi⟩

theorem WindowOk.postSend (h : WindowOk env.crypto role ns log) (hpo : PrivOk ns) {r : Nat} {role' : Role}
    {resp : Response} {orc : Oracle} (he : step env ns (.postSend r role' resp orc) = some (ns', o)) :
    WindowOk env.crypto role ns' (log ++ [(.postSend r role' resp orc, o)]) := by
  intro w hw hd
  rw [window_append] at hw
  rcases step_postSend he with ⟨rfl, rfl | rfl⟩ | ⟨req, s, areq, p, -, hs, -, hpost, rfl, rfl⟩
  · exact h w hw hd
  · rcases eq_or_ne role' role with rfl | hne
    · simp only [windowStep, ite_true] at hw
      obtain ⟨w₀, hw₀, rfl⟩ := Option.map_eq_some'.mp hw
      obtain ⟨s, hs, hi⟩ := h w₀ hw₀ hd
      exact ⟨s, hs, hi.addNonces _⟩
    · simp only [windowStep, if_neg hne] at hw
      exact h w hw hd
  rcases eq_or_ne role' role with rfl | hne
  · have hps : ((ns.setPriv role' p.sess).setRequest r
        (some { req with priv := Function.update req.priv role' (some p.areq) })).priv role' = some p.sess := by simp
    cases hacc : p.accepted with
    | some ch =>
        simp only [windowStep, ite_true, hacc, Option.some.injEq] at hw
        subst hw
        obtain ⟨hfl, s₁, hj, hsess, hc⟩ := ahPostSend_digest_accept hpost hacc hd
        exact ⟨_, hps, hsess ▸ winInv_accept hfl hj hc⟩
    | none =>
        simp only [windowStep, ite_true, hacc] at hw
        obtain ⟨w₀, hw₀, rfl⟩ := Option.map_eq_some'.mp hw
        obtain ⟨s₀, hs₀, hi⟩ := h w₀ hw₀ hd
        obtain rfl := Option.some.inj (hs₀.symm.trans hs)
        exact ⟨_, hps, hi.postSend hd (hpo.spec _ _ hs) hpost hacc⟩
  · simp only [windowStep, if_neg hne] at hw
    obtain ⟨s₀, hs₀, hi⟩ := h w hw hd
    exact ⟨s₀, by rw [setRequest_priv, setPriv_priv, Function.update_noteq hne.symm, hs₀], hi⟩

theorem WindowOk.step (h : WindowOk env.crypto role ns log) (hpo : PrivOk ns) (he : step env ns e = some (ns', o)) :
    WindowOk env.crypto role ns' (log ++ [(e, o)]) := by
  cases e with
  | call a => cases he; exact h.apply a
  | preSend r role' => exact h.preSend he
  | postSend r role' resp orc => exact h.postSend hpo he
  | create r m u => cases he; intro w hw; rw [window_append] at hw; exact h w hw
  | destroy r => cases he; intro w hw; rw [window_append] at hw; exact h w hw

theorem reach_windowOk (hr : Reach env ns log) : WindowOk env.crypto role ns log := by
  induction hr with
  | init scheme => intro w hw; cases hw
  | step e hr he ih => exact ih.step (reach_privOk hr) he

theorem windowStep_keeps {W : Option Window} {e : Event} {o : Obs}
    (h : ∀ r role' ret ch calls i, o ≠ .posted r role' ret (some ch) calls i) (hw : W = some w) :
    ∃ w', windowStep role W (e, o) = some w' ∧ w'.chall = w.chall := by
  subst hw
  unfold windowStep
  split
  · next _ _ _ _ _ _ _ _ acc _ _ heq =>
      split_ifs
      · rcases acc with _ | ch
        · exact ⟨_, rfl, rfl⟩
        · exact (h _ _ _ ch _ _ (Prod.mk.inj heq).2).elim
      · exact ⟨w, rfl, rfl⟩
  · split_ifs <;> exact ⟨_, rfl, rfl⟩
  · exact ⟨_, rfl, rfl⟩
  · exact ⟨w, rfl, rfl⟩

def ProtocolOk (role : Role) (ns : NeSession) (log : List (Event × Obs)) : Prop :=
  ∀ s p, ns.priv role = some s → s.protocol = some p → ∃ w, window role log = some w ∧ w.chall.protocol = p

theorem ProtocolOk.keeps (h : ProtocolOk role ns log) {s p : _} (hs : ns.priv role = some s)
    (hp : s.protocol = some p) {o : Obs} (ho : ∀ r role' ret ch calls i, o ≠ .posted r role' ret (some ch) calls i) :
    ∃ w, windowStep role (window role log) (e, o) = some w ∧ w.chall.protocol = p := by
  obtain ⟨w, hw, hc⟩ := h s p hs hp
  obtain ⟨w', hw', hc'⟩ := windowStep_keeps ho hw
  exact ⟨w', hw', hc' ▸ hc⟩

theorem ProtocolOk.step (h : ProtocolOk role ns log) (he : step env ns e = some (ns', o)) :
    ProtocolOk role ns' (log ++ [(e, o)]) := by
  intro s p hs hp
  rw [window_append]
  have hq : ∀ r role' ret ch calls i, Obs.quiet ≠ .posted r role' ret (some ch) calls i := by simp
  cases e with
  | call a =>
      cases he
      cases a with
      | forgetAuth =>
          obtain ⟨s₀, hs₀, rfl⟩ := Option.map_eq_some'.mp hs
          exact h.keeps hs₀ hp hq
      | _ =>
          rcases authRegister_protocol hs with ⟨s₀, hs₀, hp₀⟩ | hn
          · exact h.keeps hs₀ (hp₀.symm.trans hp) hq
          · rw [hn] at hp; cases hp
  | create r m u => cases he; exact h.keeps hs hp hq
  | destroy r => cases he; exact h.keeps hs hp hq
  | preSend r role' =>
      rcases step_preSend he with ⟨rfl, rfl⟩ | ⟨req, s₀, s₁, line, -, hs₀, hpre, rfl, rfl⟩
      · exact h.keeps hs hp hq
      rcases eq_or_ne role' role with rfl | hne
      · simp only [setPriv_priv, Function.update_same, Option.some.injEq] at hs
        subst hs
        exact h.keeps hs₀ ((ahPreSend_spec hpre).1.1.symm.trans hp) (by simp)
      · rw [setPriv_priv, Function.update_noteq hne.symm] at hs
        exact h.keeps hs hp (by simp)
  | postSend r role' resp orc =>
      rcases step_postSend he with ⟨rfl, rfl | rfl⟩ | ⟨req, s₀, areq, q, -, hs₀, -, hpost, rfl, rfl⟩
      · exact h.keeps hs hp hq
      · exact h.keeps hs hp (by simp)
      rcases eq_or_ne role' role with rfl | hne
      · simp only [setRequest_priv, setPriv_priv, Function.update_same, Option.some.injEq] at hs
        subst hs
        have hpp := ahPostSend_protocol hpost
        cases hacc : q.accepted with
        | some ch =>
            rw [hpp.1 ch hacc] at hp
            exact ⟨⟨ch, orc, q.index, q.calls, [], [], false⟩, by simp [windowStep, hacc], Option.some.inj hp⟩
        | none =>
            rcases hpp.2 hacc with hp₀ | hn
            · exact h.keeps hs₀ (hp₀ ▸ hp) (by simp [hacc])
            · rw [hn] at hp; cases hp
      · rw [setRequest_priv, setPriv_priv, Function.update_noteq hne.symm] at hs
        obtain ⟨w, hw, hc⟩ := h s p hs hp
        exact ⟨w, by simp [windowStep, hne, hw], hc⟩

theorem reach_protocolOk (hr : Reach env ns log) : ProtocolOk role ns log := by
  induction hr with
  | init scheme => intro _ _ hs; cases hs
  | step e hr he ih => exact ih.step he

end Run

end NeonAuth.DigestRun
