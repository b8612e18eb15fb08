import NeonAuth.Registration
import NeonAuth.Select

namespace NeonAuth.Steps

open Text Protocol Session Verify Challenge Insertion Select Hooks Registration

variable {b : Build} {c : Crypto} {s s' : AuthSession} {areq : AuthRequest}

structure Keeps (s s' : AuthSession) : Prop where
  handlers : s'.handlers = s.handlers
  spec : s'.spec = s.spec
  context : s'.context = s.context

theorem Keeps.refl (s : AuthSession) : Keeps s s := ⟨rfl, rfl, rfl⟩

theorem Keeps.trans {t u : AuthSession} (h₁ : Keeps s t) (h₂ : Keeps t u) : Keeps s u :=
  ⟨h₂.1.trans h₁.1, h₂.2.trans h₁.2, h₂.3.trans h₁.3⟩

theorem keeps_of_frame (h : Frame s s') : Keeps s s' := ⟨h.2.1, h.2.2.1, h.2.2.2⟩

theorem requestDigest_frame {v : List Char} (h : requestDigest c s areq = some (s', v)) : Frame s s' := by
  unfold requestDigest at h
  dsimp only at h
  split at h <;> cases h
  split_ifs <;> exact ⟨rfl, rfl, rfl, rfl⟩

theorem response_frame {p : AuthProtocol} {v : Option (List Char)} (h : response p c s areq = some (s', v)) :
    Frame s s' := by
  unfold response at h
  split at h
  · cases h; exact Frame.refl s
  · obtain ⟨_, h', he⟩ := Option.map_eq_some'.mp h
    cases he; exact requestDigest_frame h'
  · cases h; exact Frame.refl s

theorem ahPreSend_spec {req : Option AuthRequest} {line : Option (List Char)}
    (h : ahPreSend c s req = some (s', line)) :
    Frame s s' ∧ ∀ l, line = some l → ∃ areq v, req = some areq ∧ l = s.spec.reqHdr ++ ": ".toList ++ v := by
  unfold ahPreSend at h
  split at h
  · obtain ⟨⟨s₁, v⟩, hr, he⟩ := Option.map_eq_some'.mp h
    cases he
    have hf := response_frame hr
    refine ⟨hf, fun l hl => ?_⟩
    obtain ⟨v', -, rfl⟩ := Option.map_eq_some'.mp hl
    exact ⟨_, v', rfl, by rw [hf.2.2.1]⟩
  · cases h; exact ⟨Frame.refl s, fun _ h => by cases h⟩

theorem infoCheck_shape {junk : Nat} {st : InfoScan} {ret : NeResult}
    (h : infoCheck c junk areq s st = some (s', ret)) :
    ∃ r e, s' = { s with storedRdig := r, error := e } ∧ (ret = .ok ∨ ret = .error) := by
  unfold infoCheck at h
  repeat' (split at h <;> try dsimp only at h)
  all_goals (cases h <;> first | exact ⟨_, _, rfl, .inl rfl⟩ | exact ⟨_, _, rfl, .inr rfl⟩)

theorem infoCheck_frame {junk : Nat} {st : InfoScan} {ret : NeResult}
    (h : infoCheck c junk areq s st = some (s', ret)) : Frame s s' ∧ ret ≠ .retry := by
  obtain ⟨r, e, rfl, hret⟩ := infoCheck_shape h
  exact ⟨⟨rfl, rfl, rfl, rfl⟩, by rcases hret with rfl | rfl <;> decide⟩

theorem verify_frame {p : AuthProtocol} {junk : Nat} {value : List Char} {ret : NeResult}
    (h : verify p c junk areq s value = some (s', ret)) : Frame s s' ∧ ret ≠ .retry := by
  unfold verify at h
  split at h
  · cases h
  · obtain ⟨st, -, h⟩ := Option.bind_eq_some.mp h
    obtain ⟨⟨s₁, ret₁⟩, hc, h⟩ := Option.bind_eq_some.mp h
    have hf := infoCheck_frame hc
    dsimp only at h
    split at h <;> cases h
    · exact ⟨⟨hf.1.1, hf.1.2.1, hf.1.2.2.1, hf.1.2.2.2⟩, hf.2⟩
    · exact hf
  · unfold verifyNegotiateResponse at h
    split_ifs at h
    cases h
    exact ⟨Frame.refl s, by decide⟩

theorem challenge_calls (p : AuthProtocol) (x : Ext) (attempt : Nat) (ch : AuthChallenge) :
    ∀ call ∈ (challenge p c x s attempt ch).calls, ∃ s₁, call = credsCall s₁ attempt ch := by
  unfold challenge basicChallenge digestChallenge digestFresh negotiateChallenge
  repeat' (split <;> try dsimp only)
  all_goals
    intro call hc
    simp only [List.mem_singleton, List.not_mem_nil] at hc <;> exact ⟨_, hc⟩

theorem challenge_accepted_creds {p : AuthProtocol} {x : Ext} {attempt : Nat} {ch : AuthChallenge}
    (h : (challenge p c x s attempt ch).accepted = true)
    (hp : p.scheme = .basic ∨ (p.scheme = .digest ∧ ch.stale = false)) :
    ∃ s₁, (x.creds (credsCall s₁ attempt ch)).refused = false := by
  rcases hp with hp | ⟨hp, hs⟩
  · simp only [challenge, hp, basicChallenge, getCredentials] at h
    split at h
    · cases h
    · split_ifs at h with hr
      exact ⟨_, by simpa using hr⟩
  · simp only [challenge, hp, digestChallenge, digestFresh, getCredentials, hs, Bool.false_eq_true,
      if_false] at h
    split_ifs at h
    split at h
    · split_ifs at h with hr
      exact ⟨_, by simpa using hr⟩
    · cases h

theorem tryChallenges_keeps (o : Nat → Ext) (attempt : Nat) :
    ∀ (L : List AuthChallenge) (i : Nat) (s : AuthSession), Keeps s (tryChallenges c o attempt i s L).sess
  | [], _, s => Keeps.refl s
  | ch :: rest, i, s => by
      have hk := keeps_of_frame (challenge_frame ch.protocol c (o i) s attempt ch)
      unfold tryChallenges
      dsimp only
      split
      · exact ⟨hk.1, hk.2, hk.3⟩
      · exact hk.trans (tryChallenges_keeps o attempt rest (i + 1) _)

theorem tryChallenges_calls (o : Nat → Ext) (attempt : Nat) :
    ∀ (L : List AuthChallenge) (i : Nat) (s : AuthSession), ∀ call ∈ (tryChallenges c o attempt i s L).calls,
      ∃ ch ∈ L, ∃ s₁, call = credsCall s₁ attempt ch
  | [], _, s => by simp [tryChallenges]
  | ch :: rest, i, s => by
      have hown : ∀ call ∈ (challenge ch.protocol c (o i) s attempt ch).calls,
          ∃ ch' ∈ ch :: rest, ∃ s₁, call = credsCall s₁ attempt ch' := fun call hc =>
        ⟨ch, List.mem_cons_self _ _, challenge_calls _ _ _ _ call hc⟩
      unfold tryChallenges
      dsimp only
      split
      · exact hown
      · intro call hc
        rcases List.mem_append.mp hc with hc | hc
        · exact hown call hc
        · obtain ⟨ch', hm, hs⟩ := tryChallenges_calls o attempt rest (i + 1) _ call hc
          exact ⟨ch', List.mem_cons_of_mem _ hm, hs⟩

theorem tryChallenges_accepted (o : Nat → Ext) (attempt : Nat) {ch : AuthChallenge} :
    ∀ (L : List AuthChallenge) (i : Nat) (s : AuthSession), (tryChallenges c o attempt i s L).accepted = some ch →
      ch ∈ L ∧ ∃ s₁, Keeps s s₁ ∧
        (challenge ch.protocol c (o (tryChallenges c o attempt i s L).index) s₁ attempt ch).accepted = true ∧
        (tryChallenges c o attempt i s L).sess =
          { (challenge ch.protocol c (o (tryChallenges c o attempt i s L).index) s₁ attempt ch).sess with
            protocol := some ch.protocol } ∧
        (challenge ch.protocol c (o (tryChallenges c o attempt i s L).index) s₁ attempt ch).calls <:+
          (tryChallenges c o attempt i s L).calls
  | [], _, s, h => by simp [tryChallenges] at h
  | ch' :: rest, i, s, h => by
      have hk := keeps_of_frame (challenge_frame ch'.protocol c (o i) s attempt ch')
      unfold tryChallenges at h ⊢
      dsimp only at h ⊢
      split at h
      · cases h
        rw [if_pos ‹_›]
        exact ⟨List.mem_cons_self _ _, s, Keeps.refl s, ‹_›, rfl, List.suffix_refl _⟩
      · rw [if_neg ‹_›]
        obtain ⟨hm, s₁, hk₁, hj, hs, hc⟩ := tryChallenges_accepted o attempt rest (i + 1) _ h
        exact ⟨List.mem_cons_of_mem _ hm, s₁, hk.trans hk₁, hj, hs, hc.trans (List.suffix_append _ _)⟩

structure SameMode (s s' : AuthSession) : Prop where
  protocol : s'.protocol = s.protocol
  alg : s'.alg = s.alg
  qop : s'.qop = s.qop
  nonceCount : s'.nonceCount = s.nonceCount

theorem SameMode.trans {t u : AuthSession} (h₁ : SameMode s t) (h₂ : SameMode t u) : SameMode s u :=
  ⟨h₂.1.trans h₁.1, h₂.2.trans h₁.2, h₂.3.trans h₁.3, h₂.4.trans h₁.4⟩

theorem gssStep_mode (g : GssReply) : SameMode s (gssStep c g s).1 := by
  unfold gssStep
  split
  · exact ⟨rfl, rfl, rfl, rfl⟩
  · split_ifs <;> exact ⟨rfl, rfl, rfl, rfl⟩

theorem digestFresh_refused {x : Ext} {attempt : Nat} {ch : AuthChallenge} {realm nonce : List Char}
    (h : (digestFresh c x s attempt ch realm nonce).accepted = false) :
    SameMode s (digestFresh c x s attempt ch realm nonce).sess := by
  unfold digestFresh at h ⊢
  dsimp only at h ⊢
  split_ifs at h ⊢
  exact ⟨rfl, rfl, rfl, rfl⟩

theorem digestChallenge_refused {x : Ext} {attempt : Nat} {ch : AuthChallenge}
    (h : (digestChallenge c x s attempt ch).accepted = false) : SameMode s (digestChallenge c x s attempt ch).sess := by
  unfold digestChallenge at h ⊢
  split_ifs at h ⊢
  · exact ⟨rfl, rfl, rfl, rfl⟩
  · exact ⟨rfl, rfl, rfl, rfl⟩
  all_goals rcases hr : ch.realm with _ | realm <;> rcases hn : ch.nonce with _ | nonce <;> simp only [hr, hn] at h ⊢ <;>
    first | exact ⟨rfl, rfl, rfl, rfl⟩ | cases h | exact digestFresh_refused h

theorem challenge_refused {p : AuthProtocol} {x : Ext} {attempt : Nat} {ch : AuthChallenge}
    (h : (challenge p c x s attempt ch).accepted = false) : SameMode s (challenge p c x s attempt ch).sess := by
  cases hp : p.scheme <;> simp only [challenge, hp] at h ⊢
  · unfold basicChallenge at h ⊢
    rcases hr : ch.realm with _ | realm <;> simp only [hr] at h ⊢
    · exact ⟨rfl, rfl, rfl, rfl⟩
    · split_ifs at h ⊢
      exact ⟨rfl, rfl, rfl, rfl⟩
  · exact digestChallenge_refused h
  · unfold negotiateChallenge continueNegotiate
    split_ifs
    · dsimp only
      split
      · split_ifs
        · exact ⟨rfl, rfl, rfl, rfl⟩
        · exact gssStep_mode _
      · exact gssStep_mode _
    · exact ⟨rfl, rfl, rfl, rfl⟩

theorem tryChallenges_refused (o : Nat → Ext) (attempt : Nat) :
    ∀ (L : List AuthChallenge) (i : Nat) (s : AuthSession), (tryChallenges c o attempt i s L).accepted = none →
      SameMode s (tryChallenges c o attempt i s L).sess
  | [], _, s, _ => ⟨rfl, rfl, rfl, rfl⟩
  | ch :: rest, i, s, h => by
      unfold tryChallenges at h ⊢
      dsimp only at h ⊢
      split at h
      · cases h
      · rw [if_neg ‹_›]
        exact (challenge_refused (Bool.of_not_eq_true ‹_›)).trans (tryChallenges_refused o attempt rest (i + 1) _ h)

theorem authChallenge_eq {o : Nat → Ext} {attempt : Nat} {value : List Char} {sel : Selection}
    (h : authChallenge b c o s attempt value = some sel) :
    ∃ st, parseLoop (protocols b) s.handlers (value.length + 1) {} value = some st ∧
      sel = tryChallenges c o attempt 0 { s with protocol := none } (insertChallenges st.flush) := by
  obtain ⟨st, hst, hsel⟩ := Option.bind_eq_some.mp h
  exact ⟨st, hst, (Option.some.inj hsel).symm⟩

theorem insertChallenges_claimed {fuel : Nat} {value : List Char} {st : ChallScan}
    (hst : parseLoop (protocols b) s.handlers fuel {} value = some st) :
    ∀ ch ∈ insertChallenges st.flush,
      ch.protocol ∈ protocols b ∧ ch.handler ∈ s.handlers ∧ ch.protocol.id &&& ch.handler.protomask ≠ 0 := by
  intro ch hch
  obtain ⟨_, hm, ha, -, pre, post, hh, -⟩ := parseLoop_claimsOk hst (ch.protocol, ch.handler)
    (List.mem_map.mpr ⟨ch, (insertChallenges_perm _).mem_iff.mp hch, rfl⟩)
  exact ⟨hm, by rw [hh]; simp, ha⟩

theorem authChallenge_spec {o : Nat → Ext} {attempt : Nat} {value : List Char} {sel : Selection}
    (h : authChallenge b c o s attempt value = some sel) :
    Keeps s sel.sess ∧ (∀ call ∈ sel.calls, call.handler ∈ s.handlers ∧ call.attempt = attempt) ∧
      ∀ ch, sel.accepted = some ch → ch.protocol ∈ protocols b ∧ ch.handler ∈ s.handlers ∧
        ch.protocol.id &&& ch.handler.protomask ≠ 0 ∧
        ∃ j s₁, (challenge ch.protocol c (o j) s₁ attempt ch).accepted = true := by
  obtain ⟨st, hst, rfl⟩ := authChallenge_eq h
  have hclaimed := insertChallenges_claimed hst
  have hk := @tryChallenges_keeps c o attempt (insertChallenges st.flush) 0 { s with protocol := none }
  refine ⟨⟨hk.1, hk.2, hk.3⟩, fun call hc => ?_, fun ch hch => ?_⟩
  · obtain ⟨ch, hm, s₁, rfl⟩ := tryChallenges_calls o attempt _ _ _ call hc
    exact ⟨(hclaimed ch hm).2.1, rfl⟩
  · obtain ⟨hm, s₁, -, hj, -⟩ := tryChallenges_accepted o attempt _ _ _ hch
    exact ⟨(hclaimed ch hm).1, (hclaimed ch hm).2.1, (hclaimed ch hm).2.2, _, s₁, hj⟩

theorem challengeBranch_cases {o : Oracle} {code : Nat} {hdr : Option (List Char)} {p : Posted}
    (h : challengeBranch b c o s areq code hdr = some p) :
    p = ⟨s, areq, .ok, none, [], 0⟩ ∨
      ∃ v sel, authChallenge b c o.ext s areq.attempt v = some sel ∧
        p.sess = (if sel.accepted.isSome then sel.sess else cleanSession sel.sess) ∧
        p.areq = { areq with attempt := areq.attempt + 1 } ∧ p.accepted = sel.accepted ∧ p.index = sel.index ∧
        p.calls = sel.calls ∧ p.ret = if sel.accepted.isSome then .retry else s.spec.failCode := by
  unfold challengeBranch at h
  split at h
  · split_ifs at h
    · obtain ⟨sel, hsel, rfl⟩ := Option.map_eq_some'.mp h
      have hk := (authChallenge_spec hsel).1
      refine .inr ⟨_, sel, hsel, ?_⟩
      dsimp only
      split
      · rename_i ch hch
        exact ⟨by simp [hch], rfl, rfl, rfl, rfl, by simp [hch]⟩
      · rename_i hch
        exact ⟨by simp [hch], rfl, hch.symm, rfl, rfl, by simp [hch, hk.2]⟩
    · cases h; exact .inl rfl
  · cases h; exact .inl rfl

theorem verified_spec {q : AuthProtocol} {junk : Nat} {v : List Char} {p : Posted}
    (h : ((verify q c junk areq s v).map fun x => (⟨x.1, areq, x.2, none, [], 0⟩ : Posted)) = some p) :
    Keeps s p.sess ∧ p.areq = areq ∧ p.accepted = none ∧ p.calls = [] ∧ p.ret ≠ .retry := by
  obtain ⟨⟨s₁, ret⟩, hv, rfl⟩ := Option.map_eq_some'.mp h
  have hf := verify_frame hv
  exact ⟨keeps_of_frame hf.1, rfl, rfl, rfl, hf.2⟩

theorem flags_ne_of_and {q : AuthProtocol} {b : Bool} (h : (q.flags != 0 && b) = true) : q.flags ≠ 0 := by
  simpa using ((Bool.and_eq_true _ _).mp h).1

theorem flags_ne_of_and₃ {q : AuthProtocol} {b b' : Bool} (h : (q.flags != 0 && b && b') = true) :
    q.flags ≠ 0 :=
  flags_ne_of_and ((Bool.and_eq_true _ _).mp h).1

theorem postBranch_verify {st : Response} {q : AuthProtocol} {v : List Char}
    (h : postBranch s st = .verify q v) :
    s.protocol = some q ∧ (st.header s.spec.respInfoHdr = some v ∨ q.flags ≠ 0) := by
  unfold postBranch at h
  dsimp only at h
  split at h
  · next q' info hq hinfo =>
      split_ifs at h <;> first
        | (cases h; done)
        | (cases h; exact ⟨hq, .inl (by split_ifs at hinfo; exact hinfo)⟩)
        | (cases h; exact ⟨hq, .inr (flags_ne_of_and₃ ‹_›)⟩)
  · next q' _ hq _ _ =>
      split_ifs at h with h₁
      cases h
      exact ⟨hq, .inr (flags_ne_of_and h₁)⟩
  · cases h

theorem ahPostSend_branches {o : Oracle} {st : Response} {p : Posted} (h : ahPostSend b c o s areq st = some p) :
    ∃ s₀, s₀ = (if b = .gssapi then { s with gssapiToken := none } else s) ∧
      ((∃ q v, s.protocol = some q ∧ (st.header s.spec.respInfoHdr = some v ∨ q.flags ≠ 0) ∧
          ((verify q c o.junk areq s₀ v).map fun x => (⟨x.1, areq, x.2, none, [], 0⟩ : Posted)) = some p) ∨
        ∃ code hdr, challengeBranch b c o s₀ areq code hdr = some p) := by
  refine ⟨_, rfl, ?_⟩
  unfold ahPostSend at h
  dsimp only at h
  split at h
  · next q v hb => exact .inl ⟨q, v, (postBranch_verify hb).1, (postBranch_verify hb).2, h⟩
  · exact .inr ⟨_, _, h⟩

theorem ahPostSend_cases {o : Oracle} {st : Response} {p : Posted} (h : ahPostSend b c o s areq st = some p) :
    (Keeps s p.sess ∧ p.areq = areq ∧ p.accepted = none ∧ p.calls = [] ∧ p.ret ≠ .retry) ∨
      ∃ s₀ v sel, Frame s s₀ ∧ authChallenge b c o.ext s₀ areq.attempt v = some sel ∧
        p.sess = (if sel.accepted.isSome then sel.sess else cleanSession sel.sess) ∧
        p.areq = { areq with attempt := areq.attempt + 1 } ∧ p.accepted = sel.accepted ∧ p.index = sel.index ∧
        p.calls = sel.calls ∧ p.ret = if sel.accepted.isSome then .retry else s.spec.failCode := by
  obtain ⟨s₀, hs₀, ⟨q, v, -, -, hv⟩ | ⟨code, hdr, hc⟩⟩ := ahPostSend_branches h
  all_goals have hf : Frame s s₀ := by rw [hs₀]; split_ifs <;> exact ⟨rfl, rfl, rfl, rfl⟩
  · have h := verified_spec hv
    exact .inl ⟨(keeps_of_frame hf).trans h.1, h.2⟩
  · rcases challengeBranch_cases hc with rfl | ⟨v, sel, hsel, hk, ha, hacc, hi, hcalls, hret⟩
    · exact .inl ⟨keeps_of_frame hf, rfl, rfl, rfl, by simp⟩
    · exact .inr ⟨s₀, v, sel, hf, hsel, hk, ha, hacc, hi, hcalls, by rw [hret, hf.2.2.1]⟩

@[simp] theorem setPriv_priv (ns : NeSession) (role : Role) (s : AuthSession) :
    (ns.setPriv role s).priv = Function.update ns.priv role (some s) := rfl

@[simp] theorem setPriv_requests (ns : NeSession) (role : Role) (s : AuthSession) :
    (ns.setPriv role s).requests = ns.requests := rfl

@[simp] theorem setPriv_scheme (ns : NeSession) (role : Role) (s : AuthSession) :
    (ns.setPriv role s).scheme = ns.scheme := rfl

@[simp] theorem setRequest_priv (ns : NeSession) (r : Nat) (req : Option NeRequest) :
    (ns.setRequest r req).priv = ns.priv := rfl

@[simp] theorem setRequest_requests (ns : NeSession) (r : Nat) (req : Option NeRequest) :
    (ns.setRequest r req).requests = Function.update ns.requests r req := rfl

@[simp] theorem setRequest_scheme (ns : NeSession) (r : Nat) (req : Option NeRequest) :
    (ns.setRequest r req).scheme = ns.scheme := rfl

@[simp] theorem requests_apply (ns : NeSession) (a : ApiCall) : (a.apply ns).requests = ns.requests := by
  cases a <;> rfl

theorem setRequest_forall {Q : NeRequest → Role → AuthRequest → Prop} {ns : NeSession} {r : Nat}
    {x : Option NeRequest}
    (hold : ∀ r' req role areq, ns.requests r' = some req → req.priv role = some areq → Q req role areq)
    (hnew : ∀ req role areq, x = some req → req.priv role = some areq → Q req role areq) :
    ∀ r' req role areq, (ns.setRequest r x).requests r' = some req → req.priv role = some areq →
      Q req role areq := by
  intro r' req role areq hreq
  rcases eq_or_ne r' r with rfl | hne
  · exact hnew req role areq (by rwa [setRequest_requests, Function.update_same] at hreq)
  · exact hold r' req role areq (by rwa [setRequest_requests, Function.update_noteq hne] at hreq)

variable {env : Env} {ns ns' : NeSession} {o : Obs} {r : Nat} {role : Role}

theorem step_preSend (h : step env ns (.preSend r role) = some (ns', o)) :
    (ns' = ns ∧ o = .quiet) ∨ ∃ req s s₁ line, ns.requests r = some req ∧ ns.priv role = some s ∧
      ahPreSend env.crypto s (req.priv role) = some (s₁, line) ∧ ns' = ns.setPriv role s₁ ∧
      o = .sent r role line := by
  simp only [step] at h
  split at h
  · obtain ⟨⟨s₁, line⟩, hs, he⟩ := Option.map_eq_some'.mp h
    cases he
    exact .inr ⟨_, _, s₁, line, ‹_›, ‹_›, hs, rfl, rfl⟩
  · cases h; exact .inl ⟨rfl, rfl⟩

theorem step_postSend {resp : Response} {orc : Oracle}
    (h : step env ns (.postSend r role resp orc) = some (ns', o)) :
    (ns' = ns ∧ (o = .quiet ∨ o = .posted r role .ok none [] 0)) ∨
      ∃ req s areq p, ns.requests r = some req ∧ ns.priv role = some s ∧ req.priv role = some areq ∧
        ahPostSend env.build env.crypto orc s areq resp = some p ∧
        ns' = (ns.setPriv role p.sess).setRequest r
          (some { req with priv := Function.update req.priv role (some p.areq) }) ∧
        o = .posted r role p.ret p.accepted p.calls p.index := by
  simp only [step] at h
  split at h
  · split at h
    · cases h; exact .inl ⟨rfl, .inr rfl⟩
    · obtain ⟨p, hp, he⟩ := Option.map_eq_some'.mp h
      cases he
      exact .inr ⟨_, _, _, p, ‹_›, ‹_›, ‹_›, hp, rfl, rfl⟩
  · cases h; exact .inl ⟨rfl, .inl rfl⟩

structure PrivOk (ns : NeSession) : Prop where
  spec : ∀ role s, ns.priv role = some s → s.spec = role.authClass
  context : ∀ role s, ns.priv role = some s → s.context = authContext ns.scheme (role = .proxy)

theorem PrivOk.of_keeps (h : PrivOk ns) (hsch : ns'.scheme = ns.scheme)
    (hk : ∀ role s', ns'.priv role = some s' → ∃ s, ns.priv role = some s ∧ Keeps s s') : PrivOk ns' := by
  constructor <;> intro role s' hs' <;> obtain ⟨s, hs, hks⟩ := hk role s' hs'
  · rw [hks.2, h.spec _ _ hs]
  · rw [hks.3, h.context _ _ hs, hsch]

theorem priv_setPriv {s s₁ s' : AuthSession} (hs : ns.priv role = some s) (hk : Keeps s s₁) {role' : Role}
    (hs' : (ns.setPriv role s₁).priv role' = some s') : ∃ s, ns.priv role' = some s ∧ Keeps s s' := by
  rcases eq_or_ne role' role with rfl | hne
  · simp only [setPriv_priv, Function.update_same, Option.some.injEq] at hs'
    exact ⟨s, hs, hs' ▸ hk⟩
  · rw [setPriv_priv, Function.update_noteq hne] at hs'
    exact ⟨s', hs', Keeps.refl s'⟩

theorem mem_addHandler {h x : AuthHandler} : ∀ {l : List AuthHandler}, x ∈ addHandler h l → x = h ∨ x ∈ l
  | [], hx => .inl (by simpa [addHandler] using hx)
  | [_], hx => .inl (by simpa [addHandler] using hx)
  | y :: z :: rest, hx => by
      rw [addHandler, List.mem_cons] at hx
      rcases hx with rfl | hx
      · exact .inr (List.mem_cons_self _ _)
      · exact (mem_addHandler hx).imp_right (List.mem_cons_of_mem _)

theorem priv_authRegister {isproxy : Bool} {m : Nat} {ahc : AuthClass} {id : Role} {cr ud : Nat} {s : AuthSession}
    (hs : (authRegister ns isproxy m ahc id cr ud).priv role = some s) :
    (∃ s₀, ns.priv role = some s₀ ∧ s.spec = s₀.spec ∧ s.context = s₀.context ∧
      ∀ h ∈ s.handlers, h ∈ s₀.handlers ∨ (role = id ∧ h = ⟨m, cr, ud⟩)) ∨
      (role = id ∧ s.spec = ahc ∧ s.context = authContext ns.scheme isproxy ∧ s.handlers = [⟨m, cr, ud⟩]) := by
  rcases eq_or_ne role id with rfl | hne
  · cases h₀ : ns.priv role <;>
      simp only [Hooks.authRegister, h₀, Function.update_same, Option.some.injEq] at hs <;> subst hs
    · exact .inr ⟨rfl, rfl, rfl, rfl⟩
    · exact .inl ⟨_, rfl, rfl, rfl, fun h hh => (mem_addHandler hh).symm.imp_right fun e => ⟨rfl, e⟩⟩
  · cases h₀ : ns.priv id <;> simp only [Hooks.authRegister, h₀, Function.update_noteq hne] at hs <;>
      exact .inl ⟨s, hs, rfl, rfl, fun h hh => .inl hh⟩

theorem PrivOk.authRegister {isproxy : Bool} {m : Nat} {ahc : AuthClass} {id : Role} {cr ud : Nat}
    (h : PrivOk ns) (hc : ahc = id.authClass) (hp : isproxy = decide (id = .proxy)) :
    PrivOk (authRegister ns isproxy m ahc id cr ud) := by
  constructor <;> intro role s hs <;>
    rcases priv_authRegister hs with ⟨s₀, h₀, hsp, hcx, -⟩ | ⟨rfl, hsp, hcx, -⟩
  · rw [hsp, h.spec _ _ h₀]
  · rw [hsp, hc]
  · rw [hcx, h.context _ _ h₀]; rfl
  · rw [hcx, hp]; rfl

theorem PrivOk.apply (h : PrivOk ns) (a : ApiCall) : PrivOk (a.apply ns) := by
  cases a with
  | forgetAuth =>
      refine h.of_keeps rfl fun role s' hs' => ?_
      obtain ⟨s, hs, rfl⟩ := Option.map_eq_some'.mp hs'
      exact ⟨s, hs, ⟨rfl, rfl, rfl⟩⟩
  | _ => exact h.authRegister rfl rfl

theorem ahPostSend_keeps {b : Build} {orc : Oracle} {st : Response} {p : Posted}
    (h : ahPostSend b c orc s areq st = some p) : Keeps s p.sess := by
  rcases ahPostSend_cases h with ⟨hk, -⟩ | ⟨s₀, v, sel, hf, hsel, hs, -⟩
  · exact hk
  · have hk := (keeps_of_frame hf).trans (authChallenge_spec hsel).1
    rw [hs]; split
    · exact hk
    · exact ⟨hk.1, hk.2, hk.3⟩

theorem ahPostSend_calls {b : Build} {orc : Oracle} {st : Response} {p : Posted}
    (h : ahPostSend b c orc s areq st = some p) :
    ∀ call ∈ p.calls, call.handler ∈ s.handlers ∧ call.attempt = areq.attempt := by
  rcases ahPostSend_cases h with ⟨-, -, -, hc, -⟩ | ⟨s₀, v, sel, hf, hsel, -, -, -, -, hc, -⟩
  · simp [hc]
  · rw [hc, ← hf.2.1]; exact (authChallenge_spec hsel).2.1

theorem PrivOk.step (h : PrivOk ns) {e : Event} (he : step env ns e = some (ns', o)) : PrivOk ns' := by
  cases e with
  | call a => cases he; exact h.apply a
  | create r method uri => cases he; exact h.of_keeps rfl fun _ s hs => ⟨s, hs, Keeps.refl s⟩
  | preSend r role =>
      rcases step_preSend he with ⟨rfl, -⟩ | ⟨req, s, s₁, line, -, hs, hp, rfl, -⟩
      · exact h
      · exact h.of_keeps rfl fun _ _ => priv_setPriv hs (keeps_of_frame (ahPreSend_spec hp).1)
  | postSend r role resp orc =>
      rcases step_postSend he with ⟨rfl, -⟩ | ⟨req, s, areq, p, -, hs, -, hp, rfl, -⟩
      · exact h
      · exact h.of_keeps rfl fun _ _ => priv_setPriv hs (ahPostSend_keeps hp)
  | destroy r => cases he; exact h.of_keeps rfl fun _ s hs => ⟨s, hs, Keeps.refl s⟩

theorem step_scheme {e : Event} (he : step env ns e = some (ns', o)) : ns'.scheme = ns.scheme := by
  cases e with
  | call a => cases he; exact scheme_apply ns a
  | preSend r role =>
      rcases step_preSend he with ⟨rfl, -⟩ | ⟨-, -, -, -, -, -, -, rfl, -⟩ <;> rfl
  | postSend r role resp orc =>
      rcases step_postSend he with ⟨rfl, -⟩ | ⟨-, -, -, -, -, -, -, -, rfl, -⟩ <;> rfl
  | _ => cases he; rfl

theorem reach_privOk {log : List (Event × Obs)} (hr : Reach env ns log) : PrivOk ns := by
  induction hr with
  | init scheme => exact ⟨fun _ _ h => (by cases h), fun _ _ h => (by cases h)⟩
  | step e _ he ih => exact ih.step he

end NeonAuth.Steps
