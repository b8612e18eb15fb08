import NeonAuth.DigestRun
import NeonAuth.Forget
import NeonAuth.Retries

namespace NeonAuth.Rounds

open Text Protocol Session Verify Challenge Hooks Select Steps Retries DigestRun Forget

def isRound (role : Role) (ret : NeResult) : Bool := ret == .retry || ret == role.authClass.failCode

@[simp] theorem isRound_ok (role : Role) : isRound role .ok = false := by cases role <;> rfl

@[simp] theorem isRound_error (role : Role) : isRound role .error = false := by cases role <;> rfl

@[simp] theorem isRound_retry (role : Role) : isRound role .retry = true := rfl

@[simp] theorem isRound_failCode (role : Role) : isRound role role.authClass.failCode = true := by
  cases role <;> rfl

variable {b : Build} {c : Crypto} {s : AuthSession} {areq : AuthRequest}

theorem verify_result {q : AuthProtocol} {junk : Nat} {v : List Char} {s' : AuthSession} {ret : NeResult}
    (h : verify q c junk areq s v = some (s', ret)) :
    (ret = .ok ∨ ret = .error) ∧ s'.protocol = s.protocol ∧ s'.basic = s.basic ∧ s'.username = s.username ∧
      s'.hA1 = s.hA1 ∧ s'.gssapiToken = s.gssapiToken := by
  cases hq : q.scheme <;> simp only [verify, hq, verifyNegotiateResponse] at h
  · cases h
  · obtain ⟨st, -, h⟩ := Option.bind_eq_some.mp h
    obtain ⟨⟨s₁, r₁⟩, hc, h⟩ := Option.bind_eq_some.mp h
    obtain ⟨r, e, rfl, hr⟩ := infoCheck_shape hc
    dsimp only at h
    split at h <;> (cases h; exact ⟨hr, rfl, rfl, rfl, rfl, rfl⟩)
  · split_ifs at h
    cases h
    exact ⟨.inr rfl, rfl, rfl, rfl, rfl, rfl⟩

structure OffRound (b : Build) (s s' : AuthSession) : Prop where
  protocol : s'.protocol = s.protocol
  basic : s'.basic = s.basic
  username : s'.username = s.username
  hA1 : s'.hA1 = s.hA1
  token : s'.gssapiToken = if b = .gssapi then none else s.gssapiToken
  idle : s.protocol = none → s' = if b = .gssapi then { s with gssapiToken := none } else s

theorem offRound_clear (b : Build) (s : AuthSession) :
    OffRound b s (if b = .gssapi then { s with gssapiToken := none } else s) := by
  refine ⟨?_, ?_, ?_, ?_, ?_, fun _ => rfl⟩ <;> split_ifs <;> rfl

theorem ahPostSend_outcome {o : Oracle} {st : Response} {p : Posted} (h : ahPostSend b c o s areq st = some p) :
    ((p.ret = .ok ∨ p.ret = .error) ∧ p.areq = areq ∧ p.accepted = none ∧ p.calls = [] ∧ OffRound b s p.sess) ∨
      p.areq = { areq with attempt := areq.attempt + 1 } ∧
        ∃ s₀ v sel, Frame s s₀ ∧ authChallenge b c o.ext s₀ areq.attempt v = some sel ∧
          p.accepted = sel.accepted ∧ p.calls = sel.calls ∧
          match sel.accepted with
          | some ch => p.ret = .retry ∧ p.sess.protocol = some ch.protocol
          | none => p.ret = s.spec.failCode ∧ p.sess.protocol = none ∧ cleanSession p.sess = p.sess := by
  obtain ⟨s₀, hs₀, ⟨q, v, hq, -, hv⟩ | ⟨code, hdr, hc⟩⟩ := ahPostSend_branches h
  all_goals have hf : Frame s s₀ := by rw [hs₀]; split_ifs <;> exact ⟨rfl, rfl, rfl, rfl⟩
  · obtain ⟨⟨s₁, ret⟩, hv', rfl⟩ := Option.map_eq_some'.mp hv
    obtain ⟨hret, hp, hb, hu, hh, ht⟩ := verify_result hv'
    have hc := offRound_clear b s
    rw [← hs₀] at hc
    exact .inl ⟨hret, rfl, rfl, rfl, ⟨hp.trans hc.1, hb.trans hc.2, hu.trans hc.3, hh.trans hc.4, ht.trans hc.5,
      fun hn => absurd (hq.symm.trans hn) (by simp)⟩⟩
  rcases challengeBranch_cases hc with rfl | ⟨v, sel, hsel, hs, ha, hacc, -, hcalls, hret⟩
  · exact .inl ⟨.inl rfl, rfl, rfl, rfl, hs₀ ▸ offRound_clear b s⟩
  refine .inr ⟨ha, s₀, v, sel, hf, hsel, hacc, hcalls, ?_⟩
  rw [hret, hs, hf.2.2.1]
  obtain ⟨st, -, rfl⟩ := authChallenge_eq hsel
  split
  · next ch hch =>
      obtain ⟨-, s₁, -, -, hsess, -⟩ := tryChallenges_accepted o.ext areq.attempt _ 0 _ hch
      simp only [hch, Option.isSome_some, if_true, hsess, and_self]
  · next hch =>
      simp only [hch, Option.isSome_none, Bool.false_eq_true, if_false, cleanSession_protocol, true_and]
      exact ⟨(tryChallenges_refused o.ext areq.attempt _ 0 _ hch).protocol, rfl⟩

section Calls

variable {ns : NeSession} {role : Role}

theorem authRegister_priv (role : Role) (isproxy : Bool) (m : Nat) (ahc : AuthClass) (id : Role) (cr ud : Nat) :
    ((authRegister ns isproxy m ahc id cr ud).priv role = none ∧ ns.priv role = none) ∨
      ∃ s', (authRegister ns isproxy m ahc id cr ud).priv role = some s' ∧
        ((∃ s, ns.priv role = some s ∧ s' = { s with handlers := s'.handlers }) ∨
          (ns.priv role = none ∧ s' = { context := s'.context, spec := s'.spec, handlers := s'.handlers })) := by
  rcases eq_or_ne role id with rfl | hne
  · cases h₀ : ns.priv role with
    | none =>
        exact .inr ⟨{ context := authContext ns.scheme isproxy, spec := ahc, handlers := addHandler ⟨m, cr, ud⟩ [] },
          by simp [authRegister, h₀], .inr ⟨rfl, rfl⟩⟩
    | some s =>
        exact .inr ⟨{ s with handlers := addHandler ⟨m, cr, ud⟩ s.handlers }, by simp [authRegister, h₀],
          .inl ⟨_, rfl, rfl⟩⟩
  · have he : (authRegister ns isproxy m ahc id cr ud).priv role = ns.priv role := Function.update_noteq hne _ _
    cases h₀ : ns.priv role
    · exact .inl ⟨he.trans h₀, rfl⟩
    · exact .inr ⟨_, he.trans h₀, .inl ⟨_, rfl, rfl⟩⟩

theorem apply_priv (role : Role) (a : ApiCall) :
    ((a.apply ns).priv role = none ∧ ns.priv role = none) ∨
      ∃ s', (a.apply ns).priv role = some s' ∧
        ((∃ s, ns.priv role = some s ∧ (s' = cleanSession s ∨ s' = { s with handlers := s'.handlers })) ∨
          (ns.priv role = none ∧ s' = { context := s'.context, spec := s'.spec, handlers := s'.handlers })) := by
  cases a with
  | forgetAuth =>
      cases h₀ : ns.priv role
      · exact .inl ⟨by simp [ApiCall.apply, neForgetAuth, h₀], rfl⟩
      · exact .inr ⟨_, by simp [ApiCall.apply, neForgetAuth, h₀], .inl ⟨_, rfl, .inl rfl⟩⟩
  | _ =>
      exact (authRegister_priv role _ _ _ _ _ _).imp_right fun ⟨s', hs', h⟩ =>
        ⟨s', hs', h.imp_left fun ⟨s, hs, he⟩ => ⟨s, hs, .inr he⟩⟩

end Calls

/-- The protocol the log shows `role` selected: that of the challenge its last round accepted,
none after a round that accepted none, and none before any round. -/
def selectStep (role : Role) (p : Option AuthProtocol) : Event × Obs → Option AuthProtocol
  | (_, .posted _ role' ret acc _ _) =>
      if role' = role then
        match acc with
        | some ch => some ch.protocol
        | none => if ret = role.authClass.failCode then none else p
      else p
  | _ => p

def lastSelected (role : Role) (log : List (Event × Obs)) : Option AuthProtocol :=
  log.foldl (selectStep role) none

theorem lastSelected_append (role : Role) (log : List (Event × Obs)) (eo : Event × Obs) :
    lastSelected role (log ++ [eo]) = selectStep role (lastSelected role log) eo := by
  simp [lastSelected, List.foldl_append]

structure SelOk (b : Build) (role : Role) (ns : NeSession) (log : List (Event × Obs)) : Prop where
  sess : (ns.priv role).bind AuthSession.protocol = lastSelected role log
  table : ∀ p, lastSelected role log = some p → p ∈ protocols b

section Selection

variable {env : Env} {ns ns' : NeSession} {log : List (Event × Obs)} {role : Role} {e : Event} {o : Obs}

theorem SelOk.keep (h : SelOk env.build role ns log)
    (hb : (ns'.priv role).bind AuthSession.protocol = (ns.priv role).bind AuthSession.protocol)
    (ho : selectStep role (lastSelected role log) (e, o) = lastSelected role log) :
    SelOk env.build role ns' (log ++ [(e, o)]) :=
  ⟨by rw [lastSelected_append, ho, hb, h.sess], by rw [lastSelected_append, ho]; exact h.table⟩

theorem bind_protocol_setPriv {role' : Role} {s s₁ : AuthSession} (hs : ns.priv role' = some s)
    (hp : s₁.protocol = s.protocol) :
    ((ns.setPriv role' s₁).priv role).bind AuthSession.protocol = (ns.priv role).bind AuthSession.protocol := by
  rcases eq_or_ne role role' with rfl | hne
  · simp [hs, hp]
  · simp [Function.update_noteq hne]

theorem SelOk.step (h : SelOk env.build role ns log) (hp : PrivOk ns) (he : step env ns e = some (ns', o)) :
    SelOk env.build role ns' (log ++ [(e, o)]) := by
  cases e with
  | call a =>
      cases he
      refine h.keep ?_ rfl
      rcases apply_priv role a with ⟨h₁, h₀⟩ | ⟨s', h₁, ⟨s, h₀, rfl | hs⟩ | ⟨h₀, hs⟩⟩
      · rw [h₁, h₀]
      · rw [h₁, h₀]; rfl
      · rw [h₁, h₀, hs]; rfl
      · rw [h₁, h₀, hs]; rfl
  | create r method uri => cases he; exact h.keep rfl rfl
  | preSend r role' =>
      rcases step_preSend he with ⟨rfl, rfl⟩ | ⟨req, s, s₁, line, -, hs, hpre, rfl, rfl⟩
      · exact h.keep rfl rfl
      · exact h.keep (bind_protocol_setPriv hs (ahPreSend_spec hpre).1.1) rfl
  | postSend r role' resp orc =>
      rcases step_postSend he with ⟨rfl, rfl | rfl⟩ | ⟨req, s, areq, p, -, hs, -, hpost, rfl, rfl⟩
      · exact h.keep rfl rfl
      · exact h.keep rfl (by cases role' <;> cases role <;> rfl)
      rcases eq_or_ne role' role with rfl | hne
      · have hspec := hp.spec role' s hs
        have hsel : s.protocol = lastSelected role' log := by simpa [hs] using h.sess
        suffices hpo : p.sess.protocol = selectStep role' (lastSelected role' log)
            (.postSend r role' resp orc, .posted r role' p.ret p.accepted p.calls p.index) ∧
            ∀ q, selectStep role' (lastSelected role' log)
              (.postSend r role' resp orc, .posted r role' p.ret p.accepted p.calls p.index) = some q → q ∈ protocols env.build by
          exact ⟨by simpa [lastSelected_append] using hpo.1, by rw [lastSelected_append]; exact hpo.2⟩
        rcases ahPostSend_outcome hpost with ⟨hret, -, hacc, -, hoff⟩ | ⟨-, s₀, v, sel, -, hsel', hacc, -, hout⟩
        · have hne : p.ret ≠ role'.authClass.failCode := by
            rcases hret with h' | h' <;> rw [h'] <;> cases role' <;> decide
          simp only [selectStep, if_true, hacc, hne, if_false, hoff.protocol, hsel, true_and]
          exact h.table
        · rw [hacc]
          split at hout
          · next ch hch =>
              simp only [selectStep, if_true, hch, hout.2, Option.some.injEq, forall_eq', true_and]
              exact ((authChallenge_spec hsel').2.2 ch hch).1
          · next hch =>
            obtain ⟨hret, hprot, -⟩ := hout
            simp only [selectStep, if_true, hch, hret, hspec, hprot, true_and]
            exact fun q hq => by cases hq
      · exact h.keep (by simp [Function.update_noteq hne.symm]) (by simp [selectStep, hne])
  | destroy r => cases he; exact h.keep rfl rfl

theorem reach_selOk (role : Role) (hr : Reach env ns log) : SelOk env.build role ns log := by
  induction hr with
  | init scheme => exact ⟨rfl, fun _ h => by cases h⟩
  | step e hr he ih => exact ih.step (reach_privOk hr) he

end Selection

theorem ahPreSend_line {req : Option AuthRequest} {s' : AuthSession} {l : List Char}
    (h : ahPreSend c s req = some (s', some l)) :
    ∃ p areq v, s.protocol = some p ∧ req = some areq ∧ response p c s areq = some (s', some v) ∧
      l = s.spec.reqHdr ++ ": ".toList ++ v := by
  rcases hp : s.protocol with _ | p
  · simp [ahPreSend, hp] at h
  cases req with
  | none => simp [ahPreSend, hp] at h
  | some areq =>
      simp only [ahPreSend, hp] at h
      obtain ⟨⟨s₁, v⟩, hr, he⟩ := Option.map_eq_some'.mp h
      simp only [Prod.mk.injEq, Option.map_eq_some'] at he
      obtain ⟨rfl, v', rfl, rfl⟩ := he
      exact ⟨p, areq, v', rfl, rfl, hr, by rw [(response_frame hr).2.2.1]⟩

theorem requestDigest_name {s' : AuthSession} {v : List Char} (h : requestDigest c s areq = some (s', v)) :
    ∃ rest, v = "Digest".toList ++ ' ' :: rest := by
  unfold requestDigest at h
  dsimp only at h
  split at h <;> cases h
  exact ⟨_, rfl⟩

theorem response_name {p : AuthProtocol} (hp : p ∈ protocols b) {s' : AuthSession} {v : List Char}
    (h : response p c s areq = some (s', some v)) : ∃ rest, v = p.name ++ ' ' :: rest := by
  have hp' : p = basicProtocol ∨ p = digestProtocol ∨ p = negotiateProtocol := by
    cases b <;> simp only [protocols, List.mem_cons, List.not_mem_nil, or_false] at hp <;> tauto
  rcases hp' with rfl | rfl | rfl
  · simp only [response, basicProtocol, Option.some.injEq, Prod.mk.injEq] at h
    obtain ⟨-, rfl⟩ := h
    exact ⟨_, rfl⟩
  · obtain ⟨⟨s₁, v₁⟩, hr, he⟩ := Option.map_eq_some'.mp h
    simp only [Prod.mk.injEq, Option.some.injEq] at he
    obtain ⟨rfl, rfl⟩ := he
    exact requestDigest_name hr
  · simp only [response, negotiateProtocol, requestNegotiate, Option.some.injEq, Prod.mk.injEq,
      Option.map_eq_some'] at h
    obtain ⟨-, t, -, rfl⟩ := h
    exact ⟨_, rfl⟩

def CleanOk (role : Role) (ns : NeSession) : Prop :=
  ∀ s, ns.priv role = some s → s.protocol = none → cleanSession s = s

theorem ahPreSend_of_protocol_none {req : Option AuthRequest} {s' : AuthSession} {line : Option (List Char)}
    (h : ahPreSend c s req = some (s', line)) (hp : s.protocol = none) : s' = s := by
  simp only [ahPreSend, hp, Option.some.injEq, Prod.mk.injEq] at h
  exact h.1.symm

section Clean

variable {env : Env} {ns ns' : NeSession} {role : Role} {e : Event} {o : Obs}

theorem CleanOk.setPriv (h : CleanOk role ns) {role' : Role} {s₁ : AuthSession}
    (h₁ : role' = role → s₁.protocol = none → cleanSession s₁ = s₁) : CleanOk role (ns.setPriv role' s₁) := by
  intro s hs hp
  rcases eq_or_ne role role' with rfl | hne
  · simp only [setPriv_priv, Function.update_same, Option.some.injEq] at hs
    exact hs ▸ h₁ rfl (hs ▸ hp)
  · rw [setPriv_priv, Function.update_noteq hne] at hs
    exact h s hs hp

theorem CleanOk.step (h : CleanOk role ns) (he : step env ns e = some (ns', o)) : CleanOk role ns' := by
  cases e with
  | call a =>
      cases he
      intro s' hs' hp
      rcases apply_priv role a with ⟨h₁, -⟩ | ⟨s', h₁, ⟨s, h₀, rfl | hs⟩ | ⟨-, hs⟩⟩ <;>
        rw [h₁] at hs' <;> cases hs'
      · rfl
      · have hc : cleanSession s = s := h s h₀ (by rw [← hp, hs])
        calc cleanSession s' = { cleanSession s with handlers := s'.handlers } := by rw [hs]; rfl
          _ = s' := by rw [hc, ← hs]
      · rw [hs]; rfl
  | create r method uri => cases he; exact h
  | preSend r role' =>
      rcases step_preSend he with ⟨rfl, -⟩ | ⟨req, s, s₁, line, -, hs, hpre, rfl, -⟩
      · exact h
      · refine h.setPriv fun hr hp => ?_
        subst hr
        have hp₀ : s.protocol = none := (ahPreSend_spec hpre).1.1 ▸ hp
        rw [ahPreSend_of_protocol_none hpre hp₀]
        exact h s hs hp₀
  | postSend r role' resp orc =>
      rcases step_postSend he with ⟨rfl, -⟩ | ⟨req, s, areq, p, -, hs, -, hpost, rfl, -⟩
      · exact h
      refine h.setPriv fun hr hp => ?_
      subst hr
      rcases ahPostSend_outcome hpost with ⟨-, -, -, -, hoff⟩ | ⟨-, s₀, v, sel, -, -, -, -, hout⟩
      · have hp₀ : s.protocol = none := hoff.protocol ▸ hp
        have hc := h s hs hp₀
        rw [hoff.idle hp₀]
        split_ifs
        · calc cleanSession { s with gssapiToken := none } = { cleanSession s with gssapiToken := none } := rfl
            _ = { s with gssapiToken := none } := by rw [hc]
        · exact hc
      · split at hout
        · rw [hout.2] at hp; cases hp
        · exact hout.2.2
  | destroy r => cases he; exact h

theorem reach_cleanOk {log : List (Event × Obs)} (hr : Reach env ns log) : CleanOk role ns := by
  induction hr with
  | init scheme => intro _ hs; cases hs
  | step e hr he ih => exact ih.step he

end Clean

theorem challenge_calls_realm (p : AuthProtocol) (x : Ext) (attempt : Nat) (ch : AuthChallenge) :
    ∀ call ∈ (challenge p c x s attempt ch).calls, call.realm = ch.realm ∧ ch.realm ≠ none := by
  intro call hc
  have hr : ∀ realm, ch.realm = some realm → ∀ s₁ : AuthSession, s₁.realm = some realm →
      call = credsCall s₁ attempt ch → call.realm = ch.realm ∧ ch.realm ≠ none :=
    fun realm h s₁ h₁ hc => by subst hc; exact ⟨h₁.trans h.symm, h ▸ Option.some_ne_none realm⟩
  unfold challenge at hc
  split at hc
  · unfold basicChallenge at hc
    split at hc
    · cases hc
    · next realm h =>
        dsimp only at hc
        split_ifs at hc <;> exact hr realm h _ rfl (List.mem_singleton.mp hc)
  · unfold digestChallenge at hc
    split_ifs at hc
    · cases hc
    · cases hc
    · split at hc <;> cases hc
    · split at hc
      · next realm nonce h _ =>
          unfold digestFresh at hc
          dsimp only at hc
          split_ifs at hc <;> exact hr realm h _ rfl (List.mem_singleton.mp hc)
      · cases hc
  · unfold negotiateChallenge at hc
    split_ifs at hc <;> cases hc

theorem tryChallenges_calls_of {P : CredsCall → Prop} (o : Nat → Ext) (attempt : Nat) :
    ∀ (L : List AuthChallenge) (i : Nat) (s : AuthSession),
      (∀ ch ∈ L, ∀ j s₁, ∀ call ∈ (challenge ch.protocol c (o j) s₁ attempt ch).calls, P call) →
      ∀ call ∈ (tryChallenges c o attempt i s L).calls, P call
  | [], _, _, _ => by simp [tryChallenges]
  | ch :: rest, i, s, hP => by
      unfold tryChallenges
      dsimp only
      split
      · exact hP ch (List.mem_cons_self _ _) i s
      · intro call hc
        rcases List.mem_append.mp hc with hc | hc
        · exact hP ch (List.mem_cons_self _ _) i s call hc
        · exact tryChallenges_calls_of o attempt rest (i + 1) _
            (fun ch' hm => hP ch' (List.mem_cons_of_mem _ hm)) call hc

/-- The challenge rounds request `r` has had for `role` since it was last created. -/
def roundStep (r : Nat) (role : Role) (n : Nat) : Event × Obs → Nat
  | (.create r' _ _, _) => if r' = r then 0 else n
  | (_, .posted r' role' ret _ _ _) => if r' = r ∧ role' = role ∧ isRound role ret then n + 1 else n
  | _ => n

def rounds (r : Nat) (role : Role) (log : List (Event × Obs)) : Nat :=
  log.foldl (roundStep r role) 0

theorem rounds_append (r : Nat) (role : Role) (log : List (Event × Obs)) (eo : Event × Obs) :
    rounds r role (log ++ [eo]) = roundStep r role (rounds r role log) eo := by
  simp [rounds, List.foldl_append]

def AttemptOk (ns : NeSession) (log : List (Event × Obs)) : Prop :=
  ∀ r req role areq, ns.requests r = some req → req.priv role = some areq → areq.attempt = rounds r role log

theorem ahPostSend_attempt {o : Oracle} {st : Response} {p : Posted} {role : Role}
    (h : ahPostSend b c o s areq st = some p) (hspec : s.spec = role.authClass) :
    p.areq.attempt = areq.attempt + if isRound role p.ret then 1 else 0 := by
  rcases ahPostSend_outcome h with ⟨hret, ha, -⟩ | ⟨ha, -, -, sel, -, -, -, -, hout⟩
  · rcases hret with hret | hret <;> simp [ha, hret]
  · rw [ha]
    split at hout <;> simp [hout.1, hspec]

section Attempts

variable {env : Env} {ns ns' : NeSession} {log : List (Event × Obs)} {e : Event} {o : Obs}

theorem AttemptOk.keep (h : AttemptOk ns log) (hreq : ns'.requests = ns.requests)
    (ho : ∀ r role, roundStep r role (rounds r role log) (e, o) = rounds r role log) :
    AttemptOk ns' (log ++ [(e, o)]) := by
  intro r req role areq hr ha
  rw [rounds_append, ho]
  exact h r req role areq (hreq ▸ hr) ha

theorem AttemptOk.step (h : AttemptOk ns log) (hp : PrivOk ns) (he : step env ns e = some (ns', o)) :
    AttemptOk ns' (log ++ [(e, o)]) := by
  cases e with
  | call a => cases he; exact h.keep (requests_apply ns a) fun _ _ => rfl
  | create r₀ method uri =>
      cases he
      intro r req role areq hr ha
      rw [rounds_append]
      rcases eq_or_ne r r₀ with rfl | hne
      · simp only [setRequest_requests, Function.update_same, Option.some.injEq] at hr
        subst hr
        obtain ⟨s, -, hc⟩ := Option.bind_eq_some.mp ha
        unfold ahCreate at hc
        dsimp only at hc
        split_ifs at hc
        cases hc
        simp [roundStep]
      · rw [setRequest_requests, Function.update_noteq hne] at hr
        simp only [roundStep, Ne.symm hne, if_false]
        exact h r req role areq hr ha
  | preSend r₀ role₀ =>
      rcases step_preSend he with ⟨rfl, rfl⟩ | ⟨-, -, -, -, -, -, -, rfl, rfl⟩
      · exact h.keep rfl fun _ _ => rfl
      · exact h.keep rfl fun _ _ => rfl
  | postSend r₀ role₀ resp orc =>
      rcases step_postSend he with ⟨rfl, rfl | rfl⟩ | ⟨req₀, s, areq₀, p, hreq₀, hs, ha₀, hpost, rfl, rfl⟩
      · exact h.keep rfl fun _ _ => rfl
      · exact h.keep rfl fun _ _ => by simp [roundStep]
      intro r req role areq hr ha
      rw [rounds_append]
      rcases eq_or_ne r r₀ with rfl | hne
      · simp only [setRequest_requests, Function.update_same, Option.some.injEq] at hr
        subst hr
        rcases eq_or_ne role role₀ with rfl | hne'
        · simp only [Function.update_same, Option.some.injEq] at ha
          subst ha
          rw [ahPostSend_attempt hpost (hp.spec role s hs), h r req₀ role areq₀ hreq₀ ha₀]
          by_cases hround : isRound role p.ret <;> simp [roundStep, hround]
        · simp only [roundStep, Ne.symm hne', false_and, and_false, if_false]
          exact h r req₀ role areq hreq₀ ((Function.update_noteq hne' _ _).symm.trans ha)
      · rw [setRequest_requests, Function.update_noteq hne] at hr
        simp only [roundStep, Ne.symm hne, false_and, if_false]
        exact h r req role areq hr ha
  | destroy r₀ =>
      cases he
      intro r req role areq hr ha
      rcases eq_or_ne r r₀ with rfl | hne
      · simp at hr
      · rw [setRequest_requests, Function.update_noteq hne] at hr
        rw [rounds_append]
        exact h r req role areq hr ha

theorem reach_attemptOk (hr : Reach env ns log) : AttemptOk ns log := by
  induction hr with
  | init scheme => intro _ _ _ _ h; cases h
  | step e hr he ih => exact ih.step (reach_privOk hr) he

end Attempts

section Headline

variable {env : Env} {ns : NeSession} {log : List (Event × Obs)}

/-- Over any run, the protocol a role has selected is the one its last challenge round accepted,
and none after a round that accepted none; every header ah_pre_send appends for the role names
the scheme of that challenge, an entry of the build's table. -/
theorem selection_follows_rounds (hr : Reach env ns log) (role : Role) :
    (ns.priv role).bind AuthSession.protocol = lastSelected role log ∧
      ∀ r ns' l, step env ns (.preSend r role) = some (ns', .sent r role (some l)) →
        ∃ p rest, lastSelected role log = some p ∧ p ∈ protocols env.build ∧
          l = role.authClass.reqHdr ++ ": ".toList ++ p.name ++ ' ' :: rest := by
  have hsel := reach_selOk role hr
  refine ⟨hsel.sess, fun r ns' l he => ?_⟩
  rcases step_preSend he with ⟨-, ho⟩ | ⟨req, s, s₁, line, -, hs, hpre, -, ho⟩
  · cases ho
  obtain rfl : line = some l := by cases ho; rfl
  obtain ⟨p, areq, v, hp, -, hresp, rfl⟩ := ahPreSend_line hpre
  have hlast : lastSelected role log = some p := by rw [← hsel.sess, hs, Option.some_bind, hp]
  obtain ⟨rest, rfl⟩ := response_name (hsel.table p hlast) hresp
  exact ⟨p, rest, hlast, hsel.table p hlast, by simp [(reach_privOk hr).spec role s hs]⟩

theorem basic_round_selects_basic :
    ∃ ns log, Reach ⟨.plain, constCrypto⟩ ns log ∧ (ns.priv .server).bind AuthSession.protocol = some basicProtocol := by
  have hr := ((@Reach.init ⟨.plain, constCrypto⟩ "http".toList).step (.call (.setServerAuth 1 1)) rfl).step
    (.create 0 "GET".toList "/".toList) rfl |>.step (.postSend 0 .server (challenge401 "Basic realm=\"x\"") grantAll) rfl
  exact ⟨_, _, hr, (selection_follows_rounds hr .server).1.trans rfl⟩

/-- Over any run, a role whose last challenge round accepted nothing, or that has had no round,
holds none of the credential material clean_session frees: no Basic blob, realm, nonce, client
nonce, opaque value, stored request-digest or GSSAPI token. -/
theorem unselected_role_holds_no_credentials (hr : Reach env ns log) {role : Role} {s : AuthSession}
    (hs : ns.priv role = some s) (hl : lastSelected role log = none) :
    s.basic = none ∧ s.realm = none ∧ s.nonce = none ∧ s.cnonce = none ∧ s.opaqueValue = none ∧
      s.storedRdig = none ∧ s.gssapiToken = none := by
  have hp : s.protocol = none := by simpa [hs, hl] using (reach_selOk role hr).sess
  rw [← reach_cleanOk hr s hs hp]
  exact ⟨rfl, rfl, rfl, rfl, rfl, rfl, rfl⟩

theorem refused_basic_round_clears :
    ∃ ns log s, Reach ⟨.plain, constCrypto⟩ ns log ∧ ns.priv .server = some s ∧ lastSelected .server log = none ∧
      (s.basic = none ∧ s.realm = none ∧ s.nonce = none ∧ s.cnonce = none ∧ s.opaqueValue = none ∧
        s.storedRdig = none ∧ s.gssapiToken = none) := by
  have hr := ((@Reach.init ⟨.plain, constCrypto⟩ "http".toList).step (.call (.setServerAuth 1 1)) rfl).step
    (.create 0 "GET".toList "/".toList) rfl |>.step (.postSend 0 .server (challenge401 "Basic realm=\"x\"") refuseAll) rfl
  exact ⟨_, _, _, hr, rfl, rfl, @unselected_role_holds_no_credentials _ _ _ hr .server _ rfl rfl⟩

/-- Over any run, each request's attempt counter for a role is the number of challenge rounds
the request has had for that role since it was created, the failed ones included; and every
credentials call a round makes passes that count, the realm of the challenge it tries, never
NULL, and a handler of the role's session. -/
theorem attempt_counts_rounds (hr : Reach env ns log) :
    (∀ r req role areq, ns.requests r = some req → req.priv role = some areq →
      areq.attempt = rounds r role log) ∧
    ∀ r role resp orc ns' ret acc calls i,
      step env ns (.postSend r role resp orc) = some (ns', .posted r role ret acc calls i) →
      ∀ call ∈ calls, call.attempt = rounds r role log ∧ call.realm ≠ none ∧
        ∃ s, ns.priv role = some s ∧ call.handler ∈ s.handlers := by
  have ha := reach_attemptOk hr
  refine ⟨ha, fun r role resp orc ns' ret acc calls i he call hc => ?_⟩
  rcases step_postSend he with ⟨-, ho | ho⟩ | ⟨req, s, areq, p, hreq, hs, hareq, hpost, -, ho⟩
  · cases ho
  · cases ho; cases hc
  cases ho
  have hcall := ahPostSend_calls hpost call hc
  refine ⟨hcall.2.trans (ha r req role areq hreq hareq), ?_, s, hs, hcall.1⟩
  rcases ahPostSend_outcome hpost with ⟨-, -, -, hcalls, -⟩ | ⟨-, s₀, v, sel, -, hsel, -, hcalls, -⟩
  · rw [hcalls] at hc; cases hc
  · rw [hcalls] at hc
    obtain ⟨st, -, rfl⟩ := authChallenge_eq hsel
    refine @tryChallenges_calls_of _ (fun call => call.realm ≠ none) _ _ _ _ _ (fun ch _ j s₁ call hc => ?_) call hc
    obtain ⟨h₁, h₂⟩ := challenge_calls_realm ch.protocol _ _ ch call hc
    rwa [h₁]

theorem one_round_one_attempt :
    ∃ ns log req areq, Reach ⟨.plain, constCrypto⟩ ns log ∧ ns.requests 0 = some req ∧ req.priv .server = some areq ∧
      areq.attempt = 1 := by
  have hr := ((@Reach.init ⟨.plain, constCrypto⟩ "http".toList).step (.call (.setServerAuth 1 1)) rfl).step
    (.create 0 "GET".toList "/".toList) rfl |>.step (.postSend 0 .server (challenge401 "Basic realm=\"x\"") grantAll) rfl
  exact ⟨_, _, _, _, hr, rfl, rfl, ((attempt_counts_rounds hr).1 0 _ .server _ rfl rfl).trans rfl⟩

end Headline

end NeonAuth.Rounds
