import NeonAuth.Steps

namespace NeonAuth.Retries

open Protocol Session Verify Challenge Hooks Registration Select Steps

variable {env : Env} {ns ns' : NeSession} {log : List (Event × Obs)} {o : Obs} {r N : Nat} {role : Role}

def creates (r : Nat) : Event → Bool
  | .create r' _ _ => r' == r
  | _ => false

def sinceCreate (r : Nat) (log : List (Event × Obs)) : List (Event × Obs) :=
  log.foldl (fun acc eo => if creates r eo.1 then [] else acc ++ [eo]) []

def retried (r : Nat) (role : Role) : Obs → Bool
  | .posted r' role' .retry _ _ _ => r' == r && role' == role
  | _ => false

/-- A post-send hook of `role` on request `r` returned NE_RETRY after accepting a challenge other
than a stale Digest one. -/
def countedRetry (r : Nat) (role : Role) : Obs → Bool
  | .posted r' role' .retry (some ch) _ _ => r' == r && role' == role && !(ch.protocol.scheme == .digest && ch.stale)
  | _ => false

theorem countedRetry_other {r r' : Nat} {role role' : Role} (h : ¬(r' = r ∧ role' = role)) (ret : NeResult)
    (acc : Option AuthChallenge) (calls : List CredsCall) (i : Nat) :
    countedRetry r role (.posted r' role' ret acc calls i) = false := by
  cases ret <;> cases acc <;> try rfl
  have hne : (r' == r && role' == role) = false := by
    by_cases h₁ : r' = r <;> by_cases h₂ : role' = role <;> simp_all
  simp only [countedRetry, hne, Bool.false_and]

def RefusesFrom (N : Nat) (orc : Oracle) : Prop :=
  ∀ i call, N ≤ call.attempt → ((orc.ext i).creds call).refused = true

def NoNegotiate (scheme : List Char) (role : Role) (a : ApiCall) : Prop :=
  ∀ h, requestFor scheme role a = some h → h.protomask &&& neAuthNegotiate = 0

def retryCount (r : Nat) (role : Role) (log : List (Event × Obs)) : Nat :=
  ((sinceCreate r log).map Prod.snd).countP (countedRetry r role)

theorem retryCount_append (e : Event) :
    retryCount r role (log ++ [(e, o)]) =
      if creates r e then 0 else retryCount r role log + if countedRetry r role o then 1 else 0 := by
  unfold retryCount sinceCreate
  rw [List.foldl_append, List.foldl_cons, List.foldl_nil]
  split <;> simp [List.countP_append, List.countP_cons]

def retryBound (N r : Nat) (role : Role) (ns : NeSession) : Nat :=
  match ns.requests r with
  | some req =>
      match req.priv role with
      | some areq => min areq.attempt N
      | none => 0
  | none => N

theorem retryBound_le (ns : NeSession) : retryBound N r role ns ≤ N := by
  unfold retryBound
  split
  · split <;> omega
  · exact le_rfl

theorem retryBound_congr (h : ns'.requests r = ns.requests r) :
    retryBound N r role ns' = retryBound N r role ns := by
  unfold retryBound; rw [h]

theorem requests_setRequest_ne {r' : Nat} {x : Option NeRequest} (hne : r' ≠ r) :
    (ns.setRequest r' x).requests r = ns.requests r := by
  rw [setRequest_requests, Function.update_noteq (Ne.symm hne)]

theorem mem_handlers_apply {a : ApiCall} {s : AuthSession} {h : AuthHandler}
    (hs : (a.apply ns).priv role = some s) (hh : h ∈ s.handlers) :
    (∃ s₀, ns.priv role = some s₀ ∧ h ∈ s₀.handlers) ∨ requestFor ns.scheme role a = some h := by
  cases a with
  | forgetAuth =>
      obtain ⟨s₀, hs₀, rfl⟩ := Option.map_eq_some'.mp hs
      exact .inl ⟨s₀, hs₀, hh⟩
  | _ =>
      rcases priv_authRegister hs with ⟨s₀, hs₀, -, -, hm⟩ | ⟨rfl, -, -, he⟩
      · rcases hm h hh with hh | ⟨rfl, rfl⟩
        · exact .inl ⟨s₀, hs₀, hh⟩
        · right; simp [requestFor, callRequest, defaultMask]
      · rw [he, List.mem_singleton] at hh
        subst hh
        right; simp [requestFor, callRequest, defaultMask]

theorem negotiate_mem_protocols {b : Build} {p : AuthProtocol} (hp : p ∈ protocols b)
    (hn : p.scheme = .negotiate) : p.id = neAuthNegotiate := by
  cases b <;> simp only [protocols, List.mem_cons, List.mem_singleton, List.not_mem_nil, or_false] at hp <;>
    rcases hp with rfl | rfl | rfl <;> first | rfl | cases hn

structure RetryInv (N r : Nat) (role : Role) (ns : NeSession) (log : List (Event × Obs)) : Prop where
  handlers : ∀ s, ns.priv role = some s → ∀ h ∈ s.handlers, h.protomask &&& neAuthNegotiate = 0
  count : retryCount r role log ≤ retryBound N r role ns

theorem counted_attempt_lt {b : Build} {c : Crypto} {orc : Oracle} {s : AuthSession} {areq : AuthRequest}
    {resp : Response} {p : Posted} (hp : ahPostSend b c orc s areq resp = some p)
    (hspec : s.spec = role.authClass) (hneg : ∀ h ∈ s.handlers, h.protomask &&& neAuthNegotiate = 0)
    (hcreds : RefusesFrom N orc) (hc : countedRetry r role (.posted r role p.ret p.accepted p.calls p.index) = true) :
    areq.attempt < N ∧ p.areq.attempt = areq.attempt + 1 := by
  have hret : p.ret = .retry := by
    cases h : p.ret <;> rw [h] at hc <;> first | rfl | simp [countedRetry] at hc
  rcases ahPostSend_cases hp with ⟨-, -, -, -, hne⟩ | ⟨s₀, v, sel, hk, hsel, -, ha, hacc, -, -, hr⟩
  · exact absurd hret hne
  · have hfail : s.spec.failCode ≠ .retry := by rw [hspec]; cases role <;> decide
    obtain ⟨ch, hch⟩ : ∃ ch, sel.accepted = some ch := by
      cases h : sel.accepted
      · rw [hr, h] at hret; exact absurd hret hfail
      · exact ⟨_, rfl⟩
    rw [hacc, hch] at hc
    obtain ⟨hmem, hh, hid, j, s₁, hj⟩ := (authChallenge_spec hsel).2.2 ch hch
    have hnn : ch.protocol.scheme ≠ .negotiate := fun hn => by
      rw [negotiate_mem_protocols hmem hn, Nat.and_comm] at hid
      exact hid (hneg _ (hk.2.1 ▸ hh))
    have hsc : ch.protocol.scheme = .basic ∨ (ch.protocol.scheme = .digest ∧ ch.stale = false) := by
      simp only [countedRetry, beq_self_eq_true, Bool.true_and, Bool.not_eq_true', Bool.and_eq_false_iff,
        beq_eq_false_iff_ne, ne_eq] at hc
      cases h : ch.protocol.scheme <;> simp_all
    obtain ⟨s₂, href⟩ := challenge_accepted_creds hj hsc
    have hlt : ¬ N ≤ areq.attempt := fun hle => by
      have := hcreds j (credsCall s₂ areq.attempt ch) hle
      rw [href] at this; cases this
    exact ⟨by omega, by rw [ha]⟩

theorem ahPostSend_attempt_le {b : Build} {c : Crypto} {orc : Oracle} {s : AuthSession} {areq : AuthRequest}
    {resp : Response} {p : Posted} (hp : ahPostSend b c orc s areq resp = some p) :
    areq.attempt ≤ p.areq.attempt := by
  rcases ahPostSend_cases hp with ⟨-, ha, -⟩ | ⟨-, -, -, -, -, -, ha, -⟩
  · rw [ha]
  · rw [ha]; exact Nat.le_succ _

theorem RetryInv.of_quiet (h : RetryInv N r role ns log) {e : Event} (hq : countedRetry r role o = false)
    (hc : creates r e = false) : RetryInv N r role ns (log ++ [(e, o)]) :=
  ⟨h.handlers, by rw [retryCount_append, hc, hq]; exact h.count⟩

theorem RetryInv.step (h : RetryInv N r role ns log) (hp : PrivOk ns) {e : Event}
    (he : step env ns e = some (ns', o)) (hneg : ∀ a, e = .call a → NoNegotiate ns.scheme role a)
    (hcreds : ∀ resp orc, e = .postSend r role resp orc → RefusesFrom N orc) :
    RetryInv N r role ns' (log ++ [(e, o)]) := by
  cases e with
  | call a =>
      cases he
      refine ⟨fun s hs h' hh => ?_, ?_⟩
      · rcases mem_handlers_apply hs hh with ⟨s₀, hs₀, hh₀⟩ | hreq
        · exact h.handlers s₀ hs₀ h' hh₀
        · exact hneg a rfl h' hreq
      · rw [retryBound_congr (congrFun (requests_apply ns a) r), retryCount_append]
        simpa [creates, countedRetry] using h.count
  | create r' method uri =>
      cases he
      refine ⟨h.handlers, ?_⟩
      rw [retryCount_append]
      split
      · exact Nat.zero_le _
      · rename_i hc
        have hne : r' ≠ r := by simpa [creates] using hc
        rw [retryBound_congr (requests_setRequest_ne hne)]
        simpa [countedRetry] using h.count
  | preSend r' role' =>
      rcases step_preSend he with ⟨rfl, rfl⟩ | ⟨req, s, s₁, line, -, hs, hpre, rfl, rfl⟩
      · refine h.of_quiet ?_ ?_ <;> rfl
      · refine ⟨fun s' hs' => ?_, (h.of_quiet ?_ ?_).count⟩
        rotate_left; rfl; rfl
        obtain ⟨s₀, hs₀, hk⟩ := priv_setPriv hs (keeps_of_frame (ahPreSend_spec hpre).1) hs'
        rw [hk.1]; exact h.handlers s₀ hs₀
  | postSend r' role' resp orc =>
      rcases step_postSend he with ⟨rfl, rfl | rfl⟩ | ⟨req, s, areq, p, hreq, hs, ha, hpost, rfl, rfl⟩
      · refine h.of_quiet ?_ ?_ <;> rfl
      · refine h.of_quiet ?_ ?_ <;> rfl
      · refine ⟨fun s' hs' => ?_, ?_⟩
        · obtain ⟨s₀, hs₀, hk⟩ := priv_setPriv hs (ahPostSend_keeps hpost) hs'
          rw [hk.1]; exact h.handlers s₀ hs₀
        rw [retryCount_append, if_neg (by simp [creates])]
        have hc := h.count
        by_cases hrr : r' = r ∧ role' = role
        · obtain ⟨rfl, rfl⟩ := hrr
          simp only [retryBound, hreq, ha, setRequest_requests, Function.update_same] at hc ⊢
          split
          · rename_i hct
            obtain ⟨hlt, hat⟩ := counted_attempt_lt hpost (hp.spec _ _ hs) (h.handlers s hs)
              (hcreds resp orc rfl) hct
            rw [hat]; omega
          · have := ahPostSend_attempt_le hpost
            omega
        · have hq := countedRetry_other hrr p.ret p.accepted p.calls p.index
          simp only [hq, Bool.false_eq_true, if_false, Nat.add_zero]
          by_cases hr : r' = r
          · subst hr
            have hne : role ≠ role' := fun e => hrr ⟨rfl, e.symm⟩
            simpa only [retryBound, setRequest_requests, Function.update_same, hreq,
              Function.update_noteq hne] using hc
          · rwa [retryBound_congr (requests_setRequest_ne hr)]
  | destroy r' =>
      cases he
      refine ⟨h.handlers, ?_⟩
      rw [retryCount_append, if_neg (by simp [creates])]
      by_cases hr : r' = r
      · subst hr
        simpa [retryBound, countedRetry] using h.count.trans (retryBound_le ns)
      · rw [retryBound_congr (requests_setRequest_ne hr)]
        simpa [countedRetry] using h.count

theorem reach_retryInv (hr : Reach env ns log) :
    (∀ a o, (Event.call a, o) ∈ log → NoNegotiate ns.scheme role a) →
    (∀ resp orc o, (Event.postSend r role resp orc, o) ∈ log → RefusesFrom N orc) →
    RetryInv N r role ns log := by
  induction hr with
  | init scheme => exact fun _ _ => ⟨fun _ h => (by cases h), Nat.zero_le _⟩
  | step e hr he ih =>
      intro hneg hcreds
      rw [step_scheme he] at hneg
      exact (ih (fun a o hm => hneg a o (List.mem_append_left _ hm))
          (fun resp orc o hm => hcreds resp orc o (List.mem_append_left _ hm))).step (reach_privOk hr) he
        (fun a hea => hneg a _ (List.mem_append_right _ (by rw [hea]; exact List.mem_singleton_self _)))
        (fun resp orc hea => hcreds resp orc _ (List.mem_append_right _ (by rw [hea]; exact List.mem_singleton_self _)))

/-- With callbacks that refuse every attempt from `N` on and registrations that admit only Basic
and Digest, the post-send hooks of `role` return NE_RETRY for the request numbered `r` at most `N`
times in its life, leaving out the retries that follow a stale Digest challenge. -/
theorem retries_bounded (hr : Reach env ns log)
    (hneg : ∀ a o, (Event.call a, o) ∈ log → NoNegotiate ns.scheme role a)
    (hcreds : ∀ resp orc o, (Event.postSend r role resp orc, o) ∈ log → RefusesFrom N orc) :
    ((sinceCreate r log).map Prod.snd).countP (countedRetry r role) ≤ N :=
  (reach_retryInv hr hneg hcreds).count.trans (retryBound_le ns)

def staleChallenge : Response :=
  ⟨401, 4, fun n => if n = "WWW-Authenticate".toList then
    some "Digest realm=\"x\", nonce=\"n\", stale=true".toList else none⟩

def refuseAll : Oracle := ⟨fun _ => ⟨fun _ => ⟨true, none, []⟩, [], ⟨.failure, [], []⟩⟩, 0⟩

def staleRun : List Event :=
  [.call (.setServerAuth 1 1), .create 0 "GET".toList "/".toList,
    .postSend 0 .server staleChallenge refuseAll, .postSend 0 .server staleChallenge refuseAll]

theorem stale_retries_not_counted :
    ∃ ns log, Reach ⟨.plain, constCrypto⟩ ns log ∧
      ((sinceCreate 0 log).map Prod.snd).countP (countedRetry 0 .server) ≤ 0 :=
  let hr := (((@Reach.init ⟨.plain, constCrypto⟩ "http".toList).step (.call (.setServerAuth 1 1)) rfl).step
    (.create 0 "GET".toList "/".toList) rfl).step (.postSend 0 .server staleChallenge refuseAll) rfl
  ⟨_, _, hr, retries_bounded hr
    (fun a o hm => by
      simp only [List.nil_append, List.mem_append, List.mem_singleton, Prod.mk.injEq] at hm
      rcases hm with (⟨⟨⟩, -⟩ | ⟨⟨⟩, -⟩) | ⟨⟨⟩, -⟩
      intro h hh; cases hh; decide)
    (fun resp orc o hm => by
      simp only [List.nil_append, List.mem_append, List.mem_singleton, Prod.mk.injEq] at hm
      rcases hm with (⟨⟨⟩, -⟩ | ⟨⟨⟩, -⟩) | ⟨⟨⟩, -⟩
      exact fun _ _ _ => rfl)⟩

/-- With a callback that refuses every call (N = 0) and a registration that admits only Basic and
Digest, each 401 carrying a stale Digest challenge still makes ah_post_send return NE_RETRY. -/
theorem stale_digest_retries_past_refusal :
    RefusesFrom 0 refuseAll ∧ NoNegotiate "http".toList .server (.setServerAuth 1 1) ∧
      (run ⟨.plain, constCrypto⟩ (NeSession.init "http".toList) staleRun).map
        (fun r => r.2.countP (retried 0 .server)) = some 2 :=
  ⟨fun _ _ _ => rfl, fun h hh => by cases hh; decide, rfl⟩

end NeonAuth.Retries
