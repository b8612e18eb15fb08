import NeonAuth.Lines

namespace NeonAuth.Remnants

open Text Protocol Session Verify Challenge Hooks Select Steps DigestRun Forget Rounds Lines

variable {b : Build} {c : Crypto} {s : AuthSession} {areq : AuthRequest}

theorem challenge_keys (p : AuthProtocol) (x : Ext) (attempt : Nat) (ch : AuthChallenge) :
    ((challenge p c x s attempt ch).calls = [] → (challenge p c x s attempt ch).sess.username = s.username) ∧
      ((challenge p c x s attempt ch).sess.hA1 = s.hA1 ∨
        p.scheme = .digest ∧ ch.stale = false ∧ (challenge p c x s attempt ch).accepted = true) := by
  unfold challenge
  split
  · unfold basicChallenge
    split
    · exact ⟨fun _ => rfl, .inl rfl⟩
    · dsimp only
      split_ifs <;> exact ⟨fun h => (by cases h), .inl rfl⟩
  · next hd =>
      unfold digestChallenge
      split_ifs with h₁ h₂ hst
      · exact ⟨fun _ => rfl, .inl rfl⟩
      · exact ⟨fun _ => rfl, .inl rfl⟩
      · split
        · exact ⟨fun _ => by rw [digestNonce_eq], .inl (by rw [digestNonce_eq])⟩
        · exact ⟨fun _ => rfl, .inl rfl⟩
      · split
        · unfold digestFresh
          dsimp only
          split_ifs
          · exact ⟨fun h => (by cases h), .inl rfl⟩
          · exact ⟨fun h => (by cases h), .inr ⟨hd, by simpa using hst, rfl⟩⟩
        · exact ⟨fun _ => rfl, .inl rfl⟩
  · have hg : ∀ g : GssReply, (gssStep c g s).1.username = s.username ∧ (gssStep c g s).1.hA1 = s.hA1 := by
      intro g
      unfold gssStep
      split
      · exact ⟨rfl, rfl⟩
      · dsimp only; split_ifs <;> exact ⟨rfl, rfl⟩
    unfold negotiateChallenge continueNegotiate
    split_ifs
    · split
      · split_ifs
        · exact ⟨fun _ => rfl, .inl rfl⟩
        · exact ⟨fun _ => (hg x.gss).1, .inl (hg x.gss).2⟩
      · exact ⟨fun _ => (hg x.gss).1, .inl (hg x.gss).2⟩
    · exact ⟨fun _ => rfl, .inl rfl⟩

theorem tryChallenges_keys (o : Nat → Ext) (attempt : Nat) :
    ∀ (L : List AuthChallenge) (i : Nat) (s : AuthSession),
      ((tryChallenges c o attempt i s L).calls = [] → (tryChallenges c o attempt i s L).sess.username = s.username) ∧
        ((tryChallenges c o attempt i s L).sess.hA1 = s.hA1 ∨
          ∃ ch, (tryChallenges c o attempt i s L).accepted = some ch ∧ ch.protocol.scheme = .digest ∧ ch.stale = false)
  | [], _, s => ⟨fun _ => rfl, .inl rfl⟩
  | ch :: rest, i, s => by
      have hc := @challenge_keys c s ch.protocol (o i) attempt ch
      unfold tryChallenges
      dsimp only
      split
      · next ha =>
          refine ⟨hc.1, hc.2.imp_right fun ⟨hd, hs, _⟩ => ⟨ch, rfl, hd, hs⟩⟩
      · next ha =>
          have ih := tryChallenges_keys o attempt rest (i + 1) (challenge ch.protocol c (o i) s attempt ch).sess
          refine ⟨fun hn => ?_, ?_⟩
          · obtain ⟨h₁, h₂⟩ := List.append_eq_nil.mp hn
            exact (ih.1 h₂).trans (hc.1 h₁)
          · rcases ih.2 with h | h
            · exact hc.2.imp (h.trans ·) fun ⟨_, _, hacc⟩ => absurd hacc ha
            · exact .inr h

theorem ahPostSend_keys {o : Oracle} {st : Response} {p : Posted} (h : ahPostSend b c o s areq st = some p) :
    (p.calls = [] → p.sess.username = s.username) ∧
      (p.sess.hA1 = s.hA1 ∨ ∃ ch, p.accepted = some ch ∧ ch.protocol.scheme = .digest ∧ ch.stale = false) := by
  rcases ahPostSend_outcome h with ⟨-, -, -, -, hoff⟩ | ⟨-, -, -, -, -, -, -, -, -⟩
  · exact ⟨fun _ => hoff.username, .inl hoff.hA1⟩
  obtain ⟨s₀, hs₀, ⟨q, v, -, -, hv⟩ | ⟨code, hdr, hc⟩⟩ := ahPostSend_branches h
  · obtain ⟨⟨s₁, ret⟩, hv', rfl⟩ := Option.map_eq_some'.mp hv
    obtain ⟨-, -, -, hu, hh, -⟩ := verify_result hv'
    rw [hs₀] at hu hh
    exact ⟨fun _ => by rw [hu]; split_ifs <;> rfl, .inl (by rw [hh]; split_ifs <;> rfl)⟩
  have hk : s₀.username = s.username ∧ s₀.hA1 = s.hA1 := by rw [hs₀]; split_ifs <;> exact ⟨rfl, rfl⟩
  rcases challengeBranch_cases hc with rfl | ⟨v, sel, hsel, hps, -, hacc, -, hcalls, -⟩
  · exact ⟨fun _ => hk.1, .inl hk.2⟩
  obtain ⟨st, -, rfl⟩ := authChallenge_eq hsel
  have ht := @tryChallenges_keys c o.ext areq.attempt (insertChallenges st.flush) 0 { s₀ with protocol := none }
  have hsess : p.sess.username = (tryChallenges c o.ext areq.attempt 0 { s₀ with protocol := none }
      (insertChallenges st.flush)).sess.username ∧ p.sess.hA1 = (tryChallenges c o.ext areq.attempt 0
      { s₀ with protocol := none } (insertChallenges st.flush)).sess.hA1 := by
    rw [hps]; split_ifs <;> exact ⟨rfl, rfl⟩
  refine ⟨fun hn => hsess.1.trans ((ht.1 (hcalls ▸ hn)).trans hk.1), ?_⟩
  rcases ht.2 with h | ⟨ch, ha, hd, hst⟩
  · exact .inl (hsess.2.trans (h.trans hk.2))
  · exact .inr ⟨ch, hacc.trans ha, hd, hst⟩

def credsCallsOf (role : Role) : Obs → List CredsCall
  | .posted _ role' _ _ calls _ => if role' = role then calls else []
  | _ => []

def acceptsFreshDigest (role : Role) : Obs → Bool
  | .posted _ role' _ (some ch) _ _ => role' = role && ch.protocol.scheme = .digest && !ch.stale
  | _ => false

section Run

variable {env : Env} {ns ns' : NeSession} {role : Role} {e : Event} {o : Obs}

theorem step_keys (he : step env ns e = some (ns', o)) (hs : ns.priv role = some s) :
    ∃ s', ns'.priv role = some s' ∧ (credsCallsOf role o = [] → s'.username = s.username) ∧
      (acceptsFreshDigest role o = false → s'.hA1 = s.hA1) := by
  have hsame : ∃ s', ns.priv role = some s' ∧ (credsCallsOf role o = [] → s'.username = s.username) ∧
      (acceptsFreshDigest role o = false → s'.hA1 = s.hA1) := ⟨s, hs, fun _ => rfl, fun _ => rfl⟩
  cases e with
  | call a =>
      cases he
      rcases apply_priv role a with ⟨-, h₀⟩ | ⟨s', h₁, ⟨s₀, h₀, rfl | he⟩ | ⟨h₀, -⟩⟩ <;>
        rw [hs] at h₀ <;> cases h₀
      · exact ⟨_, h₁, fun _ => rfl, fun _ => rfl⟩
      · exact ⟨s', h₁, fun _ => by rw [he], fun _ => by rw [he]⟩
  | create r m u => cases he; exact hsame
  | destroy r => cases he; exact hsame
  | preSend r role' =>
      rcases step_preSend he with ⟨rfl, rfl⟩ | ⟨req, s₀, s₁, line, -, hs₀, hpre, rfl, rfl⟩
      · exact hsame
      rcases eq_or_ne role' role with rfl | hne
      · rw [hs] at hs₀
        cases hs₀
        obtain ⟨n, rd, rfl⟩ := ahPreSend_shape hpre
        exact ⟨{ s with nonceCount := n, storedRdig := rd }, by simp, fun _ => rfl, fun _ => rfl⟩
      · exact ⟨s, by rw [setPriv_priv, Function.update_noteq hne.symm, hs], fun _ => rfl, fun _ => rfl⟩
  | postSend r role' resp orc =>
      rcases step_postSend he with ⟨rfl, -⟩ | ⟨req, s₀, areq, p, -, hs₀, -, hpost, rfl, rfl⟩
      · exact hsame
      rcases eq_or_ne role' role with rfl | hne
      · rw [hs] at hs₀
        cases hs₀
        have hk := ahPostSend_keys hpost
        refine ⟨p.sess, by simp, fun hn => hk.1 (by simpa [credsCallsOf] using hn), fun hf => ?_⟩
        rcases hk.2 with h | ⟨ch, ha, hd, hst⟩
        · exact h
        · simp [acceptsFreshDigest, ha, hd, hst] at hf
      · refine ⟨s, ?_, fun _ => rfl, fun _ => rfl⟩
        rw [setRequest_priv, setPriv_priv, Function.update_noteq hne.symm, hs]

/-- Over any sequence of events from any state, a role's session is never freed; its username
changes only in a post-send whose round called the role's credentials callback, and its H(A1)
only in a round that accepted a non-stale Digest challenge. So ne_forget_auth, registrations,
pre-sends, verifications, refused rounds and stale Digest acceptances keep both. -/
theorem username_and_hA1_outlive_forget :
    ∀ {es : List Event} {ns ns' : NeSession} {os : List Obs} {s : AuthSession},
      run env ns es = some (ns', os) → ns.priv role = some s →
      ∃ s', ns'.priv role = some s' ∧ ((∀ o ∈ os, credsCallsOf role o = []) → s'.username = s.username) ∧
        ((∀ o ∈ os, acceptsFreshDigest role o = false) → s'.hA1 = s.hA1)
  | [], ns, ns', os, s, hrun, hs => by
      cases hrun
      exact ⟨s, hs, fun _ => rfl, fun _ => rfl⟩
  | e :: es, ns, ns', os, s, hrun, hs => by
      simp only [run] at hrun
      split at hrun
      · cases hrun
      · next ns₁ o h₁ =>
          obtain ⟨⟨ns₂, os₂⟩, h₂, he⟩ := Option.map_eq_some'.mp hrun
          cases he
          obtain ⟨s₁, hs₁, hu₁, hh₁⟩ := step_keys h₁ hs
          obtain ⟨s₂, hs₂, hu₂, hh₂⟩ := username_and_hA1_outlive_forget h₂ hs₁
          refine ⟨s₂, hs₂, fun hu => ?_, fun hh => ?_⟩
          · exact (hu₂ fun o ho => hu o (.tail _ ho)).trans (hu₁ (hu o (.head _)))
          · exact (hh₂ fun o ho => hh o (.tail _ ho)).trans (hh₁ (hh o (.head _)))

def digestGranted : NeSession :=
  ((run ⟨.plain, constCrypto⟩ (NeSession.init "http".toList) [.call (.setServerAuth 1 1),
    .create 0 "GET".toList "/".toList,
    .postSend 0 .server (challenge401 "Digest realm=\"x\", nonce=\"n\"") grantAll]).map Prod.fst).getD
    (NeSession.init "http".toList)

def forgetThenStale : List Event :=
  [.call .forgetAuth,
    .postSend 0 .server (challenge401 "Digest realm=\"x\", nonce=\"m\", stale=true") Retries.refuseAll]

theorem stale_digest_after_forget_keeps_hA1 :
    ∃ s ns' os, digestGranted.priv .server = some s ∧
      run ⟨.plain, constCrypto⟩ digestGranted forgetThenStale = some (ns', os) ∧
      ∃ s', ns'.priv .server = some s' ∧ s'.protocol = some digestProtocol ∧ s'.hA1 = s.hA1 := by
  obtain ⟨s', hs', -, hh⟩ :=
    @username_and_hA1_outlive_forget ⟨.plain, constCrypto⟩ .server forgetThenStale digestGranted _ _ _ rfl rfl
  obtain rfl := Option.some.inj (hs'.symm.trans rfl)
  exact ⟨_, _, _, rfl, rfl, _, rfl, rfl, hh (by decide)⟩

end Run

end NeonAuth.Remnants
