import NeonAuth.Credentials
import NeonAuth.Mutual

namespace NeonAuth.Snapshot

open Text Protocol Session Verify Challenge Hooks Select Steps DigestRun Forget Credentials

/-- What the snapshot depends on: a request_digest call, whether it used qop=auth and what it
absorbed into the MD5 state; and a reset, by clean_session or by the digest comparison of
verify_digest_response. -/
inductive SnapEvent
  | request (auth : Bool) (absorbed : List Char)
  | reset
  deriving DecidableEq, Repr

def absorbed (s : AuthSession) : List Char :=
  s.hA1.hex ++ ":".toList ++ s.nonce.getD [] ++ ":".toList ++ hex8 ((s.nonceCount + 1) % 2 ^ 32) ++
    ":".toList ++ s.cnonce.getD [] ++ ":".toList

def freshPath (ch : AuthChallenge) : Bool :=
  ch.alg != .unknown && !(ch.alg == .md5Sess && !ch.qopAuth) && ch.realm.isSome && ch.nonce.isSome &&
    !ch.stale

def comparesAt (junk : Nat) (s : AuthSession) (st : InfoScan) : Bool :=
  st.qop == .auth && st.rspauth.isSome && st.nc.isSome &&
    match st.cnonce, s.cnonce with
    | some cn, some sc => cn == sc && st.nonceCount.getD junk == s.nonceCount
    | _, _ => false

def reachesComparison (junk : Nat) (s : AuthSession) (v : List Char) : Bool :=
  match infoLoop (v.length + 1) {} v with
  | some st => comparesAt junk s st
  | none => false

def snapStep (stored : Option (List Char)) : SnapEvent → Option (List Char)
  | .request true a => some a
  | .request false _ => stored
  | .reset => none

def lastAuthSnapshot (h : List SnapEvent) : Option (List Char) := h.foldl snapStep none

section Calls

variable {c : Crypto}

theorem digestNonce_storedRdig (x : Ext) (s : AuthSession) (ch : AuthChallenge) (nonce : List Char) :
    (digestNonce c x s ch nonce).storedRdig = s.storedRdig := by
  rw [digestNonce_eq]

theorem digestFresh_storedRdig (x : Ext) (s : AuthSession) (attempt : Nat) (ch : AuthChallenge)
    (realm nonce : List Char) : (digestFresh c x s attempt ch realm nonce).sess.storedRdig = none := by
  unfold digestFresh
  dsimp only
  split_ifs
  · rfl
  · exact digestNonce_storedRdig x _ ch nonce

theorem digestChallenge_storedRdig (x : Ext) (s : AuthSession) (attempt : Nat) (ch : AuthChallenge) :
    (digestChallenge c x s attempt ch).sess.storedRdig = if freshPath ch then none else s.storedRdig := by
  unfold digestChallenge
  by_cases hu : ch.alg = .unknown
  · rw [if_pos hu, if_neg (by simp [freshPath, hu])]; rfl
  rw [if_neg hu]
  by_cases hm : (ch.alg = .md5Sess && !ch.qopAuth) = true
  · rw [if_pos hm, if_neg (by simp_all [freshPath])]; rfl
  rw [if_neg hm]
  split
  · rename_i realm nonce hr hn
    by_cases hs : ch.stale = true
    · rw [if_pos hs, if_neg (by simp [freshPath, hs])]; exact digestNonce_storedRdig x s ch nonce
    · rw [if_neg hs, if_pos (by simp_all [freshPath, imp_iff_not_or]), digestFresh_storedRdig]
  · rename_i hmiss
    have hf : freshPath ch = false := by
      rcases hr : ch.realm with _ | realm <;> rcases hn : ch.nonce with _ | nonce <;>
        first | exact (hmiss _ _ hr hn).elim | simp [freshPath, hr, hn]
    rw [hf]; rfl

theorem requestDigest_storedRdig {s s' : AuthSession} {req : AuthRequest} {v : List Char}
    (h : requestDigest c s req = some (s', v)) :
    s'.storedRdig = if s.qop = .auth then some (absorbed s) else s.storedRdig := by
  unfold requestDigest at h
  by_cases hq : s.qop = .auth
  · simp only [hq, if_true] at h
    rcases hn : s.nonce with _ | nonce
    · simp only [hn] at h; cases h
    rcases hc : s.cnonce with _ | cn
    · simp only [hn, hc] at h; cases h
    simp only [hn, hc, hq, if_true, Option.some.injEq, Prod.mk.injEq] at h
    obtain ⟨rfl, -⟩ := h
    simp [absorbed, hn, hc, hq]
  · rcases hqv : s.qop with _ | _
    · rcases hn : s.nonce with _ | nonce <;> simp [hn, hqv] at h
      obtain ⟨rfl, -⟩ := h
      simp [hqv]
    · exact absurd hqv hq

theorem infoCheck_storedRdig {junk : Nat} {req : AuthRequest} {s s' : AuthSession} {st : InfoScan}
    {ret : NeResult} (h : infoCheck c junk req s st = some (s', ret)) :
    s'.storedRdig = if comparesAt junk s st then none else s.storedRdig := by
  unfold infoCheck at h
  by_cases hq : st.qop = .none
  · rw [if_pos hq] at h
    cases h
    simp [comparesAt, hq]
  rw [if_neg hq] at h
  have hqa : st.qop = .auth := by cases hqv : st.qop; exacts [absurd hqv hq, rfl]
  rcases hr : st.rspauth with _ | rsp <;> rcases hc : st.cnonce with _ | cn <;> rcases hn : st.nc with _ | nc <;>
    simp only [hr, hc, hn] at h
  all_goals try (cases h; rw [if_neg (by simp [comparesAt, hr, hc, hn])]; rfl)
  rcases hsc : s.cnonce with _ | sc <;> simp only [hsc] at h
  · cases h
  have hcmp : comparesAt junk s st = (cn == sc && st.nonceCount.getD junk == s.nonceCount) := by
    simp only [comparesAt, hqa, hr, hc, hn, hsc, Option.isSome_some, Bool.true_and]; rfl
  rw [hcmp]
  split_ifs at h with h₁ h₂
  · cases h; rw [if_neg (by simp [h₁])]; rfl
  · cases h; rw [if_neg (by simp [h₂])]; rfl
  rw [if_pos (by simp only [Bool.and_eq_true, beq_iff_eq]; exact ⟨not_not.mp h₁, not_not.mp h₂⟩)]
  split at h
  · split_ifs at h <;> cases h <;> rfl
  · cases h

theorem verifyDigestResponse_storedRdig {junk : Nat} {req : AuthRequest} {s s' : AuthSession}
    {v : List Char} {ret : NeResult} (h : verifyDigestResponse c junk req s v = some (s', ret)) :
    s'.storedRdig = if reachesComparison junk s v then none else s.storedRdig := by
  unfold verifyDigestResponse at h
  obtain ⟨st, hst, h⟩ := Option.bind_eq_some.mp h
  obtain ⟨⟨s₁, ret₁⟩, hc, h⟩ := Option.bind_eq_some.mp h
  have hs₁ : s'.storedRdig = s₁.storedRdig := by
    dsimp only at h; split at h <;> cases h <;> rfl
  rw [hs₁, infoCheck_storedRdig hc, reachesComparison, hst]

end Calls

section History

theorem snapStep_reset_not_mem_isSome :
    ∀ (post : List SnapEvent) {init : Option (List Char)}, init.isSome → SnapEvent.reset ∉ post →
      (post.foldl snapStep init).isSome
  | [], _, h, _ => h
  | e :: post, init, h, hr => by
      rw [List.mem_cons, not_or] at hr
      refine snapStep_reset_not_mem_isSome post ?_ hr.2
      cases e with
      | request auth a => cases auth <;> simp [snapStep, h]
      | reset => exact absurd rfl hr.1

theorem lastAuthSnapshot_eq_some {h : List SnapEvent} {a : List Char} (hs : lastAuthSnapshot h = some a) :
    ∃ pre post, h = pre ++ .request true a :: post ∧ ∀ e ∈ post, ∃ b, e = .request false b := by
  induction h using List.reverseRecOn generalizing a with
  | nil => cases hs
  | append_singleton h e ih =>
      rw [lastAuthSnapshot, List.foldl_append, List.foldl_cons, List.foldl_nil] at hs
      cases e with
      | request auth b =>
          cases auth
          · obtain ⟨pre, post, rfl, hpost⟩ := ih hs
            refine ⟨pre, post ++ [.request false b], by simp, fun e he => ?_⟩
            rcases List.mem_append.mp he with he | he
            · exact hpost e he
            · exact ⟨b, List.mem_singleton.mp he⟩
          · cases hs; exact ⟨h, [], rfl, by simp⟩
      | reset => cases hs

theorem lastAuthSnapshot_isSome {h : List SnapEvent} :
    (lastAuthSnapshot h).isSome ↔ ∃ pre a post, h = pre ++ .request true a :: post ∧ .reset ∉ post := by
  constructor
  · intro hs
    obtain ⟨a, ha⟩ := Option.isSome_iff_exists.mp hs
    obtain ⟨pre, post, rfl, hpost⟩ := lastAuthSnapshot_eq_some ha
    exact ⟨pre, a, post, rfl, fun hr => by obtain ⟨b, hb⟩ := hpost _ hr; cases hb⟩
  · rintro ⟨pre, a, post, rfl, hr⟩
    rw [lastAuthSnapshot, List.foldl_append, List.foldl_cons]
    exact snapStep_reset_not_mem_isSome post rfl hr

end History

section Acceptors

variable {c : Crypto}

def challSnap (ch : AuthChallenge) : List SnapEvent :=
  match ch.protocol.scheme with
  | .basic => if ch.realm.isSome then [.reset] else []
  | .digest => if freshPath ch then [.reset] else []
  | .negotiate => []

def triedSnap (tried : List (AuthChallenge × Bool)) : List SnapEvent := tried.flatMap fun t => challSnap t.1

theorem negotiateChallenge_storedRdig (x : Ext) (s : AuthSession) (attempt : Nat) (ch : AuthChallenge) :
    (negotiateChallenge c x s attempt ch).sess.storedRdig = s.storedRdig := by
  have hg : (gssStep c x.gss s).1.storedRdig = s.storedRdig := by
    unfold gssStep; split
    · rfl
    · split_ifs <;> rfl
  unfold negotiateChallenge continueNegotiate
  split_ifs
  · split
    · split_ifs
      · rfl
      · exact hg
    · exact hg
  · rfl

theorem challenge_storedRdig (x : Ext) (s : AuthSession) (attempt : Nat) (ch : AuthChallenge) :
    (challenge ch.protocol c x s attempt ch).sess.storedRdig = (challSnap ch).foldl snapStep s.storedRdig := by
  cases hp : ch.protocol.scheme <;> simp only [challenge, challSnap, hp]
  · unfold basicChallenge
    rcases ch.realm with _ | realm
    · rfl
    · simp only [Option.isSome_some, ↓reduceIte]
      split_ifs <;> rfl
  · rw [digestChallenge_storedRdig]
    split <;> rfl
  · exact negotiateChallenge_storedRdig x s attempt ch

theorem tryChallenges_storedRdig (o : Nat → Ext) (attempt : Nat) :
    ∀ (L : List AuthChallenge) (i : Nat) (s : AuthSession),
      (tryChallenges c o attempt i s L).sess.storedRdig =
        (triedSnap (tryChallenges c o attempt i s L).tried).foldl snapStep s.storedRdig
  | [], _, _ => rfl
  | ch :: rest, i, s => by
      have hc := challenge_storedRdig (c := c) (o i) s attempt ch
      unfold tryChallenges
      dsimp only
      split
      · simpa [triedSnap] using hc
      · rw [tryChallenges_storedRdig o attempt rest (i + 1), hc]
        simp [triedSnap, List.foldl_append]

end Acceptors

section Hooks

variable {c : Crypto} {b : Build} {o : Oracle} {s s' : AuthSession} {areq : AuthRequest}

def challengeSnap (b : Build) (c : Crypto) (o : Oracle) (s : AuthSession) (areq : AuthRequest) (code : Nat)
    (authHdr : Option (List Char)) : List SnapEvent :=
  match authHdr with
  | some hdr =>
      if (code = s.spec.statusCode || (code = 401 && s.context = .connect)) && areq.attempt < intMax then
        match authChallenge b c o.ext s areq.attempt hdr with
        | some sel => triedSnap sel.tried ++ if sel.accepted.isSome then [] else [.reset]
        | none => []
      else []
  | none => []

def postSendSnap (b : Build) (c : Crypto) (o : Oracle) (s : AuthSession) (areq : AuthRequest)
    (st : Response) : List SnapEvent :=
  let s₀ := if b = .gssapi then { s with gssapiToken := none } else s
  match postBranch s st with
  | .verify p v => if p.scheme = .digest && reachesComparison o.junk s₀ v then [.reset] else []
  | .challenge authHdr => challengeSnap b c o s₀ areq st.code authHdr

def preSendSnap (s : AuthSession) (req : Option AuthRequest) : List SnapEvent :=
  match s.protocol, req with
  | some p, some _ => if p.scheme = .digest then [.request (s.qop == .auth) (absorbed s)] else []
  | _, _ => []

theorem challengeBranch_storedRdig {code : Nat} {hdr : Option (List Char)} {p : Posted}
    (h : challengeBranch b c o s areq code hdr = some p) :
    p.sess.storedRdig = (challengeSnap b c o s areq code hdr).foldl snapStep s.storedRdig := by
  unfold challengeBranch at h
  unfold challengeSnap
  rcases hdr with _ | hdr
  · cases h; rfl
  · dsimp only at h ⊢
    by_cases h₁ : (code = s.spec.statusCode || (code = 401 && s.context = .connect)) = true
    · by_cases h₂ : areq.attempt < intMax
      · rw [if_pos h₁, if_pos h₂] at h
        rw [if_pos (by simp [h₁, h₂])]
        obtain ⟨sel, hsel, rfl⟩ := Option.map_eq_some'.mp h
        have hsess : sel.sess.storedRdig = (triedSnap sel.tried).foldl snapStep s.storedRdig := by
          obtain ⟨st, -, rfl⟩ := authChallenge_eq hsel
          exact tryChallenges_storedRdig _ _ _ _ _
        rw [hsel, List.foldl_append, ← hsess]
        split <;> next hacc => rw [hacc]; rfl
      · rw [if_pos h₁, if_neg h₂] at h; cases h
    · rw [if_neg h₁] at h
      cases h
      rw [if_neg (by simp [h₁])]; rfl

theorem ahPostSend_storedRdig {st : Response} {p : Posted} (h : ahPostSend b c o s areq st = some p) :
    p.sess.storedRdig = (postSendSnap b c o s areq st).foldl snapStep s.storedRdig := by
  unfold ahPostSend at h
  unfold postSendSnap
  dsimp only at h ⊢
  generalize hs₀ : (if b = .gssapi then { s with gssapiToken := none } else s) = s₀ at h ⊢
  have h₀ : s₀.storedRdig = s.storedRdig := by rw [← hs₀]; split_ifs <;> rfl
  cases hb : postBranch s st with
  | verify q v =>
      simp only [hb] at h
      obtain ⟨⟨s₁, ret⟩, hv, rfl⟩ := Option.map_eq_some'.mp h
      unfold verify at hv
      cases hq : q.scheme <;> simp only [hq] at hv
      · cases hv
      · rw [verifyDigestResponse_storedRdig hv, h₀]
        simp only [hq, decide_True, Bool.true_and]
        cases reachesComparison o.junk s₀ v <;> rfl
      · unfold verifyNegotiateResponse at hv
        split_ifs at hv
        cases hv
        simp [hq, h₀]
  | challenge authHdr =>
      simp only [hb] at h
      rw [← h₀]
      exact challengeBranch_storedRdig h

theorem ahPreSend_storedRdig {req : Option AuthRequest} {line : Option (List Char)}
    (h : ahPreSend c s req = some (s', line)) :
    s'.storedRdig = (preSendSnap s req).foldl snapStep s.storedRdig := by
  unfold ahPreSend at h
  unfold preSendSnap
  rcases hp : s.protocol with _ | p <;> rcases req with _ | areq <;> simp only [hp] at h ⊢
  all_goals try (cases h; rfl)
  obtain ⟨⟨s₁, v⟩, hresp, he⟩ := Option.map_eq_some'.mp h
  cases he
  unfold response at hresp
  cases hs : p.scheme <;> simp only [hs] at hresp
  · cases hresp; rfl
  · obtain ⟨⟨s₂, v₂⟩, hd, he⟩ := Option.map_eq_some'.mp hresp
    cases he
    rw [requestDigest_storedRdig hd]
    cases s.qop <;> rfl
  · cases hresp; rfl

end Hooks

section Run

variable {env : Env} {ns ns' : NeSession} {log : List (Event × Obs)} {role : Role} {e : Event} {o : Obs}

/-- The snapshot events one hook event makes on the session of `role`: clean_session for
ne_forget_auth, and those of the role's own pre-send and post-send hooks. -/
def stepSnap (env : Env) (role : Role) (ns : NeSession) : Event → List SnapEvent
  | .call .forgetAuth => if (ns.priv role).isSome then [.reset] else []
  | .preSend r role' =>
      match ns.requests r, ns.priv role' with
      | some req, some s => if role' = role then preSendSnap s (req.priv role') else []
      | _, _ => []
  | .postSend r role' resp orc =>
      match ns.requests r, ns.priv role' with
      | some req, some s =>
          match req.priv role' with
          | some areq => if role' = role then postSendSnap env.build env.crypto orc s areq resp else []
          | none => []
      | _, _ => []
  | _ => []

theorem authRegister_storedRdig (isproxy : Bool) (m : Nat) (ahc : AuthClass) (id : Role) (cr ud : Nat) :
    ((authRegister ns isproxy m ahc id cr ud).priv role).bind AuthSession.storedRdig =
      (ns.priv role).bind AuthSession.storedRdig := by
  rcases eq_or_ne role id with rfl | hne
  · cases h₀ : ns.priv role <;> simp [Hooks.authRegister, h₀]
  · simp [Hooks.authRegister, Function.update_noteq hne]

theorem bind_storedRdig_setPriv {role' : Role} {s s₁ : AuthSession} (hs : ns.priv role' = some s)
    (L : List SnapEvent) (h₁ : s₁.storedRdig = L.foldl snapStep s.storedRdig) :
    ((ns.setPriv role' s₁).priv role).bind AuthSession.storedRdig =
      (if role' = role then L else []).foldl snapStep ((ns.priv role).bind AuthSession.storedRdig) := by
  rcases eq_or_ne role' role with rfl | hne
  · simp [hs, h₁]
  · simp [hne, Function.update_noteq hne.symm]

theorem step_storedRdig (he : step env ns e = some (ns', o)) :
    (ns'.priv role).bind AuthSession.storedRdig =
      (stepSnap env role ns e).foldl snapStep ((ns.priv role).bind AuthSession.storedRdig) := by
  cases e with
  | call a =>
      cases he
      cases a with
      | forgetAuth =>
          cases h₀ : ns.priv role <;> simp [ApiCall.apply, neForgetAuth, stepSnap, h₀, snapStep, cleanSession]
      | _ => exact authRegister_storedRdig _ _ _ _ _ _
  | preSend r role' =>
      simp only [step] at he
      simp only [stepSnap]
      rcases hreq : ns.requests r with _ | req <;> rcases hs : ns.priv role' with _ | s <;>
        simp only [hreq, hs] at he ⊢
      all_goals try (cases he; rfl)
      obtain ⟨⟨s₁, line⟩, hpre, he⟩ := Option.map_eq_some'.mp he
      cases he
      exact bind_storedRdig_setPriv hs _ (ahPreSend_storedRdig hpre)
  | postSend r role' resp orc =>
      simp only [step] at he
      simp only [stepSnap]
      rcases hreq : ns.requests r with _ | req <;> rcases hs : ns.priv role' with _ | s <;>
        simp only [hreq, hs] at he ⊢
      all_goals try (cases he; rfl)
      rcases ha : req.priv role' with _ | areq <;> simp only [ha] at he ⊢
      · cases he; rfl
      · obtain ⟨p, hpost, he⟩ := Option.map_eq_some'.mp he
        cases he
        rw [setRequest_priv]
        exact bind_storedRdig_setPriv hs _ (ahPostSend_storedRdig hpost)
  | create r method uri => cases he; rfl
  | destroy r => cases he; rfl

def ghostStep (env : Env) (role : Role) (g : NeSession × List SnapEvent) (e : Event) : NeSession × List SnapEvent :=
  match step env g.1 e with
  | some (ns', _) => (ns', g.2 ++ stepSnap env role g.1 e)
  | none => g

def ghostRun (env : Env) (role : Role) (scheme : List Char) (log : List (Event × Obs)) : NeSession × List SnapEvent :=
  (log.map Prod.fst).foldl (ghostStep env role) (NeSession.init scheme, [])

/-- The history of `role`'s session along a logged run from a new ne_session: every
request_digest call, with whether it used qop=auth and the bytes it absorbed, and every reset of
the snapshot (clean_session, and the digest comparison of verify_digest_response), oldest
first. -/
def snapHistory (env : Env) (role : Role) (scheme : List Char) (log : List (Event × Obs)) : List SnapEvent :=
  (ghostRun env role scheme log).2

theorem ghostRun_append (scheme : List Char) (log : List (Event × Obs)) (eo : Event × Obs) :
    ghostRun env role scheme (log ++ [eo]) = ghostStep env role (ghostRun env role scheme log) eo.1 := by
  simp [ghostRun, List.foldl_append]

theorem reach_snapshot (hr : Reach env ns log) :
    (ghostRun env role ns.scheme log).1 = ns ∧
      (ns.priv role).bind AuthSession.storedRdig = lastAuthSnapshot (snapHistory env role ns.scheme log) := by
  induction hr with
  | init scheme => exact ⟨rfl, rfl⟩
  | @step ns₀ ns₁ log₀ o₀ e hr he ih =>
      have hg : ghostRun env role ns₁.scheme (log₀ ++ [(e, o₀)]) =
          (ns₁, snapHistory env role ns₀.scheme log₀ ++ stepSnap env role ns₀ e) := by
        rw [step_scheme he, ghostRun_append, ← Prod.mk.eta (p := ghostRun env role ns₀.scheme log₀), ih.1]
        simp only [ghostStep, he]
        rfl
      refine ⟨by rw [hg], ?_⟩
      rw [snapHistory, hg, lastAuthSnapshot, List.foldl_append, ← lastAuthSnapshot, ← ih.2, step_storedRdig he]

end Run

/-- In every reachable state of the hooks, the stored_rdig of a role's session is set exactly when
the session's history has a request_digest call with qop=auth after its last clean_session and
its last digest comparison; then it holds the bytes that the last such call absorbed, and every
request_digest call after it used qop none. -/
theorem stored_rdig_last_auth_request {env : Env} {ns : NeSession} {log : List (Event × Obs)} {role : Role}
    {s : AuthSession} (hr : Reach env ns log) (hs : ns.priv role = some s) :
    (s.storedRdig.isSome ↔
        ∃ pre a post, snapHistory env role ns.scheme log = pre ++ .request true a :: post ∧ .reset ∉ post) ∧
      ∀ a, s.storedRdig = some a → ∃ pre post, snapHistory env role ns.scheme log = pre ++ .request true a :: post ∧
        ∀ e ∈ post, ∃ b, e = .request false b := by
  have h := (@reach_snapshot env ns log role hr).2
  rw [hs, Option.some_bind] at h
  exact ⟨h ▸ lastAuthSnapshot_isSome, fun a ha => lastAuthSnapshot_eq_some (h ▸ ha)⟩

theorem snapshot_survives_stale_challenge :
    ∃ ns log s, Reach digestEnv ns log ∧ ns.priv .server = some s ∧ s.storedRdig.isSome ∧
      (s.storedRdig.isSome ↔
        ∃ pre a post, snapHistory digestEnv .server ns.scheme log = pre ++ .request true a :: post ∧ .reset ∉ post) ∧
      ∀ a, s.storedRdig = some a → ∃ pre post,
        snapHistory digestEnv .server ns.scheme log = pre ++ .request true a :: post ∧ ∀ e ∈ post, ∃ b, e = .request false b :=
  let hr := (((((@Reach.init digestEnv "http".toList).step (.call (.setServerAuth 1 1)) rfl).step
    (.create 0 "GET".toList "/".toList) rfl |>.step
    (.postSend 0 .server (challenge401 "Digest realm=\"r\", nonce=\"n1\", qop=\"auth\"") grantAll) rfl).step
    (.preSend 0 .server) rfl).step
    (.postSend 0 .server (challenge401 "Digest realm=\"r\", nonce=\"n2\", stale=true") grantAll) rfl).step
    (.preSend 0 .server) rfl
  ⟨_, _, _, hr, rfl, rfl, stored_rdig_last_auth_request hr rfl⟩

/-- After a Digest challenge with qop=auth and a request, a stale challenge without qop is
accepted without clean_session, and the next request_digest runs with qop none: stored_rdig is
still set. -/
theorem stale_challenge_keeps_snapshot :
    ∃ ns log s l, Reach digestEnv ns log ∧ ns.priv .server = some s ∧ s.protocol = some digestProtocol ∧
      s.qop = .none ∧ log.getLast? = some (.preSend 0 .server, .sent 0 .server (some l)) ∧ s.storedRdig ≠ none :=
  ⟨_, _, _, _, (((((@Reach.init digestEnv "http".toList).step (.call (.setServerAuth 1 1)) rfl).step
    (.create 0 "GET".toList "/".toList) rfl |>.step
    (.postSend 0 .server (challenge401 "Digest realm=\"r\", nonce=\"n1\", qop=\"auth\"") grantAll) rfl).step
    (.preSend 0 .server) rfl).step
    (.postSend 0 .server (challenge401 "Digest realm=\"r\", nonce=\"n2\", stale=true") grantAll) rfl).step
    (.preSend 0 .server) rfl, rfl, rfl, rfl, rfl, by decide⟩

end NeonAuth.Snapshot
