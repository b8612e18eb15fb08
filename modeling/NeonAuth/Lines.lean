import NeonAuth.Rounds

namespace NeonAuth.Lines

open Text Protocol Session Verify Challenge Hooks Select Steps DigestRun Forget Rounds

variable {b : Build} {c : Crypto} {s s' : AuthSession} {areq : AuthRequest}

theorem requestDigest_shape {v : List Char} (h : requestDigest c s areq = some (s', v)) :
    ∃ n r, s' = { s with nonceCount := n, storedRdig := r } := by
  unfold requestDigest at h
  dsimp only at h
  split at h <;> cases h
  split_ifs <;> exact ⟨_, _, rfl⟩

theorem ahPreSend_shape {req : Option AuthRequest} {line : Option (List Char)}
    (h : ahPreSend c s req = some (s', line)) : ∃ n r, s' = { s with nonceCount := n, storedRdig := r } := by
  unfold ahPreSend at h
  split at h
  · obtain ⟨⟨s₁, v⟩, hr, he⟩ := Option.map_eq_some'.mp h
    cases he
    unfold response at hr
    split at hr
    · cases hr; exact ⟨_, _, rfl⟩
    · obtain ⟨⟨s₂, v₂⟩, hd, he⟩ := Option.map_eq_some'.mp hr
      cases he; exact requestDigest_shape hd
    · cases hr; exact ⟨_, _, rfl⟩
  · cases h; exact ⟨_, _, rfl⟩

def BasicBlob (c : Crypto) (reply : CredsReply) (s : AuthSession) : Prop :=
  reply.refused = false ∧ (∀ u, reply.username = some u → s.username = u) ∧
    s.basic = some (c.base64 (s.username ++ ":".toList ++ reply.password))

theorem basicChallenge_accepted {x : Ext} {attempt : Nat} {ch : AuthChallenge}
    (h : (basicChallenge c x s attempt ch).accepted = true) :
    ∃ call, (basicChallenge c x s attempt ch).calls = [call] ∧ call.realm = ch.realm ∧
      BasicBlob c (x.creds call) (basicChallenge c x s attempt ch).sess := by
  unfold basicChallenge at h ⊢
  split at h
  · cases h
  · next realm hr =>
      dsimp only at h ⊢
      split_ifs at h ⊢ with href
      exact ⟨_, rfl, hr.symm, by simpa using href,
        fun u hu => congrArg (Option.getD · _) hu, rfl⟩

def GssOut (c : Crypto) (g : GssReply) (t : List Char) : Prop :=
  g.major ≠ .failure ∧ g.output ≠ [] ∧ t = c.base64 g.output

theorem gssStep_token (g : GssReply) :
    (gssStep c g s).1.gssapiToken = s.gssapiToken ∨ ∃ t, GssOut c g t ∧ (gssStep c g s).1.gssapiToken = some t ∧
      ((gssStep c g s).2 = false → g.major = .other) := by
  unfold gssStep
  split
  · exact .inl rfl
  · next hf =>
      dsimp only
      split_ifs with ho
      · exact .inl rfl
      · refine .inr ⟨_, ⟨hf, ho, rfl⟩, rfl, fun h => ?_⟩
        cases hm : g.major <;> simp_all

theorem challenge_token (p : AuthProtocol) (x : Ext) (attempt : Nat) (ch : AuthChallenge) :
    (challenge p c x s attempt ch).sess.gssapiToken = s.gssapiToken ∨
      (challenge p c x s attempt ch).sess.gssapiToken = none ∨
      p.scheme = .negotiate ∧ ∃ t, GssOut c x.gss t ∧ (challenge p c x s attempt ch).sess.gssapiToken = some t ∧
        ((challenge p c x s attempt ch).accepted = false → x.gss.major = .other) := by
  unfold challenge
  split
  · unfold basicChallenge
    split
    · exact .inl rfl
    · dsimp only; split_ifs <;> exact .inr (.inl rfl)
  · unfold digestChallenge
    split_ifs
    · exact .inl rfl
    · exact .inl rfl
    · split
      · exact .inl (by rw [digestNonce_eq])
      · exact .inl rfl
    · split
      · unfold digestFresh
        dsimp only
        split_ifs
        · exact .inr (.inl rfl)
        · exact .inr (.inl (by rw [digestNonce_eq]; rfl))
      · exact .inl rfl
  · next hn =>
      unfold negotiateChallenge
      split_ifs
      · unfold continueNegotiate
        split
        · split_ifs
          · exact .inl rfl
          · exact (gssStep_token x.gss).imp_right fun h => .inr ⟨hn, h⟩
        · exact (gssStep_token x.gss).imp_right fun h => .inr ⟨hn, h⟩
      · exact .inl rfl

theorem tryChallenges_index_ge (o : Nat → Ext) (attempt : Nat) :
    ∀ (L : List AuthChallenge) (i : Nat) (s : AuthSession), i ≤ (tryChallenges c o attempt i s L).index
  | [], _, _ => le_rfl
  | ch :: rest, i, s => by
      unfold tryChallenges
      dsimp only
      split
      · exact le_rfl
      · exact (Nat.le_succ i).trans (tryChallenges_index_ge o attempt rest (i + 1) _)

/-- The try loop leaves the token it started with, none, or one a Negotiate challenge of the
list set from the `j`-th answer of the GSSAPI provider: the answer to the challenge the loop
stopped at, or an earlier one whose major status made its challenge fail. -/
theorem tryChallenges_token (o : Nat → Ext) (attempt : Nat) :
    ∀ (L : List AuthChallenge) (i : Nat) (s : AuthSession),
      (tryChallenges c o attempt i s L).sess.gssapiToken = s.gssapiToken ∨
        (tryChallenges c o attempt i s L).sess.gssapiToken = none ∨
        ∃ ch ∈ L, ch.protocol.scheme = .negotiate ∧ ∃ j t, GssOut c (o j).gss t ∧
          (tryChallenges c o attempt i s L).sess.gssapiToken = some t ∧
          (j = (tryChallenges c o attempt i s L).index ∨
            j < (tryChallenges c o attempt i s L).index ∧ (o j).gss.major = .other)
  | [], _, s => .inl rfl
  | ch :: rest, i, s => by
      have hc := @challenge_token c s ch.protocol (o i) attempt ch
      unfold tryChallenges
      dsimp only
      split
      · rcases hc with h | h | ⟨hn, t, hg, ht, -⟩
        · exact .inl h
        · exact .inr (.inl h)
        · exact .inr (.inr ⟨ch, List.mem_cons_self _ _, hn, i, t, hg, ht, .inl rfl⟩)
      · next hacc =>
        have hlt := @tryChallenges_index_ge c o attempt rest (i + 1) (challenge ch.protocol c (o i) s attempt ch).sess
        rcases tryChallenges_token o attempt rest (i + 1) (challenge ch.protocol c (o i) s attempt ch).sess with
          h | h | ⟨ch', hm, hn, j, t, hg, ht, hj⟩
        · rw [h]
          rcases hc with h' | h' | ⟨hn, t, hg, ht, ho⟩
          · exact .inl h'
          · exact .inr (.inl h')
          · exact .inr (.inr ⟨ch, List.mem_cons_self _ _, hn, i, t, hg, ht,
              .inr ⟨hlt, ho (Bool.eq_false_iff.mpr hacc)⟩⟩)
        · exact .inr (.inl h)
        · exact .inr (.inr ⟨ch', List.mem_cons_of_mem _ hm, hn, j, t, hg, ht, hj⟩)

theorem build_of_negotiate {p : AuthProtocol} (hp : p ∈ protocols b) (hn : p.scheme = .negotiate) :
    b = .gssapi := by
  cases b
  · simp only [protocols, List.mem_cons, List.mem_singleton, List.not_mem_nil, or_false] at hp
    rcases hp with rfl | rfl <;> cases hn
  · rfl

theorem ahPostSend_token {o : Oracle} {st : Response} {p : Posted} (h : ahPostSend b c o s areq st = some p)
    (hs : s.gssapiToken = none ∨ b = .gssapi) :
    p.sess.gssapiToken = none ∨
      b = .gssapi ∧ p.accepted.isSome ∧ ∃ j t, (j = p.index ∨ j < p.index ∧ (o.ext j).gss.major = .other) ∧
        GssOut c (o.ext j).gss t ∧ p.sess.gssapiToken = some t := by
  have h₀ : (if b = .gssapi then { s with gssapiToken := none } else s).gssapiToken = none := by
    split_ifs with hb
    · rfl
    · exact hs.resolve_right hb
  obtain ⟨s₀, hs₀, ⟨q, v, -, -, hv⟩ | ⟨code, hdr, hc⟩⟩ := ahPostSend_branches h
  all_goals rw [← hs₀] at h₀
  · obtain ⟨⟨s₁, ret⟩, hv', rfl⟩ := Option.map_eq_some'.mp hv
    exact .inl ((verify_result hv').2.2.2.2.2.trans h₀)
  rcases challengeBranch_cases hc with rfl | ⟨v, sel, hsel, hps, -, hacc, hi, -⟩
  · exact .inl h₀
  obtain ⟨st, hst, rfl⟩ := authChallenge_eq hsel
  rw [hps, hacc, hi]
  split_ifs with ha
  · rcases tryChallenges_token o.ext areq.attempt _ 0 { s₀ with protocol := none } with
      h | h | ⟨ch, hm, hn, j, t, hg, ht, hj⟩
    · exact .inl (h.trans h₀)
    · exact .inl h
    · exact .inr ⟨build_of_negotiate (insertChallenges_claimed hst ch hm).1 hn, ha, j, t, hj, hg, ht⟩
  · exact .inl rfl

theorem ahPostSend_basic_accept {o : Oracle} {st : Response} {p : Posted} (h : ahPostSend b c o s areq st = some p)
    {ch : AuthChallenge} (ha : p.accepted = some ch) (hb : ch.protocol.scheme = .basic) :
    ∃ call, p.calls.getLast? = some call ∧ call.realm = ch.realm ∧ BasicBlob c ((o.ext p.index).creds call) p.sess := by
  rcases ahPostSend_cases h with ⟨-, -, hn, -⟩ | ⟨s₀, v, sel, -, hsel, hs, -, hacc, hi, hcalls, -⟩
  · rw [hn] at ha; cases ha
  rw [ha] at hacc
  obtain ⟨st, -, rfl⟩ := authChallenge_eq hsel
  obtain ⟨-, s₁, -, hj, hsess, hc⟩ := tryChallenges_accepted o.ext areq.attempt _ 0 _ hacc.symm
  simp only [challenge, hb] at hj hsess hc
  rw [← hacc, Option.isSome_some, if_pos rfl] at hs
  obtain ⟨call, hm, hr, hblob⟩ := basicChallenge_accepted hj
  rw [hs, hsess, hi, hcalls]
  exact ⟨call, getLast_of_suffix (hm ▸ hc), hr, hblob⟩

structure LineFrame (s s' : AuthSession) : Prop where
  protocol : s'.protocol = s.protocol
  basic : s'.basic = s.basic
  username : s'.username = s.username
  token : s'.gssapiToken = s.gssapiToken ∨ s'.gssapiToken = none

theorem LineFrame.refl (s : AuthSession) : LineFrame s s := ⟨rfl, rfl, rfl, .inl rfl⟩

theorem lineFrame_of_shape {n : Nat} {r : Option (List Char)} :
    LineFrame s { s with nonceCount := n, storedRdig := r } := ⟨rfl, rfl, rfl, .inl rfl⟩

structure WindowFrame (w w' : Window) : Prop where
  chall : w'.chall = w.chall
  orc : w'.orc = w.orc
  idx : w'.idx = w.idx
  calls : w'.calls = w.calls
  forgot : w'.forgot = w.forgot

def BasicCreds (c : Crypto) (w : Window) (s : AuthSession) : Prop :=
  ∃ call, w.calls.getLast? = some call ∧ call.realm = w.chall.realm ∧ BasicBlob c ((w.orc.ext w.idx).creds call) s

theorem BasicCreds.of_frame {w w' : Window} (h : BasicCreds c w s) (hw : WindowFrame w w') (hs : LineFrame s s') :
    BasicCreds c w' s' := by
  unfold BasicCreds BasicBlob at *
  rw [hw.chall, hw.orc, hw.idx, hw.calls, hs.username, hs.basic]
  exact h

/-- The window the log shows for `role` and that role's session agree on the lines it can send:
while a Basic challenge's protocol is selected, the blob is that round's, or none after a
forget; a GSSAPI token is only held in the GSSAPI build, and was made in the window's round. -/
structure LineOk (c : Crypto) (b : Build) (role : Role) (ns : NeSession) (log : List (Event × Obs)) : Prop where
  basic : ∀ w s, window role log = some w → ns.priv role = some s → s.protocol = some w.chall.protocol →
    w.chall.protocol.scheme = .basic → (w.forgot = true → s.basic = none) ∧ (w.forgot = false → BasicCreds c w s)
  token : ∀ s t, ns.priv role = some s → s.gssapiToken = some t →
    b = .gssapi ∧ ∃ w j, window role log = some w ∧ w.forgot = false ∧
      (j = w.idx ∨ j < w.idx ∧ (w.orc.ext j).gss.major = .other) ∧ GssOut c (w.orc.ext j).gss t

section Run

variable {env : Env} {role : Role} {ns ns' : NeSession} {log : List (Event × Obs)} {e : Event} {o : Obs}

theorem windowStep_frame (W : Option Window) (hf : e ≠ .call .forgetAuth)
    (ho : ∀ r ret ch calls i, o ≠ .posted r role ret (some ch) calls i) :
    ∃ f : Window → Window, windowStep role W (e, o) = W.map f ∧ ∀ w, WindowFrame w (f w) := by
  have hid : ∃ f : Window → Window, W = W.map f ∧ ∀ w, WindowFrame w (f w) :=
    ⟨fun w => w, Option.map_id'.symm, fun _ => ⟨rfl, rfl, rfl, rfl, rfl⟩⟩
  unfold windowStep
  split
  · next _ _ _ _ _ _ _ _ acc _ _ heq =>
      split_ifs with hr
      · rcases acc with _ | ch
        · exact ⟨_, rfl, fun _ => ⟨rfl, rfl, rfl, rfl, rfl⟩⟩
        · subst hr; exact (ho _ _ ch _ _ (Prod.mk.inj heq).2).elim
      · exact hid
  · split_ifs
    · exact ⟨_, rfl, fun _ => ⟨rfl, rfl, rfl, rfl, rfl⟩⟩
    · exact hid
  · next _ heq => exact (hf (Prod.mk.inj heq).1).elim
  · exact hid

theorem LineOk.keep (h : LineOk env.crypto env.build role ns log) (hf : e ≠ .call .forgetAuth)
    (ho : ∀ r ret ch calls i, o ≠ .posted r role ret (some ch) calls i)
    (hs : ∀ s', ns'.priv role = some s' →
      (s'.protocol = none ∧ s'.gssapiToken = none) ∨ ∃ s, ns.priv role = some s ∧ LineFrame s s') :
    LineOk env.crypto env.build role ns' (log ++ [(e, o)]) := by
  obtain ⟨f, hw, hfr⟩ := windowStep_frame (window role log) hf ho
  constructor
  · intro w' s' hw' hs' hp hb
    rw [window_append, hw] at hw'
    obtain ⟨w, hw₀, rfl⟩ := Option.map_eq_some'.mp hw'
    rcases hs s' hs' with ⟨hn, -⟩ | ⟨s, hs, hl⟩
    · rw [hn] at hp; cases hp
    have hbw := h.basic w s hw₀ hs (by rw [← hl.protocol, hp, (hfr w).chall]) (by rwa [← (hfr w).chall])
    rw [(hfr w).forgot]
    exact ⟨fun hg => hl.basic.trans (hbw.1 hg), fun hg => (hbw.2 hg).of_frame (hfr w) hl⟩
  · intro s' t hs' ht
    rcases hs s' hs' with ⟨-, hn⟩ | ⟨s, hs, hl⟩
    · rw [hn] at ht; cases ht
    rcases hl.token with hl | hl <;> rw [hl] at ht
    · obtain ⟨hb, w, j, hw₀, hg, hj, ho⟩ := h.token s t hs ht
      refine ⟨hb, f w, j, by rw [window_append, hw, hw₀]; rfl, ?_⟩
      rw [(hfr w).forgot, (hfr w).orc, (hfr w).idx]
      exact ⟨hg, hj, ho⟩
    · cases ht

theorem lineOk_forget :
    LineOk env.crypto env.build role ((ApiCall.forgetAuth).apply ns) (log ++ [(.call .forgetAuth, .quiet)]) := by
  constructor
  · intro w s' hw hs' _ _
    rw [window_append] at hw
    obtain ⟨w₀, -, rfl⟩ := Option.map_eq_some'.mp hw
    obtain ⟨s, -, rfl⟩ := Option.map_eq_some'.mp hs'
    exact ⟨fun _ => rfl, fun hg => by cases hg⟩
  · intro s' t hs' ht
    obtain ⟨s, -, rfl⟩ := Option.map_eq_some'.mp hs'
    cases ht

theorem authRegister_lineFrame {isproxy : Bool} {m : Nat} {ahc : AuthClass} {id : Role} {cr ud : Nat} {s' : AuthSession}
    (hs' : (authRegister ns isproxy m ahc id cr ud).priv role = some s') :
    (s'.protocol = none ∧ s'.gssapiToken = none) ∨ ∃ s, ns.priv role = some s ∧ LineFrame s s' := by
  rcases authRegister_priv role isproxy m ahc id cr ud with ⟨h₁, -⟩ | ⟨s₁, h₁, ⟨s, hs, he⟩ | ⟨-, he⟩⟩ <;>
    rw [h₁] at hs' <;> cases hs'
  · exact .inr ⟨s, hs, by rw [he]; exact ⟨rfl, rfl, rfl, .inl rfl⟩⟩
  · exact .inl (by rw [he]; exact ⟨rfl, rfl⟩)

theorem LineOk.postSend (h : LineOk env.crypto env.build role ns log) {r : Nat} {resp : Response} {orc : Oracle}
    {s : AuthSession} {areq : AuthRequest} {p : Posted} {req : Option NeRequest}
    (hs : ns.priv role = some s) (hpost : ahPostSend env.build env.crypto orc s areq resp = some p) :
    LineOk env.crypto env.build role ((ns.setPriv role p.sess).setRequest r req)
      (log ++ [(.postSend r role resp orc, .posted r role p.ret p.accepted p.calls p.index)]) := by
  have htok : s.gssapiToken = none ∨ env.build = .gssapi := by
    cases ht : s.gssapiToken with
    | none => exact .inl rfl
    | some t => exact .inr (h.token s t hs ht).1
  cases hacc : p.accepted with
  | none =>
      refine h.keep (by simp) (by simp [hacc]) fun s' hs' => ?_
      simp only [setRequest_priv, setPriv_priv, Function.update_same, Option.some.injEq] at hs'
      subst hs'
      rcases ahPostSend_outcome hpost with ⟨-, -, -, -, hoff⟩ | ⟨-, s₀, v, sel, -, -, hacc', -, hout⟩
      · refine .inr ⟨s, hs, hoff.protocol, hoff.basic, hoff.username, ?_⟩
        rw [hoff.token]
        split_ifs
        · exact .inr rfl
        · exact .inl rfl
      · rw [hacc] at hacc'
        rw [← hacc'] at hout
        obtain ⟨-, hp, hc⟩ := hout
        exact .inl ⟨hp, by rw [← hc]; rfl⟩
  | some ch =>
      have hw : window role (log ++ [(.postSend r role resp orc, .posted r role p.ret (some ch) p.calls p.index)]) =
          some ⟨ch, orc, p.index, p.calls, [], [], false⟩ := by
        simp [window_append, windowStep, hacc]
      have hsess : ∀ s', ((ns.setPriv role p.sess).setRequest r req).priv role = some s' → s' = p.sess := by
        simp
      constructor
      · intro w s' hw' hs' hp hb
        rw [hw, Option.some.injEq] at hw'
        subst hw'
        obtain rfl := hsess s' hs'
        obtain ⟨call, hm, hr, hblob⟩ := ahPostSend_basic_accept hpost hacc hb
        exact ⟨fun hg => (by cases hg), fun _ => ⟨call, hm, hr, hblob⟩⟩
      · intro s' t hs' ht
        obtain rfl := hsess s' hs'
        rcases ahPostSend_token hpost htok with hn | ⟨hb, -, j, t', hj, hg, ht'⟩
        · rw [hn] at ht; cases ht
        · rw [ht', Option.some.injEq] at ht
          exact ⟨hb, _, j, hw, rfl, hj, ht ▸ hg⟩

theorem LineOk.step (h : LineOk env.crypto env.build role ns log) (he : step env ns e = some (ns', o)) :
    LineOk env.crypto env.build role ns' (log ++ [(e, o)]) := by
  have hq : ∀ r ret ch calls i, Obs.quiet ≠ .posted r role ret (some ch) calls i := by simp
  have hsame : ∀ s', ns.priv role = some s' → (s'.protocol = none ∧ s'.gssapiToken = none) ∨
      ∃ s, ns.priv role = some s ∧ LineFrame s s' := fun s' hs' => .inr ⟨s', hs', LineFrame.refl s'⟩
  cases e with
  | call a =>
      cases he
      cases a with
      | forgetAuth => exact lineOk_forget
      | _ => exact h.keep (by simp) hq fun s' hs' => authRegister_lineFrame hs'
  | create r m u => cases he; exact h.keep (by simp) hq hsame
  | destroy r => cases he; exact h.keep (by simp) hq hsame
  | preSend r role' =>
      rcases step_preSend he with ⟨rfl, rfl⟩ | ⟨req, s, s₁, line, -, hs, hpre, rfl, rfl⟩
      · exact h.keep (by simp) hq hsame
      refine h.keep (by simp) (by simp) fun s' hs' => .inr ?_
      rcases eq_or_ne role' role with rfl | hne
      · simp only [setPriv_priv, Function.update_same, Option.some.injEq] at hs'
        subst hs'
        obtain ⟨n, rd, rfl⟩ := ahPreSend_shape hpre
        exact ⟨s, hs, lineFrame_of_shape⟩
      · rw [setPriv_priv, Function.update_noteq hne.symm] at hs'
        exact ⟨s', hs', LineFrame.refl s'⟩
  | postSend r role' resp orc =>
      rcases step_postSend he with ⟨rfl, rfl | rfl⟩ | ⟨req, s, areq, p, -, hs, -, hpost, rfl, rfl⟩
      · exact h.keep (by simp) hq hsame
      · exact h.keep (by simp) (by simp) hsame
      rcases eq_or_ne role' role with rfl | hne
      · exact h.postSend hs hpost
      · refine h.keep (by simp) (by simp [hne]) fun s' hs' => .inr ⟨s', ?_, LineFrame.refl s'⟩
        rwa [setRequest_priv, setPriv_priv, Function.update_noteq hne.symm] at hs'

theorem reach_lineOk (hr : Reach env ns log) : LineOk env.crypto env.build role ns log := by
  induction hr with
  | init scheme => exact ⟨fun _ _ _ h => (by cases h), fun _ _ h => (by cases h)⟩
  | step e hr he ih => exact ih.step he

end Run

section Headline

variable {env : Env} {ns ns' : NeSession} {log : List (Event × Obs)} {role : Role} {r : Nat} {l : List Char}
  {s : AuthSession} {p : AuthProtocol}

theorem preSend_response (hr : Reach env ns log) (hs : ns.priv role = some s) (hp : s.protocol = some p)
    (he : step env ns (.preSend r role) = some (ns', .sent r role (some l))) :
    ∃ areq s₁ v, response p env.crypto s areq = some (s₁, some v) ∧ l = role.authClass.reqHdr ++ ": ".toList ++ v := by
  rcases step_preSend he with ⟨-, ho⟩ | ⟨req, s₀, s₁, line, -, hs₀, hpre, -, ho⟩
  · cases ho
  rw [hs] at hs₀
  cases hs₀
  obtain rfl : line = some l := by cases ho; rfl
  obtain ⟨p', areq, v, hp', -, hresp, rfl⟩ := ahPreSend_line hpre
  rw [hp, Option.some.injEq] at hp'
  subst hp'
  exact ⟨areq, s₁, v, hresp, by rw [(reach_privOk hr).spec role s hs]⟩

/-- Over any run, a Basic line ah_pre_send appends for a role comes from the round that accepted
the role's last challenge, a Basic one. Unless ne_forget_auth has run since, it is the base64 of
the session's username, a colon and the password of a callback reply of that round for the
challenge's realm that did not refuse and whose username, if it wrote one, is the session's;
after a forget it is the bare scheme name, with no credentials and no CRLF. -/
theorem basic_line_carries_round_credentials (hr : Reach env ns log) (hs : ns.priv role = some s)
    (hp : s.protocol = some p) (hb : p.scheme = .basic)
    (he : step env ns (.preSend r role) = some (ns', .sent r role (some l))) :
    ∃ w, window role log = some w ∧ w.chall.protocol = p ∧
      if w.forgot then l = role.authClass.reqHdr ++ ": Basic ".toList
      else ∃ call, w.calls.getLast? = some call ∧ call.realm = w.chall.realm ∧
        ((w.orc.ext w.idx).creds call).refused = false ∧
        (∀ u, ((w.orc.ext w.idx).creds call).username = some u → s.username = u) ∧
        l = role.authClass.reqHdr ++ ": Basic ".toList ++
          env.crypto.base64 (s.username ++ ":".toList ++ ((w.orc.ext w.idx).creds call).password) ++ "\r\n".toList := by
  obtain ⟨w, hw, hc⟩ := reach_protocolOk hr s p hs hp
  have hl := (reach_lineOk hr).basic w s hw hs (hc ▸ hp) (hc ▸ hb)
  obtain ⟨areq, s₁, v, hresp, rfl⟩ := preSend_response hr hs hp he
  simp only [response, hb, Option.some.injEq, Prod.mk.injEq] at hresp
  obtain ⟨-, rfl⟩ := hresp
  have hcat : ": Basic ".toList = ": ".toList ++ "Basic ".toList := rfl
  refine ⟨w, hw, hc, ?_⟩
  cases hf : w.forgot
  · obtain ⟨call, hm, hre, hrf, hu, hbl⟩ := hl.2 hf
    refine ⟨call, hm, hre, hrf, hu, ?_⟩
    simp [requestBasic, hbl, hcat, neConcat]
  · simp [requestBasic, hl.1 hf, hcat]

theorem basic_line_after_granted_round :
    ∃ ns log s ns' l, Reach ⟨.plain, constCrypto⟩ ns log ∧ ns.priv .server = some s ∧
      step ⟨.plain, constCrypto⟩ ns (.preSend 0 .server) = some (ns', .sent 0 .server (some l)) ∧
      ∃ w, window .server log = some w ∧ w.chall.protocol = basicProtocol := by
  have hr := ((@Reach.init ⟨.plain, constCrypto⟩ "http".toList).step (.call (.setServerAuth 1 1)) rfl).step
    (.create 0 "GET".toList "/".toList) rfl |>.step (.postSend 0 .server (challenge401 "Basic realm=\"x\"") grantAll) rfl
  refine ⟨_, _, _, _, _, hr, rfl, rfl, ?_⟩
  obtain ⟨w, hw, hc, -⟩ := @basic_line_carries_round_credentials _ _ _ _ .server 0 _ _ _ hr rfl rfl rfl rfl
  exact ⟨w, hw, hc⟩

/-- Over any run, a Negotiate line ah_pre_send appends for a role is only sent in the GSSAPI
build, after no ne_forget_auth since the round that accepted the role's Negotiate challenge,
and carries the base64 of the non-empty output token of a GSSAPI step of that round that did
not fail. -/
theorem negotiate_line_carries_round_token (hr : Reach env ns log) (hs : ns.priv role = some s)
    (hp : s.protocol = some p) (hn : p.scheme = .negotiate)
    (he : step env ns (.preSend r role) = some (ns', .sent r role (some l))) :
    env.build = .gssapi ∧ ∃ w j, window role log = some w ∧ w.chall.protocol = p ∧ w.forgot = false ∧
      (j = w.idx ∨ j < w.idx ∧ (w.orc.ext j).gss.major = .other) ∧ (w.orc.ext j).gss.major ≠ .failure ∧ (w.orc.ext j).gss.output ≠ [] ∧
      l = role.authClass.reqHdr ++ ": Negotiate ".toList ++ env.crypto.base64 (w.orc.ext j).gss.output ++ "\r\n".toList := by
  obtain ⟨w, hw, hc⟩ := reach_protocolOk hr s p hs hp
  obtain ⟨areq, s₁, v, hresp, rfl⟩ := preSend_response hr hs hp he
  simp only [response, hn, requestNegotiate, Option.some.injEq, Prod.mk.injEq] at hresp
  obtain ⟨-, hv⟩ := hresp
  obtain ⟨t, ht, rfl⟩ := Option.map_eq_some'.mp hv
  obtain ⟨hb, w', j, hw', hf, hj, hmaj, hout, rfl⟩ := (reach_lineOk hr).token s t hs ht
  rw [hw, Option.some.injEq] at hw'
  subst hw'
  have hcat : ": Negotiate ".toList = ": ".toList ++ "Negotiate ".toList := rfl
  exact ⟨hb, w, j, hw, hc, hf, hj, hmaj, hout, by simp [hcat]⟩

def gssContinue : Oracle :=
  ⟨fun _ => ⟨fun _ => ⟨true, none, []⟩, [], ⟨.continueNeeded, "tok".toList, []⟩⟩, 0⟩

theorem negotiate_line_after_first_round :
    ∃ ns log s ns' l, Reach ⟨.gssapi, constCrypto⟩ ns log ∧ ns.priv .server = some s ∧
      step ⟨.gssapi, constCrypto⟩ ns (.preSend 0 .server) = some (ns', .sent 0 .server (some l)) ∧
      l = "Authorization: Negotiate tok\r\n".toList := by
  have hr := ((@Reach.init ⟨.gssapi, constCrypto⟩ "https".toList).step (.call (.setServerAuth 1 1)) rfl).step
    (.create 0 "GET".toList "/".toList) rfl |>.step (.postSend 0 .server (challenge401 "Negotiate") gssContinue) rfl
  refine ⟨_, _, _, _, _, hr, rfl, rfl, ?_⟩
  obtain ⟨-, w, j, hw, -, -, -, -, -, hl⟩ := @negotiate_line_carries_round_token _ _ _ _ .server 0 _ _ _ hr rfl rfl rfl rfl
  obtain rfl := Option.some.inj (hw.symm.trans rfl)
  exact hl

end Headline

end NeonAuth.Lines
