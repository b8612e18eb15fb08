import NeonAuth.Insertion
import NeonAuth.ChallengeParse

namespace NeonAuth.Select

open Text Tokenize Protocol Session Verify Challenge Insertion Grammar ChallengeParse

theorem claim_state (st : ChallScan) (proto : AuthProtocol) (hdl : AuthHandler) (rest : List Char) :
    (claim st proto hdl rest).state? = none ∨ ∃ c : AuthChallenge, c.protocol = proto ∧ c.handler = hdl ∧
      (claim st proto hdl rest).state? = some { st with claimed := st.flush, chall := some c } := by
  unfold claim
  split_ifs
  · exact .inr ⟨_, rfl, rfl, rfl⟩
  · split
    · exact .inl rfl
    · split_ifs
      · split <;> exact .inr ⟨_, rfl, rfl, rfl⟩
      · exact .inr ⟨_, rfl, rfl, rfl⟩

@[simp] theorem claims_claim (st : ChallScan) (c : AuthChallenge) :
    ({ st with claimed := st.flush, chall := some c } : ChallScan).claims = st.claims ++ [(c.protocol, c.handler)] := by
  simp [ChallScan.claims, ChallScan.flush]

@[simp] theorem claims_unclaimed (st : ChallScan) :
    ({ st with claimed := st.flush, chall := none } : ChallScan).claims = st.claims := by
  simp [ChallScan.claims, ChallScan.flush]

theorem parseStep_claims {table : List AuthProtocol} {handlers : List AuthHandler} {st st' : ChallScan}
    {t : Token} (h : (parseStep table handlers st t).state? = some st') :
    st'.claims = st.claims ∨ ∃ key p hdl, findProtocol table key handlers = some (p, hdl) ∧
      st'.claims = st.claims ++ [(p, hdl)] := by
  unfold parseStep at h
  dsimp only at h
  split at h
  · cases h
  · split at h
    · split_ifs at h
      · cases h
      · cases h; exact .inl (claims_unclaimed _)
    · rename_i key _
      split at h
      · cases h; exact .inl (claims_unclaimed _)
      · rename_i proto hdl hf
        rcases claim_state _ proto hdl t.rest with hc | ⟨c, rfl, rfl, hc⟩
        · rw [hc] at h; cases h
        · rw [hc] at h; cases h
          exact .inr ⟨key, _, _, hf, claims_claim _ c⟩
  · split at h
    · cases h; exact .inl rfl
    · split at h
      · cases h
      · cases h; left; simp [ChallScan.claims, ChallScan.flush, *]

def ClaimedBy (table : List AuthProtocol) (handlers : List AuthHandler) (key : List Char)
    (p : AuthProtocol) (h : AuthHandler) : Prop :=
  p ∈ table ∧ p.id &&& h.protomask ≠ 0 ∧ neStrcasecmp key p.name = true ∧
    ∃ pre post, handlers = pre ++ h :: post ∧
      ∀ h' ∈ pre, ∀ p' ∈ table, neStrcasecmp key p'.name = true → p'.id &&& h'.protomask = 0

theorem findProtocol_claimedBy {table : List AuthProtocol} {key : List Char} :
    ∀ {handlers : List AuthHandler} {p : AuthProtocol} {h : AuthHandler},
      findProtocol table key handlers = some (p, h) → ClaimedBy table handlers key p h
  | [], _, _, hf => by cases hf
  | h' :: hs, p, h, hf => by
      unfold findProtocol at hf
      split at hf
      · rename_i p' hp
        cases hf
        have hpred := List.find?_some hp
        simp only [Bool.and_eq_true, bne_iff_ne, ne_eq] at hpred
        exact ⟨List.mem_of_find?_eq_some hp, hpred.1, hpred.2, [], hs, rfl, by simp⟩
      · rename_i hn
        obtain ⟨hm, ha, hk, pre, post, rfl, hpre⟩ := findProtocol_claimedBy hf
        refine ⟨hm, ha, hk, h' :: pre, post, rfl, fun h'' hh'' p' hp' hk' => ?_⟩
        rcases List.mem_cons.mp hh'' with rfl | hh''
        · have := List.find?_eq_none.mp hn p' hp'
          simp only [Bool.and_eq_true, bne_iff_ne, ne_eq, not_and, hk', not_true_eq_false,
            imp_false, Decidable.not_not] at this
          exact this
        · exact hpre h'' hh'' p' hp' hk'

def ClaimsOk (table : List AuthProtocol) (handlers : List AuthHandler) (st : ChallScan) : Prop :=
  ∀ ph ∈ st.claims, ∃ key, ClaimedBy table handlers key ph.1 ph.2

theorem parseLoop_claimsOk {table : List AuthProtocol} {handlers : List AuthHandler} {fuel : Nat}
    {pnt : List Char} {st : ChallScan} (h : parseLoop table handlers fuel {} pnt = some st) :
    ClaimsOk table handlers st := by
  refine parseLoop_inv (ClaimsOk table handlers) (fun st t st' hok hs => ?_) fuel {} pnt st
    (by simp [ClaimsOk, ChallScan.claims, ChallScan.flush]) h
  rcases parseStep_claims hs with he | ⟨key, p, hdl, hf, he⟩
  · rwa [ClaimsOk, he]
  · intro ph hph
    rw [he, List.mem_append, List.mem_singleton] at hph
    rcases hph with hph | rfl
    · exact hok ph hph
    · exact ⟨key, findProtocol_claimedBy hf⟩

def constCrypto : Crypto := ⟨fun _ => Md5Hex.zero, id, id⟩

end NeonAuth.Select
