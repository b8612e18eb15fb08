import NeonAuth.Challenge

namespace NeonAuth.Insertion

open Protocol Challenge

/-- Sorted strongest first, the order the try loop of auth_challenge walks. -/
def Strongest (l : List AuthChallenge) : Prop :=
  l.Pairwise fun a b => b.protocol.strength ≤ a.protocol.strength

instance : DecidablePred Strongest := fun l => inferInstanceAs (Decidable (l.Pairwise _))

theorem insertChallenge_perm (c : AuthChallenge) (l : List AuthChallenge) :
    (insertChallenge c l).Perm (c :: l) := by
  induction l with
  | nil => rfl
  | cons d l ih =>
      unfold insertChallenge
      split
      · rfl
      · exact (ih.cons d).trans (List.Perm.swap c d l)

theorem insertChallenge_strongest (c : AuthChallenge) {l : List AuthChallenge} (h : Strongest l) :
    Strongest (insertChallenge c l) := by
  induction l with
  | nil => exact List.pairwise_singleton _ c
  | cons d l ih =>
      rw [Strongest, List.pairwise_cons] at h
      unfold insertChallenge
      split
      · rename_i hlt
        refine List.Pairwise.cons (fun b hb => ?_) (List.pairwise_cons.mpr h)
        rcases List.mem_cons.mp hb with rfl | hb
        · omega
        · have := h.1 b hb; omega
      · refine List.Pairwise.cons (fun b hb => ?_) (ih h.2)
        rcases List.mem_cons.mp ((insertChallenge_perm c l).mem_iff.mp hb) with rfl | hb
        · omega
        · exact h.1 b hb

theorem filter_insertChallenge (c : AuthChallenge) {l : List AuthChallenge} (h : Strongest l) (k : Nat) :
    (insertChallenge c l).filter (·.protocol.strength = k) =
      l.filter (·.protocol.strength = k) ++ (if c.protocol.strength = k then [c] else []) := by
  induction l with
  | nil => by_cases hk : c.protocol.strength = k <;> simp [insertChallenge, hk]
  | cons d l ih =>
      rw [Strongest, List.pairwise_cons] at h
      unfold insertChallenge
      split
      · rename_i hlt
        have hnone : ∀ b ∈ d :: l, b.protocol.strength < c.protocol.strength := by
          intro b hb
          rcases List.mem_cons.mp hb with rfl | hb
          · exact hlt
          · have := h.1 b hb; omega
        by_cases hk : c.protocol.strength = k
        · have : (d :: l).filter (·.protocol.strength = k) = [] :=
            List.filter_eq_nil_iff.mpr fun b hb => by have := hnone b hb; simp; omega
          simp [List.filter_cons, hk, this]
        · simp [List.filter_cons, hk]
      · by_cases hd : d.protocol.strength = k <;> simp [List.filter_cons, hd, ih h.2]

theorem insertChallenges_append (l : List AuthChallenge) (c : AuthChallenge) :
    insertChallenges (l ++ [c]) = insertChallenge c (insertChallenges l) := by
  simp [insertChallenges, List.foldl_append]

theorem insertChallenges_perm (l : List AuthChallenge) : (insertChallenges l).Perm l := by
  induction l using List.reverseRecOn with
  | nil => rfl
  | append_singleton l c ih =>
      rw [insertChallenges_append]
      exact (insertChallenge_perm c _).trans ((ih.cons c).trans (List.perm_append_singleton c l).symm)

theorem insertChallenges_strongest (l : List AuthChallenge) : Strongest (insertChallenges l) := by
  induction l using List.reverseRecOn with
  | nil => exact List.Pairwise.nil
  | append_singleton l c ih => rw [insertChallenges_append]; exact insertChallenge_strongest c ih

theorem filter_insertChallenges (l : List AuthChallenge) (k : Nat) :
    (insertChallenges l).filter (·.protocol.strength = k) = l.filter (·.protocol.strength = k) := by
  induction l using List.reverseRecOn with
  | nil => rfl
  | append_singleton l c ih =>
      rw [insertChallenges_append, filter_insertChallenge c (insertChallenges_strongest l), ih,
        List.filter_append]
      by_cases hk : c.protocol.strength = k <;> simp [hk]

theorem strength_le_head {b : AuthChallenge} {l : List AuthChallenge} (h : Strongest (b :: l))
    {d : AuthChallenge} (hd : d ∈ b :: l) : d.protocol.strength ≤ b.protocol.strength := by
  rcases List.mem_cons.mp hd with rfl | hd
  · exact le_rfl
  · exact List.rel_of_pairwise_cons h hd

theorem eq_of_strongest_of_filter : ∀ {l₁ l₂ : List AuthChallenge}, Strongest l₁ → Strongest l₂ →
    (∀ k, l₁.filter (·.protocol.strength = k) = l₂.filter (·.protocol.strength = k)) → l₁ = l₂
  | [], [], _, _, _ => rfl
  | [], b :: _, _, _, hf => by simpa [List.filter_cons] using hf b.protocol.strength
  | a :: _, [], _, _, hf => by simpa [List.filter_cons] using hf a.protocol.strength
  | a :: as, b :: bs, h₁, h₂, hf => by
      have mem_other : ∀ {x : AuthChallenge} {l l' : List AuthChallenge},
          x ∈ l → l.filter (·.protocol.strength = x.protocol.strength) =
            l'.filter (·.protocol.strength = x.protocol.strength) → x ∈ l' := fun hx he =>
        List.mem_of_mem_filter (he ▸ List.mem_filter_of_mem hx (by simp))
      have hab : a.protocol.strength = b.protocol.strength :=
        le_antisymm (strength_le_head h₂ (mem_other (List.mem_cons_self a as) (hf _)))
          (strength_le_head h₁ (mem_other (List.mem_cons_self b bs) (hf _).symm))
      have hk := hf a.protocol.strength
      simp only [List.filter_cons, hab, decide_True, if_true, List.cons.injEq] at hk
      obtain ⟨rfl, -⟩ := hk
      refine congrArg _ (eq_of_strongest_of_filter h₁.of_cons h₂.of_cons fun k => ?_)
      have := hf k
      simp only [List.filter_cons] at this
      split_ifs at this
      · exact (List.cons.inj this).2
      · exact this

def strongerFirst (a b : AuthChallenge) : Bool := decide (b.protocol.strength ≤ a.protocol.strength)

theorem strongerFirst_trans (a b c : AuthChallenge) :
    strongerFirst a b → strongerFirst b c → strongerFirst a c := by
  simp only [strongerFirst, decide_eq_true_eq]; omega

theorem strongerFirst_total (a b : AuthChallenge) : strongerFirst a b || strongerFirst b a := by
  simp only [strongerFirst, Bool.or_eq_true, decide_eq_true_eq]; omega

theorem strongest_mergeSort (l : List AuthChallenge) : Strongest (l.mergeSort strongerFirst) :=
  (List.sorted_mergeSort strongerFirst_trans strongerFirst_total l).imp of_decide_eq_true

theorem filter_mergeSort (l : List AuthChallenge) (k : Nat) :
    (l.mergeSort strongerFirst).filter (·.protocol.strength = k) = l.filter (·.protocol.strength = k) := by
  have hsorted : (l.filter (·.protocol.strength = k)).Pairwise fun a b => strongerFirst a b :=
    List.pairwise_filter.mpr (List.pairwise_of_forall fun a b ha hb => by simp_all [strongerFirst])
  have hsub := (List.sublist_mergeSort strongerFirst_trans strongerFirst_total hsorted
    (List.filter_sublist l)).filter (·.protocol.strength = k)
  simp only [List.filter_filter, Bool.and_self] at hsub
  exact (hsub.eq_of_length (((List.mergeSort_perm l _).filter _).length_eq).symm).symm

theorem insertChallenges_mergeSort (l : List AuthChallenge) :
    insertChallenges l = l.mergeSort strongerFirst :=
  eq_of_strongest_of_filter (insertChallenges_strongest l) (strongest_mergeSort l) fun k => by
    rw [filter_insertChallenges, filter_mergeSort]

theorem insertChallenge_split (c : AuthChallenge) {l : List AuthChallenge} (h : Strongest l) :
    ∃ l₁ l₂, l = l₁ ++ l₂ ∧ insertChallenge c l = l₁ ++ c :: l₂ ∧
      (∀ d ∈ l₁, c.protocol.strength ≤ d.protocol.strength) ∧
      ∀ d ∈ l₂, d.protocol.strength < c.protocol.strength := by
  induction l with
  | nil => exact ⟨[], [], rfl, rfl, by simp, by simp⟩
  | cons d l ih =>
      unfold insertChallenge
      split
      · rename_i hlt
        exact ⟨[], d :: l, rfl, rfl, by simp, fun x hx => by have := strength_le_head h hx; omega⟩
      · rename_i hge
        obtain ⟨l₁, l₂, rfl, he, h₁, h₂⟩ := ih h.of_cons
        refine ⟨d :: l₁, l₂, rfl, by rw [he]; rfl, fun x hx => ?_, h₂⟩
        rcases List.mem_cons.mp hx with rfl | hx
        · omega
        · exact h₁ x hx

theorem insert_challenge_order :
    (∀ l : List AuthChallenge,
      (insertChallenges l).Perm l ∧ insertChallenges l = l.mergeSort strongerFirst) ∧
    ∀ (c : AuthChallenge) (l : List AuthChallenge), Strongest l →
      Strongest (insertChallenge c l) ∧
      ∃ l₁ l₂, l = l₁ ++ l₂ ∧ insertChallenge c l = l₁ ++ c :: l₂ ∧
        (∀ d ∈ l₁, c.protocol.strength ≤ d.protocol.strength) ∧
        ∀ d ∈ l₂, d.protocol.strength < c.protocol.strength :=
  ⟨fun l => ⟨insertChallenges_perm l, insertChallenges_mergeSort l⟩,
    fun c _ h => ⟨insertChallenge_strongest c h, insertChallenge_split c h⟩⟩

def basicRecord : AuthChallenge := { protocol := basicProtocol, handler := ⟨neAuthBasic, 0, 0⟩ }

def digestRecord : AuthChallenge := { protocol := digestProtocol, handler := ⟨neAuthDigest, 0, 0⟩ }

theorem digest_record_goes_first :
    Strongest [basicRecord] ∧ Strongest (insertChallenge digestRecord [basicRecord]) ∧
      ∃ l₁ l₂, [basicRecord] = l₁ ++ l₂ ∧ insertChallenge digestRecord [basicRecord] = l₁ ++ digestRecord :: l₂ ∧
        (∀ d ∈ l₁, digestRecord.protocol.strength ≤ d.protocol.strength) ∧
        ∀ d ∈ l₂, d.protocol.strength < digestRecord.protocol.strength :=
  ⟨by decide, insert_challenge_order.2 digestRecord [basicRecord] (by decide)⟩

end NeonAuth.Insertion
