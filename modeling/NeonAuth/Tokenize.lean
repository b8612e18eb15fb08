import NeonAuth.Text

namespace NeonAuth.Tokenize

inductive Scan
  | beforeEq (key : Option (List Char))
  | afterEq (key value : List Char)
  | afterEqQuoted (key value : List Char)
  deriving DecidableEq, Repr

structure Token where
  key : Option (List Char)
  value : Option (Option (List Char))
  sep : Option Char
  rest : List Char
  deriving DecidableEq, Repr

inductive Tokenized
  | token (t : Token)
  | done
  | malformed
  deriving DecidableEq, Repr

def isBlank (c : Char) : Bool := c = ' ' || c = '\r' || c = '\n' || c = '\t'

def scan (ischall : Bool) : Scan → List Char → Tokenized
  | .beforeEq key, [] =>
      if ischall && key.isSome then .token ⟨key, some none, some '\x00', []⟩
      else .token ⟨key, none, none, []⟩
  | .afterEq key value, [] => .token ⟨some key, some (some value), none, []⟩
  | .afterEqQuoted key value, [] => .token ⟨some key, some (some value), none, []⟩
  | .beforeEq key, c :: cs =>
      if c = '=' then
        match key with
        | none => .malformed
        | some k => scan ischall (.afterEq k []) cs
      else if (c = ' ' || c = ',') && ischall && key.isSome then .token ⟨key, some none, some c, cs⟩
      else
        match key with
        | none => if isBlank c then scan ischall (.beforeEq none) cs else scan ischall (.beforeEq (some [c])) cs
        | some k => scan ischall (.beforeEq (some (k ++ [c]))) cs
  | .afterEq key value, c :: cs =>
      if c = ',' then .token ⟨some key, some (some value), none, cs⟩
      else if c = '"' then scan ischall (.afterEqQuoted key (value ++ [c])) cs
      else scan ischall (.afterEq key (value ++ [c])) cs
  | .afterEqQuoted key value, c :: cs =>
      if c = '"' then scan ischall (.afterEq key (value ++ [c])) cs
      else scan ischall (.afterEqQuoted key (value ++ [c])) cs

/-- tokenize(&hdr, &key, &value, sep, ischall) on the text at `*hdr`. -/
def tokenize (hdr : List Char) (ischall : Bool) : Tokenized :=
  match hdr with
  | [] => .done
  | _ :: _ => scan ischall (.beforeEq none) hdr

example : tokenize "Basic realm=\"x\"".toList true =
    .token ⟨some "Basic".toList, some none, some ' ', "realm=\"x\"".toList⟩ := by decide

example : tokenize "realm=\"a, b\", nonce=y".toList false =
    .token ⟨some "realm".toList, some (some "\"a, b\"".toList), none, " nonce=y".toList⟩ := by decide

theorem scan_rest_suffix {b : Bool} {t : Token} {l : List Char} :
    ∀ {st : Scan}, scan b st l = .token t → t.rest <:+ l.tail := by
  induction l with
  | nil =>
      intro st h
      cases st <;> simp only [scan] at h <;> (try split_ifs at h) <;> cases h <;> exact List.suffix_refl _
  | cons c cs ih =>
      intro st h
      cases st <;> simp only [scan] at h <;> repeat' split at h
      all_goals first
        | exact (ih h).trans (List.tail_suffix cs)
        | (cases h <;> exact List.suffix_refl cs)

theorem tokenize_rest {hdr : List Char} {b : Bool} {t : Token} (h : tokenize hdr b = .token t) :
    t.rest <:+ hdr.tail ∧ t.rest.length < hdr.length := by
  cases hdr with
  | nil => cases h
  | cons c cs => exact ⟨scan_rest_suffix h, Nat.lt_succ_of_le (scan_rest_suffix h).length_le⟩

theorem scan_key_started {b : Bool} {t : Token} {l : List Char} :
    ∀ {st : Scan}, scan b st l = .token t → t.key = none → st = .beforeEq none := by
  induction l with
  | nil =>
      intro st h hk
      cases st <;> simp only [scan] at h <;> (try split_ifs at h) <;> cases h <;> simp_all
  | cons c cs ih =>
      intro st h hk
      cases st <;> simp only [scan] at h <;> repeat' split at h
      all_goals first
        | rfl
        | (cases ih h hk)
        | (cases h; simp_all)

theorem scan_key_eq_none_iff {b : Bool} {t : Token} {l : List Char}
    (h : scan b (.beforeEq none) l = .token t) : t.key = none ↔ ∀ c ∈ l, isBlank c := by
  induction l with
  | nil => simp only [scan, Option.isSome_none, Bool.and_false] at h; cases h; simp
  | cons c cs ih =>
      simp only [scan, Option.isSome_none, Bool.and_false, Bool.false_eq_true, if_false] at h
      split_ifs at h with heq hblank
      · rw [ih h, List.forall_mem_cons]; simp [hblank]
      · exact ⟨fun hk => (nomatch scan_key_started h hk),
          fun hall => absurd (hall c (List.mem_cons_self c cs)) hblank⟩

theorem scan_afterEq_value {b : Bool} {t : Token} {l : List Char} : ∀ {k v : List Char},
    (scan b (.afterEq k v) l = .token t → t.value.isSome) ∧
      (scan b (.afterEqQuoted k v) l = .token t → t.value.isSome) := by
  induction l with
  | nil => exact ⟨fun h => by cases h; rfl, fun h => by cases h; rfl⟩
  | cons c cs ih =>
      refine ⟨fun h => ?_, fun h => ?_⟩ <;> simp only [scan] at h <;> split_ifs at h
      · cases h; rfl
      all_goals first | exact ih.1 h | exact ih.2 h

theorem scan_param_value_eq_none_iff {t : Token} {l : List Char} :
    ∀ {key : Option (List Char)}, scan false (.beforeEq key) l = .token t → (t.value = none ↔ '=' ∉ l) := by
  induction l with
  | nil => intro key h; simp only [scan, Bool.false_and, Bool.and_false] at h; cases h; simp
  | cons c cs ih =>
      intro key h
      simp only [scan, Bool.and_false, Bool.false_and, Bool.false_eq_true, if_false] at h
      by_cases hc : c = '='
      · subst hc
        rw [if_pos rfl] at h
        split at h
        · cases h
        · simpa [Option.ne_none_iff_isSome] using scan_afterEq_value.1 h
      · rw [if_neg hc] at h
        have hmem : '=' ∉ c :: cs ↔ '=' ∉ cs := by simp [List.mem_cons, Ne.symm hc]
        rw [hmem]
        split at h
        · split_ifs at h <;> exact ih h
        · exact ih h

theorem tokenize_key_eq_none_iff {hdr : List Char} {b : Bool} {t : Token} (h : tokenize hdr b = .token t) :
    t.key = none ↔ ∀ c ∈ hdr, isBlank c := by
  cases hdr with
  | nil => cases h
  | cons c cs => exact scan_key_eq_none_iff h

theorem tokenize_param_value_eq_none_iff {hdr : List Char} {t : Token} (h : tokenize hdr false = .token t) :
    t.value = none ↔ '=' ∉ hdr := by
  cases hdr with
  | nil => cases h
  | cons c cs => exact scan_param_value_eq_none_iff h

theorem scan_chall_value_eq_none_iff {t : Token} {l : List Char} :
    ∀ {st : Scan}, scan true st l = .token t → (t.value = none ↔ t.key = none) := by
  induction l with
  | nil =>
      intro st h
      cases st <;> simp only [scan] at h <;> (try split_ifs at h) <;> cases h <;> simp_all [Option.isSome_iff_ne_none]
  | cons c cs ih =>
      intro st h
      cases st <;> simp only [scan] at h <;> repeat' split at h
      all_goals first
        | exact ih h
        | (cases h <;> simp_all [Option.isSome_iff_ne_none])

theorem tokenize_chall_value_eq_none_iff {hdr : List Char} {t : Token} (h : tokenize hdr true = .token t) :
    t.value = none ↔ t.key = none := by
  cases hdr with
  | nil => cases h
  | cons c cs => exact scan_chall_value_eq_none_iff h

end NeonAuth.Tokenize
