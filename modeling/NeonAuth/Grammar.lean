import NeonAuth.Tokenize

namespace NeonAuth.Grammar

open Text Tokenize

def isTchar (c : Char) : Bool :=
  c.isAlphanum || "!#$%&*+-.^_|~".toList.contains c || c.toNat = 39 || c.toNat = 96

/-- The value of a parameter as the header grammar writes it. -/
inductive ParamValue
  | token (t : List Char)
  | quoted (content : List Char)
  deriving DecidableEq, Repr

def ParamValue.render : ParamValue → List Char
  | .token t => t
  | .quoted s => '"' :: (s ++ ['"'])

def ParamValue.unquoted : ParamValue → List Char
  | .token t => t
  | .quoted s => s

def ParamValue.Ok : ParamValue → Prop
  | .token t => t ≠ [] ∧ ∀ c ∈ t, isTchar c
  | .quoted s => ∀ c ∈ s, c ≠ '"' ∧ c ≠ '\\' ∧ c ≠ '\x00'

instance : DecidablePred ParamValue.Ok
  | .token t => inferInstanceAs (Decidable (t ≠ [] ∧ ∀ c ∈ t, isTchar c))
  | .quoted s => inferInstanceAs (Decidable (∀ c ∈ s, c ≠ '"' ∧ c ≠ '\\' ∧ c ≠ '\x00'))

structure Param where
  name : List Char
  value : ParamValue
  name_ne : name ≠ []
  name_tchar : ∀ c ∈ name, isTchar c
  value_ok : value.Ok

def Param.render (p : Param) : List Char := p.name ++ '=' :: p.value.render

def isOws (w : List Char) : Prop := ∀ c ∈ w, c = ' ' ∨ c = '\t'

instance : DecidablePred isOws := fun w => inferInstanceAs (Decidable (∀ c ∈ w, c = ' ' ∨ c = '\t'))

def renderRest : List (List Char × Param) → List Char
  | [] => []
  | (w, p) :: rest => ',' :: (w ++ (p.render ++ renderRest rest))

structure ParamList where
  first : Param
  rest : List (List Char × Param)
  ows : ∀ x ∈ rest, isOws x.1

def ParamList.render (l : ParamList) : List Char := l.first.render ++ renderRest l.rest

def ParamList.params (l : ParamList) : List Param := l.first :: l.rest.map Prod.snd

theorem length_renderRest : ∀ rest : List (List Char × Param), rest.length ≤ (renderRest rest).length
  | [] => le_refl _
  | (w, p) :: rest => by
      have := length_renderRest rest
      simp only [renderRest, List.length_cons, List.length_append]
      omega

theorem ne_of_isTchar {c : Char} (h : isTchar c) (d : Char) (hd : isTchar d = false) : c ≠ d := by
  rintro rfl
  simp [hd] at h

theorem isBlank_of_isTchar {c : Char} (h : isTchar c) : isBlank c = false := by
  simp only [isBlank, Bool.or_eq_false_iff, decide_eq_false_iff_not]
  exact ⟨⟨⟨ne_of_isTchar h ' ' rfl, ne_of_isTchar h '\r' rfl⟩, ne_of_isTchar h '\n' rfl⟩,
    ne_of_isTchar h '\t' rfl⟩

section Scan

variable {b : Bool} {k v l : List Char}

theorem scan_ows {w : List Char} (hw : isOws w) : scan b (.beforeEq none) (w ++ l) = scan b (.beforeEq none) l := by
  induction w with
  | nil => rfl
  | cons c w ih =>
      rw [List.cons_append, ← ih fun x hx => hw x (List.mem_cons_of_mem _ hx)]
      rcases hw c (List.mem_cons_self _ _) with rfl | rfl <;> simp [scan, isBlank]

theorem scan_first {c : Char} (hc : isTchar c) : scan b (.beforeEq none) (c :: l) = scan b (.beforeEq (some [c])) l := by
  simp [scan, ne_of_isTchar hc '=' rfl, isBlank_of_isTchar hc]

theorem scan_next {c : Char} (hc : isTchar c) :
    scan b (.beforeEq (some k)) (c :: l) = scan b (.beforeEq (some (k ++ [c]))) l := by
  simp [scan, ne_of_isTchar hc '=' rfl, ne_of_isTchar hc ' ' rfl, ne_of_isTchar hc ',' rfl]

theorem scan_name {n : List Char} (hn : ∀ c ∈ n, isTchar c) :
    scan b (.beforeEq (some k)) (n ++ l) = scan b (.beforeEq (some (k ++ n))) l := by
  induction n generalizing k with
  | nil => simp
  | cons c n ih =>
      rw [List.cons_append, scan_next (hn c (List.mem_cons_self _ _)), ih fun x hx => hn x (List.mem_cons_of_mem _ hx)]
      simp

theorem scan_token {t : List Char} (ht : ∀ c ∈ t, c ≠ ',' ∧ c ≠ '"') :
    scan b (.afterEq k v) (t ++ l) = scan b (.afterEq k (v ++ t)) l := by
  induction t generalizing v with
  | nil => simp
  | cons c t ih =>
      obtain ⟨h1, h2⟩ := ht c (List.mem_cons_self _ _)
      rw [List.cons_append]
      simp only [scan, h1, h2, if_false]
      rw [ih fun x hx => ht x (List.mem_cons_of_mem _ hx)]
      simp

theorem scan_content {s : List Char} (hs : ∀ c ∈ s, c ≠ '"') :
    scan b (.afterEqQuoted k v) (s ++ l) = scan b (.afterEqQuoted k (v ++ s)) l := by
  induction s generalizing v with
  | nil => simp
  | cons c s ih =>
      rw [List.cons_append]
      simp only [scan, hs c (List.mem_cons_self _ _), if_false]
      rw [ih fun x hx => hs x (List.mem_cons_of_mem _ hx)]
      simp

theorem scan_value {pv : ParamValue} (hv : pv.Ok) :
    scan b (.afterEq k []) (pv.render ++ l) = scan b (.afterEq k pv.render) l := by
  cases pv with
  | token t =>
      exact (scan_token fun c hc => ⟨ne_of_isTchar (hv.2 c hc) ',' rfl, ne_of_isTchar (hv.2 c hc) '"' rfl⟩).trans
        (by simp [ParamValue.render])
  | quoted s =>
      simp only [ParamValue.render, List.cons_append, List.append_assoc, List.singleton_append]
      simp only [scan, if_true, if_neg (show ('"' : Char) ≠ ',' by decide)]
      rw [scan_content fun c hc => (hv c hc).1]
      simp [scan]

theorem scan_scheme {s w : List Char} (hs : s ≠ []) (ht : ∀ c ∈ s, isTchar c) (hw : isOws w) :
    scan b (.beforeEq none) (w ++ (s ++ l)) = scan b (.beforeEq (some s)) l := by
  obtain ⟨c, s, rfl⟩ := List.exists_cons_of_ne_nil hs
  rw [scan_ows hw, List.cons_append, scan_first (ht c (List.mem_cons_self _ _)),
    scan_name fun x hx => ht x (List.mem_cons_of_mem _ hx)]
  rfl

theorem scan_param (p : Param) {w : List Char} (hw : isOws w) :
    scan b (.beforeEq none) (w ++ (p.render ++ l)) = scan b (.afterEq p.name p.value.render) l := by
  have he : scan b (.beforeEq (some p.name)) ('=' :: (p.value.render ++ l)) =
      scan b (.afterEq p.name []) (p.value.render ++ l) := by
    simp [scan]
  rw [Param.render, List.append_assoc, scan_scheme p.name_ne p.name_tchar hw, List.cons_append, he]
  exact scan_value p.value_ok

theorem scan_end : scan b (.afterEq k v) [] = .token ⟨some k, some (some v), none, []⟩ := rfl

theorem scan_comma : scan b (.afterEq k v) (',' :: l) = .token ⟨some k, some (some v), none, l⟩ := by
  simp [scan]

end Scan

theorem dropWhile_of_head {ws s : List Char} (h : ∀ c ∈ s.head?, c ∉ ws) :
    s.dropWhile (fun c => decide (c ∈ ws)) = s := by
  cases s with
  | nil => rfl
  | cons c s => simp [List.dropWhile_cons, h c rfl]

theorem rdropWhile_of_getLast {ws s : List Char} (h : ∀ c ∈ s.getLast?, c ∉ ws) :
    s.rdropWhile (fun c => decide (c ∈ ws)) = s :=
  List.rdropWhile_eq_self_iff.mpr fun hs => by simpa using h _ (by simp [List.getLast?_eq_getLast s hs])

theorem neShave_render {ws : List Char} {pv : ParamValue} (hq : '"' ∈ ws)
    (hh : ∀ c ∈ pv.unquoted.head?, c ∉ ws) (hl : ∀ c ∈ pv.unquoted.getLast?, c ∉ ws) :
    neShave ws pv.render = pv.unquoted := by
  cases pv with
  | token t => exact (congrArg _ (dropWhile_of_head hh)).trans (rdropWhile_of_getLast hl)
  | quoted s =>
      have hq' : decide ('"' ∈ ws) = true := by simpa using hq
      cases s with
      | nil => simp [neShave, ParamValue.render, ParamValue.unquoted, List.dropWhile_cons, hq']
      | cons c s =>
          have hc : decide (c ∈ ws) = false := by simpa using hh c rfl
          simp only [neShave, ParamValue.render, List.dropWhile_cons, hq', if_true, List.cons_append, hc,
            Bool.false_eq_true, if_false]
          rw [← List.cons_append, List.rdropWhile_concat_pos (fun c => decide (c ∈ ws)) (c :: s) '"' hq']
          exact rdropWhile_of_getLast hl

theorem unquoted_ne_quote {pv : ParamValue} (hv : pv.Ok) : ∀ c ∈ pv.unquoted, c ≠ '"' := by
  cases pv with
  | token t => exact fun c hc => ne_of_isTchar (hv.2 c hc) '"' rfl
  | quoted s => exact fun c hc => (hv c hc).1

theorem tokenize_param (p : Param) {b : Bool} {w l : List Char} (hw : isOws w) :
    tokenize (w ++ (p.render ++ l)) b = scan b (.afterEq p.name p.value.render) l := by
  unfold tokenize
  split
  · next h => simp [Param.render] at h
  · exact scan_param p hw

def lastParam (ps : List Param) (key : List Char) : Option (List Char) :=
  ((ps.filter fun p => neStrcasecmp p.name key).map (·.value.unquoted)).getLast?

theorem strcasecmp_false_of {key a b : List Char} (hb : neStrcasecmp key b = true)
    (hab : neStrcasecmp a b = false) : neStrcasecmp key a = false := by
  simp only [neStrcasecmp, beq_iff_eq, beq_eq_false_iff_ne, ne_eq] at *
  exact fun h => hab (h.symm.trans hb)

theorem ite_key_ne {key : List Char} (a b : List Char) (hab : neStrcasecmp a b = false) {α : Type} (x y : α) :
    (if neStrcasecmp key a then x else if neStrcasecmp key b then y else x) = if neStrcasecmp key b then y else x := by
  by_cases h : neStrcasecmp key b
  · rw [if_pos h, if_neg (ne_true_of_eq_false (strcasecmp_false_of h hab))]
  · rw [if_neg h, ite_self]

theorem foldl_field {σ β : Type} (step : σ → Param → σ) (f : σ → β) (k : List Char) (upd : List Char → β → β)
    (hf : ∀ st p, f (step st p) = if neStrcasecmp p.name k then upd p.value.unquoted (f st) else f st) :
    ∀ (ps : List Param) (st : σ), f (ps.foldl step st) =
      ((ps.filter fun p => neStrcasecmp p.name k).map (·.value.unquoted)).foldl (fun b v => upd v b) (f st)
  | [], _ => rfl
  | p :: ps, st => by
      rw [List.foldl_cons, foldl_field step f k upd hf ps, hf]
      by_cases h : neStrcasecmp p.name k <;> simp [h, List.filter_cons]

theorem foldl_last {α β : Type} (g : α → β) :
    ∀ (vs : List α) (b : β), vs.foldl (fun _ v => g v) b = (vs.getLast?.map g).getD b
  | [], _ => rfl
  | v :: vs, b => by
      rw [List.foldl_cons, foldl_last g vs, List.getLast?_cons]
      cases vs.getLast? <;> rfl

theorem foldl_lastParam {σ β : Type} (step : σ → Param → σ) (f : σ → β) (k : List Char) (g : List Char → β)
    (hf : ∀ st p, f (step st p) = if neStrcasecmp p.name k then g p.value.unquoted else f st)
    (ps : List Param) (st : σ) : f (ps.foldl step st) = ((lastParam ps k).map g).getD (f st) :=
  (foldl_field step f k (fun v _ => g v) hf ps st).trans (foldl_last g _ _)

theorem map_some_getD {α : Type} (o : Option α) : (o.map some).getD none = o := by
  cases o <;> rfl

end NeonAuth.Grammar
