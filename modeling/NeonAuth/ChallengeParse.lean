import NeonAuth.Grammar
import NeonAuth.Challenge

namespace NeonAuth.ChallengeParse

open Text Tokenize Protocol Session Challenge Grammar

def isToken68Char (c : Char) : Bool := c.isAlphanum || "-._~+/".toList.contains c

inductive ChallBody
  | bare
  | params (spaces : Nat) (ps : ParamList)
  | token68 (spaces : Nat) (body : List Char) (pad : Nat)

def unshaven (v : List Char) : Prop := v.head? ≠ some (Char.ofNat 39) ∧ v.getLast? ≠ some (Char.ofNat 39)

instance : DecidablePred unshaven := fun v =>
  inferInstanceAs (Decidable (v.head? ≠ some (Char.ofNat 39) ∧ v.getLast? ≠ some (Char.ofNat 39)))

def ChallBody.Ok : ChallBody → Prop
  | .bare => True
  | .params _ ps => ∀ p ∈ ps.params, unshaven p.value.unquoted
  | .token68 _ body _ => body ≠ [] ∧ ∀ c ∈ body, isToken68Char c

instance : DecidablePred ChallBody.Ok
  | .bare => inferInstanceAs (Decidable True)
  | .params _ ps => inferInstanceAs (Decidable (∀ p ∈ ps.params, unshaven p.value.unquoted))
  | .token68 _ body _ => inferInstanceAs (Decidable (body ≠ [] ∧ ∀ c ∈ body, isToken68Char c))

/-- One challenge of the grammar. -/
structure Chall where
  scheme : List Char
  body : ChallBody
  scheme_ne : scheme ≠ []
  scheme_tchar : ∀ c ∈ scheme, isTchar c
  body_ok : body.Ok

def Chall.render (c : Chall) : List Char :=
  match c.body with
  | .bare => c.scheme
  | .params n ps => c.scheme ++ ' ' :: (List.replicate n ' ' ++ ps.render)
  | .token68 n body pad => c.scheme ++ ' ' :: (List.replicate n ' ' ++ (body ++ List.replicate pad '='))

def renderChalls : List (List Char × Chall) → List Char
  | [] => []
  | (w, c) :: rest => ',' :: (w ++ (c.render ++ renderChalls rest))

/-- A header value of the grammar: challenges separated by commas and optional whitespace. -/
structure ChallList where
  first : Chall
  rest : List (List Char × Chall)
  ows : ∀ x ∈ rest, isOws x.1

def ChallList.render (h : ChallList) : List Char := h.first.render ++ renderChalls h.rest

def ChallList.challs (h : ChallList) : List Chall := h.first :: h.rest.map Prod.snd

section Spec

variable (table : List AuthProtocol) (handlers : List AuthHandler)

def opaqueParam (scheme : List Char) : Bool :=
  match findProtocol table scheme handlers with
  | some (proto, _) => proto.flags &&& authFlagOpaqueParam != 0
  | none => false

def Chall.fits (c : Chall) : Bool :=
  match c.body with
  | .bare => true
  | .params _ _ => !opaqueParam table handlers c.scheme
  | .token68 _ _ _ => opaqueParam table handlers c.scheme

def Chall.params (c : Chall) : List Param :=
  match c.body with
  | .params _ ps => ps.params
  | _ => []

def Chall.opaqueText (c : Chall) : Option (List Char) :=
  match c.body with
  | .token68 _ body pad => some (body ++ List.replicate pad '=')
  | _ => lastParam c.params "opaque".toList

def algorithmOf (v : List Char) : AuthAlgorithm :=
  if neStrcasecmp v "md5".toList then .md5 else if neStrcasecmp v "md5-sess".toList then .md5Sess else .unknown

def isOwsChar (c : Char) : Bool := c == ' ' || c == '\t'

def trimOws (v : List Char) : List Char := ((v.dropWhile isOwsChar).reverse.dropWhile isOwsChar).reverse

/-- The challenge offers qop=auth: the value of some parameter named qop, in any case, read as a
comma-separated list, has the item auth, in any case. -/
def offersAuth (ps : List Param) : Bool :=
  ps.any fun p => p.name.map Char.toLower == "qop".toList &&
    (p.value.unquoted.splitOn ',').any fun item => (trimOws item).map Char.toLower == "auth".toList

/-- The record a challenge of the grammar stands for, when `proto` for `hdl` claims it. -/
def Chall.record (c : Chall) (proto : AuthProtocol) (hdl : AuthHandler) : AuthChallenge where
  protocol := proto
  handler := hdl
  realm := lastParam c.params "realm".toList
  nonce := lastParam c.params "nonce".toList
  opaqueValue := c.opaqueText
  stale := ((lastParam c.params "stale".toList).map fun v => neStrcasecmp v "true".toList).getD false
  gotQop := offersAuth c.params
  qopAuth := offersAuth c.params
  alg := ((lastParam c.params "algorithm".toList).map algorithmOf).getD .md5

def specRecord (c : Chall) : Option AuthChallenge :=
  (findProtocol table c.scheme handlers).map fun ph => c.record ph.1 ph.2

end Spec

theorem neShave_ows (v : List Char) : neShave " \t".toList v = trimOws v := by
  have h : (fun c => decide (c ∈ " \t".toList)) = isOwsChar := funext fun c => by
    by_cases h₁ : c = ' ' <;> by_cases h₂ : c = '\t' <;> simp [isOwsChar, h₁, h₂]
  simp only [neShave, trimOws, List.rdropWhile, h]

theorem qopHasAuth_eq (v : List Char) :
    qopHasAuth v = (v.splitOn ',').any fun item => (trimOws item).map Char.toLower == "auth".toList := by
  simp only [qopHasAuth, neStrcasecmp, neShave_ows]
  rfl

theorem offersAuth_eq (ps : List Param) :
    offersAuth ps = ((ps.filter fun p => neStrcasecmp p.name "qop".toList).map (·.value.unquoted)).any qopHasAuth := by
  induction ps with
  | nil => rfl
  | cons p ps ih =>
      have hname : neStrcasecmp p.name "qop".toList = (p.name.map Char.toLower == "qop".toList) := rfl
      rw [offersAuth, List.any_cons, ← offersAuth, ih, List.filter_cons, hname]
      cases p.name.map Char.toLower == "qop".toList <;> simp [qopHasAuth_eq]

def applyParam (c : AuthChallenge) (p : Param) : AuthChallenge :=
  challField c p.name p.value.unquoted

section Fields

variable (c : AuthChallenge) (p : Param)

theorem applyParam_realm : (applyParam c p).realm =
    if neStrcasecmp p.name "realm".toList then some p.value.unquoted else c.realm := by
  simp only [applyParam, challField, apply_ite AuthChallenge.realm, ite_self]

theorem applyParam_nonce : (applyParam c p).nonce =
    if neStrcasecmp p.name "nonce".toList then some p.value.unquoted else c.nonce := by
  simp only [applyParam, challField, apply_ite AuthChallenge.nonce, ite_self]
  rw [ite_key_ne "realm".toList _ (by decide)]

theorem applyParam_opaqueValue : (applyParam c p).opaqueValue =
    if neStrcasecmp p.name "opaque".toList then some p.value.unquoted else c.opaqueValue := by
  simp only [applyParam, challField, apply_ite AuthChallenge.opaqueValue, ite_self]
  rw [ite_key_ne "nonce".toList _ (by decide), ite_key_ne "realm".toList _ (by decide)]

theorem applyParam_stale : (applyParam c p).stale =
    if neStrcasecmp p.name "stale".toList then neStrcasecmp p.value.unquoted "true".toList else c.stale := by
  simp only [applyParam, challField, apply_ite AuthChallenge.stale, ite_self]
  rw [ite_key_ne "opaque".toList _ (by decide), ite_key_ne "nonce".toList _ (by decide),
    ite_key_ne "realm".toList _ (by decide)]

theorem applyParam_alg : (applyParam c p).alg =
    if neStrcasecmp p.name "algorithm".toList then algorithmOf p.value.unquoted else c.alg := by
  simp only [applyParam, challField, apply_ite AuthChallenge.alg, ite_self]
  rw [ite_key_ne "stale".toList _ (by decide), ite_key_ne "opaque".toList _ (by decide),
    ite_key_ne "nonce".toList _ (by decide), ite_key_ne "realm".toList _ (by decide)]
  rfl

theorem applyParam_qop : ((applyParam c p).qopAuth, (applyParam c p).gotQop) =
    if neStrcasecmp p.name "qop".toList then
      (c.qopAuth || qopHasAuth p.value.unquoted, c.qopAuth || qopHasAuth p.value.unquoted)
    else (c.qopAuth, c.gotQop) := by
  simp only [applyParam, challField, apply_ite fun c : AuthChallenge => (c.qopAuth, c.gotQop), ite_self]
  rw [ite_key_ne "algorithm".toList _ (by decide), ite_key_ne "stale".toList _ (by decide),
    ite_key_ne "opaque".toList _ (by decide), ite_key_ne "nonce".toList _ (by decide),
    ite_key_ne "realm".toList _ (by decide)]

end Fields

theorem foldl_applyParam_claim : ∀ (ps : List Param) (c : AuthChallenge),
    (ps.foldl applyParam c).protocol = c.protocol ∧ (ps.foldl applyParam c).handler = c.handler
  | [], _ => ⟨rfl, rfl⟩
  | p :: ps, c => by simpa [applyParam] using foldl_applyParam_claim ps (applyParam c p)

theorem foldl_qop : ∀ (vs : List (List Char)) (a : Bool),
    vs.foldl (fun b v => (b.1 || qopHasAuth v, b.1 || qopHasAuth v)) (a, a) =
      (a || vs.any qopHasAuth, a || vs.any qopHasAuth)
  | [], a => by simp
  | v :: vs, a => by rw [List.foldl_cons, foldl_qop vs, List.any_cons, Bool.or_assoc]

attribute [ext] AuthChallenge

theorem foldl_applyParam (ps : List Param) (proto : AuthProtocol) (hdl : AuthHandler) :
    ps.foldl applyParam { protocol := proto, handler := hdl } =
      { protocol := proto, handler := hdl
        realm := lastParam ps "realm".toList
        nonce := lastParam ps "nonce".toList
        opaqueValue := lastParam ps "opaque".toList
        stale := ((lastParam ps "stale".toList).map fun v => neStrcasecmp v "true".toList).getD false
        gotQop := offersAuth ps
        qopAuth := offersAuth ps
        alg := ((lastParam ps "algorithm".toList).map algorithmOf).getD .md5 } := by
  have hq := (foldl_field applyParam (fun c => (c.qopAuth, c.gotQop)) "qop".toList
    (fun v b => (b.1 || qopHasAuth v, b.1 || qopHasAuth v)) (applyParam_qop) ps
    { protocol := proto, handler := hdl }).trans (foldl_qop _ false)
  simp only [Bool.false_or] at hq
  apply AuthChallenge.ext
  · exact (foldl_applyParam_claim ps _).1
  · exact (foldl_applyParam_claim ps _).2
  · exact (foldl_lastParam applyParam _ _ some (applyParam_realm) ps _).trans (map_some_getD _)
  · exact (foldl_lastParam applyParam _ _ some (applyParam_nonce) ps _).trans (map_some_getD _)
  · exact (foldl_lastParam applyParam _ _ some (applyParam_opaqueValue) ps _).trans (map_some_getD _)
  · exact foldl_lastParam applyParam _ _ _ (applyParam_stale) ps _
  · exact (congrArg Prod.snd hq).trans (offersAuth_eq ps).symm
  · exact (congrArg Prod.fst hq).trans (offersAuth_eq ps).symm
  · exact foldl_lastParam applyParam _ _ _ (applyParam_alg) ps _

def tailText : Option (List Char) → List Char
  | none => []
  | some m => ',' :: m

theorem length_tailText (more : Option (List Char)) : (more.getD []).length ≤ (tailText more).length := by
  cases more <;> simp [tailText]

theorem neToken_tailText {x : List Char} (hx : ',' ∉ x) (more : Option (List Char)) :
    neToken ',' (x ++ tailText more) = (x, more) := by
  induction x with
  | nil => cases more <;> rfl
  | cons c x ih =>
      rw [List.mem_cons, not_or] at hx
      simp [neToken, Ne.symm hx.1, ih hx.2]

section Loop

variable {table : List AuthProtocol} {handlers : List AuthHandler}

theorem parseLoop_nil (fuel : Nat) (st : ChallScan) : parseLoop table handlers fuel st [] = some st := by
  cases fuel <;> rfl

theorem tokenize_scheme (c : Chall) {w : List Char} (hw : isOws w) (l : List Char) :
    tokenize (w ++ (c.scheme ++ l)) true = scan true (.beforeEq (some c.scheme)) l := by
  unfold tokenize
  split
  · next h => simp [c.scheme_ne] at h
  · exact scan_scheme c.scheme_ne c.scheme_tchar hw

theorem scan_scheme_space (s X : List Char) :
    scan true (.beforeEq (some s)) (' ' :: X) = .token ⟨some s, some none, some ' ', X⟩ := by
  simp [scan]

theorem scan_scheme_end (s : List Char) (more : Option (List Char)) :
    scan true (.beforeEq (some s)) (tailText more) =
      .token ⟨some s, some none, some (if more.isSome then ',' else '\x00'), more.getD []⟩ := by
  cases more <;> simp [scan, tailText]

theorem parseStep_param (st : ChallScan) (p : Param) (hp : unshaven p.value.unquoted) (l : List Char) :
    ∃ st', parseStep table handlers st ⟨some p.name, some (some p.value.render), none, l⟩ = .next st' l ∧
      st'.claimed = st.claimed ∧ st'.chall = st.chall.map (applyParam · p) := by
  have hq := unquoted_ne_quote p.value_ok
  have hs : neShave "\"'".toList p.value.render = p.value.unquoted :=
    neShave_render (by decide)
      (fun c hc h => by
        simp only [String.toList, List.mem_cons, List.mem_singleton, List.not_mem_nil, or_false] at h
        rcases h with rfl | rfl
        exacts [hq _ (List.mem_of_mem_head? hc) rfl, hp.1 hc])
      (fun c hc h => by
        simp only [String.toList, List.mem_cons, List.mem_singleton, List.not_mem_nil, or_false] at h
        rcases h with rfl | rfl
        exacts [hq _ (List.mem_of_mem_getLast? hc) rfl, hp.2 hc])
  cases hc : st.chall with
  | none => exact ⟨{ st with val := some (some p.value.render) }, by simp [parseStep, hc], rfl, by simp [hc]⟩
  | some c =>
      refine ⟨{ st with val := some (some p.value.unquoted), chall := some (applyParam c p) }, ?_, rfl, rfl⟩
      simp [parseStep, hc, applyParam]
      exact ⟨congrArg _ hs, hs⟩

theorem parseLoop_next {fuel : Nat} {st st' : ChallScan} {pnt l : List Char} {t : Token}
    (ht : tokenize pnt true = .token t) (hs : parseStep table handlers st t = .next st' l) :
    parseLoop table handlers (fuel + 1) st pnt = parseLoop table handlers fuel st' l := by
  simp only [parseLoop, ht, hs]

theorem parseLoop_params (more : Option (List Char)) :
    ∀ (rest : List (List Char × Param)) (w : List Char) (p : Param) (fuel : Nat) (st : ChallScan),
      isOws w → (∀ x ∈ rest, isOws x.1) → (∀ q ∈ p :: rest.map Prod.snd, unshaven q.value.unquoted) →
      (w ++ (p.render ++ (renderRest rest ++ tailText more))).length < fuel →
      ∃ fuel' st', parseLoop table handlers fuel st (w ++ (p.render ++ (renderRest rest ++ tailText more))) =
          parseLoop table handlers fuel' st' (more.getD []) ∧ (more.getD []).length < fuel' ∧
        st'.claimed = st.claimed ∧ st'.chall = st.chall.map fun c => (p :: rest.map Prod.snd).foldl applyParam c
  | _, _, _, 0, _, _, _, _, hlen => absurd hlen (Nat.not_lt_zero _)
  | [], w, p, fuel + 1, st, hw, _, hp, hlen => by
      obtain ⟨st', hs, hcl, hch⟩ :=
        @parseStep_param table handlers st p (hp p (List.mem_cons_self _ _)) (more.getD [])
      have ht : scan true (.afterEq p.name p.value.render) (tailText more) =
          .token ⟨some p.name, some (some p.value.render), none, more.getD []⟩ := by
        cases more <;> simp [scan, tailText]
      have hlen' := length_tailText more
      refine ⟨fuel, st', ?_, ?_, hcl, by simpa using hch⟩
      · rw [renderRest, List.nil_append, parseLoop_next ((tokenize_param p hw).trans ht) hs]
      · simp only [renderRest, List.nil_append, List.length_append] at hlen
        have := List.length_pos.mpr (show p.render ≠ [] by simp [Param.render])
        omega
  | (w', p') :: rest, w, p, fuel + 1, st, hw, hrest, hp, hlen => by
      obtain ⟨st₁, hs, hcl, hch⟩ := @parseStep_param table handlers st p (hp p (List.mem_cons_self _ _))
        (w' ++ (p'.render ++ (renderRest rest ++ tailText more)))
      obtain ⟨fuel', st', he, hl, hcl', hch'⟩ := parseLoop_params more rest w' p' fuel st₁
        (hrest _ (List.mem_cons_self _ _)) (fun x hx => hrest x (List.mem_cons_of_mem _ hx))
        (fun q hq => hp q (List.mem_cons_of_mem _ hq))
        (by simp only [renderRest, List.length_append, List.length_cons] at hlen ⊢; omega)
      refine ⟨fuel', st', ?_, hl, hcl'.trans hcl, ?_⟩
      · simp only [renderRest, List.cons_append, List.append_assoc]
        rw [parseLoop_next ((tokenize_param p hw).trans scan_comma) hs, he]
      · rw [hch', hch, Option.map_map]
        rfl

theorem ne_of_isToken68Char {c : Char} (h : isToken68Char c) (d : Char) (hd : isToken68Char d = false) :
    c ≠ d := by
  rintro rfl
  simp [hd] at h

theorem token68_chars {body : List Char} (hb : ∀ c ∈ body, isToken68Char c) (pad : Nat) :
    ∀ c ∈ body ++ List.replicate pad '=', c ≠ ',' ∧ c ≠ ' ' ∧ c ≠ '\t' := by
  intro c hc
  rcases List.mem_append.mp hc with hc | hc
  · exact ⟨ne_of_isToken68Char (hb c hc) _ rfl, ne_of_isToken68Char (hb c hc) _ rfl,
      ne_of_isToken68Char (hb c hc) _ rfl⟩
  · rw [List.eq_of_mem_replicate hc]
    decide

theorem neShave_token68 {t : List Char} (ht : ∀ c ∈ t, c ≠ ',' ∧ c ≠ ' ' ∧ c ≠ '\t') (n : Nat) :
    neShave " \t".toList (List.replicate n ' ' ++ t) = t := by
  have hb : ∀ c, c ≠ ' ' → c ≠ '\t' → c ∉ " \t".toList := fun c h1 h2 h => by
    simp only [String.toList, List.mem_cons, List.mem_singleton, List.not_mem_nil, or_false] at h
    exact h.elim h1 h2
  unfold neShave
  have hd : ∀ c ∈ t, c ∉ " \t".toList := fun c hc => hb c (ht c hc).2.1 (ht c hc).2.2
  rw [List.dropWhile_append_of_pos fun a ha => by simp [List.eq_of_mem_replicate ha],
    dropWhile_of_head fun c hc => hd c (List.mem_of_mem_head? hc),
    rdropWhile_of_getLast fun c hc => hd c (List.mem_of_mem_getLast? hc)]

section Scheme

variable {s X : List Char} {x : Char} {st : ChallScan} {proto : AuthProtocol} {hdl : AuthHandler}

theorem parseStep_unclaimed (hf : findProtocol table s handlers = none) :
    parseStep table handlers st ⟨some s, some none, some x, X⟩ =
      .next { st with val := some none, sep := some x, claimed := st.flush, chall := none } X := by
  simp [parseStep, hf]
  rfl

theorem parseStep_claimed (hf : findProtocol table s handlers = some (proto, hdl))
    (ho : proto.flags &&& authFlagOpaqueParam = 0 ∨ x ≠ ' ') :
    parseStep table handlers st ⟨some s, some none, some x, X⟩ =
      .next { st with
        val := some none, sep := some x, claimed := st.flush
        chall := some { protocol := proto, handler := hdl } } X := by
  rcases ho with ho | ho
  · simp [parseStep, hf, claim, ho]
    rfl
  · by_cases h0 : proto.flags &&& authFlagOpaqueParam = 0
    · simp [parseStep, hf, claim, h0]
      rfl
    · simp [parseStep, hf, claim, h0, ho]
      rfl

theorem parseLoop_opaqueParam {fuel : Nat} {pnt y : List Char} {more : Option (List Char)}
    (ht : tokenize pnt true = .token ⟨some s, some none, some ' ', X⟩)
    (hf : findProtocol table s handlers = some (proto, hdl)) (ho : proto.flags &&& authFlagOpaqueParam ≠ 0)
    (hX : neToken ',' X = (y, more)) :
    parseLoop table handlers (fuel + 1) st pnt =
      parseLoop table handlers fuel { st with
        val := some none, sep := some ' ', claimed := st.flush
        chall := some { protocol := proto, handler := hdl, opaqueValue := some (neShave " \t".toList y) } }
        (more.getD []) := by
  cases more with
  | none => simp [parseLoop, ht, parseStep, hf, claim, ho, hX, parseLoop_nil]; rfl
  | some m => simp [parseLoop, ht, parseStep, hf, claim, ho, hX]; rfl

end Scheme

theorem parseLoop_chall (c : Chall) (hc : c.fits table handlers) {w : List Char} (hw : isOws w)
    (more : Option (List Char)) {fuel : Nat} (st : ChallScan)
    (hlen : (w ++ (c.render ++ tailText more)).length < fuel) :
    ∃ fuel' st', parseLoop table handlers fuel st (w ++ (c.render ++ tailText more)) =
        parseLoop table handlers fuel' st' (more.getD []) ∧ (more.getD []).length < fuel' ∧
      st'.flush = st.flush ++ (specRecord table handlers c).toList := by
  obtain ⟨fuel, rfl⟩ : ∃ f, fuel = f + 1 := ⟨fuel - 1, by omega⟩
  have hm := length_tailText more
  have htok := tokenize_scheme c hw
  obtain ⟨s, body, hne, hts, hok⟩ := c
  have hs := List.length_pos.mpr hne
  cases body with
  | bare =>
      have ht := (htok (tailText more)).trans (scan_scheme_end s more)
      simp only [Chall.render, List.length_append] at hlen ht ⊢
      cases hf : findProtocol table s handlers with
      | none =>
          exact ⟨fuel, _, parseLoop_next ht (parseStep_unclaimed hf), by omega, by simp [specRecord, hf]; rfl⟩
      | some ph =>
          obtain ⟨proto, hdl⟩ := ph
          refine ⟨fuel, _, parseLoop_next ht (parseStep_claimed hf (Or.inr (by split <;> decide))), by omega, ?_⟩
          simp [specRecord, hf]
          rfl
  | params n ps =>
      have ht := (htok _).trans
        (scan_scheme_space s (List.replicate n ' ' ++ (ps.first.render ++ (renderRest ps.rest ++ tailText more))))
      simp only [Chall.render, ParamList.render, List.append_assoc, List.cons_append] at ht ⊢
      simp only [Chall.render, ParamList.render, List.append_assoc, List.cons_append, List.length_append,
        List.length_cons] at hlen
      have hows : isOws (List.replicate n ' ') := fun a ha => Or.inl (List.eq_of_mem_replicate ha)
      cases hf : findProtocol table s handlers with
      | none =>
          obtain ⟨fuel', st', he, hl, hcl, hch⟩ := parseLoop_params more ps.rest _ ps.first fuel
            { st with val := some none, sep := some ' ', claimed := st.flush, chall := none } hows ps.ows hok
            (by simp only [List.length_append] at hlen ⊢; omega)
          refine ⟨fuel', st', (parseLoop_next ht (parseStep_unclaimed hf)).trans he, hl, ?_⟩
          simp [ChallScan.flush, hch, hcl, specRecord, hf]
      | some ph =>
          obtain ⟨proto, hdl⟩ := ph
          have h0 : proto.flags &&& authFlagOpaqueParam = 0 := by simpa [Chall.fits, opaqueParam, hf] using hc
          obtain ⟨fuel', st', he, hl, hcl, hch⟩ := parseLoop_params more ps.rest _ ps.first fuel
            { st with
              val := some none, sep := some ' ', claimed := st.flush
              chall := some { protocol := proto, handler := hdl } } hows ps.ows hok
            (by simp only [List.length_append] at hlen ⊢; omega)
          refine ⟨fuel', st', (parseLoop_next ht (parseStep_claimed hf (Or.inl h0))).trans he, hl, ?_⟩
          simp only [ChallScan.flush, hch, hcl, specRecord, hf, Option.map_some', Option.toList_some]
          rw [← ParamList.params, foldl_applyParam]
          rfl
  | token68 n b pad =>
      obtain ⟨proto, hdl, hf, h0⟩ : ∃ proto hdl, findProtocol table s handlers = some (proto, hdl) ∧
          proto.flags &&& authFlagOpaqueParam ≠ 0 := by
        revert hc
        simp only [Chall.fits, opaqueParam]
        split
        · next proto hdl hf => exact fun h => ⟨proto, hdl, hf, by simpa using h⟩
        · exact fun h => absurd h Bool.false_ne_true
      have ht := (htok _).trans
        (scan_scheme_space s (List.replicate n ' ' ++ (b ++ List.replicate pad '=') ++ tailText more))
      have hchars := token68_chars hok.2 pad
      have hX : neToken ',' (List.replicate n ' ' ++ (b ++ List.replicate pad '=') ++ tailText more) =
          (List.replicate n ' ' ++ (b ++ List.replicate pad '='), more) :=
        neToken_tailText (fun h => by
          rcases List.mem_append.mp h with h | h
          · exact absurd (List.eq_of_mem_replicate h) (by decide)
          · exact (hchars _ h).1 rfl) more
      simp only [Chall.render, List.append_assoc, List.cons_append] at ht hX ⊢
      simp only [Chall.render, List.append_assoc, List.cons_append, List.length_append, List.length_cons,
        List.length_replicate] at hlen
      refine ⟨fuel, _, parseLoop_opaqueParam ht hf h0 hX, by omega, ?_⟩
      rw [neShave_token68 hchars]
      simp [ChallScan.flush, specRecord, hf]
      rfl

theorem parseLoop_challs :
    ∀ (rest : List (List Char × Chall)) (w : List Char) (c : Chall) (fuel : Nat) (st : ChallScan),
    isOws w → (∀ x ∈ rest, isOws x.1) → (∀ d ∈ c :: rest.map Prod.snd, d.fits table handlers) →
    (w ++ (c.render ++ renderChalls rest)).length < fuel →
    ∃ st', parseLoop table handlers fuel st (w ++ (c.render ++ renderChalls rest)) = some st' ∧
      st'.flush = st.flush ++ (c :: rest.map Prod.snd).filterMap (specRecord table handlers)
  | [], w, c, fuel, st, hw, _, hc, hlen => by
      obtain ⟨fuel', st', he, -, hfl⟩ := parseLoop_chall c (hc c (List.mem_cons_self _ _)) hw none st hlen
      refine ⟨st', he.trans (parseLoop_nil _ _), ?_⟩
      rw [hfl]
      cases h : specRecord table handlers c <;> simp [h]
  | (w', c') :: rest, w, c, fuel, st, hw, hrest, hc, hlen => by
      obtain ⟨fuel', st₁, he, hl, hfl⟩ := parseLoop_chall c (hc c (List.mem_cons_self _ _)) hw
        (some (w' ++ (c'.render ++ renderChalls rest))) st hlen
      obtain ⟨st', he', hfl'⟩ := parseLoop_challs rest w' c' fuel' st₁ (hrest _ (List.mem_cons_self _ _))
        (fun x hx => hrest x (List.mem_cons_of_mem _ hx)) (fun d hd => hc d (List.mem_cons_of_mem _ hd)) hl
      refine ⟨st', he.trans he', ?_⟩
      rw [hfl', hfl]
      cases h : specRecord table handlers c <;> simp [List.filterMap_cons, h]

theorem parseLoop_challenge_header (h : ChallList) (hf : ∀ c ∈ h.challs, c.fits table handlers) :
    ∃ st, parseLoop table handlers (h.render.length + 1) {} h.render = some st ∧
      st.flush = h.challs.filterMap (specRecord table handlers) :=
  parseLoop_challs h.rest [] h.first _ {} (fun _ h => by cases h) h.ows hf (by simp [ChallList.render])

end Loop

def allHandlers : List AuthHandler := [⟨neAuthBasic ||| neAuthDigest ||| neAuthNegotiate, 0, 0⟩]

def realmParam (v : List Char) (h : (ParamValue.quoted v).Ok) : Param :=
  ⟨"realm".toList, .quoted v, by decide, by decide, h⟩

def sampleHeader : ChallList where
  first := ⟨"Negotiate".toList, .token68 0 "YWJj".toList 2, by decide, by decide, by decide⟩
  rest :=
    [(" ".toList, ⟨"NTLM".toList, .bare, by decide, by decide, trivial⟩),
     ([], ⟨"Basic".toList, .params 0 ⟨realmParam "x".toList (by decide), [], by decide⟩, by decide, by decide,
        by decide⟩),
     ("  ".toList, ⟨"Digest".toList, .params 0
        ⟨realmParam "a, b".toList (by decide),
         [(" ".toList, ⟨"nonce".toList, .token "n".toList, by decide, by decide, by decide⟩),
          (" ".toList, ⟨"qop".toList, .quoted "auth,auth-int".toList, by decide, by decide, by decide⟩)],
         by decide⟩, by decide, by decide, by decide⟩)]
  ows := by decide

theorem sample_header_parsed :
    (∀ c ∈ sampleHeader.challs, c.fits (protocols .gssapi) allHandlers) ∧
      ∃ st, parseLoop (protocols .gssapi) allHandlers (sampleHeader.render.length + 1) {} sampleHeader.render =
          some st ∧
        st.flush = sampleHeader.challs.filterMap (specRecord (protocols .gssapi) allHandlers) :=
  ⟨by decide, parseLoop_challenge_header sampleHeader (by decide)⟩

example : (sampleHeader.challs.filterMap (specRecord (protocols .gssapi) allHandlers)).map
    (fun r => (r.protocol.name, r.realm, r.opaqueValue, r.qopAuth)) =
      [("Negotiate".toList, none, some "YWJj==".toList, false), ("Basic".toList, some "x".toList, none, false),
       ("Digest".toList, some "a, b".toList, none, true)] := by
  decide

end NeonAuth.ChallengeParse
