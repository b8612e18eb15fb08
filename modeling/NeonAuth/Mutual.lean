import NeonAuth.Grammar
import NeonAuth.Verify

namespace NeonAuth.Mutual

open Text Tokenize Protocol Session Verify Grammar

def absorb (st : InfoScan) (p : Param) : InfoScan :=
  infoField { st with val := some (some p.value.unquoted) } p.name p.value.unquoted

def ncRead (ps : List Param) : Option Nat :=
  (((ps.filter fun p => neStrcasecmp p.name "nc".toList).map (·.value.unquoted)).filterMap scanHex).getLast?

/-- response-auth of RFC 2617 section 3.2.3 for the hex H(A1) `ha1`, where A2 is ":" and the
digest-uri, and the nc-value is the count `k` as eight hex digits. -/
def rspauthDigest (c : Crypto) (ha1 nonce : List Char) (k : Nat) (cnonce qopv uri : List Char) : List Char :=
  (c.md5 (ha1 ++ ":".toList ++ nonce ++ ":".toList ++ hex8 k ++ ":".toList ++ cnonce ++ ":".toList ++ qopv ++
    ":".toList ++ (c.md5 (":".toList ++ uri)).hex)).hex

theorem infoStep_param (st : InfoScan) (p : Param) (l : List Char) :
    infoStep st ⟨some p.name, some (some p.value.render), none, l⟩ = some (absorb st p) := by
  have hq := unquoted_ne_quote p.value_ok
  have hs : neShave ['"'] p.value.render = p.value.unquoted :=
    neShave_render (by decide) (fun c hc => by simpa using hq c (List.mem_of_mem_head? hc))
      (fun c hc => by simpa using hq c (List.mem_of_mem_getLast? hc))
  simp [infoStep, absorb, hs]

theorem infoLoop_nil (fuel : Nat) (st : InfoScan) : infoLoop fuel st [] = some st := by
  cases fuel <;> rfl

theorem infoLoop_next {fuel : Nat} {st : InfoScan} {pnt : List Char} {t : Token} (ht : tokenize pnt false = .token t) :
    infoLoop (fuel + 1) st pnt = (infoStep st t).bind fun st => infoLoop fuel st t.rest := by
  rw [infoLoop, ht]

theorem infoLoop_from :
    ∀ (rest : List (List Char × Param)) (w : List Char) (p : Param) (fuel : Nat) (st : InfoScan),
      isOws w → (∀ x ∈ rest, isOws x.1) → rest.length < fuel →
      infoLoop fuel st (w ++ (p.render ++ renderRest rest)) = some ((rest.map Prod.snd).foldl absorb (absorb st p))
  | _, _, _, 0, _, _, _, hlen => absurd hlen (Nat.not_lt_zero _)
  | [], w, p, fuel + 1, st, hw, _, _ => by
      rw [renderRest, infoLoop_next ((tokenize_param p hw).trans scan_end), infoStep_param,
        Option.some_bind, infoLoop_nil]
      rfl
  | (w', p') :: rest, w, p, fuel + 1, st, hw, hrest, hlen => by
      rw [renderRest, infoLoop_next ((tokenize_param p hw).trans scan_comma), infoStep_param, Option.some_bind]
      exact infoLoop_from rest w' p' fuel _ (hrest _ (List.mem_cons_self _ _))
        (fun x hx => hrest x (List.mem_cons_of_mem _ hx)) (by simpa using hlen)

theorem infoLoop_render (l : ParamList) (st : InfoScan) :
    infoLoop (l.render.length + 1) st l.render = some (l.params.foldl absorb st) := by
  have hlen : l.rest.length < l.render.length + 1 := by
    have := length_renderRest l.rest
    simp only [ParamList.render, List.length_append]
    omega
  simpa [ParamList.render, ParamList.params] using infoLoop_from l.rest [] l.first _ st (fun _ h => by cases h) l.ows hlen

section Fields

variable (st : InfoScan) (p : Param)

theorem absorb_qop : (absorb st p).qop =
    if neStrcasecmp p.name "qop".toList then (if neStrcasecmp p.value.unquoted "auth".toList then .auth else .none)
    else st.qop := by
  simp only [absorb, infoField, apply_ite InfoScan.qop, ite_self]

theorem absorb_qopValue : (absorb st p).qopValue =
    if neStrcasecmp p.name "qop".toList then some p.value.unquoted else st.qopValue := by
  simp only [absorb, infoField, apply_ite InfoScan.qopValue, ite_self]

theorem absorb_rspauth : (absorb st p).rspauth =
    if neStrcasecmp p.name "rspauth".toList then some p.value.unquoted else st.rspauth := by
  simp only [absorb, infoField, apply_ite InfoScan.rspauth, ite_self]
  rw [ite_key_ne "nextnonce".toList _ (by decide), ite_key_ne "qop".toList _ (by decide)]

theorem absorb_cnonce : (absorb st p).cnonce =
    if neStrcasecmp p.name "cnonce".toList then some p.value.unquoted else st.cnonce := by
  simp only [absorb, infoField, apply_ite InfoScan.cnonce, ite_self]
  rw [ite_key_ne "rspauth".toList _ (by decide), ite_key_ne "nextnonce".toList _ (by decide),
    ite_key_ne "qop".toList _ (by decide)]

theorem absorb_nc : (absorb st p).nc =
    if neStrcasecmp p.name "nc".toList then some p.value.unquoted else st.nc := by
  simp only [absorb, infoField, apply_ite InfoScan.nc, ite_self]
  rw [ite_key_ne "cnonce".toList _ (by decide), ite_key_ne "rspauth".toList _ (by decide),
    ite_key_ne "nextnonce".toList _ (by decide), ite_key_ne "qop".toList _ (by decide)]

theorem absorb_nonceCount : (absorb st p).nonceCount =
    if neStrcasecmp p.name "nc".toList then (scanHex p.value.unquoted).orElse fun _ => st.nonceCount
    else st.nonceCount := by
  simp only [absorb, infoField, apply_ite InfoScan.nonceCount, ite_self]
  rw [ite_key_ne "cnonce".toList _ (by decide), ite_key_ne "rspauth".toList _ (by decide),
    ite_key_ne "nextnonce".toList _ (by decide), ite_key_ne "qop".toList _ (by decide)]

end Fields

theorem foldl_scan : ∀ (vs : List (List Char)) (b : Option Nat),
    vs.foldl (fun b v => (scanHex v).orElse fun _ => b) b = (vs.filterMap scanHex).getLast?.orElse fun _ => b
  | [], _ => rfl
  | v :: vs, b => by
      rw [List.foldl_cons, foldl_scan vs, List.filterMap_cons]
      cases scanHex v with
      | none => rfl
      | some x =>
          simp only [Option.orElse, List.getLast?_cons]
          cases (vs.filterMap scanHex).getLast? <;> rfl

theorem orElse_none {α : Type} (o : Option α) : (o.orElse fun _ => none) = o := by
  cases o <;> rfl

section Scanned

variable (ps : List Param)

theorem scan_qop : (ps.foldl absorb {}).qop =
    ((lastParam ps "qop".toList).map fun v => if neStrcasecmp v "auth".toList then AuthQop.auth else .none).getD .none :=
  foldl_lastParam absorb InfoScan.qop _ _ absorb_qop ps {}

theorem scan_qopValue : (ps.foldl absorb {}).qopValue = lastParam ps "qop".toList :=
  (foldl_lastParam absorb InfoScan.qopValue _ some absorb_qopValue ps {}).trans (map_some_getD _)

theorem scan_rspauth : (ps.foldl absorb {}).rspauth = lastParam ps "rspauth".toList :=
  (foldl_lastParam absorb InfoScan.rspauth _ some absorb_rspauth ps {}).trans (map_some_getD _)

theorem scan_cnonce : (ps.foldl absorb {}).cnonce = lastParam ps "cnonce".toList :=
  (foldl_lastParam absorb InfoScan.cnonce _ some absorb_cnonce ps {}).trans (map_some_getD _)

theorem scan_nc : (ps.foldl absorb {}).nc = lastParam ps "nc".toList :=
  (foldl_lastParam absorb InfoScan.nc _ some absorb_nc ps {}).trans (map_some_getD _)

theorem scan_nonceCount : (ps.foldl absorb {}).nonceCount = ncRead ps :=
  (foldl_field absorb InfoScan.nonceCount _ (fun v b => (scanHex v).orElse fun _ => b) absorb_nonceCount ps {}).trans
    ((foldl_scan _ _).trans (orElse_none _))

end Scanned

variable {c : Crypto} {s s₁ : AuthSession} {q : AuthRequest} {value : List Char}

theorem requestDigest_auth (h : requestDigest c s q = some (s₁, value)) (hq : s.qop = .auth) :
    ∃ n cn, s.nonce = some n ∧ s.cnonce = some cn ∧ s₁.cnonce = some cn ∧
      s₁.storedRdig = some (s.hA1.hex ++ ":".toList ++ n ++ ":".toList ++ hex8 s₁.nonceCount ++ ":".toList ++ cn ++
        ":".toList) := by
  unfold requestDigest at h
  rcases hn : s.nonce with _ | n
  · simp [hq, hn] at h
  rcases hc : s.cnonce with _ | cn
  · simp [hq, hn, hc] at h
  simp only [hq, hn, hc, if_true, Option.some.injEq, Prod.mk.injEq] at h
  obtain ⟨rfl, -⟩ := h
  exact ⟨n, cn, rfl, rfl, by simp [hc], by simp⟩

theorem infoCheck_auth {st : InfoScan} {stored qv cn : List Char} (hqop : st.qop = .auth)
    (hc : s₁.cnonce = some cn) (hst : s₁.storedRdig = some stored) (hqv : st.qopValue = some qv) (junk : Nat) :
    ∃ s₂ ret, infoCheck c junk q s₁ st = some (s₂, ret) ∧
      (ret = .ok ↔ ∃ rsp vcn nc, st.rspauth = some rsp ∧ st.cnonce = some vcn ∧ st.nc = some nc ∧ vcn = cn ∧
        st.nonceCount.getD junk = s₁.nonceCount ∧
        neStrcasecmp (c.md5 (stored ++ qv ++ ":".toList ++ (c.md5 (":".toList ++ q.uri)).hex)).hex rsp = true) := by
  unfold infoCheck
  rw [if_neg (by rw [hqop]; decide)]
  rcases hr : st.rspauth with _ | rsp
  · exact ⟨_, _, rfl, iff_of_false (by decide) fun ⟨_, _, _, h, _⟩ => nomatch h⟩
  rcases hcn : st.cnonce with _ | vcn
  · exact ⟨_, _, rfl, iff_of_false (by decide) fun ⟨_, _, _, _, h, _⟩ => nomatch h⟩
  rcases hn : st.nc with _ | nc
  · exact ⟨_, _, rfl, iff_of_false (by decide) fun ⟨_, _, _, _, _, h, _⟩ => nomatch h⟩
  simp only [hc, hst, hqv]
  by_cases h₁ : vcn ≠ cn
  · rw [if_pos h₁]
    exact ⟨_, _, rfl, iff_of_false (by decide) (by rintro ⟨_, _, _, -, ⟨⟩, -, rfl, -⟩; exact h₁ rfl)⟩
  rw [if_neg h₁]
  by_cases h₂ : st.nonceCount.getD junk ≠ s₁.nonceCount
  · rw [if_pos h₂]
    exact ⟨_, _, rfl, iff_of_false (by decide) fun ⟨_, _, _, _, _, _, _, h, _⟩ => h₂ h⟩
  rw [if_neg h₂]
  split_ifs with h₃
  · exact ⟨_, _, rfl, iff_of_true rfl ⟨rsp, vcn, nc, rfl, rfl, rfl, not_not.mp h₁, not_not.mp h₂, h₃⟩⟩
  · refine ⟨_, _, rfl, iff_of_false (by decide) ?_⟩
    rintro ⟨_, _, _, ⟨⟩, -, -, -, -, h⟩
    exact h₃ h

theorem verify_ret {junk : Nat} {st : InfoScan} {s₂ : AuthSession} {ret : NeResult}
    (hl : infoLoop (value.length + 1) {} value = some st) (hc : infoCheck c junk q s₁ st = some (s₂, ret)) :
    ∃ s₃, verifyDigestResponse c junk q s₁ value = some (s₃, ret) := by
  unfold verifyDigestResponse
  rw [hl]
  cases hn : st.nextnonce <;> simp [hc, hn]

theorem verifyDigestResponse_after_request (hrd : requestDigest c s q = some (s₁, value)) (hq : s.qop = .auth)
    (v : ParamList) {qv : List Char} (hqv : lastParam v.params "qop".toList = some qv)
    (hauth : neStrcasecmp qv "auth".toList = true) (junk : Nat) :
    ∃ n cn s₂ ret, s.nonce = some n ∧ s.cnonce = some cn ∧
      verifyDigestResponse c junk q s₁ v.render = some (s₂, ret) ∧
      (ret = .ok ↔ ∃ rsp vcn nc, lastParam v.params "rspauth".toList = some rsp ∧
        lastParam v.params "cnonce".toList = some vcn ∧ lastParam v.params "nc".toList = some nc ∧ vcn = cn ∧
        (ncRead v.params).getD junk = s₁.nonceCount ∧
        neStrcasecmp (rspauthDigest c s.hA1.hex n s₁.nonceCount cn qv q.uri) rsp = true) := by
  obtain ⟨n, cn, hn, hc, hc₁, hst⟩ := requestDigest_auth hrd hq
  have hqop : (v.params.foldl absorb {}).qop = .auth := by
    rw [scan_qop, hqv, Option.map_some', Option.getD_some, if_pos hauth]
  obtain ⟨s₂, ret, hcheck, hiff⟩ := infoCheck_auth hqop hc₁ hst (by rw [scan_qopValue, hqv]) junk
  obtain ⟨s₃, hver⟩ := verify_ret (infoLoop_render v {}) hcheck
  refine ⟨n, cn, s₃, ret, hn, hc, hver, hiff.trans ?_⟩
  simp only [scan_rspauth, scan_cnonce, scan_nc, scan_nonceCount, rspauthDigest, List.append_assoc]

def aCrypto : Crypto := ⟨fun _ => ⟨List.replicate 32 'a', by simp⟩, id, id⟩

def qopSession : AuthSession :=
  { context := .any, spec := ahServerClass, protocol := some digestProtocol, realm := some "r".toList,
    nonce := some "n".toList, cnonce := some "c".toList, qop := .auth }

def getRoot : AuthRequest := ⟨"/".toList, "GET".toList, 0⟩

theorem isOws_space : isOws [' '] := by decide

def digestReply (nc : ParamValue) (h : nc.Ok) : ParamList :=
  ⟨⟨"qop".toList, .token "auth".toList, by decide, by decide, by decide⟩,
    [([' '], ⟨"rspauth".toList, .quoted (List.replicate 32 'a'), by decide, by decide, by decide⟩),
      ([' '], ⟨"cnonce".toList, .quoted "c".toList, by decide, by decide, by decide⟩),
      ([' '], ⟨"nc".toList, nc, by decide, by decide, h⟩)], by
    intro x hx
    simp only [List.mem_cons, List.mem_singleton, List.not_mem_nil, or_false] at hx
    rcases hx with rfl | rfl | rfl <;> exact isOws_space⟩

theorem verify_after_first_request :
    ∃ s₁ value, requestDigest aCrypto qopSession getRoot = some (s₁, value) ∧ qopSession.qop = .auth ∧
      lastParam (digestReply (.token "00000001".toList) (by decide)).params "qop".toList = some "auth".toList ∧
      neStrcasecmp "auth".toList "auth".toList = true ∧
      ∃ n cn s₂ ret, qopSession.nonce = some n ∧ qopSession.cnonce = some cn ∧
        verifyDigestResponse aCrypto 0 getRoot s₁ (digestReply (.token "00000001".toList) (by decide)).render =
          some (s₂, ret) ∧
        (ret = .ok ↔ ∃ rsp vcn nc,
          lastParam (digestReply (.token "00000001".toList) (by decide)).params "rspauth".toList = some rsp ∧
          lastParam (digestReply (.token "00000001".toList) (by decide)).params "cnonce".toList = some vcn ∧
          lastParam (digestReply (.token "00000001".toList) (by decide)).params "nc".toList = some nc ∧ vcn = cn ∧
          (ncRead (digestReply (.token "00000001".toList) (by decide)).params).getD 0 = s₁.nonceCount ∧
          neStrcasecmp (rspauthDigest aCrypto qopSession.hA1.hex n s₁.nonceCount cn "auth".toList getRoot.uri) rsp =
            true) := by
  obtain ⟨s₁, value, h⟩ : ∃ s₁ value, requestDigest aCrypto qopSession getRoot = some (s₁, value) := ⟨_, _, rfl⟩
  exact ⟨s₁, value, h, rfl, rfl, rfl,
    verifyDigestResponse_after_request h rfl (digestReply (.token "00000001".toList) (by decide)) rfl rfl 0⟩

/-- sscanf with "%x" stops at the first character that is not a hex digit, so an nc value
with trailing text passes the count check: the reply is accepted though its nc is not a hex
numeral. -/
theorem nc_trailing_text_accepted :
    ∃ s₁ value s₂, requestDigest aCrypto qopSession getRoot = some (s₁, value) ∧ s₁.nonceCount = 1 ∧
      lastParam (digestReply (.token "00000001x".toList) (by decide)).params "nc".toList = some "00000001x".toList ∧
      verifyDigestResponse aCrypto 0 getRoot s₁ (digestReply (.token "00000001x".toList) (by decide)).render =
        some (s₂, .ok) :=
  ⟨_, _, _, rfl, rfl, rfl, rfl⟩

end NeonAuth.Mutual
