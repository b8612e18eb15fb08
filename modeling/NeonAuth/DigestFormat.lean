import NeonAuth.Credentials
import NeonAuth.Grammar

namespace NeonAuth.DigestFormat

open Text Protocol Session Hooks Credentials Grammar

def paramPair (p : Param) : List Char × ParamValue := (p.name, p.value)

def PairOk (x : List Char × ParamValue) : Prop := x.1 ≠ [] ∧ (∀ c ∈ x.1, isTchar c) ∧ x.2.Ok

def pairRender (x : List Char × ParamValue) : List Char := x.1 ++ '=' :: x.2.render

def restRender : List (List Char × ParamValue) → List Char
  | [] => []
  | x :: xs => ',' :: ' ' :: (pairRender x ++ restRender xs)

def pairLookup (qs : List (List Char × ParamValue)) (key : List Char) : Option (List Char) :=
  ((qs.filter fun q => neStrcasecmp q.1 key).map fun q => q.2.unquoted).getLast?

theorem lastParam_eq_pairLookup (ps : List Param) (key : List Char) :
    lastParam ps key = pairLookup (ps.map paramPair) key := by
  simp only [lastParam, pairLookup, List.filter_map, List.map_map]
  rfl

theorem exists_rest : ∀ qs : List (List Char × ParamValue), (∀ x ∈ qs, PairOk x) →
    ∃ rest : List (List Char × Param), (∀ x ∈ rest, isOws x.1) ∧ renderRest rest = restRender qs ∧
      rest.map (paramPair ∘ Prod.snd) = qs
  | [], _ => ⟨[], fun _ h => (by cases h), rfl, rfl⟩
  | x :: xs, h => by
      obtain ⟨rest, hw, hr, hm⟩ := exists_rest xs fun y hy => h y (List.mem_cons_of_mem x hy)
      obtain ⟨hn, ht, hv⟩ := h x (List.mem_cons_self x xs)
      refine ⟨(" ".toList, ⟨x.1, x.2, hn, ht, hv⟩) :: rest, ?_, ?_, by simp [hm, paramPair]⟩
      · intro y hy
        rcases List.mem_cons.mp hy with rfl | hy
        · exact (by decide : isOws " ".toList)
        · exact hw y hy
      · simp [renderRest, restRender, hr, Param.render, pairRender]

theorem exists_paramList (q : List Char × ParamValue) (qs : List (List Char × ParamValue))
    (h : ∀ x ∈ q :: qs, PairOk x) :
    ∃ L : ParamList, L.render = pairRender q ++ restRender qs ∧ L.params.map paramPair = q :: qs := by
  obtain ⟨rest, hw, hr, hm⟩ := exists_rest qs fun y hy => h y (List.mem_cons_of_mem q hy)
  obtain ⟨hn, ht, hv⟩ := h q (List.mem_cons_self q qs)
  refine ⟨⟨⟨q.1, q.2, hn, ht, hv⟩, rest, hw⟩, by rw [ParamList.render, hr]; rfl, ?_⟩
  simp only [ParamList.params, List.map_cons, List.map_map, hm]
  rfl

def opaquePairs : Option (List Char) → List (List Char × ParamValue)
  | some o => [("opaque".toList, .quoted o)]
  | none => []

def qopPairs : Option (List Char × List Char) → List (List Char × ParamValue)
  | some (cn, nc) => [("cnonce".toList, .quoted cn), ("nc".toList, .token nc), ("qop".toList, .quoted "auth".toList)]
  | none => []

/-- The parameters of Digest credentials, in the order request_digest writes them. -/
def digestPairs (d : DigestCredentials) : List (List Char × ParamValue) :=
  [("username".toList, .quoted d.username), ("realm".toList, .quoted d.realm),
    ("nonce".toList, .quoted d.nonce), ("uri".toList, .quoted d.uri), ("response".toList, .quoted d.response),
    ("algorithm".toList, .quoted (if d.algorithm = .md5 then "MD5".toList else "MD5-sess".toList))] ++
  opaquePairs d.opaqueValue ++ qopPairs d.qop

theorem pairOk_of_name {name : List Char} (hn : name ≠ [] ∧ ∀ c ∈ name, isTchar c) {v : ParamValue}
    (hv : v.Ok) : PairOk (name, v) :=
  ⟨hn.1, hn.2, hv⟩

theorem opaquePairs_ok {o : Option (List Char)} (ho : ∀ x ∈ o, (ParamValue.quoted x).Ok) :
    ∀ x ∈ opaquePairs o, PairOk x := by
  cases o with
  | none => exact fun _ h => by cases h
  | some o => simpa [opaquePairs] using pairOk_of_name (by decide) (ho o rfl)

theorem qopPairs_ok {q : Option (List Char × List Char)}
    (hq : ∀ x ∈ q, (ParamValue.quoted x.1).Ok ∧ (ParamValue.token x.2).Ok) : ∀ x ∈ qopPairs q, PairOk x := by
  rcases q with _ | ⟨cn, nc⟩
  · exact fun _ h => by cases h
  · obtain ⟨hcn, hnc⟩ := hq _ rfl
    simp only [qopPairs, List.forall_mem_cons, List.not_mem_nil, false_imp_iff, implies_true, and_true]
    exact ⟨pairOk_of_name (by decide) hcn, pairOk_of_name (by decide) hnc, pairOk_of_name (by decide) (by decide)⟩

theorem digestPairs_ok (d : DigestCredentials)
    (hb : ∀ x ∈ [d.username, d.realm, d.nonce, d.uri, d.response], (ParamValue.quoted x).Ok)
    (ho : ∀ x ∈ d.opaqueValue, (ParamValue.quoted x).Ok)
    (hq : ∀ x ∈ d.qop, (ParamValue.quoted x.1).Ok ∧ (ParamValue.token x.2).Ok) : ∀ x ∈ digestPairs d, PairOk x := by
  have halg : (ParamValue.quoted (if d.algorithm = .md5 then "MD5".toList else "MD5-sess".toList)).Ok := by
    split <;> decide
  simp only [List.forall_mem_cons, List.not_mem_nil, false_imp_iff, implies_true, and_true] at hb
  simp only [digestPairs, List.forall_mem_append, List.forall_mem_cons, List.not_mem_nil, false_imp_iff,
    implies_true, and_true]
  exact ⟨⟨⟨pairOk_of_name (by decide) hb.1, pairOk_of_name (by decide) hb.2.1, pairOk_of_name (by decide) hb.2.2.1,
    pairOk_of_name (by decide) hb.2.2.2.1, pairOk_of_name (by decide) hb.2.2.2.2, pairOk_of_name (by decide) halg⟩,
    opaquePairs_ok ho⟩, qopPairs_ok hq⟩

theorem render_digestPairs (d : DigestCredentials) :
    d.render = "Digest ".toList ++ (pairRender ("username".toList, .quoted d.username) ++
      restRender (digestPairs d).tail) ++ "\r\n".toList := by
  rcases d with ⟨u, r, n, uri, resp, alg, o, q⟩
  cases o <;> rcases q with _ | ⟨cn, nc⟩ <;>
    simp only [DigestCredentials.render, digestPairs, opaquePairs, qopPairs, List.tail_cons, restRender, pairRender,
      ParamValue.render, List.cons_append, List.singleton_append, List.nil_append, List.append_assoc,
      List.append_nil] <;> rfl

theorem digestPairs_lookup (d : DigestCredentials) :
    pairLookup (digestPairs d) "username".toList = some d.username ∧
      pairLookup (digestPairs d) "realm".toList = some d.realm ∧
      pairLookup (digestPairs d) "nonce".toList = some d.nonce ∧
      pairLookup (digestPairs d) "uri".toList = some d.uri ∧
      pairLookup (digestPairs d) "opaque".toList = d.opaqueValue ∧
      pairLookup (digestPairs d) "cnonce".toList = d.qop.map Prod.fst := by
  rcases d with ⟨u, r, n, uri, resp, alg, o, q⟩
  cases o <;> rcases q with _ | ⟨cn, nc⟩ <;> exact ⟨rfl, rfl, rfl, rfl, rfl, rfl⟩

theorem isTchar_hexDigit {d : Nat} (h : d < 16) : isTchar (hexDigit d) := by
  have hall : ∀ d : Fin 16, isTchar (hexDigit d) := by decide
  exact hall ⟨d, h⟩

theorem hexWidth_tchar : ∀ (w n : Nat), ∀ c ∈ hexWidth w n, isTchar c
  | 0, _, _, h => by cases h
  | w + 1, n, c, h => by
      rcases List.mem_append.mp h with h | h
      · exact hexWidth_tchar w (n / 16) c h
      · rw [List.mem_singleton.mp h]
        exact isTchar_hexDigit (Nat.mod_lt n (by decide))

theorem hex8_ok (n : Nat) : (ParamValue.token (hex8 n)).Ok :=
  ⟨fun h => absurd (congrArg List.length h) (by simp [hex8]), hexWidth_tchar 8 n⟩

variable {c : Crypto} {s s' : AuthSession} {areq : AuthRequest} {v realm : List Char}

/-- On a session that holds a realm, where the username, realm, URI, nonce, opaque value and
client nonce hold no quote, backslash or NUL and the MD5 hex does not either, request_digest's
value is the scheme Digest, a space and a parameter list of the header grammar, ended by CRLF;
read by name, the list gives back the username, realm, nonce and URI, the opaque value when the
session holds one, and the client nonce under qop=auth. -/
theorem digest_value_reads_back (hmd5 : ∀ x, (ParamValue.quoted (c.md5 x).hex).Ok)
    (h : requestDigest c s areq = some (s', v)) (hr : s.realm = some realm)
    (hsafe : ∀ x ∈ s.username :: realm :: areq.uri :: (s.nonce.toList ++ s.opaqueValue.toList ++ s.cnonce.toList),
      (ParamValue.quoted x).Ok) :
    ∃ L : ParamList, v = "Digest ".toList ++ L.render ++ "\r\n".toList ∧
      lastParam L.params "username".toList = some s.username ∧ lastParam L.params "realm".toList = some realm ∧
      lastParam L.params "nonce".toList = s.nonce ∧ lastParam L.params "uri".toList = some areq.uri ∧
      lastParam L.params "opaque".toList = s.opaqueValue ∧
      lastParam L.params "cnonce".toList = if s.qop = .auth then s.cnonce else none := by
  obtain ⟨d, hv, hu, hdr, hn, huri, -, ho, hq, hqs, hresp⟩ := requestDigest_render h hr
  have hb : ∀ x ∈ [d.username, d.realm, d.nonce, d.uri, d.response], (ParamValue.quoted x).Ok := by
    intro x hx
    simp only [List.mem_cons, List.not_mem_nil, or_false] at hx
    rcases hx with rfl | rfl | rfl | rfl | rfl
    · exact hsafe _ (by simp [hu])
    · exact hsafe _ (by simp [hdr])
    · exact hsafe _ (by simp [hn])
    · exact hsafe _ (by simp [huri])
    · rw [hresp]
      exact hmd5 _
  have hok := digestPairs_ok d hb (fun x hx => hsafe x (by simp [← ho, hx]))
    (fun q hq' => ⟨hsafe q.1 (by simp [(hq q hq').1]), (hq q hq').2 ▸ hex8_ok _⟩)
  obtain ⟨L, hL, hp⟩ := exists_paramList ("username".toList, .quoted d.username) (digestPairs d).tail hok
  obtain ⟨h₁, h₂, h₃, h₄, h₅, h₆⟩ := digestPairs_lookup d
  refine ⟨L, by rw [hv, hL]; exact render_digestPairs d, ?_⟩
  simp only [lastParam_eq_pairLookup, hp]
  refine ⟨h₁.trans (congrArg some hu), h₂.trans (congrArg some hdr), h₃.trans hn.symm, h₄.trans (congrArg some huri),
    h₅.trans ho, h₆.trans ?_⟩
  cases hd : d.qop with
  | none => rw [if_neg fun ha => by simp [hd] at hqs; exact hqs ha]; rfl
  | some q => rw [if_pos (hqs.mp (by simp [hd])), (hq q hd).1]; rfl

def hexCrypto : Crypto := ⟨fun _ => ⟨List.replicate 32 '0', rfl⟩, id, id⟩

def rfcSession : AuthSession :=
  { context := .any, spec := ahServerClass, username := "Mufasa".toList, realm := some "testrealm@host.com".toList,
    nonce := some "dcd98b7102dd2f0e8b11d0f600bfb0c093".toList, cnonce := some "0a4f113b".toList,
    opaqueValue := some "5ccc069c403ebaf9f0171e9517f40e41".toList, qop := .auth }

theorem rfc_example_reads_back :
    ∃ s' v, requestDigest hexCrypto rfcSession ⟨"/dir/index.html".toList, "GET".toList, 0⟩ = some (s', v) ∧
      ∃ L : ParamList, v = "Digest ".toList ++ L.render ++ "\r\n".toList ∧
        lastParam L.params "username".toList = some "Mufasa".toList ∧
        lastParam L.params "realm".toList = some "testrealm@host.com".toList ∧
        lastParam L.params "nonce".toList = some "dcd98b7102dd2f0e8b11d0f600bfb0c093".toList ∧
        lastParam L.params "uri".toList = some "/dir/index.html".toList ∧
        lastParam L.params "opaque".toList = some "5ccc069c403ebaf9f0171e9517f40e41".toList ∧
        lastParam L.params "cnonce".toList = some "0a4f113b".toList := by
  have hmd5 : ∀ x, (ParamValue.quoted (hexCrypto.md5 x).hex).Ok := by
    intro x ch hc
    rw [List.eq_of_mem_replicate hc]
    decide
  obtain ⟨s', v, hv⟩ : ∃ s' v,
      requestDigest hexCrypto rfcSession ⟨"/dir/index.html".toList, "GET".toList, 0⟩ = some (s', v) := ⟨_, _, rfl⟩
  exact ⟨s', v, hv, @digest_value_reads_back hexCrypto rfcSession s' ⟨"/dir/index.html".toList, "GET".toList, 0⟩ v
    "testrealm@host.com".toList hmd5 hv rfl (by decide)⟩

end NeonAuth.DigestFormat
