import NeonAuth.Challenge

namespace NeonAuth.Loops

open Text Tokenize Protocol Session Verify Challenge

theorem claim_next_suffix {st st' : ChallScan} {proto : AuthProtocol} {hdl : AuthHandler}
    {rest pnt : List Char} (h : claim st proto hdl rest = .next st' pnt) : pnt <:+ rest := by
  unfold claim at h
  split at h
  · cases h; exact List.suffix_refl rest
  · split at h
    · cases h
    · split at h
      · split at h
        · cases h
        · rename_i heq; cases h; exact (neToken_rest_suffix ',' heq).trans (List.tail_suffix rest)
      · cases h; exact List.suffix_refl rest

theorem parseStep_next_suffix {table : List AuthProtocol} {handlers : List AuthHandler}
    {st st' : ChallScan} {t : Token} {pnt : List Char}
    (h : parseStep table handlers st t = .next st' pnt) : pnt <:+ t.rest := by
  unfold parseStep at h
  dsimp only at h
  split at h
  · cases h
  · split at h
    · split at h
      · cases h
      · cases h; exact List.suffix_refl _
    · split at h
      · cases h; exact List.suffix_refl _
      · exact claim_next_suffix h
  · split at h
    · cases h; exact List.suffix_refl _
    · split at h
      · cases h
      · cases h; exact List.suffix_refl _

def parseRun (table : List AuthProtocol) (handlers : List AuthHandler) :
    Nat → ChallScan → List Char → Option (Option ChallScan × Nat)
  | 0, _, _ => none
  | fuel + 1, st, pnt =>
      match tokenize pnt true with
      | .token t =>
          match parseStep table handlers st t with
          | .fault => some (none, 1)
          | .stop st => some (some st, 1)
          | .next st pnt => (parseRun table handlers fuel st pnt).map fun r => (r.1, r.2 + 1)
      | _ => some (some st, 1)

def infoRun : Nat → InfoScan → List Char → Option (Option InfoScan × Nat)
  | 0, _, _ => none
  | fuel + 1, st, pnt =>
      match tokenize pnt false with
      | .token t =>
          match infoStep st t with
          | none => some (none, 1)
          | some st => (infoRun fuel st t.rest).map fun r => (r.1, r.2 + 1)
      | _ => some (some st, 1)

theorem parseRun_exits (table : List AuthProtocol) (handlers : List AuthHandler) :
    ∀ (fuel : Nat) (st : ChallScan) (pnt : List Char), pnt.length < fuel →
      ∃ n ≤ pnt.length + 1, parseRun table handlers fuel st pnt = some (parseLoop table handlers fuel st pnt, n)
  | 0, _, _, h => absurd h (Nat.not_lt_zero _)
  | fuel + 1, st, pnt, h => by
      cases ht : tokenize pnt true with
      | token t =>
          cases hs : parseStep table handlers st t with
          | fault => exact ⟨1, by omega, by simp only [parseRun, parseLoop, ht, hs]⟩
          | stop st' => exact ⟨1, by omega, by simp only [parseRun, parseLoop, ht, hs]⟩
          | next st' pnt' =>
              have hlt : pnt'.length < pnt.length :=
                lt_of_le_of_lt (parseStep_next_suffix hs).length_le (tokenize_rest ht).2
              obtain ⟨n, hn, he⟩ := parseRun_exits table handlers fuel st' pnt' (by omega)
              exact ⟨n + 1, by omega, by simp only [parseRun, parseLoop, ht, hs, he, Option.map_some']⟩
      | done => exact ⟨1, by omega, by simp only [parseRun, parseLoop, ht]⟩
      | malformed => exact ⟨1, by omega, by simp only [parseRun, parseLoop, ht]⟩

theorem infoRun_exits :
    ∀ (fuel : Nat) (st : InfoScan) (pnt : List Char), pnt.length < fuel →
      ∃ n ≤ pnt.length + 1, infoRun fuel st pnt = some (infoLoop fuel st pnt, n)
  | 0, _, _, h => absurd h (Nat.not_lt_zero _)
  | fuel + 1, st, pnt, h => by
      cases ht : tokenize pnt false with
      | token t =>
          cases hs : infoStep st t with
          | none => exact ⟨1, by omega, by simp only [infoRun, infoLoop, ht, hs, Option.none_bind]⟩
          | some st' =>
              have hlt := (tokenize_rest ht).2
              obtain ⟨n, hn, he⟩ := infoRun_exits fuel st' t.rest (by omega)
              exact ⟨n + 1, by omega,
                by simp only [infoRun, infoLoop, ht, hs, he, Option.map_some', Option.some_bind]⟩
      | done => exact ⟨1, by omega, by simp only [infoRun, infoLoop, ht]⟩
      | malformed => exact ⟨1, by omega, by simp only [infoRun, infoLoop, ht]⟩

theorem parse_loops_terminate :
    (∀ b : Bool, tokenize [] b = .done) ∧
    (∀ (hdr : List Char) (b : Bool) (t : Token), tokenize hdr b = .token t →
      t.rest <:+ hdr.tail ∧ t.rest.length < hdr.length) ∧
    (∀ (sep : Char) (l r : List Char), (neToken sep l).2 = some r → r <:+ l.tail) ∧
    (∀ (table : List AuthProtocol) (handlers : List AuthHandler) (st : ChallScan) (value : List Char),
      ∃ n ≤ value.length + 1, parseRun table handlers (value.length + 1) st value =
        some (parseLoop table handlers (value.length + 1) st value, n)) ∧
    ∀ (st : InfoScan) (value : List Char), ∃ n ≤ value.length + 1,
      infoRun (value.length + 1) st value = some (infoLoop (value.length + 1) st value, n) :=
  ⟨fun _ => rfl, fun _ _ _ => tokenize_rest, fun sep _ _ => neToken_rest_suffix sep,
    fun table handlers st value => parseRun_exits table handlers _ st value (Nat.lt_succ_self _),
    fun st value => infoRun_exits _ st value (Nat.lt_succ_self _)⟩

theorem realm_token_advances :
    tokenize "realm=x, y".toList false = .token ⟨some "realm".toList, some (some "x".toList), none, " y".toList⟩ ∧
      " y".toList <:+ "ealm=x, y".toList ∧ " y".toList.length < "realm=x, y".toList.length := by
  have h : tokenize "realm=x, y".toList false =
      .token ⟨some "realm".toList, some (some "x".toList), none, " y".toList⟩ := by decide
  exact ⟨h, parse_loops_terminate.2.1 _ _ _ h⟩

/-- A header that ends in a comma and a blank: the last call of tokenize reads only the blank
and returns 0 with a NULL key and the value left as it was, and the loop body passes that key to
ne_strcasecmp. In an Authentication-Info value this happens at once; in a challenge, once a
handler claims the scheme. A parameter with no '=' leaves the value unassigned. Over every
input, a call that returns 0 has a NULL key exactly when the text left is blank, leaves the value
unassigned in param mode exactly when the text has no '=', and in challenge mode exactly when the
key is NULL. -/
theorem blank_tail_null_key :
    tokenize " ".toList true = .token ⟨none, none, none, []⟩ ∧
    tokenize "rspauth".toList false = .token ⟨some "rspauth".toList, none, none, []⟩ ∧
    (∀ (c : Crypto) (junk : Nat) (req : AuthRequest) (s : AuthSession),
      verifyDigestResponse c junk req s "qop=auth, ".toList = none ∧
      verifyDigestResponse c junk req s "rspauth".toList = none) ∧
    (∀ (b : Build) (c : Crypto) (o : Nat → Ext) (s : AuthSession) (attempt : Nat),
      authChallenge b c o { s with handlers := [⟨neAuthBasic, 0, 0⟩] } attempt "Basic realm=\"x\", ".toList = none) ∧
    (∀ hdr b t, tokenize hdr b = .token t → (t.key = none ↔ ∀ c ∈ hdr, isBlank c)) ∧
    (∀ hdr t, tokenize hdr false = .token t → (t.value = none ↔ '=' ∉ hdr)) ∧
    ∀ hdr t, tokenize hdr true = .token t → (t.value = none ↔ t.key = none) := by
  refine ⟨by decide, by decide, fun c junk req s => ⟨?_, ?_⟩, fun b c o s attempt => ?_,
    fun _ _ _ => tokenize_key_eq_none_iff, fun _ _ => tokenize_param_value_eq_none_iff,
    fun _ _ => tokenize_chall_value_eq_none_iff⟩
  · have h : infoLoop 11 {} "qop=auth, ".toList = none := by decide
    simp only [verifyDigestResponse, List.length, h]; rfl
  · have h : infoLoop 8 {} "rspauth".toList = none := by decide
    simp only [verifyDigestResponse, List.length, h]; rfl
  · have h : ∀ b : Build, parseLoop (protocols b) [⟨neAuthBasic, 0, 0⟩] 18 {} "Basic realm=\"x\", ".toList = none :=
      fun b => by cases b <;> decide
    simp only [authChallenge, List.length, h]; rfl

end NeonAuth.Loops
