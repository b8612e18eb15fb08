import NeonAuth.Verify

namespace NeonAuth.Negotiate

open Text Protocol Session Verify

def strncmpEq : List Char → List Char → Nat → Bool
  | _, _, 0 => true
  | [], [], _ + 1 => true
  | a :: as, b :: bs, n + 1 => a == b && strncmpEq as bs n
  | _, _, _ + 1 => false

@[simp] theorem strncmpEq_zero (a b : List Char) : strncmpEq a b 0 = true := by
  cases a <;> cases b <;> rfl

def firstSpace : List Char → Option (List Char × List Char)
  | [] => none
  | c :: cs => if c = ' ' then some ([], cs) else (firstSpace cs).map fun r => (c :: r.1, r.2)

/-- verify_negotiate_response with the header at address `hdrAt` and its copy at `dupAt`: the
length strncmp reads is the size_t `ptr - hdr`, and NULL is address 0; `none` where the code
calls strlen on NULL + 1. -/
def verifyNegotiateResponseFlat (c : Crypto) (g : GssReply) (s : AuthSession) (hdrAt dupAt : Nat)
    (hdr : List Char) : Option (AuthSession × NeResult) :=
  let ptr := match firstSpace hdr with
    | some (before, _) => dupAt + before.length
    | none => 0
  if !strncmpEq hdr "Negotiate".toList ((ptr + 2 ^ 64 - hdrAt) % 2 ^ 64) then some (s, .error)
  else
    match firstSpace hdr with
    | none => none
    | some (_, after) =>
        if after = [] then some (s, .ok)
        else
          let r := continueNegotiate c g s (some ((after.takeWhile (· ≠ ',')).takeWhile (· ≠ ' ')))
          some (r.1, if r.2 then .ok else .error)

theorem firstSpace_eq_some : ∀ {hdr : List Char}, ' ' ∈ hdr →
    ∃ before after, firstSpace hdr = some (before, after) ∧ hdr = before ++ ' ' :: after
  | [], h => absurd h (List.not_mem_nil _)
  | c :: cs, h => by
      by_cases hc : c = ' '
      · exact ⟨[], cs, by simp [firstSpace, hc], by simp [hc]⟩
      · obtain ⟨before, after, he, rfl⟩ := firstSpace_eq_some ((List.mem_cons.mp h).resolve_left (Ne.symm hc))
        exact ⟨c :: before, after, by simp [firstSpace, hc, he], rfl⟩

theorem firstSpace_append : ∀ {w : List Char} (after : List Char), ' ' ∉ w →
    firstSpace (w ++ ' ' :: after) = some (w, after)
  | [], after, _ => by simp [firstSpace]
  | c :: w, after, h => by
      rw [List.mem_cons, not_or] at h
      simp [firstSpace, Ne.symm h.1, firstSpace_append after h.2]

theorem firstSpace_eq_none : ∀ {hdr : List Char}, ' ' ∉ hdr → firstSpace hdr = none
  | [], _ => rfl
  | c :: cs, h => by
      rw [List.mem_cons, not_or] at h
      simp [firstSpace, Ne.symm h.1, firstSpace_eq_none h.2]

theorem strncmpEq_space {b : List Char} (hb : ' ' ∉ b) (after : List Char) :
    ∀ (before : List Char) (n : Nat), before.length < n → strncmpEq (before ++ ' ' :: after) b n = false
  | [], n + 1, _ => by
      cases b with
      | nil => rfl
      | cons d ds => simp [strncmpEq, List.ne_of_not_mem_cons hb]
  | a :: before, n + 1, h => by
      cases b with
      | nil => rfl
      | cons d ds =>
          rw [List.cons_append, strncmpEq,
            strncmpEq_space (List.not_mem_of_not_mem_cons hb) after before n (by simpa using h), Bool.and_false]

theorem strncmpEq_self : ∀ (a : List Char) (n : Nat), strncmpEq a a n = true
  | a, 0 => strncmpEq_zero a a
  | [], _ + 1 => rfl
  | a :: as, n + 1 => by simp [strncmpEq, strncmpEq_self as n]

theorem strncmpEq_prefix : ∀ {w b : List Char} (r : List Char), w <+: b → strncmpEq (w ++ r) b w.length = true
  | [], b, r, _ => strncmpEq_zero ([] ++ r) b
  | a :: w, b, r, ⟨t, ht⟩ => by
      subst ht
      simp [strncmpEq, strncmpEq_prefix r (List.prefix_append w t)]

theorem strncmpEq_whole : ∀ (a b : List Char) (n : Nat), a.length < n → strncmpEq a b n = decide (a = b)
  | _, _, 0, h => absurd h (Nat.not_lt_zero _)
  | [], [], _ + 1, _ => rfl
  | [], _ :: _, _ + 1, _ => rfl
  | _ :: _, [], _ + 1, _ => rfl
  | a :: as, b :: bs, n + 1, h => by
      simp only [strncmpEq, strncmpEq_whole as bs n (by simpa using h), List.cons.injEq]
      by_cases hab : a = b <;> simp [hab]

theorem flat_of_space {c : Crypto} {g : GssReply} {s : AuthSession} {hdrAt dupAt : Nat} {hdr : List Char}
    (hsp : ' ' ∈ hdr) (happart : hdrAt + hdr.length < dupAt ∨ dupAt + hdr.length < hdrAt)
    (hdup : dupAt + hdr.length < 2 ^ 64) (hhdr : hdrAt < 2 ^ 64) :
    verifyNegotiateResponseFlat c g s hdrAt dupAt hdr = some (s, .error) := by
  obtain ⟨before, after, hfs, rfl⟩ := firstSpace_eq_some hsp
  simp only [List.length_append, List.length_cons] at happart hdup
  have hlen : before.length < (dupAt + before.length + 2 ^ 64 - hdrAt) % 2 ^ 64 := by omega
  simp only [verifyNegotiateResponseFlat, hfs]
  rw [@strncmpEq_space "Negotiate".toList (by decide) after before _ hlen]
  rfl

/-- With the two buffers apart in a 64-bit address space, `ptr - hdr` is larger than the offset
of the space, so strncmp reaches the space and every header that has one is refused. -/
theorem negotiate_response_rejected (c : Crypto) (g : GssReply) (s : AuthSession) (hdrAt dupAt : Nat)
    (hdr : List Char) (hsp : ' ' ∈ hdr)
    (happart : hdrAt + hdr.length < dupAt ∨ dupAt + hdr.length < hdrAt)
    (hdup : dupAt + hdr.length < 2 ^ 64) (hhdr : hdrAt < 2 ^ 64) :
    verifyNegotiateResponseFlat c g s hdrAt dupAt hdr = some (s, .error) :=
  flat_of_space hsp happart hdup hhdr

theorem negotiate_header_rejected_sample :
    ' ' ∈ "Negotiate YWJj".toList ∧ (4096 + "Negotiate YWJj".toList.length < 8192 ∨
        8192 + "Negotiate YWJj".toList.length < 4096) ∧
      8192 + "Negotiate YWJj".toList.length < 2 ^ 64 ∧ 4096 < 2 ^ 64 ∧
      ∀ (c : Crypto) (g : GssReply) (s : AuthSession),
        verifyNegotiateResponseFlat c g s 4096 8192 "Negotiate YWJj".toList = some (s, .error) :=
  ⟨by decide, by decide, by decide, by decide, fun c g s =>
    negotiate_response_rejected c g s 4096 8192 _ (by decide) (by decide) (by decide) (by decide)⟩

theorem verifyNegotiateResponseFlat_bare (c : Crypto) (g : GssReply) (s : AuthSession) (hdrAt dupAt : Nat) :
    verifyNegotiateResponseFlat c g s hdrAt dupAt "Negotiate".toList = none := by
  simp only [verifyNegotiateResponseFlat, firstSpace_eq_none (by decide : ' ' ∉ "Negotiate".toList),
    strncmpEq_self]
  rfl

/-- Wherever the allocator puts the copy apart from the header, the flat reading is the one the
hooks use: the bare word Negotiate runs into strlen on NULL + 1, and every other header is
refused with the session untouched. -/
theorem verifyNegotiateResponseFlat_apart (c : Crypto) (g : GssReply) (s : AuthSession) (hdrAt dupAt : Nat)
    (hdr : List Char) (hat : 0 < hdrAt) (happart : hdrAt + hdr.length < dupAt ∨ dupAt + hdr.length < hdrAt)
    (hdup : dupAt + hdr.length < 2 ^ 64) (hhdr : hdrAt + hdr.length < 2 ^ 64) :
    verifyNegotiateResponseFlat c g s hdrAt dupAt hdr = verifyNegotiateResponse s hdr := by
  by_cases hb : hdr = "Negotiate".toList
  · rw [hb, verifyNegotiateResponseFlat_bare, verifyNegotiateResponse, if_pos rfl]
  rw [verifyNegotiateResponse, if_neg hb]
  by_cases hsp : ' ' ∈ hdr
  · exact flat_of_space hsp happart hdup (by omega)
  · have hlen : hdr.length < (0 + 2 ^ 64 - hdrAt) % 2 ^ 64 := by omega
    simp only [verifyNegotiateResponseFlat, firstSpace_eq_none hsp, strncmpEq_whole _ _ _ hlen, hb,
      decide_False, Bool.not_false, if_true]

end NeonAuth.Negotiate
