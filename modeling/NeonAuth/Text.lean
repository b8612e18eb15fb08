import Mathlib

namespace NeonAuth.Text

/-- Modelled from the spec: `ne_strcasecmp(a, b) == 0` (ne_string.c is not in this source),
an ASCII case-insensitive comparison. -/
def neStrcasecmp (a b : List Char) : Bool :=
  a.map Char.toLower == b.map Char.toLower

/-- Modelled from the spec: `ne_shave(str, whitespace)` (ne_string.c) strips every leading and
trailing character of `whitespace`; it is what removes the quotes around a value. -/
def neShave (whitespace s : List Char) : List Char :=
  (s.dropWhile (fun c => c ∈ whitespace)).rdropWhile (fun c => c ∈ whitespace)

/-- Modelled from the spec: `ne_token(&str, separator)` (ne_string.c) returns the text before the
first separator and moves `str` past it, or to NULL when there is none. -/
def neToken (separator : Char) : List Char → List Char × Option (List Char)
  | [] => ([], none)
  | c :: cs =>
      if c = separator then ([], some cs)
      else ((c :: (neToken separator cs).1), (neToken separator cs).2)

/-- Modelled from the spec: `ne_concat` and `ne_buffer_concat` (ne_string.c) join their
arguments up to the first NULL one, which C code uses as the end of the list. -/
def neConcat : List (Option (List Char)) → List Char
  | [] => []
  | none :: _ => []
  | some s :: rest => s ++ neConcat rest

def hexDigit (d : Nat) : Char :=
  if d < 10 then Char.ofNat (48 + d) else Char.ofNat (87 + d)

def hexWidth : Nat → Nat → List Char
  | 0, _ => []
  | w + 1, n => hexWidth w (n / 16) ++ [hexDigit (n % 16)]

def hex8 (n : Nat) : List Char := hexWidth 8 n

def hexValue (c : Char) : Option Nat :=
  if '0' ≤ c ∧ c ≤ '9' then some (c.toNat - 48)
  else if 'a' ≤ c ∧ c ≤ 'f' then some (c.toNat - 87)
  else if 'A' ≤ c ∧ c ≤ 'F' then some (c.toNat - 55)
  else none

def leadingHex : List Char → List Nat
  | [] => []
  | c :: cs =>
      match hexValue c with
      | some d => d :: leadingHex cs
      | none => []

def hexNumeral (ds : List Nat) : Nat := ds.foldl (fun a d => 16 * a + d) 0

def isCSpace (c : Char) : Bool :=
  c = ' ' || c = '\t' || c = '\n' || c = '\r' || c.toNat = 11 || c.toNat = 12

def dropHexPrefix : List Char → List Char
  | '0' :: x :: t => if (x = 'x' ∨ x = 'X') ∧ leadingHex t ≠ [] then t else '0' :: x :: t
  | s => s

/-- `sscanf(val, "%x", &n)`: `some n` when it converts one item. The C library reads the
digits as strtoul does in base 16 (blanks, a sign and a `0x` prefix are accepted and anything
after the digits is ignored), and the result is stored into an unsigned int. -/
def scanHex (s : List Char) : Option Nat :=
  let (neg, t) : Bool × List Char :=
    match s.dropWhile isCSpace with
    | '-' :: t => (true, t)
    | '+' :: t => (false, t)
    | t => (false, t)
  match leadingHex (dropHexPrefix t) with
  | [] => none
  | ds =>
      let v := hexNumeral ds
      some ((if 2 ^ 64 ≤ v then 2 ^ 64 - 1 else if neg then (2 ^ 64 - v) % 2 ^ 64 else v) % 2 ^ 32)

@[simp] theorem neConcat_cons_some (s : List Char) (rest : List (Option (List Char))) :
    neConcat (some s :: rest) = s ++ neConcat rest := rfl

@[simp] theorem neConcat_cons_none (rest : List (Option (List Char))) :
    neConcat (none :: rest) = [] := rfl

@[simp] theorem hexWidth_length (w n : Nat) : (hexWidth w n).length = w := by
  induction w generalizing n with
  | zero => rfl
  | succ w ih => simp [hexWidth, ih]

theorem hexDigit_injective {a b : Nat} (ha : a < 16) (hb : b < 16)
    (h : hexDigit a = hexDigit b) : a = b := by
  have key : ∀ x y : Fin 16, hexDigit x = hexDigit y → x = y := by decide
  exact congrArg Fin.val (key ⟨a, ha⟩ ⟨b, hb⟩ h)

theorem hexWidth_inj {w n m : Nat} (h : hexWidth w n = hexWidth w m) :
    n % 16 ^ w = m % 16 ^ w := by
  induction w generalizing n m with
  | zero => simp [Nat.mod_one]
  | succ w ih =>
      obtain ⟨hhi, hlo⟩ := List.append_inj h (by simp)
      have hd := hexDigit_injective (Nat.mod_lt n (by omega)) (Nat.mod_lt m (by omega))
        (List.singleton_injective hlo)
      have hq := ih hhi
      rw [Nat.pow_succ', Nat.mod_mul, Nat.mod_mul, hd, hq]

theorem neToken_rest_suffix (sep : Char) : ∀ {l r : List Char}, (neToken sep l).2 = some r → r <:+ l.tail
  | [], _, h => by cases h
  | c :: cs, r, h => by
      unfold neToken at h
      split_ifs at h
      · exact Option.some.inj h ▸ List.suffix_refl cs
      · exact (neToken_rest_suffix sep h).trans (List.tail_suffix cs)

end NeonAuth.Text
