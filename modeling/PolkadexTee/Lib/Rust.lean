import Mathlib.Data.List.Basic

/-! Rust's slice and string indexing and its integer parsing, on lists of bytes, and the few
operations on the characters of a string that the enclave uses. -/

namespace Rust

variable {α : Type}

-- `xs.windows(pat.len()).position(|w| w == pat)`: where `pat` first occurs in `xs`. Rust panics on
-- windows of size 0; every caller here has a nonempty pattern.
def windowsPosition [BEq α] (pat : List α) : List α → Option Nat
  | [] => none
  | x :: xs => if pat.isPrefixOf (x :: xs) then some 0 else (windowsPosition pat xs).map (· + 1)

-- `&xs[a..b]`, which panics unless `a ≤ b ≤ xs.len()`.
def slice (xs : List α) (a b : Nat) : Option (List α) :=
  if a ≤ b ∧ b ≤ xs.length then some ((xs.drop a).take (b - a)) else none

-- The slice over the bounds of one part of a list is that part.
theorem slice_append_of_eq {a b : Nat} (pre part post : List α) (ha : a = pre.length)
    (hb : b = pre.length + part.length) : slice (pre ++ (part ++ post)) a b = some part := by
  subst ha hb
  rw [slice, if_pos ⟨by omega, by simp⟩, List.drop_left, Nat.add_sub_cancel_left, List.take_left]

-- `str::is_char_boundary` on the UTF-8 bytes of a string: the ends, or a byte that does not
-- continue a character.
def isCharBoundary (s : List UInt8) (i : Nat) : Bool :=
  i == 0 || i == s.length || (match s[i]? with
    | some b => b.toNat < 0x80 || 0xC0 ≤ b.toNat
    | none => false)

-- `&s[a..b]` on a `str`, which also panics when an end falls inside a character.
def strSlice (s : List UInt8) (a b : Nat) : Option (List UInt8) :=
  if isCharBoundary s a && isCharBoundary s b then slice s a b else none

-- `char::to_digit(radix)` of an ASCII byte, for a radix of at most 36.
def toDigit (radix : Nat) (c : UInt8) : Option Nat :=
  let d :=
    if 48 ≤ c.toNat ∧ c.toNat ≤ 57 then some (c.toNat - 48)
    else if 97 ≤ c.toNat ∧ c.toNat ≤ 122 then some (c.toNat - 87)
    else if 65 ≤ c.toNat ∧ c.toNat ≤ 90 then some (c.toNat - 55)
    else none
  d.filter (· < radix)

-- The digit loop of `from_str_radix`, with its `checked_mul` and `checked_add` against `bound`.
def digitsValue (bound radix : Nat) : Nat → List UInt8 → Option Nat
  | acc, [] => some acc
  | acc, c :: cs => do
    let x ← toDigit radix c
    let acc := acc * radix + x
    if acc < bound then digitsValue bound radix acc cs else none

-- `from_str_radix(src, radix)` for an unsigned type whose values are those below `bound`: an
-- optional `+` and at least one digit.
def fromStrRadix (bound radix : Nat) (src : List UInt8) : Option Nat :=
  let digits := match src with
    | 43 :: ds => ds
    | ds => ds
  if digits.isEmpty then none else digitsValue bound radix 0 digits

-- The characters of a `str`, as `chars()` yields them.

-- `char::is_whitespace`: the characters with Unicode's `White_Space` property.
def isWhitespace (c : Char) : Bool :=
  let n := c.toNat
  (0x09 ≤ n && n ≤ 0x0D) || n == 0x20 || n == 0x85 || n == 0xA0 || n == 0x1680 ||
    (0x2000 ≤ n && n ≤ 0x200A) || n == 0x2028 || n == 0x2029 || n == 0x202F || n == 0x205F ||
    n == 0x3000

-- `str::trim`: the leading and trailing whitespace removed.
def trim (s : List Char) : List Char :=
  ((s.dropWhile isWhitespace).reverse.dropWhile isWhitespace).reverse

-- `str::len`: the number of bytes of the string's UTF-8 encoding.
def strLen : List Char → Nat
  | [] => 0
  | c :: s => c.utf8Size + strLen s

-- A string without whitespace is its own trim.
theorem trim_of_forall {s : List Char} (h : ∀ c ∈ s, isWhitespace c = false) : trim s = s := by
  have hdrop : ∀ l : List Char, (∀ c ∈ l, isWhitespace c = false) → l.dropWhile isWhitespace = l := by
    intro l hl
    cases l with
    | nil => rfl
    | cons c l => exact List.dropWhile_cons_of_neg (by simp [hl c List.mem_cons_self])
  rw [trim, hdrop s h, hdrop s.reverse (fun c hc => h c (List.mem_reverse.mp hc)), List.reverse_reverse]

-- A string of one-byte characters is as long as it has characters.
theorem strLen_of_forall {s : List Char} (h : ∀ c ∈ s, c.utf8Size = 1) : strLen s = s.length := by
  induction s with
  | nil => rfl
  | cons c s ih =>
    rw [strLen, h c List.mem_cons_self, ih fun c hc => h c (List.mem_cons_of_mem _ hc), List.length_cons,
      Nat.add_comm]

-- `char::from_digit(num, radix)` for a radix of at most 36: the digits, then lower-case letters.
def fromDigit (num radix : Nat) : Option Char :=
  if num < radix then some (Char.ofNat (if num < 10 then 48 + num else 87 + num)) else none

-- `Vec::swap_remove(i)`: the last element takes the place of the removed one.
def swapRemove (xs : List α) (i : Nat) : List α :=
  match xs.getLast? with
  | some last => (xs.set i last).dropLast
  | none => xs

-- What `swap_remove` leaves is what `remove` leaves, in another order.
theorem swapRemove_perm {xs : List α} {i : Nat} (hi : i < xs.length) :
    (swapRemove xs i).Perm (xs.eraseIdx i) := by
  obtain ⟨ys, last, rfl⟩ : ∃ ys last, xs = ys ++ [last] :=
    ⟨xs.dropLast, xs.getLast (List.ne_nil_of_length_pos (by omega)),
      (List.dropLast_append_getLast _).symm⟩
  simp only [swapRemove, List.getLast?_concat]
  rcases Nat.lt_or_ge i ys.length with hlt | hge
  · -- the last element moves into the place of the removed one
    rw [List.set_append_left _ _ hlt, List.dropLast_concat, List.eraseIdx_append_of_lt_length hlt,
      List.set_eq_take_append_cons_drop, if_pos hlt, List.eraseIdx_eq_take_drop_succ]
    exact List.perm_middle.trans (List.perm_append_singleton _ _).symm
  · -- the removed element is the last one
    have hi : i = ys.length := by simp at hi; omega
    subst hi
    simp [List.eraseIdx_eq_take_drop_succ]

-- `BTreeSet` under an ordering `cmp`, as the list of its elements: elements that `cmp` finds equal
-- are one element, and `insert` keeps the one already there.

namespace BTreeSet

def insert (cmp : α → α → Ordering) (a : α) (s : List α) : List α :=
  if s.any (fun b => cmp a b == .eq) then s else a :: s

def remove (cmp : α → α → Ordering) (a : α) (s : List α) : List α :=
  s.filter fun b => cmp a b != .eq

-- `iter().next_back()`: the greatest element.
def last (cmp : α → α → Ordering) : List α → Option α
  | [] => none
  | a :: s =>
    match last cmp s with
    | none => some a
    | some b => if cmp a b == .gt then some a else some b

end BTreeSet

end Rust
