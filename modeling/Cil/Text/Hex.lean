/-
  HEXADECIMAL NUMERALS.

  Two forms are in use.  `fixed c w n` has exactly `w` digits, whatever `n` is: it shows a machine
  word of `4 * w` bits, and a word read as a signed number shows its two's complement.  `atLeast w n`
  has `w` digits or more: it shows a position, filled up with zeros while it is short and written
  out in full once it is long.
-/

namespace Cil.Hex

/-- The two alphabets: `a` to `f`, or `A` to `F`, for the digits from ten on. -/
inductive Case where
  | lower
  | upper
deriving DecidableEq, Repr

/-- The digit of value `d`, for `d < 16`. -/
def digit : Case → Nat → Char
  | .lower, d => Nat.digitChar d
  | .upper, d => (Nat.digitChar d).toUpper

/-- The lowest `w` digits of `n`, the most significant first. -/
def digits (c : Case) : Nat → Nat → List Char
  | 0, _ => []
  | w + 1, n => digits c w (n / 16) ++ [digit c (n % 16)]

@[simp] theorem length_digits (c : Case) (w n : Nat) : (digits c w n).length = w := by
  induction w generalizing n with
  | zero => rfl
  | succ w ih => simp [digits, ih]

/-- Exactly `w` digits: the numeral of `n` modulo `16 ^ w`. -/
def fixed (c : Case) (w n : Nat) : String := String.ofList (digits c w n)

@[simp] theorem toList_fixed (c : Case) (w n : Nat) : (fixed c w n).toList = digits c w n := by
  simp [fixed]

/-- The lower-case numeral of `n`, filled up on the left with zeros to `w` digits. -/
def atLeastDigits (w n : Nat) : List Char :=
  List.replicate (w - (Nat.toDigits 16 n).length) '0' ++ Nat.toDigits 16 n

/-- At least `w` digits, and as many as `n` needs. -/
def atLeast (w n : Nat) : String := String.ofList (atLeastDigits w n)

@[simp] theorem toList_atLeast (w n : Nat) : (atLeast w n).toList = atLeastDigits w n := by
  simp [atLeast]

end Cil.Hex
