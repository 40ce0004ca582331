import Cil.Decimal.Layout
import Cil.Decimal.Shortest

/-
  BINARY FLOATING POINT, BY BIT PATTERN.

  A floating-point operand is kept as its bits.  `Format.decode` reads them as the interchange format of
  that width: not a number, an infinity, or a sign with `significand * 2 ^ exponent`.

  The numbers read back as `m * 2 ^ q` reach half a gap to either side; the gap below is half as wide
  when `m` is the least significand of its exponent (`narrow`), since there the exponent changes.  In
  quarters of `2 ^ q` the number is `4 * m` and the ends are `4 * m - 2` (or `- 1`) and `4 * m + 2`; the
  ends count as the number when `m` is even.  A quarter of `2 ^ q` is a whole multiple of a power of
  ten, because `2 ^ -p = 5 ^ p * 10 ^ -p`: that makes `window`.
-/

namespace Cil.Binary

/-- A binary interchange format: a sign bit, then the exponent field, then the fraction field. -/
structure Format where
  exponentBits : Nat
  fractionBits : Nat
deriving DecidableEq, Repr

/-- The 32-bit format. -/
def single : Format := ⟨8, 23⟩

/-- The 64-bit format. -/
def double : Format := ⟨11, 52⟩

/-- What a bit pattern stands for. -/
inductive Value where
  | nan
  | infinite (negative : Bool)
  | finite (negative : Bool) (significand : Nat) (exponent : Int) (narrow : Bool)
deriving DecidableEq, Repr

namespace Format

/-- Reads the three fields. -/
def decode (f : Format) (bits : Nat) : Value :=
  -- the bit above the fraction field, which is not written down
  let hidden := 1 <<< f.fractionBits
  let fraction := bits % hidden
  let exponent := bits / hidden % (1 <<< f.exponentBits)
  let negative := decide ((bits >>> (f.fractionBits + f.exponentBits)) % 2 = 1)
  -- the power of the lowest bit when the exponent field is zero or one
  let least : Int := 2 - (1 <<< (f.exponentBits - 1) : Nat) - f.fractionBits
  if exponent = (1 <<< f.exponentBits) - 1 then
    if fraction = 0 then .infinite negative else .nan
  else if exponent = 0 then
    .finite negative fraction least false
  else
    .finite negative (hidden + fraction) (least + (exponent - 1 : Nat))
      (decide (fraction = 0 ∧ 1 < exponent))

/-- Numerical equality of two patterns: no NaN equals anything, and the two zeros are equal. -/
def sameValue (f : Format) (a b : Nat) : Bool :=
  match f.decode a, f.decode b with
  | .nan, _ | _, .nan => false
  | .finite _ 0 .., .finite _ 0 .. => true
  | x, y => decide (x = y)

end Format

/-- How many decimal places a quarter of `2 ^ q` has. -/
def places (q : Int) : Nat := (2 - q).toNat

/-- The number `m * 2 ^ q` and the interval read back as it, in multiples of `10 ^ -(places q)`. -/
def window (m : Nat) (q : Int) (narrow : Bool) : Decimal.Window :=
  let quarter := Nat.pow 5 (places q) <<< (q - 2).toNat
  { low := (4 * m - if narrow then 1 else 2) * quarter
    value := 4 * m * quarter
    high := (4 * m + 2) * quarter
    closed := m % 2 == 0 }

/-- A number other than zero lies in its own interval. -/
theorem accepts_window {m : Nat} (hm : 0 < m) (q : Int) (narrow : Bool) :
    (window m q narrow).accepts (window m q narrow).value = true := by
  have hquarter : 0 < Nat.pow 5 (places q) <<< (q - 2).toNat := by
    rw [Nat.shiftLeft_eq]
    exact Nat.mul_pos (Nat.pow_pos (by decide)) (Nat.pow_pos (by decide))
  have hlow : (window m q narrow).low < (window m q narrow).value := by
    apply (Nat.mul_lt_mul_right hquarter).mpr
    split <;> omega
  have hhigh : (window m q narrow).value < (window m q narrow).high := by
    apply (Nat.mul_lt_mul_right hquarter).mpr
    omega
  exact Decimal.Window.accepts_iff.mpr ⟨Nat.le_of_lt hlow, Nat.le_of_lt hhigh, fun _ => ⟨hlow, hhigh⟩⟩

/-- The decimal that is written for a number other than zero is read back as it, and none with a larger
    power of ten is. -/
theorem shortest_window {m : Nat} (hm : 0 < m) (q : Int) (narrow : Bool) :
    let w := window m q narrow
    w.accepts (w.shortest.1 * Nat.pow 10 w.shortest.2) = true ∧
    ∀ c j, 0 < c → w.accepts (c * Nat.pow 10 j) = true → j ≤ w.shortest.2 :=
  Decimal.Window.shortest_coarsest (accepts_window hm q narrow)

/-- The text of a value: the shortest digits that are read back as it, laid out as asked.  A zero
    keeps its sign, NaN has none. -/
def Value.text (l : Decimal.Layout) : Value → String
  | .nan => "NaN"
  | .infinite negative => if negative then "-inf" else "inf"
  | .finite negative m q narrow =>
    let (c, j) := if m = 0 then (0, places q) else (window m q narrow).shortest
    let digits := l.digits c ((j : Int) - places q)
    String.ofList (if negative then '-' :: digits else digits)

end Cil.Binary
