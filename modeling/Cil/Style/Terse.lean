import Cil.Style

/-
  TERSE CONVENTIONS.

  A replacement for each convention, which can be told from the standard one at a glance.  They are what
  listings in the standard style are compared with: where one of them is put in, alone or with others, its
  marks show which texts that convention has a part in.

  A line is three fields divided by bars, and runs of things are shown by their number only.
-/

namespace Cil.Style

/-- Lower-case digits followed by an `h`. -/
def terseHex (width n : Nat) : String := Hex.fixed .lower width n ++ "h"

/-- Offset, mnemonic and operand, where the digits stand in for an operand that has no text. -/
def terseLine (v : View) : Writing :=
  .operand fun operand => .done
    (Nat.repr v.instruction.offset ++ "|" ++ v.instruction.opcode.name ++ "|" ++
      match operand with
      | .ok text => text
      | .error _ => v.conventions.rawText v.instruction.operand)

/-- Every convention replaced. -/
def terse : Overrides where
  hex8 := some fun n => terseHex 2 n.toNat
  hex16 := some fun n => terseHex 4 n.toNat
  hex32 := some fun n => terseHex 8 n.toNat
  hex64 := some fun n => terseHex 16 n.toNat
  slot := some fun n => "arg" ++ Nat.repr n.toNat
  label := some fun position => "L" ++ Int.repr position.toInt
  labels := some fun positions => "[" ++ Nat.repr positions.length ++ " labels]"
  quoted := some fun units => "<" ++ Nat.repr units.length ++ " units>"
  signature := some fun bytes => "[" ++ Nat.repr bytes.length ++ " bytes]"
  line := some terseLine

end Cil.Style
