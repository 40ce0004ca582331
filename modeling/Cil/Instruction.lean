import Cil.Opcode
import Cil.Operand

/-
  INSTRUCTIONS.

  An instruction is an opcode with its operand, at an offset of its body.  The distance of a jump counts
  from the end of the instruction, so its targets are 64-bit positions that may lie anywhere, also
  before the body.
-/

namespace Cil

/-- An instruction of a body. -/
structure Instruction where
  offset : Nat
  opcode : Opcode
  operand : Operand
deriving DecidableEq, Repr

namespace Instruction

/-- How many bytes the instruction takes. -/
def size (i : Instruction) : Nat := i.opcode.size + i.operand.size

/-- The bytes of the instruction. -/
def encode (i : Instruction) : Bytes := i.opcode.encode ++ i.operand.encode

@[simp] theorem length_encode (i : Instruction) : i.encode.length = i.size := by
  simp [encode, size]

theorem size_pos (i : Instruction) : 0 < i.size := by
  unfold size Opcode.size
  split <;> omega

/-- The position behind the instruction; the greatest one if 64 bits cannot hold it. -/
def endPosition (i : Instruction) : Int64 :=
  if i.offset + i.size < 0x8000000000000000 then Int64.ofNat (i.offset + i.size) else Int64.maxValue

/-- Where a branch goes. -/
def target? (i : Instruction) : Option Int64 :=
  match i.operand with
  | .shortBranch delta => some (i.endPosition + delta.toInt64)
  | .branch delta => some (i.endPosition + delta.toInt64)
  | _ => none

/-- Every position that the instruction may jump to, in the order of its operand. -/
def targets (i : Instruction) : List Int64 :=
  match i.operand with
  | .switch deltas =>
    let behind := i.endPosition
    deltas.map fun d => behind + d.toInt64
  | _ => i.target?.toList

/-- The token that the instruction carries. -/
def token? (i : Instruction) : Option Token := i.operand.token?

/-- The instruction described by its parts. -/
def debugText (i : Instruction) : String :=
  "Instruction \x7b offset: " ++ Nat.repr i.offset ++ ", opcode: \"" ++ i.opcode.name
    ++ "\", operand: " ++ i.operand.debugText ++ ", .. \x7d"

end Instruction

end Cil
