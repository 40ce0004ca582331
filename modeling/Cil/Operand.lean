import Cil.Binary
import Cil.Bytes
import Cil.Shape
import Cil.Token

/-
  OPERANDS.

  An operand is the value behind an opcode, with the width and sign that its shape gives it.  Distances
  of jumps are signed; the small constant is not, nor are the numbers of variables; floating-point
  constants are kept as bit patterns.
-/

namespace Cil

/-- The value behind an opcode. -/
inductive Operand where
  | empty
  | shortBranch (delta : Int8)
  | branch (delta : Int32)
  | shortInt (value : UInt8)
  | int (value : Int32)
  | longInt (value : Int64)
  | shortFloat (bits : UInt32)
  | float (bits : UInt64)
  | shortVar (index : UInt8)
  | var (index : UInt16)
  | token (expects : Reference) (token : Token)
  | switch (deltas : List Int32)
deriving DecidableEq, Repr

namespace Operand

/-- The shape that an operand has. -/
def shape : Operand → Shape
  | empty => .empty
  | shortBranch _ => .shortBranch
  | branch _ => .branch
  | shortInt _ => .shortInt
  | int _ => .int
  | longInt _ => .longInt
  | shortFloat _ => .shortFloat
  | float _ => .float
  | shortVar _ => .shortVar
  | var _ => .var
  | token expects _ => .token expects
  | switch _ => .switch

/-- The bytes of an operand, each word with its lowest byte first.  A jump table is the number of its
    cases and then their distances. -/
def encode : Operand → Bytes
  | empty => []
  | shortBranch delta => Bytes.littleEndian 1 delta.toUInt8.toNat
  | branch delta => Bytes.littleEndian 4 delta.toUInt32.toNat
  | shortInt value => Bytes.littleEndian 1 value.toNat
  | int value => Bytes.littleEndian 4 value.toUInt32.toNat
  | longInt value => Bytes.littleEndian 8 value.toUInt64.toNat
  | shortFloat bits => Bytes.littleEndian 4 bits.toNat
  | float bits => Bytes.littleEndian 8 bits.toNat
  | shortVar index => Bytes.littleEndian 1 index.toNat
  | var index => Bytes.littleEndian 2 index.toNat
  | token _ t => Bytes.littleEndian 4 t.value.toNat
  | switch deltas =>
    Bytes.littleEndian 4 deltas.length ++ deltas.flatMap fun d => Bytes.littleEndian 4 d.toUInt32.toNat

/-- How many bytes an operand takes. -/
def size : Operand → Nat
  | empty => 0
  | shortBranch _ | shortInt _ | shortVar _ => 1
  | var _ => 2
  | branch _ | int _ | shortFloat _ | token _ _ => 4
  | longInt _ | float _ => 8
  | switch deltas => 4 + 4 * deltas.length

@[simp] theorem length_encode (o : Operand) : o.encode.length = o.size := by
  cases o with
  | switch deltas =>
    have h : (deltas.flatMap fun d => Bytes.littleEndian 4 d.toUInt32.toNat).length
        = 4 * deltas.length := by
      induction deltas with
      | nil => rfl
      | cons d ds ih => simp only [List.flatMap_cons, List.length_append, ih,
          Bytes.length_littleEndian, List.length_cons]; omega
    rw [encode, List.length_append, h, Bytes.length_littleEndian, size]
  | _ => simp [encode, size]

/-- The token of an operand, if it is one. -/
def token? : Operand → Option Token
  | token _ t => some t
  | _ => none

/-- Equality of values: floating-point constants compare as numbers, so a NaN differs from itself and
    the two zeros are equal. -/
def sameValue : Operand → Operand → Bool
  | shortFloat a, shortFloat b => Binary.single.sameValue a.toNat b.toNat
  | float a, float b => Binary.double.sameValue a.toNat b.toNat
  | a, b => decide (a = b)

/-! ## Texts -/

/-- Floating-point constants in a listing have no power and no `.0`. -/
def floatLayout : Decimal.Layout := ⟨none, false⟩

/-- Floating-point constants in a description always have a point or a power, and a power outside
    `1e-4` to `1e16`. -/
def floatDebugLayout : Decimal.Layout := ⟨some (-4, 15), true⟩

/-- The text of a 32-bit floating-point constant. -/
def shortFloatText (l : Decimal.Layout) (bits : UInt32) : String :=
  (Binary.single.decode bits.toNat).text l

/-- The text of a 64-bit floating-point constant. -/
def floatText (l : Decimal.Layout) (bits : UInt64) : String :=
  (Binary.double.decode bits.toNat).text l

/-- The value inside the parentheses of a description; `none` when there are none. -/
def payloadText? : Operand → Option String
  | empty => none
  | shortBranch delta => some (Int.repr delta.toInt)
  | branch delta => some (Int.repr delta.toInt)
  | shortInt value => some (Nat.repr value.toNat)
  | int value => some (Int.repr value.toInt)
  | longInt value => some (Int.repr value.toInt)
  | shortFloat bits => some (shortFloatText floatDebugLayout bits)
  | float bits => some (floatText floatDebugLayout bits)
  | shortVar index => some (Nat.repr index.toNat)
  | var index => some (Nat.repr index.toNat)
  | token _ t => some t.debugText
  | switch deltas => some ("[" ++ ", ".intercalate (deltas.map fun d => Int.repr d.toInt) ++ "]")

/-- An operand described by its shape and value. -/
def debugText (o : Operand) : String :=
  match o.payloadText? with
  | some payload => o.shape.name ++ "(" ++ payload ++ ")"
  | none => o.shape.name

end Operand

end Cil
