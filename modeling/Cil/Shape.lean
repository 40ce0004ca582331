import Cil.Capability

/-
  OPERAND SHAPES.

  The shape says how the operand behind an opcode is laid out: nothing, a constant, a number of a
  variable, a distance to jump, a token, or a jump table.  All but the jump table have a fixed width.
-/

namespace Cil

/-- The layout of an operand. -/
inductive Shape where
  | empty
  | shortBranch
  | branch
  | shortInt
  | int
  | longInt
  | shortFloat
  | float
  | shortVar
  | var
  | token (expects : Reference)
  | switch
deriving DecidableEq, Repr

namespace Shape

/-- Every shape. -/
def all : List Shape :=
  [empty, shortBranch, branch, shortInt, int, longInt, shortFloat, float, shortVar, var,
   token (.entity .string), token (.entity .signature), token (.entity .method),
   token (.entity .field), token (.entity .type), token .member, switch]

/-- The name of a shape. -/
def name : Shape → String
  | empty => "None"
  | shortBranch => "ShortBranch"
  | branch => "Branch"
  | shortInt => "ShortInt"
  | int => "Int"
  | longInt => "LongInt"
  | shortFloat => "ShortFloat"
  | float => "Float"
  | shortVar => "ShortVar"
  | var => "Var"
  | token (.entity .string) => "StringToken"
  | token (.entity .signature) => "SignatureToken"
  | token (.entity .method) => "MethodToken"
  | token (.entity .field) => "FieldToken"
  | token (.entity .type) => "TypeToken"
  | token .member => "MemberToken"
  | switch => "Switch"

/-- How many bytes an operand of this shape takes; a jump table says so itself. -/
def width? : Shape → Option Nat
  | empty => some 0
  | shortBranch | shortInt | shortVar => some 1
  | var => some 2
  | branch | int | shortFloat | token _ => some 4
  | longInt | float => some 8
  | switch => none

/-- Whether the operand is a token. -/
def isToken : Shape → Bool
  | token _ => true
  | _ => false

end Shape

end Cil
