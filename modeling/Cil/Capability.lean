import Cil.Bytes
import Cil.Member

/-
  WHAT A TOKEN CAN BE ASKED FOR.

  A resolver has five capabilities, and each answers with an entity of its own type.  An instruction
  that carries a token expects one of these, or a member: a type, a method or a field, as the table of
  the token says.
-/

namespace Cil

/-- The kinds of question that a resolver answers. -/
inductive Capability where
  | field
  | method
  | signature
  | string
  | type
deriving DecidableEq, Repr

namespace Capability

/-- Every capability. -/
def all : List Capability := [field, method, signature, string, type]

/-- What an answer consists of: a signature is a run of bytes, a string a run of UTF-16 units. -/
abbrev Entity : Capability → Type
  | field => FieldHeader
  | method => MethodHeader
  | signature => Bytes
  | string => List UInt16
  | type => TypeHeader

/-- The word for what is asked. -/
def word : Capability → String
  | field => "field"
  | method => "method"
  | signature => "signature"
  | string => "string"
  | type => "type"

end Capability

/-- What the token of an instruction is expected to name. -/
inductive Reference where
  | entity (c : Capability)
  | member
deriving DecidableEq, Repr

end Cil
