import Cil.Bytes
import Cil.Token

/-
  WHAT CAN GO WRONG.

  * `DecodeError`: the bytes are no instruction.  Reading stops there.
  * `Error`: a resolver or a source has no answer.  Rendering goes on, the text shows the reason.
  * `NotAMember`: a token is loaded whose table names neither a type, a method nor a field.  Nothing can
    be shown for it, and rendering is given up.
-/

namespace Cil

/-- The reason a resolver or a source gives for having no answer. -/
inductive Error where
  | malformed (message file : String) (line : Nat)
  | outOfBounds
  | unresolved (token : Token) (expected : String)
  | extraction (message : String)
deriving DecidableEq, Repr

/-- The text for a read past the end. -/
def outOfBoundsText : String := "Out of Bound read would have occurred!"

/-- The text of a reason. -/
def Error.text : Error → String
  | malformed message file line => "Malformed - " ++ file ++ ":" ++ Nat.repr line ++ ": " ++ message
  | outOfBounds => outOfBoundsText
  | unresolved token expected => "Failed to resolve " ++ token.text ++ " as " ++ expected
  | extraction message => "Method body extraction failed - " ++ message

/-- The reason why bytes are no instruction. -/
inductive DecodeError where
  /-- The bytes end inside the instruction. -/
  | outOfBounds
  /-- No opcode is written with these bytes. -/
  | undefinedOpcode (bytes : Bytes)
  /-- A jump table has more cases than there are bytes left for. -/
  | oversizedSwitch (count remaining : Nat)
deriving DecidableEq, Repr

namespace DecodeError

/-- The reason in words. -/
def message : DecodeError → String
  | outOfBounds => outOfBoundsText
  | undefinedOpcode bytes =>
    "Invalid opcode: " ++ " ".intercalate (bytes.map fun b => Hex.fixed .upper 2 b.toNat)
  | oversizedSwitch count remaining =>
    "Switch with " ++ Nat.repr count ++ " cases does not fit in the remaining "
      ++ Nat.repr remaining ++ " bytes"

/-- The reason as the log shows it: bytes that are present and wrong are malformed.  The place in the
    program where they were found to be so, which `Error.malformed` carries as a file and a line and a log
    shows in front of the words, is left out: it says nothing about the bytes. -/
def text : DecodeError → String
  | outOfBounds => outOfBoundsText
  | e => "Malformed - " ++ e.message

end DecodeError

/-- A loaded token that names no type, no method and no field. -/
structure NotAMember where
  token : Token
deriving DecidableEq, Repr

/-- The text for such a token. -/
def NotAMember.text (n : NotAMember) : String := "unexpected token type: " ++ n.token.hex

end Cil
