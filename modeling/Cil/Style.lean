import Cil.Error
import Cil.Instruction
import Cil.Record
import Cil.Text.Hex
import Cil.Text.Quoted
import Cil.Text.Utf16

/-
  STYLES.

  A style is the set of conventions by which a listing is written: how words, variables, positions,
  strings and signatures look, and how a line comes about.  The conventions lean on each other: a
  list of positions is written with the convention for one position, a signature with the one for a
  byte, and a line shows the reason why its operand has no text as a string.  `Overrides` replaces some
  of the conventions; those that are left lean on the replacements.

  The convention for lines is given the instruction, and it is up to the convention what becomes of it:
  whoever writes a line may ask for the text of the operand, or for the signature, or do without.  So it
  does not give a text but a `Writing`, the steps by which one comes about.
-/

namespace Cil

/-! ## Conventions -/

/-- The conventions for what stands in a line. -/
structure Conventions where
  hex8 : UInt8 → String
  hex16 : UInt16 → String
  hex32 : UInt32 → String
  hex64 : UInt64 → String
  /-- A local variable or an argument, by number. -/
  slot : UInt16 → String
  /-- A position. -/
  label : Int64 → String
  /-- The positions of a jump table. -/
  labels : List Int64 → String
  /-- The UTF-16 units of a string. -/
  quoted : List UInt16 → String
  /-- The bytes of a signature. -/
  signature : Bytes → String

/-- The digits of an operand; a jump table has none to show. -/
def Conventions.rawText (c : Conventions) : Operand → String
  | .empty => ""
  | .shortBranch delta => c.hex8 delta.toUInt8
  | .branch delta => c.hex32 delta.toUInt32
  | .shortInt value => c.hex8 value
  | .int value => c.hex32 value.toUInt32
  | .longInt value => c.hex64 value.toUInt64
  | .shortFloat bits => c.hex32 bits
  | .float bits => c.hex64 bits
  | .shortVar index => c.hex8 index
  | .var index => c.hex16 index
  | .token _ t => c.hex32 t.value
  | .switch _ => "..."

/-- What can be seen of an instruction without asking anybody. -/
structure View where
  instruction : Instruction
  /-- The conventions that the instruction itself is written in. -/
  conventions : Conventions

/-- How a line comes about.  On the way records may be logged, and the instruction may be asked for the
    text of its operand and for its signature, any number of times; the rest depends on what it says. -/
inductive Writing where
  | done (text : String)
  | report (records : Array Record) (next : Writing)
  | operand (next : Except Error String → Writing)
  | signature (next : Except Error Bytes → Writing)

/-- The conventions of a listing. -/
structure Style extends Conventions where
  line : View → Writing

/-! ## Lines -/

/-- What a line is put together from. -/
structure Parts where
  offset : Nat
  mnemonic : String
  /-- The text of the operand, or the reason why there is none. -/
  operand : Except Error String

/-- A line with what writing it puts into the log. -/
structure Line where
  text : String
  log : Array Record := #[]
deriving DecidableEq, Repr

/-- A line that is there is logged and done. -/
def Line.writing (line : Line) : Writing := .report line.log (.done line.text)

namespace Style

/-! ## The standard conventions -/

/-- A variable is a `V` with its number. -/
def standardSlot (n : UInt16) : String := "V_" ++ Nat.repr n.toNat

/-- A position is written in lower-case hexadecimal with at least four digits, and with a minus sign if
    it lies before the body. -/
def standardLabel (position : Int64) : String :=
  (if position.toInt < 0 then "IL_-" else "IL_") ++ Hex.atLeast 4 position.toInt.natAbs

/-- Positions stand in parentheses. -/
def standardLabels (label : Int64 → String) (positions : List Int64) : String :=
  "(" ++ ", ".intercalate (positions.map label) ++ ")"

/-- A signature shows its bytes in order. -/
def standardSignature (hex8 : UInt8 → String) (bytes : Bytes) : String :=
  "SIG [" ++ " ".intercalate (bytes.map hex8) ++ "]"

/-- The column that mnemonics fill; longer ones are written in full. -/
def mnemonicColumn (mnemonic : String) : String :=
  mnemonic ++ String.ofList (List.replicate (10 - mnemonic.length) ' ')

/-- What stands for an operand that has no text: the reason, quoted, between exclamation marks. -/
def marker (quoted : List UInt16 → String) (e : Error) : String :=
  "!" ++ quoted (Utf16.encode e.text) ++ "!"

/-- A line is the offset, the mnemonic and the operand.  An operand that has no text is logged. -/
def standardLine (quoted : List UInt16 → String) (p : Parts) : Line :=
  let start := "IL_" ++ Hex.atLeast 4 p.offset ++ ": " ++ mnemonicColumn p.mnemonic ++ " "
  match p.operand with
  | .ok text => { text := start ++ text }
  | .error e =>
    { text := start ++ marker quoted e
      log := #[⟨.debug, "Operand of " ++ p.mnemonic ++ " at offset " ++ Nat.repr p.offset
        ++ " did not resolve: " ++ e.text⟩] }

/-- The text of the operand is asked for once, and the line made of it. -/
def standardWriting (quoted : List UInt16 → String) (v : View) : Writing :=
  .operand fun operand => (standardLine quoted
    { offset := v.instruction.offset, mnemonic := v.instruction.opcode.name, operand }).writing

/-! ## Overrides -/

/-- Replacements for some of the conventions. -/
structure Overrides where
  hex8 : Option (UInt8 → String) := none
  hex16 : Option (UInt16 → String) := none
  hex32 : Option (UInt32 → String) := none
  hex64 : Option (UInt64 → String) := none
  slot : Option (UInt16 → String) := none
  label : Option (Int64 → String) := none
  labels : Option (List Int64 → String) := none
  quoted : Option (List UInt16 → String) := none
  signature : Option (Bytes → String) := none
  line : Option (View → Writing) := none

/-- The style with some conventions replaced and the standard ones built on what is then in use. -/
def ofOverrides (o : Overrides) : Style :=
  let hex8 := o.hex8.getD fun b => Hex.fixed .upper 2 b.toNat
  let label := o.label.getD standardLabel
  let quoted := o.quoted.getD Quoted.encode
  { hex8
    hex16 := o.hex16.getD fun n => Hex.fixed .upper 4 n.toNat
    hex32 := o.hex32.getD fun n => Hex.fixed .upper 8 n.toNat
    hex64 := o.hex64.getD fun n => Hex.fixed .upper 16 n.toNat
    slot := o.slot.getD standardSlot
    label
    labels := o.labels.getD (standardLabels label)
    quoted
    signature := o.signature.getD (standardSignature hex8)
    line := o.line.getD (standardWriting quoted) }

/-- The style without replacements. -/
def standard : Style := ofOverrides {}

end Style

end Cil
