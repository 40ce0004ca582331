import Cil.Instruction
import Cil.Resolver
import Cil.Style

/-
  LISTED INSTRUCTIONS.

  An instruction that is to be shown has a style, and it remembers its signature: the bytes that a
  resolver once answered for its token.  Only a call through a signature has one to remember.  A failed
  request is not remembered, so it is made again the next time.

  Every operation that may ask gives back the instruction as it is afterwards.  A copy taken before is
  not affected by it.
-/

namespace Cil

/-- An instruction with the style to show it in and the signature fetched for it. -/
structure Listed where
  instruction : Instruction
  style : Style
  signature? : Option Bytes := none

namespace Listed

variable {σ : Type}

/-- The digits of the operand. -/
def rawText (l : Listed) : String := l.style.rawText l.instruction.operand

/-- What there is to see of it. -/
def view (l : Listed) : View := { instruction := l.instruction, conventions := l.style.toConventions }

/-- The signature of a call through one: the remembered bytes, or those that the resolver answers. -/
def signature (r : Resolver σ) (l : Listed) : Render σ (Except Error Bytes × Listed) :=
  match l.signature? with
  | some bytes => return (.ok bytes, l)
  | none =>
    match l.instruction.operand with
    | .token (.entity .signature) t => do
      match ← Render.ask r .signature t with
      | .ok bytes => return (.ok bytes, { l with signature? := some bytes })
      | .error e => return (.error e, l)
    | operand =>
      return (.error (.unresolved (operand.token?.getD ⟨0⟩) Capability.signature.word), l)

/-- A method operand: what follows the first space of the method's text, behind the declaring type. -/
def methodText (m : MethodHeader) : String :=
  m.declaring.getD "" ++ "::" ++ String.ofList ((m.text.toList.dropWhile (· ≠ ' ')).drop 1)

/-- The text of the operand, or the reason why it has none. -/
def operandText (r : Resolver σ) (l : Listed) : Render σ (Except Error String × Listed) :=
  match l.instruction.operand with
  | .empty => return (.ok "", l)
  | .shortBranch delta =>
    return (.ok (l.style.label (l.instruction.endPosition + delta.toInt64)), l)
  | .branch delta => return (.ok (l.style.label (l.instruction.endPosition + delta.toInt64)), l)
  | .shortInt value => return (.ok (Nat.repr value.toNat), l)
  | .int value => return (.ok (Int.repr value.toInt), l)
  | .longInt value => return (.ok (Int.repr value.toInt), l)
  | .shortFloat bits => return (.ok (Operand.shortFloatText Operand.floatLayout bits), l)
  | .float bits => return (.ok (Operand.floatText Operand.floatLayout bits), l)
  | .shortVar index => return (.ok (l.style.slot (UInt16.ofNat index.toNat)), l)
  | .var index => return (.ok (l.style.slot index), l)
  | .token (.entity .string) t =>
    return ((← Render.ask r .string t).map l.style.quoted, l)
  | .token (.entity .signature) _ => do
    let (bytes, l) ← l.signature r
    return (bytes.map l.style.signature, l)
  | .token (.entity .method) t =>
    return ((← Render.ask r .method t).map methodText, l)
  | .token (.entity .field) t =>
    return ((← Render.ask r .field t).map fun f => f.text ++ "/" ++ f.declaring.getD "", l)
  | .token (.entity .type) t =>
    return ((← Render.ask r .type t).map TypeHeader.text, l)
  | .token .member t =>
    return ((← Render.askMember r t).map fun m => m.text ++ "/" ++ m.declaring.getD "", l)
  | .switch _ => return (.ok (l.style.labels l.instruction.targets), l)

/-- Writes a line, step by step, and answers what is asked on the way. -/
def write (r : Resolver σ) : Writing → Listed → Render σ (String × Listed)
  | .done text, l => return (text, l)
  | .report records next, l => do
    Render.report records
    write r next l
  | .operand next, l => do
    let (operand, l) ← l.operandText r
    write r (next operand) l
  | .signature next, l => do
    let (bytes, l) ← l.signature r
    write r (next bytes) l

/-- The line of the instruction in a given style; the operand is still written in its own. -/
def lineIn (r : Resolver σ) (style : Style) (l : Listed) : Render σ (String × Listed) :=
  l.write r (style.line l.view)

/-- The line of the instruction. -/
def line (r : Resolver σ) (l : Listed) : Render σ (String × Listed) := l.lineIn r l.style

end Listed

end Cil
