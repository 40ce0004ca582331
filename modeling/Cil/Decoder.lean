import Cil.Instruction.Decode
import Cil.Listed
import Cil.Source

/-
  THE DECODER.

  A decoder walks a body from its start, one instruction at a time.  A walk ends behind the last byte or
  at bytes that are no instruction.  The step after that gives nothing and puts the decoder back to the
  start, so it can be walked again.

  The position is kept together with the bytes from there on, so that a step costs what it reads.  The
  proof field `rest_eq` ties the two to each other.
-/

namespace Cil

/-- Where a decoder is in its walk. -/
inductive Phase where
  | ready
  | decoding
  | exhausted
deriving DecidableEq, Repr

/-- The name of a phase. -/
def Phase.name : Phase → String
  | ready => "Ready"
  | decoding => "Decoding"
  | exhausted => "Exhausted"

/-- A walk over a body. -/
structure Decoder where
  body : Body
  style : Style
  phase : Phase := .ready
  position : Nat := 0
  /-- The bytes from the position on. -/
  rest : Bytes := body.bytes
  rest_eq : rest = body.bytes.drop position := by rfl

namespace Decoder

variable {σ : Type}

/-- A walk over bytes that are known to be finished. -/
def ofBytes (bytes : Bytes) (style : Style) : Decoder := { body := { bytes }, style }

/-- A walk over the body of a source. -/
def ofSource (source : Source) (style : Style) : Decoder := { body := source.body, style }

/-- Back to the start. -/
def reset (d : Decoder) : Decoder := { body := d.body, style := d.style }

/-- The style of the instructions from now on. -/
def withStyle (d : Decoder) (style : Style) : Decoder := { d with style }

/-! ## One step -/

/-- What a step gives: an instruction, the reason why there is none, or nothing at the end; the decoder
    afterwards; and what goes into the log. -/
structure Step where
  item : Option (Except DecodeError Listed)
  decoder : Decoder
  log : Array Record

/-- The record of an instruction. -/
def decodedRecord (i : Instruction) : Record :=
  ⟨.trace, "IL_" ++ Hex.atLeast 4 i.offset ++ ": " ++ i.opcode.name ++ " (" ++ Nat.repr i.size
    ++ " bytes)"⟩

/-- The record of a walk that stops at a position, without the place in the program that noticed it
    (`DecodeError.text`). -/
def abortedRecord (position : Nat) (e : DecodeError) : Record :=
  ⟨.debug, "Decoding aborted at offset " ++ Nat.repr position ++ ": " ++ e.text⟩

/-- The record of a walk that ended at a position of `size` and is put back to the start. -/
def restartRecord (position size : Nat) : Record :=
  ⟨.debug, "Decoder restarting after " ++ Nat.repr position ++ " of " ++ Nat.repr size ++ " bytes"⟩

theorem rest_after {d : Decoder} {i : Instruction} {rest : Bytes}
    (h : Instruction.read d.position d.rest = .ok (i, rest)) :
    rest = d.body.bytes.drop (d.position + i.size) := by
  have hbs := (Instruction.read_eq_ok h).2.2
  rw [← List.drop_drop, ← d.rest_eq, hbs, ← Instruction.length_encode, List.drop_left]

/-- The next instruction. -/
def next (d : Decoder) : Step :=
  if d.phase = .exhausted ∨ d.rest = [] then
    { item := none
      decoder := d.reset
      log := if d.phase = .ready then #[] else #[restartRecord d.position d.body.bytes.length] }
  else
    match h : Instruction.read d.position d.rest with
    | .ok (i, rest) =>
      { item := some (.ok { instruction := i, style := d.style })
        decoder :=
          { d with
            phase := if rest = [] then .exhausted else .decoding
            position := d.position + i.size
            rest
            rest_eq := rest_after h }
        log := #[decodedRecord i] }
    | .error e =>
      { item := some (.error e)
        decoder := { d with phase := .exhausted }
        log := #[abortedRecord d.position e] }

/-- A step that gives an instruction leaves fewer bytes. -/
theorem length_rest_next_lt {d : Decoder} {l : Listed} (h : d.next.item = some (.ok l)) :
    d.next.decoder.rest.length < d.rest.length := by
  unfold next at h ⊢
  split at h
  · simp at h
  · rename_i hgo
    rw [if_neg hgo]
    split at h
    · rename_i i rest hread
      have hbs := (Instruction.read_eq_ok hread).2.2
      have hpos := i.size_pos
      have hlen := congrArg List.length hbs
      rw [List.length_append, Instruction.length_encode] at hlen
      show rest.length < d.rest.length
      omega
    · simp at h

/-! ## Whole walks -/

/-- What a walk to its end gives: the instructions, and what stopped it before the end of the body, if
    anything did. -/
structure Walk where
  instructions : List Listed
  stop? : Option DecodeError
  decoder : Decoder
  log : Array Record

/-- The instructions of a walk that was not stopped. -/
def Walk.outcome (w : Walk) : Except DecodeError (List Listed) :=
  match w.stop? with
  | none => .ok w.instructions
  | some e => .error e

/-- Steps until there is nothing more or no instruction, behind what was gathered before. -/
def walkFrom (d : Decoder) (gathered : Array Listed) (log : Array Record) : Walk :=
  match h : d.next with
  | ⟨some (.ok l), after, records⟩ =>
    have : after.rest.length < d.rest.length := by
      simpa [h] using length_rest_next_lt (d := d) (l := l) (by rw [h])
    after.walkFrom (gathered.push l) (log ++ records)
  | ⟨some (.error e), after, records⟩ => ⟨gathered.toList, some e, after, log ++ records⟩
  | ⟨none, after, records⟩ => ⟨gathered.toList, none, after, log ++ records⟩
termination_by d.rest.length

/-- Steps from here until there is nothing more or no instruction. -/
def drain (d : Decoder) : Walk := d.walkFrom #[] #[]

/-- Every instruction of the body; the decoder is put back to the start before and after. -/
def decodeAll (d : Decoder) : Walk :=
  let walk := d.reset.drain
  { walk with decoder := walk.decoder.reset }

/-- The lines of the body, or the reason why it is none. -/
def lines (r : Resolver σ) (d : Decoder) : Render σ (Except DecodeError (List String)) := do
  let walk := d.decodeAll
  Render.report walk.log
  match walk.outcome with
  | .error e => return .error e
  | .ok listed => return .ok (← listed.mapM fun l => return (← l.line r).1)

/-- The lines of the body in one text, each with a line feed behind it. -/
def text (r : Resolver σ) (d : Decoder) : Render σ (Except DecodeError String) :=
  return (← d.lines r).map fun lines => String.join (lines.map (· ++ "\n"))

end Decoder

end Cil
