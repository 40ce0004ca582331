import Cil.Decoder

/-
  SESSIONS.

  A session inspects one body by hand: a decoder, the instructions kept from it so far, and the world
  that rendering runs in.  Each command gives one reply.  A command that names an instruction which is
  not kept changes nothing, and a rendering that is given up changes no instruction.
-/

namespace Cil

/-- A decoder, the instructions kept from it, and the world they are rendered in. -/
structure Session (σ : Type) where
  decoder : Decoder
  kept : Array Listed := #[]
  world : World σ

namespace Session

variable {σ : Type}

/-- What can be done next. -/
inductive Command where
  /-- One step of the decoder; an instruction is kept. -/
  | next
  /-- Steps up to the end, from where the decoder is; the instructions are kept. -/
  | drain
  /-- The whole body; the instructions are kept. -/
  | decodeAll
  | lines
  | text
  | reset
  /-- The style of the instructions decoded from now on. -/
  | useStyle (style : Style)
  | line (index : Nat)
  /-- The line of a kept instruction in another style. -/
  | lineIn (index : Nat) (style : Style)
  | operand (index : Nat)
  | raw (index : Nat)
  | signature (index : Nat)
  | inspect (index : Nat)
  /-- Keeps a copy, which remembers what the instruction remembers. -/
  | copy (index : Nat)
  /-- The style of a kept instruction. -/
  | restyle (index : Nat) (style : Style)
  /-- A position, as a kept instruction writes it. -/
  | label (index : Nat) (position : Int64)
  /-- Whether two kept instructions have the same operand and the same opcode. -/
  | compare (index other : Nat)

/-- What a command leads to. -/
inductive Reply where
  | done
  | instruction (l : Listed)
  | number (n : Nat)
  | text (s : String)
  | lines (ls : List String)
  | bytes (bs : Bytes)
  | same (operands opcodes : Bool)
  | undecodable (e : DecodeError)
  | failed (e : Error)
  | givenUp (n : NotAMember)
  | notKept

/-- A text, or the reason why there is none. -/
def Reply.ofText : Except Error String → Reply
  | .ok s => text s
  | .error e => failed e

/-- Bytes, or the reason why there are none. -/
def Reply.ofBytes : Except Error Bytes → Reply
  | .ok bs => bytes bs
  | .error e => failed e

/-- Writes records to the log. -/
def report (s : Session σ) (records : Array Record) : Session σ :=
  { s with world := { s.world with log := s.world.log ++ records } }

/-- Looks at a kept instruction. -/
def withKept (s : Session σ) (index : Nat) (look : Listed → Reply) : Reply × Session σ :=
  match s.kept[index]? with
  | some l => (look l, s)
  | none => (.notKept, s)

/-- Renders a kept instruction, which may then remember more. -/
def renderKept (s : Session σ) (index : Nat) (render : Listed → Render σ (Reply × Listed)) :
    Reply × Session σ :=
  match s.kept[index]? with
  | none => (.notKept, s)
  | some l =>
    match (render l).run.run s.world with
    | (.ok (reply, l), world) => (reply, { s with kept := s.kept.setIfInBounds index l, world })
    | (.error n, world) => (.givenUp n, { s with world })

/-- Keeps the instructions of a walk. -/
def keepWalk (s : Session σ) (walk : Decoder.Walk) : Reply × Session σ :=
  let s := { s with decoder := walk.decoder }.report walk.log
  match walk.outcome with
  | .ok listed => (.number listed.length, { s with kept := s.kept ++ listed })
  | .error e => (.undecodable e, s)

/-- Renders the whole body.  The decoder is done with it before the rendering, and is left as walking
    over the body leaves it, also if the rendering is given up. -/
def renderBody {α : Type} (s : Session σ) (render : Render σ (Except DecodeError α))
    (reply : α → Reply) : Reply × Session σ :=
  match render.run.run s.world with
  | (result, world) =>
    let s := { s with decoder := s.decoder.decodeAll.decoder, world }
    match result with
    | .ok (.ok a) => (reply a, s)
    | .ok (.error e) => (.undecodable e, s)
    | .error n => (.givenUp n, s)

/-- Carries out a command. -/
def run (r : Resolver σ) (s : Session σ) : Command → Reply × Session σ
  | .next =>
    let step := s.decoder.next
    let s := { s with decoder := step.decoder }.report step.log
    match step.item with
    | none => (.done, s)
    | some (.ok l) => (.instruction l, { s with kept := s.kept.push l })
    | some (.error e) => (.undecodable e, s)
  | .drain => s.keepWalk s.decoder.drain
  | .decodeAll => s.keepWalk s.decoder.decodeAll
  | .lines => s.renderBody (s.decoder.lines r) .lines
  | .text => s.renderBody (s.decoder.text r) .text
  | .reset => (.done, { s with decoder := s.decoder.reset })
  | .useStyle style => (.done, { s with decoder := s.decoder.withStyle style })
  | .line index => s.renderKept index fun l => return (← l.line r).map .text id
  | .lineIn index style => s.renderKept index fun l => return (← l.lineIn r style).map .text id
  | .operand index => s.renderKept index fun l => return (← l.operandText r).map .ofText id
  | .signature index => s.renderKept index fun l => return (← l.signature r).map .ofBytes id
  | .raw index => s.withKept index fun l => .text l.rawText
  | .inspect index => s.withKept index .instruction
  | .label index position => s.withKept index fun l => .text (l.style.label position)
  | .compare index other =>
    s.withKept index fun l =>
      match s.kept[other]? with
      | some l' =>
        .same (l.instruction.operand.sameValue l'.instruction.operand)
          (decide (l.instruction.opcode = l'.instruction.opcode))
      | none => .notKept
  | .copy index =>
    match s.kept[index]? with
    | some l => (.number s.kept.size, { s with kept := s.kept.push l })
    | none => (.notKept, s)
  | .restyle index style =>
    match s.kept[index]? with
    | some l => (.done, { s with kept := s.kept.setIfInBounds index { l with style } })
    | none => (.notKept, s)

end Session

end Cil
