import Cil.Decoder
import Cil.Proofs.Encoding

/-
  A WALK READS THE BODY.

  `Decoder.next_cases` says once what a step can do: put a finished walk back to the start, move behind
  an instruction, or stop at bytes that are none.  Everything else about decoders follows from it.

  A walk gives the instructions that `Instruction.readAll` finds in the bytes from its position on, and
  is stopped by what stops the reading (`walkFrom_eq`).  Walking a whole body therefore succeeds exactly
  on codes written one after another (`decodeAll_grammar`).
-/

namespace Cil.Decoder

open Instruction (read readAll Tiles)

/-- An instruction as a step gives it: in the decoder's style, with no signature fetched. -/
def fresh (style : Style) (i : Instruction) : Listed := { instruction := i, style }

@[simp] theorem map_instruction_fresh (style : Style) (is : List Instruction) :
    (is.map (fresh style)).map Listed.instruction = is := by
  simp [Function.comp_def, fresh]

/-- The decoder behind an instruction that was read at its position. -/
def behind (d : Decoder) {i : Instruction} {rest : Bytes} (h : read d.position d.rest = .ok (i, rest)) :
    Decoder :=
  { d with
    phase := if rest = [] then .exhausted else .decoding
    position := d.position + i.size
    rest
    rest_eq := rest_after h }

/-- The decoder that has met bytes which are no instruction. -/
def stopped (d : Decoder) : Decoder := { d with phase := .exhausted }

/-- What a step can do. -/
theorem next_cases (d : Decoder) :
    ((d.phase = .exhausted ∨ d.rest = []) ∧ d.next =
      ⟨none, d.reset,
        if d.phase = .ready then #[] else #[restartRecord d.position d.body.bytes.length]⟩) ∨
    (d.phase ≠ .exhausted ∧ ∃ i rest, ∃ h : read d.position d.rest = .ok (i, rest), d.next =
      ⟨some (.ok (fresh d.style i)), d.behind h, #[decodedRecord i]⟩) ∨
    (d.phase ≠ .exhausted ∧ d.rest ≠ [] ∧ ∃ e, read d.position d.rest = .error e ∧ d.next =
      ⟨some (.error e), d.stopped, #[abortedRecord d.position e]⟩) := by
  by_cases hend : d.phase = .exhausted ∨ d.rest = []
  · refine .inl ⟨hend, ?_⟩
    rw [next, if_pos hend]
  · -- there are bytes to read: are they an instruction?
    have hgo := not_or.mp hend
    rw [next, if_neg hend]
    split
    · rename_i i rest h
      exact .inr (.inl ⟨hgo.1, i, rest, h, rfl⟩)
    · rename_i e h
      exact .inr (.inr ⟨hgo.1, hgo.2, e, h, rfl⟩)

/-! ## Walks -/

/-- A walk gives what the bytes from its position on hold, and stops where their reading stops.  Only a
    walk that has met its end, and has more bytes to go, would be put back first. -/
theorem walkFrom_eq (d : Decoder) (gathered : Array Listed) (log : Array Record)
    (h : d.phase = .exhausted → d.rest = []) :
    (d.walkFrom gathered log).instructions = gathered.toList ++
      (readAll d.position d.rest).instructions.map (fresh d.style) ∧
    (d.walkFrom gathered log).stop? = (readAll d.position d.rest).stop? := by
  fun_induction walkFrom d gathered log with
  | case1 d gathered log l after records hnext _ ih =>
    -- of the three things that a step can do, one gives an instruction
    rcases d.next_cases with ⟨-, hn⟩ | ⟨-, i, rest, hread, hn⟩ | ⟨-, -, e, -, hn⟩
    all_goals cases hnext.symm.trans hn
    have hafter : (d.behind hread).phase = .exhausted → (d.behind hread).rest = [] := by
      intro hphase
      by_cases hrest : rest = []
      · exact hrest
      · simp [behind, hrest] at hphase
    obtain ⟨hinstructions, hstop⟩ := ih hafter
    rw [Instruction.readAll_of_ok hread]
    exact ⟨by rw [hinstructions]; simp [behind, Instruction.Reading.cons], hstop⟩
  | case2 d gathered log e after records hnext =>
    -- one gives an error
    rcases d.next_cases with ⟨-, hn⟩ | ⟨-, i, rest, hread, hn⟩ | ⟨-, hne, e', hread, hn⟩
    all_goals cases hnext.symm.trans hn
    rw [Instruction.readAll_of_error hread hne]
    simp
  | case3 d gathered log after records hnext =>
    -- and one gives nothing, which it does for want of bytes, as the walk had not met its end before
    rcases d.next_cases with ⟨hend, hn⟩ | ⟨-, i, rest, hread, hn⟩ | ⟨-, -, e, -, hn⟩
    all_goals cases hnext.symm.trans hn
    have hrest : d.rest = [] := hend.elim h id
    simp [hrest]

/-- A walk that is stopped leaves the decoder behind the instructions that it gave. -/
theorem position_walkFrom (d : Decoder) (gathered : Array Listed) (log : Array Record) {e : DecodeError}
    (hstop : (d.walkFrom gathered log).stop? = some e) :
    (d.walkFrom gathered log).decoder.position
      = d.position + ((readAll d.position d.rest).instructions.flatMap Instruction.encode).length := by
  fun_induction walkFrom d gathered log with
  | case1 d gathered log l after records hnext _ ih =>
    rcases d.next_cases with ⟨-, hn⟩ | ⟨-, i, rest, hread, hn⟩ | ⟨-, -, e, -, hn⟩
    all_goals cases hnext.symm.trans hn
    rw [ih hstop, Instruction.readAll_of_ok hread]
    simp [behind, Instruction.Reading.cons, Nat.add_assoc]
  | case2 d gathered log e after records hnext =>
    -- the error is met where the walk stands
    rcases d.next_cases with ⟨-, hn⟩ | ⟨-, i, rest, hread, hn⟩ | ⟨-, hne, e', hread, hn⟩
    all_goals cases hnext.symm.trans hn
    rw [Instruction.readAll_of_error hread hne]
    rfl
  | case3 d gathered log after records hnext => cases hstop

/-- Walking a whole body is reading its bytes from the start. -/
theorem decodeAll_eq (d : Decoder) :
    d.decodeAll.instructions =
      (readAll 0 d.body.bytes).instructions.map (fresh d.style) ∧
    d.decodeAll.stop? = (readAll 0 d.body.bytes).stop? := by
  have h := d.reset.walkFrom_eq #[] #[] (by simp [reset])
  simpa [reset, decodeAll, drain] using h

theorem decodeAll_outcome_eq_ok_iff {d : Decoder} {xs : List Listed} :
    d.decodeAll.outcome = .ok xs ↔ (readAll 0 d.body.bytes).stop? = none ∧
      xs = (readAll 0 d.body.bytes).instructions.map (fresh d.style) := by
  obtain ⟨hinstructions, hstop⟩ := d.decodeAll_eq
  rw [Walk.outcome, hinstructions, hstop]
  cases (readAll 0 d.body.bytes).stop? with
  | none => simp [eq_comm]
  | some e => simp

theorem decodeAll_outcome_eq_error_iff {d : Decoder} {e : DecodeError} :
    d.decodeAll.outcome = .error e ↔ (readAll 0 d.body.bytes).stop? = some e := by
  obtain ⟨-, hstop⟩ := d.decodeAll_eq
  rw [Walk.outcome, hstop]
  cases (readAll 0 d.body.bytes).stop? with
  | none => simp
  | some e' => simp

/-! Walks over bytes from their start, which show also where they were stopped. -/

theorem decodeAll_ofBytes_eq_ok_iff {bytes : Bytes} {style : Style} {xs : List Listed} :
    (ofBytes bytes style).decodeAll.outcome = .ok xs ↔ (readAll 0 bytes).stop? = none ∧
      xs = (readAll 0 bytes).instructions.map (fresh style) :=
  decodeAll_outcome_eq_ok_iff

theorem decodeAll_ofBytes_of_readAll {bytes : Bytes} {is : List Instruction}
    (h : readAll 0 bytes = ⟨is, none⟩) (style : Style) :
    (ofBytes bytes style).decodeAll.outcome = .ok (is.map (fresh style)) := by
  rw [decodeAll_ofBytes_eq_ok_iff, h]
  exact ⟨rfl, rfl⟩

theorem decodeAll_ofBytes_eq_error_iff {bytes : Bytes} {style : Style} {e : DecodeError} :
    (ofBytes bytes style).decodeAll.outcome = .error e ↔ (readAll 0 bytes).stop? = some e :=
  decodeAll_outcome_eq_error_iff

theorem instructions_drain_ofBytes (bytes : Bytes) (style : Style) :
    (ofBytes bytes style).drain.instructions = (readAll 0 bytes).instructions.map (fresh style) :=
  ((ofBytes bytes style).walkFrom_eq #[] #[] nofun).1

theorem stop?_drain_ofBytes (bytes : Bytes) (style : Style) :
    (ofBytes bytes style).drain.stop? = (readAll 0 bytes).stop? :=
  ((ofBytes bytes style).walkFrom_eq #[] #[] nofun).2

theorem position_drain_ofBytes {bytes : Bytes} {e : DecodeError}
    (h : (readAll 0 bytes).stop? = some e) (style : Style) :
    (ofBytes bytes style).drain.decoder.position
      = ((readAll 0 bytes).instructions.flatMap Instruction.encode).length := by
  rw [← stop?_drain_ofBytes bytes style] at h
  have hposition := (ofBytes bytes style).position_walkFrom #[] #[] h
  rwa [show (ofBytes bytes style).position = 0 from rfl, Nat.zero_add] at hposition

/-- **The grammar of a body.**  Walking a body succeeds exactly if its bytes are codes written one after
    another.  There is then one way only to write them so, the instructions have those codes in order,
    and they tile the body from its start to its end. -/
theorem decodeAll_grammar (d : Decoder) :
    ((∃ xs, d.decodeAll.outcome = .ok xs) ↔ ∃ cs, d.body.bytes = Code.encodeAll cs) ∧
    ∀ xs, d.decodeAll.outcome = .ok xs → ∃ cs,
      (∀ cs', d.body.bytes = Code.encodeAll cs' ↔ cs' = cs) ∧
      xs.map (·.instruction.parts) = cs.map Code.parts ∧
      Tiles 0 (xs.map Listed.instruction) d.body.bytes.length := by
  constructor
  · constructor
    · rintro ⟨xs, h⟩
      exact Instruction.eq_encodeAll_of_readAll (decodeAll_outcome_eq_ok_iff.mp h).1
    · rintro ⟨cs, hcs⟩
      refine ⟨_, decodeAll_outcome_eq_ok_iff.mpr ⟨?_, rfl⟩⟩
      rw [hcs, Instruction.readAll_encodeAll]
  · intro xs h
    obtain ⟨hstop, rfl⟩ := decodeAll_outcome_eq_ok_iff.mp h
    obtain ⟨cs, hcs⟩ := Instruction.eq_encodeAll_of_readAll hstop
    refine ⟨cs, fun cs' => ?_, ?_, ?_⟩
    · rw [hcs, Code.encodeAll_injective.eq_iff, eq_comm]
    · rw [hcs, Instruction.readAll_encodeAll, List.map_map]
      exact Instruction.map_parts_place cs 0
    · rw [hcs, Instruction.readAll_encodeAll, map_instruction_fresh]
      simpa using Instruction.tiles_place cs 0

/-- A backward `br.s` and an escaped `ldarg`. -/
theorem decodeAll_grammar_branch_ldarg :
    ∃ xs, (ofBytes [0x2B, 0xF0, 0xFE, 0x09, 0x02, 0x01] .standard).decodeAll.outcome = .ok xs ∧
      xs.map (·.instruction.parts) = [(⟨0x2B, "br.s", .shortBranch⟩, .shortBranch (-16)),
        (⟨0xFE09, "ldarg", .var⟩, .var 0x0102)] ∧
      Tiles 0 (xs.map Listed.instruction) 6 := by
  have h := decodeAll_grammar (ofBytes [0x2B, 0xF0, 0xFE, 0x09, 0x02, 0x01] .standard)
  let cs : List Code :=
    [⟨⟨0x2B, "br.s", .shortBranch⟩, .shortBranch (-16), ⟨by decide +kernel, rfl, by simp⟩⟩,
     ⟨⟨0xFE09, "ldarg", .var⟩, .var 0x0102, ⟨by decide +kernel, rfl, by simp⟩⟩]
  obtain ⟨xs, hxs⟩ := h.1.mpr ⟨cs, rfl⟩
  obtain ⟨cs', hunique, hparts, htiles⟩ := h.2 xs hxs
  rw [← (hunique cs).mp rfl] at hparts
  exact ⟨xs, hxs, hparts, htiles⟩

end Cil.Decoder
