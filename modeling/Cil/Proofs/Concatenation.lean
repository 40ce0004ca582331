import Cil.Proofs.Targets
import Cil.Proofs.Walk

/-
  BODIES ONE BEHIND THE OTHER.

  Reading looks at the bytes from its place on and at nothing before them.  At a place `n` bytes further
  on the same bytes give the same instructions, `n` bytes further on (`readAll_shift`).  And bytes that
  are read to their end are read in the same way whatever stands behind them (`readAll_append`).

  So a body in front of another one is walked first, and then the other one as if it stood alone, but
  for the offsets and the targets, which are counted from the start of both (`decodeAll_append`).
-/

namespace Cil

namespace Instruction

/-! ## Moving an instruction -/

/-- The instruction `n` bytes further on. -/
def shift (n : Nat) (i : Instruction) : Instruction := { i with offset := i.offset + n }

@[simp] theorem size_shift (n : Nat) (i : Instruction) : (i.shift n).size = i.size := rfl

@[simp] theorem encode_shift (n : Nat) (i : Instruction) : (i.shift n).encode = i.encode := rfl

/-- The offset is written into the instruction and is used for nothing else. -/
theorem read_shift (n offset : Nat) (bs : Bytes) :
    read (offset + n) bs = (read offset bs).map fun (i, rest) => (i.shift n, rest) := by
  unfold read
  rcases Opcode.read bs with e | ⟨opcode, rest⟩
  · rfl
  · dsimp only
    rcases Operand.read opcode.shape rest with e | ⟨operand, rest⟩
    · rfl
    · rfl

/-- What stands behind an instruction has no part in its reading. -/
theorem read_append {offset : Nat} {bs rest : Bytes} {i : Instruction}
    (h : read offset bs = .ok (i, rest)) (c : Bytes) : read offset (bs ++ c) = .ok (i, rest ++ c) := by
  obtain ⟨code, rfl, rfl⟩ := exists_code_of_read h
  rw [List.append_assoc]
  exact read_code code offset (rest ++ c)

theorem endPosition_shift {n : Nat} {i : Instruction}
    (h : i.offset + i.size + n < 0x8000000000000000) :
    (i.shift n).endPosition = i.endPosition + Int64.ofNat n := by
  have hmoved : (i.shift n).offset + (i.shift n).size = i.offset + i.size + n := by
    show i.offset + n + i.size = i.offset + i.size + n
    omega
  have hlt : i.offset + i.size < 0x8000000000000000 := by omega
  rw [endPosition, endPosition, hmoved, if_pos hlt, if_pos h, Int64.ofNat_add]

/-- The distances stay the same, so the targets move as far as the instruction does. -/
theorem targets_shift {n : Nat} {i : Instruction} (h : i.offset + i.size + n < 0x8000000000000000) :
    (i.shift n).targets = i.targets.map (· + Int64.ofNat n) := by
  have hsame : (i.shift n).operand = i.operand := rfl
  rw [targets_eq, targets_eq, hsame, endPosition_shift h, List.map_map]
  apply List.map_congr_left
  intro delta _
  show i.endPosition + Int64.ofNat n + delta = i.endPosition + delta + Int64.ofNat n
  rw [Int64.add_assoc, Int64.add_comm (Int64.ofNat n), Int64.add_assoc]

/-- Where nothing overflows, they move so as numbers too. -/
theorem toInt_target_add {n : Nat} {i : Instruction}
    (h : i.offset + i.size + n + 0x80000000 ≤ 0x8000000000000000) {t : Int64} (ht : t ∈ i.targets) :
    (t + Int64.ofNat n).toInt = t.toInt + n := by
  obtain ⟨delta, hlo, hhi, rfl⟩ := exists_delta_of_mem_targets ht
  have hend : i.endPosition.toInt = (i.offset + i.size : Nat) := toInt_endPosition (by omega)
  have hn : (Int64.ofNat n).toInt = n := Int64.toInt_ofNat_of_lt (by omega)
  have htarget : (i.endPosition + delta).toInt = i.endPosition.toInt + delta.toInt :=
    toInt_add_of_bounds (by omega) (by omega)
  rw [toInt_add_of_bounds (by omega) (by omega), hn]

/-! ## Moving a whole reading -/

/-- The reading with every instruction `n` bytes further on. -/
def Reading.shift (n : Nat) (r : Reading) : Reading :=
  { r with instructions := r.instructions.map (Instruction.shift n) }

/-- The reading with more instructions in front. -/
def Reading.after (is : List Instruction) (r : Reading) : Reading :=
  { r with instructions := is ++ r.instructions }

theorem readAll_shift (n offset : Nat) (bs : Bytes) :
    readAll (offset + n) bs = (readAll offset bs).shift n := by
  fun_induction readAll offset bs with
  | case1 offset bs i rest hread _ ih =>
    have hmoved : read (offset + n) bs = .ok (i.shift n, rest) := by
      rw [read_shift, hread]
      rfl
    have hnext : offset + n + i.size = offset + i.size + n := by omega
    rw [readAll_of_ok hmoved, size_shift, hnext, ih]
    rfl
  | case2 offset bs e hread =>
    have hmoved : read (offset + n) bs = .error e := by
      rw [read_shift, hread]
      rfl
    by_cases hnil : bs = []
    · subst hnil
      rw [readAll_nil]
      rfl
    · rw [readAll_of_error hmoved hnil, if_neg hnil]
      rfl

/-- Bytes that are read to their end are read so in front of others, which come next. -/
theorem readAll_append {offset : Nat} {a : Bytes} (h : (readAll offset a).stop? = none) (b : Bytes) :
    readAll offset (a ++ b) = (readAll (offset + a.length) b).after (readAll offset a).instructions := by
  fun_induction readAll offset a with
  | case1 offset bs i rest hread _ ih =>
    have hlen : offset + bs.length = offset + i.size + rest.length := by
      rw [length_of_read hread]
      omega
    rw [readAll_of_ok (read_append hread b), ih h, hlen]
    rfl
  | case2 offset bs e hread =>
    have hnil : bs = [] := by simpa using h
    subst hnil
    rfl

/-- The bytes that are read to their end are those of the instructions. -/
theorem flatMap_encode_readAll {offset : Nat} {bs : Bytes} (h : (readAll offset bs).stop? = none) :
    (readAll offset bs).instructions.flatMap encode = bs := by
  fun_induction readAll offset bs with
  | case1 offset bs i rest hread _ ih =>
    show i.encode ++ (readAll (offset + i.size) rest).instructions.flatMap encode = bs
    rw [ih h, (read_eq_ok hread).2.2]
  | case2 offset bs e hread =>
    have hnil : bs = [] := by simpa using h
    rw [hnil]
    rfl

/-- Every instruction lies within the bytes that it was read from. -/
theorem end_le_of_mem_readAll {offset : Nat} {bs : Bytes} {i : Instruction}
    (h : i ∈ (readAll offset bs).instructions) : i.offset + i.size ≤ offset + bs.length := by
  fun_induction readAll offset bs with
  | case1 offset bs j rest hread _ ih =>
    have hlen := length_of_read hread
    rcases List.mem_cons.mp h with rfl | hrest
    · have hoffset := (read_eq_ok hread).1
      omega
    · have hle := ih hrest
      omega
  | case2 offset bs e hread => cases h

end Instruction

/-! ## Walks -/

/-- A listed instruction `n` bytes further on. -/
def Listed.shift (n : Nat) (l : Listed) : Listed := { l with instruction := l.instruction.shift n }

namespace Decoder

open Instruction (readAll)

theorem map_fresh_shift (n : Nat) (style : Style) (is : List Instruction) :
    (is.map (Instruction.shift n)).map (fresh style) = (is.map (fresh style)).map (Listed.shift n) := by
  rw [List.map_map, List.map_map]
  rfl

section Append

variable {a : Bytes} (ha : (readAll 0 a).stop? = none) (b : Bytes)
include ha

/-- What is read from two bodies, the first of which is read to its end. -/
theorem readAll_zero_append :
    readAll 0 (a ++ b) = ((readAll 0 b).shift a.length).after (readAll 0 a).instructions := by
  rw [Instruction.readAll_append ha, Instruction.readAll_shift]

theorem stop?_readAll_append : (readAll 0 (a ++ b)).stop? = (readAll 0 b).stop? := by
  rw [readAll_zero_append ha]
  rfl

theorem map_fresh_readAll_append (style : Style) :
    (readAll 0 (a ++ b)).instructions.map (fresh style)
      = (readAll 0 a).instructions.map (fresh style)
        ++ ((readAll 0 b).instructions.map (fresh style)).map (Listed.shift a.length) := by
  rw [readAll_zero_append ha, ← map_fresh_shift, ← List.map_append]
  rfl

/-- The walk over both bodies is stopped as far behind the second one's start as the walk over it. -/
theorem position_drain_append {e : DecodeError} (hb : (readAll 0 b).stop? = some e) (style : Style) :
    (ofBytes (a ++ b) style).drain.decoder.position
      = (ofBytes b style).drain.decoder.position + a.length := by
  have hboth : (readAll 0 (a ++ b)).stop? = some e := by rw [stop?_readAll_append ha, hb]
  have hfront : ((readAll 0 a).instructions.flatMap Instruction.encode).length = a.length := by
    rw [Instruction.flatMap_encode_readAll ha]
  rw [position_drain_ofBytes hboth, position_drain_ofBytes hb, readAll_zero_append ha]
  simp only [Instruction.Reading.after, Instruction.Reading.shift, List.flatMap_append,
    List.length_append, List.flatMap_map, Instruction.encode_shift, hfront]
  exact Nat.add_comm _ _

end Append

/-- **Bodies one behind the other.**  Where a body `a` is walked to its end, a body `b` behind it is
    walked as if it stood alone, with every offset and every target greater by the length of `a`.  If
    something stops the walk over `b`, the same stops the walk over both, behind the same instructions
    and that much further on.

    The targets are 64-bit words, and are greater as such in every buffer whose positions are; as
    numbers they are if the buffer also leaves room for the greatest distance. -/
theorem decodeAll_append (style : Style) {a : Bytes} {xs : List Listed}
    (ha : (ofBytes a style).decodeAll.outcome = .ok xs) (b : Bytes) :
    (∀ ys, (ofBytes b style).decodeAll.outcome = .ok ys →
      (ofBytes (a ++ b) style).decodeAll.outcome = .ok (xs ++ ys.map (Listed.shift a.length))) ∧
    (∀ e, (ofBytes b style).decodeAll.outcome = .error e →
      (ofBytes (a ++ b) style).decodeAll.outcome = .error e ∧
      (ofBytes (a ++ b) style).drain.stop? = some e ∧
      (ofBytes (a ++ b) style).drain.instructions
        = xs ++ (ofBytes b style).drain.instructions.map (Listed.shift a.length) ∧
      (ofBytes (a ++ b) style).drain.decoder.position
        = (ofBytes b style).drain.decoder.position + a.length) ∧
    ∀ y ∈ (ofBytes b style).drain.instructions, (a ++ b).length < 0x8000000000000000 →
      (y.shift a.length).instruction.targets
        = y.instruction.targets.map (· + Int64.ofNat a.length) ∧
      ((a ++ b).length + 0x80000000 ≤ 0x8000000000000000 →
        (y.shift a.length).instruction.targets.map Int64.toInt
          = y.instruction.targets.map fun t => t.toInt + (a.length : Int)) := by
  obtain ⟨hastop, rfl⟩ := decodeAll_ofBytes_eq_ok_iff.mp ha
  refine ⟨?_, ?_, ?_⟩
  · intro ys hb
    obtain ⟨hbstop, rfl⟩ := decodeAll_ofBytes_eq_ok_iff.mp hb
    rw [decodeAll_ofBytes_eq_ok_iff, stop?_readAll_append hastop, map_fresh_readAll_append hastop]
    exact ⟨hbstop, rfl⟩
  · intro e hb
    have hbstop := decodeAll_ofBytes_eq_error_iff.mp hb
    have hstop : (readAll 0 (a ++ b)).stop? = some e := by rw [stop?_readAll_append hastop, hbstop]
    refine ⟨decodeAll_ofBytes_eq_error_iff.mpr hstop, ?_, ?_, ?_⟩
    · rw [stop?_drain_ofBytes, hstop]
    · rw [instructions_drain_ofBytes, instructions_drain_ofBytes, map_fresh_readAll_append hastop]
    · exact position_drain_append hastop b hbstop style
  · intro y hy hfit
    rw [instructions_drain_ofBytes] at hy
    obtain ⟨i, hi, rfl⟩ := List.mem_map.mp hy
    have hend := Instruction.end_le_of_mem_readAll hi
    rw [List.length_append] at hfit
    have hmoved : (i.shift a.length).targets = i.targets.map (· + Int64.ofNat a.length) :=
      Instruction.targets_shift (by omega)
    refine ⟨hmoved, ?_⟩
    intro hroom
    rw [List.length_append] at hroom
    show (i.shift a.length).targets.map Int64.toInt = i.targets.map fun t => t.toInt + (a.length : Int)
    rw [hmoved, List.map_map]
    apply List.map_congr_left
    intro t ht
    exact Instruction.toInt_target_add (by omega) ht

/-- A `nop` in front of a `br.s` that goes back beyond its own body, once with nothing behind it and once
    with a byte that is no opcode. -/
theorem decodeAll_append_nop_branch :
    let nop : Listed := fresh .standard ⟨0, ⟨0x00, "nop", .empty⟩, .empty⟩
    let branch : Listed := fresh .standard ⟨0, ⟨0x2B, "br.s", .shortBranch⟩, .shortBranch (-3)⟩
    (ofBytes [0x00, 0x2B, 0xFD] .standard).decodeAll.outcome = .ok [nop, branch.shift 1] ∧
    (ofBytes [0x00, 0x2B, 0xFD, 0xF8] .standard).drain.stop? = some (.undefinedOpcode [0xF8]) ∧
    (ofBytes [0x00, 0x2B, 0xFD, 0xF8] .standard).drain.instructions = [nop, branch.shift 1] ∧
    (ofBytes [0x00, 0x2B, 0xFD, 0xF8] .standard).drain.decoder.position = 3 ∧
    branch.instruction.targets.map Int64.toInt = [-1] ∧
    (branch.shift 1).instruction.targets.map Int64.toInt = [0] := by
  intro nop branch
  have hreadNop : readAll 0 [0x00] = ⟨[nop.instruction], none⟩ := by decide +kernel
  have hnop : (ofBytes [0x00] .standard).decodeAll.outcome = .ok [nop] :=
    decodeAll_ofBytes_of_readAll hreadNop .standard
  have hread : readAll 0 [0x2B, 0xFD] = ⟨[branch.instruction], none⟩ := by decide +kernel
  have hreadError : readAll 0 [0x2B, 0xFD, 0xF8]
      = ⟨[branch.instruction], some (.undefinedOpcode [0xF8])⟩ := by decide +kernel
  have hbranch : (ofBytes [0x2B, 0xFD] .standard).decodeAll.outcome = .ok [branch] :=
    decodeAll_ofBytes_of_readAll hread .standard
  have hdrain : (ofBytes [0x2B, 0xFD, 0xF8] .standard).drain.instructions = [branch] := by
    rw [instructions_drain_ofBytes, hreadError]
    rfl
  have hposition : (ofBytes [0x2B, 0xFD, 0xF8] .standard).drain.decoder.position = 2 := by
    decide +kernel
  obtain ⟨hok, -, -⟩ := decodeAll_append .standard hnop [0x2B, 0xFD]
  obtain ⟨-, herror, htargets⟩ := decodeAll_append .standard hnop [0x2B, 0xFD, 0xF8]
  obtain ⟨-, hstop, hinstructions, hat⟩ :=
    herror (.undefinedOpcode [0xF8]) (decodeAll_ofBytes_eq_error_iff.mpr (by rw [hreadError]))
  rw [hdrain] at hinstructions
  rw [hposition] at hat
  have hnumbers := (htargets branch (by rw [hdrain]; exact List.mem_singleton.mpr rfl) (by decide)).2
    (by decide)
  have halone : branch.instruction.targets.map Int64.toInt = [-1] := by decide +kernel
  exact ⟨hok [branch] hbranch, hstop, hinstructions, hat, halone, hnumbers.trans (by decide +kernel)⟩

end Decoder

end Cil
