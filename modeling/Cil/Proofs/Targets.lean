import Cil.Proofs.Encoding

/-
  WHERE JUMPS GO.

  A target is the position behind its instruction with a distance added, both as 64-bit words
  (`Instruction.targets_eq`).  In a body that leaves room for the largest distance nothing overflows, and
  the words are the numbers that they stand for (`Instruction.toInt_end_add`).

  `Instruction.targets?` computes the same with every step checked.  In such a body no check fails, and
  since all jumps have an opcode of one byte, the targets are what the format says
  (`Instruction.targets_exact`).
-/

namespace Cil

/-- Jumps have short opcodes. -/
theorem Opcode.size_of_jump :
    ∀ o ∈ all, o.shape = .shortBranch ∨ o.shape = .branch ∨ o.shape = .switch → o.size = 1 := by
  decide +kernel

/-- The distances in an operand, in order. -/
def Operand.deltas : Operand → List Int64
  | .shortBranch delta => [delta.toInt64]
  | .branch delta => [delta.toInt64]
  | .switch deltas => deltas.map Int32.toInt64
  | _ => []

/-- A distance has 32 bits, or fewer. -/
theorem Operand.delta_bounds {o : Operand} {delta : Int64} (h : delta ∈ o.deltas) :
    -0x80000000 ≤ delta.toInt ∧ delta.toInt < 0x80000000 := by
  have hwide (d : Int32) : -0x80000000 ≤ d.toInt64.toInt ∧ d.toInt64.toInt < 0x80000000 := by
    rw [Int32.toInt_toInt64]
    exact ⟨d.le_toInt, d.toInt_lt⟩
  cases o with
  | shortBranch d =>
    have hlo := d.le_toInt
    have hhi := d.toInt_lt
    rw [List.mem_singleton.mp h, Int8.toInt_toInt64]
    omega
  | branch d =>
    rw [List.mem_singleton.mp h]
    exact hwide d
  | switch ds =>
    obtain ⟨d, -, rfl⟩ := List.mem_map.mp h
    exact hwide d
  | _ => cases h

namespace Instruction

/-! ## Targets as numbers -/

/-- As long as 64 bits hold it, the position behind an instruction is no other number. -/
theorem toInt_endPosition {i : Instruction} (h : i.offset + i.size < 0x8000000000000000) :
    i.endPosition.toInt = (i.offset + i.size : Nat) := by
  rw [endPosition, if_pos h]
  exact Int64.toInt_ofNat_of_lt h

/-- A sum that 64 bits hold is the sum of the numbers. -/
theorem toInt_add_of_bounds {x y : Int64} (hlo : -0x8000000000000000 ≤ x.toInt + y.toInt)
    (hhi : x.toInt + y.toInt < 0x8000000000000000) : (x + y).toInt = x.toInt + y.toInt := by
  rw [Int64.toInt_add]
  apply Int.bmod_eq_of_le
  · exact hlo
  · exact hhi

theorem targets_eq (i : Instruction) : i.targets = i.operand.deltas.map (i.endPosition + ·) := by
  unfold targets target?
  cases i.operand with
  | switch deltas =>
    show deltas.map (fun d => i.endPosition + d.toInt64) = (deltas.map Int32.toInt64).map _
    rw [List.map_map]
    rfl
  | _ => rfl

/-- A target is a distance of 32 bits, or of fewer, away from the end of its instruction. -/
theorem exists_delta_of_mem_targets {i : Instruction} {t : Int64} (h : t ∈ i.targets) :
    ∃ delta : Int64, -0x80000000 ≤ delta.toInt ∧ delta.toInt < 0x80000000 ∧
      t = i.endPosition + delta := by
  rw [targets_eq] at h
  obtain ⟨delta, hdelta, rfl⟩ := List.mem_map.mp h
  obtain ⟨hlo, hhi⟩ := Operand.delta_bounds hdelta
  exact ⟨delta, hlo, hhi, rfl⟩

/-- With room for the largest distance behind it, the end of an instruction and a distance add up as
    numbers. -/
theorem toInt_end_add {i : Instruction} (h : i.offset + i.size + 0x80000000 ≤ 0x8000000000000000)
    {delta : Int64} (hdelta : delta ∈ i.operand.deltas) :
    (i.endPosition + delta).toInt = (i.offset + i.size : Nat) + delta.toInt := by
  have hend := toInt_endPosition (i := i) (by omega)
  obtain ⟨hlo, hhi⟩ := Operand.delta_bounds hdelta
  rw [toInt_add_of_bounds (by omega) (by omega), hend]

/-! ## Every step checked -/

/-- The sum of two positions, if 64 bits hold it. -/
def sum? (x y : Int64) : Option Int64 :=
  if -0x8000000000000000 ≤ x.toInt + y.toInt ∧ x.toInt + y.toInt < 0x8000000000000000 then
    some (x + y)
  else
    none

/-- The position behind the instruction, if 64 bits hold it. -/
def endPosition? (i : Instruction) : Option Int64 :=
  if i.offset + i.size < 0x8000000000000000 then some (Int64.ofNat (i.offset + i.size)) else none

/-- Every position that the instruction may jump to, if 64 bits hold all of them. -/
def targets? (i : Instruction) : Option (List Int64) := do
  let behind ← i.endPosition?
  i.operand.deltas.mapM (sum? behind)

theorem targets?_eq {i : Instruction} (h : i.offset + i.size + 0x80000000 ≤ 0x8000000000000000) :
    i.targets? = some i.targets := by
  have hlt : i.offset + i.size < 0x8000000000000000 := by omega
  have hend : i.endPosition? = some i.endPosition := by rw [endPosition?, endPosition, if_pos hlt, if_pos hlt]
  have hsum : ∀ delta ∈ i.operand.deltas, sum? i.endPosition delta = some (i.endPosition + delta) := by
    intro delta hdelta
    obtain ⟨hlo, hhi⟩ := Operand.delta_bounds hdelta
    rw [sum?, toInt_endPosition hlt]
    exact if_pos (by omega)
  have hall (ds : List Int64) (hds : ∀ d ∈ ds, sum? i.endPosition d = some (i.endPosition + d)) :
      ds.mapM (sum? i.endPosition) = some (ds.map (i.endPosition + ·)) := by
    induction ds with
    | nil => rfl
    | cons d ds ih =>
      rw [List.mapM_cons, hds d List.mem_cons_self, ih fun d' hd' => hds d' (.tail d hd')]
      rfl
  rw [targets?, hend, targets_eq]
  exact hall _ hsum

/-! ## What the format says -/

theorem WellFormed.size_eq_one {opcode : Opcode} {operand : Operand} (h : WellFormed opcode operand)
    (hjump : operand.shape = .shortBranch ∨ operand.shape = .branch ∨ operand.shape = .switch) :
    opcode.size = 1 := by
  rw [h.shape_eq] at hjump
  exact Opcode.size_of_jump opcode h.defined hjump

/-- A branch has one target. -/
theorem exists_target {i : Instruction} (h : i.offset + i.size + 0x80000000 ≤ 0x8000000000000000)
    {delta : Int64} (htarget : i.target? = some (i.endPosition + delta))
    (hdeltas : i.operand.deltas = [delta]) :
    ∃ t, i.target? = some t ∧ i.targets = [t] ∧ t.toInt = (i.offset + i.size : Nat) + delta.toInt := by
  refine ⟨i.endPosition + delta, htarget, ?_, ?_⟩
  · rw [targets_eq, hdeltas]
    rfl
  · apply toInt_end_add h
    rw [hdeltas]
    exact List.mem_singleton.mpr rfl

/-- **The arithmetic of jumps.**  In a body that leaves room for the largest distance, whatever is decoded
    goes where the format says, as numbers: a short branch with distance `d` to `offset + d + 2`, a branch
    to `offset + d + 5`, and each case of a jump table with `n` cases, which takes `5 + 4 * n` bytes, to
    `offset + d + 5 + 4 * n`.  Nothing else jumps.  No step on the way leaves 64 bits, and the distances
    are counted from the cursor behind the instruction. -/
theorem targets_exact {b : Bytes} (hb : b.length + 0x80000000 ≤ 0x8000000000000000)
    {cursor after : UInt64} {i : Instruction} (h : decodeAt b cursor = (.ok i, after)) :
    i.targets? = some i.targets ∧
    (∀ d, i.operand = .shortBranch d →
      ∃ t, i.target? = some t ∧ i.targets = [t] ∧ t.toInt = i.offset + d.toInt + 2) ∧
    (∀ d, i.operand = .branch d →
      ∃ t, i.target? = some t ∧ i.targets = [t] ∧ t.toInt = i.offset + d.toInt + 5) ∧
    (∀ ds, i.operand = .switch ds → i.size = 5 + 4 * ds.length ∧ i.target? = none ∧
      i.targets.map Int64.toInt = ds.map fun d => (i.offset : Int) + d.toInt + 5 + 4 * ds.length) ∧
    (i.operand.shape ≠ .shortBranch → i.operand.shape ≠ .branch → i.operand.shape ≠ .switch →
      i.target? = none ∧ i.targets = []) ∧
    after.toNat = i.offset + i.size ∧
    i.targets.map Int64.toInt = i.operand.deltas.map fun delta => (after.toNat : Int) + delta.toInt := by
  obtain ⟨⟨rest, hread⟩, rfl⟩ := decodeAt_eq_ok_iff.mp h
  obtain ⟨hoffset, hwf, -⟩ := read_eq_ok hread
  have hfit : i.offset + i.size ≤ b.length := hoffset ▸ add_size_le_of_read hread
  have hroom : i.offset + i.size + 0x80000000 ≤ 0x8000000000000000 := by omega
  have hafter : (UInt64.ofNat (cursor.toNat + i.size)).toNat = i.offset + i.size := by
    rw [← hoffset]
    apply UInt64.toNat_ofNat_of_lt
    show _ < 0x10000000000000000
    omega
  have hnumbers : i.targets.map Int64.toInt
      = i.operand.deltas.map fun delta => ((i.offset + i.size : Nat) : Int) + delta.toInt := by
    rw [targets_eq, List.map_map]
    exact List.map_congr_left fun delta hdelta => toInt_end_add hroom hdelta
  refine ⟨targets?_eq hroom, ?_, ?_, ?_, ?_, hafter, by rw [hafter, hnumbers]⟩
  · intro d ho
    have hone : i.opcode.size = 1 := hwf.size_eq_one (.inl (by rw [ho]; rfl))
    have hsize : i.size = 2 := by rw [size, hone, ho]; rfl
    have hdeltas : i.operand.deltas = [d.toInt64] := by rw [ho]; rfl
    obtain ⟨t, htarget, htargets, ht⟩ := exists_target hroom (by rw [target?, ho]) hdeltas
    rw [Int8.toInt_toInt64] at ht
    exact ⟨t, htarget, htargets, by omega⟩
  · intro d ho
    have hone : i.opcode.size = 1 := hwf.size_eq_one (.inr (.inl (by rw [ho]; rfl)))
    have hsize : i.size = 5 := by rw [size, hone, ho]; rfl
    have hdeltas : i.operand.deltas = [d.toInt64] := by rw [ho]; rfl
    obtain ⟨t, htarget, htargets, ht⟩ := exists_target hroom (by rw [target?, ho]) hdeltas
    rw [Int32.toInt_toInt64] at ht
    exact ⟨t, htarget, htargets, by omega⟩
  · intro ds ho
    have hone : i.opcode.size = 1 := hwf.size_eq_one (.inr (.inr (by rw [ho]; rfl)))
    have hsize : i.size = 5 + 4 * ds.length := by
      rw [size, hone, ho, Operand.size]
      omega
    refine ⟨hsize, by rw [target?, ho], ?_⟩
    rw [hnumbers, ho, Operand.deltas, List.map_map]
    apply List.map_congr_left
    intro d _
    show ((i.offset + i.size : Nat) : Int) + d.toInt64.toInt = _
    rw [Int32.toInt_toInt64]
    omega
  · intro hshort hlong htable
    unfold targets target?
    cases ho : i.operand with
    | shortBranch d => exact absurd (by rw [ho]; rfl) hshort
    | branch d => exact absurd (by rw [ho]; rfl) hlong
    | switch ds => exact absurd (by rw [ho]; rfl) htable
    | _ => exact ⟨rfl, rfl⟩

/-- A `br.s` to a position before the body, and a jump table with a case that goes back to its start. -/
theorem targets_exact_backward :
    (∃ t, target? ⟨0, ⟨0x2B, "br.s", .shortBranch⟩, .shortBranch (-128)⟩ = some t ∧ t.toInt = -126) ∧
    (targets ⟨1, ⟨0x45, "switch", .switch⟩, .switch [0, -13]⟩).map Int64.toInt = [14, 1] ∧
    targets? ⟨1, ⟨0x45, "switch", .switch⟩, .switch [0, -13]⟩
      = some (targets ⟨1, ⟨0x45, "switch", .switch⟩, .switch [0, -13]⟩) := by
  have hbranch : decodeAt [0x2B, 0x80] 0
      = (.ok ⟨0, ⟨0x2B, "br.s", .shortBranch⟩, .shortBranch (-128)⟩, 2) := rfl
  have hswitch : decodeAt [0x00, 0x45, 2, 0, 0, 0, 0, 0, 0, 0, 0xF3, 0xFF, 0xFF, 0xFF] 1
      = (.ok ⟨1, ⟨0x45, "switch", .switch⟩, .switch [0, -13]⟩, 14) := rfl
  obtain ⟨-, hshort, -⟩ := targets_exact (by decide) hbranch
  obtain ⟨hchecked, -, -, htable, -⟩ := targets_exact (by decide) hswitch
  obtain ⟨t, htarget, -, ht⟩ := hshort (-128) rfl
  exact ⟨⟨t, htarget, ht⟩, (htable [0, -13] rfl).2.2, hchecked⟩

end Instruction

end Cil
