import Cil.Proofs.Concatenation
import Cil.Proofs.Listing
import Cil.Proofs.Remembering

/-
  LABELS NAME LINES.

  A line begins with its offset, an operand that jumps shows positions, and the two are written by
  different rules: an offset is a number, a position is a word with a sign.  Both rules write a number
  that is not negative in the same way, and no other like it (`Style.standardLabel_eq_iff`).  So the
  position in an operand reads like the beginning of a line exactly if the line is about an instruction
  at that position.

  Since the instructions of a body lie one behind the other (`Instruction.tiles_readAll`), there is at
  most one such line, and none for a position outside of the body or inside of an instruction
  (`Decoder.labels_name_lines`).
-/

namespace Cil

namespace Style

/-! ## How a line begins -/

/-- What stands in front of the first colon with a blank behind it. -/
def upToColon : List Char → List Char
  | [] => []
  | c :: cs => if c = ':' ∧ cs.head? = some ' ' then [] else c :: upToColon cs

/-- The label of a line. -/
def lineLabel (line : String) : String := String.ofList (upToColon line.toList)

theorem upToColon_append {cs : List Char} (h : ':' ∉ cs) (ds : List Char) :
    upToColon (cs ++ ':' :: ' ' :: ds) = cs := by
  induction cs with
  | nil => rfl
  | cons c cs ih =>
    have hc : c ≠ ':' := fun heq => h (heq ▸ List.mem_cons_self)
    rw [List.cons_append, upToColon, if_neg fun hcolon => hc hcolon.1, ih fun hcs => h (.tail c hcs)]

theorem lineLabel_standardLine (quoted : List UInt16 → String) (p : Parts) :
    lineLabel (standardLine quoted p).text = "IL_" ++ Hex.atLeast 4 p.offset := by
  have hcolon : ':' ∉ 'I' :: 'L' :: '_' :: Hex.atLeastDigits 4 p.offset := by
    simp [Hex.not_mem_atLeastDigits (c := ':') (by decide) 4 p.offset]
  apply String.toList_inj.mp
  rw [lineLabel, String.toList_ofList, toList_standardLine, String.toList_append, Hex.toList_atLeast]
  exact upToColon_append hcolon _

/-- A position is written like an offset exactly if it is that number. -/
theorem standardLabel_eq_iff {position : Int64} {offset : Nat} :
    standardLabel position = "IL_" ++ Hex.atLeast 4 offset ↔ position.toInt = offset := by
  have hoffset : Hex.atLeastDigits 4 offset = Hex.signedDigits 4 offset := by
    rw [Hex.signedDigits, if_neg (by omega), Int.natAbs_natCast]
    rfl
  rw [← String.toList_inj, toList_standardLabel, String.toList_append, Hex.toList_atLeast, hoffset]
  show _ = 'I' :: 'L' :: '_' :: Hex.signedDigits 4 offset ↔ _
  simp only [List.cons.injEq, true_and]
  exact (Hex.isPartialInv_signed? (by decide)).injective.eq_iff

end Style

namespace Listed

variable {σ : Type}

/-- The instruction can be rendered as this line, by some resolver in some world. -/
def Shows (l : Listed) (line : String) : Prop :=
  ∃ (σ : Type) (r : Resolver σ) (w : World σ) (after : Listed), (l.line r).result w = .ok (line, after)

/-- Whatever its operand is, a line in the standard style begins with the offset. -/
theorem Shows.lineLabel_eq {l : Listed} {line : String} (h : l.Shows line) (hstyle : l.style = .standard) :
    Style.lineLabel line = "IL_" ++ Hex.atLeast 4 l.instruction.offset := by
  obtain ⟨σ, r, w, after, hline⟩ := h
  rw [Listed.line, hstyle] at hline
  obtain ⟨operand, -, rfl⟩ := (result_lineIn_eq_ok_iff Style.standardLines_standard).mp hline
  exact Style.lineLabel_standardLine Quoted.encode _

end Listed

namespace Instruction

/-! ## Where instructions lie -/

theorem tiles_readAll {offset : Nat} {bs : Bytes} (h : (readAll offset bs).stop? = none) :
    Tiles offset (readAll offset bs).instructions (offset + bs.length) := by
  obtain ⟨cs, rfl⟩ := eq_encodeAll_of_readAll h
  rw [readAll_encodeAll]
  exact tiles_place cs offset

theorem Tiles.le_offset {p q : Nat} {is : List Instruction} (h : Tiles p is q) :
    ∀ i ∈ is, p ≤ i.offset := by
  induction is generalizing p with
  | nil => simp
  | cons j is ih =>
    obtain ⟨rfl, hrest⟩ := h
    intro i hi
    rcases List.mem_cons.mp hi with rfl | hi
    · exact Nat.le_refl _
    · have hle := ih hrest i hi
      omega

/-- Two different instructions do not overlap. -/
theorem Tiles.apart {p q : Nat} {is : List Instruction} (h : Tiles p is q) :
    ∀ i ∈ is, ∀ j ∈ is, i = j ∨ i.offset + i.size ≤ j.offset ∨ j.offset + j.size ≤ i.offset := by
  induction is generalizing p with
  | nil => simp
  | cons k is ih =>
    obtain ⟨rfl, hrest⟩ := h
    intro i hi j hj
    rcases List.mem_cons.mp hi with rfl | hi'
    · rcases List.mem_cons.mp hj with rfl | hj'
      · exact .inl rfl
      · exact .inr (.inl (hrest.le_offset j hj'))
    · rcases List.mem_cons.mp hj with rfl | hj'
      · exact .inr (.inr (hrest.le_offset i hi'))
      · exact ih hrest i hi' j hj'

/-- What an operand that jumps shows: one position, or those of a jump table. -/
theorem plainText_of_mem_targets {i : Instruction} {t : Int64} (h : t ∈ i.targets) :
    i.operand.shape ∈ Shape.plain ∧
    (i.target? = some t ∧ i.operand.plainText i.endPosition = Style.standardLabel t ∨
      i.target? = none ∧
        i.operand.plainText i.endPosition = Style.standardLabels Style.standardLabel i.targets) := by
  unfold targets target? at h ⊢
  cases ho : i.operand with
  | shortBranch delta =>
    rw [ho] at h
    rw [List.mem_singleton.mp h]
    exact ⟨by simp [Operand.shape, Shape.plain], .inl ⟨rfl, rfl⟩⟩
  | branch delta =>
    rw [ho] at h
    rw [List.mem_singleton.mp h]
    exact ⟨by simp [Operand.shape, Shape.plain], .inl ⟨rfl, rfl⟩⟩
  | switch deltas => exact ⟨by simp [Operand.shape, Shape.plain], .inr ⟨rfl, rfl⟩⟩
  | _ =>
    rw [ho] at h
    cases h

end Instruction

namespace Decoder

open Style (standardLabel standardLabels lineLabel)

/-- **Labels name lines.**  In a body that is walked to its end, the text of an operand that jumps shows a
    label for each of its targets, whatever the resolver.  The label is that of a line exactly if the
    line's instruction lies at the target, and no other instruction has it.  A target before the body,
    behind it, or inside of an instruction is the label of no line. -/
theorem labels_name_lines {b : Bytes} {xs : List Listed}
    (h : (ofBytes b .standard).decodeAll.outcome = .ok xs) {x : Listed} (hx : x ∈ xs) {t : Int64}
    (ht : t ∈ x.instruction.targets) :
    (∀ {σ : Type} (r : Resolver σ) (w : World σ), ∃ text,
      (x.operandText r).result w = .ok (.ok text, x) ∧
      (x.instruction.target? = some t ∧ text = standardLabel t ∨
        x.instruction.target? = none ∧ text = standardLabels standardLabel x.instruction.targets)) ∧
    (∀ y ∈ xs, ∀ line, y.Shows line →
      (standardLabel t = lineLabel line ↔ t.toInt = y.instruction.offset)) ∧
    (∀ y ∈ xs, t.toInt = y.instruction.offset → ∀ z ∈ xs, ∀ line, z.Shows line →
      standardLabel t = lineLabel line → z = y) ∧
    ((t.toInt < 0 ∨ b.length ≤ t.toInt ∨ ∃ z ∈ xs, z.instruction.offset < t.toInt ∧
        t.toInt < z.instruction.offset + z.instruction.size) →
      ∀ y ∈ xs, ∀ line, y.Shows line → standardLabel t ≠ lineLabel line) := by
  obtain ⟨hstop, rfl⟩ := decodeAll_ofBytes_eq_ok_iff.mp h
  have htiles := Instruction.tiles_readAll hstop
  have hlabel : ∀ y ∈ (Instruction.readAll 0 b).instructions.map (fresh .standard), ∀ line,
      y.Shows line → (standardLabel t = lineLabel line ↔ t.toInt = y.instruction.offset) := by
    intro y hy line hline
    obtain ⟨i, -, rfl⟩ := List.mem_map.mp hy
    rw [hline.lineLabel_eq rfl]
    exact Style.standardLabel_eq_iff
  obtain ⟨i, -, rfl⟩ := List.mem_map.mp hx
  refine ⟨?_, hlabel, ?_, ?_⟩
  · intro σ r w
    obtain ⟨hplain, htext⟩ := Instruction.plainText_of_mem_targets ht
    have hrun := Instruction.operandText_fresh (i := i) hplain r
    refine ⟨_, ?_, htext⟩
    rw [hrun]
    rfl
  · intro y hy hty z hz line hline heq
    have htz := (hlabel z hz line hline).mp heq
    obtain ⟨j, hj, rfl⟩ := List.mem_map.mp hy
    obtain ⟨k, hk, rfl⟩ := List.mem_map.mp hz
    have hjpos := j.size_pos
    have hkpos := k.size_pos
    change t.toInt = j.offset at hty
    change t.toInt = k.offset at htz
    rcases htiles.apart k hk j hj with rfl | hapart | hapart
    · rfl
    · omega
    · omega
  · intro hstray y hy line hline heq
    have hty := (hlabel y hy line hline).mp heq
    obtain ⟨j, hj, rfl⟩ := List.mem_map.mp hy
    have hjpos := j.size_pos
    have hjend := Instruction.end_le_of_mem_readAll hj
    change t.toInt = j.offset at hty
    rcases hstray with hbefore | hbehind | ⟨z, hz, hlo, hhi⟩
    · omega
    · omega
    · -- an instruction that begins inside of another one
      obtain ⟨k, hk, rfl⟩ := List.mem_map.mp hz
      change k.offset < t.toInt at hlo
      change t.toInt < k.offset + k.size at hhi
      rcases htiles.apart k hk j hj with rfl | hapart | hapart
      · omega
      · omega
      · omega

/-- A `br.s` over a `nop` to a `ret`, and one into itself. -/
theorem labels_name_lines_forward :
    let jump : Instruction := ⟨0, ⟨0x2B, "br.s", .shortBranch⟩, .shortBranch 1⟩
    let nop : Instruction := ⟨2, ⟨0x00, "nop", .empty⟩, .empty⟩
    let ret : Instruction := ⟨3, ⟨0x2A, "ret", .empty⟩, .empty⟩
    let loop : Instruction := ⟨0, ⟨0x2B, "br.s", .shortBranch⟩, .shortBranch (-1)⟩
    (ofBytes [0x2B, 0x01, 0x00, 0x2A] .standard).decodeAll.outcome
      = .ok ([jump, nop, ret].map (fresh .standard)) ∧
    (fresh .standard ret).Shows "IL_0003: ret        " ∧
    (standardLabel 3 = lineLabel "IL_0003: ret        " ↔ (3 : Int64).toInt = 3) ∧
    (standardLabel 3 = lineLabel "IL_0002: nop        " ↔ (3 : Int64).toInt = 2) ∧
    ∀ line, (fresh .standard loop).Shows line → standardLabel 1 ≠ lineLabel line := by
  intro jump nop ret loop
  have hread : Instruction.readAll 0 [0x2B, 0x01, 0x00, 0x2A] = ⟨[jump, nop, ret], none⟩ := by
    decide +kernel
  have hreadLoop : Instruction.readAll 0 [0x2B, 0xFF] = ⟨[loop], none⟩ := by decide +kernel
  have hbody := decodeAll_ofBytes_of_readAll hread .standard
  have hbodyLoop := decodeAll_ofBytes_of_readAll hreadLoop .standard
  have hshown {i : Instruction} {line : String} (hplain : i.operand.shape ∈ Shape.plain)
      (hline : i.plainLine = line) : (fresh .standard i).Shows line := by
    let r : Resolver Unit := .ofLookup fun c t => .error (.unresolved t c.word)
    have hgives := Instruction.gives_line_fresh hplain r { host := () }
    rw [hline] at hgives
    exact ⟨Unit, r, { host := () }, fresh .standard i, hgives⟩
  have hret : (fresh .standard ret).Shows "IL_0003: ret        " := hshown (by decide) (by decide +kernel)
  have hnop : (fresh .standard nop).Shows "IL_0002: nop        " := hshown (by decide) (by decide +kernel)
  obtain ⟨-, hlabel, -, -⟩ :=
    labels_name_lines hbody (x := fresh .standard jump) (by simp) (t := 3) (by decide)
  obtain ⟨-, -, -, hstray⟩ :=
    labels_name_lines hbodyLoop (x := fresh .standard loop) (by simp) (t := 1) (by decide)
  exact ⟨hbody, hret, hlabel (fresh .standard ret) (by simp) _ hret,
    hlabel (fresh .standard nop) (by simp) _ hnop,
    hstray (.inr (.inr ⟨fresh .standard loop, by simp, by decide, by decide⟩)) (fresh .standard loop)
      (by simp)⟩

end Decoder

end Cil
