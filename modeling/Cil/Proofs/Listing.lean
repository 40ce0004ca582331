import Cil.Proofs.Conventions
import Cil.Proofs.Rendering

/-
  THE LISTING DETERMINES THE BODY.

  A plain operand is one that the standard style writes without a question and without a rounding: a
  number, a variable, or the positions to jump to.  In a line the opcode can be told by its mnemonic
  (`Opcode.eq_of_name_eq`), and it fixes the shape of the operand.  The text of a plain operand of known
  shape can be read back (`Operand.eq_of_plainText`), once it is known where the instruction ends, for
  positions are written as they are and not as distances.  The end follows from the offset and the
  opcode, for a jump table together with the number of its positions
  (`Operand.size_eq_of_plainText`).

  So a line determines its instruction (`Code.eq_of_plainLine`), and the lines of a body its bytes
  (`Decoder.text_lossless`).
-/

namespace Cil

/-! ## Mnemonics -/

/-- Whether `f` tells the elements of a list apart, and none of them has a number that is a bit of the
    mask. -/
def separates {α : Type} (f : α → Nat) : Nat → List α → Bool
  | _, [] => true
  | mask, x :: xs => !mask.testBit (f x) && separates f (mask ||| 1 <<< f x) xs

theorem testBit_of_separates {α : Type} {f : α → Nat} {mask : Nat} {xs : List α}
    (h : separates f mask xs) : ∀ x ∈ xs, mask.testBit (f x) = false := by
  induction xs generalizing mask with
  | nil => nofun
  | cons y ys ih =>
    obtain ⟨hy, hys⟩ := Bool.and_eq_true_iff.mp h
    intro x hx
    rcases List.mem_cons.mp hx with rfl | hx
    · simpa using hy
    · have hmask := ih hys x hx
      rw [Nat.testBit_or, Bool.or_eq_false_iff] at hmask
      exact hmask.1

theorem eq_of_separates {α : Type} {f : α → Nat} {mask : Nat} {xs : List α} (h : separates f mask xs)
    {x y : α} (hx : x ∈ xs) (hy : y ∈ xs) (hf : f x = f y) : x = y := by
  induction xs generalizing mask with
  | nil => cases hx
  | cons z zs ih =>
    have hzs : separates f (mask ||| 1 <<< f z) zs := (Bool.and_eq_true_iff.mp h).2
    -- the number of `z` is in the mask from then on, so nothing behind has it
    have hz : ∀ u ∈ zs, f u ≠ f z := by
      intro u hu heq
      have hbit := testBit_of_separates hzs u hu
      simp [heq, Nat.testBit_shiftLeft] at hbit
    rcases List.mem_cons.mp hx with rfl | hx'
    · rcases List.mem_cons.mp hy with rfl | hy'
      · rfl
      · exact absurd hf.symm (hz y hy')
    · rcases List.mem_cons.mp hy with rfl | hy'
      · exact absurd hf (hz x hx')
      · exact ih hzs hx' hy'

namespace Opcode

/-- The bytes of the mnemonic as one number, brought down to a size that fits a mask: by the least
    divisor that leaves the mnemonics different remainders. -/
def fingerprint (o : Opcode) : Nat :=
  o.name.toByteArray.data.toList.foldl (fun n b => 256 * n + b.toNat) 0 % 3683

theorem separates_fingerprint : separates fingerprint 0 all := by decide +kernel

/-- No two opcodes have the same mnemonic. -/
theorem eq_of_name_eq {o p : Opcode} (ho : o ∈ all) (hp : p ∈ all) (h : o.name = p.name) : o = p :=
  eq_of_separates separates_fingerprint ho hp (by rw [fingerprint, fingerprint, h])

theorem printable_name_all : ∀ o ∈ all, ' ' ∉ o.name.toList ∧ Printable o.name.toList := by
  decide +kernel

end Opcode

/-! ## Plain operands -/

/-- The shapes whose operands are written without a question and without a rounding. -/
def Shape.plain : List Shape :=
  [.empty, .shortBranch, .branch, .shortInt, .int, .longInt, .shortVar, .var, .switch]

/-! A distance is widened without loss. -/

theorem toInt64_int8_inj {a b : Int8} (h : a.toInt64 = b.toInt64) : a = b := by
  apply Int8.toInt_inj.mp
  rw [← Int8.toInt_toInt64, h, Int8.toInt_toInt64]

theorem toInt64_int32_inj {a b : Int32} (h : a.toInt64 = b.toInt64) : a = b := by
  apply Int32.toInt_inj.mp
  rw [← Int32.toInt_toInt64, h, Int32.toInt_toInt64]

namespace Operand

/-- The text of a plain operand of an instruction that ends at a position. -/
def plainText (behind : Int64) : Operand → String
  | .shortBranch delta => Style.standardLabel (behind + delta.toInt64)
  | .branch delta => Style.standardLabel (behind + delta.toInt64)
  | .shortInt value => Nat.repr value.toNat
  | .int value => Int.repr value.toInt
  | .longInt value => Int.repr value.toInt
  | .shortVar index => Style.standardSlot (UInt16.ofNat index.toNat)
  | .var index => Style.standardSlot index
  | .switch deltas => Style.standardLabels Style.standardLabel (deltas.map fun d => behind + d.toInt64)
  | _ => ""

theorem printable_plainText (behind : Int64) (o : Operand) : Printable (o.plainText behind).toList := by
  have hdecimal {s : String} (h : s.toList ⊆ decimalAlphabet) : Printable s.toList :=
    .of_subset h (by decide)
  cases o with
  | shortBranch delta => exact Style.printable_standardLabel _
  | branch delta => exact Style.printable_standardLabel _
  | shortInt value => exact hdecimal (toList_natRepr_subset _)
  | int value => exact hdecimal (toList_intRepr_subset _)
  | longInt value => exact hdecimal (toList_intRepr_subset _)
  | shortVar index => exact Style.printable_standardSlot _
  | var index => exact Style.printable_standardSlot _
  | switch deltas => exact Style.printable_standardLabels _
  | _ => exact Printable.nil

/-- Only jump tables of one shape differ in size, and their text has as many positions as they do. -/
theorem size_eq_of_plainText {o o' : Operand} {p p' : Int64} (hshape : o.shape = o'.shape)
    (h : o.plainText p = o'.plainText p') : o.size = o'.size := by
  cases o <;> cases o' <;> try cases hshape
  case switch.switch deltas deltas' =>
    have hlength := congrArg List.length (Style.standardLabels_injective h)
    rw [List.length_map, List.length_map] at hlength
    rw [size, size, hlength]
  all_goals rfl

/-- The text of a plain operand can be read back by who knows the shape and where the instruction
    ends. -/
theorem eq_of_plainText {o o' : Operand} {p : Int64} (hplain : o.shape ∈ Shape.plain)
    (hshape : o.shape = o'.shape) (h : o.plainText p = o'.plainText p) : o = o' := by
  cases o <;> cases o' <;> try cases hshape
  case empty.empty => rfl
  case shortBranch.shortBranch delta delta' =>
    have htarget := Style.standardLabel_injective h
    rw [toInt64_int8_inj ((Int64.add_right_inj p).mp htarget)]
  case branch.branch delta delta' =>
    have htarget := Style.standardLabel_injective h
    rw [toInt64_int32_inj ((Int64.add_right_inj p).mp htarget)]
  case shortInt.shortInt value value' => rw [UInt8.toNat_inj.mp (Nat.repr_inj.mp h)]
  case int.int value value' => rw [Int32.toInt_inj.mp (Int.repr_inj.mp h)]
  case longInt.longInt value value' => rw [Int64.toInt_inj.mp (Int.repr_inj.mp h)]
  case shortVar.shortVar index index' =>
    have hindex := congrArg UInt16.toNat (Style.standardSlot_injective h)
    have hlt := index.toNat_lt
    have hlt' := index'.toNat_lt
    rw [UInt16.toNat_ofNat', UInt16.toNat_ofNat'] at hindex
    rw [UInt8.toNat_inj.mp (show index.toNat = index'.toNat by omega)]
  case var.var index index' => rw [Style.standardSlot_injective h]
  case switch.switch deltas deltas' =>
    have htargets := Style.standardLabels_injective h
    rw [(List.map_inj_right fun d d' hd =>
      toInt64_int32_inj ((Int64.add_right_inj p).mp hd)).mp htargets]
  all_goals exact absurd hplain (by simp [shape, Shape.plain])

end Operand

/-! ## Lines of plain operands -/

open Decoder (fresh)

/-- A plain operand needs no answer, and nothing that is remembered. -/
theorem Listed.operandText_of_plain {σ : Type} {l : Listed} (hstyle : l.style = .standard)
    (h : l.instruction.operand.shape ∈ Shape.plain) (r : Resolver σ) :
    l.operandText r = pure (.ok (l.instruction.operand.plainText l.instruction.endPosition), l) := by
  unfold operandText
  rw [hstyle]
  cases ho : l.instruction.operand with
  | shortFloat bits => simp [ho, Operand.shape, Shape.plain] at h
  | float bits => simp [ho, Operand.shape, Shape.plain] at h
  | token expects t => simp [ho, Operand.shape, Shape.plain] at h
  | switch deltas =>
    show (pure (Except.ok (Style.standardLabels Style.standardLabel l.instruction.targets), _) : Render σ _)
      = _
    rw [Instruction.targets, ho]
    rfl
  | _ => rfl

namespace Instruction

variable {σ : Type}

theorem endPosition_congr {i j : Instruction} (h : i.offset + i.size = j.offset + j.size) :
    i.endPosition = j.endPosition := by
  unfold endPosition
  rw [h]

/-- What the line of an instruction is put together from if its operand is plain. -/
def plainParts (i : Instruction) : Parts :=
  (fresh .standard i).parts (.ok (i.operand.plainText i.endPosition))

/-- The line of an instruction whose operand is plain. -/
def plainLine (i : Instruction) : String := (Style.standardLine Quoted.encode i.plainParts).text

theorem operandText_fresh {i : Instruction} (h : i.operand.shape ∈ Shape.plain) (r : Resolver σ) :
    (fresh .standard i).operandText r
      = pure (.ok (i.operand.plainText i.endPosition), fresh .standard i) :=
  Listed.operandText_of_plain rfl h r

/-- It needs no answer. -/
theorem gives_line_fresh {i : Instruction} (h : i.operand.shape ∈ Shape.plain) (r : Resolver σ) :
    ((fresh .standard i).line r).Gives (.ok (i.plainLine, fresh .standard i)) := by
  intro w
  have hline := Listed.result_lineIn Style.standardLines_standard r (fresh .standard i) w
  rw [operandText_fresh h r] at hline
  exact hline

end Instruction

namespace Code

theorem exists_of_mem_place {i : Instruction} {cs : List Code} {offset : Nat}
    (h : i ∈ place offset cs) : ∃ (c : Code) (p : Nat), i = c.atOffset p := by
  induction cs generalizing offset with
  | nil => cases h
  | cons c cs ih =>
    rcases List.mem_cons.mp h with hi | hi
    · exact ⟨c, offset, hi⟩
    · exact ih hi

theorem printable_plainLine {i : Instruction} {cs : List Code} {offset : Nat}
    (h : i ∈ place offset cs) : Printable i.plainLine.toList := by
  obtain ⟨c, p, rfl⟩ := exists_of_mem_place h
  have hname : Printable (c.atOffset p).plainParts.mnemonic.toList :=
    (Opcode.printable_name_all c.opcode c.wellFormed.defined).2
  exact Style.printable_standardLine hname (Operand.printable_plainText _ _)

/-- A line determines its instruction. -/
theorem eq_of_plainLine {c c' : Code} {offset offset' : Nat} (hplain : c.operand.shape ∈ Shape.plain)
    (h : (c.atOffset offset).plainLine = (c'.atOffset offset').plainLine) :
    offset = offset' ∧ c = c' := by
  have hblank (c : Code) (p : Nat) : ' ' ∉ (c.atOffset p).plainParts.mnemonic.toList :=
    (Opcode.printable_name_all c.opcode c.wellFormed.defined).1
  obtain ⟨hoffset, hname, htext⟩ := Style.standardLine_inj (hblank c offset) (hblank c' offset') h
  change offset = offset' at hoffset
  change c.operand.plainText _ = c'.operand.plainText _ at htext
  have hopcode : c.opcode = c'.opcode :=
    Opcode.eq_of_name_eq c.wellFormed.defined c'.wellFormed.defined hname
  have hshape : c.operand.shape = c'.operand.shape := by
    rw [c.wellFormed.shape_eq, c'.wellFormed.shape_eq, hopcode]
  -- both end at the same place, so the positions in the text stand for the same distances
  have hsize : c.operand.size = c'.operand.size := Operand.size_eq_of_plainText hshape htext
  have hend : (c.atOffset offset).endPosition = (c'.atOffset offset').endPosition := by
    have hsum : offset + (c.opcode.size + c.operand.size)
        = offset' + (c'.opcode.size + c'.operand.size) := by rw [hoffset, hopcode, hsize]
    exact Instruction.endPosition_congr hsum
  rw [hend] at htext
  exact ⟨hoffset, Code.ext hopcode (Operand.eq_of_plainText hplain hshape htext)⟩

/-- The lines of codes that stand one after another determine them. -/
theorem eq_of_map_plainLine {cs cs' : List Code} {offset : Nat}
    (hplain : ∀ i ∈ place offset cs, i.operand.shape ∈ Shape.plain)
    (h : (place offset cs).map Instruction.plainLine = (place offset cs').map Instruction.plainLine) :
    cs = cs' := by
  induction cs generalizing cs' offset with
  | nil =>
    cases cs' with
    | nil => rfl
    | cons c' cs' => cases h
  | cons c cs ih =>
    cases cs' with
    | nil => cases h
    | cons c' cs' =>
      obtain ⟨hline, hlines⟩ := List.cons.inj h
      obtain ⟨-, rfl⟩ := eq_of_plainLine (hplain _ List.mem_cons_self) hline
      rw [ih (fun i hi => hplain i (.tail _ hi)) hlines]

end Code

/-! ## Whole texts -/

namespace Decoder

variable {σ : Type}

/-- The lines of codes that stand one after another, each with a line feed behind it. -/
def plainListing (cs : List Code) : String :=
  String.join (((Code.place 0 cs).map Instruction.plainLine).map (· ++ "\n"))

theorem gives_text {cs : List Code} (hplain : ∀ i ∈ Code.place 0 cs, i.operand.shape ∈ Shape.plain)
    (r : Resolver σ) :
    ((ofBytes (Code.encodeAll cs) .standard).text r).Gives (.ok (.ok (plainListing cs))) := by
  have houtcome := decodeAll_ofBytes_of_readAll (Instruction.readAll_encodeAll cs 0) .standard
  have hline : ∀ l ∈ (Code.place 0 cs).map (fresh .standard), ∀ w,
      ((l.line r).result w).map Prod.fst = .ok l.instruction.plainLine := by
    intro l hl w
    obtain ⟨i, hi, rfl⟩ := List.mem_map.mp hl
    rw [Instruction.gives_line_fresh (hplain i hi) r w]
    rfl
  have hall : ((Code.place 0 cs).map (fresh .standard)).mapM
      (fun l => (.ok l.instruction.plainLine : Except NotAMember String))
        = .ok ((Code.place 0 cs).map Instruction.plainLine) := by
    rw [mapM_eq_ok_iff, List.map_map, List.map_map]
    rfl
  have hlines := gives_lines houtcome hline
  rw [hall] at hlines
  exact hlines.bind fun _ => Render.gives_pure _

/-- **The text is lossless.**  A body that is walked to its end and has plain operands only has a text,
    the same for every resolver and in every world, and no other such body has the same text. -/
theorem text_lossless {a b : Bytes} {xs ys : List Listed}
    (ha : (ofBytes a .standard).decodeAll.outcome = .ok xs)
    (hb : (ofBytes b .standard).decodeAll.outcome = .ok ys)
    (hxs : ∀ l ∈ xs, l.instruction.operand.shape ∈ Shape.plain)
    (hys : ∀ l ∈ ys, l.instruction.operand.shape ∈ Shape.plain) :
    (∃ s, ∀ {σ : Type} (r : Resolver σ) (w : World σ),
      ((ofBytes a .standard).text r).result w = .ok (.ok s)) ∧
    ∀ {σ τ : Type} (r : Resolver σ) (r' : Resolver τ) (w : World σ) (w' : World τ),
      ((ofBytes a .standard).text r).result w = ((ofBytes b .standard).text r').result w' → a = b := by
  have hcodes {bytes : Bytes} {zs : List Listed}
      (hz : (ofBytes bytes .standard).decodeAll.outcome = .ok zs)
      (hzs : ∀ l ∈ zs, l.instruction.operand.shape ∈ Shape.plain) :
      ∃ cs, bytes = Code.encodeAll cs ∧ ∀ i ∈ Code.place 0 cs, i.operand.shape ∈ Shape.plain := by
    obtain ⟨hstop, rfl⟩ := decodeAll_ofBytes_eq_ok_iff.mp hz
    obtain ⟨cs, rfl⟩ := Instruction.eq_encodeAll_of_readAll hstop
    rw [Instruction.readAll_encodeAll] at hzs
    exact ⟨cs, rfl, fun i hi => hzs (fresh .standard i) (List.mem_map_of_mem hi)⟩
  have hprintable (cs : List Code) :
      ∀ s ∈ (Code.place 0 cs).map Instruction.plainLine, Printable s.toList := by
    intro s hs
    obtain ⟨i, hi, rfl⟩ := List.mem_map.mp hs
    exact Code.printable_plainLine hi
  obtain ⟨cs, rfl, hcs⟩ := hcodes ha hxs
  obtain ⟨cs', rfl, hcs'⟩ := hcodes hb hys
  refine ⟨⟨plainListing cs, fun r => gives_text hcs r⟩, ?_⟩
  intro σ τ r r' w w' h
  rw [gives_text hcs r w, gives_text hcs' r' w'] at h
  have hlisting : plainListing cs = plainListing cs' := Except.ok.inj (Except.ok.inj h)
  have hlines := join_lines_inj (hprintable cs) (hprintable cs') hlisting
  rw [Code.eq_of_map_plainLine hcs hlines]

/-- A `switch` to its end and to the position before the body, and one with a single case that goes
    where the first case of the other goes. -/
theorem text_lossless_switch :
    let a : Bytes := [0x45, 2, 0, 0, 0, 0, 0, 0, 0, 0xF2, 0xFF, 0xFF, 0xFF]
    let b : Bytes := [0x45, 1, 0, 0, 0, 4, 0, 0, 0]
    ∀ (r : Resolver Unit) (w : World Unit),
      (∃ s, ((ofBytes a .standard).text r).result w = .ok (.ok s)) ∧
      ((ofBytes a .standard).text r).result w ≠ ((ofBytes b .standard).text r).result w := by
  intro a b r w
  let both : Instruction := ⟨0, ⟨0x45, "switch", .switch⟩, .switch [0, -14]⟩
  let single : Instruction := ⟨0, ⟨0x45, "switch", .switch⟩, .switch [4]⟩
  have hreadA : Instruction.readAll 0 a = ⟨[both], none⟩ := by decide +kernel
  have hreadB : Instruction.readAll 0 b = ⟨[single], none⟩ := by decide +kernel
  have ha := decodeAll_ofBytes_of_readAll hreadA .standard
  have hb := decodeAll_ofBytes_of_readAll hreadB .standard
  obtain ⟨⟨s, hs⟩, hlossless⟩ := text_lossless ha hb (by decide) (by decide)
  refine ⟨⟨s, hs r w⟩, ?_⟩
  intro hsame
  exact absurd (hlossless r r w w hsame) (by decide)

end Decoder

end Cil
