import Cil.Proofs.Calls
import Cil.Proofs.Labels

/-
  A LINE DETERMINES ITS PARTS.

  The fields of a line are divided by blanks, blanks also fill up the column of a mnemonic, and an
  operand may begin with blanks of its own or hold a colon.  Still there is one way only to take a line
  apart, from left to right (`Style.readLine?`).  A numeral has no colon, so the first colon ends the
  offset.  A mnemonic has no blank, so the first blank behind that ends the mnemonic.  The mnemonic says
  how wide its column is, and what follows the column and one more blank is the operand, whatever it is.

  The mnemonic tells the opcode, since no two opcodes have the same (`Opcode.named?_name`).
-/

namespace Cil

/-- What stands in front of the first `a`. -/
theorem takeWhile_ne {α : Type} [DecidableEq α] {a : α} {xs : List α} (h : a ∉ xs) (ys : List α) :
    (xs ++ a :: ys).takeWhile (· ≠ a) = xs := by
  have hfront : ∀ x ∈ xs, decide (x ≠ a) = true := by
    intro x hx
    rw [decide_eq_true_iff]
    rintro rfl
    exact h hx
  rw [List.takeWhile_append_of_pos hfront, List.takeWhile_cons_of_neg (by simp), List.append_nil]

namespace Opcode

/-- The opcode that a mnemonic belongs to. -/
def named? (name : String) : Option Opcode := all.find? (·.name == name)

theorem named?_name {o : Opcode} (h : o ∈ all) : named? o.name = some o := by
  cases hfound : named? o.name with
  | none =>
    have hnone := List.find?_eq_none.mp hfound o h
    simp at hnone
  | some p =>
    -- whatever is found first has the same mnemonic
    have hname : p.name = o.name := by simpa using List.find?_some hfound
    rw [eq_of_name_eq (List.mem_of_find?_eq_some hfound) h hname]

end Opcode

namespace Style

/-- The parts of a line: the offset stands behind `IL_` and in front of a colon, the mnemonic up to the
    first blank behind, and the operand behind the column of the mnemonic and one more blank. -/
def readLine? (line : String) : Option (Nat × Opcode × String) := do
  let numbered := line.toList.drop 3
  let behind := (numbered.dropWhile (· ≠ ':')).drop 2
  let mnemonic := behind.takeWhile (· ≠ ' ')
  let offset ← Hex.value? (numbered.takeWhile (· ≠ ':'))
  let opcode ← Opcode.named? (String.ofList mnemonic)
  return (offset, opcode, String.ofList (behind.drop (max 10 mnemonic.length + 1)))

/-- The column of a mnemonic and one more blank are as wide as the mnemonic says. -/
theorem drop_column (mnemonic operand : List Char) :
    (mnemonic ++ ' ' :: (List.replicate (10 - mnemonic.length) ' ' ++ operand)).drop
      (max 10 mnemonic.length + 1) = operand := by
  have hwidth : max 10 mnemonic.length + 1
      = (mnemonic ++ ' ' :: List.replicate (10 - mnemonic.length) ' ').length := by
    rw [List.length_append, List.length_cons, List.length_replicate]
    omega
  rw [hwidth, ← List.cons_append, ← List.append_assoc]
  exact List.drop_left

/-- A mnemonic that fills its column is not filled up. -/
theorem mnemonicColumn_of_wide {mnemonic : String} (h : 10 ≤ mnemonic.length) :
    mnemonicColumn mnemonic = mnemonic := by
  rw [mnemonicColumn, Nat.sub_eq_zero_of_le h, List.replicate_zero]
  exact String.append_empty

/-- A line in the standard style reads back as what it was put together from. -/
theorem readLine?_standardLine {p : Parts} {o : Opcode} (ho : o ∈ Opcode.all) (hp : p.mnemonic = o.name)
    (quoted : List UInt16 → String) :
    readLine? (standardLine quoted p).text = some (p.offset, o, shownOperand quoted p.operand) := by
  have hcolon : ':' ∉ Hex.atLeastDigits 4 p.offset := Hex.not_mem_atLeastDigits (by decide) 4 p.offset
  have hblank : ' ' ∉ p.mnemonic.toList := hp ▸ (Opcode.printable_name_all o ho).1
  -- behind the colon and its blank
  have hbehind (cs : List Char) :
      ((Hex.atLeastDigits 4 p.offset ++ ':' :: ' ' :: cs).dropWhile (· ≠ ':')).drop 2 = cs := by
    rw [show 2 = 1 + 1 from rfl, ← List.drop_drop, drop_dropWhile_ne hcolon]
    rfl
  unfold readLine?
  rw [toList_standardLine, List.drop_succ_cons, List.drop_succ_cons, List.drop_succ_cons, List.drop_zero]
  dsimp only
  rw [hbehind, takeWhile_ne hcolon, takeWhile_ne hblank, Hex.value?_atLeastDigits, ← String.length_toList,
    drop_column, String.ofList_toList, String.ofList_toList, hp, Opcode.named?_name ho]
  rfl

end Style

namespace Listed

variable {σ τ : Type}

/-- A line in the standard style is made of the offset, the column of the mnemonic, and what is shown of
    the operand, and these can be read off it. -/
theorem exists_layout {l after : Listed} {offset : Nat} {bs rest : Bytes}
    (hread : Instruction.read offset bs = .ok (l.instruction, rest)) (hstyle : l.style = .standard)
    {r : Resolver σ} {w : World σ} {line : String} (hline : (l.line r).result w = .ok (line, after)) :
    ∃ operand, (l.operandText r).result w = .ok (operand, after) ∧
      line = "IL_" ++ Hex.atLeast 4 l.instruction.offset ++ ": "
        ++ Style.mnemonicColumn l.instruction.opcode.name ++ " "
        ++ Style.shownOperand Quoted.encode operand ∧
      Style.readLine? line = some (l.instruction.offset, l.instruction.opcode,
        Style.shownOperand Quoted.encode operand) := by
  rw [Listed.line, hstyle] at hline
  obtain ⟨operand, hoperand, rfl⟩ := (result_lineIn_eq_ok_iff Style.standardLines_standard).mp hline
  have hdefined : l.instruction.opcode ∈ Opcode.all := (Instruction.read_eq_ok hread).2.1.defined
  exact ⟨operand, hoperand, Style.text_standardLine Quoted.encode (l.parts operand),
    Style.readLine?_standardLine hdefined rfl Quoted.encode⟩

/-- **A line determines its parts.**  Two instructions that were read off some bytes are rendered in the
    standard style, by any resolvers in any worlds.  Their lines are the same exactly if the offsets, the
    opcodes and what is shown of the operands are the same, be it a text, which may be anything, or the
    reason why there is none.  There is one reading of a line that finds all three, and the mnemonic stands
    in the line in full: if it is as wide as its column or wider, there is one blank behind it. -/
theorem line_determines_parts {l l' after after' : Listed} {offset offset' : Nat}
    {bs bs' rest rest' : Bytes}
    (hread : Instruction.read offset bs = .ok (l.instruction, rest)) (hstyle : l.style = .standard)
    (hread' : Instruction.read offset' bs' = .ok (l'.instruction, rest')) (hstyle' : l'.style = .standard)
    {r : Resolver σ} {r' : Resolver τ} {w : World σ} {w' : World τ} {line line' : String}
    (hline : (l.line r).result w = .ok (line, after))
    (hline' : (l'.line r').result w' = .ok (line', after')) :
    ∃ operand operand', (l.operandText r).result w = .ok (operand, after) ∧
      (l'.operandText r').result w' = .ok (operand', after') ∧
      (line = line' ↔ l.instruction.offset = l'.instruction.offset ∧
        l.instruction.opcode = l'.instruction.opcode ∧
        Style.shownOperand Quoted.encode operand = Style.shownOperand Quoted.encode operand') ∧
      Style.readLine? line = some (l.instruction.offset, l.instruction.opcode,
        Style.shownOperand Quoted.encode operand) ∧
      (10 ≤ l.instruction.opcode.name.length → line = "IL_" ++ Hex.atLeast 4 l.instruction.offset ++ ": "
        ++ l.instruction.opcode.name ++ " " ++ Style.shownOperand Quoted.encode operand) := by
  obtain ⟨operand, hoperand, hlayout, hparts⟩ := exists_layout hread hstyle hline
  obtain ⟨operand', hoperand', hlayout', hparts'⟩ := exists_layout hread' hstyle' hline'
  refine ⟨operand, operand', hoperand, hoperand', ⟨?_, ?_⟩, hparts, ?_⟩
  · rintro rfl
    have hsame := Option.some.inj (hparts.symm.trans hparts')
    rw [Prod.mk.injEq, Prod.mk.injEq] at hsame
    exact hsame
  · rintro ⟨hoffset, hopcode, hshown⟩
    rw [hlayout, hlayout', hoffset, hopcode, hshown]
  · intro hwide
    rw [hlayout, Style.mnemonicColumn_of_wide hwide]

/-- Two `constrained.` on types whose names hold a colon and begin with blanks, one with two and one with
    three.  The mnemonic is wider than its column, so nothing but the names tells the lines apart. -/
theorem line_determines_parts_blanks :
    let opcode : Opcode := ⟨0xFE16, "constrained.", .token (.entity .type)⟩
    let l : Listed :=
      { instruction := ⟨0x10, opcode, .token (.entity .type) ⟨0x02000001⟩⟩, style := .standard }
    let naming (name : String) : World Scope := ⟨⟨#[.type { name }]⟩, #[]⟩
    ∃ line line' after after',
      (l.line Scope.resolver).result (naming "  a: b") = .ok (line, after) ∧
      (l.line Scope.resolver).result (naming "   a: b") = .ok (line', after') ∧
      line ≠ line' ∧ Style.readLine? line = some (0x10, opcode, "  a: b") ∧
      line = "IL_" ++ Hex.atLeast 4 0x10 ++ ": " ++ "constrained." ++ " " ++ "  a: b" := by
  intro opcode l naming
  have hread : Instruction.read 0x10 [0xFE, 0x16, 1, 0, 0, 0x02] = .ok (l.instruction, []) := by
    decide +kernel
  have hload : ¬ l.instruction.LoadsNoMember := by decide
  have hshown (w : World Scope) : ∃ shown, (l.line Scope.resolver).result w = .ok shown :=
    exists_result_lineIn rfl hload l.style w
  have htext (name : String) :
      (l.operandText Scope.resolver).result (naming name) = .ok (.ok name, l) := rfl
  obtain ⟨⟨line, after⟩, hline⟩ := hshown (naming "  a: b")
  obtain ⟨⟨line', after'⟩, hline'⟩ := hshown (naming "   a: b")
  obtain ⟨operand, operand', hoperand, hoperand', hsame, hparts, hwide⟩ :=
    line_determines_parts hread rfl hread rfl hline hline'
  cases (htext "  a: b").symm.trans hoperand
  cases (htext "   a: b").symm.trans hoperand'
  refine ⟨line, line', _, _, hline, hline', ?_, hparts, hwide (by decide)⟩
  intro heq
  exact absurd (hsame.mp heq).2.2 (by decide)

end Listed

end Cil
