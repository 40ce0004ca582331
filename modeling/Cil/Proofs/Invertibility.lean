import Cil.Proofs.OneLine

/-
  LISTS CAN BE READ OFF THEIR TEXTS.

  A jump table shows its targets and a signature its bytes, and there may be any number of them, also
  none.  For both there is an exact reader, put together from the reader of one item.

  Positions are as wide as they need to be, and have a sign if they lie before the body.  What ends one is
  the comma, which is neither a digit nor a sign (`Style.isPartialInv_readLabels?`).  A byte has two digits,
  and what divides bytes is a blank (`Style.isPartialInv_readSignature?`).  No item is empty, so the
  brackets of an empty list are not mistaken for those around one item.

  So the number of the cases of a jump table, their order and where each of them goes can be read off its
  operand (`Style.lists_invertible`).
-/

namespace Cil

open Function (IsPartialInv)

namespace Hex

/-- The value of an upper-case digit. -/
def upperValue? (c : Char) : Option Nat := upperAlphabet.idxOf? c

theorem upperValue?_eq_some_iff {c : Char} {d : Nat} :
    upperValue? c = some d ↔ ∃ h : d < 16, upperAlphabet.get ⟨d, h⟩ = c := by
  have hnodup : upperAlphabet.Nodup := by decide
  rw [upperValue?, List.idxOf?_eq_some_iff]
  constructor
  · rintro ⟨h, hc, -⟩
    exact ⟨h, hc⟩
  · rintro ⟨h, hc⟩
    refine ⟨h, hc, ?_⟩
    -- no digit stands in the alphabet twice
    intro j hj hcj
    have hsame : j = d := hnodup.getElem_inj_iff.mp (hcj.trans hc.symm)
    omega

/-- Reads a byte: two upper-case digits. -/
def byte? : List Char → Option UInt8
  | [high, low] => do
    let h ← upperValue? high
    let l ← upperValue? low
    return UInt8.ofNat (16 * h + l)
  | _ => none

theorem isPartialInv_byte? : IsPartialInv byteDigits byte? := by
  intro b cs
  constructor
  · intro hread
    unfold byte? at hread
    split at hread
    · simp only [Option.bind_eq_bind, Option.bind_eq_some_iff, Option.pure_def, Option.some.injEq] at hread
      obtain ⟨h, hhigh, l, hlow, rfl⟩ := hread
      obtain ⟨hh, rfl⟩ := upperValue?_eq_some_iff.mp hhigh
      obtain ⟨hl, rfl⟩ := upperValue?_eq_some_iff.mp hlow
      have hupper : (16 * h + l) / 16 % 16 = h := by omega
      have hlower : (16 * h + l) % 16 = l := by omega
      rw [byteDigits_ofNat, hupper, hlower, digit_upper hh, digit_upper hl]
    · cases hread
  · rintro rfl
    have hb := b.toNat_lt
    have hhigh := upperValue?_eq_some_iff.mpr ⟨(by omega : b.toNat / 16 < 16), rfl⟩
    have hlow := upperValue?_eq_some_iff.mpr ⟨(by omega : b.toNat % 16 < 16), rfl⟩
    rw [byteDigits, byte?, hhigh, hlow]
    show some (UInt8.ofNat (16 * (b.toNat / 16) + b.toNat % 16)) = some b
    rw [Nat.div_add_mod, UInt8.ofNat_toNat]

end Hex

namespace Style

/-- Reads a signature: bytes with a blank between them. -/
def readSignature? (text : List Char) : Option Bytes :=
  (between? ['S', 'I', 'G', ' ', '['] [']'] text).bind (readItems? ' ' [] Hex.byte?)

theorem isPartialInv_readSignature? :
    IsPartialInv (fun bytes => (standard.signature bytes).toList) readSignature? := by
  have hpieces (b : UInt8) : Hex.byteDigits b ≠ [] ∧ ' ' ∉ Hex.byteDigits b := by
    refine ⟨List.cons_ne_nil _ _, ?_⟩
    intro hblank
    exact absurd (Hex.byteDigits_subset b hblank) (by decide)
  have hitems := isPartialInv_readItems? Hex.isPartialInv_byte? hpieces List.not_mem_nil
  simp only [toList_standardSignature]
  exact hitems.comp (isPartialInv_between? ['S', 'I', 'G', ' ', '['] [']'])

/-- **Lists can be read off their texts.**  For each of the standard conventions for a position, for
    positions and for the bytes of a signature there is a reader that accepts the texts which the convention
    writes and no others, and gives back what was written.  So different positions, from the least word of
    64 bits to the greatest, look different, and so do different lists, whatever their lengths.  A jump
    table in the standard style shows a text from which its targets are read, one for each case and in the
    order of the cases. -/
theorem lists_invertible :
    (∀ (p : Int64) (text : String), readLabel? text.toList = some p ↔ standard.label p = text) ∧
    (∀ (ps : List Int64) (text : String), readLabels? text.toList = some ps ↔ standard.labels ps = text) ∧
    (∀ (bytes : Bytes) (text : String),
      readSignature? text.toList = some bytes ↔ standard.signature bytes = text) ∧
    Function.Injective standard.label ∧ Function.Injective standard.labels ∧
    Function.Injective standard.signature ∧
    ∀ {σ : Type} (r : Resolver σ) (w : World σ) (l : Listed) (deltas : List Int32), l.style = .standard →
      l.instruction.operand = .switch deltas →
      ∃ text ps, (l.operandText r).result w = .ok (.ok text, l) ∧ readLabels? text.toList = some ps ∧
        ps = l.instruction.targets ∧ ps.length = deltas.length ∧
        ∀ (k : Nat) (delta : Int32), deltas[k]? = some delta →
          ps[k]? = some (l.instruction.endPosition + delta.toInt64) := by
  have hsignature : IsPartialInv standard.signature (readSignature? ·.toList) :=
    isPartialInv_text isPartialInv_readSignature?
  have hlabels : IsPartialInv standard.labels (readLabels? ·.toList) :=
    isPartialInv_text isPartialInv_readLabels?
  refine ⟨isPartialInv_text isPartialInv_readLabel?, hlabels, hsignature, standardLabel_injective,
    standardLabels_injective, hsignature.injective, ?_⟩
  intro σ r w l deltas hstyle ho
  have htargets : l.instruction.targets = deltas.map fun d => l.instruction.endPosition + d.toInt64 := by
    rw [Instruction.targets, ho]
  have hplain : l.instruction.operand.shape ∈ Shape.plain := by simp [ho, Operand.shape, Shape.plain]
  have htext : (l.operandText r).result w = .ok (.ok (standard.labels l.instruction.targets), l) := by
    rw [Listed.operandText_of_plain hstyle hplain r, htargets, ho]
    rfl
  refine ⟨_, _, htext, hlabels.eq _, rfl, ?_, ?_⟩
  · rw [htargets, List.length_map]
  · intro k delta hk
    rw [htargets, List.getElem?_map, hk, Option.map_some]

/-- The least position; no cases, and no bytes; and a jump table with a case before the body and one that
    is more than four digits wide. -/
theorem lists_invertible_extremes :
    readLabel? "IL_-8000000000000000".toList = some Int64.minValue ∧
    readLabels? "()".toList = some [] ∧ readSignature? "SIG []".toList = some [] ∧
    readSignature? "SIG [00 0A FF]".toList = some [0x00, 0x0A, 0xFF] ∧
    let table : Listed :=
      { instruction := ⟨1, ⟨0x45, "switch", .switch⟩, .switch [-28, 0x12337, 0]⟩
        style := .standard }
    ∃ text, (table.operandText Scope.resolver).result ⟨{}, #[]⟩ = .ok (.ok text, table) ∧
      readLabels? text.toList = some [-10, 0x12349, 18] := by
  obtain ⟨hlabel, hlabels, hsignature, -, -, -, hswitch⟩ := lists_invertible
  refine ⟨(hlabel _ _).mpr (by decide +kernel), (hlabels _ _).mpr (by decide +kernel),
    (hsignature _ _).mpr (by decide +kernel), (hsignature _ _).mpr (by decide +kernel), ?_⟩
  intro table
  obtain ⟨text, ps, htext, hread, hps, -, -⟩ :=
    hswitch Scope.resolver ⟨{}, #[]⟩ table [-28, 0x12337, 0] rfl rfl
  refine ⟨text, htext, ?_⟩
  rw [hread, hps]
  decide

end Style

end Cil
