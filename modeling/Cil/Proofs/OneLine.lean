import Cil.Proofs.Labels
import Cil.Proofs.Quoting
import Cil.Proofs.RawDigits

/-
  A LINE STAYS ONE LINE.

  What the host has to say gets into a line as a string, as the bytes of a signature, as a name, or as the
  reason why there is no answer.  Strings and reasons are quoted (`Quoted.printable_encode`), and bytes are
  written as digits (`Style.printable_standardSignature`).  Everything else in a line is written by the
  listing itself: numerals, floating-point constants among them (`Binary.Value.printable_text`), labels and
  mnemonics.  All of this is plain ASCII.

  Only names are shown as they are.  So, unless it shows a name, a line cannot be made to look like two,
  whatever the host answers (`Listed.line_stays_one`).
-/

namespace Cil

/-! ## Floating-point constants -/

namespace Decimal

/-- The characters of decimals that are written positionally. -/
def alphabet : List Char := '.' :: decimalAlphabet

theorem toDigits_subset (c : Nat) : Nat.toDigits 10 c ⊆ alphabet := fun _ hd =>
  List.mem_cons_of_mem '.' (toDigits_subset_decimalAlphabet c hd)

theorem replicate_zero_subset (k : Nat) : List.replicate k '0' ⊆ alphabet := by
  intro d hd
  rw [List.eq_of_mem_replicate hd]
  decide

theorem positionalText_subset (pointZero : Bool) (c : Nat) (e : Int) :
    positionalText pointZero c e ⊆ alphabet := by
  have hdigits := toDigits_subset c
  have hpoint : '.' ∈ alphabet := by decide
  have hzero : '0' ∈ alphabet := by decide
  unfold positionalText
  dsimp only
  split
  · refine List.append_subset.mpr ⟨List.append_subset.mpr ⟨hdigits, replicate_zero_subset _⟩, ?_⟩
    split
    · simp [hpoint, hzero]
    · exact List.nil_subset _
  · split
    · -- the point stands among the digits
      refine List.append_subset.mpr ⟨fun d hd => hdigits (List.mem_of_mem_take hd), ?_⟩
      exact List.cons_subset.mpr ⟨hpoint, fun d hd => hdigits (List.mem_of_mem_drop hd)⟩
    · -- the point stands in front of them
      refine List.cons_subset.mpr ⟨hzero, List.cons_subset.mpr ⟨hpoint, ?_⟩⟩
      exact List.append_subset.mpr ⟨replicate_zero_subset _, hdigits⟩

end Decimal

/-- A floating-point constant in a listing is `NaN`, `inf`, `-inf`, or digits with a sign and a point. -/
theorem Binary.Value.printable_text (v : Binary.Value) : Printable (v.text Operand.floatLayout).toList := by
  cases v with
  | nan => decide
  | infinite negative => cases negative <;> decide
  | finite negative m q narrow =>
    have hdigits (c : Nat) (e : Int) : Printable (Operand.floatLayout.digits c e) :=
      .of_subset (Decimal.positionalText_subset false c e) (by decide)
    unfold Binary.Value.text
    dsimp only
    rw [String.toList_ofList]
    split
    · exact Printable.cons_iff.mpr ⟨by decide, hdigits _ _⟩
    · exact hdigits _ _

/-! ## Signatures -/

theorem Style.toList_standardSignature (bytes : Bytes) : (Style.standard.signature bytes).toList
    = ['S', 'I', 'G', ' ', '['] ++ ([' '].intercalate (bytes.map Hex.byteDigits) ++ [']']) := by
  show ("SIG [" ++ " ".intercalate (bytes.map fun b => Hex.fixed .upper 2 b.toNat) ++ "]").toList = _
  rw [String.toList_append, String.toList_append, String.toList_intercalate, List.map_map, List.append_assoc]
  simp only [Function.comp_def, Hex.toList_fixed_byte]
  rfl

theorem Style.printable_standardSignature (bytes : Bytes) :
    Printable (Style.standard.signature bytes).toList := by
  have hjoined : Printable ([' '].intercalate (bytes.map Hex.byteDigits)) := by
    apply Style.printable_intercalate (by decide)
    intro x hx
    obtain ⟨b, -, rfl⟩ := List.mem_map.mp hx
    exact .of_subset (Hex.byteDigits_subset b) (by decide)
  rw [Style.toList_standardSignature]
  exact Printable.append_iff.mpr ⟨by decide, Printable.append_iff.mpr ⟨hjoined, by decide⟩⟩

/-! ## Operands -/

theorem exists_of_map_eq_ok {ε α β : Type} {f : α → β} {x : Except ε α} {y : β} (h : x.map f = .ok y) :
    ∃ v, x = .ok v ∧ f v = y := by
  cases x with
  | error e => cases h
  | ok v => exact ⟨v, rfl, Except.ok.inj h⟩

/-- The shapes whose operands are shown by the names that the host has for them. -/
def Shape.named : List Shape :=
  [.token (.entity .method), .token (.entity .field), .token (.entity .type), .token .member]

namespace Listed

variable {σ : Type}

/-- The text of an operand that is not a name is plain, whatever the host answers or has answered. -/
theorem printable_operandText {l after : Listed} (hstyle : l.style = .standard)
    (hshape : l.instruction.operand.shape ∉ Shape.named) {r : Resolver σ} {w : World σ} {text : String}
    (h : (l.operandText r).result w = .ok (.ok text, after)) : Printable text.toList := by
  cases ho : l.instruction.operand with
  | shortFloat bits =>
    rw [operandText, ho] at h
    cases h
    exact Binary.Value.printable_text _
  | float bits =>
    rw [operandText, ho] at h
    cases h
    exact Binary.Value.printable_text _
  | token expects t =>
    rw [ho] at hshape
    cases expects with
    | member => simp [Operand.shape, Shape.named] at hshape
    | entity c =>
      cases c with
      | method => simp [Operand.shape, Shape.named] at hshape
      | field => simp [Operand.shape, Shape.named] at hshape
      | type => simp [Operand.shape, Shape.named] at hshape
      | string =>
        rw [operandText, ho, hstyle] at h
        change Except.ok ((r.answer w.host .string t).map Quoted.encode, l) = _ at h
        obtain ⟨units, -, rfl⟩ := exists_of_map_eq_ok (congrArg Prod.fst (Except.ok.inj h))
        exact Quoted.printable_encode units
      | signature =>
        rw [operandText, ho] at h
        dsimp only at h
        cases hs : l.signature? with
        | some bytes =>
          rw [signature_of_some hs] at h
          cases h
          rw [hstyle]
          exact Style.printable_standardSignature bytes
        | none =>
          rw [signature_of_wants ⟨hs, ho⟩] at h
          change Except.ok ((r.answer w.host .signature t).map l.style.signature, _) = _ at h
          obtain ⟨bytes, -, rfl⟩ := exists_of_map_eq_ok (congrArg Prod.fst (Except.ok.inj h))
          rw [hstyle]
          exact Style.printable_standardSignature bytes
  | _ =>
    have hplain : l.instruction.operand.shape ∈ Shape.plain := by
      rw [ho]
      simp [Operand.shape, Shape.plain]
    rw [operandText_of_plain hstyle hplain r] at h
    cases h
    exact Operand.printable_plainText _ _

/-- What a line shows of an operand is plain, unless it is a name that the host has given. -/
theorem printable_shownOperand {l after : Listed} (hstyle : l.style = .standard) {r : Resolver σ}
    {w : World σ} {operand : Except Error String} (h : (l.operandText r).result w = .ok (operand, after)) :
    Printable (Style.shownOperand Quoted.encode operand).toList ∨
      l.instruction.operand.shape ∈ Shape.named ∧ ∃ text, operand = .ok text := by
  cases operand with
  | error e =>
    left
    show Printable ("!" ++ Quoted.encode (Utf16.encode e.text) ++ "!").toList
    rw [String.toList_append, String.toList_append]
    refine Printable.append_iff.mpr ⟨Printable.append_iff.mpr ⟨by decide, ?_⟩, by decide⟩
    exact Quoted.printable_encode _
  | ok text =>
    by_cases hshape : l.instruction.operand.shape ∈ Shape.named
    · exact .inr ⟨hshape, text, rfl⟩
    · exact .inl (printable_operandText hstyle hshape h)

/-- **A line stays one line.**  An instruction that was read off some bytes is rendered in the standard
    style, whatever it remembers, by any resolver in any world.  Either it loads a token that no member is
    found for, and then the rendering is given up; by the tables, these are the tokens that name none.  Or
    there is a line.  The line begins with `IL_` and the numeral of the offset, which has four digits or as
    many more as it needs.  All characters of the line are plain, unless it shows a method, a field, a type
    or a member by the name that was answered. -/
theorem line_stays_one {l : Listed} {offset : Nat} {bs rest : Bytes}
    (hread : Instruction.read offset bs = .ok (l.instruction, rest)) (hstyle : l.style = .standard)
    (r : Resolver σ) (w : World σ) :
    ((∃ t, l.instruction.operand = .token .member t) ∧
      (r.member? = none → l.instruction.LoadsNoMember) ∧ ∃ stop, (l.line r).result w = .error stop) ∨
    ∃ operand after line, (l.operandText r).result w = .ok (operand, after) ∧
      (l.line r).result w = .ok (line, after) ∧
      (∃ digits behind, line.toList = 'I' :: 'L' :: '_' :: (digits ++ ':' :: ' ' :: behind) ∧
        Hex.IsNumeral 4 offset digits) ∧
      (Printable line.toList ∨ l.instruction.operand.shape ∈ Shape.named ∧ ∃ text, operand = .ok text) := by
  obtain ⟨hoffset, hwellFormed, -⟩ := Instruction.read_eq_ok hread
  have hline : (l.line r).result w = (l.operandText r).result w >>= fun x =>
      .ok ((Style.standardLine Quoted.encode (l.parts x.1)).text, x.2) := by
    rw [line, hstyle]
    exact result_lineIn Style.standardLines_standard r l w
  cases hoperand : (l.operandText r).result w with
  | error stop =>
    left
    refine ⟨exists_member_of_error hoperand, fun hr => ?_, stop, ?_⟩
    · exact (result_operandText_eq_error_iff hr w).mp ⟨stop, hoperand⟩
    · rw [hline, hoperand]
      rfl
  | ok result =>
    right
    obtain ⟨operand, after⟩ := result
    have hmnemonic : Printable (l.parts operand).mnemonic.toList :=
      (Opcode.printable_name_all _ hwellFormed.defined).2
    rw [hline, hoperand]
    refine ⟨operand, after, _, rfl, rfl, ⟨_, _, Style.toList_standardLine Quoted.encode _, ?_⟩, ?_⟩
    · show Hex.IsNumeral 4 offset (Hex.atLeastDigits 4 l.instruction.offset)
      rw [hoffset]
      exact Hex.isNumeral_atLeastDigits (by decide) offset
    · exact (printable_shownOperand hstyle hoperand).imp_left (Style.printable_standardLine hmnemonic)

/-- A string and a reason that begin with a line feed and go on like a line, in the operand of an `ldstr`
    behind the first 64 KiB of a body; and the same reason from a resolver that finds members in its own way,
    for a token whose table names none. -/
theorem line_stays_one_forged :
    let forged : String := "\nIL_0005: ret        "
    let load : Listed :=
      { instruction := ⟨0x12345, ⟨0x72, "ldstr", .token (.entity .string)⟩,
          .token (.entity .string) ⟨0x70000001⟩⟩
        style := .standard }
    let loadToken : Listed :=
      { instruction := ⟨0, ⟨0xD0, "ldtoken", .token .member⟩, .token .member ⟨0x01000001⟩⟩
        style := .standard }
    let lookup : Lookup := fun _ _ => .error (.extraction forged)
    let own : Resolver Unit := .ofLookup lookup (some fun _ => .ok (.error (.extraction forged)))
    (∃ line after, (load.line Scope.resolver).result ⟨⟨#[.ofText forged]⟩, #[]⟩ = .ok (line, after) ∧
      Printable line.toList) ∧
    (∃ line after, (load.line (.ofLookup lookup)).result { host := () } = .ok (line, after) ∧
      Printable line.toList) ∧
    ∃ line after, (loadToken.line own).result { host := () } = .ok (line, after) ∧
      Printable line.toList := by
  intro forged load loadToken lookup own
  have hread : Instruction.read 0x12345 [0x72, 1, 0, 0, 0x70] = .ok (load.instruction, []) := by
    decide +kernel
  have hreadToken : Instruction.read 0 [0xD0, 1, 0, 0, 0x01] = .ok (loadToken.instruction, []) := by
    decide +kernel
  have hnamed : load.instruction.operand.shape ∉ Shape.named := by decide
  have hplain {σ : Type} (r : Resolver σ) (w : World σ) :
      ∃ line after, (load.line r).result w = .ok (line, after) ∧ Printable line.toList := by
    rcases line_stays_one hread rfl r w with
      ⟨⟨t, ⟨⟩⟩, -⟩ | ⟨-, after, line, -, hline, -, hplain | ⟨habsurd, -⟩⟩
    · exact ⟨line, after, hline, hplain⟩
    · exact absurd habsurd hnamed
  have hreason : (loadToken.operandText own).result { host := () }
      = .ok (.error (.extraction forged), loadToken) := rfl
  refine ⟨hplain _ _, hplain _ _, ?_⟩
  rcases line_stays_one hreadToken rfl own { host := () } with
    ⟨-, -, stop, ⟨⟩⟩ | ⟨operand, after, line, hoperand, hline, -, hplain | ⟨-, text, rfl⟩⟩
  · exact ⟨line, after, hline, hplain⟩
  · cases hreason.symm.trans hoperand

end Listed

end Cil
