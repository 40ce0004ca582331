import Cil.Proofs.Labels

/-
  WHAT A STYLE HAS A SAY IN.

  An operand is written by one convention at most, and which one is fixed by its shape
  (`Shape.convention?`).  What is to be written, a `Phrase`, does not depend on the style at all: the style
  only writes it (`Listed.operandText_phrase`).  So two styles that have this convention in common write
  the operand alike, however they differ otherwise; and a style in which it is changed changes every text
  that is written by it, and no other (`Style.decorated`).  The digits of an operand have a convention of
  their own, by their number (`Shape.digits?`).

  Conventions that are not replaced lean on others, each on one at most (`Convention.leansOn?`), and depend
  on nothing else of the style (`Style.agreesOn_of_leansOn`).  A line leans on the one for strings, and on
  that only to show a reason; its offset is written in one way in all styles.
-/

namespace Cil

/-! ## Conventions and what is written by them -/

/-- The conventions of a style. -/
inductive Convention where
  | hex8
  | hex16
  | hex32
  | hex64
  | slot
  | label
  | labels
  | quoted
  | signature
  | line
deriving DecidableEq, Repr

/-- Something to write, with the convention for it.  A text that is there already needs none. -/
inductive Phrase where
  | text (s : String)
  | hex8 (n : UInt8)
  | hex16 (n : UInt16)
  | hex32 (n : UInt32)
  | hex64 (n : UInt64)
  | slot (n : UInt16)
  | label (position : Int64)
  | labels (positions : List Int64)
  | quoted (units : List UInt16)
  | signature (bytes : Bytes)

/-- The convention by which a phrase is written. -/
def Phrase.convention? : Phrase → Option Convention
  | .text _ => none
  | .hex8 _ => some .hex8
  | .hex16 _ => some .hex16
  | .hex32 _ => some .hex32
  | .hex64 _ => some .hex64
  | .slot _ => some .slot
  | .label _ => some .label
  | .labels _ => some .labels
  | .quoted _ => some .quoted
  | .signature _ => some .signature

/-- The same steps, with a change of the text at the end. -/
def Writing.mapText (change : String → String) : Writing → Writing
  | .done text => .done (change text)
  | .report records next => .report records (next.mapText change)
  | .operand next => .operand fun operand => (next operand).mapText change
  | .signature next => .signature fun bytes => (next bytes).mapText change

namespace Style

/-- Writes a phrase. -/
def write (style : Style) : Phrase → String
  | .text s => s
  | .hex8 n => style.hex8 n
  | .hex16 n => style.hex16 n
  | .hex32 n => style.hex32 n
  | .hex64 n => style.hex64 n
  | .slot n => style.slot n
  | .label position => style.label position
  | .labels positions => style.labels positions
  | .quoted units => style.quoted units
  | .signature bytes => style.signature bytes

/-- The styles have a convention in common. -/
def AgreesOn (P Q : Style) : Convention → Prop
  | .hex8 => P.hex8 = Q.hex8
  | .hex16 => P.hex16 = Q.hex16
  | .hex32 => P.hex32 = Q.hex32
  | .hex64 => P.hex64 = Q.hex64
  | .slot => P.slot = Q.slot
  | .label => P.label = Q.label
  | .labels => P.labels = Q.labels
  | .quoted => P.quoted = Q.quoted
  | .signature => P.signature = Q.signature
  | .line => P.line = Q.line

/-- The styles have a convention in common, if there is one to have. -/
def AgreesOn? (P Q : Style) (c? : Option Convention) : Prop := ∀ c, c? = some c → P.AgreesOn Q c

/-- A phrase depends on its convention alone. -/
theorem write_congr {P Q : Style} {p : Phrase} (h : P.AgreesOn? Q p.convention?) : P.write p = Q.write p := by
  cases p with
  | text s => rfl
  | hex8 n => exact congrFun (h .hex8 rfl) n
  | hex16 n => exact congrFun (h .hex16 rfl) n
  | hex32 n => exact congrFun (h .hex32 rfl) n
  | hex64 n => exact congrFun (h .hex64 rfl) n
  | slot n => exact congrFun (h .slot rfl) n
  | label position => exact congrFun (h .label rfl) position
  | labels positions => exact congrFun (h .labels rfl) positions
  | quoted units => exact congrFun (h .quoted rfl) units
  | signature bytes => exact congrFun (h .signature rfl) bytes

/-- The style in which one convention is followed by a change of the text. -/
def decorated (P : Style) (change : String → String) : Convention → Style
  | .hex8 => { P with hex8 := fun n => change (P.hex8 n) }
  | .hex16 => { P with hex16 := fun n => change (P.hex16 n) }
  | .hex32 => { P with hex32 := fun n => change (P.hex32 n) }
  | .hex64 => { P with hex64 := fun n => change (P.hex64 n) }
  | .slot => { P with slot := fun n => change (P.slot n) }
  | .label => { P with label := fun position => change (P.label position) }
  | .labels => { P with labels := fun positions => change (P.labels positions) }
  | .quoted => { P with quoted := fun units => change (P.quoted units) }
  | .signature => { P with signature := fun bytes => change (P.signature bytes) }
  | .line => { P with line := fun v => (P.line v).mapText change }

/-- What is written by the changed convention is changed, and nothing else is. -/
theorem write_decorated (P : Style) (change : String → String) (c : Convention) (p : Phrase) :
    (P.decorated change c).write p
      = if p.convention? = some c then change (P.write p) else P.write p := by
  cases p <;> cases c <;> rfl

end Style

/-! ## Operands -/

namespace Shape

/-- The convention by which an operand is written: constants, and what a host has named, need none. -/
def convention? : Shape → Option Convention
  | .shortBranch | .branch => some .label
  | .switch => some .labels
  | .shortVar | .var => some .slot
  | .token (.entity .string) => some .quoted
  | .token (.entity .signature) => some .signature
  | _ => none

/-- The convention by which the digits of an operand are written; where it has no bytes or a table of
    them, there are none to show. -/
def digits? : Shape → Option Convention
  | .shortBranch | .shortInt | .shortVar => some .hex8
  | .var => some .hex16
  | .branch | .int | .shortFloat | .token _ => some .hex32
  | .longInt | .float => some .hex64
  | .empty | .switch => none

end Shape

/-- What is written for the digits of an operand. -/
def Operand.digits : Operand → Phrase
  | .empty => .text ""
  | .shortBranch delta => .hex8 delta.toUInt8
  | .branch delta => .hex32 delta.toUInt32
  | .shortInt value => .hex8 value
  | .int value => .hex32 value.toUInt32
  | .longInt value => .hex64 value.toUInt64
  | .shortFloat bits => .hex32 bits
  | .float bits => .hex64 bits
  | .shortVar index => .hex8 index
  | .var index => .hex16 index
  | .token _ t => .hex32 t.value
  | .switch _ => .text "..."

theorem Operand.convention?_digits (o : Operand) : o.digits.convention? = o.shape.digits? := by
  cases o <;> rfl

/-- What is written for an operand that is no token. -/
def Instruction.phrase (i : Instruction) : Phrase :=
  match i.operand with
  | .empty => .text ""
  | .shortBranch delta => .label (i.endPosition + delta.toInt64)
  | .branch delta => .label (i.endPosition + delta.toInt64)
  | .shortInt value => .text (Nat.repr value.toNat)
  | .int value => .text (Int.repr value.toInt)
  | .longInt value => .text (Int.repr value.toInt)
  | .shortFloat bits => .text (Operand.shortFloatText Operand.floatLayout bits)
  | .float bits => .text (Operand.floatText Operand.floatLayout bits)
  | .shortVar index => .slot (UInt16.ofNat index.toNat)
  | .var index => .slot index
  | .token _ _ => .text ""
  | .switch _ => .labels i.targets

theorem Instruction.convention?_phrase {i : Instruction} (h : i.token? = none) :
    i.phrase.convention? = i.operand.shape.convention? := by
  unfold token? at h
  unfold phrase
  cases ho : i.operand with
  | token expects t =>
    rw [ho] at h
    cases h
  | _ => rfl

namespace Capability

/-- What is written for an answer. -/
def phrase : (c : Capability) → c.Entity → Phrase
  | .field, f => .text (f.text ++ "/" ++ f.declaring.getD "")
  | .method, m => .text (Listed.methodText m)
  | .signature, bytes => .signature bytes
  | .string, units => .quoted units
  | .type, t => .text t.text

theorem convention?_phrase (c : Capability) (x : c.Entity) :
    (c.phrase x).convention? = (Shape.token (.entity c)).convention? := by
  cases c <;> rfl

theorem shownIn_eq (style : Style) (c : Capability) (x : c.Entity) :
    c.shownIn style x = style.write (c.phrase x) := by
  cases c <;> rfl

end Capability

namespace Listed

variable {σ : Type}

/-- The same instruction, with what it remembers, in another style. -/
def restyled (l : Listed) (style : Style) : Listed := { l with style }

theorem restyled_told (l : Listed) (style : Style) (c : Capability) (answer : Except Error c.Entity) :
    (l.restyled style).told c answer = (l.told c answer).restyled style := by
  cases c <;> rfl

theorem rawText_eq (l : Listed) : l.rawText = l.style.write l.instruction.operand.digits := by
  unfold rawText
  cases l.instruction.operand <;> rfl

theorem operandText_of_constant {l : Listed} (h : l.instruction.token? = none) (r : Resolver σ) :
    l.operandText r = pure (.ok (l.style.write l.instruction.phrase), l) := by
  unfold Instruction.token? at h
  unfold operandText Instruction.phrase
  cases ho : l.instruction.operand with
  | token expects t =>
    rw [ho] at h
    cases h
  | _ => rfl

/-- What rendering an operand can do, in any style: there is a phrase to write; or the phrase is made of an
    answer; or it is the name of a member that is found.  The shape says by which convention it is written,
    and the style has no part in anything but the writing. -/
theorem operandText_phrase (l : Listed) :
    (∃ p : Phrase, p.convention? = l.instruction.operand.shape.convention? ∧
      ∀ (P : Style) {σ : Type} (r : Resolver σ),
        (l.restyled P).operandText r = pure (.ok (P.write p), l.restyled P)) ∨
    (∃ (c : Capability) (t : Token), (∀ x, (c.phrase x).convention? = l.instruction.operand.shape.convention?) ∧
      ∀ (P : Style) {σ : Type} (r : Resolver σ), (l.restyled P).operandText r = (do
        let answer ← Render.ask r c t
        return (answer.map fun x => P.write (c.phrase x), (l.told c answer).restyled P))) ∨
    (l.instruction.operand.shape.convention? = none ∧
      ∃ t, ∀ (P : Style) {σ : Type} (r : Resolver σ), (l.restyled P).operandText r = (do
        let found ← Render.askMember r t
        return (found.map Member.shown, l.restyled P))) := by
  cases ho : l.instruction.operand with
  | token expects t =>
    cases expects with
    | member => exact .inr (.inr ⟨rfl, t, fun P _ r => operandText_of_member (l := l.restyled P) ho r⟩)
    | entity c =>
      by_cases hs : c = .signature → l.signature? = none
      · refine .inr (.inl ⟨c, t, c.convention?_phrase, fun P σ r => ?_⟩)
        rw [operandText_of_entity (l := l.restyled P) ho hs r]
        congr 1
        funext answer
        rw [restyled_told, funext (c.shownIn_eq (l.restyled P).style)]
        rfl
      · -- the signature has been fetched before
        obtain ⟨rfl, hfetched⟩ := Classical.not_imp.mp hs
        obtain ⟨bytes, hbytes⟩ := Option.ne_none_iff_exists'.mp hfetched
        exact .inl ⟨.signature bytes, rfl,
          fun P _ r => operandText_of_remembered (l := l.restyled P) ho hbytes r⟩
  | _ =>
    have htoken : l.instruction.token? = none := by
      rw [Instruction.token?, ho]
      rfl
    rw [← ho]
    exact .inl ⟨l.instruction.phrase, Instruction.convention?_phrase htoken,
      fun P _ r => operandText_of_constant (l := l.restyled P) htoken r⟩

/-! ## Two styles -/

/-- The style has no part in what is asked and logged, in what is remembered, and in whether there is a
    text.  The text itself depends on one convention. -/
theorem operandText_congr {l : Listed} {P Q : Style}
    (h : P.AgreesOn? Q l.instruction.operand.shape.convention?) (r : Resolver σ) :
    (l.restyled P).operandText r = Prod.map id (restyled · P) <$> (l.restyled Q).operandText r := by
  rcases l.operandText_phrase with ⟨p, hp, htext⟩ | ⟨c, t, hphrase, htext⟩ | ⟨-, t, htext⟩
  · rw [htext, htext, Style.write_congr (hp ▸ h)]
    rfl
  · have hwrite : (fun x => P.write (c.phrase x)) = fun x => Q.write (c.phrase x) :=
      funext fun x => Style.write_congr (hphrase x ▸ h)
    rw [htext, htext, hwrite, map_bind]
    rfl
  · rw [htext, htext, map_bind]
    rfl

/-- Where the convention is changed, so is the text. -/
theorem operandText_decorated (l : Listed) (P : Style) (change : String → String) (c : Convention)
    (r : Resolver σ) :
    (l.restyled (P.decorated change c)).operandText r = Prod.map
      (Except.map fun text => if l.instruction.operand.shape.convention? = some c then change text else text)
      (restyled · (P.decorated change c)) <$> (l.restyled P).operandText r := by
  rcases l.operandText_phrase with ⟨p, hp, htext⟩ | ⟨cap, t, hphrase, htext⟩ | ⟨hnone, t, htext⟩
  · rw [htext, htext, Style.write_decorated, hp]
    rfl
  · rw [htext, htext, map_bind]
    congr 1
    funext answer
    cases answer with
    | error e => rfl
    | ok x =>
      simp only [Except.map, Style.write_decorated, hphrase]
      rfl
  · rw [htext, htext, map_bind, hnone]
    congr 1
    funext found
    cases found with
    | error e => rfl
    | ok m => rfl

theorem rawText_congr {l : Listed} {P Q : Style} (h : P.AgreesOn? Q l.instruction.operand.shape.digits?) :
    (l.restyled P).rawText = (l.restyled Q).rawText := by
  rw [← Operand.convention?_digits] at h
  rw [rawText_eq, rawText_eq]
  exact Style.write_congr h

theorem rawText_decorated (l : Listed) (P : Style) (change : String → String) (c : Convention) :
    (l.restyled (P.decorated change c)).rawText = if l.instruction.operand.shape.digits? = some c
      then change (l.restyled P).rawText else (l.restyled P).rawText := by
  rw [← Operand.convention?_digits, rawText_eq, rawText_eq]
  exact P.write_decorated change c l.instruction.operand.digits

end Listed

/-! ## Conventions that are not replaced -/

/-- The convention that a standard one leans on. -/
def Convention.leansOn? : Convention → Option Convention
  | .labels => some .label
  | .signature => some .hex8
  | .line => some .quoted
  | _ => none

namespace Style

/-- A convention is not replaced. -/
def Overrides.Keeps (o : Overrides) : Convention → Prop
  | .hex8 => o.hex8 = none
  | .hex16 => o.hex16 = none
  | .hex32 => o.hex32 = none
  | .hex64 => o.hex64 = none
  | .slot => o.slot = none
  | .label => o.label = none
  | .labels => o.labels = none
  | .quoted => o.quoted = none
  | .signature => o.signature = none
  | .line => o.line = none

theorem labels_of_keeps {o : Overrides} (h : o.Keeps .labels) :
    (ofOverrides o).labels = standardLabels (ofOverrides o).label := by
  show o.labels.getD (standardLabels (ofOverrides o).label) = _
  rw [show o.labels = none from h, Option.getD_none]

theorem signature_of_keeps {o : Overrides} (h : o.Keeps .signature) :
    (ofOverrides o).signature = standardSignature (ofOverrides o).hex8 := by
  show o.signature.getD (standardSignature (ofOverrides o).hex8) = _
  rw [show o.signature = none from h, Option.getD_none]

theorem standardLines_of_keeps {o : Overrides} (h : o.Keeps .line) : (ofOverrides o).StandardLines := by
  show o.line.getD (standardWriting (ofOverrides o).quoted) = _
  rw [show o.line = none from h, Option.getD_none]

/-- Whatever else is replaced in two styles, a convention that is replaced in neither is the same if the
    one is that it leans on. -/
theorem agreesOn_of_leansOn {o o' : Overrides} {c : Convention} (h : o.Keeps c) (h' : o'.Keeps c)
    (hagree : (ofOverrides o).AgreesOn? (ofOverrides o') c.leansOn?) :
    (ofOverrides o).AgreesOn (ofOverrides o') c := by
  cases c with
  | labels =>
    have hlabel : (ofOverrides o).label = (ofOverrides o').label := hagree .label rfl
    show (ofOverrides o).labels = (ofOverrides o').labels
    rw [labels_of_keeps h, labels_of_keeps h', hlabel]
  | signature =>
    have hhex8 : (ofOverrides o).hex8 = (ofOverrides o').hex8 := hagree .hex8 rfl
    show (ofOverrides o).signature = (ofOverrides o').signature
    rw [signature_of_keeps h, signature_of_keeps h', hhex8]
  | line =>
    have hquoted : (ofOverrides o).quoted = (ofOverrides o').quoted := hagree .quoted rfl
    show (ofOverrides o).line = (ofOverrides o').line
    rw [standardLines_of_keeps h, standardLines_of_keeps h', hquoted]
  | hex8 => exact congrArg (Option.getD · _) (h.trans h'.symm)
  | hex16 => exact congrArg (Option.getD · _) (h.trans h'.symm)
  | hex32 => exact congrArg (Option.getD · _) (h.trans h'.symm)
  | hex64 => exact congrArg (Option.getD · _) (h.trans h'.symm)
  | slot => exact congrArg (Option.getD · _) (h.trans h'.symm)
  | label => exact congrArg (Option.getD · _) (h.trans h'.symm)
  | quoted => exact congrArg (Option.getD · _) (h.trans h'.symm)

/-- A line quotes nothing but a reason. -/
theorem standardLine_congr {quoted quoted' : List UInt16 → String} {p : Parts}
    (h : ∀ e, p.operand = .error e → quoted (Utf16.encode e.text) = quoted' (Utf16.encode e.text)) :
    standardLine quoted p = standardLine quoted' p := by
  unfold standardLine marker
  cases hoperand : p.operand with
  | ok text => rfl
  | error e =>
    dsimp only
    rw [h e hoperand]

end Style

namespace Listed

variable {σ : Type} {o o' : Style.Overrides}

/-- The line in a style is made of the operand as the instruction's own style writes it. -/
theorem result_lineIn_of_keeps (ho : o.Keeps .line) (l : Listed) (r : Resolver σ) (w : World σ) :
    (l.lineIn r (.ofOverrides o)).result w = (l.operandText r).result w >>= fun x => .ok
      ("IL_" ++ Hex.atLeast 4 l.instruction.offset ++ ": " ++ Style.mnemonicColumn l.instruction.opcode.name
        ++ " " ++ Style.shownOperand (Style.ofOverrides o).quoted x.1, x.2) := by
  rw [result_lineIn (Style.standardLines_of_keeps ho)]
  congr 1
  funext x
  rw [Style.text_standardLine]
  rfl

theorem run_lineIn_congr (ho : o.Keeps .line) (ho' : o'.Keeps .line) {l : Listed} {r : Resolver σ}
    {w : World σ} (h : ∀ e after, (l.operandText r).result w = .ok (.error e, after) →
      (Style.ofOverrides o).quoted (Utf16.encode e.text)
        = (Style.ofOverrides o').quoted (Utf16.encode e.text)) :
    (l.lineIn r (.ofOverrides o)).run.run w = (l.lineIn r (.ofOverrides o')).run.run w := by
  rw [lineIn_of_standardLines (Style.standardLines_of_keeps ho),
    lineIn_of_standardLines (Style.standardLines_of_keeps ho')]
  rcases hrun : (l.operandText r).run.run w with ⟨n | ⟨operand, after⟩, w'⟩
  · rw [Render.run_bind_of_error hrun, Render.run_bind_of_error hrun]
  · rw [Render.run_bind_of_ok hrun, Render.run_bind_of_ok hrun]
    have hline : Style.standardLine (Style.ofOverrides o).quoted (l.parts operand)
        = Style.standardLine (Style.ofOverrides o').quoted (l.parts operand) := by
      apply Style.standardLine_congr
      rintro e rfl
      apply h e after
      rw [Render.result, hrun]
    dsimp only
    rw [hline]

theorem lineIn_congr (ho : o.Keeps .line) {l : Listed} {P Q : Style}
    (h : P.AgreesOn? Q l.instruction.operand.shape.convention?) (r : Resolver σ) :
    (l.restyled P).lineIn r (.ofOverrides o)
      = Prod.map id (restyled · P) <$> (l.restyled Q).lineIn r (.ofOverrides o) := by
  have hlines := Style.standardLines_of_keeps ho
  rw [lineIn_of_standardLines hlines, lineIn_of_standardLines hlines, operandText_congr h, bind_map_left,
    map_bind]
  congr 1

/-- **A style has a say in what its conventions are used for.**  An instruction with whatever it remembers
    is rendered by any resolver, in any styles.

    The text of its operand is the same in two styles that have the convention of its shape in common, and
    so are the questions, the log and what is remembered.  Its digits are the same in two styles that have
    the convention for as many digits in common.  A change to a convention changes the texts and digits that
    are written by it, and no others.

    A convention that is replaced in neither of two styles is the same in both if the one is that it leans
    on: that of positions for lists of them, that of bytes for signatures, that of strings for lines.

    A line in a style that does not replace the one for lines begins with the offset, which no convention
    has a part in, and shows the operand as the instruction's own style writes it.  Nothing else of that
    style matters to it.  Of the style that it is written in only the quoting of a reason matters, and only
    if there is no text. -/
theorem style_influence (l : Listed) (r : Resolver σ) :
    let shape := l.instruction.operand.shape
    (∀ P Q : Style, P.AgreesOn? Q shape.convention? →
      (l.restyled P).operandText r = Prod.map id (restyled · P) <$> (l.restyled Q).operandText r) ∧
    (∀ P Q : Style, P.AgreesOn? Q shape.digits? → (l.restyled P).rawText = (l.restyled Q).rawText) ∧
    (∀ (P : Style) (change : String → String) (c : Convention),
      (l.restyled (P.decorated change c)).operandText r = Prod.map
        (Except.map fun text => if shape.convention? = some c then change text else text)
        (restyled · (P.decorated change c)) <$> (l.restyled P).operandText r ∧
      (l.restyled (P.decorated change c)).rawText = if shape.digits? = some c
        then change (l.restyled P).rawText else (l.restyled P).rawText) ∧
    (∀ (o o' : Style.Overrides) (c : Convention), o.Keeps c → o'.Keeps c →
      (Style.ofOverrides o).AgreesOn? (.ofOverrides o') c.leansOn? →
      (Style.ofOverrides o).AgreesOn (.ofOverrides o') c) ∧
    ∀ o : Style.Overrides, o.Keeps .line →
      (∀ w, (l.lineIn r (.ofOverrides o)).result w = (l.operandText r).result w >>= fun x => .ok
        ("IL_" ++ Hex.atLeast 4 l.instruction.offset ++ ": "
          ++ Style.mnemonicColumn l.instruction.opcode.name ++ " "
          ++ Style.shownOperand (Style.ofOverrides o).quoted x.1, x.2)) ∧
      (∀ P Q : Style, P.AgreesOn? Q shape.convention? →
        (l.restyled P).lineIn r (.ofOverrides o)
          = Prod.map id (restyled · P) <$> (l.restyled Q).lineIn r (.ofOverrides o)) ∧
      ∀ o' : Style.Overrides, o'.Keeps .line → ∀ w,
        (∀ e after, (l.operandText r).result w = .ok (.error e, after) →
          (Style.ofOverrides o).quoted (Utf16.encode e.text)
            = (Style.ofOverrides o').quoted (Utf16.encode e.text)) →
        (l.lineIn r (.ofOverrides o)).run.run w = (l.lineIn r (.ofOverrides o')).run.run w := by
  intro shape
  refine ⟨?_, ?_, ?_, ?_, ?_⟩
  · intro P Q h
    exact operandText_congr h r
  · intro P Q h
    exact rawText_congr h
  · intro P change c
    exact ⟨operandText_decorated l P change c r, rawText_decorated l P change c⟩
  · intro o o' c h h' hagree
    exact Style.agreesOn_of_leansOn h h' hagree
  · intro o ho
    refine ⟨fun w => result_lineIn_of_keeps ho l r w, ?_, ?_⟩
    · intro P Q h
      exact lineIn_congr ho h r
    · intro o' ho' w h
      exact run_lineIn_congr ho ho' h

/-- A style that writes positions and bytes in its own way.  It writes an `ldstr`, whose string is not
    there, and its digits like the standard style.  Where it writes the lines of an `ldstr` and of a `br.s`
    that have the standard style, nothing of its own is to be seen.  In a style that has its bytes, lists of
    positions are the standard ones; and the digits of a jump take no part in a change of positions. -/
theorem style_influence_labels :
    let o : Style.Overrides :=
      { label := some fun position => "L" ++ Int.repr position.toInt, hex8 := some fun _ => "??" }
    let own : Style := .ofOverrides o
    let jump : Listed :=
      { instruction := ⟨0, ⟨0x2B, "br.s", .shortBranch⟩, .shortBranch 1⟩, style := .standard }
    let load : Listed :=
      { instruction :=
          ⟨2, ⟨0x72, "ldstr", .token (.entity .string)⟩, .token (.entity .string) ⟨0x70000001⟩⟩
        style := .standard }
    let r : Resolver Unit := .ofLookup fun c t => .error (.unresolved t c.word)
    (load.restyled own).operandText r
      = Prod.map id (restyled · own) <$> (load.restyled .standard).operandText r ∧
    (load.restyled own).rawText = (load.restyled .standard).rawText ∧
    (jump.restyled (Style.standard.decorated (· ++ "!") .label)).rawText
      = (jump.restyled .standard).rawText ∧
    (Style.ofOverrides { hex8 := o.hex8 }).labels = Style.standard.labels ∧
    ∀ w, (jump.lineIn r own).run.run w = (jump.lineIn r .standard).run.run w ∧
      (load.lineIn r own).run.run w = (load.lineIn r .standard).run.run w := by
  intro o own jump load r
  have hquoted : own.AgreesOn? .standard (some .quoted) := by
    rintro c ⟨⟩
    rfl
  have hhex32 : own.AgreesOn? .standard (some .hex32) := by
    rintro c ⟨⟩
    rfl
  have hlabel : (Style.ofOverrides { hex8 := o.hex8 }).AgreesOn? .standard (some .label) := by
    rintro c ⟨⟩
    rfl
  obtain ⟨htext, hdigits, -, hkept, hload⟩ := style_influence load r
  obtain ⟨-, -, hdecorated, -, hjump⟩ := style_influence jump r
  refine ⟨htext own .standard hquoted, hdigits own .standard hhex32, (hdecorated .standard _ .label).2,
    hkept { hex8 := o.hex8 } {} .labels rfl rfl hlabel, fun w => ⟨?_, ?_⟩⟩
  · apply (hjump o rfl).2.2 {} rfl w
    -- a jump always has a text
    rintro e after ⟨⟩
  · exact (hload o rfl).2.2 {} rfl w fun e _ _ => rfl

end Listed

end Cil
