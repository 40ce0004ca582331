import Cil.Proofs.Conventions
import Cil.Proofs.Growth

/-
  LITERALS CAN BE READ BACK.

  A unit inside of a literal looks in one of three ways (`Quoted.escape_cases`): a backslash with a
  letter, the character itself, or a backslash with `u` and four digits.  From this follow three things
  about one unit, and then by induction about all: the characters are plain, no quote is left without a
  backslash, and the reader takes exactly the unit off the front, whatever stands behind
  (`Quoted.decodeBody_escape`).  The reader looks at the character behind a backslash first, so a
  backslash in the units followed by a `u` and digits is not mistaken for an escape, and it counts the
  digits, so more of them may follow.

  Texts are units by the standard encoding, which can be undone too (`Utf16.decode_encode`).  So the text
  of a string that was put into a scope, and the reason why an operand has no text, can be read off a
  listing (`Quoted.literals_read_back`).
-/

namespace Cil

namespace Quoted

/-! ## One unit -/

/-- The units with a letter of their own. -/
def named : List (Char × UInt16) := [('t', 0x09), ('n', 0x0A), ('r', 0x0D), ('"', 0x22), ('\\', 0x5C)]

/-- A backslash with a letter, the character itself, or a backslash with four digits. -/
theorem escape_cases (u : UInt16) :
    (∃ c, (c, u) ∈ named ∧ escape u = ['\\', c]) ∨
    (∃ c : Char, c.toNat = u.toNat ∧ (0x20 ≤ c.toNat ∧ c.toNat ≤ 0x7E) ∧ c ≠ '"' ∧ c ≠ '\\' ∧
      escape u = [c]) ∨
    escape u = '\\' :: 'u' :: Hex.digits .lower 4 u.toNat := by
  unfold escape
  by_cases htab : u = 0x09
  · exact .inl ⟨'t', by simp [named, htab], if_pos htab⟩
  by_cases hfeed : u = 0x0A
  · exact .inl ⟨'n', by simp [named, hfeed], by simp [hfeed]⟩
  by_cases hreturn : u = 0x0D
  · exact .inl ⟨'r', by simp [named, hreturn], by simp [hreturn]⟩
  by_cases hquote : u = 0x22
  · exact .inl ⟨'"', by simp [named, hquote], by simp [hquote]⟩
  by_cases hbackslash : u = 0x5C
  · exact .inl ⟨'\\', by simp [named, hbackslash], by simp [hbackslash]⟩
  rw [if_neg htab, if_neg hfeed, if_neg hreturn, if_neg hquote, if_neg hbackslash]
  by_cases hplain : 0x20 ≤ u.toNat ∧ u.toNat ≤ 0x7E
  · have hvalue : (Char.ofNat u.toNat).toNat = u.toNat := by
      rw [Char.toNat_ofNat, if_pos (.inl (by omega))]
    have hother {c : Char} (hc : UInt16.ofNat c.toNat ≠ u) : Char.ofNat u.toNat ≠ c := by
      rintro rfl
      rw [hvalue, UInt16.ofNat_toNat] at hc
      exact hc rfl
    exact .inr (.inl ⟨Char.ofNat u.toNat, hvalue, hvalue.symm ▸ hplain, hother (Ne.symm hquote),
      hother (Ne.symm hbackslash), if_pos hplain⟩)
  · exact .inr (.inr (if_neg hplain))

/-- The four digits of a unit, and what they are worth. -/
theorem exists_digits (u : UInt16) : ∃ a b c d, Hex.digits .lower 4 u.toNat = [a, b, c, d] ∧
    [a, b, c, d] ⊆ Hex.alphabet ∧ hexUnit? a b c d = some u := by
  have hu := u.toNat_lt
  have hvalue {k : Nat} (hk : k < 16) : digitValue? (Hex.digit .lower k) = some k :=
    Hex.digitValue?_eq_some_iff.mpr ⟨hk, rfl⟩
  have hmem : ∀ k < 16, Hex.digit .lower k ∈ Hex.alphabet := by decide
  have hlt (n : Nat) : n % 16 < 16 := Nat.mod_lt n (by decide)
  refine ⟨_, _, _, _, rfl, ?_, ?_⟩
  · simp only [List.cons_subset, hmem _ (hlt _), true_and]
    exact List.nil_subset _
  · have hsum : ((u.toNat / 16 / 16 / 16 % 16 * 16 + u.toNat / 16 / 16 % 16) * 16 + u.toNat / 16 % 16) * 16
        + u.toNat % 16 = u.toNat := by omega
    unfold hexUnit?
    simp only [hvalue (hlt _), Option.bind_eq_bind, Option.bind_some, hsum, UInt16.ofNat_toNat]
    rfl

theorem printable_escape (u : UInt16) : Printable (escape u) := by
  rcases escape_cases u with ⟨c, hc, heq⟩ | ⟨c, -, hc, -, -, heq⟩ | heq
  · have hnamed : ∀ p ∈ named, Printable ['\\', p.1] := by decide
    rw [heq]
    exact hnamed (c, u) hc
  · rw [heq]
    exact Printable.cons_iff.mpr ⟨hc, Printable.nil⟩
  · obtain ⟨a, b, c, d, hdigits, hsubset, -⟩ := exists_digits u
    rw [heq, hdigits]
    exact Printable.cons_iff.mpr ⟨by decide, Printable.cons_iff.mpr ⟨by decide,
      Printable.of_subset hsubset (by decide)⟩⟩

/-- Whether there is a quote that is not escaped; the first character may be behind a backslash. -/
def bareQuote : Bool → List Char → Bool
  | _, [] => false
  | true, _ :: cs => bareQuote false cs
  | false, c :: cs => c == '"' || bareQuote (c == '\\') cs

theorem bareQuote_append {cs : List Char} (hquote : '"' ∉ cs) (hbackslash : '\\' ∉ cs) (ds : List Char) :
    bareQuote false (cs ++ ds) = bareQuote false ds := by
  induction cs with
  | nil => rfl
  | cons c cs ih =>
    have hc : c ≠ '"' := fun heq => hquote (heq ▸ List.mem_cons_self)
    have hc' : c ≠ '\\' := fun heq => hbackslash (heq ▸ List.mem_cons_self)
    rw [List.cons_append, bareQuote, beq_false_of_ne hc, beq_false_of_ne hc', Bool.false_or]
    exact ih (fun h => hquote (.tail c h)) fun h => hbackslash (.tail c h)

theorem bareQuote_escape (u : UInt16) (cs : List Char) :
    bareQuote false (escape u ++ cs) = bareQuote false cs := by
  rcases escape_cases u with ⟨c, -, heq⟩ | ⟨c, -, -, hquote, hbackslash, heq⟩ | heq
  · rw [heq]
    rfl
  · rw [heq]
    exact bareQuote_append (by simpa using hquote.symm) (by simpa using hbackslash.symm) cs
  · obtain ⟨a, b, c, d, hdigits, hsubset, -⟩ := exists_digits u
    have hnot {x : Char} (hx : x ∉ Hex.alphabet) : x ∉ [a, b, c, d] := fun h => hx (hsubset h)
    rw [heq, hdigits]
    exact bareQuote_append (hnot (by decide)) (hnot (by decide)) cs

/-- The reader takes a unit off the front, whatever stands behind. -/
theorem decodeBody_escape (u : UInt16) {cs rest : List Char} {us : List UInt16}
    (h : decodeBody cs = some (us, rest)) : decodeBody (escape u ++ cs) = some (u :: us, rest) := by
  rcases escape_cases u with ⟨c, hc, heq⟩ | ⟨c, hvalue, -, hquote, hbackslash, heq⟩ | heq
  · rw [heq]
    simp only [named, List.mem_cons, Prod.mk.injEq, List.not_mem_nil, or_false] at hc
    rcases hc with ⟨rfl, rfl⟩ | ⟨rfl, rfl⟩ | ⟨rfl, rfl⟩ | ⟨rfl, rfl⟩ | ⟨rfl, rfl⟩
    all_goals simp [decodeBody, h]
  · have hunit : UInt16.ofNat c.toNat = u := by rw [hvalue, UInt16.ofNat_toNat]
    rw [heq, List.singleton_append, decodeBody.eq_def]
    split <;> simp_all
  · obtain ⟨a, b, c, d, hdigits, -, hunit⟩ := exists_digits u
    rw [heq, hdigits]
    simp [decodeBody, hunit, h]

/-! ## Literals -/

theorem toList_encode (us : List UInt16) : (encode us).toList = '"' :: (us.flatMap escape ++ ['"']) := by
  rw [encode, String.toList_ofList]

theorem printable_flatMap_escape (us : List UInt16) : Printable (us.flatMap escape) := by
  intro c hc
  obtain ⟨u, -, hu⟩ := List.mem_flatMap.mp hc
  exact printable_escape u c hu

theorem printable_encode (us : List UInt16) : Printable (encode us).toList := by
  rw [toList_encode]
  exact Printable.cons_iff.mpr ⟨by decide, Printable.append_iff.mpr ⟨printable_flatMap_escape us, by decide⟩⟩

theorem bareQuote_flatMap_escape (us : List UInt16) : bareQuote false (us.flatMap escape) = false := by
  induction us with
  | nil => rfl
  | cons u us ih => rw [List.flatMap_cons, bareQuote_escape, ih]

theorem decodeBody_flatMap_escape (us : List UInt16) (rest : List Char) :
    decodeBody (us.flatMap escape ++ '"' :: rest) = some (us, rest) := by
  induction us with
  | nil => rfl
  | cons u us ih =>
    rw [List.flatMap_cons, List.append_assoc]
    exact decodeBody_escape u ih

/-- A literal is read back, whatever stands behind it. -/
theorem decode_encode (us : List UInt16) (rest : List Char) :
    decode ((encode us).toList ++ rest) = some (us, rest) := by
  rw [toList_encode, List.cons_append, List.append_assoc]
  exact decodeBody_flatMap_escape us rest

theorem encode_injective : Function.Injective encode := by
  intro us vs h
  have hread := decode_encode us []
  rw [h, decode_encode] at hread
  exact (Prod.mk.inj (Option.some.inj hread)).1.symm

end Quoted

/-! ## Texts -/

namespace Utf16

/-- The characters of units: a unit that is no surrogate, or a high surrogate with a low one behind it. -/
def decodeChars : List UInt16 → Option (List Char)
  | [] => some []
  | [u] => if u.toNat < 0xD800 ∨ 0xE000 ≤ u.toNat then some [Char.ofNat u.toNat] else none
  | u :: v :: us =>
    if u.toNat < 0xD800 ∨ 0xE000 ≤ u.toNat then
      (decodeChars (v :: us)).map (Char.ofNat u.toNat :: ·)
    else if u.toNat < 0xDC00 ∧ 0xDC00 ≤ v.toNat ∧ v.toNat < 0xE000 then
      (decodeChars us).map
        (Char.ofNat (0x10000 + (u.toNat - 0xD800) * 0x400 + (v.toNat - 0xDC00)) :: ·)
    else
      none

/-- The text of units, if they are the units of one. -/
def decode (us : List UInt16) : Option String := (decodeChars us).map String.ofList

theorem decodeChars_cons {u : UInt16} (h : u.toNat < 0xD800 ∨ 0xE000 ≤ u.toNat) (us : List UInt16) :
    decodeChars (u :: us) = (decodeChars us).map (Char.ofNat u.toNat :: ·) := by
  cases us with
  | nil => exact if_pos h
  | cons v us => exact if_pos h

theorem decodeChars_encodeChar (c : Char) (us : List UInt16) :
    decodeChars (encodeChar c ++ us) = (decodeChars us).map (c :: ·) := by
  have hvalid : c.toNat < 0xD800 ∨ 0xDFFF < c.toNat ∧ c.toNat < 0x110000 := c.valid
  unfold encodeChar
  by_cases hbasic : c.toNat < 0x10000
  · have hunit : (UInt16.ofNat c.toNat).toNat = c.toNat := by
      rw [UInt16.toNat_ofNat']
      omega
    rw [if_pos hbasic, List.singleton_append, decodeChars_cons (by omega), hunit, Char.ofNat_toNat]
  · rw [if_neg hbasic]
    -- the twenty bits above the basic plane, in two halves
    have hbits : c.toNat - 0x10000 < 0x100000 := by omega
    generalize hn : c.toNat - 0x10000 = n at hbits
    have hhigh : (UInt16.ofNat (0xD800 + n / 0x400)).toNat = 0xD800 + n / 0x400 := by
      rw [UInt16.toNat_ofNat']
      omega
    have hlow : (UInt16.ofNat (0xDC00 + n % 0x400)).toNat = 0xDC00 + n % 0x400 := by
      rw [UInt16.toNat_ofNat']
      omega
    have hvalue : 0x10000 + (0xD800 + n / 0x400 - 0xD800) * 0x400 + (0xDC00 + n % 0x400 - 0xDC00)
        = c.toNat := by omega
    show decodeChars (_ :: _ :: us) = _
    rw [decodeChars, hhigh, hlow, if_neg (by omega), if_pos (by omega), hvalue, Char.ofNat_toNat]

theorem decode_encode (s : String) : decode (encode s) = some s := by
  have hchars (cs : List Char) : decodeChars (cs.flatMap encodeChar) = some cs := by
    induction cs with
    | nil => rfl
    | cons c cs ih => rw [List.flatMap_cons, decodeChars_encodeChar, ih, Option.map_some]
  rw [decode, encode, hchars, Option.map_some, String.ofList_toList]

end Utf16

namespace Quoted

/-! ## What a listing shows of texts -/

/-- Reads the text that a literal at the front shows; gives it with what stands behind. -/
def readText (cs : List Char) : Option (String × List Char) := do
  let literal ← decode cs
  let s ← Utf16.decode literal.1
  return (s, literal.2)

theorem readText_encode (s : String) (rest : List Char) :
    readText ((encode (Utf16.encode s)).toList ++ rest) = some (s, rest) := by
  rw [readText, decode_encode]
  show (Utf16.decode (Utf16.encode s)).bind _ = _
  rw [Utf16.decode_encode]
  rfl

/-- Reads the reason that a marker shows. -/
def readMarker (cs : List Char) : Option String := do
  let shown ← readText (cs.drop 1)
  guard (cs.head? = some '!' ∧ shown.2 = ['!'])
  return shown.1

theorem readMarker_marker (e : Error) : readMarker (Style.marker encode e).toList = some e.text := by
  have hmarker : (Style.marker encode e).toList = '!' :: ((encode (Utf16.encode e.text)).toList ++ ['!']) := by
    rw [Style.marker, String.toList_append, String.toList_append]
    rfl
  have hread := readText_encode e.text ['!']
  rw [readMarker, hmarker, List.drop_one, List.tail_cons, hread]
  rfl

/-- A line without a text for its operand is the line of an empty text, with the marker behind it. -/
theorem line_of_error (l : Listed) (e : Error) :
    (Style.standardLine encode (l.parts (.error e))).text
      = (Style.standardLine encode (l.parts (.ok ""))).text ++ Style.marker encode e := by
  show _ ++ Style.marker encode e = _ ++ "" ++ Style.marker encode e
  rw [String.append_empty]
  rfl

/-- The token of a text that was put into a scope is answered with its units, then and later. -/
theorem lookup_ofText {scope : Scope} (hsize : scope.size + 1 < 0x1000000) (s : String)
    (es : List Scope.Entry) :
    ((scope.push (.ofText s)).2.pushAll es).2.lookup .string (scope.push (.ofText s)).1
      = .ok (Utf16.encode s) := by
  apply Scope.lookup_pushAll_of_ok
  have hstored : (scope.append (.ofText s)).entries[scope.size]? = some (.ofText s) :=
    Array.getElem?_push_size
  exact Scope.lookup_of_entry (Scope.entry?_tokenAt hsize hstored)

/-- **Literals can be read back.**  Whatever its units are, a literal is plain text between two quotes,
    with no other quote that is not escaped, and it is read back; so no two lists of units have the same
    literal.  Hence the text of a string that was put into a scope is read back from an operand with its
    token, then and later, as long as the scope has a row for it; and the reason why an operand has no
    text is read back from the marker, which stands where the operand would in its line. -/
theorem literals_read_back :
    (∀ us : List UInt16, ∃ inside,
      (Style.standard.quoted us).toList = '"' :: (inside ++ ['"']) ∧ bareQuote false inside = false ∧
      Printable (Style.standard.quoted us).toList ∧
      decode (Style.standard.quoted us).toList = some (us, [])) ∧
    Function.Injective Style.standard.quoted ∧
    (∀ (scope : Scope) (s : String), scope.size + 1 < 0x1000000 →
      ∀ (es : List Scope.Entry) (log : Array Record) (l : Listed), l.style = .standard →
      l.instruction.operand = .token (.entity .string) (scope.push (.ofText s)).1 →
      ∃ text, (l.operandText Scope.resolver).result ⟨((scope.push (.ofText s)).2.pushAll es).2, log⟩
          = .ok (.ok text, l) ∧
        readText text.toList = some (s, [])) ∧
    ∀ {σ : Type} (r : Resolver σ) (w : World σ) (l after : Listed) (e : Error), l.style = .standard →
      (l.operandText r).result w = .ok (.error e, after) →
      ∃ shown, (l.line r).result w
          = .ok ((Style.standardLine encode (l.parts (.ok ""))).text ++ shown, after) ∧
        readMarker shown.toList = some e.text := by
  refine ⟨?_, encode_injective, ?_, ?_⟩
  · intro us
    have hread := decode_encode us []
    rw [List.append_nil] at hread
    exact ⟨us.flatMap escape, toList_encode us, bareQuote_flatMap_escape us, printable_encode us, hread⟩
  · intro scope s hsize es log l hstyle ho
    have hread := readText_encode s []
    rw [List.append_nil] at hread
    refine ⟨encode (Utf16.encode s), ?_, hread⟩
    unfold Listed.operandText
    rw [ho, hstyle]
    show Except.ok ((Scope.lookup _ .string _).map encode, l) = _
    rw [lookup_ofText hsize s es]
    rfl
  · intro σ r w l after e hstyle herror
    refine ⟨Style.marker encode e, ?_, readMarker_marker e⟩
    unfold Listed.line
    rw [hstyle, Listed.result_lineIn Style.standardLines_standard, herror]
    show Except.ok ((Style.standardLine encode (l.parts (.error e))).text, after) = _
    rw [line_of_error]

/-- Units that read like an escape when they stand alone, with a lone surrogate; a text with a quote and a
    character of two units, in the second row of a scope; and a token that has no row. -/
theorem literals_read_back_surrogates :
    decode (Style.standard.quoted [0x5C, 0x75, 0x30, 0x30, 0x34, 0x31, 0xD800, 0x22]).toList
      = some ([0x5C, 0x75, 0x30, 0x30, 0x34, 0x31, 0xD800, 0x22], []) ∧
    (let load : Listed :=
      { instruction := ⟨0, ⟨0x72, "ldstr", .token (.entity .string)⟩,
          .token (.entity .string) ⟨0x70000002⟩⟩
        style := .standard }
     ∃ text, (load.operandText Scope.resolver).result ⟨⟨#[.signature [0x07], .ofText "\"😀"]⟩, #[]⟩
          = .ok (.ok text, load) ∧
        readText text.toList = some ("\"😀", [])) ∧
    (let load : Listed :=
      { instruction := ⟨0, ⟨0x72, "ldstr", .token (.entity .string)⟩,
          .token (.entity .string) ⟨0x70000001⟩⟩
        style := .standard }
     ∃ shown, (load.line Scope.resolver).result ⟨{}, #[]⟩
          = .ok ((Style.standardLine encode (load.parts (.ok ""))).text ++ shown, load) ∧
        readMarker shown.toList = some "Failed to resolve 0x70000001 as string") := by
  obtain ⟨hunits, -, htext, hmarker⟩ := literals_read_back
  obtain ⟨-, -, -, -, hread⟩ := hunits [0x5C, 0x75, 0x30, 0x30, 0x34, 0x31, 0xD800, 0x22]
  refine ⟨hread, ?_, ?_⟩
  · exact htext ⟨#[.signature [0x07]]⟩ "\"😀" (by decide) [] #[] _ rfl rfl
  · exact hmarker Scope.resolver ⟨{}, #[]⟩ _ _ (.unresolved ⟨0x70000001⟩ "string") rfl rfl

end Quoted

end Cil
