import Cil.Proofs.Encoding
import Cil.Session

/-
  THE DIGITS OF AN OPERAND ARE ITS BYTES.

  A word is stored with its lowest byte first and written with its highest digit first.  So its digits
  are those of its bytes, taken from the last one to the first (`Hex.digits_eq_reverse`), whatever the
  word stands for: a distance or a constant with a sign, a bit pattern, a token.

  The raw text of an instruction shows the word of its operand (`Listed.toList_rawText`), and the
  operand was read off the bytes behind its opcode (`Instruction.extract_operand`).  So the raw text is
  what stands there, and no question has to be put for it (`Session.raw_shows_bytes`).
-/

namespace Cil

/-! ## Numerals of words -/

namespace Hex

/-- The characters of upper-case numerals, by value. -/
def upperAlphabet : List Char :=
  ['0', '1', '2', '3', '4', '5', '6', '7', '8', '9', 'A', 'B', 'C', 'D', 'E', 'F']

/-- The two digits of a byte: that of its upper half, and that of its lower half. -/
def byteDigits (b : UInt8) : List Char :=
  [upperAlphabet.get ⟨b.toNat / 16, Nat.div_lt_of_lt_mul b.toNat_lt⟩,
   upperAlphabet.get ⟨b.toNat % 16, Nat.mod_lt _ (by decide)⟩]

theorem digit_upper {d : Nat} (h : d < 16) : digit .upper d = upperAlphabet.get ⟨d, h⟩ := by
  have hall : ∀ (d : Nat) (h : d < 16), digit .upper d = upperAlphabet.get ⟨d, h⟩ := by decide
  exact hall d h

/-- The last two digits of a number are those of its lowest byte. -/
theorem byteDigits_ofNat (n : Nat) :
    byteDigits (UInt8.ofNat n) = [digit .upper (n / 16 % 16), digit .upper (n % 16)] := by
  have hbyte : (UInt8.ofNat n).toNat = n % 256 := UInt8.toNat_ofNat'
  have hupper : n % 256 / 16 = n / 16 % 16 := by omega
  have hlower : n % 256 % 16 = n % 16 := by omega
  have hu : n / 16 % 16 < 16 := Nat.mod_lt _ (by decide)
  have hl : n % 16 < 16 := Nat.mod_lt _ (by decide)
  simp only [byteDigits, hbyte, hupper, hlower, digit_upper hu, digit_upper hl]

theorem toList_fixed_byte (b : UInt8) : (fixed .upper 2 b.toNat).toList = byteDigits b := by
  rw [← UInt8.ofNat_toNat (x := b), byteDigits_ofNat, UInt8.ofNat_toNat, toList_fixed]
  rfl

/-- The digits of a word are those of its bytes, the last byte first. -/
theorem digits_eq_reverse (w n : Nat) :
    digits .upper (2 * w) n = (Bytes.littleEndian w n).reverse.flatMap byteDigits := by
  induction w generalizing n with
  | zero => rfl
  | succ w ih =>
    have hshift : n / 16 / 16 = n / 256 := Nat.div_div_eq_div_mul ..
    calc digits .upper (2 * (w + 1)) n
        = digits .upper (2 * w) (n / 16 / 16) ++ [digit .upper (n / 16 % 16)] ++ [digit .upper (n % 16)] :=
          rfl
      _ = (Bytes.littleEndian w (n / 256)).reverse.flatMap byteDigits ++ byteDigits (UInt8.ofNat n) := by
          rw [hshift, ih, byteDigits_ofNat, List.append_assoc]
          rfl
      _ = (Bytes.littleEndian (w + 1) n).reverse.flatMap byteDigits := by
          rw [Bytes.littleEndian, List.reverse_cons, List.flatMap_append, List.flatMap_singleton]

theorem byteDigits_subset (b : UInt8) : byteDigits b ⊆ upperAlphabet := by
  intro c hc
  rcases List.mem_cons.mp hc with rfl | hc
  · exact List.get_mem ..
  · rw [List.mem_singleton.mp hc]
    exact List.get_mem ..

theorem length_flatMap_byteDigits (bytes : Bytes) :
    (bytes.flatMap byteDigits).length = 2 * bytes.length := by
  induction bytes with
  | nil => rfl
  | cons b bytes ih =>
    rw [List.flatMap_cons, List.length_append, ih, List.length_cons]
    show 2 + 2 * bytes.length = _
    omega

end Hex

/-! ## Operands -/

/-- The raw text in the standard style shows the bytes of the operand, the last one first. -/
theorem Listed.toList_rawText {l : Listed} (hstyle : l.style = .standard)
    (hswitch : ∀ deltas, l.instruction.operand ≠ .switch deltas) :
    l.rawText.toList = l.instruction.operand.encode.reverse.flatMap Hex.byteDigits := by
  have hword (w n : Nat) : (Hex.fixed .upper (2 * w) n).toList
      = (Bytes.littleEndian w n).reverse.flatMap Hex.byteDigits := by
    rw [Hex.toList_fixed, Hex.digits_eq_reverse]
  unfold rawText
  rw [hstyle]
  cases ho : l.instruction.operand with
  | empty => rfl
  | shortBranch delta => exact hword 1 delta.toUInt8.toNat
  | branch delta => exact hword 4 delta.toUInt32.toNat
  | shortInt value => exact hword 1 value.toNat
  | int value => exact hword 4 value.toUInt32.toNat
  | longInt value => exact hword 8 value.toUInt64.toNat
  | shortFloat bits => exact hword 4 bits.toNat
  | float bits => exact hword 8 bits.toNat
  | shortVar index => exact hword 1 index.toNat
  | var index => exact hword 2 index.toNat
  | token expects t => exact hword 4 t.value.toNat
  | switch deltas => exact absurd ho (hswitch deltas)

/-- The operand of an instruction that was read stands behind the opcode. -/
theorem Instruction.extract_operand {b rest : Bytes} {p : Nat} {i : Instruction}
    (h : read p (b.drop p) = .ok (i, rest)) :
    b.extract (i.offset + i.opcode.size) (i.offset + i.size) = i.operand.encode := by
  obtain ⟨rfl, -, hbytes⟩ := read_eq_ok h
  have hwidth : i.offset + i.size - (i.offset + i.opcode.size) = i.operand.encode.length := by
    rw [Operand.length_encode, size]
    omega
  have hbehind : b.drop (i.offset + i.opcode.size) = i.operand.encode ++ rest := by
    rw [← List.drop_drop, hbytes, encode, List.append_assoc, ← Opcode.length_encode, List.drop_left]
  rw [List.extract_eq_take_drop, hwidth, hbehind, List.take_left]

/-- **The raw text is what stands in the body.**  An instruction that is decoded at a cursor and is no
    jump table shows, in the standard style, the bytes between its opcode and its end, each with two
    upper-case digits, and the last byte first.  A session gives this text for it and is left as it was,
    with its host: the resolver is not asked. -/
theorem Session.raw_shows_bytes {b : Bytes} {cursor after : UInt64} {i : Instruction}
    (h : Instruction.decodeAt b cursor = (.ok i, after)) (hswitch : ∀ deltas, i.operand ≠ .switch deltas)
    (signature? : Option Bytes) :
    let l : Listed := { instruction := i, style := .standard, signature? }
    l.rawText.toList.length = 2 * i.operand.size ∧
    (∀ c ∈ l.rawText.toList, c ∈ Hex.upperAlphabet) ∧
    l.rawText.toList
      = (b.extract (i.offset + i.opcode.size) (i.offset + i.size)).reverse.flatMap Hex.byteDigits ∧
    ∀ {σ : Type} (r : Resolver σ) (s : Session σ) (k : Nat), s.kept[k]? = some l →
      s.run r (.raw k) = (.text l.rawText, s) := by
  intro l
  obtain ⟨⟨rest, hread⟩, -⟩ := Instruction.decodeAt_eq_ok_iff.mp h
  have hraw : l.rawText.toList = i.operand.encode.reverse.flatMap Hex.byteDigits :=
    Listed.toList_rawText rfl hswitch
  refine ⟨?_, ?_, ?_, ?_⟩
  · rw [hraw, Hex.length_flatMap_byteDigits, List.length_reverse, Operand.length_encode]
  · intro c hc
    rw [hraw] at hc
    obtain ⟨byte, -, hbyte⟩ := List.mem_flatMap.mp hc
    exact Hex.byteDigits_subset byte hbyte
  · rw [hraw, Instruction.extract_operand hread]
  · intro σ r s k hk
    rw [run, withKept, hk]

/-- A backward `br.s` behind a `nop`, in a session whose requests are written down; and the bit pattern of
    a NaN that an `ldc.r4` loads. -/
theorem Session.raw_shows_bytes_nan :
    let jump : Listed :=
      { instruction := ⟨1, ⟨0x2B, "br.s", .shortBranch⟩, .shortBranch (-6)⟩
        style := .standard }
    let nan : Listed :=
      { instruction := ⟨0, ⟨0x22, "ldc.r4", .shortFloat⟩, .shortFloat 0xFFC00001⟩
        style := .standard }
    let session : Session (Unit × Array Request) :=
      { decoder := .ofBytes [0x00, 0x2B, 0xFA] .standard
        kept := #[jump]
        world := { host := ((), #[]) } }
    let r : Resolver Unit := .ofLookup fun c t => .error (.unresolved t c.word)
    jump.rawText.toList = ['F', 'A'] ∧ session.run r.recording (.raw 0) = (.text jump.rawText, session) ∧
    nan.rawText.toList = ['F', 'F', 'C', '0', '0', '0', '0', '1'] ∧ nan.rawText.toList.length = 8 := by
  intro jump nan session r
  have hbranch : Instruction.decodeAt [0x00, 0x2B, 0xFA] 1 = (.ok jump.instruction, 3) := rfl
  have hload : Instruction.decodeAt [0x22, 0x01, 0x00, 0xC0, 0xFF] 0 = (.ok nan.instruction, 5) := rfl
  obtain ⟨-, -, hjump, hrun⟩ := raw_shows_bytes hbranch nofun none
  obtain ⟨hlength, -, hnan, -⟩ := raw_shows_bytes hload nofun none
  exact ⟨hjump, hrun r.recording session 0 rfl, hnan, hlength⟩

end Cil
