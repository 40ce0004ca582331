import Cil.Instruction.Decode

/-
  WHAT IS READ IS WHAT IS WRITTEN.

  A `Code` is an instruction without its place: an opcode with an operand that it can have.  Codes
  written one after another (`Code.encodeAll`) are the bytes of a body.

  `Instruction.readAll` reads a whole run of bytes.  It comes to the end of them exactly if they are
  codes written one after another (`readAll_encodeAll`, `eq_encodeAll_of_readAll`), and since it can
  read them in one way only, the codes are determined by the bytes (`Code.encodeAll_injective`).

  At a cursor the same holds with anything in front and behind (`decodeAt_roundTrip`).
-/

namespace Cil

/-- An opcode with an operand that it can have. -/
@[ext]
structure Code where
  opcode : Opcode
  operand : Operand
  wellFormed : Instruction.WellFormed opcode operand

namespace Code

/-- The bytes of a code. -/
def encode (c : Code) : Bytes := c.opcode.encode ++ c.operand.encode

/-- The instruction that has this code at an offset. -/
def atOffset (c : Code) (offset : Nat) : Instruction := ⟨offset, c.opcode, c.operand⟩

@[simp] theorem encode_atOffset (c : Code) (offset : Nat) : (c.atOffset offset).encode = c.encode := rfl

/-- The bytes of codes that stand one after another. -/
def encodeAll (cs : List Code) : Bytes := cs.flatMap encode

/-- The instructions that have these codes one after another from an offset on. -/
def place : Nat → List Code → List Instruction
  | _, [] => []
  | offset, c :: cs => c.atOffset offset :: place (offset + c.encode.length) cs

/-- The two parts of a code. -/
def parts (c : Code) : Opcode × Operand := (c.opcode, c.operand)

theorem parts_injective : Function.Injective parts := by
  intro c c' h
  exact Code.ext (congrArg Prod.fst h) (congrArg Prod.snd h)

end Code

namespace Instruction

/-! ## One instruction -/

/-- What was read is a code, placed at the offset, and it stands in front of the rest. -/
theorem exists_code_of_read {offset : Nat} {bs rest : Bytes} {i : Instruction}
    (h : read offset bs = .ok (i, rest)) :
    ∃ c : Code, i = c.atOffset offset ∧ bs = c.encode ++ rest := by
  obtain ⟨rfl, hwf, hbs⟩ := read_eq_ok h
  exact ⟨⟨i.opcode, i.operand, hwf⟩, rfl, hbs⟩

theorem read_code (c : Code) (offset : Nat) (rest : Bytes) :
    read offset (c.encode ++ rest) = .ok (c.atOffset offset, rest) :=
  read_encode c.wellFormed offset rest

theorem length_of_read {offset : Nat} {bs rest : Bytes} {i : Instruction}
    (h : read offset bs = .ok (i, rest)) : bs.length = i.size + rest.length := by
  rw [(read_eq_ok h).2.2, List.length_append, length_encode]

theorem read_nil (offset : Nat) : read offset [] = .error .outOfBounds := rfl

/-- What is decoded fits into the buffer behind the cursor. -/
theorem add_size_le_of_read {b rest : Bytes} {p : Nat} {i : Instruction}
    (h : read p (b.drop p) = .ok (i, rest)) : p + i.size ≤ b.length := by
  have hlen := length_of_read h
  have hpos := i.size_pos
  rw [List.length_drop] at hlen
  omega

theorem rest_of_read {b rest : Bytes} {p : Nat} {i : Instruction}
    (h : read p (b.drop p) = .ok (i, rest)) : rest = b.drop (p + i.size) := by
  rw [← List.drop_drop, (read_eq_ok h).2.2, ← length_encode, List.drop_left]

/-- The size of an instruction is how far the reading of it moves the cursor. -/
theorem decodeAt_eq_ok_iff {b : Bytes} {cursor after : UInt64} {i : Instruction} :
    decodeAt b cursor = (.ok i, after) ↔
      (∃ rest, read cursor.toNat (b.drop cursor.toNat) = .ok (i, rest)) ∧
        after = UInt64.ofNat (cursor.toNat + i.size) := by
  unfold decodeAt
  split
  · rename_i j rest h
    have hmove : b.length - rest.length = cursor.toNat + j.size := by
      have hle := add_size_le_of_read h
      rw [rest_of_read h, List.length_drop]
      omega
    rw [hmove, h]
    constructor
    · rintro ⟨rfl, rfl⟩
      exact ⟨⟨rest, rfl⟩, rfl⟩
    · rintro ⟨⟨rest', heq⟩, rfl⟩
      cases heq
      rfl
  · rename_i e h
    simp [h]

/-- A code is read back at its place, whatever stands in front of it and behind. -/
theorem decodeAt_code (p s : Bytes) (c : Code) (hb : (p ++ c.encode ++ s).length < UInt64.size) :
    decodeAt (p ++ c.encode ++ s) (UInt64.ofNat p.length)
      = (.ok (c.atOffset p.length), UInt64.ofNat (p.length + c.encode.length)) := by
  have hcursor : (UInt64.ofNat p.length).toNat = p.length := by
    apply UInt64.toNat_ofNat_of_lt
    simp only [List.length_append] at hb
    omega
  rw [decodeAt_eq_ok_iff, hcursor, ← Code.encode_atOffset c p.length, length_encode]
  refine ⟨⟨s, ?_⟩, rfl⟩
  rw [List.append_assoc, List.drop_left, Code.encode_atOffset, read_code]

/-- **A round trip in both directions**, in buffers whose positions fit a 64-bit word.  Whatever stands
    around it, a code is read back at its place and the cursor moves behind it; and whatever is decoded
    at a cursor is a well-formed instruction whose bytes are those between the old cursor and the new
    one. -/
theorem decodeAt_roundTrip :
    (∀ (p s : Bytes) (c : Code), (p ++ c.encode ++ s).length < UInt64.size →
      (decodeAt (p ++ c.encode ++ s) (UInt64.ofNat p.length)).1 = .ok (c.atOffset p.length) ∧
      (decodeAt (p ++ c.encode ++ s) (UInt64.ofNat p.length)).2.toNat
        = p.length + c.encode.length) ∧
    (∀ (b : Bytes) (cursor after : UInt64) (i : Instruction), b.length < UInt64.size →
      decodeAt b cursor = (.ok i, after) →
      i.offset = cursor.toNat ∧ after.toNat = cursor.toNat + i.size ∧ after.toNat ≤ b.length ∧
      WellFormed i.opcode i.operand ∧ b.extract cursor.toNat after.toNat = i.encode) := by
  constructor
  · -- what is written is read
    intro p s c hb
    rw [decodeAt_code p s c hb]
    refine ⟨rfl, ?_⟩
    apply UInt64.toNat_ofNat_of_lt
    simp only [List.length_append] at hb
    omega
  · -- what is read is written
    intro b cursor after i hb h
    obtain ⟨⟨rest, hread⟩, rfl⟩ := decodeAt_eq_ok_iff.mp h
    obtain ⟨hoffset, hwf, hbs⟩ := read_eq_ok hread
    have hfit := add_size_le_of_read hread
    have hafter : (UInt64.ofNat (cursor.toNat + i.size)).toNat = cursor.toNat + i.size :=
      UInt64.toNat_ofNat_of_lt (Nat.lt_of_le_of_lt hfit hb)
    refine ⟨hoffset, hafter, by omega, hwf, ?_⟩
    rw [hafter, List.extract_eq_take_drop, hbs, Nat.add_sub_cancel_left, ← length_encode,
      List.take_left]

/-- A backward `br.s` between other bytes, and a jump table with one case before a `ret`. -/
theorem decodeAt_roundTrip_branch_switch :
    ((decodeAt [0x00, 0x2B, 0xF0, 0xFE] 1).1 = .ok ⟨1, ⟨0x2B, "br.s", .shortBranch⟩, .shortBranch (-16)⟩
      ∧ (decodeAt [0x00, 0x2B, 0xF0, 0xFE] 1).2.toNat = 3) ∧
    List.extract [0x00, 0x45, 1, 0, 0, 0, 0xFE, 0xFF, 0xFF, 0xFF, 0x2A] 1 10
      = encode ⟨1, ⟨0x45, "switch", .switch⟩, .switch [-2]⟩ :=
  ⟨decodeAt_roundTrip.1 [0x00] [0xFE]
      ⟨⟨0x2B, "br.s", .shortBranch⟩, .shortBranch (-16), ⟨by decide +kernel, rfl, by simp⟩⟩ (by decide),
    (decodeAt_roundTrip.2 [0x00, 0x45, 1, 0, 0, 0, 0xFE, 0xFF, 0xFF, 0xFF, 0x2A] 1 10
      ⟨1, ⟨0x45, "switch", .switch⟩, .switch [-2]⟩ (by decide) rfl).2.2.2.2⟩

/-! ## A run of bytes -/

/-- What a run of bytes holds: instructions, and what stops the reading before the end of the bytes, if
    anything does. -/
structure Reading where
  instructions : List Instruction
  stop? : Option DecodeError
deriving DecidableEq, Repr

/-- The reading with one more instruction in front. -/
def Reading.cons (i : Instruction) (r : Reading) : Reading :=
  { r with instructions := i :: r.instructions }

/-- Reads instructions one after another, the first at `offset`, until the bytes end or are none. -/
def readAll (offset : Nat) (bs : Bytes) : Reading :=
  match h : read offset bs with
  | .ok (i, rest) =>
    have : rest.length < bs.length := by
      have := length_of_read h
      have := i.size_pos
      omega
    (readAll (offset + i.size) rest).cons i
  | .error e => ⟨[], if bs = [] then none else some e⟩
termination_by bs.length

@[simp] theorem readAll_nil (offset : Nat) : readAll offset [] = ⟨[], none⟩ := by
  rw [readAll]
  split
  · rename_i h
    cases h
  · rfl

theorem readAll_of_ok {offset : Nat} {bs rest : Bytes} {i : Instruction}
    (h : read offset bs = .ok (i, rest)) :
    readAll offset bs = (readAll (offset + i.size) rest).cons i := by
  rw [readAll]
  split
  · rename_i j r h'
    cases h.symm.trans h'
    rfl
  · rename_i e h'
    cases h.symm.trans h'

theorem readAll_of_error {offset : Nat} {bs : Bytes} {e : DecodeError}
    (h : read offset bs = .error e) (hne : bs ≠ []) : readAll offset bs = ⟨[], some e⟩ := by
  rw [readAll]
  split
  · rename_i i rest h'
    cases h.symm.trans h'
  · rename_i e' h'
    cases h.symm.trans h'
    rw [if_neg hne]

/-- Codes written one after another are read back, each at its place. -/
theorem readAll_encodeAll (cs : List Code) (offset : Nat) :
    readAll offset (Code.encodeAll cs) = ⟨Code.place offset cs, none⟩ := by
  induction cs generalizing offset with
  | nil => exact readAll_nil offset
  | cons c cs ih =>
    have hread : read offset (Code.encodeAll (c :: cs))
        = .ok (c.atOffset offset, Code.encodeAll cs) := by
      rw [Code.encodeAll, List.flatMap_cons]
      exact read_code c offset _
    rw [readAll_of_ok hread, ← length_encode, Code.encode_atOffset, ih]
    rfl

/-- Bytes that are read to their end are codes written one after another. -/
theorem eq_encodeAll_of_readAll {offset : Nat} {bs : Bytes} (h : (readAll offset bs).stop? = none) :
    ∃ cs, bs = Code.encodeAll cs := by
  fun_induction readAll offset bs with
  | case1 offset bs i rest hread _ ih =>
    obtain ⟨cs, rfl⟩ := ih h
    obtain ⟨c, -, rfl⟩ := exists_code_of_read hread
    exact ⟨c :: cs, rfl⟩
  | case2 offset bs e hread =>
    have : bs = [] := by simpa using h
    exact ⟨[], this⟩

/-- The opcode and the operand, without the place. -/
def parts (i : Instruction) : Opcode × Operand := (i.opcode, i.operand)

theorem map_parts_place (cs : List Code) (offset : Nat) :
    (Code.place offset cs).map parts = cs.map Code.parts := by
  induction cs generalizing offset with
  | nil => rfl
  | cons c cs ih => rw [Code.place, List.map_cons, List.map_cons, ih]; rfl

/-- Instructions that lie one behind the other without a gap, from one position to another. -/
def Tiles : Nat → List Instruction → Nat → Prop
  | p, [], q => p = q
  | p, i :: is, q => i.offset = p ∧ Tiles (p + i.size) is q

theorem tiles_place (cs : List Code) (offset : Nat) :
    Tiles offset (Code.place offset cs) (offset + (Code.encodeAll cs).length) := by
  induction cs generalizing offset with
  | nil => rfl
  | cons c cs ih =>
    refine ⟨rfl, ?_⟩
    rw [← length_encode, Code.encode_atOffset, Code.encodeAll, List.flatMap_cons, List.length_append,
      ← Nat.add_assoc]
    exact ih _

end Instruction

/-- No bytes are two lists of codes: reading them gives the parts of both. -/
theorem Code.encodeAll_injective : Function.Injective Code.encodeAll := by
  intro cs cs' h
  have hread := Instruction.readAll_encodeAll cs 0
  rw [h, Instruction.readAll_encodeAll] at hread
  have hplace : Code.place 0 cs' = Code.place 0 cs := congrArg Instruction.Reading.instructions hread
  have hparts := congrArg (List.map Instruction.parts) hplace
  rw [Instruction.map_parts_place, Instruction.map_parts_place] at hparts
  exact (List.map_inj_right fun _ _ h => Code.parts_injective h).mp hparts.symm

end Cil
