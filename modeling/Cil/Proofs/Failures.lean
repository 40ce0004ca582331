import Cil.Proofs.Truncation

/-
  WHY THERE IS NO INSTRUCTION.

  At a position of a body there is an instruction or one thing is wrong, and only one: the bytes end too
  early, they are those of no opcode, or a jump table claims more cases than there are bytes for
  (`Instruction.Fault`).  Each is said in terms of the bytes at the position and of `Opcode.lookup?`, and
  decoding fails with the reason that fits (`Instruction.read_eq_error_iff`).

  A cursor is a word of 64 bits, and can stand anywhere.  `Words.decodeAt` decodes with words throughout:
  a sum that is no word means that the bytes are not there, while a difference that is none, or a case
  that is missing from a table with room for it, would be a `Slip`.  It never slips, and agrees with
  `Instruction.decodeAt` at every cursor (`Words.decodeAt_eq`).
-/

namespace Cil

/-! ## What stands at a position -/

namespace Opcode

/-- The opcode that is written at a position. -/
def at? (b : Bytes) (p : Nat) : Option Opcode := b[p]?.bind fun first => lookup? first b[p + 1]?

/-- The bytes end before the opcode does. -/
def CutOff (b : Bytes) (p : Nat) : Prop := b.length ≤ p ∨ b[p]? = some escape ∧ p + 1 = b.length

/-- The bytes of an opcode are there, and are those of none. -/
def Undefined (b : Bytes) (p : Nat) (us : Bytes) : Prop :=
  at? b p = none ∧
    ((∃ first, b[p]? = some first ∧ first ≠ escape ∧ us = [first]) ∨
      ∃ second, b[p]? = some escape ∧ b[p + 1]? = some second ∧ us = [escape, second])

theorem drop_of_getElem? {b : Bytes} {p : Nat} {x : UInt8} (h : b[p]? = some x) :
    b.drop p = x :: b.drop (p + 1) := by
  rw [List.drop_eq_getElem?_toList_append, h]
  rfl

theorem read_of_cutOff {b : Bytes} {p : Nat} (h : CutOff b p) :
    read (b.drop p) = .error .outOfBounds := by
  rcases h with hend | ⟨hfirst, hend⟩
  · rw [List.drop_eq_nil_of_le hend]
    rfl
  · rw [drop_of_getElem? hfirst, List.drop_eq_nil_of_le (by omega)]
    rfl

theorem read_of_undefined {b us : Bytes} {p : Nat} (h : Undefined b p us) :
    read (b.drop p) = .error (.undefinedOpcode us) := by
  obtain ⟨hnone, ⟨first, hfirst, hne, rfl⟩ | ⟨second, hfirst, hsecond, rfl⟩⟩ := h
  · rw [at?, hfirst, Option.bind_some, lookup?, if_neg hne] at hnone
    unfold read
    rw [drop_of_getElem? hfirst]
    dsimp only
    rw [if_neg hne, hnone]
  · rw [at?, hfirst, Option.bind_some, lookup?, if_pos rfl, hsecond, Option.bind_some] at hnone
    unfold read
    rw [drop_of_getElem? hfirst, drop_of_getElem? hsecond]
    dsimp only
    rw [if_pos rfl, hnone]

/-- An opcode that is written at a position is a defined one, and its bytes stand there. -/
theorem drop_of_at? {b : Bytes} {p : Nat} {o : Opcode} (h : at? b p = some o) :
    o ∈ all ∧ b.drop p = o.encode ++ b.drop (p + o.size) := by
  obtain ⟨first, hfirst, hlookup⟩ := Option.bind_eq_some_iff.mp h
  unfold lookup? at hlookup
  split at hlookup
  · rename_i hescape
    obtain ⟨second, hsecond, htwo⟩ := Option.bind_eq_some_iff.mp hlookup
    have hencode := encode_of_twoByte? htwo
    have hsize : o.size = 2 := by rw [← length_encode, hencode]; rfl
    refine ⟨mem_all_of_find? htwo, ?_⟩
    rw [drop_of_getElem? hfirst, drop_of_getElem? hsecond, hencode, hsize, hescape]
    rfl
  · have hencode := encode_of_oneByte? hlookup
    have hsize : o.size = 1 := by rw [← length_encode, hencode]; rfl
    refine ⟨mem_all_of_find? hlookup, ?_⟩
    rw [drop_of_getElem? hfirst, hencode, hsize]
    rfl

theorem add_size_le_of_at? {b : Bytes} {p : Nat} {o : Opcode} (h : at? b p = some o) :
    p + o.size ≤ b.length := by
  have hlen := congrArg List.length (drop_of_at? h).2
  have hpos : 0 < o.size := by
    unfold size
    split <;> omega
  simp only [List.length_append, List.length_drop, length_encode] at hlen
  omega

theorem read_of_at? {b : Bytes} {p : Nat} {o : Opcode} (h : at? b p = some o) :
    read (b.drop p) = .ok (o, b.drop (p + o.size)) := by
  obtain ⟨hdefined, hbytes⟩ := drop_of_at? h
  rw [hbytes, read_encode hdefined]

/-- What can stand at a position. -/
theorem at_cases (b : Bytes) (p : Nat) :
    CutOff b p ∨ (∃ us, Undefined b p us) ∨ ∃ o, at? b p = some o := by
  cases hat : at? b p with
  | some o => exact .inr (.inr ⟨o, rfl⟩)
  | none =>
    cases hfirst : b[p]? with
    | none => exact .inl (.inl (List.getElem?_eq_none_iff.mp hfirst))
    | some first =>
      have hp : p < b.length := (List.getElem?_eq_some_iff.mp hfirst).1
      by_cases hescape : first = escape
      · subst hescape
        cases hsecond : b[p + 1]? with
        | none =>
          have hend := List.getElem?_eq_none_iff.mp hsecond
          exact .inl (.inr ⟨hfirst, by omega⟩)
        | some second => exact .inr (.inl ⟨_, hat, .inr ⟨second, hfirst, hsecond, rfl⟩⟩)
      · exact .inr (.inl ⟨_, hat, .inl ⟨first, hfirst, hescape, rfl⟩⟩)

end Opcode

theorem Shape.width?_lt {s : Shape} {w : Nat} (h : s.width? = some w) : w < UInt64.size := by
  cases s with
  | switch => cases h
  | _ =>
    cases h
    decide

namespace Operand

theorem size_of_width? {o : Operand} {w : Nat} (h : o.shape.width? = some w) : o.size = w := by
  cases o with
  | switch => cases h
  | _ =>
    cases h
    rfl

/-- The bytes end before an operand of a fixed width does, or before the number of the cases. -/
theorem read_of_length_lt {s : Shape} {bs : Bytes} (h : bs.length < s.width?.getD 4) :
    read s bs = .error .outOfBounds := by
  cases s with
  | empty => exact absurd h (Nat.not_lt_zero _)
  | switch =>
    have hword : bs.readWord 4 = none := Bytes.readWord_eq_none.mpr h
    show readSwitch bs = _
    rw [readSwitch, hword]
  | _ => exact readFixed_of_length_lt h _

/-- A jump table claims more cases than there is room for. -/
theorem read_of_claims {bs : Bytes} {count remaining : Nat} (hcount : count < UInt32.size)
    (hword : bs.take 4 = Bytes.littleEndian 4 count) (hlen : bs.length = 4 + remaining)
    (hroom : remaining < 4 * count) : read .switch bs = .error (.oversizedSwitch count remaining) := by
  have hrest : (bs.drop 4).length = remaining := by
    rw [List.length_drop]
    omega
  show readSwitch bs = _
  rw [← List.take_append_drop 4 bs, hword, readSwitch, Bytes.readWord_append 4 _ hcount]
  dsimp only
  rw [hrest, if_pos hroom]

/-- Otherwise there is an operand. -/
theorem read_cases (s : Shape) (bs : Bytes) :
    bs.length < s.width?.getD 4 ∨
    (s = .switch ∧ ∃ count remaining, count < UInt32.size ∧ bs.take 4 = Bytes.littleEndian 4 count ∧
      bs.length = 4 + remaining ∧ remaining < 4 * count) ∨
    ∃ o rest, read s bs = .ok (o, rest) := by
  have hfixed (w : Nat) (make : Nat → Operand) :
      bs.length < w ∨ ∃ o rest, readFixed w make bs = .ok (o, rest) := by
    unfold readFixed
    split
    · exact .inr ⟨_, _, rfl⟩
    · rename_i hnone
      exact .inl (Bytes.readWord_eq_none.mp hnone)
  cases s with
  | empty => exact .inr (.inr ⟨_, _, rfl⟩)
  | switch =>
    cases hword : bs.readWord 4 with
    | none => exact .inl (Bytes.readWord_eq_none.mp hword)
    | some word =>
      obtain ⟨count, rest⟩ := word
      obtain ⟨rfl, hcount⟩ := Bytes.readWord_eq_some hword
      by_cases hroom : rest.length < 4 * count
      · refine .inr (.inl ⟨rfl, count, rest.length, hcount, ?_, ?_, hroom⟩)
        · rw [List.take_left' (Bytes.length_littleEndian 4 count)]
        · rw [List.length_append, Bytes.length_littleEndian]
      · -- with room for every case, the cases are there
        obtain ⟨⟨deltas, rest'⟩, hdeltas⟩ :=
          Option.isSome_iff_exists.mp (readDeltas_isSome (Nat.le_of_not_lt hroom))
        refine .inr (.inr ⟨.switch deltas, rest', ?_⟩)
        show readSwitch (Bytes.littleEndian 4 count ++ rest) = _
        rw [readSwitch, hword]
        dsimp only
        rw [if_neg hroom, hdeltas]
  | _ => exact (hfixed _ _).imp_right .inr

end Operand

namespace Instruction

/-- The bytes end before the opcode does, or before its operand; of a jump table they end before the
    number of its cases. -/
def EndsEarly (b : Bytes) (p : Nat) : Prop :=
  Opcode.CutOff b p ∨ ∃ o, Opcode.at? b p = some o ∧ b.length < p + o.size + o.shape.width?.getD 4

/-- The number of the cases of a jump table is there, and there are not bytes enough behind it. -/
def Oversized (b : Bytes) (p count remaining : Nat) : Prop :=
  ∃ o, Opcode.at? b p = some o ∧ o.shape = .switch ∧ count < UInt32.size ∧
    b.extract (p + o.size) (p + o.size + 4) = Bytes.littleEndian 4 count ∧
    b.length = p + o.size + 4 + remaining ∧ remaining < 4 * count

theorem read_of_opcode_error {bs : Bytes} {e : DecodeError} (h : Opcode.read bs = .error e) (offset : Nat) :
    read offset bs = .error e := by
  rw [read, h]

/-- With the opcode there, it is the operand that decides. -/
theorem read_of_at? {b : Bytes} {p : Nat} {o : Opcode} (h : Opcode.at? b p = some o) :
    read p (b.drop p) =
      (Operand.read o.shape (b.drop (p + o.size))).map fun (operand, rest) => (⟨p, o, operand⟩, rest) := by
  rw [read, Opcode.read_of_at? h]
  dsimp only
  cases Operand.read o.shape (b.drop (p + o.size)) <;> rfl

theorem read_of_endsEarly {b : Bytes} {p : Nat} (h : EndsEarly b p) :
    read p (b.drop p) = .error .outOfBounds := by
  rcases h with hopcode | ⟨o, ho, hlen⟩
  · exact read_of_opcode_error (Opcode.read_of_cutOff hopcode) p
  · have hshort : (b.drop (p + o.size)).length < o.shape.width?.getD 4 := by
      have hfit := Opcode.add_size_le_of_at? ho
      rw [List.length_drop]
      omega
    rw [read_of_at? ho, Operand.read_of_length_lt hshort]
    rfl

theorem read_of_oversized {b : Bytes} {p count remaining : Nat} (h : Oversized b p count remaining) :
    read p (b.drop p) = .error (.oversizedSwitch count remaining) := by
  obtain ⟨o, ho, hshape, hcount, hword, hlen, hroom⟩ := h
  rw [List.extract_eq_take_drop, Nat.add_sub_cancel_left] at hword
  have hlength : (b.drop (p + o.size)).length = 4 + remaining := by
    rw [List.length_drop]
    omega
  rw [read_of_at? ho, hshape, Operand.read_of_claims hcount hword hlength hroom]
  rfl

/-- What is wrong at a position, as the reason says. -/
def Fault (b : Bytes) (p : Nat) : DecodeError → Prop
  | .outOfBounds => EndsEarly b p
  | .undefinedOpcode us => Opcode.Undefined b p us
  | .oversizedSwitch count remaining => Oversized b p count remaining

theorem read_of_fault {b : Bytes} {p : Nat} {e : DecodeError} (h : Fault b p e) :
    read p (b.drop p) = .error e := by
  cases e with
  | outOfBounds => exact read_of_endsEarly h
  | undefinedOpcode us => exact read_of_opcode_error (Opcode.read_of_undefined h) p
  | oversizedSwitch count remaining => exact read_of_oversized h

/-- Something is wrong, or there is an instruction. -/
theorem read_cases (b : Bytes) (p : Nat) :
    (∃ e, Fault b p e) ∨
      ∃ i rest, read p (b.drop p) = .ok (i, rest) ∧ Opcode.at? b p = some i.opcode := by
  rcases Opcode.at_cases b p with hcut | ⟨us, hundefined⟩ | ⟨o, ho⟩
  · exact .inl ⟨.outOfBounds, .inl hcut⟩
  · exact .inl ⟨.undefinedOpcode us, hundefined⟩
  · have hfit := Opcode.add_size_le_of_at? ho
    have hlen : (b.drop (p + o.size)).length = b.length - (p + o.size) := List.length_drop
    rcases Operand.read_cases o.shape (b.drop (p + o.size)) with
      hshort | ⟨hshape, count, remaining, hcount, hword, hlength, hroom⟩ | ⟨operand, rest, hoperand⟩
    · exact .inl ⟨.outOfBounds, .inr ⟨o, ho, by omega⟩⟩
    · refine .inl ⟨.oversizedSwitch count remaining, o, ho, hshape, hcount, ?_, by omega, hroom⟩
      rw [List.extract_eq_take_drop, Nat.add_sub_cancel_left, hword]
    · refine .inr ⟨⟨p, o, operand⟩, rest, ?_, ho⟩
      rw [read_of_at? ho, hoperand]
      rfl

theorem read_eq_error_iff {b : Bytes} {p : Nat} {e : DecodeError} :
    read p (b.drop p) = .error e ↔ Fault b p e := by
  refine ⟨fun h => ?_, read_of_fault⟩
  rcases read_cases b p with ⟨e', he'⟩ | ⟨i, rest, hread, -⟩
  · cases h.symm.trans (read_of_fault he')
    exact he'
  · cases h.symm.trans hread

end Instruction

/-! ## Positions that are words -/

namespace Words

/-- What must not happen while an instruction is decoded. -/
inductive Slip where
  /-- More bytes are taken than there are. -/
  | negative
  /-- A case of a jump table is missing that there is room for. -/
  | missingCase

/-- The sum of two words, if it is one. -/
def add? (x y : UInt64) : Option UInt64 := if x.toNat + y.toNat < UInt64.size then some (x + y) else none

/-- The difference of two words, if it is one. -/
def sub? (x y : UInt64) : Option UInt64 := if y ≤ x then some (x - y) else none

/-- How many bytes there are. -/
def len (b : Bytes) : UInt64 := UInt64.ofNat b.length

/-- The next `w` bytes at a position, with the position behind them. -/
def slice? (b : Bytes) (w : Nat) (position : UInt64) : Option (Bytes × UInt64) :=
  (add? position (UInt64.ofNat w)).bind fun stop =>
    if stop ≤ len b then some (b.extract position.toNat stop.toNat, stop) else none

/-- The word of `w` bytes at a position, with the position behind it. -/
def word? (b : Bytes) (w : Nat) (position : UInt64) : Option (Nat × UInt64) :=
  (slice? b w position).bind fun (bytes, stop) => (bytes.readWord w).map fun (n, _) => (n, stop)

/-- The opcode at a position, with the position behind it. -/
def opcode (b : Bytes) (position : UInt64) : Except DecodeError (Opcode × UInt64) :=
  match word? b 1 position with
  | none => .error .outOfBounds
  | some (n, position) =>
    let first := UInt8.ofNat n
    if first = Opcode.escape then
      match word? b 1 position with
      | none => .error .outOfBounds
      | some (n, position) =>
        let second := UInt8.ofNat n
        match Opcode.twoByte? second with
        | some o => .ok (o, position)
        | none => .error (.undefinedOpcode [first, second])
    else
      match Opcode.oneByte? first with
      | some o => .ok (o, position)
      | none => .error (.undefinedOpcode [first])

/-- The distances at a position, one after another. -/
def deltas (b : Bytes) : Nat → UInt64 → Except Slip (List Int32 × UInt64)
  | 0, position => .ok ([], position)
  | count + 1, position =>
    match word? b 4 position with
    | none => .error .missingCase
    | some (n, position) =>
      (deltas b count position).map fun (ds, position) => ((UInt32.ofNat n).toInt32 :: ds, position)

/-- The jump table at a position: of the bytes that remain, four are needed for each case. -/
def switch (b : Bytes) (position : UInt64) : Except Slip (Except DecodeError (Operand × UInt64)) :=
  match word? b 4 position with
  | none => .ok (.error .outOfBounds)
  | some (count, position) =>
    match sub? (len b) position with
    | none => .error .negative
    | some remaining =>
      if remaining / 4 < UInt64.ofNat count then
        .ok (.error (.oversizedSwitch count remaining.toNat))
      else
        (deltas b count position).map fun (ds, position) => .ok (.switch ds, position)

/-- The operand of a shape at a position. -/
def operand (b : Bytes) (s : Shape) (position : UInt64) :
    Except Slip (Except DecodeError (Operand × UInt64)) :=
  match s.width? with
  | none => switch b position
  | some w =>
    match slice? b w position with
    | none => .ok (.error .outOfBounds)
    | some (bytes, stop) => .ok ((Operand.read s bytes).map fun (o, _) => (o, stop))

/-- The instruction at a cursor, with the cursor after the attempt. -/
def decodeAt (b : Bytes) (cursor : UInt64) : Except Slip (Except DecodeError Instruction × UInt64) :=
  match opcode b cursor with
  | .error e => .ok (.error e, cursor)
  | .ok (o, position) =>
    match operand b o.shape position with
    | .error slip => .error slip
    | .ok (.error e) => .ok (.error e, cursor)
    | .ok (.ok (x, position)) => .ok (.ok ⟨cursor.toNat, o, x⟩, position)

/-! The same, as long as the bytes can be counted. -/

/-- The position where the rest begins. -/
def behind (b rest : Bytes) : UInt64 := UInt64.ofNat (b.length - rest.length)

section

variable {b : Bytes} (hb : b.length < UInt64.size)
include hb

theorem toNat_behind (rest : Bytes) : (behind b rest).toNat = b.length - rest.length :=
  UInt64.toNat_ofNat_of_lt (by omega)

theorem toNat_len : (len b).toNat = b.length := UInt64.toNat_ofNat_of_lt hb

/-- The next bytes are there exactly if the rest has them. -/
theorem slice?_behind {rest : Bytes} (h : rest <:+ b) {w : Nat} (hw : w < UInt64.size) :
    slice? b w (behind b rest) =
      if w ≤ rest.length then some (rest.take w, behind b (rest.drop w)) else none := by
  have hlen : rest.length ≤ b.length := h.length_le
  have hposition := toNat_behind hb rest
  have hwidth : (UInt64.ofNat w).toNat = w := UInt64.toNat_ofNat_of_lt hw
  unfold slice? add?
  rw [hposition, hwidth]
  by_cases hroom : w ≤ rest.length
  · have hsum : b.length - rest.length + w < UInt64.size := by omega
    have hstop : behind b rest + UInt64.ofNat w = behind b (rest.drop w) := by
      apply UInt64.toNat_inj.mp
      rw [UInt64.toNat_add, hposition, hwidth, toNat_behind hb, List.length_drop]
      rw [Nat.mod_eq_of_lt hsum]
      omega
    have hle : behind b (rest.drop w) ≤ len b := by
      rw [UInt64.le_iff_toNat_le, toNat_len hb, toNat_behind hb]
      omega
    have hbytes : b.extract (b.length - rest.length) (behind b (rest.drop w)).toNat = rest.take w := by
      rw [List.extract_eq_take_drop, toNat_behind hb, List.length_drop,
        ← List.suffix_iff_eq_drop.mp h]
      congr 1
      omega
    rw [if_pos hsum, if_pos hroom, hstop, Option.bind_some, if_pos hle, hbytes]
  · rw [if_neg hroom]
    by_cases hsum : b.length - rest.length + w < UInt64.size
    · have hgt : ¬ behind b rest + UInt64.ofNat w ≤ len b := by
        rw [UInt64.le_iff_toNat_le, UInt64.toNat_add, hposition, hwidth, toNat_len hb,
          Nat.mod_eq_of_lt hsum]
        omega
      rw [if_pos hsum, Option.bind_some, if_neg hgt]
    · rw [if_neg hsum, Option.bind_none]

theorem slice?_of_gt {position : UInt64} (h : b.length < position.toNat) {w : Nat}
    (hw : w < UInt64.size) : slice? b w position = none := by
  have hwidth : (UInt64.ofNat w).toNat = w := UInt64.toNat_ofNat_of_lt hw
  unfold slice? add?
  rw [hwidth]
  by_cases hsum : position.toNat + w < UInt64.size
  · have hgt : ¬ position + UInt64.ofNat w ≤ len b := by
      rw [UInt64.le_iff_toNat_le, UInt64.toNat_add, hwidth, toNat_len hb, Nat.mod_eq_of_lt hsum]
      omega
    rw [if_pos hsum, Option.bind_some, if_neg hgt]
  · rw [if_neg hsum, Option.bind_none]

theorem word?_behind {rest : Bytes} (h : rest <:+ b) {w : Nat} (hw : w < UInt64.size) :
    word? b w (behind b rest) = (rest.readWord w).map fun (n, rest') => (n, behind b rest') := by
  unfold word?
  rw [slice?_behind hb h hw]
  cases hword : rest.readWord w with
  | none =>
    have hshort := Bytes.readWord_eq_none.mp hword
    rw [if_neg (by omega)]
    rfl
  | some word =>
    obtain ⟨n, rest'⟩ := word
    obtain ⟨rfl, hn⟩ := Bytes.readWord_eq_some hword
    have hwidth := Bytes.length_littleEndian w n
    have hbytes : (Bytes.littleEndian w n).readWord w = some (n, []) := by
      rw [← List.append_nil (Bytes.littleEndian w n)]
      exact Bytes.readWord_append w n hn []
    rw [List.length_append, hwidth, if_pos (by omega), List.take_left' hwidth, List.drop_left' hwidth,
      Option.bind_some]
    dsimp only
    rw [hbytes]
    rfl

/-- What is left of the bytes is counted without going below zero. -/
theorem sub?_behind {rest : Bytes} (h : rest <:+ b) :
    ∃ remaining, sub? (len b) (behind b rest) = some remaining ∧ remaining.toNat = rest.length := by
  have hlen : rest.length ≤ b.length := h.length_le
  have hle : behind b rest ≤ len b := by
    rw [UInt64.le_iff_toNat_le, toNat_len hb, toNat_behind hb]
    omega
  refine ⟨len b - behind b rest, ?_, ?_⟩
  · rw [sub?, if_pos hle]
  · rw [UInt64.toNat_sub_of_le _ _ hle, toNat_len hb, toNat_behind hb]
    omega

theorem opcode_behind {rest : Bytes} (h : rest <:+ b) :
    opcode b (behind b rest) = (Opcode.read rest).map fun (o, rest') => (o, behind b rest') := by
  have hone : 1 < UInt64.size := by decide
  cases rest with
  | nil =>
    unfold opcode
    rw [word?_behind hb h hone]
    rfl
  | cons first rest =>
    have hrest : rest <:+ b := (List.suffix_cons first rest).trans h
    have hfirst : word? b 1 (behind b (first :: rest)) = some (first.toNat, behind b rest) :=
      word?_behind hb h hone
    unfold opcode Opcode.read
    rw [hfirst]
    dsimp only
    rw [UInt8.ofNat_toNat]
    split
    · cases rest with
      | nil =>
        rw [word?_behind hb hrest hone]
        rfl
      | cons second rest =>
        have hsecond : word? b 1 (behind b (second :: rest)) = some (second.toNat, behind b rest) :=
          word?_behind hb hrest hone
        rw [hsecond]
        dsimp only
        rw [UInt8.ofNat_toNat]
        cases Opcode.twoByte? second <;> rfl
    · cases Opcode.oneByte? first <;> rfl

theorem deltas_behind {rest rest' : Bytes} {count : Nat} {ds : List Int32} (h : rest <:+ b)
    (hread : Operand.readDeltas count rest = some (ds, rest')) :
    deltas b count (behind b rest) = .ok (ds, behind b rest') := by
  induction count generalizing rest ds with
  | zero =>
    cases hread
    rfl
  | succ count ih =>
    unfold deltas
    rw [word?_behind hb h (by decide)]
    unfold Operand.readDeltas at hread
    cases hword : rest.readWord 4 with
    | none =>
      rw [hword] at hread
      cases hread
    | some word =>
      obtain ⟨n, r⟩ := word
      rw [hword] at hread
      dsimp only at hread
      have hr : r <:+ b := by
        obtain ⟨rfl, -⟩ := Bytes.readWord_eq_some hword
        exact (List.suffix_append _ r).trans h
      cases hds : Operand.readDeltas count r with
      | none =>
        rw [hds] at hread
        cases hread
      | some table =>
        obtain ⟨ds', r'⟩ := table
        rw [hds] at hread
        cases hread
        rw [Option.map_some]
        dsimp only
        rw [ih hr hds]
        rfl

theorem switch_behind {rest : Bytes} (h : rest <:+ b) :
    switch b (behind b rest) = .ok ((Operand.readSwitch rest).map fun (o, rest') => (o, behind b rest')) := by
  unfold switch Operand.readSwitch
  rw [word?_behind hb h (by decide)]
  cases hword : rest.readWord 4 with
  | none => rfl
  | some word =>
    obtain ⟨count, r⟩ := word
    obtain ⟨rfl, hcount⟩ := Bytes.readWord_eq_some hword
    have hr : r <:+ b := (List.suffix_append _ r).trans h
    obtain ⟨remaining, hsub, hremaining⟩ := sub?_behind hb hr
    have hcases : (UInt64.ofNat count).toNat = count := by
      apply UInt64.toNat_ofNat_of_lt
      exact Nat.lt_trans hcount (by decide)
    -- the guard divides where the numbers are multiplied
    have hguard : remaining / 4 < UInt64.ofNat count ↔ r.length < 4 * count := by
      rw [UInt64.lt_iff_toNat_lt, UInt64.toNat_div, hremaining, hcases]
      show r.length / 4 < count ↔ _
      omega
    rw [Option.map_some]
    dsimp only
    rw [hsub]
    dsimp only
    by_cases hroom : r.length < 4 * count
    · rw [if_pos (hguard.mpr hroom), if_pos hroom, hremaining]
      rfl
    · rw [if_neg (mt hguard.mp hroom), if_neg hroom]
      obtain ⟨⟨ds, r'⟩, hds⟩ :=
        Option.isSome_iff_exists.mp (Operand.readDeltas_isSome (Nat.le_of_not_lt hroom))
      rw [deltas_behind hb hr hds, hds]
      rfl

theorem operand_behind {rest : Bytes} (h : rest <:+ b) (s : Shape) :
    operand b s (behind b rest) = .ok ((Operand.read s rest).map fun (o, rest') => (o, behind b rest')) := by
  unfold operand
  cases hw : s.width? with
  | none =>
    cases s with
    | switch => exact switch_behind hb h
    | _ => cases hw
  | some w =>
    dsimp only
    have hwidth : s.width?.getD 4 = w := by rw [hw]; rfl
    rw [slice?_behind hb h (Shape.width?_lt hw)]
    rcases Operand.read_cases s rest with hshort | ⟨rfl, -⟩ | ⟨o, rest', hread⟩
    · rw [if_neg (by omega), Operand.read_of_length_lt hshort]
      rfl
    · cases hw
    · -- the operand is made of its own bytes and of no others
      obtain ⟨rfl, hcount, rfl⟩ := Operand.read_eq_ok hread
      have hlen : o.encode.length = w := by rw [Operand.length_encode, Operand.size_of_width? hw]
      have hown : Operand.read o.shape o.encode = .ok (o, []) := by
        rw [← Operand.read_encode o hcount [], List.append_nil]
      rw [hread, List.length_append, if_pos (by omega), List.take_left' hlen, List.drop_left' hlen]
      dsimp only
      rw [hown]
      rfl

/-- **Words are enough.**  Decoding with positions that are words agrees with decoding with numbers, at
    every cursor: nothing is taken that is not there, and no case of a jump table is missing. -/
theorem decodeAt_eq (cursor : UInt64) : decodeAt b cursor = .ok (Instruction.decodeAt b cursor) := by
  by_cases hcursor : cursor.toNat ≤ b.length
  · have hrest : b.drop cursor.toNat <:+ b := List.drop_suffix ..
    have hposition : cursor = behind b (b.drop cursor.toNat) := by
      apply UInt64.toNat_inj.mp
      rw [toNat_behind hb, List.length_drop]
      omega
    unfold decodeAt Instruction.decodeAt Instruction.read
    have hopcode := opcode_behind hb hrest
    rw [← hposition] at hopcode
    rw [hopcode]
    cases hread : Opcode.read (b.drop cursor.toNat) with
    | error e => rfl
    | ok read =>
      obtain ⟨o, rest⟩ := read
      have hbytes := (Opcode.read_eq_ok hread).2
      have hsuffix : rest <:+ b := by
        refine List.IsSuffix.trans ?_ hrest
        rw [hbytes]
        exact List.suffix_append _ rest
      dsimp only [Except.map]
      rw [operand_behind hb hsuffix]
      rcases Operand.read o.shape rest with e | ⟨operand, rest'⟩
      · rfl
      · rfl
  · -- behind the end there is nothing to read
    have hend : b.length < cursor.toNat := Nat.lt_of_not_le hcursor
    have hword : word? b 1 cursor = none := by rw [word?, slice?_of_gt hb hend (by decide), Option.bind_none]
    unfold decodeAt Instruction.decodeAt opcode
    rw [hword, List.drop_eq_nil_of_le (Nat.le_of_lt hend), Instruction.read_nil]

end

end Words

/-! ## The reasons -/

namespace DecodeError

theorem message_undefinedOpcode_pair (first second : UInt8) :
    (undefinedOpcode [first, second]).message
      = "Invalid opcode: " ++ Hex.fixed .upper 2 first.toNat ++ " " ++ Hex.fixed .upper 2 second.toNat := by
  rw [String.append_assoc, String.append_assoc]
  show "Invalid opcode: " ++ (Hex.fixed .upper 2 first.toNat ++ " " ++ Hex.fixed .upper 2 second.toNat) = _
  rw [String.append_assoc]

end DecodeError

namespace Instruction

theorem decodeAt_fst_eq_error_iff {b : Bytes} {cursor : UInt64} {e : DecodeError} :
    (decodeAt b cursor).1 = .error e ↔ Fault b cursor.toNat e := by
  rw [← read_eq_error_iff]
  unfold decodeAt
  split
  · rename_i h
    simp [h]
  · rename_i h
    simp [h]

theorem decodeAt_snd_of_error {b : Bytes} {cursor : UInt64} {e : DecodeError}
    (h : (decodeAt b cursor).1 = .error e) : (decodeAt b cursor).2 = cursor := by
  unfold decodeAt at h ⊢
  split
  · rename_i hread
    rw [hread] at h
    cases h
  · rfl

/-- **Why decoding fails.**  At every cursor, it fails because the bytes end early, because their opcode
    is undefined, or because a jump table is oversized, exactly if they do, it is, or it is; otherwise it
    gives an instruction with the opcode that stands there.  The reason names the bytes of the opcode, or
    the number of the cases and the bytes that remain.  A failure leaves the cursor where it was.

    As long as the bytes can be counted in 64 bits, so can every position on the way: decoding with words
    gives the same, and never slips. -/
theorem decodeAt_failures (b : Bytes) (cursor : UInt64) :
    let p := cursor.toNat
    let outcome := (decodeAt b cursor).1
    (outcome = .error .outOfBounds ↔ EndsEarly b p) ∧
    (∀ us, outcome = .error (.undefinedOpcode us) ↔ Opcode.Undefined b p us) ∧
    (∀ count remaining,
      outcome = .error (.oversizedSwitch count remaining) ↔ Oversized b p count remaining) ∧
    (¬ EndsEarly b p → (∀ us, ¬ Opcode.Undefined b p us) →
      (∀ count remaining, ¬ Oversized b p count remaining) →
      ∃ i, outcome = .ok i ∧ Opcode.at? b p = some i.opcode) ∧
    (∀ first : UInt8, (DecodeError.undefinedOpcode [first]).message
      = "Invalid opcode: " ++ Hex.fixed .upper 2 first.toNat) ∧
    (∀ second : UInt8, (DecodeError.undefinedOpcode [Opcode.escape, second]).message
      = "Invalid opcode: FE " ++ Hex.fixed .upper 2 second.toNat) ∧
    (∀ count remaining, (DecodeError.oversizedSwitch count remaining).message
      = "Switch with " ++ Nat.repr count ++ " cases does not fit in the remaining "
        ++ Nat.repr remaining ++ " bytes") ∧
    (∀ e, outcome = .error e → (decodeAt b cursor).2 = cursor) ∧
    (b.length < UInt64.size → Words.decodeAt b cursor = .ok (decodeAt b cursor)) := by
  intro p outcome
  refine ⟨decodeAt_fst_eq_error_iff, fun _ => decodeAt_fst_eq_error_iff,
    fun _ _ => decodeAt_fst_eq_error_iff, ?_, fun _ => rfl, ?_, fun _ _ => rfl, ?_, ?_⟩
  · intro hends hundefined hoversized
    rcases read_cases b p with ⟨e, he⟩ | ⟨i, rest, hread, hat⟩
    · cases e with
      | outOfBounds => exact absurd he hends
      | undefinedOpcode us => exact absurd he (hundefined us)
      | oversizedSwitch count remaining => exact absurd he (hoversized count remaining)
    · refine ⟨i, ?_, hat⟩
      show (decodeAt b cursor).1 = _
      rw [decodeAt, hread]
  · intro second
    rw [DecodeError.message_undefinedOpcode_pair]
    rfl
  · intro e he
    exact decodeAt_snd_of_error he
  · intro hb
    exact Words.decodeAt_eq hb cursor

/-- A cursor that no byte can be counted from; an escape byte at the end; one before a byte that makes no
    opcode; a jump table that claims all the cases that a word can count; and one that has its cases. -/
theorem decodeAt_failures_jump_table :
    let outcome (b : Bytes) (cursor : UInt64) : Except DecodeError Instruction := (decodeAt b cursor).1
    let table : Bytes := [0x45, 1, 0, 0, 0, 5, 0, 0, 0]
    outcome [0x00] 0xFFFFFFFFFFFFFFFF = .error .outOfBounds ∧
    outcome [0x00, 0xFE] 1 = .error .outOfBounds ∧
    outcome [0xFE, 0xFF] 0 = .error (.undefinedOpcode [0xFE, 0xFF]) ∧
    outcome [0x45, 0xFF, 0xFF, 0xFF, 0xFF, 0, 0, 0, 0] 0 = .error (.oversizedSwitch 0xFFFFFFFF 4) ∧
    (∃ i, outcome table 0 = .ok i ∧ Opcode.at? table 0 = some i.opcode) ∧
    Words.decodeAt table 0 = .ok (decodeAt table 0) := by
  intro outcome table
  obtain ⟨hends, hundefined, hoversized, hother, -, -, -, -, hwords⟩ := decodeAt_failures table 0
  have hok : outcome table 0 = .ok ⟨0, ⟨0x45, "switch", .switch⟩, .switch [5]⟩ := by rfl
  refine ⟨(decodeAt_failures _ _).1.mpr (.inl (.inl (by decide))),
    (decodeAt_failures _ _).1.mpr (.inl (.inr ⟨rfl, rfl⟩)),
    ((decodeAt_failures _ _).2.1 _).mpr ⟨by decide +kernel, .inr ⟨0xFF, rfl, rfl, rfl⟩⟩,
    ((decodeAt_failures _ _).2.2.1 _ _).mpr
      ⟨⟨0x45, "switch", .switch⟩, by decide +kernel, rfl, by decide, by decide, rfl, by decide⟩,
    hother ?_ ?_ ?_, hwords (by decide)⟩
  · intro h
    cases hok.symm.trans (hends.mpr h)
  · intro us h
    cases hok.symm.trans ((hundefined us).mpr h)
  · intro count remaining h
    cases hok.symm.trans ((hoversized count remaining).mpr h)

end Instruction

end Cil
