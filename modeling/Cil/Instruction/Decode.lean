import Cil.Error
import Cil.Instruction

/-
  READING AN INSTRUCTION.

  The reader takes the opcode off the front of the bytes, then the operand whose shape the opcode fixes,
  and hands back the rest.  It is exact: what it read is well formed, and is what `encode` writes in
  front of that rest (`Instruction.read_eq_ok`); and whatever is well formed is read back from what
  `encode` writes, whatever follows (`Instruction.read_encode`).

  It fails when the bytes end too early, when no opcode is written with the leading bytes, and when a
  jump table claims more cases than there are bytes left, in which case none of them is read.
-/

namespace Cil

/-! ## Opcodes -/

namespace Opcode

/-- Takes an opcode off the front. -/
def read : Bytes → Except DecodeError (Opcode × Bytes)
  | [] => .error .outOfBounds
  | first :: rest =>
    if first = escape then
      match rest with
      | [] => .error .outOfBounds
      | second :: rest =>
        match twoByte? second with
        | some o => .ok (o, rest)
        | none => .error (.undefinedOpcode [first, second])
    else
      match oneByte? first with
      | some o => .ok (o, rest)
      | none => .error (.undefinedOpcode [first])

theorem encode_of_oneByte? {b : UInt8} {o : Opcode} (h : oneByte? b = some o) : o.encode = [b] := by
  have hb := b.toNat_lt
  have hv : o.value.toNat = b.toNat := by
    rw [value_of_find? h, UInt16.toNat_ofNat']
    omega
  have he : o.escaped = false := by
    simp only [escaped, hv, decide_eq_false_iff_not]
    omega
  have hlow : o.value.toUInt8 = b := by
    apply UInt8.toNat_inj.mp
    rw [UInt16.toNat_toUInt8, hv]
    omega
  simp [encode, he, hlow]

theorem encode_of_twoByte? {b : UInt8} {o : Opcode} (h : twoByte? b = some o) :
    o.encode = [escape, b] := by
  have hb := b.toNat_lt
  have hv : o.value.toNat = 0xFE00 + b.toNat := by
    rw [value_of_find? h, UInt16.toNat_ofNat']
    omega
  have he : o.escaped = true := by
    simp only [escaped, hv, decide_eq_true_eq]
    omega
  have hlow : o.value.toUInt8 = b := by
    apply UInt8.toNat_inj.mp
    rw [UInt16.toNat_toUInt8, hv]
    omega
  simp [encode, he, hlow]

/-- An opcode that was read is a defined one and stands at the front. -/
theorem read_eq_ok {bs rest : Bytes} {o : Opcode} (h : read bs = .ok (o, rest)) :
    o ∈ all ∧ bs = o.encode ++ rest := by
  unfold read at h
  split at h
  · cases h
  · split at h
    · rename_i first tail hesc
      split at h
      · cases h
      · split at h
        · rename_i o' ho
          cases h
          exact ⟨mem_all_of_find? ho, by rw [encode_of_twoByte? ho, hesc]; rfl⟩
        · cases h
    · split at h
      · rename_i o' ho
        cases h
        exact ⟨mem_all_of_find? ho, by rw [encode_of_oneByte? ho]; rfl⟩
      · cases h

/-- Reading back a defined opcode, whatever follows it. -/
theorem read_encode {o : Opcode} (h : o ∈ all) (rest : Bytes) :
    read (o.encode ++ rest) = .ok (o, rest) := by
  have hlow := UInt16.toNat_toUInt8 o.value
  rcases value_bounds o h with hone | ⟨hlo, hhi⟩
  · have he : o.escaped = false := by
      simp only [escaped, decide_eq_false_iff_not]
      omega
    have hne : o.value.toUInt8 ≠ escape := by
      intro hc
      rw [hc] at hlow
      change 0xFE = _ at hlow
      omega
    have hfind : oneByte? o.value.toUInt8 = some o := by
      rw [oneByte?, show o.value.toUInt8.toNat = o.value.toNat by omega, UInt16.ofNat_toNat]
      exact find?_value o h
    simp [encode, he, read, hne, hfind]
  · have he : o.escaped = true := by
      simp only [escaped, decide_eq_true_eq]
      omega
    have hfind : twoByte? o.value.toUInt8 = some o := by
      rw [twoByte?, show 0xFE00 + o.value.toUInt8.toNat = o.value.toNat by omega,
        UInt16.ofNat_toNat]
      exact find?_value o h
    simp [encode, he, read, hfind]

end Opcode

/-! ## Operands -/

namespace Operand

/-- Takes a word of `w` bytes off the front and makes an operand of it. -/
def readFixed (w : Nat) (make : Nat → Operand) (bs : Bytes) : Except DecodeError (Operand × Bytes) :=
  match bs.readWord w with
  | some (n, rest) => .ok (make n, rest)
  | none => .error .outOfBounds

/-- Takes `count` distances off the front. -/
def readDeltas : Nat → Bytes → Option (List Int32 × Bytes)
  | 0, bs => some ([], bs)
  | count + 1, bs =>
    match bs.readWord 4 with
    | none => none
    | some (n, rest) =>
      match readDeltas count rest with
      | none => none
      | some (ds, rest) => some ((UInt32.ofNat n).toInt32 :: ds, rest)

/-- Takes a jump table off the front: the number of its cases, which the rest must have room for, and
    then their distances. -/
def readSwitch (bs : Bytes) : Except DecodeError (Operand × Bytes) :=
  match bs.readWord 4 with
  | none => .error .outOfBounds
  | some (count, rest) =>
    if rest.length < 4 * count then
      .error (.oversizedSwitch count rest.length)
    else
      match readDeltas count rest with
      | some (deltas, rest) => .ok (.switch deltas, rest)
      | none => .error .outOfBounds

/-- Takes an operand of a given shape off the front. -/
def read : Shape → Bytes → Except DecodeError (Operand × Bytes)
  | .empty, bs => .ok (.empty, bs)
  | .shortBranch, bs => readFixed 1 (fun n => .shortBranch (UInt8.ofNat n).toInt8) bs
  | .branch, bs => readFixed 4 (fun n => .branch (UInt32.ofNat n).toInt32) bs
  | .shortInt, bs => readFixed 1 (fun n => .shortInt (UInt8.ofNat n)) bs
  | .int, bs => readFixed 4 (fun n => .int (UInt32.ofNat n).toInt32) bs
  | .longInt, bs => readFixed 8 (fun n => .longInt (UInt64.ofNat n).toInt64) bs
  | .shortFloat, bs => readFixed 4 (fun n => .shortFloat (UInt32.ofNat n)) bs
  | .float, bs => readFixed 8 (fun n => .float (UInt64.ofNat n)) bs
  | .shortVar, bs => readFixed 1 (fun n => .shortVar (UInt8.ofNat n)) bs
  | .var, bs => readFixed 2 (fun n => .var (UInt16.ofNat n)) bs
  | .token expects, bs => readFixed 4 (fun n => .token expects ⟨UInt32.ofNat n⟩) bs
  | .switch, bs => readSwitch bs

/-- A word that was read stands at the front, provided that `make` keeps all of it. -/
theorem readFixed_eq_ok {w : Nat} {make : Nat → Operand} {bs rest : Bytes} {o : Operand}
    (hmake : ∀ n < Bytes.wordCount w, (make n).encode = Bytes.littleEndian w n)
    (h : readFixed w make bs = .ok (o, rest)) : bs = o.encode ++ rest ∧ ∃ n, o = make n := by
  unfold readFixed at h
  split at h
  · rename_i n r hn
    cases h
    obtain ⟨rfl, hlt⟩ := Bytes.readWord_eq_some hn
    exact ⟨by rw [hmake n hlt], n, rfl⟩
  · cases h

theorem readDeltas_eq_some {count : Nat} {bs rest : Bytes} {ds : List Int32}
    (h : readDeltas count bs = some (ds, rest)) :
    ds.length = count ∧ bs = (ds.flatMap fun d => Bytes.littleEndian 4 d.toUInt32.toNat) ++ rest := by
  induction count generalizing bs ds with
  | zero =>
    simp only [readDeltas, Option.some.injEq, Prod.mk.injEq] at h
    obtain ⟨rfl, rfl⟩ := h
    simp
  | succ count ih =>
    simp only [readDeltas] at h
    split at h
    · cases h
    · rename_i n r hn
      split at h
      · cases h
      · rename_i ds' r' hds
        cases h
        obtain ⟨hlen, rfl⟩ := ih hds
        obtain ⟨rfl, hlt⟩ := Bytes.readWord_eq_some hn
        have hword : (UInt32.ofNat n).toNat = n := by
          rw [UInt32.toNat_ofNat']
          exact Nat.mod_eq_of_lt hlt
        simp [hlen, hword]

/-- With room for every case, no distance is missing. -/
theorem readDeltas_isSome {count : Nat} {bs : Bytes} (h : 4 * count ≤ bs.length) :
    (readDeltas count bs).isSome := by
  induction count generalizing bs with
  | zero => rfl
  | succ count ih =>
    simp only [readDeltas]
    split
    · rename_i hn
      have := Bytes.readWord_eq_none.mp hn
      omega
    · rename_i n r hn
      obtain ⟨rfl, _⟩ := Bytes.readWord_eq_some hn
      have hr : 4 * count ≤ r.length := by
        simp only [List.length_append, Bytes.length_littleEndian] at h
        omega
      have := ih hr
      split
      · rename_i hnone
        simp [hnone] at this
      · rfl

theorem readSwitch_eq_ok {bs rest : Bytes} {o : Operand} (h : readSwitch bs = .ok (o, rest)) :
    bs = o.encode ++ rest ∧ ∃ ds, o = .switch ds ∧ ds.length < UInt32.size := by
  unfold readSwitch at h
  split at h
  · cases h
  · rename_i count r hcount
    obtain ⟨rfl, hlt⟩ := Bytes.readWord_eq_some hcount
    split at h
    · cases h
    · split at h
      · rename_i ds r' hds
        cases h
        obtain ⟨rfl, rfl⟩ := readDeltas_eq_some hds
        exact ⟨by simp [encode], ds, rfl, hlt⟩
      · cases h

/-- An operand that was read has the shape asked for and stands at the front; the number of its cases,
    if it is a jump table, was read as a word. -/
theorem read_eq_ok {s : Shape} {bs rest : Bytes} {o : Operand} (h : read s bs = .ok (o, rest)) :
    o.shape = s ∧ (∀ ds, o = .switch ds → ds.length < UInt32.size) ∧ bs = o.encode ++ rest := by
  cases s with
  | empty =>
    cases h
    exact ⟨rfl, by simp, rfl⟩
  | switch =>
    obtain ⟨hbs, ds, rfl, hcount⟩ := readSwitch_eq_ok h
    exact ⟨rfl, by simpa using hcount, hbs⟩
  | _ =>
    obtain ⟨hbs, n, rfl⟩ := readFixed_eq_ok (by
      intro n hn
      have hword := Nat.mod_eq_of_lt hn
      simp only [Bytes.wordCount, Nat.reduceMul] at hword
      simp [encode, hword]) h
    exact ⟨rfl, by simp, hbs⟩

/-! Reading back what was written, whatever follows it. -/

theorem readFixed_littleEndian {w n : Nat} (h : n < Bytes.wordCount w) (make : Nat → Operand) (rest : Bytes) :
    readFixed w make (Bytes.littleEndian w n ++ rest) = .ok (make n, rest) := by
  rw [readFixed, Bytes.readWord_append w n h]

theorem readDeltas_flatMap (ds : List Int32) (rest : Bytes) :
    readDeltas ds.length ((ds.flatMap fun d => Bytes.littleEndian 4 d.toUInt32.toNat) ++ rest)
      = some (ds, rest) := by
  induction ds with
  | nil => rfl
  | cons d ds ih =>
    have hd : d.toUInt32.toNat < Bytes.wordCount 4 := d.toUInt32.toNat_lt
    simp only [List.length_cons, List.flatMap_cons, List.append_assoc, readDeltas,
      Bytes.readWord_append 4 _ hd, ih, UInt32.ofNat_toNat, Int32.toInt32_toUInt32]

/-- An operand is read back; a jump table needs a number of cases that fits a word. -/
theorem read_encode (o : Operand) (h : ∀ ds, o = .switch ds → ds.length < UInt32.size) (rest : Bytes) :
    read o.shape (o.encode ++ rest) = .ok (o, rest) := by
  cases o with
  | empty => rfl
  | switch deltas =>
    have hcount : deltas.length < Bytes.wordCount 4 := h deltas rfl
    have hroom : ¬ ((deltas.flatMap fun d => Bytes.littleEndian 4 d.toUInt32.toNat) ++ rest).length
        < 4 * deltas.length := by
      have hsize := length_encode (.switch deltas)
      simp only [encode, size, List.length_append, Bytes.length_littleEndian] at hsize ⊢
      omega
    simp only [shape, encode, read, readSwitch, List.append_assoc, Bytes.readWord_append 4 _ hcount,
      if_neg hroom, readDeltas_flatMap]
  | shortBranch delta =>
    simpa [read, encode, shape] using readFixed_littleEndian (w := 1) delta.toUInt8.toNat_lt
      (fun n => .shortBranch (UInt8.ofNat n).toInt8) rest
  | branch delta =>
    simpa [read, encode, shape] using readFixed_littleEndian (w := 4) delta.toUInt32.toNat_lt
      (fun n => .branch (UInt32.ofNat n).toInt32) rest
  | shortInt value =>
    simpa [read, encode, shape] using readFixed_littleEndian (w := 1) value.toNat_lt
      (fun n => .shortInt (UInt8.ofNat n)) rest
  | int value =>
    simpa [read, encode, shape] using readFixed_littleEndian (w := 4) value.toUInt32.toNat_lt
      (fun n => .int (UInt32.ofNat n).toInt32) rest
  | longInt value =>
    simpa [read, encode, shape] using readFixed_littleEndian (w := 8) value.toUInt64.toNat_lt
      (fun n => .longInt (UInt64.ofNat n).toInt64) rest
  | shortFloat bits =>
    simpa [read, encode, shape] using readFixed_littleEndian (w := 4) bits.toNat_lt
      (fun n => .shortFloat (UInt32.ofNat n)) rest
  | float bits =>
    simpa [read, encode, shape] using readFixed_littleEndian (w := 8) bits.toNat_lt
      (fun n => .float (UInt64.ofNat n)) rest
  | shortVar index =>
    simpa [read, encode, shape] using readFixed_littleEndian (w := 1) index.toNat_lt
      (fun n => .shortVar (UInt8.ofNat n)) rest
  | var index =>
    simpa [read, encode, shape] using readFixed_littleEndian (w := 2) index.toNat_lt
      (fun n => .var (UInt16.ofNat n)) rest
  | token expects t =>
    simpa [read, encode, shape] using readFixed_littleEndian (w := 4) t.value.toNat_lt
      (fun n => .token expects ⟨UInt32.ofNat n⟩) rest

end Operand

/-! ## Instructions -/

namespace Instruction

/-- Takes the instruction at `offset` off the front of the bytes from there on. -/
def read (offset : Nat) (bs : Bytes) : Except DecodeError (Instruction × Bytes) :=
  match Opcode.read bs with
  | .error e => .error e
  | .ok (opcode, rest) =>
    match Operand.read opcode.shape rest with
    | .error e => .error e
    | .ok (operand, rest) => .ok (⟨offset, opcode, operand⟩, rest)

/-- A well-formed instruction: a defined opcode and an operand of its shape, with a number of cases that
    fits a word. -/
structure WellFormed (opcode : Opcode) (operand : Operand) : Prop where
  defined : opcode ∈ Opcode.all
  shape_eq : operand.shape = opcode.shape
  count_lt : ∀ deltas, operand = .switch deltas → deltas.length < UInt32.size

/-- An instruction that was read is well formed and stands at the front. -/
theorem read_eq_ok {offset : Nat} {bs rest : Bytes} {i : Instruction}
    (h : read offset bs = .ok (i, rest)) :
    i.offset = offset ∧ WellFormed i.opcode i.operand ∧ bs = i.encode ++ rest := by
  unfold read at h
  split at h
  · cases h
  · rename_i opcode r hop
    split at h
    · cases h
    · rename_i operand r' hoperand
      cases h
      obtain ⟨hdefined, rfl⟩ := Opcode.read_eq_ok hop
      obtain ⟨hshape, hcount, rfl⟩ := Operand.read_eq_ok hoperand
      exact ⟨rfl, ⟨hdefined, hshape, hcount⟩, by rw [encode, List.append_assoc]⟩

/-- Reading back a well-formed instruction, whatever follows it. -/
theorem read_encode {opcode : Opcode} {operand : Operand} (h : WellFormed opcode operand)
    (offset : Nat) (rest : Bytes) :
    read offset (opcode.encode ++ operand.encode ++ rest) = .ok (⟨offset, opcode, operand⟩, rest) := by
  rw [List.append_assoc, read, Opcode.read_encode h.defined]
  simp only [← h.shape_eq, Operand.read_encode operand h.count_lt]

/-- Decodes the instruction at a cursor, and gives the cursor after the attempt: where the bytes that
    were not read begin, or where it was if there is no instruction. -/
def decodeAt (bytes : Bytes) (cursor : UInt64) : Except DecodeError Instruction × UInt64 :=
  match read cursor.toNat (bytes.drop cursor.toNat) with
  | .ok (i, rest) => (.ok i, UInt64.ofNat (bytes.length - rest.length))
  | .error e => (.error e, cursor)

end Instruction

end Cil
