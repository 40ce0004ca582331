import Cil.Proofs.Concatenation
import Cil.Proofs.Invariant

/-
  BODIES CUT SHORT, AND BODIES MADE LONGER.

  Cut a body at any place.  What is left holds the instructions that end at the cut or before it, and
  then nothing, if an instruction ends there, or the front part of the one that the cut goes through
  (`Code.exists_cut`).  Such a part is never an instruction, and what is wrong with it is that bytes are
  missing: `Instruction.cutShort` says how that is noticed.

  In the other direction, bytes that begin with no opcode stay so whatever is written behind them, so
  that a walk stopped by them is stopped in the same way in any longer body.
-/

namespace Cil

/-! ## The front part of an instruction -/

theorem Opcode.read_take (o : Opcode) {m : Nat} (hm : m < o.size) :
    read (o.encode.take m) = .error .outOfBounds := by
  unfold encode size at *
  split at hm
  · -- the escape byte alone, or nothing
    rename_i hescaped
    rw [if_pos hescaped]
    obtain rfl | rfl : m = 0 ∨ m = 1 := by omega
    · rfl
    · rfl
  · rename_i hplain
    rw [if_neg hplain]
    obtain rfl : m = 0 := by omega
    rfl

namespace Operand

theorem readFixed_of_length_lt {w : Nat} {bs : Bytes} (h : bs.length < w) (make : Nat → Operand) :
    readFixed w make bs = .error .outOfBounds := by
  rw [readFixed, Bytes.readWord_eq_none.mpr h]

/-- The front part of an operand of a fixed width ends too early. -/
theorem read_take {o : Operand} (ho : ∀ deltas, o ≠ .switch deltas) {m : Nat} (hm : m < o.size) :
    read o.shape (o.encode.take m) = .error .outOfBounds := by
  have hlen : (o.encode.take m).length < o.size := by
    rw [List.length_take]
    omega
  cases o with
  | empty => cases hm
  | switch deltas => exact absurd rfl (ho deltas)
  | _ => exact readFixed_of_length_lt hlen _

/-- So does the front part of a jump table that has not even the number of its cases. -/
theorem readSwitch_take_of_lt (deltas : List Int32) {m : Nat} (hm : m < 4) :
    readSwitch ((Operand.switch deltas).encode.take m) = .error .outOfBounds := by
  have hlen : ((Operand.switch deltas).encode.take m).length < 4 := by
    rw [List.length_take]
    omega
  rw [readSwitch, Bytes.readWord_eq_none.mpr hlen]

/-- With the number of cases there, the cases are missing. -/
theorem readSwitch_take {deltas : List Int32} (hcount : deltas.length < UInt32.size) {m : Nat}
    (hfour : 4 ≤ m) (hm : m < (Operand.switch deltas).size) :
    readSwitch ((Operand.switch deltas).encode.take m)
      = .error (.oversizedSwitch deltas.length (m - 4)) := by
  have hsize : (Operand.switch deltas).size = 4 + 4 * deltas.length := rfl
  have hencode := length_encode (.switch deltas)
  rw [encode, List.length_append, Bytes.length_littleEndian] at hencode
  rw [encode, List.take_append, List.take_of_length_le (by rw [Bytes.length_littleEndian]; omega),
    Bytes.length_littleEndian, readSwitch, Bytes.readWord_append 4 _ hcount]
  dsimp only
  rw [List.length_take, Nat.min_eq_left (by omega), if_pos (by omega)]

end Operand

namespace Instruction

/-- What is wrong with an instruction whose bytes end at the position `k`: a jump table has no room for
    its cases, if their number is there; anything else ends too early. -/
def cutShort (i : Instruction) (k : Nat) : DecodeError :=
  match i.operand with
  | .switch deltas =>
    if i.offset + i.opcode.size + 4 ≤ k then
      .oversizedSwitch deltas.length (k - (i.offset + i.opcode.size + 4))
    else
      .outOfBounds
  | _ => .outOfBounds

theorem cutShort_ne_undefinedOpcode (i : Instruction) (k : Nat) (bytes : Bytes) :
    i.cutShort k ≠ .undefinedOpcode bytes := by
  unfold cutShort
  split
  · split <;> nofun
  · nofun

/-- An operand that cannot be read is what is wrong with an instruction whose opcode is there. -/
theorem read_of_operand_error {opcode : Opcode} (h : opcode ∈ Opcode.all) {bs : Bytes}
    {e : DecodeError} (he : Operand.read opcode.shape bs = .error e) (offset : Nat) :
    read offset (opcode.encode ++ bs) = .error e := by
  rw [read, Opcode.read_encode h]
  dsimp only
  rw [he]

/-- The front part of a code is no instruction. -/
theorem read_take (c : Code) (offset : Nat) {m : Nat} (hm : m < c.encode.length) :
    read offset (c.encode.take m) = .error ((c.atOffset offset).cutShort (offset + m)) := by
  obtain ⟨opcode, operand, hwf⟩ := c
  show read offset ((opcode.encode ++ operand.encode).take m)
    = .error (cutShort ⟨offset, opcode, operand⟩ (offset + m))
  have hlen : m < opcode.size + operand.size := by
    simpa [Code.encode] using hm
  by_cases hopcode : m < opcode.size
  · -- the cut goes through the opcode
    have hcut : cutShort ⟨offset, opcode, operand⟩ (offset + m) = .outOfBounds := by
      unfold cutShort
      split
      · rw [if_neg (by dsimp only; omega)]
      · rfl
    rw [List.take_append_of_le_length (by rw [Opcode.length_encode]; omega), read,
      Opcode.read_take opcode hopcode, hcut]
  · -- the opcode is there, and gives the shape of what is missing
    have hm' : m - opcode.size < operand.size := by omega
    rw [List.take_append, List.take_of_length_le (by rw [Opcode.length_encode]; omega),
      Opcode.length_encode]
    apply read_of_operand_error hwf.defined
    rw [← hwf.shape_eq]
    cases operand with
    | switch deltas =>
      show Operand.readSwitch _ = _
      by_cases hfour : 4 ≤ m - opcode.size
      · rw [Operand.readSwitch_take (hwf.count_lt deltas rfl) hfour hm', cutShort]
        dsimp only
        rw [if_pos (by omega), show offset + m - (offset + opcode.size + 4) = m - opcode.size - 4 by omega]
      · rw [Operand.readSwitch_take_of_lt deltas (by omega), cutShort]
        dsimp only
        rw [if_neg (by omega)]
    | _ => exact Operand.read_take (by simp) hm'

end Instruction

/-! ## The front part of a body -/

namespace Code

theorem length_encodeAll_cons (c : Code) (cs : List Code) :
    (encodeAll (c :: cs)).length = c.encode.length + (encodeAll cs).length := by
  rw [encodeAll, List.flatMap_cons, List.length_append]
  rfl

theorem size_atOffset (c : Code) (offset : Nat) : (c.atOffset offset).size = c.encode.length := by
  rw [← Instruction.length_encode, encode_atOffset]

theorem place_append (offset : Nat) (front back : List Code) :
    place offset (front ++ back)
      = place offset front ++ place (offset + (encodeAll front).length) back := by
  induction front generalizing offset with
  | nil => rfl
  | cons c front ih =>
    rw [List.cons_append, place, place, ih, length_encodeAll_cons, Nat.add_assoc]
    rfl

theorem encodeAll_append (front back : List Code) :
    encodeAll (front ++ back) = encodeAll front ++ encodeAll back := List.flatMap_append

/-- Instructions behind a position end behind it. -/
theorem lt_end_of_mem_place {offset : Nat} {cs : List Code} {i : Instruction}
    (h : i ∈ place offset cs) : offset < i.offset + i.size := by
  induction cs generalizing offset with
  | nil => cases h
  | cons c cs ih =>
    rcases List.mem_cons.mp h with rfl | hrest
    · have hpos := (c.atOffset offset).size_pos
      show offset < offset + (c.atOffset offset).size
      omega
    · have hlt := ih hrest
      omega

theorem end_le_of_mem_place {offset : Nat} {cs : List Code} {i : Instruction}
    (h : i ∈ place offset cs) : i.offset + i.size ≤ offset + (encodeAll cs).length := by
  apply Instruction.end_le_of_mem_readAll
  rw [Instruction.readAll_encodeAll]
  exact h

/-- A position in codes written one after another lies between two of them or inside one. -/
theorem exists_cut (cs : List Code) {k : Nat} (hk : k ≤ (encodeAll cs).length) :
    (∃ front back, cs = front ++ back ∧ (encodeAll front).length = k) ∨
    ∃ front c back, cs = front ++ c :: back ∧ (encodeAll front).length < k ∧
      k < (encodeAll front).length + c.encode.length := by
  induction cs generalizing k with
  | nil =>
    have hzero : k = 0 := Nat.le_zero.mp hk
    exact .inl ⟨[], [], rfl, hzero.symm⟩
  | cons c cs ih =>
    rcases Nat.eq_zero_or_pos k with rfl | hpos
    · exact .inl ⟨[], c :: cs, rfl, rfl⟩
    · by_cases hc : k < c.encode.length
      · refine .inr ⟨[], c, cs, rfl, hpos, ?_⟩
        show k < 0 + c.encode.length
        omega
      · -- the position lies behind the first code
        rw [length_encodeAll_cons] at hk
        rcases ih (k := k - c.encode.length) (by omega) with
          ⟨front, back, rfl, hk'⟩ | ⟨front, d, back, rfl, hlo, hhi⟩
        · refine .inl ⟨c :: front, back, rfl, ?_⟩
          rw [length_encodeAll_cons]
          omega
        · refine .inr ⟨c :: front, d, back, rfl, ?_, ?_⟩
          · rw [length_encodeAll_cons]
            omega
          · rw [length_encodeAll_cons]
            omega

/-- The instructions of the codes in front of a position are those that end there or before. -/
theorem filter_place {front back : List Code} {k : Nat} (hfront : (encodeAll front).length ≤ k)
    (hback : ∀ i ∈ place (encodeAll front).length back, k < i.offset + i.size) :
    (place 0 (front ++ back)).filter (fun i => decide (i.offset + i.size ≤ k)) = place 0 front := by
  have hkept : (place 0 front).filter (fun i => decide (i.offset + i.size ≤ k)) = place 0 front := by
    rw [List.filter_eq_self]
    intro i hi
    have hle := end_le_of_mem_place hi
    rw [decide_eq_true_eq]
    omega
  have hdropped : (place (encodeAll front).length back).filter
      (fun i => decide (i.offset + i.size ≤ k)) = [] := by
    rw [List.filter_eq_nil_iff]
    intro i hi
    have hlt := hback i hi
    rw [decide_eq_true_eq]
    omega
  rw [place_append, List.filter_append, hkept, Nat.zero_add, hdropped, List.append_nil]

theorem flatMap_encode_place (offset : Nat) (cs : List Code) :
    (place offset cs).flatMap Instruction.encode = encodeAll cs := by
  have hread := Instruction.readAll_encodeAll cs offset
  have hend : (Instruction.readAll offset (encodeAll cs)).stop? = none := by rw [hread]
  have hbytes := Instruction.flatMap_encode_readAll hend
  rwa [hread] at hbytes

end Code

namespace Instruction

/-- A cut between two codes leaves the codes in front of it. -/
theorem readAll_take_between (front back : List Code) :
    readAll 0 ((Code.encodeAll (front ++ back)).take (Code.encodeAll front).length)
      = ⟨Code.place 0 front, none⟩ := by
  rw [Code.encodeAll_append, List.take_left, readAll_encodeAll]

/-- A cut through a code leaves the codes in front of it, and a part that is no instruction. -/
theorem readAll_take_inside (front : List Code) (c : Code) (back : List Code) {k : Nat}
    (hlo : (Code.encodeAll front).length < k)
    (hhi : k < (Code.encodeAll front).length + c.encode.length) :
    readAll 0 ((Code.encodeAll (front ++ c :: back)).take k)
      = ⟨Code.place 0 front, some ((c.atOffset (Code.encodeAll front).length).cutShort k)⟩ := by
  have hpart : (Code.encodeAll (front ++ c :: back)).take k
      = Code.encodeAll front ++ c.encode.take (k - (Code.encodeAll front).length) := by
    rw [Code.encodeAll_append, List.take_append, List.take_of_length_le (by omega),
      show Code.encodeAll (c :: back) = c.encode ++ Code.encodeAll back from List.flatMap_cons,
      List.take_append_of_le_length (by omega)]
  have hne : c.encode.take (k - (Code.encodeAll front).length) ≠ [] := by
    apply List.ne_nil_of_length_pos
    rw [List.length_take]
    omega
  have hcut := read_take c (Code.encodeAll front).length
    (m := k - (Code.encodeAll front).length) (by omega)
  rw [show (Code.encodeAll front).length + (k - (Code.encodeAll front).length) = k by omega] at hcut
  have hfront := readAll_encodeAll front 0
  rw [hpart, readAll_append (by rw [hfront]), hfront, Nat.zero_add, readAll_of_error hcut hne]
  simp [Reading.after]

end Instruction

/-- Codes read from a boundary on end at a boundary. -/
theorem Boundary.add {b : Bytes} {p : Nat} (hp : Boundary b p) {cs : List Code} {rest : Bytes}
    (h : b.drop p = Code.encodeAll cs ++ rest) : Boundary b (p + (Code.encodeAll cs).length) := by
  induction cs generalizing p with
  | nil => exact hp
  | cons c cs ih =>
    have hread : Instruction.read p (b.drop p)
        = .ok (c.atOffset p, Code.encodeAll cs ++ rest) := by
      rw [h, show Code.encodeAll (c :: cs) = c.encode ++ Code.encodeAll cs from List.flatMap_cons,
        List.append_assoc]
      exact Instruction.read_code c p _
    have hnext : Boundary b (p + c.encode.length) := by
      obtain ⟨is, his⟩ := hp
      have hsnoc := Decoded.snoc his hread
      rw [Code.size_atOffset] at hsnoc
      exact ⟨_, hsnoc⟩
    have hdrop : b.drop (p + c.encode.length) = Code.encodeAll cs ++ rest := by
      have hrest := Instruction.rest_of_read hread
      rw [Code.size_atOffset] at hrest
      exact hrest.symm
    rw [Code.length_encodeAll_cons, ← Nat.add_assoc]
    exact ih hnext hdrop

/-- What lies in front of a boundary is read to its end. -/
theorem Boundary.stop?_take {b : Bytes} {p : Nat} (h : Boundary b p) :
    (Instruction.readAll 0 (b.take p)).stop? = none := by
  obtain ⟨is, h⟩ := h
  induction h with
  | nil => simp
  | @snoc is p i rest _ hread ih =>
    obtain ⟨c, rfl, hbs⟩ := Instruction.exists_code_of_read hread
    have htake : b.take (p + (c.atOffset p).size) = b.take p ++ Code.encodeAll [c] := by
      rw [List.take_add, hbs, Code.size_atOffset, List.take_left]
      simp [Code.encodeAll]
    rw [htake, Instruction.readAll_append ih, Instruction.readAll_encodeAll]
    rfl

/-- **What a cut leaves.**  In front of a boundary the instructions that end there or before are left
    and nothing else; elsewhere the cut goes through an instruction, whose front part stops the reading
    behind those. -/
theorem Instruction.readAll_take {b : Bytes} (hb : (readAll 0 b).stop? = none) {k : Nat}
    (hk : k ≤ b.length) :
    let kept := (readAll 0 b).instructions.filter fun i => decide (i.offset + i.size ≤ k)
    (Boundary b k ∧ readAll 0 (b.take k) = ⟨kept, none⟩) ∨
    (¬ Boundary b k ∧ ∃ i ∈ (readAll 0 b).instructions, i.offset < k ∧ k < i.offset + i.size ∧
      readAll 0 (b.take k) = ⟨kept, some (i.cutShort k)⟩ ∧
      (kept.flatMap encode).length = i.offset) := by
  obtain ⟨cs, rfl⟩ := eq_encodeAll_of_readAll hb
  rw [readAll_encodeAll]
  intro kept
  rcases Code.exists_cut cs hk with ⟨front, back, rfl, rfl⟩ | ⟨front, c, back, rfl, hlo, hhi⟩
  · -- the cut is between two codes
    left
    have hkept : kept = Code.place 0 front :=
      Code.filter_place (Nat.le_refl _) fun i hi => Code.lt_end_of_mem_place hi
    have hstart : Boundary (Code.encodeAll (front ++ back)) 0 := ⟨[], .nil⟩
    have hcodes : (Code.encodeAll (front ++ back)).drop 0
        = Code.encodeAll front ++ Code.encodeAll back := by
      rw [List.drop_zero, Code.encodeAll_append]
    have hboundary := hstart.add hcodes
    rw [Nat.zero_add] at hboundary
    exact ⟨hboundary, by rw [readAll_take_between, hkept]⟩
  · -- the cut goes through the code `c`
    right
    have hcut := readAll_take_inside front c back hlo hhi
    have hsize := c.size_atOffset (Code.encodeAll front).length
    have hkept : kept = Code.place 0 front := by
      apply Code.filter_place (Nat.le_of_lt hlo)
      intro i hi
      rcases List.mem_cons.mp hi with rfl | hi
      · show k < (Code.encodeAll front).length + (c.atOffset (Code.encodeAll front).length).size
        omega
      · have hlt := Code.lt_end_of_mem_place hi
        omega
    refine ⟨?_, c.atOffset (Code.encodeAll front).length, ?_, hlo, ?_, ?_, ?_⟩
    · intro hboundary
      have hnone := hboundary.stop?_take
      rw [hcut] at hnone
      cases hnone
    · rw [Code.place_append, Nat.zero_add]
      exact List.mem_append_right _ List.mem_cons_self
    · show k < (Code.encodeAll front).length + (c.atOffset (Code.encodeAll front).length).size
      omega
    · rw [hcut, hkept]
    · rw [hkept, Code.flatMap_encode_place]
      rfl

/-! ## Bytes behind what is no opcode -/

/-- No operand makes an opcode undefined. -/
theorem Operand.read_ne_undefinedOpcode (s : Shape) (bs us : Bytes) :
    read s bs ≠ .error (.undefinedOpcode us) := by
  have hfixed (w : Nat) (make : Nat → Operand) : readFixed w make bs ≠ .error (.undefinedOpcode us) := by
    unfold readFixed
    split <;> nofun
  cases s with
  | empty => nofun
  | switch =>
    show readSwitch bs ≠ _
    unfold readSwitch
    split
    · nofun
    · split
      · nofun
      · split <;> nofun
  | _ => exact hfixed _ _

/-- An opcode that is undefined stays so, whatever is written behind it. -/
theorem Opcode.read_append_of_undefined {bs us : Bytes}
    (h : read bs = .error (.undefinedOpcode us)) (c : Bytes) :
    read (bs ++ c) = .error (.undefinedOpcode us) := by
  cases bs with
  | nil => cases h
  | cons first rest =>
    rw [List.cons_append]
    unfold read at h ⊢
    dsimp only at h ⊢
    split at h
    · rename_i hescape
      rw [if_pos hescape]
      cases rest with
      | nil => cases h
      | cons second rest =>
        cases hsecond : twoByte? second with
        | some o => simp [hsecond] at h
        | none =>
          simp only [hsecond] at h
          simp only [List.cons_append, hsecond]
          exact h
    · rename_i hplain
      rw [if_neg hplain]
      cases hfirst : oneByte? first with
      | some o => simp [hfirst] at h
      | none =>
        simp only [hfirst] at h
        exact h

namespace Instruction

theorem read_append_of_undefined {offset : Nat} {bs us : Bytes}
    (h : read offset bs = .error (.undefinedOpcode us)) (c : Bytes) :
    read offset (bs ++ c) = .error (.undefinedOpcode us) := by
  unfold read at h ⊢
  split at h
  · rename_i e hopcode
    cases h
    rw [Opcode.read_append_of_undefined hopcode]
  · rename_i opcode rest hopcode
    split at h
    · rename_i e hoperand
      cases h
      exact absurd hoperand (Operand.read_ne_undefinedOpcode _ _ _)
    · cases h

/-- What stops a reading for want of an opcode stops it in the same way in any longer bytes. -/
theorem readAll_append_of_undefined {offset : Nat} {a us : Bytes}
    (h : (readAll offset a).stop? = some (.undefinedOpcode us)) (c : Bytes) :
    readAll offset (a ++ c) = readAll offset a := by
  fun_induction readAll offset a with
  | case1 offset bs i rest hread _ ih =>
    rw [readAll_of_ok (read_append hread c), ih h]
  | case2 offset bs e hread =>
    by_cases hnil : bs = []
    · rw [if_pos hnil] at h
      cases h
    · rw [if_neg hnil] at h ⊢
      cases h
      have hne : bs ++ c ≠ [] := by simp [hnil]
      rw [readAll_of_error (read_append_of_undefined hread c) hne]

end Instruction

/-! ## Walks -/

namespace Decoder

open Instruction (readAll)

/-- **Cutting a body short, and making it longer.**  Of a body that is walked to its end, the first `k`
    bytes give the instructions that end at `k` or before.  If an instruction ends there, that is all.
    Otherwise the walk is stopped at the instruction that the cut goes through, for want of bytes, and
    never by an opcode.

    A walk that is stopped by an opcode that is undefined gives the same and is stopped there, whatever
    is written behind the body. -/
theorem drain_take_and_append (style : Style) :
    (∀ (b : Bytes) (xs : List Listed), (ofBytes b style).decodeAll.outcome = .ok xs → ∀ k ≤ b.length,
      let cut := (ofBytes (b.take k) style).drain
      cut.instructions
        = xs.filter (fun l => decide (l.instruction.offset + l.instruction.size ≤ k)) ∧
      (Boundary b k → cut.stop? = none) ∧
      (¬ Boundary b k → ∃ l ∈ xs, l.instruction.offset < k ∧
        k < l.instruction.offset + l.instruction.size ∧
        cut.stop? = some (l.instruction.cutShort k) ∧
        cut.decoder.position = l.instruction.offset) ∧
      ∀ us, cut.stop? ≠ some (.undefinedOpcode us)) ∧
    ∀ a us : Bytes, (ofBytes a style).drain.stop? = some (.undefinedOpcode us) → ∀ c : Bytes,
      let longer := (ofBytes (a ++ c) style).drain
      longer.instructions = (ofBytes a style).drain.instructions ∧
      longer.stop? = some (.undefinedOpcode us) ∧
      longer.decoder.position = (ofBytes a style).drain.decoder.position := by
  constructor
  · intro b xs hb k hk cut
    obtain ⟨hstop, rfl⟩ := decodeAll_ofBytes_eq_ok_iff.mp hb
    have hinstructions : cut.instructions = (readAll 0 (b.take k)).instructions.map (fresh style) :=
      instructions_drain_ofBytes _ _
    have hcut : cut.stop? = (readAll 0 (b.take k)).stop? := stop?_drain_ofBytes _ _
    have hfilter (p : Instruction → Bool) (is : List Instruction) :
        (is.map (fresh style)).filter (fun l => p l.instruction) = (is.filter p).map (fresh style) :=
      List.filter_map ..
    rw [hinstructions, hcut, hfilter fun i => decide (i.offset + i.size ≤ k)]
    rcases Instruction.readAll_take hstop hk with
      ⟨hboundary, hread⟩ | ⟨hinside, i, hi, hlo, hhi, hread, hoffset⟩
    · rw [hread]
      exact ⟨rfl, fun _ => rfl, fun hnot => absurd hboundary hnot, fun us => nofun⟩
    · have hposition : cut.decoder.position = i.offset := by
        show (ofBytes (b.take k) style).drain.decoder.position = i.offset
        rw [position_drain_ofBytes (congrArg Instruction.Reading.stop? hread), hread, hoffset]
      rw [hread]
      refine ⟨rfl, fun hboundary => absurd hboundary hinside, fun _ => ?_, ?_⟩
      · exact ⟨fresh style i, List.mem_map_of_mem hi, hlo, hhi, rfl, hposition⟩
      · intro us hus
        exact i.cutShort_ne_undefinedOpcode k us (Option.some.inj hus)
  · intro a us ha c longer
    rw [stop?_drain_ofBytes] at ha
    have hread := Instruction.readAll_append_of_undefined ha c
    have hstop : (readAll 0 (a ++ c)).stop? = some (.undefinedOpcode us) := by rw [hread, ha]
    refine ⟨?_, ?_, ?_⟩
    · show (ofBytes (a ++ c) style).drain.instructions = _
      rw [instructions_drain_ofBytes, instructions_drain_ofBytes, hread]
    · show (ofBytes (a ++ c) style).drain.stop? = _
      rw [stop?_drain_ofBytes, hstop]
    · show (ofBytes (a ++ c) style).drain.decoder.position = _
      rw [position_drain_ofBytes hstop, position_drain_ofBytes ha, hread]

/-- A `nop`, a jump table with one case and a `ret`: cut inside the table's only distance, and behind the
    table.  And a `nop` with a byte behind it that is no opcode, made longer. -/
theorem drain_take_and_append_switch :
    let body : Bytes := [0x00, 0x45, 1, 0, 0, 0, 0xFE, 0xFF, 0xFF, 0xFF, 0x2A]
    (ofBytes (body.take 8) .standard).drain.stop? = some (.oversizedSwitch 1 2) ∧
    (ofBytes (body.take 8) .standard).drain.decoder.position = 1 ∧
    (ofBytes (body.take 10) .standard).drain.stop? = none ∧
    (ofBytes [0x00, 0xF8, 0x2A] .standard).drain.stop? = some (.undefinedOpcode [0xF8]) ∧
    (ofBytes [0x00, 0xF8, 0x2A] .standard).drain.decoder.position = 1 := by
  intro body
  let nop : Instruction := ⟨0, ⟨0x00, "nop", .empty⟩, .empty⟩
  let switch : Instruction := ⟨1, ⟨0x45, "switch", .switch⟩, .switch [-2]⟩
  let ret : Instruction := ⟨10, ⟨0x2A, "ret", .empty⟩, .empty⟩
  have hread : readAll 0 body = ⟨[nop, switch, ret], none⟩ := by decide +kernel
  have hbody : (ofBytes body .standard).decodeAll.outcome
      = .ok ([nop, switch, ret].map (fresh .standard)) :=
    decodeAll_ofBytes_of_readAll hread .standard
  obtain ⟨hcut, hlonger⟩ := drain_take_and_append .standard
  -- position 8 is no boundary, as what lies in front of it is not read to its end
  have hinside : ¬ Boundary body 8 := fun h => absurd h.stop?_take (by decide +kernel)
  have hboundary : Boundary body 10 := ⟨_, .snoc (.snoc .nil (i := nop) rfl) (i := switch) rfl⟩
  obtain ⟨-, -, hstopped, -⟩ := hcut body _ hbody 8 (by decide)
  obtain ⟨l, hl, hlo, hhi, hstop, hposition⟩ := hstopped hinside
  obtain ⟨-, hnone, -, -⟩ := hcut body _ hbody 10 (by decide)
  obtain ⟨-, hundefined, hat⟩ := hlonger [0x00, 0xF8] [0xF8] (by decide +kernel) [0x2A]
  have hswitch : l = fresh .standard switch := by
    rcases List.mem_cons.mp hl with rfl | hl
    · exact absurd hhi (by decide)
    · rcases List.mem_cons.mp hl with rfl | hl
      · rfl
      · rw [List.mem_singleton.mp hl] at hlo
        exact absurd hlo (by decide)
  rw [hswitch] at hstop hposition
  exact ⟨hstop, hposition, hnone hboundary, hundefined, hat.trans (by decide +kernel)⟩

end Decoder

end Cil
