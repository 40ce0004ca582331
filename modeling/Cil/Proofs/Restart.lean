import Cil.Proofs.Invariant

/-
  A DECODER GOES ROUND AND ROUND.

  The `pass` of a body is what one walk over it gives, step by step: the instructions, then the reason
  why there are no more before the end, if there is one, and then nothing.  A decoder gives the items of
  the pass in order, and begins again behind the last.

  What a decoder has still to give before it begins again (`remaining`) is always an end of the pass.
  The step lemma `At.next` moves it on by one item, round the end, and `At.given` repeats it.
-/

namespace Cil

namespace Instruction

/-- What a step can give. -/
abbrev Item := Option (Except DecodeError Instruction)

/-- The steps of a walk: the instructions, what stopped it, if anything did, and then nothing. -/
def Reading.items (r : Reading) : List Item :=
  r.instructions.map (fun i => some (.ok i)) ++ r.stop?.toList.map (fun e => some (.error e)) ++ [none]

@[simp] theorem Reading.items_cons (i : Instruction) (r : Reading) :
    (r.cons i).items = some (.ok i) :: r.items := rfl

/-- Every instruction takes a byte, and so does what is none. -/
theorem length_items_readAll_le (offset : Nat) (bs : Bytes) :
    (readAll offset bs).items.length ≤ bs.length + 1 := by
  fun_induction readAll offset bs with
  | case1 offset bs i rest hread _ ih =>
    have hlen := length_of_read hread
    have hpos := i.size_pos
    rw [Reading.items_cons, List.length_cons]
    omega
  | case2 offset bs e hread =>
    cases bs with
    | nil => simp [Reading.items]
    | cons b bs => simp [Reading.items]

end Instruction

open Instruction (Item read readAll)

/-- What one walk over a body gives, step by step. -/
def pass (b : Bytes) : List Item := (readAll 0 b).items

theorem getLast?_pass (b : Bytes) : (pass b).getLast? = some none := by
  simp [pass, Instruction.Reading.items]

/-- Behind instructions that were read from the start, the pass goes on with what is read from there. -/
theorem Decoded.pass_eq {b : Bytes} {is : List Instruction} {p : Nat} (h : Decoded b is p) :
    pass b = is.map (fun i => some (.ok i)) ++ (readAll p (b.drop p)).items := by
  induction h with
  | nil => rfl
  | @snoc is p i rest _ hread ih =>
    rw [ih, Instruction.readAll_of_ok hread, Instruction.rest_of_read hread]
    simp

namespace Decoder

/-- The decoder after some steps. -/
def stepped (d : Decoder) : Nat → Decoder
  | 0 => d
  | k + 1 => d.next.decoder.stepped k

/-- What the step after `k` steps gives. -/
def given (d : Decoder) (k : Nat) : Item := (d.stepped k).next.item.map (Except.map Listed.instruction)

theorem stepped_add (d : Decoder) (j k : Nat) : d.stepped (j + k) = (d.stepped j).stepped k := by
  induction j generalizing d with
  | zero => rw [Nat.zero_add]; rfl
  | succ j ih => rw [Nat.succ_add]; exact ih _

theorem given_add (d : Decoder) (j k : Nat) : d.given (j + k) = (d.stepped j).given k := by
  rw [given, stepped_add]
  rfl

/-- What the walk has still to give before it begins again. -/
def remaining (d : Decoder) : List Item :=
  if d.phase = .exhausted then [none] else (readAll d.position d.rest).items

/-- Behind the last instruction the phase says already that the walk is at its end. -/
theorem remaining_behind (d : Decoder) {i : Instruction} {rest : Bytes}
    (h : read d.position d.rest = .ok (i, rest)) :
    (d.behind h).remaining = (readAll (d.position + i.size) rest).items := by
  by_cases hrest : rest = []
  · simp [remaining, behind, hrest, Instruction.Reading.items]
  · simp [remaining, behind, hrest]

/-- A step gives the first of what remains, and leaves the others, unless there are none. -/
theorem remaining_cases (d : Decoder) :
    (d.given 0 = none ∧ d.remaining = [none] ∧ d.next.decoder = d.reset) ∨
    d.remaining = d.given 0 :: d.next.decoder.remaining := by
  rcases d.next_cases with ⟨hend, hn⟩ | ⟨hphase, i, rest, hread, hn⟩ | ⟨hphase, hne, e, hread, hn⟩
  · -- the end of a walk: there is nothing more, be it for want of bytes or behind an error
    refine .inl ⟨by simp [given, stepped, hn], ?_, by rw [hn]⟩
    by_cases hphase : d.phase = .exhausted
    · rw [remaining, if_pos hphase]
    · rw [remaining, if_neg hphase, hend.resolve_left hphase, Instruction.readAll_nil]
      rfl
  · -- an instruction
    right
    rw [remaining, if_neg hphase, Instruction.readAll_of_ok hread, given, stepped, hn,
      remaining_behind]
    rfl
  · -- an error, behind which there is nothing
    right
    rw [remaining, if_neg hphase, Instruction.readAll_of_error hread hne, given, stepped, hn]
    rfl

/-- The decoder is about to give item `p` of the pass over its body. -/
def At (d : Decoder) (p : Nat) : Prop := (pass d.body.bytes).drop p = d.remaining

theorem at_reset (d : Decoder) : d.reset.At 0 := rfl

/-- One step gives one item, and moves on to the next, or to the first behind the last. -/
theorem At.next {d : Decoder} {p : Nat} (h : d.At p) :
    p < (pass d.body.bytes).length ∧ (pass d.body.bytes)[p]? = some (d.given 0) ∧
      d.next.decoder.At ((p + 1) % (pass d.body.bytes).length) := by
  rcases d.remaining_cases with ⟨hgiven, hremaining, hnext⟩ | hremaining
  all_goals rw [At, hremaining] at h
  · -- nothing is given: that was the last item
    have hlen := congrArg List.length h
    simp only [List.length_drop, List.length_singleton] at hlen
    refine ⟨by omega, ?_, ?_⟩
    · rw [← List.head?_drop, h, hgiven]
      rfl
    · rw [show p + 1 = (pass d.body.bytes).length by omega, Nat.mod_self, hnext]
      exact d.at_reset
  · -- something is given, so the pass goes on
    have hlen := congrArg List.length h
    have hmore : d.next.decoder.remaining ≠ [] := by
      rcases d.next.decoder.remaining_cases with ⟨-, hr, -⟩ | hr <;> simp [hr]
    have hpos := List.length_pos_iff.mpr hmore
    simp only [List.length_drop, List.length_cons] at hlen
    refine ⟨by omega, ?_, ?_⟩
    · rw [← List.head?_drop, h]
      rfl
    · rw [Nat.mod_eq_of_lt (by omega), At, body_next, ← List.drop_drop, h]
      rfl

/-- By induction on the steps, the items come in order, round and round. -/
theorem At.given {d : Decoder} {p : Nat} (h : d.At p) (k : Nat) :
    (pass d.body.bytes)[(p + k) % (pass d.body.bytes).length]? = some (d.given k) := by
  induction k generalizing d p with
  | zero =>
    obtain ⟨hlt, hitem, -⟩ := h.next
    rwa [Nat.add_zero, Nat.mod_eq_of_lt hlt]
  | succ k ih =>
    have hgiven := ih h.next.2.2
    rw [body_next, Nat.mod_add_mod] at hgiven
    rw [Nat.add_comm k 1, ← Nat.add_assoc, d.given_add 1 k]
    exact hgiven

/-- A decoder whose phase and position go together is somewhere in the pass, a ready one at its start. -/
theorem Consistent.exists_at {d : Decoder} (h : d.Consistent) :
    ∃ p, d.At p ∧ (d.phase = .ready → p = 0) := by
  obtain ⟨is, his⟩ := h.boundary
  have hpass := his.pass_eq
  cases hphase : d.phase with
  | ready =>
    refine ⟨0, ?_, fun _ => rfl⟩
    have hposition := h.ready hphase
    rw [At, remaining, if_neg (by simp [hphase]), d.rest_eq, hposition]
    rfl
  | decoding =>
    refine ⟨is.length, ?_, nofun⟩
    rw [At, remaining, if_neg (by simp [hphase]), d.rest_eq, hpass]
    simp
  | exhausted =>
    obtain ⟨-, hend | ⟨hlt, e, hread⟩⟩ := h.exhausted hphase
    · refine ⟨is.length, ?_, nofun⟩
      rw [At, remaining, if_pos hphase, hpass, hend]
      simp [Instruction.Reading.items]
    · -- the reason why there are no more instructions has been given already
      refine ⟨is.length + 1, ?_, nofun⟩
      have hne : d.body.bytes.drop d.position ≠ [] := by
        rw [Ne, List.drop_eq_nil_iff]
        omega
      rw [At, remaining, if_pos hphase, hpass, Instruction.readAll_of_error hread hne, ← List.drop_drop]
      simp [Instruction.Reading.items]

/-! ## Behind an error -/

@[simp] theorem body_stepped (d : Decoder) (k : Nat) : (d.stepped k).body = d.body := by
  induction k generalizing d with
  | zero => rfl
  | succ k ih => rw [stepped, ih, body_next]

/-- A step gives nothing exactly at the end of a walk. -/
theorem given_zero_eq_none_iff (d : Decoder) :
    d.given 0 = none ↔ d.phase = .exhausted ∨ d.rest = [] := by
  rcases d.next_cases with ⟨hend, hn⟩ | ⟨hphase, i, rest, hread, hn⟩ | ⟨hphase, hne, e, hread, hn⟩
  · simp [given, stepped, hn, hend]
  · have hne : d.rest ≠ [] := by
      intro hnil
      rw [hnil, Instruction.read_nil] at hread
      cases hread
    simp [given, stepped, hn, hphase, hne]
  · simp [given, stepped, hn, hphase, hne]

/-- Behind an error there is nothing once, and then the walk begins again. -/
theorem stepped_of_error {d : Decoder} {e : DecodeError} (h : d.given 0 = some (.error e)) :
    d.given 1 = none ∧ d.stepped 2 = d.reset ∧ d.rest ≠ [] := by
  rcases d.next_cases with ⟨-, hn⟩ | ⟨-, i, rest, _, hn⟩ | ⟨-, hne, e', -, hn⟩
  · simp [given, stepped, hn] at h
  · simp [given, stepped, hn, Except.map] at h
  · have hstop : d.stopped.next.item = none ∧ d.stopped.next.decoder = d.reset := by
      rw [next, if_pos (.inl rfl)]
      exact ⟨rfl, rfl⟩
    simp [given, stepped, hn, hstop, hne]

/-- The walk that begins again behind an error gives the whole pass. -/
theorem given_of_error {d : Decoder} {k : Nat} {e : DecodeError} (h : d.given k = some (.error e)) :
    d.given (k + 1) = none ∧ d.given (k + 2) ≠ none ∧ (d.stepped (k + 2)).position = 0 ∧
      ∀ j, (pass d.body.bytes)[j % (pass d.body.bytes).length]? = some (d.given (k + 2 + j)) := by
  rw [← Nat.add_zero k, given_add] at h
  obtain ⟨hnone, hreset, hne⟩ := stepped_of_error h
  have hagain : d.stepped (k + 2) = (d.stepped k).reset := by rw [stepped_add, hreset]
  have hbytes : d.body.bytes ≠ [] := by
    rintro hnil
    rw [(d.stepped k).rest_eq, body_stepped, hnil, List.drop_nil] at hne
    exact hne rfl
  refine ⟨by rw [given_add, hnone], ?_, by rw [hagain]; rfl, fun j => ?_⟩
  · rw [← Nat.add_zero (k + 2), given_add, hagain, Ne, given_zero_eq_none_iff]
    simpa [reset] using hbytes
  · have hgiven := (d.stepped k).at_reset.given j
    rw [given_add, hagain]
    simpa [reset] using hgiven

end Decoder

/-- **Walks repeat.**  Whatever commands a session over a new decoder was given, from then on the
    decoder gives the items of the pass over its body in order, from some item on (the first, if it is
    ready) and round and round.  Behind an error it gives nothing once and then the pass from its start.
    A pass has at most one item more than the body has bytes, so within that many steps nothing is
    given. -/
theorem Session.next_periodic {σ : Type} (r : Resolver σ) {s : Session σ} (hs : s.decoder.IsNew)
    (commands : List Command) :
    let d := (s.after r commands).decoder
    let b := s.decoder.body.bytes
    (∃ p < (pass b).length, (d.phase = .ready → p = 0) ∧
      ∀ k, (pass b)[(p + k) % (pass b).length]? = some (d.given k)) ∧
    (∀ k e, d.given k = some (.error e) → d.given (k + 1) = none ∧ d.given (k + 2) ≠ none ∧
      (d.stepped (k + 2)).position = 0 ∧
      ∀ j, (pass b)[j % (pass b).length]? = some (d.given (k + 2 + j))) ∧
    (pass b).length ≤ b.length + 1 ∧
    ∃ k < b.length + 1, d.given k = none := by
  intro d b
  have hbody : d.body.bytes = b := congrArg Body.bytes (s.body_after r commands)
  have hlen : (pass b).length ≤ b.length + 1 := Instruction.length_items_readAll_le 0 b
  obtain ⟨p, hat, hready⟩ := (consistent_after r hs commands).exists_at
  have hlt : p < (pass b).length := hbody ▸ hat.next.1
  have hgiven : ∀ k, (pass b)[(p + k) % (pass b).length]? = some (d.given k) := hbody ▸ hat.given
  refine ⟨⟨p, hlt, hready, hgiven⟩, fun k e he => hbody ▸ Decoder.given_of_error he, hlen, ?_⟩
  -- the step that gives the last item of the pass
  have hlast := hgiven ((pass b).length - 1 - p)
  rw [show p + ((pass b).length - 1 - p) = (pass b).length - 1 by omega,
    Nat.mod_eq_of_lt (by omega), ← List.getLast?_eq_getElem?, getLast?_pass] at hlast
  exact ⟨(pass b).length - 1 - p, by omega, (Option.some.inj hlast).symm⟩

/-- A `nop`, a byte that is no opcode, and a `ret`, behind the first step. -/
theorem Session.next_periodic_undefined :
    let r : Resolver Unit := .ofLookup fun _ t => .error (.unresolved t "")
    let s : Session Unit := { decoder := .ofBytes [0x00, 0xF8, 0x2A] .standard, world := ⟨(), #[]⟩ }
    let d := (s.after r [.next]).decoder
    (∃ p < (pass [0x00, 0xF8, 0x2A]).length,
      ∀ k, (pass [0x00, 0xF8, 0x2A])[(p + k) % (pass [0x00, 0xF8, 0x2A]).length]? = some (d.given k)) ∧
    d.given 0 = some (.error (.undefinedOpcode [0xF8])) ∧ d.given 1 = none ∧ d.given 2 ≠ none ∧
    (d.stepped 2).position = 0 := by
  intro r s d
  have h := next_periodic r (s := s) (.inl ⟨_, _, rfl⟩) [.next]
  obtain ⟨⟨p, hlt, -, hgiven⟩, herror, -, -⟩ := h
  have hfirst : d.given 0 = some (.error (.undefinedOpcode [0xF8])) := rfl
  obtain ⟨hnone, hagain, hposition, -⟩ := herror 0 _ hfirst
  exact ⟨⟨p, hlt, hgiven⟩, hfirst, hnone, hagain, hposition⟩

end Cil
