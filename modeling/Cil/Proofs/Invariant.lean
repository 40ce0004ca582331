import Cil.Proofs.Walk
import Cil.Session

/-
  WHERE A DECODER CAN BE.

  Whatever is done with a decoder, its position is one where an instruction ends (`Boundary`), and its
  phase tells which: the start, a place between, or the end of a walk (`Consistent`).

  `Decoder.Reaches` closes a decoder under the three things that change one: a step, going back to the
  start, and another style.  Every command of a session does some of these (`Session.reaches_run`), so
  that an invariant needs to be proved for three cases only.
-/

namespace Cil

open Instruction (read)

/-! ## Boundaries -/

/-- The instructions `is` are read one behind the other from the start of `b`, and end at `p`. -/
inductive Decoded (b : Bytes) : List Instruction → Nat → Prop where
  | nil : Decoded b [] 0
  | snoc {is : List Instruction} {p : Nat} {i : Instruction} {rest : Bytes} :
      Decoded b is p → read p (b.drop p) = .ok (i, rest) → Decoded b (is ++ [i]) (p + i.size)

/-- A position where some number of instructions, read from the start, ends. -/
def Boundary (b : Bytes) (p : Nat) : Prop := ∃ is, Decoded b is p

/-- A boundary lies in the body or at its end. -/
theorem Boundary.le_length {b : Bytes} {p : Nat} (h : Boundary b p) : p ≤ b.length := by
  obtain ⟨is, h⟩ := h
  cases h with
  | nil => exact Nat.zero_le _
  | snoc _ hread => exact Instruction.add_size_le_of_read hread

namespace Decoder

/-- How the phase of a decoder and its position go together. -/
structure Consistent (d : Decoder) : Prop where
  boundary : Boundary d.body.bytes d.position
  ready : d.phase = .ready → d.position = 0
  decoding : d.phase = .decoding → 0 < d.position ∧ d.position < d.body.bytes.length
  exhausted : d.phase = .exhausted → d.body.bytes ≠ [] ∧
    (d.position = d.body.bytes.length ∨
      d.position < d.body.bytes.length ∧ ∃ e, read d.position (d.body.bytes.drop d.position) = .error e)

/-- A decoder on which nothing has been done yet. -/
def IsNew (d : Decoder) : Prop :=
  (∃ bytes style, d = ofBytes bytes style) ∨ ∃ source style, d = ofSource source style

/-- A decoder that starts over is consistent, whatever it was before. -/
theorem consistent_reset (d : Decoder) : d.reset.Consistent where
  boundary := ⟨[], .nil⟩
  ready _ := rfl
  decoding h := by cases h
  exhausted h := by cases h

theorem IsNew.reset_eq {d : Decoder} (h : d.IsNew) : d.reset = d := by
  rcases h with ⟨bytes, style, rfl⟩ | ⟨source, style, rfl⟩ <;> rfl

/-- Nothing is left exactly from the end of the body on. -/
theorem rest_eq_nil_iff (d : Decoder) : d.rest = [] ↔ d.body.bytes.length ≤ d.position := by
  rw [d.rest_eq, List.drop_eq_nil_iff]

/-- The style has no part in the invariant. -/
theorem Consistent.withStyle {d : Decoder} (h : d.Consistent) (style : Style) :
    (d.withStyle style).Consistent := ⟨h.boundary, h.ready, h.decoding, h.exhausted⟩

/-- A step over an instruction: the position moves on to the next boundary, and the decoder is exhausted
    exactly if that is the end. -/
theorem Consistent.behind {d : Decoder} (h : d.Consistent) {i : Instruction} {rest : Bytes}
    (hread : read d.position d.rest = .ok (i, rest)) : (d.behind hread).Consistent := by
  have hread' : read d.position (d.body.bytes.drop d.position) = .ok (i, rest) := d.rest_eq ▸ hread
  have hpos : 0 < i.size := i.size_pos
  have hle : d.position + i.size ≤ d.body.bytes.length := Instruction.add_size_le_of_read hread'
  have hrest : rest = [] ↔ d.body.bytes.length ≤ d.position + i.size := (d.behind hread).rest_eq_nil_iff
  have hphase : (d.behind hread).phase = if rest = [] then .exhausted else .decoding := rfl
  obtain ⟨is, his⟩ := h.boundary
  -- the phase is decided by what is left behind the instruction
  by_cases hnil : rest = []
  · rw [if_pos hnil] at hphase
    have hend : d.position + i.size = d.body.bytes.length := Nat.le_antisymm hle (hrest.mp hnil)
    have hne : d.body.bytes ≠ [] := List.ne_nil_of_length_pos (by omega)
    exact ⟨⟨_, .snoc his hread'⟩, by simp [hphase], by simp [hphase], fun _ => ⟨hne, .inl hend⟩⟩
  · rw [if_neg hnil] at hphase
    have hlt : d.position + i.size < d.body.bytes.length := Nat.lt_of_not_le (mt hrest.mpr hnil)
    have h0 : 0 < d.position + i.size := by omega
    exact ⟨⟨_, .snoc his hread'⟩, by simp [hphase], fun _ => ⟨h0, hlt⟩, by simp [hphase]⟩

/-- A step that fails: the position stays where the bytes were no instruction. -/
theorem Consistent.stopped {d : Decoder} (h : d.Consistent) {e : DecodeError} (hne : d.rest ≠ [])
    (hread : read d.position d.rest = .error e) : d.stopped.Consistent := by
  have hread' : read d.position (d.body.bytes.drop d.position) = .error e := d.rest_eq ▸ hread
  have hlt : d.position < d.body.bytes.length := by
    rw [Ne, rest_eq_nil_iff] at hne
    omega
  have hbytes : d.body.bytes ≠ [] := List.ne_nil_of_length_pos (by omega)
  exact ⟨h.boundary, nofun, nofun, fun _ => ⟨hbytes, .inr ⟨hlt, e, hread'⟩⟩⟩

/-- A step keeps a decoder consistent, whatever it does: the three cases are the three lemmas above. -/
theorem Consistent.next {d : Decoder} (h : d.Consistent) : d.next.decoder.Consistent := by
  rcases d.next_cases with ⟨-, hn⟩ | ⟨-, i, rest, hread, hn⟩ | ⟨-, hne, e, hread, hn⟩
  · rw [hn]
    exact d.consistent_reset
  · rw [hn]
    exact h.behind hread
  · rw [hn]
    exact h.stopped hne hread

/-! ## Runs -/

/-- What becomes of a decoder by steps, by going back to the start and by other styles. -/
inductive Reaches (d : Decoder) : Decoder → Prop where
  | refl : Reaches d d
  | next {e : Decoder} : Reaches d e → Reaches d e.next.decoder
  | reset {e : Decoder} : Reaches d e → Reaches d e.reset
  | withStyle {e : Decoder} (style : Style) : Reaches d e → Reaches d (e.withStyle style)

theorem Reaches.trans {d e f : Decoder} (h : d.Reaches e) (h' : e.Reaches f) : d.Reaches f := by
  induction h' with
  | refl => exact h
  | next _ ih => exact ih.next
  | reset _ ih => exact ih.reset
  | withStyle style _ ih => exact ih.withStyle style

/-- What every step preserves, every run does. -/
theorem Reaches.consistent {d e : Decoder} (h : d.Reaches e) (hd : d.Consistent) : e.Consistent := by
  induction h with
  | refl => exact hd
  | next _ ih => exact ih.next
  | @reset e _ _ => exact e.consistent_reset
  | withStyle style _ ih => exact ih.withStyle style

@[simp] theorem body_next (d : Decoder) : d.next.decoder.body = d.body := by
  rcases d.next_cases with ⟨-, hn⟩ | ⟨-, i, rest, hread, hn⟩ | ⟨-, hne, e, hread, hn⟩ <;> rw [hn] <;> rfl

/-- No step changes the body. -/
theorem Reaches.body_eq {d e : Decoder} (h : d.Reaches e) : e.body = d.body := by
  induction h with
  | refl => rfl
  | next _ ih => rw [body_next, ih]
  | reset _ ih => exact ih
  | withStyle style _ ih => exact ih

/-- A walk consists of steps. -/
theorem reaches_walkFrom (d : Decoder) (gathered : Array Listed) (log : Array Record) :
    d.Reaches (d.walkFrom gathered log).decoder := by
  have hstep : d.Reaches d.next.decoder := .next .refl
  fun_induction walkFrom d gathered log with
  | case1 d gathered log l after records hnext _ ih =>
    rw [hnext] at hstep
    exact hstep.trans (ih (.next .refl))
  | case2 d gathered log e after records hnext => rwa [hnext] at hstep
  | case3 d gathered log after records hnext => rwa [hnext] at hstep

/-- A walk is so many steps from where the decoder stands. -/
theorem reaches_drain (d : Decoder) : d.Reaches d.drain.decoder := d.reaches_walkFrom #[] #[]

/-- Decoding a whole body is so many steps from the start. -/
theorem reaches_decodeAll (d : Decoder) : d.Reaches d.decodeAll.decoder :=
  .reset ((Reaches.reset .refl).trans d.reset.reaches_drain)

end Decoder

namespace Session

variable {σ : Type}

/-- The session after some commands. -/
def after (r : Resolver σ) (s : Session σ) (commands : List Command) : Session σ :=
  commands.foldl (fun s c => (s.run r c).2) s

/-! Looking at kept instructions and rendering them leaves the decoder alone. -/

@[simp] theorem decoder_withKept (s : Session σ) (index : Nat) (look : Listed → Reply) :
    (s.withKept index look).2.decoder = s.decoder := by
  unfold withKept
  split <;> rfl

@[simp] theorem decoder_renderKept (s : Session σ) (index : Nat)
    (render : Listed → Render σ (Reply × Listed)) :
    (s.renderKept index render).2.decoder = s.decoder := by
  unfold renderKept
  split
  · rfl
  · split <;> rfl

@[simp] theorem decoder_keepWalk (s : Session σ) (walk : Decoder.Walk) :
    (s.keepWalk walk).2.decoder = walk.decoder := by
  unfold keepWalk
  dsimp only
  split <;> rfl

@[simp] theorem decoder_renderBody {α : Type} (s : Session σ)
    (render : Render σ (Except DecodeError α)) (reply : α → Reply) :
    (s.renderBody render reply).2.decoder = s.decoder.decodeAll.decoder := by
  unfold renderBody
  split
  dsimp only
  split <;> rfl

/-- Every command changes the decoder by steps, by going back to the start and by styles, if at all. -/
theorem reaches_run (r : Resolver σ) (s : Session σ) (c : Command) :
    s.decoder.Reaches (s.run r c).2.decoder := by
  cases c with
  | next =>
    have hdecoder : (s.run r .next).2.decoder = s.decoder.next.decoder := by
      unfold run
      dsimp only
      split <;> rfl
    rw [hdecoder]
    exact .next .refl
  | drain => simpa [run] using s.decoder.reaches_drain
  | decodeAll | lines | text => simpa [run] using s.decoder.reaches_decodeAll
  | reset => exact .reset .refl
  | useStyle style => exact .withStyle style .refl
  | copy index | restyle index style =>
    unfold run
    dsimp only
    split <;> exact .refl
  | _ => simpa [run] using Decoder.Reaches.refl

/-- Whatever is asked of a session, its decoder goes on by steps. -/
theorem reaches_after (r : Resolver σ) (s : Session σ) (commands : List Command) :
    s.decoder.Reaches (s.after r commands).decoder := by
  induction commands generalizing s with
  | nil => exact .refl
  | cons c commands ih => exact (s.reaches_run r c).trans (ih _)

theorem body_after (r : Resolver σ) (s : Session σ) (commands : List Command) :
    (s.after r commands).decoder.body = s.decoder.body := (s.reaches_after r commands).body_eq

/-- **The invariant of a session.**  A session that was begun with a new decoder has a consistent one after
    any commands. -/
theorem consistent_after (r : Resolver σ) {s : Session σ} (hs : s.decoder.IsNew)
    (commands : List Command) : (s.after r commands).decoder.Consistent :=
  (s.reaches_after r commands).consistent (hs.reset_eq ▸ s.decoder.consistent_reset)

/-- **The invariant of a decoder.**  Whatever commands a session over a new decoder is given, the
    decoder stands behind some number of instructions of its body, in the phase that belongs there, and
    its body is the one that it started with. -/
theorem decoder_invariant (r : Resolver σ) {s : Session σ} (hs : s.decoder.IsNew)
    (commands : List Command) :
    (s.after r commands).decoder.Consistent ∧
    (s.after r commands).decoder.position ≤ s.decoder.body.bytes.length ∧
    (s.after r commands).decoder.body = s.decoder.body := by
  have hconsistent := consistent_after r hs commands
  have hbody := s.body_after r commands
  exact ⟨hconsistent, hbody ▸ hconsistent.boundary.le_length, hbody⟩

/-- A body that could not be finished, walked to its invalid second byte. -/
theorem decoder_invariant_unfinished :
    let r : Resolver Unit := .ofLookup fun _ t => .error (.unresolved t "")
    let s : Session Unit :=
      { decoder := .ofSource ⟨.error .outOfBounds, [0x00, 0xF8, 0x2A], 2⟩ .standard, world := ⟨(), #[]⟩ }
    let d := (s.after r [.next, .reset, .next, .next]).decoder
    d.Consistent ∧ d.position = 1 ∧ d.phase = .exhausted ∧ d.body = ⟨[0x00, 0xF8], false⟩ := by
  intro r s d
  have h := decoder_invariant r (s := s) (.inr ⟨_, _, rfl⟩) [.next, .reset, .next, .next]
  exact ⟨h.1, rfl, rfl, h.2.2⟩

end Session

end Cil
