/-
  BYTES AND LITTLE-ENDIAN WORDS.

  A body is a list of bytes, and a reader takes a word off its front and hands back the rest.  Writing
  (`littleEndian`) and reading (`readWord`) are inverse to each other: reading what was written gives
  the word and what followed it (`readWord_append`), and whatever is read was written there
  (`readWord_eq_some`).  A read fails exactly when there are too few bytes (`readWord_eq_none`).
-/

namespace Cil

/-- A run of bytes. -/
abbrev Bytes := List UInt8

namespace Bytes

/-- The `w` lowest bytes of `n`, the lowest first. -/
def littleEndian : Nat → Nat → Bytes
  | 0, _ => []
  | w + 1, n => UInt8.ofNat n :: littleEndian w (n / 256)

/-- Takes a word of `w` bytes off the front, lowest byte first. -/
def readWord : Nat → Bytes → Option (Nat × Bytes)
  | 0, bs => some (0, bs)
  | _ + 1, [] => none
  | w + 1, b :: bs =>
    match readWord w bs with
    | some (n, rest) => some (b.toNat + 256 * n, rest)
    | none => none

/-- How many words of `w` bytes there are. -/
def wordCount : Nat → Nat
  | 0 => 1
  | w + 1 => 256 * wordCount w

@[simp] theorem length_littleEndian (w n : Nat) : (littleEndian w n).length = w := by
  induction w generalizing n with
  | zero => rfl
  | succ w ih => simp [littleEndian, ih]

/-- Reading back what was written, whatever follows it. -/
theorem readWord_append (w n : Nat) (h : n < wordCount w) (rest : Bytes) :
    readWord w (littleEndian w n ++ rest) = some (n, rest) := by
  induction w generalizing n with
  | zero =>
    have : n = 0 := by simpa [wordCount] using h
    simp [littleEndian, readWord, this]
  | succ w ih =>
    have hn : n / 256 < wordCount w := Nat.div_lt_of_lt_mul h
    simp only [littleEndian, List.cons_append, readWord, ih (n / 256) hn, UInt8.toNat_ofNat']
    congr 2
    omega

/-- What was read stands at the front, and fits the width. -/
theorem readWord_eq_some {w n : Nat} {bs rest : Bytes} (h : readWord w bs = some (n, rest)) :
    bs = littleEndian w n ++ rest ∧ n < wordCount w := by
  induction w generalizing n bs with
  | zero =>
    simp only [readWord, Option.some.injEq, Prod.mk.injEq] at h
    obtain ⟨rfl, rfl⟩ := h
    simp [littleEndian, wordCount]
  | succ w ih =>
    cases bs with
    | nil => simp [readWord] at h
    | cons b bs =>
      simp only [readWord] at h
      split at h
      · rename_i m r hm
        simp only [Option.some.injEq, Prod.mk.injEq] at h
        obtain ⟨rfl, rfl⟩ := h
        obtain ⟨rfl, hlt⟩ := ih hm
        have hb : b.toNat < 256 := b.toNat_lt
        have hq : (b.toNat + 256 * m) / 256 = m := by omega
        have hr : UInt8.ofNat (b.toNat + 256 * m) = b := by
          apply UInt8.toNat_inj.mp
          simp only [UInt8.toNat_ofNat']
          omega
        refine ⟨by simp [littleEndian, hq, hr], ?_⟩
        rw [wordCount]
        omega
      · simp at h

/-- A read fails exactly when the bytes run out. -/
theorem readWord_eq_none {w : Nat} {bs : Bytes} : readWord w bs = none ↔ bs.length < w := by
  induction w generalizing bs with
  | zero => simp [readWord]
  | succ w ih =>
    cases bs with
    | nil => simp [readWord]
    | cons b bs =>
      simp only [readWord, List.length_cons, Nat.add_lt_add_iff_right, ← ih]
      split <;> rename_i h <;> simp [h]

end Bytes

end Cil
