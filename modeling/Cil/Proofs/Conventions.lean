import Cil.Style
import Mathlib

/-
  THE STANDARD CONVENTIONS CAN BE READ BACK.

  A convention writes values as texts.  A reader of it gives a value for some of the texts.  It is exact if
  it accepts the texts that the convention writes and no others, and gives back what was written; this is
  `Function.IsPartialInv`.  Exact readers are put together like the conventions that they read: what is
  written in two steps is read in two steps (`Function.IsPartialInv.comp`), what stands between two texts
  is cut out (`isPartialInv_between?`), and items are read one by one, if no item contains the character
  that separators begin with (`isPartialInv_readItems?`).

  A number has one hexadecimal numeral with no more zeros in front than fill its width
  (`Hex.IsNumeral.eq`), and the sign of a position is no digit, so positions and lists of them have exact
  readers (`Style.isPartialInv_readLabel?`, `Style.isPartialInv_readLabels?`).  Hence different positions
  look different, and so do different lists of them.

  A text with a part that may be anything is taken apart at characters that the parts in front cannot
  have: a colon ends a numeral, a blank ends a mnemonic, a line feed ends a line (`append_cons_inj`).  The
  blanks that fill the column of a mnemonic are as many as the mnemonic leaves, so the operand begins where
  they end, also if it begins with blanks itself (`Style.standardLine_inj`).
-/

namespace Cil

open Function (IsPartialInv)

/-! ## Taking a text apart -/

section Separators

variable {α : Type}

/-- What stands in front of the first `a` is determined, and so is what stands behind it. -/
theorem append_cons_inj {a : α} {xs ys s t : List α} (hx : a ∉ xs) (hy : a ∉ ys)
    (h : xs ++ a :: s = ys ++ a :: t) : xs = ys ∧ s = t := by
  induction xs generalizing ys with
  | nil =>
    cases ys with
    | nil => exact ⟨rfl, (List.cons.inj h).2⟩
    | cons y ys =>
      -- `a` would be the first of the others
      have hay : a = y := (List.cons.inj h).1
      exact absurd (hay ▸ List.mem_cons_self) hy
  | cons x xs ih =>
    cases ys with
    | nil =>
      have hxa : x = a := (List.cons.inj h).1
      exact absurd (hxa ▸ List.mem_cons_self) hx
    | cons y ys =>
      obtain ⟨rfl, htail⟩ := List.cons.inj h
      obtain ⟨rfl, hst⟩ := ih (fun ha => hx (.tail x ha)) (fun ha => hy (.tail x ha)) htail
      exact ⟨rfl, hst⟩

/-- Pieces that each end at an `a` which they do not contain. -/
theorem flatMap_terminated_inj {a : α} {xs ys : List (List α)} (hx : ∀ x ∈ xs, a ∉ x)
    (hy : ∀ y ∈ ys, a ∉ y) (h : (xs.flatMap fun x => x ++ [a]) = ys.flatMap fun y => y ++ [a]) :
    xs = ys := by
  induction xs generalizing ys with
  | nil =>
    cases ys with
    | nil => rfl
    | cons y ys => simp at h
  | cons x xs ih =>
    cases ys with
    | nil => simp at h
    | cons y ys =>
      simp only [List.flatMap_cons, List.append_assoc, List.singleton_append] at h
      obtain ⟨rfl, hrest⟩ := append_cons_inj (hx x List.mem_cons_self) (hy y List.mem_cons_self) h
      rw [ih (fun z hz => hx z (.tail x hz)) (fun z hz => hy z (.tail x hz)) hrest]

end Separators

/-! ## Putting readers together -/

section Readers

variable {α β : Type}

theorem isPartialInv_mapM {write : β → α} {read? : α → Option β} (h : IsPartialInv write read?) :
    IsPartialInv (List.map write) (List.mapM read?) := by
  intro vs texts
  induction texts generalizing vs with
  | nil => simp [eq_comm]
  | cons text texts ih =>
    simp only [List.mapM_cons, Option.bind_eq_bind, Option.bind_eq_some_iff, Option.pure_def,
      Option.some.injEq]
    constructor
    · rintro ⟨v, hv, rest, hrest, rfl⟩
      rw [List.map_cons, (h v text).mp hv, (ih rest).mp hrest]
    · intro hwritten
      obtain ⟨v, rest, rfl, rfl, rfl⟩ := List.map_eq_cons_iff.mp hwritten
      exact ⟨v, h.eq v, rest, (ih rest).mpr rfl, rfl⟩

/-- What follows the first character of a separator can be counted to the piece behind it. -/
theorem intercalate_cons_eq (a : α) (sep x : List α) (xs : List (List α)) :
    (a :: sep).intercalate (x :: xs) = [a].intercalate (x :: xs.map (sep ++ ·)) := by
  induction xs generalizing x with
  | nil => simp
  | cons y ys ih =>
    rw [List.map_cons, List.intercalate_cons_cons, List.intercalate_cons_cons, ih]
    cases ys <;> simp

variable [DecidableEq α]

theorem isPartialInv_dropPrefix? (front : List α) : IsPartialInv (front ++ ·) (·.dropPrefix? front) := by
  intro rest text
  rw [List.dropPrefix?_eq_some_iff]
  constructor
  · rintro ⟨front', rfl, hfront⟩
    rw [eq_of_beq hfront]
  · rintro rfl
    exact ⟨front, rfl, beq_self_eq_true front⟩

theorem isPartialInv_dropSuffix? (back : List α) : IsPartialInv (· ++ back) (·.dropSuffix? back) := by
  intro rest text
  rw [List.dropSuffix?_eq_some_iff]
  constructor
  · rintro ⟨back', rfl, hback⟩
    rw [eq_of_beq hback]
  · rintro rfl
    exact ⟨back, rfl, beq_self_eq_true back⟩

/-- What stands between an opening and a closing text. -/
def between? (opening closing text : List α) : Option (List α) :=
  (text.dropPrefix? opening).bind (·.dropSuffix? closing)

theorem isPartialInv_between? (opening closing : List α) :
    IsPartialInv (fun inside => opening ++ (inside ++ closing)) (between? opening closing) :=
  (isPartialInv_dropSuffix? closing).comp (isPartialInv_dropPrefix? opening)

/-- Reads items that have separators between them: an `a` and then `sep`. -/
def readItems? (a : α) (sep : List α) (read? : List α → Option β) (text : List α) : Option (List β) :=
  if text = [] then some []
  else do
    let pieces := text.splitOn a
    let first ← read? (pieces.headD [])
    let others ← pieces.tail.mapM fun piece => (piece.dropPrefix? sep).bind read?
    return first :: others

/-- An item is not empty, so nothing is written for no items only; and it has no `a`, so each `a` belongs
    to a separator. -/
theorem isPartialInv_readItems? {write : β → List α} {read? : List α → Option β} {a : α} {sep : List α}
    (h : IsPartialInv write read?) (hwrite : ∀ v, write v ≠ [] ∧ a ∉ write v) (hsep : a ∉ sep) :
    IsPartialInv (fun vs => (a :: sep).intercalate (vs.map write)) (readItems? a sep read?) := by
  have hothers := isPartialInv_mapM (h.comp (isPartialInv_dropPrefix? sep))
  have hjoined (v : β) (vs : List β) : (a :: sep).intercalate ((v :: vs).map write)
      = [a].intercalate (write v :: vs.map ((sep ++ ·) ∘ write)) := by
    rw [List.map_cons, intercalate_cons_eq, List.map_map]
  intro vs text
  dsimp only
  by_cases hempty : text = []
  · rw [readItems?, if_pos hempty, Option.some.injEq, hempty]
    cases vs with
    | nil => simp
    | cons v vs =>
      have hv := (hwrite v).1
      cases vs <;> simp [hv]
  · rw [readItems?, if_neg hempty]
    simp only [Option.bind_eq_bind, Option.bind_eq_some_iff, Option.pure_def, Option.some.injEq]
    constructor
    · rintro ⟨first, hfirst, others, hread, rfl⟩
      obtain ⟨piece, pieces, hsplit⟩ := List.exists_cons_of_ne_nil (List.splitOn_ne_nil a text)
      rw [hsplit] at hfirst hread
      rw [hjoined, (h first piece).mp hfirst, (hothers others pieces).mp hread, ← hsplit,
        List.intercalate_splitOn]
    · rintro rfl
      cases vs with
      | nil => exact absurd rfl hempty
      | cons v vs =>
        have hpieces : ∀ piece ∈ write v :: vs.map ((sep ++ ·) ∘ write), a ∉ piece := by
          intro piece hpiece
          rcases List.mem_cons.mp hpiece with rfl | hpiece
          · exact (hwrite v).2
          · obtain ⟨u, -, rfl⟩ := List.mem_map.mp hpiece
            exact List.not_mem_append hsep (hwrite u).2
        rw [hjoined, List.splitOn_intercalate a hpieces (List.cons_ne_nil _ _)]
        exact ⟨v, h.eq v, vs, hothers.eq vs, rfl⟩

end Readers

/-- Texts are read by their characters. -/
theorem isPartialInv_text {β : Type} {write : β → String} {read? : List Char → Option β}
    (h : IsPartialInv (fun v => (write v).toList) read?) : IsPartialInv write (read? ·.toList) := by
  intro v text
  rw [h v text.toList]
  exact String.toList_inj

/-- A text of one line in plain ASCII. -/
def Printable (cs : List Char) : Prop := ∀ c ∈ cs, 0x20 ≤ c.toNat ∧ c.toNat ≤ 0x7E

instance (cs : List Char) : Decidable (Printable cs) := List.decidableBAll _ cs

namespace Printable

@[simp] theorem append_iff {cs ds : List Char} : Printable (cs ++ ds) ↔ Printable cs ∧ Printable ds :=
  List.forall_mem_append

@[simp] theorem cons_iff {c : Char} {cs : List Char} :
    Printable (c :: cs) ↔ (0x20 ≤ c.toNat ∧ c.toNat ≤ 0x7E) ∧ Printable cs :=
  List.forall_mem_cons

@[simp] theorem nil : Printable [] := nofun

theorem newline_not_mem {cs : List Char} (h : Printable cs) : '\n' ∉ cs := fun hn =>
  absurd (h '\n' hn).1 (by decide)

theorem of_subset {cs alphabet : List Char} (h : cs ⊆ alphabet) (ha : Printable alphabet) :
    Printable cs := fun c hc => ha c (h hc)

end Printable

/-! ## Numerals -/

/-- The digits of a numeral are those of its base. -/
theorem forall_mem_toDigits {b : Nat} (hb : 1 < b) {p : Char → Prop}
    (hp : ∀ d < b, p (Nat.digitChar d)) (n : Nat) : ∀ c ∈ Nat.toDigits b n, p c := by
  induction n using Nat.strongRecOn with
  | ind n ih =>
    intro c hc
    rw [Nat.toDigits_eq_if hb] at hc
    split at hc
    · rename_i hn
      rw [List.mem_singleton.mp hc]
      exact hp n hn
    · rename_i hn
      rcases List.mem_append.mp hc with hc | hc
      · exact ih (n / b) (Nat.div_lt_self (by omega) hb) c hc
      · rw [List.mem_singleton.mp hc]
        exact hp (n % b) (Nat.mod_lt n (by omega))

/-- The characters of decimal numerals. -/
def decimalAlphabet : List Char := ['-', '0', '1', '2', '3', '4', '5', '6', '7', '8', '9']

theorem toDigits_subset_decimalAlphabet (n : Nat) : Nat.toDigits 10 n ⊆ decimalAlphabet :=
  forall_mem_toDigits (by decide) (by decide) n

theorem toList_natRepr_subset (n : Nat) : (Nat.repr n).toList ⊆ decimalAlphabet := by
  rw [Nat.toList_repr]
  exact toDigits_subset_decimalAlphabet n

theorem toList_intRepr_subset (z : Int) : (Int.repr z).toList ⊆ decimalAlphabet := by
  rw [Int.repr_eq_if]
  split
  · exact toList_natRepr_subset z.toNat
  · rw [String.toList_append]
    intro c hc
    rcases List.mem_append.mp hc with hc | hc
    · rw [List.mem_singleton.mp hc]
      decide
    · exact toList_natRepr_subset (-z).toNat hc

namespace Hex

/-- The characters of lower-case numerals. -/
def alphabet : List Char :=
  ['0', '1', '2', '3', '4', '5', '6', '7', '8', '9', 'a', 'b', 'c', 'd', 'e', 'f']

theorem atLeastDigits_subset (w n : Nat) : atLeastDigits w n ⊆ alphabet := by
  intro c hc
  rcases List.mem_append.mp hc with hc | hc
  · rw [List.eq_of_mem_replicate hc]
    decide
  · exact forall_mem_toDigits (b := 16) (by decide) (p := (· ∈ alphabet)) (by decide) n c hc

theorem not_mem_atLeastDigits {c : Char} (hc : c ∉ alphabet) (w n : Nat) : c ∉ atLeastDigits w n :=
  fun h => hc (atLeastDigits_subset w n h)

/-- One more digit on the right. -/
def push? (n : Nat) (c : Char) : Option Nat := (Quoted.digitValue? c).map (16 * n + ·)

/-- The value of a lower-case numeral. -/
def value? (cs : List Char) : Option Nat := cs.foldlM push? 0

/-- A digit is read as the value that it is the digit of. -/
theorem digitValue?_eq_some_iff {c : Char} {d : Nat} :
    Quoted.digitValue? c = some d ↔ d < 16 ∧ c = Nat.digitChar d := by
  constructor
  · intro h
    have hdecimal : ∀ k < 10, Char.ofNat ('0'.toNat + k) = Nat.digitChar k := by decide
    have hletter : ∀ k < 6, Char.ofNat ('a'.toNat + k) = Nat.digitChar (k + 10) := by decide
    -- the character is as far behind `0` or `a` as its value says
    have hchar {k : Nat} (hk : k ≤ c.toNat) : c = Char.ofNat (k + (c.toNat - k)) := by
      rw [Nat.add_sub_cancel' hk, Char.ofNat_toNat]
    unfold Quoted.digitValue? at h
    split at h
    · rename_i hrange
      have hlo : '0'.toNat ≤ c.toNat := hrange.1
      have hhi : c.toNat ≤ 57 := hrange.2
      have hlt : c.toNat - '0'.toNat < 10 := by
        show c.toNat - 48 < 10
        omega
      rw [← Option.some.inj h, ← hdecimal _ hlt]
      exact ⟨by omega, hchar hlo⟩
    · split at h
      · rename_i hrange
        have hlo : 'a'.toNat ≤ c.toNat := hrange.1
        have hhi : c.toNat ≤ 102 := hrange.2
        have hlt : c.toNat - 'a'.toNat < 6 := by
          show c.toNat - 97 < 6
          omega
        rw [← Option.some.inj h, ← hletter _ hlt]
        exact ⟨by omega, hchar hlo⟩
      · cases h
  · rintro ⟨hd, rfl⟩
    have hvalue : ∀ d < 16, Quoted.digitValue? (Nat.digitChar d) = some d := by decide
    exact hvalue d hd

/-- The last character is the last digit, and those in front are worth the quotient. -/
theorem value?_concat_eq_some_iff {cs : List Char} {c : Char} {n : Nat} :
    value? (cs ++ [c]) = some n ↔ value? cs = some (n / 16) ∧ c = Nat.digitChar (n % 16) := by
  unfold value?
  rw [List.foldlM_append]
  simp only [List.foldlM_cons, List.foldlM_nil, Option.bind_eq_bind, Option.bind_eq_some_iff,
    Option.pure_def, push?, Option.map_eq_some_iff, digitValue?_eq_some_iff]
  constructor
  · rintro ⟨m, hm, -, ⟨d, ⟨hd, hc⟩, rfl⟩, hn⟩
    cases hn
    have hquotient : (16 * m + d) / 16 = m := by omega
    have hdigit : (16 * m + d) % 16 = d := by omega
    rw [hquotient, hdigit]
    exact ⟨hm, hc⟩
  · rintro ⟨hm, hc⟩
    exact ⟨n / 16, hm, n, ⟨n % 16, ⟨Nat.mod_lt n (by decide), hc⟩, Nat.div_add_mod n 16⟩, rfl⟩

/-- Numerals of one length with one value are the same. -/
theorem eq_of_value? {cs ds : List Char} {n : Nat} (hlength : cs.length = ds.length)
    (hcs : value? cs = some n) (hds : value? ds = some n) : cs = ds := by
  induction cs using List.reverseRecOn generalizing ds n with
  | nil => exact (List.length_eq_zero_iff.mp hlength.symm).symm
  | append_singleton cs c ih =>
    rcases List.eq_nil_or_concat' ds with rfl | ⟨ds, d, rfl⟩
    · simp at hlength
    · obtain ⟨hquotient, rfl⟩ := value?_concat_eq_some_iff.mp hcs
      obtain ⟨hquotient', rfl⟩ := value?_concat_eq_some_iff.mp hds
      rw [ih (by simpa using hlength) hquotient hquotient']

theorem value?_toDigits (n : Nat) : value? (Nat.toDigits 16 n) = some n := by
  induction n using Nat.strongRecOn with
  | ind n ih =>
    rw [Nat.toDigits_eq_if (by decide)]
    split
    · rename_i hn
      rw [← List.nil_append [_], value?_concat_eq_some_iff, Nat.div_eq_of_lt hn, Nat.mod_eq_of_lt hn]
      exact ⟨rfl, rfl⟩
    · exact value?_concat_eq_some_iff.mpr ⟨ih (n / 16) (by omega), rfl⟩

/-- Zeros in front do not change the value. -/
theorem value?_zeros_append (k : Nat) (cs : List Char) :
    value? (List.replicate k '0' ++ cs) = value? cs := by
  have hzero : push? 0 '0' = some 0 := rfl
  unfold value?
  induction k with
  | zero => rfl
  | succ k ih => rwa [List.replicate_succ, List.cons_append, List.foldlM_cons, hzero]

theorem value?_atLeastDigits (w n : Nat) : value? (atLeastDigits w n) = some n := by
  rw [atLeastDigits, value?_zeros_append, value?_toDigits]

theorem atLeastDigits_inj {w n m : Nat} (h : atLeastDigits w n = atLeastDigits w m) : n = m := by
  have hvalue : some n = some m := by rw [← value?_atLeastDigits w n, h, value?_atLeastDigits]
  exact Option.some.inj hvalue

/-- The characters are the lower-case numeral of a number, with zeros in front up to a width and no
    further. -/
structure IsNumeral (width n : Nat) (cs : List Char) : Prop where
  value : value? cs = some n
  width_le : width ≤ cs.length
  no_more : width < cs.length → cs.head? ≠ some '0'

theorem head?_toDigits_ne_zero {n : Nat} (h : 0 < n) : (Nat.toDigits 16 n).head? ≠ some '0' := by
  induction n using Nat.strongRecOn with
  | ind n ih =>
    rw [Nat.toDigits_eq_if (by decide)]
    split
    · rename_i hlt
      have hdigit : ∀ d < 16, 0 < d → Nat.digitChar d ≠ '0' := by decide
      rw [List.head?_cons, ne_eq, Option.some.injEq]
      exact hdigit n hlt h
    · -- the quotient is written first, and is not zero either
      rename_i hge
      rw [List.head?_append_of_ne_nil _ (List.ne_nil_of_length_pos Nat.length_toDigits_pos)]
      exact ih (n / 16) (by omega) (by omega)

theorem isNumeral_atLeastDigits {width : Nat} (h : 0 < width) (n : Nat) :
    IsNumeral width n (atLeastDigits width n) where
  value := value?_atLeastDigits width n
  width_le := by
    rw [atLeastDigits, List.length_append, List.length_replicate]
    omega
  no_more := by
    intro hlong
    rw [atLeastDigits, List.length_append, List.length_replicate] at hlong
    have hnone : width - (Nat.toDigits 16 n).length = 0 := by omega
    have hpos : 0 < n := by
      apply Nat.pos_of_ne_zero
      rintro rfl
      have hzero : (Nat.toDigits 16 0).length = 1 := rfl
      omega
    rw [atLeastDigits, hnone]
    exact head?_toDigits_ne_zero hpos

/-- Of two numerals of a number the longer one would have the zeros in front that the shorter one lacks. -/
theorem IsNumeral.eq {width n : Nat} {cs ds : List Char} (hcs : IsNumeral width n cs)
    (hds : IsNumeral width n ds) : cs = ds := by
  have hnot {xs ys : List Char} (hxs : IsNumeral width n xs) (hys : IsNumeral width n ys) :
      ¬ xs.length < ys.length := by
    intro hlt
    have hfilled : List.replicate (ys.length - xs.length) '0' ++ xs = ys := by
      apply eq_of_value?
      · rw [List.length_append, List.length_replicate]
        omega
      · rw [value?_zeros_append]
        exact hxs.value
      · exact hys.value
    have hzero : ys.head? = some '0' := by
      rw [← hfilled, List.head?_append, List.head?_replicate, if_neg (by omega)]
      rfl
    exact hys.no_more (Nat.lt_of_le_of_lt hxs.width_le hlt) hzero
  have hle := hnot hcs hds
  have hge := hnot hds hcs
  exact eq_of_value? (by omega) hcs.value hds.value

/-- Reads a numeral with zeros in front up to a width and no further. -/
def numeral? (width : Nat) (cs : List Char) : Option Nat :=
  if width ≤ cs.length ∧ (width < cs.length → cs.head? ≠ some '0') then value? cs else none

theorem numeral?_eq_some_iff {width n : Nat} {cs : List Char} :
    numeral? width cs = some n ↔ IsNumeral width n cs := by
  unfold numeral?
  split
  · rename_i h
    exact ⟨fun hvalue => ⟨hvalue, h.1, h.2⟩, fun hcs => hcs.value⟩
  · rename_i h
    exact ⟨nofun, fun hcs => absurd ⟨hcs.width_le, hcs.no_more⟩ h⟩

theorem isPartialInv_numeral? {width : Nat} (h : 0 < width) :
    IsPartialInv (atLeastDigits width) (numeral? width) := by
  intro n cs
  have hwritten := isNumeral_atLeastDigits h n
  rw [numeral?_eq_some_iff]
  constructor
  · exact fun hcs => hwritten.eq hcs
  · rintro rfl
    exact hwritten

/-- The numeral of a number that may be negative, and then has a sign in front. -/
def signedDigits (width : Nat) (z : Int) : List Char :=
  (if z < 0 then ['-'] else []) ++ atLeastDigits width z.natAbs

/-- Reads a number that may have a sign.  There is none in front of zero. -/
def signed? (width : Nat) (cs : List Char) : Option Int :=
  if cs.head? = some '-' then
    (numeral? width cs.tail).bind fun n => if 0 < n then some (-n : Int) else none
  else
    (numeral? width cs).map fun n : Nat => (n : Int)

theorem isPartialInv_signed? {width : Nat} (h : 0 < width) :
    IsPartialInv (signedDigits width) (signed? width) := by
  have hnumeral := isPartialInv_numeral? h
  intro z cs
  constructor
  · intro hread
    unfold signed? at hread
    split at hread
    · rename_i hsign
      obtain ⟨digits, rfl⟩ := List.head?_eq_some_iff.mp hsign
      obtain ⟨n, hn, hsigned⟩ := Option.bind_eq_some_iff.mp hread
      obtain ⟨hpos, hvalue⟩ := Option.ite_none_right_eq_some.mp hsigned
      cases hvalue
      rw [signedDigits, if_pos (by omega), Int.natAbs_neg, Int.natAbs_natCast, (hnumeral n digits).mp hn]
      rfl
    · obtain ⟨n, hn, rfl⟩ := Option.map_eq_some_iff.mp hread
      rw [signedDigits, if_neg (by omega), Int.natAbs_natCast, (hnumeral n cs).mp hn]
      rfl
  · rintro rfl
    unfold signedDigits
    by_cases hz : z < 0
    · have hpos : 0 < z.natAbs := by omega
      have hvalue : -(z.natAbs : Int) = z := by omega
      rw [if_pos hz, List.singleton_append, signed?, List.head?_cons, if_pos rfl, List.tail_cons,
        hnumeral.eq, Option.bind_some, if_pos hpos, hvalue]
    · -- a sign is no digit
      have hsign : (atLeastDigits width z.natAbs).head? ≠ some '-' := by
        intro hhead
        exact not_mem_atLeastDigits (by decide) width _ (List.mem_of_head? hhead)
      have hvalue : (z.natAbs : Int) = z := by omega
      rw [if_neg hz, List.nil_append, signed?, if_neg hsign, hnumeral.eq, Option.map_some, hvalue]

end Hex

namespace Style

/-! ## Variables and positions -/

theorem standardSlot_injective : Function.Injective standardSlot := by
  intro m n h
  rw [standardSlot, standardSlot, String.append_right_inj, Nat.repr_inj] at h
  exact UInt16.toNat_inj.mp h

theorem printable_standardSlot (n : UInt16) : Printable (standardSlot n).toList := by
  rw [standardSlot, String.toList_append]
  exact Printable.append_iff.mpr
    ⟨by decide, .of_subset (toList_natRepr_subset n.toNat) (by decide)⟩

/-- The characters of positions. -/
def labelAlphabet : List Char := 'I' :: 'L' :: '_' :: '-' :: Hex.alphabet

theorem toList_standardLabel (p : Int64) :
    (standardLabel p).toList = 'I' :: 'L' :: '_' :: Hex.signedDigits 4 p.toInt := by
  rw [standardLabel, String.toList_append, Hex.toList_atLeast, Hex.signedDigits]
  split
  · rfl
  · rfl

theorem standardLabel_subset (p : Int64) : (standardLabel p).toList ⊆ labelAlphabet := by
  have hdigits : Hex.atLeastDigits 4 p.toInt.natAbs ⊆ labelAlphabet :=
    fun c hc => List.mem_append_right ['I', 'L', '_', '-'] (Hex.atLeastDigits_subset 4 _ hc)
  rw [toList_standardLabel, Hex.signedDigits]
  split
  · simpa [labelAlphabet] using hdigits
  · simpa [labelAlphabet] using hdigits

/-- The position of a number, if 64 bits hold it. -/
def position? (z : Int) : Option Int64 :=
  if -0x8000000000000000 ≤ z ∧ z < 0x8000000000000000 then some (Int64.ofInt z) else none

theorem isPartialInv_position? : IsPartialInv Int64.toInt position? := by
  intro p z
  unfold position?
  split
  · rename_i hrange
    rw [Option.some.injEq]
    constructor
    · rintro rfl
      exact Int64.toInt_ofInt_of_le hrange.1 hrange.2
    · rintro rfl
      exact Int64.ofInt_toInt p
  · rename_i hrange
    refine ⟨nofun, ?_⟩
    rintro rfl
    exact absurd ⟨p.le_toInt, p.toInt_lt⟩ hrange

/-- Reads a position: `IL_` and a number with at least four digits, which may have a sign. -/
def readLabel? (text : List Char) : Option Int64 :=
  (text.dropPrefix? ['I', 'L', '_']).bind fun number => (Hex.signed? 4 number).bind position?

theorem isPartialInv_readLabel? : IsPartialInv (fun p => (standardLabel p).toList) readLabel? := by
  have hnumber := isPartialInv_position?.comp (Hex.isPartialInv_signed? (by decide : 0 < 4))
  simp only [toList_standardLabel]
  exact hnumber.comp (isPartialInv_dropPrefix? ['I', 'L', '_'])

/-- A sign in front of zero, a zero too many, and a number that 64 bits do not hold. -/
example : ∀ text ∈ ["IL_-0000", "IL_00012", "IL_8000000000000000"], readLabel? text.toList = none := by
  decide +kernel

theorem standardLabel_injective : Function.Injective standardLabel :=
  (isPartialInv_text isPartialInv_readLabel?).injective

theorem toList_standardLabels (positions : List Int64) :
    (standardLabels standardLabel positions).toList = '(' ::
      ([',', ' '].intercalate (positions.map fun p => (standardLabel p).toList) ++ [')']) := by
  rw [standardLabels, String.toList_append, String.toList_append, String.toList_intercalate, List.map_map]
  rfl

/-- Reads positions: they stand in parentheses, with a comma and a blank between them. -/
def readLabels? (text : List Char) : Option (List Int64) :=
  (between? ['('] [')'] text).bind (readItems? ',' [' '] readLabel?)

theorem isPartialInv_readLabels? :
    IsPartialInv (fun ps => (standardLabels standardLabel ps).toList) readLabels? := by
  have hpieces (p : Int64) : (standardLabel p).toList ≠ [] ∧ ',' ∉ (standardLabel p).toList := by
    constructor
    · rw [toList_standardLabel]
      exact List.cons_ne_nil _ _
    · intro hcomma
      exact absurd (standardLabel_subset p hcomma) (by decide)
  have hitems := isPartialInv_readItems? isPartialInv_readLabel? hpieces (by decide : ',' ∉ [' '])
  simp only [toList_standardLabels]
  exact hitems.comp (isPartialInv_between? ['('] [')'])

/-- The number of the positions, their order and every one of them can be seen. -/
theorem standardLabels_injective : Function.Injective (standardLabels standardLabel) :=
  (isPartialInv_text isPartialInv_readLabels?).injective

theorem printable_intercalate {sep : List Char} {xs : List (List Char)} (hsep : Printable sep)
    (hxs : ∀ x ∈ xs, Printable x) : Printable (sep.intercalate xs) := by
  induction xs with
  | nil => exact Printable.nil
  | cons x xs ih =>
    have hx := hxs x List.mem_cons_self
    have hrest := ih fun y hy => hxs y (.tail x hy)
    cases xs with
    | nil => rwa [List.intercalate_singleton]
    | cons y ys =>
      rw [List.intercalate_cons_cons]
      exact Printable.append_iff.mpr ⟨Printable.append_iff.mpr ⟨hx, hsep⟩, hrest⟩

theorem printable_standardLabel (p : Int64) : Printable (standardLabel p).toList :=
  .of_subset (standardLabel_subset p) (by decide)

theorem printable_standardLabels (positions : List Int64) :
    Printable (standardLabels standardLabel positions).toList := by
  have hjoined : Printable
      ([',', ' '].intercalate (positions.map fun p => (standardLabel p).toList)) := by
    apply printable_intercalate (by decide)
    intro x hx
    obtain ⟨p, -, rfl⟩ := List.mem_map.mp hx
    exact printable_standardLabel p
  rw [toList_standardLabels]
  exact Printable.cons_iff.mpr ⟨by decide, Printable.append_iff.mpr ⟨hjoined, by decide⟩⟩

/-! ## Lines -/

/-- What a line shows of an operand: its text, or the reason why there is none. -/
def shownOperand (quoted : List UInt16 → String) : Except Error String → String
  | .ok text => text
  | .error e => marker quoted e

/-- The three fields of a line. -/
theorem text_standardLine (quoted : List UInt16 → String) (p : Parts) :
    (standardLine quoted p).text = "IL_" ++ Hex.atLeast 4 p.offset ++ ": " ++ mnemonicColumn p.mnemonic
      ++ " " ++ shownOperand quoted p.operand := by
  unfold standardLine
  cases p.operand with
  | ok text => rfl
  | error e => rfl

/-- Behind a mnemonic there is always a blank, the first of the filling or the one in front of the
    operand. -/
theorem toList_standardLine (quoted : List UInt16 → String) (p : Parts) :
    (standardLine quoted p).text.toList = 'I' :: 'L' :: '_' :: (Hex.atLeastDigits 4 p.offset ++
      ':' :: ' ' :: (p.mnemonic.toList ++
        ' ' :: (List.replicate (10 - p.mnemonic.length) ' ' ++ (shownOperand quoted p.operand).toList))) := by
  have hfilling (k : Nat) (cs : List Char) :
      List.replicate k ' ' ++ ' ' :: cs = ' ' :: (List.replicate k ' ' ++ cs) := by
    rw [← List.singleton_append, ← List.append_assoc, ← List.replicate_succ', List.replicate_succ]
    rfl
  rw [text_standardLine]
  simp [mnemonicColumn, hfilling]

/-- A line determines its parts, if the mnemonics have no blanks in them. -/
theorem standardLine_inj {quoted : List UInt16 → String} {p q : Parts}
    (hp : ' ' ∉ p.mnemonic.toList) (hq : ' ' ∉ q.mnemonic.toList)
    (h : (standardLine quoted p).text = (standardLine quoted q).text) :
    p.offset = q.offset ∧ p.mnemonic = q.mnemonic ∧
      shownOperand quoted p.operand = shownOperand quoted q.operand := by
  have hcolon := Hex.not_mem_atLeastDigits (c := ':') (by decide) 4
  have hchars := congrArg String.toList h
  rw [toList_standardLine, toList_standardLine] at hchars
  simp only [List.cons.injEq, true_and] at hchars
  -- the numeral ends at the colon, the mnemonic at the first blank
  obtain ⟨hdigits, hbehind⟩ := append_cons_inj (hcolon p.offset) (hcolon q.offset) hchars
  obtain ⟨hmnemonic, hoperand⟩ := append_cons_inj hp hq (List.cons.inj hbehind).2
  have hname : p.mnemonic = q.mnemonic := String.toList_inj.mp hmnemonic
  rw [hname] at hoperand
  exact ⟨Hex.atLeastDigits_inj hdigits, hname, String.toList_inj.mp (List.append_cancel_left hoperand)⟩

theorem printable_standardLine {quoted : List UInt16 → String} {p : Parts}
    (hmnemonic : Printable p.mnemonic.toList)
    (hoperand : Printable (shownOperand quoted p.operand).toList) :
    Printable (standardLine quoted p).text.toList := by
  have hoffset : Printable (Hex.atLeastDigits 4 p.offset) :=
    .of_subset (Hex.atLeastDigits_subset 4 p.offset) (by decide)
  have hfilling (k : Nat) : Printable (List.replicate k ' ') := by
    intro c hc
    rw [List.eq_of_mem_replicate hc]
    decide
  rw [toList_standardLine]
  simp [hoffset, hmnemonic, hoperand, hfilling]

end Style

/-- Lines with a line feed behind each are told apart, since there is none in a line. -/
theorem join_lines_inj {xs ys : List String} (hx : ∀ x ∈ xs, Printable x.toList)
    (hy : ∀ y ∈ ys, Printable y.toList)
    (h : String.join (xs.map (· ++ "\n")) = String.join (ys.map (· ++ "\n"))) : xs = ys := by
  have hjoin (zs : List String) : (String.join (zs.map (· ++ "\n"))).toList
      = (zs.map String.toList).flatMap fun z => z ++ ['\n'] := by
    rw [String.toList_join, List.flatMap_map, List.flatMap_map]
    simp
  have hnewline {zs : List String} (hz : ∀ z ∈ zs, Printable z.toList) :
      ∀ z ∈ zs.map String.toList, '\n' ∉ z := by
    intro z hmem
    obtain ⟨s, hs, rfl⟩ := List.mem_map.mp hmem
    exact (hz s hs).newline_not_mem
  have hchars := congrArg String.toList h
  rw [hjoin, hjoin] at hchars
  have hmap := flatMap_terminated_inj (hnewline hx) (hnewline hy) hchars
  exact (List.map_inj_right fun _ _ => String.toList_inj.mp).mp hmap

end Cil
