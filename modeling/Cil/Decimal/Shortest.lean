/-
  THE SHORTEST DECIMAL IN AN INTERVAL.

  A number is to be written with as few digits as possible such that a reader still recognises it.  The
  reader accepts an interval around the number, so the task is: of all decimals `c * 10 ^ j` in the
  interval take one with the fewest digits, and of those the nearest.

  Everything is a natural number here.  The caller picks a unit `10 ^ -p` so small that the number and
  both ends of its interval are whole multiples of it (see `Cil.Binary`), and passes the multiples.
  Fewest digits then means the coarsest grid, the largest `j`, of which some point lies in the interval.
  If any point of a grid does, so does one of the number's two neighbours on that grid, hence
  `onGrid?` looks at these two only, and `shortest` tries the grids from the coarsest on.  That it finds a
  decimal in the interval, and that no coarser grid has one, is `Window.shortest_coarsest`.
-/

namespace Cil.Decimal

/-- A number with the interval that is read back as it, in multiples of some unit. -/
structure Window where
  low : Nat
  value : Nat
  high : Nat
  /-- Whether the two ends belong to the interval. -/
  closed : Bool
deriving DecidableEq, Repr

/-- Whether `x` is read back as the number. -/
def Window.accepts (w : Window) (x : Nat) : Bool :=
  if w.closed then decide (w.low ≤ x) && decide (x ≤ w.high)
  else decide (w.low < x) && decide (x < w.high)

/-- The multiple of `10 ^ j` to write for the number, if its neighbours on that grid allow one: the
    nearer of the two, and the upper one when both are equally near. -/
def Window.onGrid? (w : Window) (j : Nat) : Option Nat :=
  let c := w.value / Nat.pow 10 j
  let lower := c * Nat.pow 10 j
  let upper := (c + 1) * Nat.pow 10 j
  if w.accepts lower && (!w.accepts upper || decide (w.value - lower < upper - w.value)) then some c
  else if w.accepts upper then some (c + 1)
  else none

/-- The answer on the coarsest grid from `10 ^ j` down to the unit that has one, as coefficient and
    power; the number itself when none has. -/
def Window.search (w : Window) : Nat → Nat × Nat
  | 0 => (w.value, 0)
  | j + 1 =>
    match w.onGrid? (j + 1) with
    | some c => (c, j + 1)
    | none => w.search j

/-- Coefficient `c` and power `j` of the shortest decimal `c * 10 ^ j` in the interval.  A grid wider
    than `high` has no point to offer but zero, so the search starts at one: three bits are less than
    one decimal digit. -/
def Window.shortest (w : Window) : Nat × Nat :=
  w.search (w.high.log2 / 3 + 1)

/-! ## No coarser grid -/

namespace Window

variable {w : Window}

/-- What is read back lies between the ends, and strictly between them if they do not count. -/
theorem accepts_iff {x : Nat} : w.accepts x = true ↔
    w.low ≤ x ∧ x ≤ w.high ∧ (w.closed = false → w.low < x ∧ x < w.high) := by
  unfold accepts
  cases w.closed with
  | true => simp
  | false =>
    simp only [Bool.false_eq_true, if_false, Bool.and_eq_true, decide_eq_true_eq, true_implies]
    omega

/-- Between two numbers that are read back as this one, every number is. -/
theorem accepts_of_between {a x b : Nat} (ha : w.accepts a = true) (hb : w.accepts b = true)
    (hax : a ≤ x) (hxb : x ≤ b) : w.accepts x = true := by
  obtain ⟨hlow, -, hlow'⟩ := accepts_iff.mp ha
  obtain ⟨-, hhigh, hhigh'⟩ := accepts_iff.mp hb
  exact accepts_iff.mpr ⟨Nat.le_trans hlow hax, Nat.le_trans hxb hhigh, fun hopen =>
    ⟨Nat.lt_of_lt_of_le (hlow' hopen).1 hax, Nat.lt_of_le_of_lt hxb (hhigh' hopen).2⟩⟩

/-- What a grid offers is read back as the number. -/
theorem accepts_of_onGrid? {c j : Nat} (h : w.onGrid? j = some c) :
    w.accepts (c * Nat.pow 10 j) = true := by
  unfold onGrid? at h
  dsimp only at h
  split at h
  · rename_i hlower
    cases h
    exact (Bool.and_eq_true _ _ ▸ hlower).1
  · split at h
    · rename_i hupper
      cases h
      exact hupper
    · cases h

/-- A grid with a point in the interval has one next to the number. -/
theorem exists_onGrid? (hw : w.accepts w.value = true) {c j : Nat}
    (h : w.accepts (c * Nat.pow 10 j) = true) : ∃ d, w.onGrid? j = some d := by
  have hpos : 0 < Nat.pow 10 j := Nat.pow_pos (by decide)
  have hlow : w.value / Nat.pow 10 j * Nat.pow 10 j ≤ w.value := Nat.div_mul_le_self _ _
  have hhigh : w.value ≤ (w.value / Nat.pow 10 j + 1) * Nat.pow 10 j :=
    Nat.le_of_lt (Nat.lt_mul_of_div_lt (Nat.lt_succ_self _) hpos)
  have hneighbour : w.accepts (w.value / Nat.pow 10 j * Nat.pow 10 j) = true ∨
      w.accepts ((w.value / Nat.pow 10 j + 1) * Nat.pow 10 j) = true := by
    rcases Nat.lt_or_ge (w.value / Nat.pow 10 j) c with hlt | hge
    · exact .inr (accepts_of_between hw h hhigh (Nat.mul_le_mul_right _ hlt))
    · exact .inl (accepts_of_between h hw (Nat.mul_le_mul_right _ hge) hlow)
  unfold onGrid?
  dsimp only
  split
  · exact ⟨_, rfl⟩
  · -- the lower neighbour is passed over for the upper one only
    rename_i hnot
    have hupper : w.accepts ((w.value / Nat.pow 10 j + 1) * Nat.pow 10 j) = true := by
      rcases hneighbour with hlower | hupper
      · cases hu : w.accepts ((w.value / Nat.pow 10 j + 1) * Nat.pow 10 j) with
        | true => rfl
        | false =>
          rw [hlower, hu] at hnot
          exact absurd rfl hnot
      · exact hupper
    exact ⟨_, if_pos hupper⟩

/-- Wherever the search ends, it is read back as the number. -/
theorem accepts_search (hw : w.accepts w.value = true) (j : Nat) :
    w.accepts ((w.search j).1 * Nat.pow 10 (w.search j).2) = true := by
  induction j with
  | zero =>
    show w.accepts (w.value * 1) = true
    rwa [Nat.mul_one]
  | succ j ih =>
    unfold search
    cases h : w.onGrid? (j + 1) with
    | none => exact ih
    | some c => exact accepts_of_onGrid? h

/-- The search stops no later than at a grid that has an answer. -/
theorem le_search {c j k : Nat} (hk : w.onGrid? k = some c) (hkj : k ≤ j) : k ≤ (w.search j).2 := by
  induction j with
  | zero => omega
  | succ j ih =>
    unfold search
    cases h : w.onGrid? (j + 1) with
    | some d => exact hkj
    | none =>
      have hne : k ≠ j + 1 := by
        rintro rfl
        cases h.symm.trans hk
      exact ih (by omega)

/-- The search starts beyond the interval. -/
theorem high_lt_start (w : Window) : w.high < Nat.pow 10 (w.high.log2 / 3 + 1) := by
  show w.high < 10 ^ (w.high.log2 / 3 + 1)
  have h8 : 8 ^ (w.high.log2 / 3 + 1) ≤ 10 ^ (w.high.log2 / 3 + 1) :=
    Nat.pow_le_pow_left (by decide) _
  have h2 : (8 : Nat) ^ (w.high.log2 / 3 + 1) = 2 ^ (3 * (w.high.log2 / 3 + 1)) := by
    rw [Nat.pow_mul]
  have hlog : w.high < 2 ^ (w.high.log2 + 1) := Nat.lt_log2_self
  have hmono : 2 ^ (w.high.log2 + 1) ≤ 2 ^ (3 * (w.high.log2 / 3 + 1)) :=
    Nat.pow_le_pow_right (by decide) (by omega)
  omega

/-- **The shortest decimal.**  Of a number that is read back as itself, `shortest` is read back as it too,
    and so is no point of a coarser grid but perhaps zero. -/
theorem shortest_coarsest (hw : w.accepts w.value = true) :
    w.accepts (w.shortest.1 * Nat.pow 10 w.shortest.2) = true ∧
    ∀ c j, 0 < c → w.accepts (c * Nat.pow 10 j) = true → j ≤ w.shortest.2 := by
  refine ⟨accepts_search hw _, fun c j hc h => ?_⟩
  obtain ⟨d, hd⟩ := exists_onGrid? hw h
  apply le_search hd
  -- a grid that is wider than the interval has no point in it
  have hpow : Nat.pow 10 j < Nat.pow 10 (w.high.log2 / 3 + 1) :=
    calc Nat.pow 10 j ≤ c * Nat.pow 10 j := Nat.le_mul_of_pos_left _ hc
      _ ≤ w.high := (accepts_iff.mp h).2.1
      _ < Nat.pow 10 (w.high.log2 / 3 + 1) := w.high_lt_start
  exact Nat.le_of_lt ((Nat.pow_lt_pow_iff_right (by decide)).mp hpow)

end Window

end Cil.Decimal
