import Cil.Proofs.Rendering
import Cil.Proofs.Tokens

/-
  WHAT A SCOPE ANSWERS, AND WHAT IT ANSWERS LATER.

  A push leaves the rows alone that are there (`Scope.lookup_append`).  So a token is answered in the same
  way for ever, with an entity or with a reason, once its row is reached; and before, the reason is always
  that there is no such row (`Scope.lookup_of_size_lt`).

  The text of an operand is made of one answer at most (`Listed.result_operandText_of_ok`), and a line of
  answers about one token (`Listed.result_lineIn_congr`).  So what holds of answers holds of texts and lines
  (`Scope.resolution_grows`).
-/

namespace Cil

/-! ## Rows that are reached -/

namespace Scope

/-- Of a row that is reached, row zero included, a push changes nothing. -/
theorem entry?_append {s : Scope} {t : Token} (h : t.row ≤ s.size) (e : Entry) :
    entry? (s.append e) t = s.entry? t := by
  unfold entry?
  split
  · rfl
  · rename_i row hrow
    have hlt : row < s.entries.size := by
      rw [hrow] at h
      exact h
    rw [append, Array.getElem?_push_lt hlt, Array.getElem?_eq_getElem hlt]

theorem entry?_of_size_lt {s : Scope} {t : Token} (h : s.size < t.row) : s.entry? t = none := by
  unfold entry?
  split
  · rfl
  · rename_i row hrow
    rw [hrow] at h
    exact Array.getElem?_eq_none (Nat.le_of_lt_succ h)

theorem lookup_append {s : Scope} {t : Token} (h : t.row ≤ s.size) (e : Entry) (c : Capability) :
    (s.append e).lookup c t = s.lookup c t := by
  unfold lookup
  rw [entry?_append h]

/-- A row that is not reached has no answer to anything. -/
theorem lookup_of_size_lt {s : Scope} {t : Token} (h : s.size < t.row) (c : Capability) :
    s.lookup c t = .error (.unresolved t c.word) := by
  rw [lookup, entry?_of_size_lt h, Option.bind_none]

/-- What has been answered with an entity is answered so for ever. -/
theorem lookup_append_of_ok {s : Scope} {t : Token} {c : Capability} {x : c.Entity}
    (h : s.lookup c t = .ok x) (e : Entry) : (s.append e).lookup c t = .ok x := by
  by_cases hrow : t.row ≤ s.size
  · rw [lookup_append hrow, h]
  · cases h.symm.trans (lookup_of_size_lt (Nat.lt_of_not_le hrow) c)

theorem lookup_pushAll {s : Scope} {t : Token} (h : t.row ≤ s.size) (es : List Entry) (c : Capability) :
    (s.pushAll es).2.lookup c t = s.lookup c t := by
  induction es generalizing s with
  | nil => rfl
  | cons e es ih =>
    have hrow : t.row ≤ (s.append e).size := by
      rw [size_append]
      omega
    exact (ih hrow).trans (lookup_append h e c)

theorem lookup_pushAll_of_ok {s : Scope} {t : Token} {c : Capability} {x : c.Entity}
    (h : s.lookup c t = .ok x) (es : List Entry) : (s.pushAll es).2.lookup c t = .ok x := by
  induction es generalizing s with
  | nil => exact h
  | cons e es ih => exact ih (lookup_append_of_ok h e)

end Scope

/-! ## Texts and lines -/

namespace Listed

variable {σ τ : Type}

/-- Where everything that was answered is answered again, a text that was given is given again. -/
theorem result_operandText_of_ok {l : Listed} {r : Resolver σ} (hr : r.member? = none) {r' : Resolver τ}
    (hr' : r'.member? = none) {w : World σ} {w' : World τ}
    (h : ∀ c t x, r.answer w.host c t = .ok x → r'.answer w'.host c t = .ok x)
    {text : String} {after : Listed} (htext : (l.operandText r).result w = .ok (.ok text, after)) :
    (l.operandText r').result w' = .ok (.ok text, after) := by
  by_cases hload : l.instruction.LoadsNoMember
  · obtain ⟨n, hn⟩ := (result_operandText_eq_error_iff hr w).mpr hload
    cases htext.symm.trans hn
  · rcases operandText_cases_byTable hload with ⟨-, s, hs⟩ | ⟨q, write, next, -, hasks⟩
    · rw [hs] at htext ⊢
      exact htext
    · rw [hasks r hr] at htext
      rw [hasks r' hr']
      change Except.ok ((r.answer w.host q.capability q.token).map write,
        next (r.answer w.host q.capability q.token)) = _ at htext
      show Except.ok ((r'.answer w'.host q.capability q.token).map write,
        next (r'.answer w'.host q.capability q.token)) = _
      cases hanswer : r.answer w.host q.capability q.token with
      | error e =>
        rw [hanswer] at htext
        cases htext
      | ok x =>
        rw [h _ _ x hanswer, ← hanswer]
        exact htext

end Listed

namespace Scope

/-- Questions leave a scope as it is. -/
theorem steady_resolver : Resolver.Steady resolver := Resolver.steady_of_byTable rfl fun _ _ _ => rfl

/-- **What is answered stays so.**  Whatever is pushed into a scope, the tokens whose rows it had reached
    before are answered as they were, with entities, with reasons, and where they name no member.  The
    others had no answer at all.  So a text that an operand had it keeps, and a line changes only if it is
    about a token whose row was not reached. -/
theorem resolution_grows (s : Scope) (es : List Entry) :
    let s' := (s.pushAll es).2
    (∀ t : Token, t.row ≤ s.size →
      (∀ c, s'.lookup c t = s.lookup c t) ∧ s'.lookup.member t = s.lookup.member t) ∧
    (∀ t : Token, s.size < t.row → ∀ c, s.lookup c t = .error (.unresolved t c.word)) ∧
    ∀ (l : Listed) (log log' : Array Record),
      (∀ text after, (l.operandText resolver).result ⟨s, log⟩ = .ok (.ok text, after) →
        (l.operandText resolver).result ⟨s', log'⟩ = .ok (.ok text, after)) ∧
      ∀ style, (l.lineIn resolver style).result ⟨s, log⟩ ≠ (l.lineIn resolver style).result ⟨s', log'⟩ →
        ∃ t, l.instruction.token? = some t ∧ s.size < t.row := by
  intro s'
  refine ⟨?_, fun t ht c => lookup_of_size_lt ht c, ?_⟩
  · intro t ht
    have hsame (c : Capability) : s'.lookup c t = s.lookup c t := lookup_pushAll ht es c
    exact ⟨hsame, Lookup.member_congr hsame⟩
  · intro l log log'
    constructor
    · intro text after htext
      refine Listed.result_operandText_of_ok rfl rfl (fun c t x hx => ?_) htext
      exact lookup_pushAll_of_ok (s := s) hx es
    · intro style hne
      -- were the row of its token reached, the line would be the same
      apply Classical.byContradiction
      intro hreached
      apply hne
      apply Listed.result_lineIn_congr steady_resolver steady_resolver
      apply Listed.answeredAlike_of_byTable rfl rfl
      intro t ht c
      have hrow : t.row ≤ s.size := Nat.le_of_not_lt fun hlt => hreached ⟨t, ht, hlt⟩
      exact (lookup_pushAll hrow es c).symm

/-- A string in the first row is there before and after a second one is pushed; the token of the second
    one had no answer before, and a line about it is what changes. -/
theorem resolution_grows_second_string :
    let s : Scope := ⟨#[.string [0x68]]⟩
    let s' := (s.pushAll [.string [0x69]]).2
    let load (t : Token) : Listed :=
      { instruction := ⟨0, ⟨0x72, "ldstr", .token (.entity .string)⟩, .token (.entity .string) t⟩
        style := .standard }
    s'.lookup .string ⟨0x70000001⟩ = s.lookup .string ⟨0x70000001⟩ ∧
    s.lookup .string ⟨0x70000002⟩ = .error (.unresolved ⟨0x70000002⟩ "string") ∧
    (∃ text after, ((load ⟨0x70000001⟩).operandText resolver).result ⟨s', #[]⟩ = .ok (.ok text, after)) ∧
    ((load ⟨0x70000002⟩).lineIn resolver .standard).result ⟨s, #[]⟩
      ≠ ((load ⟨0x70000002⟩).lineIn resolver .standard).result ⟨s', #[]⟩ ∧
    ∃ t, (load ⟨0x70000002⟩).instruction.token? = some t ∧ s.size < t.row := by
  intro s s' load
  obtain ⟨hreached, hbeyond, hshown⟩ := resolution_grows s [.string [0x69]]
  have hchanged : ((load ⟨0x70000002⟩).lineIn resolver .standard).result ⟨s, #[]⟩
      ≠ ((load ⟨0x70000002⟩).lineIn resolver .standard).result ⟨s', #[]⟩ := by
    intro h
    have hline := congrArg (fun line => line.toOption.map Prod.fst) h
    revert hline
    decide +kernel
  exact ⟨(hreached ⟨0x70000001⟩ (by decide)).1 .string, hbeyond ⟨0x70000002⟩ (by decide) .string,
    ⟨_, _, (hshown (load ⟨0x70000001⟩) #[] #[]).1 _ _ rfl⟩, hchanged,
    (hshown (load ⟨0x70000002⟩) #[] #[]).2 .standard hchanged⟩

end Scope

end Cil
