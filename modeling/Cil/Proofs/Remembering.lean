import Cil.Proofs.Invariant
import Cil.Proofs.Rendering

/-
  SIGNATURES ARE FETCHED ONCE.

  An instruction that calls through a signature asks for it when it is first needed, and remembers the
  answer.  The resolver may answer differently each time, so it matters when it is asked, and by which
  instruction.

  The operand, the signature and a line that comes about in the standard way need the signature once
  (`Listed.FetchesOnce`).  A line that comes about otherwise may need it never or many times, and as long
  as there is no answer it asks each time (`Resolver.fetch`).  `Listed.Minds` says once what all of them do
  about it: they ask for a signature that is still wanted, keep the answer, and otherwise leave the
  instruction alone.  From it follows what a command of a session can do to the instructions that are kept
  (`Session.kept_run_cases`), and what every run of commands does.
-/

namespace Cil

/-! ## Asking for a signature -/

namespace Resolver

variable {σ : Type}

/-- The host after the signature of a token was asked for `n` times. -/
def hostAfterTimes (r : Resolver σ) (host : σ) (t : Token) : Nat → σ
  | 0 => host
  | n + 1 => r.hostAfterTimes (r.hostAfter host .signature t) t n

/-- Asks for the signature of a token until it is answered, `n` times at most: what there is to remember
    then, and the host. -/
def fetch (r : Resolver σ) (t : Token) : Nat → σ → Option Bytes × σ
  | 0, host => (none, host)
  | n + 1, host =>
    match r.answer host .signature t with
    | .ok bytes => (some bytes, r.hostAfter host .signature t)
    | .error _ => r.fetch t n (r.hostAfter host .signature t)

/-- The first request that is answered is the last one that is put. -/
theorem fetch_of_ok {r : Resolver σ} {t : Token} {host : σ} {bytes : Bytes}
    (h : r.answer host .signature t = .ok bytes) (n : Nat) :
    r.fetch t (n + 1) host = (some bytes, r.hostAfter host .signature t) := by
  rw [fetch, h]

/-- A request that fails leaves the others to put. -/
theorem fetch_of_error {r : Resolver σ} {t : Token} {host : σ} {e : Error}
    (h : r.answer host .signature t = .error e) (n : Nat) :
    r.fetch t (n + 1) host = r.fetch t n (r.hostAfter host .signature t) := by
  rw [fetch, h]

theorem fetch_one (r : Resolver σ) (t : Token) (host : σ) :
    r.fetch t 1 host = ((r.answer host .signature t).toOption, r.hostAfter host .signature t) := by
  cases h : r.answer host .signature t with
  | ok bytes => exact fetch_of_ok h 0
  | error e => exact fetch_of_error h 0

/-- Where it has not been answered so far, it is asked for again. -/
theorem fetch_add_of_none {r : Resolver σ} {t : Token} {m : Nat} {host : σ} (n : Nat)
    (h : (r.fetch t m host).1 = none) : r.fetch t (m + n) host = r.fetch t n (r.fetch t m host).2 := by
  induction m generalizing host with
  | zero => rw [Nat.zero_add]; rfl
  | succ m ih =>
    cases hanswer : r.answer host .signature t with
    | ok bytes =>
      rw [fetch_of_ok hanswer] at h
      cases h
    | error e =>
      rw [fetch_of_error hanswer] at h
      rw [Nat.succ_add, fetch_of_error hanswer, fetch_of_error hanswer, ih h]

/-- What there is to remember was answered, behind requests that failed. -/
theorem fetch_eq_some {r : Resolver σ} {t : Token} {n : Nat} {host : σ} {bytes : Bytes}
    (h : (r.fetch t n host).1 = some bytes) :
    ∃ m, (∀ k < m, ∃ e, r.answer (r.hostAfterTimes host t k) .signature t = .error e) ∧
      r.answer (r.hostAfterTimes host t m) .signature t = .ok bytes ∧
      (r.fetch t n host).2 = r.hostAfterTimes host t (m + 1) := by
  induction n generalizing host with
  | zero => cases h
  | succ n ih =>
    cases hanswer : r.answer host .signature t with
    | ok first =>
      rw [fetch_of_ok hanswer] at h ⊢
      cases h
      exact ⟨0, nofun, hanswer, rfl⟩
    | error e =>
      rw [fetch_of_error hanswer] at h ⊢
      obtain ⟨m, hfailed, hlast, hhost⟩ := ih h
      refine ⟨m + 1, fun k hk => ?_, hlast, hhost⟩
      cases k with
      | zero => exact ⟨e, hanswer⟩
      | succ k => exact hfailed k (Nat.lt_of_succ_lt_succ hk)

/-- However often the signature is needed, it is asked for some number of times. -/
theorem exists_host_fetch (r : Resolver σ) (t : Token) (n : Nat) (host : σ) :
    ∃ m, (r.fetch t n host).2 = r.hostAfterTimes host t m := by
  induction n generalizing host with
  | zero => exact ⟨0, rfl⟩
  | succ n ih =>
    cases hanswer : r.answer host .signature t with
    | ok bytes =>
      rw [fetch_of_ok hanswer]
      exact ⟨1, rfl⟩
    | error e =>
      rw [fetch_of_error hanswer]
      obtain ⟨m, hm⟩ := ih (r.hostAfter host .signature t)
      exact ⟨m + 1, hm⟩

/-- A steady host does not notice how often it is asked. -/
theorem Steady.hostAfterTimes_eq {r : Resolver σ} (hr : r.Steady) (host : σ) (t : Token) (n : Nat) :
    r.hostAfterTimes host t n = host := by
  induction n with
  | zero => rfl
  | succ n ih => rw [hostAfterTimes, hr.hostAfter_eq, ih]

/-- A resolver that records has written the requests down, and otherwise behaves as before. -/
theorem hostAfterTimes_recording (r : Resolver σ) (host : σ) (record : Array Request) (t : Token) (n : Nat) :
    r.recording.hostAfterTimes (host, record) t n
      = (r.hostAfterTimes host t n, record ++ Array.replicate n ⟨.signature, t⟩) := by
  induction n generalizing host record with
  | zero => simp [hostAfterTimes]
  | succ n ih =>
    show r.recording.hostAfterTimes (r.hostAfter host .signature t, record.push ⟨.signature, t⟩) t n = _
    have hrecord : record.push ⟨.signature, t⟩ ++ Array.replicate n ⟨.signature, t⟩
        = record ++ Array.replicate (n + 1) ⟨.signature, t⟩ := by
      apply Array.ext'
      simp [List.replicate_succ]
    rw [ih, hrecord]
    rfl

end Resolver

/-- Between two sessions the signature of a token was asked for `n` times, and nothing else was. -/
def Session.AskedFor {σ : Type} (r : Resolver σ) (t : Token) (n : Nat)
    (s s' : Session (σ × Array Request)) : Prop :=
  s'.world.host =
    (r.hostAfterTimes s.world.host.1 t n, s.world.host.2 ++ Array.replicate n ⟨.signature, t⟩)

namespace Listed

variable {σ α β : Type}

/-! ## One instruction -/

/-- An operation on an instruction asks for a signature that is wanted once, and for nothing else. -/
def FetchesOnce (r : Resolver σ) (l : Listed) (x : Render σ (α × Listed)) : Prop :=
  ∀ t, l.Wants t → ∀ w, ∃ a w',
    x.run.run w = (.ok (a, l.answered (r.answer w.host .signature t)), w') ∧
      w'.host = r.hostAfter w.host .signature t

/-- What an operation on an instruction does about its signature. -/
structure Minds (r : Resolver σ) (l : Listed) (x : Render σ (α × Listed)) : Prop where
  /-- One that is wanted is asked for until it is there, as often as it is needed, and nothing else is. -/
  fetches : ∀ t, l.Wants t → ∀ w, ∃ n a w',
    x.run.run w = (.ok (a, { l with signature? := (r.fetch t n w.host).1 }), w') ∧
      w'.host = (r.fetch t n w.host).2
  /-- Where one is remembered there is nothing to ask for. -/
  quiet : ∀ bytes t, l.signature? = some bytes → l.instruction.operand = .token (.entity .signature) t →
    ∀ w, ∃ a w', x.run.run w = (.ok (a, l), w') ∧ w'.host = w.host
  /-- Other instructions stay as they are. -/
  keeps : (∀ t, l.instruction.operand ≠ .token (.entity .signature) t) → ∀ w,
    (∃ a w', x.run.run w = (.ok (a, l), w')) ∨ ∃ n w', x.run.run w = (.error n, w')

/-- Where no signature is wanted, the instruction stays as it is. -/
theorem Minds.keeps_of_not_wants {r : Resolver σ} {l : Listed} {x : Render σ (α × Listed)}
    (h : Minds r l x) (hwants : ∀ t, ¬ l.Wants t) (w : World σ) :
    (∃ a w', x.run.run w = (.ok (a, l), w')) ∨ ∃ n w', x.run.run w = (.error n, w') := by
  by_cases hother : ∃ t, l.instruction.operand = .token (.entity .signature) t
  · obtain ⟨t, ho⟩ := hother
    obtain ⟨bytes, hs⟩ := Option.ne_none_iff_exists'.mp fun hnone => hwants t ⟨hnone, ho⟩
    obtain ⟨a, w', hx, -⟩ := h.quiet bytes t hs ho w
    exact .inl ⟨a, w', hx⟩
  · exact h.keeps (not_exists.mp hother) w

/-- One operation after another: the second one still asks if the first one got no answer. -/
theorem Minds.bind {r : Resolver σ} {l : Listed} {x : Render σ (α × Listed)}
    {k : α × Listed → Render σ (β × Listed)} (h : Minds r l x) (hk : ∀ a l', Minds r l' (k (a, l'))) :
    Minds r l (x >>= k) where
  fetches t ht w := by
    obtain ⟨m, a, w₁, hx, hhost⟩ := h.fetches t ht w
    cases hfetched : (r.fetch t m w.host).1 with
    | none =>
      have hstill : { l with signature? := none } = l := by rw [← ht.1]
      rw [hfetched, hstill] at hx
      obtain ⟨n, b, w₂, hk', hhost'⟩ := (hk a l).fetches t ht w₁
      rw [hhost, ← Resolver.fetch_add_of_none n hfetched] at hk' hhost'
      exact ⟨m + n, b, w₂, (Render.run_bind_of_ok hx).trans hk', hhost'⟩
    | some bytes =>
      rw [hfetched] at hx
      obtain ⟨b, w₂, hk', hhost'⟩ := (hk a { l with signature? := some bytes }).quiet bytes t rfl ht.2 w₁
      refine ⟨m, b, w₂, ?_, hhost'.trans hhost⟩
      rw [hfetched]
      exact (Render.run_bind_of_ok hx).trans hk'
  quiet bytes t hs ho w := by
    obtain ⟨a, w₁, hx, hhost⟩ := h.quiet bytes t hs ho w
    obtain ⟨b, w₂, hk', hhost'⟩ := (hk a l).quiet bytes t hs ho w₁
    exact ⟨b, w₂, (Render.run_bind_of_ok hx).trans hk', hhost'.trans hhost⟩
  keeps hother w := by
    rcases h.keeps hother w with ⟨a, w₁, hx⟩ | ⟨n, w₁, hx⟩
    · rw [Render.run_bind_of_ok hx]
      exact (hk a l).keeps hother w₁
    · exact .inr ⟨n, w₁, Render.run_bind_of_error hx⟩

/-- A record is nothing to the instruction. -/
theorem Minds.report {r : Resolver σ} {l : Listed} {x : Render σ (α × Listed)} (h : Minds r l x)
    (records : Array Record) : Minds r l (Render.report records >>= fun _ => x) where
  fetches t ht w := h.fetches t ht { w with log := w.log ++ records }
  quiet bytes t hs ho w := h.quiet bytes t hs ho { w with log := w.log ++ records }
  keeps hother w := h.keeps hother { w with log := w.log ++ records }

/-- What follows an operation and has no business with the instruction. -/
def PassesOn (k : α × Listed → Render σ (β × Listed)) : Prop :=
  ∀ a l w, ∃ b w', (k (a, l)).run.run w = (.ok (b, l), w') ∧ w'.host = w.host

/-- What passes the instruction on asks nothing. -/
theorem PassesOn.minds {k : α × Listed → Render σ (β × Listed)} (h : PassesOn k) (r : Resolver σ) (a : α)
    (l : Listed) : Minds r l (k (a, l)) where
  fetches t ht w := by
    obtain ⟨b, w', hk, hhost⟩ := h a l w
    have hstill : { l with signature? := none } = l := by rw [← ht.1]
    refine ⟨0, b, w', ?_, hhost⟩
    rw [hk]
    exact congrArg (fun l => (Except.ok (b, l), w')) hstill.symm
  quiet _ _ _ _ w := h a l w
  keeps _ w := by
    obtain ⟨b, w', hk, -⟩ := h a l w
    exact .inl ⟨b, w', hk⟩

/-- What comes behind the request and only passes the instruction on does not disturb it. -/
theorem FetchesOnce.bind {r : Resolver σ} {l : Listed} {x : Render σ (α × Listed)}
    {k : α × Listed → Render σ (β × Listed)} (h : FetchesOnce r l x) (hk : PassesOn k) :
    FetchesOnce r l (x >>= k) := by
  intro t ht w
  obtain ⟨a, w₁, hx, hhost⟩ := h t ht w
  obtain ⟨b, w₂, hk', hhost'⟩ := hk a (l.answered (r.answer w.host .signature t)) w₁
  exact ⟨b, w₂, (Render.run_bind_of_ok hx).trans hk', hhost'.trans hhost⟩

/-- To ask once is one way to ask. -/
theorem FetchesOnce.fetches {r : Resolver σ} {l : Listed} {x : Render σ (α × Listed)}
    (h : FetchesOnce r l x) (t : Token) (ht : l.Wants t) (w : World σ) :
    ∃ n a w', x.run.run w = (.ok (a, { l with signature? := (r.fetch t n w.host).1 }), w') ∧
      w'.host = (r.fetch t n w.host).2 := by
  obtain ⟨a, w', hx, hhost⟩ := h t ht w
  refine ⟨1, a, w', ?_, ?_⟩
  · rw [r.fetch_one]
    exact hx
  · rw [r.fetch_one]
    exact hhost

theorem fetchesOnce_signature (r : Resolver σ) (l : Listed) : FetchesOnce r l (l.signature r) := by
  intro t ht w
  rw [signature_of_wants ht]
  exact ⟨_, _, rfl, rfl⟩

theorem minds_signature (r : Resolver σ) (l : Listed) : Minds r l (l.signature r) where
  fetches := (fetchesOnce_signature r l).fetches
  quiet bytes t hs _ w := by
    rw [signature_of_some hs]
    exact ⟨_, _, rfl, rfl⟩
  keeps hother w := by
    rcases l.signature_cases with ⟨answer, hanswer⟩ | ⟨t, ht, -⟩
    · rw [hanswer]
      exact .inl ⟨_, _, rfl⟩
    · exact absurd ht.2 (hother t)

/-- Where the operand is a signature, its text is made of it. -/
theorem exists_passesOn {l : Listed} {t : Token} (ho : l.instruction.operand = .token (.entity .signature) t)
    (r : Resolver σ) :
    ∃ k : Except Error Bytes × Listed → Render σ (Except Error String × Listed), PassesOn k ∧
      l.operandText r = l.signature r >>= k := by
  unfold operandText
  rw [ho]
  exact ⟨_, fun _ _ _ => ⟨_, _, rfl, rfl⟩, rfl⟩

/-- The text of an operand needs the signature once. -/
theorem fetchesOnce_operandText (r : Resolver σ) (l : Listed) : FetchesOnce r l (l.operandText r) := by
  intro t ht
  obtain ⟨k, hk, htext⟩ := exists_passesOn ht.2 r
  rw [htext]
  exact (fetchesOnce_signature r l).bind hk t ht

theorem minds_operandText (r : Resolver σ) (l : Listed) : Minds r l (l.operandText r) where
  fetches := (fetchesOnce_operandText r l).fetches
  quiet bytes t hs ho := by
    obtain ⟨k, hk, htext⟩ := exists_passesOn ho r
    rw [htext]
    exact ((minds_signature r l).bind (hk.minds r)).quiet bytes t hs ho
  keeps hother w := by
    rcases l.operandText_cases with ⟨-, s, htext⟩ | ⟨c, t, ho, htext⟩ | ⟨t, -, htext⟩
    · rw [htext]
      exact .inl ⟨_, _, rfl⟩
    · have hsame (answer : Except Error c.Entity) : l.told c answer = l := by
        cases c with
        | signature => exact absurd ho (hother t)
        | _ => rfl
      rw [htext]
      exact .inl ⟨_, _, by simp only [hsame]; rfl⟩
    · -- a token that names no member is what makes a rendering be given up
      rw [htext]
      rcases hfound : (Render.askMember r t).run.run w with ⟨n | found, w'⟩
      · exact .inr ⟨n, w', Render.run_bind_of_error hfound⟩
      · exact .inl ⟨_, w', Render.run_bind_of_ok hfound⟩

/-- However a line comes about, it minds the signature. -/
theorem minds_write (r : Resolver σ) (writing : Writing) (l : Listed) : Minds r l (l.write r writing) := by
  induction writing generalizing l with
  | done text =>
    have hdone : PassesOn fun x : String × Listed => (pure x : Render σ (String × Listed)) :=
      fun _ _ _ => ⟨_, _, rfl, rfl⟩
    exact hdone.minds r text l
  | report records next ih => exact (ih l).report records
  | operand next ih => exact (minds_operandText r l).bind fun operand l' => ih operand l'
  | signature next ih => exact (minds_signature r l).bind fun answer l' => ih answer l'

/-- A line of any style minds what is remembered, however often it asks. -/
theorem minds_lineIn (r : Resolver σ) (style : Style) (l : Listed) : Minds r l (l.lineIn r style) :=
  minds_write r (style.line l.view) l

/-- A standard line needs the signature once. -/
theorem fetchesOnce_lineIn {style : Style} (h : style.StandardLines) (r : Resolver σ) (l : Listed) :
    FetchesOnce r l (l.lineIn r style) := by
  rw [lineIn_of_standardLines h]
  exact (fetchesOnce_operandText r l).bind fun _ _ _ => ⟨_, _, rfl, rfl⟩

end Listed

/-! ## What is decoded remembers nothing -/

namespace Decoder

/-- An instruction that has just been decoded remembers nothing. -/
theorem signature?_of_next {d : Decoder} {l : Listed} (h : d.next.item = some (.ok l)) :
    l.signature? = none := by
  rcases d.next_cases with ⟨-, hn⟩ | ⟨-, i, rest, hread, hn⟩ | ⟨-, -, e, -, hn⟩
  all_goals
    rw [hn] at h
    cases h
  rfl

theorem signature?_of_mem_walkFrom (d : Decoder) (gathered : Array Listed) (log : Array Record)
    (h : ∀ l ∈ gathered, l.signature? = none) :
    ∀ l ∈ (d.walkFrom gathered log).instructions, l.signature? = none := by
  fun_induction walkFrom d gathered log with
  | case1 d gathered log l after records hnext _ ih =>
    refine ih fun l' hl' => ?_
    rcases Array.mem_push.mp hl' with hl' | rfl
    · exact h l' hl'
    · exact signature?_of_next (by rw [hnext])
  | case2 => simpa using h
  | case3 => simpa using h

/-- None of the instructions of a walk remembers anything. -/
theorem signature?_of_mem_drain (d : Decoder) : ∀ l ∈ d.drain.instructions, l.signature? = none :=
  d.signature?_of_mem_walkFrom #[] #[] (by simp)

end Decoder

namespace Session

variable {σ : Type}

/-! ## One command -/

/-- The kept instruction that a command is about. -/
def Command.on? : Command → Option Nat
  | .line i | .lineIn i _ | .operand i | .raw i | .signature i | .inspect i | .copy i | .restyle i _
  | .label i _ | .compare i _ => some i
  | _ => none

/-- The kept instruction of which a command needs the operand or the signature. -/
def Command.renders? : Command → Option Nat
  | .line i | .lineIn i _ | .operand i | .signature i => some i
  | _ => none

theorem Command.on?_of_renders? {c : Command} {i : Nat} (h : c.renders? = some i) : c.on? = some i := by
  cases c with
  | line | lineIn | operand | signature => exact h
  | _ => cases h

/-- The command is sure to need the operand or the signature of kept instruction `i`, and once: it says so,
    or it is about a line that comes about in the standard way. -/
def Command.Needs (i : Nat) (l : Listed) : Command → Prop
  | .operand j | .signature j => j = i
  | .line j => j = i ∧ l.style.StandardLines
  | .lineIn j style => j = i ∧ style.StandardLines
  | _ => False

theorem Command.Needs.renders? {c : Command} {i : Nat} {l : Listed} (h : c.Needs i l) :
    c.renders? = some i := by
  cases c with
  | operand | signature => exact congrArg some h
  | line | lineIn => exact congrArg some h.1
  | _ => exact h.elim

/-- The four ways to render an instruction mind its signature alike. -/
theorem exists_render (r : Resolver σ) {c : Command} {i : Nat} (h : c.renders? = some i) :
    ∃ render : Listed → Render σ (Reply × Listed),
      (∀ l, Listed.Minds r l (render l)) ∧ (∀ l, c.Needs i l → Listed.FetchesOnce r l (render l)) ∧
      ∀ s : Session σ, s.run r c = s.renderKept i render := by
  have hreply {α : Type} (f : α → Reply) :
      Listed.PassesOn fun x : α × Listed => (return x.map f id : Render σ (Reply × Listed)) :=
    fun _ _ _ => ⟨_, _, rfl, rfl⟩
  cases c with
  | line =>
    cases h
    exact ⟨_, fun l => (l.minds_lineIn r l.style).bind ((hreply .text).minds r),
      fun l hneeds => (Listed.fetchesOnce_lineIn hneeds.2 r l).bind (hreply .text), fun _ => rfl⟩
  | lineIn _ style =>
    cases h
    exact ⟨_, fun l => (l.minds_lineIn r style).bind ((hreply .text).minds r),
      fun l hneeds => (Listed.fetchesOnce_lineIn hneeds.2 r l).bind (hreply .text), fun _ => rfl⟩
  | operand =>
    cases h
    exact ⟨_, fun l => (l.minds_operandText r).bind ((hreply .ofText).minds r),
      fun l _ => (l.fetchesOnce_operandText r).bind (hreply .ofText), fun _ => rfl⟩
  | signature =>
    cases h
    exact ⟨_, fun l => (l.minds_signature r).bind ((hreply .ofBytes).minds r),
      fun l _ => (l.fetchesOnce_signature r).bind (hreply .ofBytes), fun _ => rfl⟩
  | _ => cases h

@[simp] theorem withKept_snd (s : Session σ) (index : Nat) (look : Listed → Reply) :
    (s.withKept index look).2 = s := by
  unfold withKept
  split <;> rfl

@[simp] theorem kept_renderBody {α : Type} (s : Session σ) (render : Render σ (Except DecodeError α))
    (reply : α → Reply) : (s.renderBody render reply).2.kept = s.kept := by
  unfold renderBody
  split
  dsimp only
  split <;> rfl

/-- A rendering of a kept instruction puts the instruction back as it is left. -/
theorem renderKept_of_run {s : Session σ} {i : Nat} {l : Listed} (h : s.kept[i]? = some l)
    (render : Listed → Render σ (Reply × Listed)) {reply : Reply} {l' : Listed} {w : World σ}
    (hrun : (render l).run.run s.world = (.ok (reply, l'), w)) :
    s.renderKept i render = (reply, { s with kept := s.kept.setIfInBounds i l', world := w }) := by
  unfold renderKept
  rw [h]
  dsimp only
  rw [hrun]

theorem setIfInBounds_self {xs : Array Listed} {i : Nat} {l : Listed} (h : xs[i]? = some l) :
    xs.setIfInBounds i l = xs := by
  apply Array.ext_getElem?
  intro j
  rw [Array.getElem?_setIfInBounds]
  split
  · next hij =>
    subst hij
    obtain ⟨hi, -⟩ := Array.getElem?_eq_some_iff.mp h
    rw [if_pos hi, h]
  · rfl

/-- A signature that is wanted is asked for as often as it is needed, and the answer is kept. -/
theorem run_of_wants (r : Resolver σ) {s : Session σ} {c : Command} {i : Nat} {l : Listed} {t : Token}
    (hc : c.renders? = some i) (hl : s.kept[i]? = some l) (ht : l.Wants t) :
    ∃ n, (s.run r c).2.kept
        = s.kept.setIfInBounds i { l with signature? := (r.fetch t n s.world.host).1 } ∧
      (s.run r c).2.world.host = (r.fetch t n s.world.host).2 := by
  obtain ⟨render, hminds, -, hrun⟩ := exists_render r hc
  obtain ⟨n, reply, w, hrender, hhost⟩ := (hminds l).fetches t ht s.world
  rw [hrun, renderKept_of_run hl render hrender]
  exact ⟨n, rfl, hhost⟩

/-- Who needs it once asks for it once. -/
theorem run_of_needs (r : Resolver σ) {s : Session σ} {c : Command} {i : Nat} {l : Listed} {t : Token}
    (hc : c.Needs i l) (hl : s.kept[i]? = some l) (ht : l.Wants t) :
    (s.run r c).2.kept = s.kept.setIfInBounds i (l.answered (r.answer s.world.host .signature t)) ∧
    (s.run r c).2.world.host = r.hostAfter s.world.host .signature t := by
  obtain ⟨render, -, honce, hrun⟩ := exists_render r hc.renders?
  obtain ⟨reply, w, hrender, hhost⟩ := honce l hc t ht s.world
  rw [hrun, renderKept_of_run hl render hrender]
  exact ⟨rfl, hhost⟩

/-- Where none is wanted, rendering changes no instruction. -/
theorem kept_run_of_not_wants (r : Resolver σ) {s : Session σ} {c : Command} {i : Nat}
    (hc : c.renders? = some i) (h : ∀ l, s.kept[i]? = some l → ∀ t, ¬ l.Wants t) :
    (s.run r c).2.kept = s.kept := by
  obtain ⟨render, hminds, -, hrun⟩ := exists_render r hc
  rw [hrun]
  cases hl : s.kept[i]? with
  | none =>
    unfold renderKept
    rw [hl]
  | some l =>
    rcases (hminds l).keeps_of_not_wants (h l hl) s.world with ⟨reply, w, hrender⟩ | ⟨n, w, hrender⟩
    · rw [renderKept_of_run hl render hrender]
      exact setIfInBounds_self hl
    · unfold renderKept
      rw [hl]
      dsimp only
      rw [hrender]

/-- About an instruction that remembers its signature nothing is asked. -/
theorem host_run_of_some (r : Resolver σ) {s : Session σ} {c : Command} {i : Nat} {l : Listed}
    {bytes : Bytes} {t : Token} (hc : c.on? = some i) (hl : s.kept[i]? = some l)
    (hs : l.signature? = some bytes) (ho : l.instruction.operand = .token (.entity .signature) t) :
    (s.run r c).2.world.host = s.world.host := by
  cases hr : c.renders? with
  | some j =>
    cases hc.symm.trans (Command.on?_of_renders? hr)
    obtain ⟨render, hminds, -, hrun⟩ := exists_render r hr
    obtain ⟨reply, w, hrender, hhost⟩ := (hminds l).quiet bytes t hs ho s.world
    rw [hrun, renderKept_of_run hl render hrender]
    exact hhost
  | none =>
    cases c with
    | raw | inspect | label | compare => simp [run]
    | copy | restyle =>
      unfold run
      dsimp only
      split <;> rfl
    | line | lineIn | operand | signature => cases hr
    | _ => cases hc

/-- A command leaves what instruction `i` remembers as it is, or fetches the signature that it wants. -/
def Updates (r : Resolver σ) (s : Session σ) (c : Command) (i : Nat) (l l' : Listed) : Prop :=
  l'.instruction = l.instruction ∧
    (l'.signature? = l.signature? ∨ ∃ t n, c.renders? = some i ∧ l.Wants t ∧
      (s.run r c).2.world.host = (r.fetch t n s.world.host).2 ∧
      l'.signature? = (r.fetch t n s.world.host).1)

/-- What a walk adds remembers nothing. -/
theorem kept_keepWalk {s : Session σ} {walk : Decoder.Walk}
    (h : ∀ l ∈ walk.instructions, l.signature? = none) :
    ∃ ls : Array Listed, (s.keepWalk walk).2.kept = s.kept ++ ls ∧ ∀ l ∈ ls, l.signature? = none := by
  unfold keepWalk Decoder.Walk.outcome
  cases walk.stop? with
  | none => exact ⟨walk.instructions.toArray, Array.ext' (by simp [report]), by simpa using h⟩
  | some e => exact ⟨#[], by simp [report], by simp⟩

/-- **What a command does to the kept instructions.**  It updates one of them, or adds some that
    remember nothing or are copies. -/
theorem kept_run_cases (r : Resolver σ) (s : Session σ) (c : Command) :
    (∃ i l l', s.kept[i]? = some l ∧ (s.run r c).2.kept = s.kept.setIfInBounds i l' ∧
      Updates r s c i l l') ∨
    ∃ ls : Array Listed, (s.run r c).2.kept = s.kept ++ ls ∧
      ∀ l ∈ ls, l.signature? = none ∨ ∃ i, c = .copy i ∧ s.kept[i]? = some l := by
  -- most commands add nothing
  have hsame (h : (s.run r c).2.kept = s.kept) : ∃ ls : Array Listed, (s.run r c).2.kept = s.kept ++ ls ∧
      ∀ l ∈ ls, l.signature? = none ∨ ∃ i, c = .copy i ∧ s.kept[i]? = some l :=
    ⟨#[], by rw [h, Array.append_empty], by simp⟩
  cases hc : c.renders? with
  | some i =>
    by_cases h : ∃ l t, s.kept[i]? = some l ∧ l.Wants t
    · obtain ⟨l, t, hl, ht⟩ := h
      obtain ⟨n, hkept, hhost⟩ := run_of_wants r hc hl ht
      exact .inl ⟨i, l, _, hl, hkept, rfl, .inr ⟨t, n, hc, ht, hhost, rfl⟩⟩
    · exact .inr (hsame (kept_run_of_not_wants r hc fun l hl t ht => h ⟨l, t, hl, ht⟩))
  | none =>
    cases c with
    | line | lineIn | operand | signature => cases hc
    | next =>
      cases hitem : s.decoder.next.item with
      | none => exact .inr (hsame (by simp [run, hitem, report]))
      | some item =>
        cases item with
        | error e => exact .inr (hsame (by simp [run, hitem, report]))
        | ok l =>
          right
          refine ⟨#[l], by simp [run, hitem, report], fun l' hl' => .inl ?_⟩
          cases Array.mem_singleton.mp hl'
          exact Decoder.signature?_of_next hitem
    | drain =>
      obtain ⟨ls, hkept, hls⟩ := kept_keepWalk (s := s) s.decoder.signature?_of_mem_drain
      exact .inr ⟨ls, hkept, fun l hl => .inl (hls l hl)⟩
    | decodeAll =>
      have hnone : ∀ l ∈ s.decoder.decodeAll.instructions, l.signature? = none :=
        s.decoder.reset.signature?_of_mem_drain
      obtain ⟨ls, hkept, hls⟩ := kept_keepWalk (s := s) hnone
      exact .inr ⟨ls, hkept, fun l hl => .inl (hls l hl)⟩
    | copy i =>
      cases hl : s.kept[i]? with
      | none => exact .inr (hsame (by simp [run, hl]))
      | some l =>
        right
        refine ⟨#[l], by simp [run, hl], fun l' hl' => .inr ⟨i, rfl, ?_⟩⟩
        cases Array.mem_singleton.mp hl'
        exact hl
    | restyle i style =>
      cases hl : s.kept[i]? with
      | none => exact .inr (hsame (by simp [run, hl]))
      | some l => exact .inl ⟨i, l, { l with style }, hl, by simp [run, hl], rfl, .inl rfl⟩
    | _ => exact .inr (hsame (by simp [run]))

/-- **One command.**  Whatever the command, a kept instruction stays where it is and is updated. -/
theorem exists_updates (r : Resolver σ) {s : Session σ} {i : Nat} {l : Listed} (h : s.kept[i]? = some l)
    (c : Command) : ∃ l', (s.run r c).2.kept[i]? = some l' ∧ Updates r s c i l l' := by
  have hi : i < s.kept.size := (Array.getElem?_eq_some_iff.mp h).1
  rcases s.kept_run_cases r c with ⟨j, m, m', hm, hkept, hupdates⟩ | ⟨ls, hkept, -⟩
  · by_cases hij : j = i
    · subst hij
      cases h.symm.trans hm
      exact ⟨m', by rw [hkept, Array.getElem?_setIfInBounds_self_of_lt hi], hupdates⟩
    · exact ⟨l, by rw [hkept, Array.getElem?_setIfInBounds_ne hij, h], rfl, .inl rfl⟩
  · exact ⟨l, by rw [hkept, Array.getElem?_append_left hi, h], rfl, .inl rfl⟩

/-- Failures are no update, so that what an instruction comes to remember was answered. -/
theorem Updates.signature? {r : Resolver σ} {s : Session σ} {c : Command} {i : Nat} {l l' : Listed}
    (h : Updates r s c i l l') : l'.signature? = l.signature? ∨
      ∃ t n bytes, c.renders? = some i ∧ l.Wants t ∧
        (s.run r c).2.world.host = r.hostAfterTimes s.world.host t (n + 1) ∧
        (∀ k < n, ∃ e, r.answer (r.hostAfterTimes s.world.host t k) .signature t = .error e) ∧
        r.answer (r.hostAfterTimes s.world.host t n) .signature t = .ok bytes ∧
        l'.signature? = some bytes := by
  rcases h.2 with hsame | ⟨t, n, hc, ht, hhost, hfetched⟩
  · exact .inl hsame
  · cases hbytes : (r.fetch t n s.world.host).1 with
    | none =>
      rw [hbytes] at hfetched
      exact .inl (hfetched.trans ht.1.symm)
    | some bytes =>
      obtain ⟨m, hfailed, hlast, hafter⟩ := Resolver.fetch_eq_some hbytes
      exact .inr ⟨t, m, bytes, hc, ht, hhost.trans hafter, hfailed, hlast, hfetched.trans hbytes⟩

/-- What a command adds is new, or a copy. -/
theorem new_of_run (r : Resolver σ) {s : Session σ} {c : Command} {n : Nat} {l : Listed}
    (hn : s.kept.size ≤ n) (h : (s.run r c).2.kept[n]? = some l) :
    l.signature? = none ∨ ∃ i, c = .copy i ∧ s.kept[i]? = some l := by
  rcases s.kept_run_cases r c with ⟨j, m, m', hm, hkept, -⟩ | ⟨ls, hkept, hls⟩
  · -- an update adds no instruction
    obtain ⟨hlt, -⟩ := Array.getElem?_eq_some_iff.mp h
    rw [hkept, Array.size_setIfInBounds] at hlt
    omega
  · rw [hkept, Array.getElem?_append_right hn] at h
    exact hls l (Array.mem_of_getElem? h)

theorem run_copy (r : Resolver σ) {s : Session σ} {i : Nat} {l : Listed} (h : s.kept[i]? = some l) :
    (s.run r (.copy i)).2 = { s with kept := s.kept.push l } := by
  simp [run, h]

/-- Right after it was copied, an instruction and its copy are the same. -/
theorem getElem?_kept_copy (r : Resolver σ) {s : Session σ} {i j : Nat} {l : Listed}
    (h : s.kept[i]? = some l) (hj : j = i ∨ j = s.kept.size) :
    (s.run r (.copy i)).2.kept[j]? = some l := by
  rw [run_copy r h]
  rcases hj with rfl | rfl
  · obtain ⟨hi, hget⟩ := Array.getElem?_eq_some_iff.mp h
    exact (Array.getElem?_push_lt hi).trans (congrArg some hget)
  · exact Array.getElem?_push_size

theorem run_signature_of_run (r : Resolver σ) {s : Session σ} {i : Nat} {l l' : Listed}
    {answer : Except Error Bytes} {w : World σ} (hl : s.kept[i]? = some l)
    (h : (l.signature r).run.run s.world = (.ok (answer, l'), w)) : s.run r (.signature i) =
      (.ofBytes answer, { s with kept := s.kept.setIfInBounds i l', world := w }) :=
  renderKept_of_run hl _ (Render.run_bind_of_ok h)

/-- Asked for a signature that is remembered, a session tells it and stays as it is. -/
theorem run_signature_of_some (r : Resolver σ) {s : Session σ} {i : Nat} {l : Listed} {bytes : Bytes}
    (hl : s.kept[i]? = some l) (hs : l.signature? = some bytes) :
    s.run r (.signature i) = (.bytes bytes, s) := by
  have hrun : (l.signature r).run.run s.world = (.ok (.ok bytes, l), s.world) := by
    rw [Listed.signature_of_some hs]
    rfl
  rw [run_signature_of_run r hl hrun, setIfInBounds_self hl]
  rfl

/-- A signature that is wanted is told as it is answered. -/
theorem run_signature_of_wants (r : Resolver σ) {s : Session σ} {i : Nat} {l : Listed} {t : Token}
    (hl : s.kept[i]? = some l) (ht : l.Wants t) :
    (s.run r (.signature i)).1 = .ofBytes (r.answer s.world.host .signature t) := by
  have hrun : (l.signature r).run.run s.world =
      (.ok (r.answer s.world.host .signature t, l.answered (r.answer s.world.host .signature t)),
        { s.world with host := r.hostAfter s.world.host .signature t }) := by
    rw [Listed.signature_of_wants ht]
    rfl
  rw [run_signature_of_run r hl hrun]

/-- Where there is no signature a session says so and stays as it is. -/
theorem run_signature_of_other (r : Resolver σ) {s : Session σ} {i : Nat} {l : Listed}
    (hl : s.kept[i]? = some l) (hs : l.signature? = none)
    (h : ∀ t, l.instruction.operand ≠ .token (.entity .signature) t) :
    s.run r (.signature i) =
      (.failed (.unresolved (l.instruction.operand.token?.getD ⟨0⟩) Capability.signature.word), s) := by
  have hrun : (l.signature r).run.run s.world =
      (.ok (.error (.unresolved (l.instruction.operand.token?.getD ⟨0⟩) Capability.signature.word), l),
        s.world) := by
    rw [Listed.signature_of_other hs h]
    rfl
  rw [run_signature_of_run r hl hrun, setIfInBounds_self hl]
  rfl

/-! ## Runs of commands -/

theorem after_concat (r : Resolver σ) (s : Session σ) (commands : List Command) (c : Command) :
    s.after r (commands ++ [c]) = ((s.after r commands).run r c).2 := List.foldl_append ..

/-- What holds of every kept instruction holds of every one after a command, if it holds of those that
    remember nothing and is kept by updates. -/
theorem forall_kept_run (r : Resolver σ) {s : Session σ} {c : Command} {P : Listed → Prop}
    (h : ∀ l ∈ s.kept, P l) (hnew : ∀ l : Listed, l.signature? = none → P l)
    (hupdates : ∀ i l l', P l → Updates r s c i l l' → P l') : ∀ l ∈ (s.run r c).2.kept, P l := by
  intro l hl
  rcases s.kept_run_cases r c with ⟨i, m, m', hm, hkept, hupdate⟩ | ⟨ls, hkept, hls⟩
  · rw [hkept] at hl
    rcases Array.mem_or_eq_of_mem_setIfInBounds hl with hl | rfl
    · exact h l hl
    · exact hupdates i m l (h m (Array.mem_of_getElem? hm)) hupdate
  · rw [hkept, Array.mem_append] at hl
    rcases hl with hl | hl
    · exact h l hl
    · rcases hls l hl with hnone | ⟨i, -, hi⟩
      · exact hnew l hnone
      · exact h l (Array.mem_of_getElem? hi)

/-- Only calls through a signature remember one. -/
def Sound (s : Session σ) : Prop :=
  ∀ l ∈ s.kept, ∀ bytes, l.signature? = some bytes →
    ∃ t, l.instruction.operand = .token (.entity .signature) t

/-- Every command preserves soundness. -/
theorem Sound.run {s : Session σ} (h : s.Sound) (r : Resolver σ) (c : Command) :
    (s.run r c).2.Sound := by
  apply forall_kept_run r h
  · intro l hnone bytes hs
    cases hnone.symm.trans hs
  · rintro i l l' hl hupdates bytes hs
    rw [hupdates.1]
    rcases hupdates.signature? with hsame | ⟨t, -, -, -, ht, -⟩
    · exact hl bytes (hsame ▸ hs)
    · exact ⟨t, ht.2⟩

/-- By induction, a session stays sound. -/
theorem Sound.after {s : Session σ} (h : s.Sound) (r : Resolver σ) (commands : List Command) :
    (s.after r commands).Sound := by
  induction commands generalizing s with
  | nil => exact h
  | cons c commands ih => exact ih (h.run r c)

/-- Only signatures are remembered. -/
theorem Sound.signature?_of_other {s : Session σ} (h : s.Sound) {i : Nat} {l : Listed}
    (hl : s.kept[i]? = some l) (hother : ∀ t, l.instruction.operand ≠ .token (.entity .signature) t) :
    l.signature? = none := by
  cases hs : l.signature? with
  | none => rfl
  | some bytes =>
    obtain ⟨t, ho⟩ := h l (Array.mem_of_getElem? hl) bytes hs
    exact absurd ho (hother t)

/-- Commands that do not render an instruction do not change what it remembers. -/
theorem remembers_after_of_not_renders (r : Resolver σ) {s : Session σ} {i : Nat} {l : Listed}
    (hl : s.kept[i]? = some l) {commands : List Command} (h : ∀ c ∈ commands, c.renders? ≠ some i) :
    ∃ l', (s.after r commands).kept[i]? = some l' ∧ l'.instruction = l.instruction ∧
      l'.signature? = l.signature? := by
  induction commands generalizing s l with
  | nil => exact ⟨l, hl, rfl, rfl⟩
  | cons c commands ih =>
    obtain ⟨m, hm, hinstruction, hsignature⟩ := exists_updates r hl c
    have hsame : m.signature? = l.signature? := by
      rcases hsignature with hsame | ⟨t, -, hrenders, -⟩
      · exact hsame
      · exact absurd hrenders (h c List.mem_cons_self)
    obtain ⟨l', hl', hinstruction', hsame'⟩ := ih hm fun c' hc' => h c' (List.mem_cons_of_mem c hc')
    exact ⟨l', hl', hinstruction'.trans hinstruction, hsame'.trans hsame⟩

/-- From `s`, some commands lead to a session where `j` is instruction `i` of `s`, or a copy of it, or a
    copy of a copy. -/
inductive CopyOf (r : Resolver σ) (s : Session σ) (i : Nat) : List Command → Nat → Prop where
  | self : CopyOf r s i [] i
  | later {commands : List Command} {j : Nat} (c : Command) :
      CopyOf r s i commands j → CopyOf r s i (commands ++ [c]) j
  | copy {commands : List Command} {j : Nat} :
      CopyOf r s i commands j → CopyOf r s i (commands ++ [.copy j]) (s.after r commands).kept.size

/-- A signature that is remembered stays so, and goes over to every copy. -/
theorem CopyOf.remembers {r : Resolver σ} {s : Session σ} {i j : Nat} {commands : List Command}
    (h : CopyOf r s i commands j) {l : Listed} {bytes : Bytes} (hl : s.kept[i]? = some l)
    (hs : l.signature? = some bytes) :
    ∃ l', (s.after r commands).kept[j]? = some l' ∧ l'.instruction = l.instruction ∧
      l'.signature? = some bytes := by
  induction h with
  | self => exact ⟨l, hl, rfl, hs⟩
  | later c _ ih =>
    obtain ⟨m, hm, hinstruction, hbytes⟩ := ih
    obtain ⟨l', hl', hinstruction', hsignature⟩ := exists_updates r hm c
    rw [after_concat]
    refine ⟨l', hl', hinstruction'.trans hinstruction, ?_⟩
    rcases hsignature with hsame | ⟨t, -, -, ht, -⟩
    · exact hsame.trans hbytes
    · exact absurd ht (Listed.not_wants_of_some hbytes t)
  | copy _ ih =>
    obtain ⟨m, hm, hinstruction, hbytes⟩ := ih
    rw [after_concat]
    exact ⟨m, getElem?_kept_copy r hm (.inr rfl), hinstruction, hbytes⟩

/-! ## Fetched once -/

/-- **A signature is fetched once.**  For every resolver, however its answers change, and every run of
    commands: what an instruction remembers changes only when it is rendered while it wants its
    signature, and becomes what the last of the requests made then was answered, the ones before it having
    failed; new instructions remember nothing unless they are copies.  From then on it stays, in the
    instruction and in every copy taken of it, the signature is answered from there, and no command about
    any of them asks anything.

    Whoever renders an instruction that wants its signature asks for nothing else.  Its operand, its
    signature and a line that comes about in the standard way ask for it once, also after a request that
    failed, which changes nothing.  A copy that was taken while nothing was remembered has to fetch for
    itself, and fetches for itself only.  Other instructions never remember a signature, and asked for one
    they name their own token. -/
theorem signature_fetched_once (r : Resolver σ) (start : Session (σ × Array Request))
    (hstart : ∀ l ∈ start.kept, l.signature? = none) (commands : List Command) :
    let s := start.after r.recording commands
    (∀ c i l, s.kept[i]? = some l → ∃ l', (s.run r.recording c).2.kept[i]? = some l' ∧
      l'.instruction = l.instruction ∧ (l'.signature? = l.signature? ∨
        ∃ t n bytes, c.renders? = some i ∧ l.Wants t ∧ AskedFor r t (n + 1) s (s.run r.recording c).2 ∧
          (∀ k < n, ∃ e, r.answer (r.hostAfterTimes s.world.host.1 t k) .signature t = .error e) ∧
          r.answer (r.hostAfterTimes s.world.host.1 t n) .signature t = .ok bytes ∧
          l'.signature? = some bytes)) ∧
    (∀ c n l, s.kept.size ≤ n → (s.run r.recording c).2.kept[n]? = some l →
      l.signature? = none ∨ ∃ i, c = .copy i ∧ s.kept[i]? = some l) ∧
    (∀ i l bytes, s.kept[i]? = some l → l.signature? = some bytes →
      ∀ more j, CopyOf r.recording s i more j → let later := s.after r.recording more
        (∃ l', later.kept[j]? = some l' ∧ l'.instruction = l.instruction ∧
          l'.signature? = some bytes) ∧
        later.run r.recording (.signature j) = (.bytes bytes, later) ∧
        ∀ c, c.on? = some j → (later.run r.recording c).2.world.host = later.world.host) ∧
    (∀ i l t c, s.kept[i]? = some l → l.Wants t → c.renders? = some i →
      (∃ n, AskedFor r t n s (s.run r.recording c).2) ∧
      (c.Needs i l → AskedFor r t 1 s (s.run r.recording c).2 ∧
        (s.run r.recording c).2.kept =
          s.kept.setIfInBounds i (l.answered (r.answer s.world.host.1 .signature t)) ∧
        (∀ e, r.answer s.world.host.1 .signature t = .error e → (s.run r.recording c).2.kept = s.kept)) ∧
      (s.run r.recording (.signature i)).1 = .ofBytes (r.answer s.world.host.1 .signature t)) ∧
    (∀ i l, s.kept[i]? = some l → l.signature? = none →
      let s' := (s.run r.recording (.copy i)).2
      s'.kept = s.kept.push l ∧ ∀ j, j = i ∨ j = s.kept.size →
        ∀ more, (∀ c ∈ more, c.renders? ≠ some j) → ∃ l',
          (s'.after r.recording more).kept[j]? = some l' ∧ l'.instruction = l.instruction ∧
            l'.signature? = none) ∧
    (∀ i l, s.kept[i]? = some l → (∀ t, l.instruction.operand ≠ .token (.entity .signature) t) →
      l.signature? = none ∧ s.run r.recording (.signature i) =
        (.failed (.unresolved (l.instruction.operand.token?.getD ⟨0⟩) "signature"), s)) := by
  intro s
  have hnew : start.Sound := fun l hl bytes hs => by cases (hstart l hl).symm.trans hs
  have hsound : s.Sound := hnew.after r.recording commands
  have htimes (t : Token) (n : Nat) : r.recording.hostAfterTimes s.world.host t n
      = (r.hostAfterTimes s.world.host.1 t n, s.world.host.2 ++ Array.replicate n ⟨.signature, t⟩) :=
    r.hostAfterTimes_recording s.world.host.1 s.world.host.2 t n
  have hanswer (t : Token) (n : Nat) : r.recording.answer (r.recording.hostAfterTimes s.world.host t n)
      .signature t = r.answer (r.hostAfterTimes s.world.host.1 t n) .signature t := by
    rw [htimes]
    rfl
  refine ⟨?_, ?_, ?_, ?_, ?_, ?_⟩
  · intro c i l hl
    obtain ⟨l', hl', hupdates⟩ := exists_updates r.recording hl c
    refine ⟨l', hl', hupdates.1, hupdates.signature?.imp_right ?_⟩
    rintro ⟨t, n, bytes, hc, ht, hhost, hfailed, hlast, hs⟩
    refine ⟨t, n, bytes, hc, ht, hhost.trans (htimes t (n + 1)), fun k hk => ?_, ?_, hs⟩
    · rw [← hanswer]
      exact hfailed k hk
    · rw [← hanswer]
      exact hlast
  · intro c n l hn hl
    exact new_of_run r.recording hn hl
  · intro i l bytes hl hs more j hcopy later
    obtain ⟨l', hl', hinstruction, hs'⟩ := hcopy.remembers hl hs
    obtain ⟨t, ho⟩ := hsound l (Array.mem_of_getElem? hl) bytes hs
    exact ⟨⟨l', hl', hinstruction, hs'⟩, run_signature_of_some r.recording hl' hs',
      fun c hc => host_run_of_some r.recording hc hl' hs' (hinstruction ▸ ho)⟩
  · intro i l t c hl ht hc
    refine ⟨?_, fun hneeds => ?_, run_signature_of_wants r.recording hl ht⟩
    · obtain ⟨n, -, hhost⟩ := run_of_wants r.recording hc hl ht
      obtain ⟨m, hm⟩ := r.recording.exists_host_fetch t n s.world.host
      exact ⟨m, (hhost.trans hm).trans (htimes t m)⟩
    · obtain ⟨hkept, hhost⟩ := run_of_needs r.recording hneeds hl ht
      refine ⟨hhost.trans (htimes t 1), hkept, fun e he => ?_⟩
      have herror : r.recording.answer s.world.host .signature t = .error e := he
      rw [hkept, herror, Listed.answered_error ht.1, setIfInBounds_self hl]
  · intro i l hl hs s'
    refine ⟨congrArg kept (run_copy r.recording hl), fun j hj more hmore => ?_⟩
    have hl' : s'.kept[j]? = some l := getElem?_kept_copy r.recording hl hj
    obtain ⟨m, hm, hinstruction, hsame⟩ := remembers_after_of_not_renders r.recording hl' hmore
    exact ⟨m, hm, hinstruction, hsame.trans hs⟩
  · intro i l hl hother
    have hs : l.signature? = none := hsound.signature?_of_other hl hother
    exact ⟨hs, run_signature_of_other r.recording hl hs hother⟩

/-- A resolver that fails at first, and then answers every request for a signature differently. -/
def fickle : Resolver Nat where
  ask
    | .signature, t => fun n =>
      (if n = 0 then .error (.unresolved t "signature") else .ok [UInt8.ofNat n], n + 1)
    | c, t => fun n => (.error (.unresolved t c.word), n + 1)

/-- A call is copied after a failed request, and again after a successful one.  The first copy fetches for
    itself, and whatever is done then, the others keep what the original had fetched. -/
theorem signature_fetched_once_fickle :
    let start : Session (Nat × Array Request) :=
      { decoder := .ofBytes [0x29, 0x01, 0x00, 0x00, 0x11] .standard, world := ⟨(0, #[]), #[]⟩ }
    let s := start.after fickle.recording [.next, .line 0, .copy 0, .operand 0, .copy 0, .signature 1]
    s.kept.toList.map (·.signature?) = [some [1], some [2], some [1]] ∧ s.world.host.2.size = 3 ∧
    ∀ more j, CopyOf fickle.recording s 0 more j →
      ((s.after fickle.recording more).run fickle.recording (.signature j)).1 = .bytes [1] := by
  intro start s
  have hkept : s.kept.toList.map (·.signature?) = [some [1], some [2], some [1]] := by decide +kernel
  refine ⟨hkept, by decide +kernel, fun more j hcopy => ?_⟩
  have hzero : s.kept[0]?.map (·.signature?) = some (some [1]) := by
    rw [← Array.getElem?_toList, ← List.getElem?_map, hkept]
    rfl
  obtain ⟨l, hl, hs⟩ := Option.map_eq_some_iff.mp hzero
  have h := signature_fetched_once fickle start (by simp [start])
    [.next, .line 0, .copy 0, .operand 0, .copy 0, .signature 1]
  have hfilled := h.2.2.1 0 l [1] hl hs more j hcopy
  rw [hfilled.2.1]

/-- A line that needs the signature three times, of a resolver that fails at first: the second request is
    answered, and there is no third. -/
example :
    let insistent : Style := .ofOverrides
      { line := some fun _ => .signature fun _ => .signature fun _ => .signature fun _ => .done "calli" }
    let start : Session (Nat × Array Request) :=
      { decoder := .ofBytes [0x29, 0x01, 0x00, 0x00, 0x11] insistent, world := ⟨(0, #[]), #[]⟩ }
    let s := start.after fickle.recording [.next, .line 0]
    s.kept.toList.map (·.signature?) = [some [1]] ∧ s.world.host.2.size = 2 := by
  decide +kernel

end Session

end Cil
