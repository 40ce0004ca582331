import Cil.Proofs.Growth
import Cil.Proofs.Requests

/-
  NOBODY NOTICES WHAT IS REMEMBERED.

  Over a scope an instruction may remember its signature or ask for it again: the answer is the same.
  That is so because a scope only grows, and what it has answered it answers for ever.  So what an
  instruction remembers is what it would be told now (`Listed.UpToDate`), whatever has been pushed and
  done since it asked, and an instruction that is up to date can forget its signature without any
  difference to what is said about it (`Listed.said_write_forgotten`).

  It takes two things of a resolver: questions do not change its host, and an answer outlasts every push
  (`Resolver.Lasting`).  Scopes are such, and so are scopes of which some tokens are made to fail.
-/

namespace Cil

/-! ## Resolvers whose answers last -/

namespace Resolver

/-- Over a scope: questions change nothing, and what was answered is answered so after a push. -/
structure Lasting (r : Resolver Scope) : Prop where
  byTable : r.member? = none
  hostAfter_eq : ∀ s c t, r.hostAfter s c t = s
  answer_append : ∀ {s : Scope} {c : Capability} {t : Token} {x : c.Entity},
    r.answer s c t = .ok x → ∀ e, r.answer (s.append e) c t = .ok x

theorem Lasting.steady {r : Resolver Scope} (h : r.Lasting) : r.Steady :=
  steady_of_byTable h.byTable h.hostAfter_eq

/-- A scope grows at its end and answers from what it holds. -/
theorem lasting_scope : Lasting Scope.resolver where
  byTable := rfl
  hostAfter_eq _ _ _ := rfl
  answer_append h e := Scope.lookup_append_of_ok h e

/-- Reasons that are fixed do not change either. -/
theorem Lasting.failingOn {r : Resolver Scope} (h : r.Lasting) (failure? : Token → Option Error) :
    (r.failingOn failure?).Lasting where
  byTable := by
    rw [Resolver.failingOn, h.byTable]
    rfl
  hostAfter_eq s c t := by
    unfold hostAfter Resolver.failingOn
    dsimp only
    cases failure? t with
    | some e => rfl
    | none => exact h.hostAfter_eq s c t
  answer_append := by
    intro s c t x hx e
    unfold answer Resolver.failingOn at hx ⊢
    dsimp only at hx ⊢
    cases hf : failure? t with
    | some reason =>
      rw [hf] at hx
      cases hx
    | none =>
      rw [hf] at hx
      exact h.answer_append hx e

end Resolver

/-- What a rendering of an instruction says, and the world that it leaves.  What the instruction remembers
    then is left out. -/
def Render.said {σ α : Type} (x : Render σ (α × Listed)) (w : World σ) : Except NotAMember α × World σ :=
  ((x.run.run w).1.map Prod.fst, (x.run.run w).2)

/-- What is made of it depends on what was said. -/
theorem Render.said_map {σ α β : Type} (x : Render σ (α × Listed)) (f : α → β) (w : World σ) :
    (do return (← x).map f id : Render σ (β × Listed)).said w = Prod.map (Except.map f) id (x.said w) := by
  unfold said
  rcases hrun : x.run.run w with ⟨n | a, w'⟩
  · rw [run_bind_of_error hrun]
    rfl
  · rw [run_bind_of_ok hrun]
    rfl

/-! ## One instruction -/

namespace Listed

variable {σ : Type}

/-- The same instruction in the same style, with nothing remembered. -/
def forgotten (l : Listed) : Listed := { l with signature? := none }

theorem forgotten_of_none {l : Listed} (h : l.signature? = none) : l.forgotten = l := by
  unfold forgotten
  rw [← h]

/-- What is remembered is what the resolver would answer now. -/
def UpToDate (r : Resolver σ) (host : σ) (l : Listed) : Prop :=
  ∀ bytes, l.signature? = some bytes → ∃ t, l.instruction.operand = .token (.entity .signature) t ∧
    r.answer host .signature t = .ok bytes

/-- Nothing remembered is nothing out of date. -/
theorem upToDate_of_none {l : Listed} (h : l.signature? = none) (r : Resolver σ) (host : σ) :
    l.UpToDate r host := by
  intro bytes hs
  cases h.symm.trans hs

/-- What was answered once is answered so after the scope has grown. -/
theorem UpToDate.append {r : Resolver Scope} (hr : r.Lasting) {s : Scope} {l : Listed}
    (h : l.UpToDate r s) (e : Scope.Entry) : l.UpToDate r (s.append e) := by
  intro bytes hs
  obtain ⟨t, ho, hanswer⟩ := h bytes hs
  exact ⟨t, ho, hr.answer_append hanswer e⟩

section

variable {r : Resolver σ} (hr : r.Steady) {w : World σ} {l : Listed} (h : l.UpToDate r w.host)
include hr h

/-- The signature is asked for again, the answer is the one that was remembered, and is remembered. -/
theorem run_signature_forgotten :
    (l.forgotten.signature r).run.run w = (l.signature r).run.run w := by
  cases hs : l.signature? with
  | none => rw [forgotten_of_none hs]
  | some bytes =>
    obtain ⟨t, ho, hanswer⟩ := h bytes hs
    have hasked : (Render.ask r .signature t).run.run w = (.ok (.ok bytes), w) := by
      show (Except.ok (r.answer w.host .signature t), { w with host := r.hostAfter w.host .signature t }) = _
      rw [hanswer, hr.hostAfter_eq]
    have hback : l.forgotten.answered (.ok bytes) = l := by
      show { l with signature? := some bytes } = l
      rw [← hs]
    have hwants : l.forgotten.Wants t := ⟨rfl, ho⟩
    rw [signature_of_wants hwants, signature_of_some hs, Render.run_bind_of_ok hasked, hback]

/-- The text of an operand is the same whether the signature is remembered or asked for again. -/
theorem run_operandText_forgotten :
    (l.forgotten.operandText r).run.run w = (l.operandText r).run.run w := by
  cases hs : l.signature? with
  | none => rw [forgotten_of_none hs]
  | some bytes =>
    obtain ⟨t, ho, -⟩ := h bytes hs
    have ho' : l.forgotten.instruction.operand = .token (.entity .signature) t := ho
    unfold operandText
    rw [ho, ho']
    exact Render.run_bind_congr (run_signature_forgotten hr h) _

/-- The first answer is the same and so is all that follows; where there is none, nothing was said but
    what is written anyway. -/
theorem said_write_forgotten (writing : Writing) :
    (l.forgotten.write r writing).said w = (l.write r writing).said w := by
  induction writing generalizing w with
  | done text => rfl
  | report records next ih => exact ih (w := { w with log := w.log ++ records }) h
  | operand next =>
    unfold Render.said write
    rw [Render.run_bind_congr (run_operandText_forgotten hr h)]
  | signature next =>
    unfold Render.said write
    rw [Render.run_bind_congr (run_signature_forgotten hr h)]

/-- What a line says is the same whether the signature is remembered or asked for again. -/
theorem said_lineIn_forgotten (style : Style) :
    (l.forgotten.lineIn r style).said w = (l.lineIn r style).said w :=
  said_write_forgotten hr h (style.line l.view)

/-- In the standard way the operand is asked for, and so the signature is remembered again. -/
theorem run_lineIn_forgotten {style : Style} (hstyle : style.StandardLines) :
    (l.forgotten.lineIn r style).run.run w = (l.lineIn r style).run.run w := by
  rw [lineIn_of_standardLines hstyle, lineIn_of_standardLines hstyle]
  exact Render.run_bind_congr (run_operandText_forgotten hr h) _

end

end Listed

/-! ## One command -/

namespace Session

variable {σ : Type}

theorem host_renderKept {render : Listed → Render σ (Reply × Listed)} (h : ∀ l, (render l).KeepsHost)
    (s : Session σ) (i : Nat) : (s.renderKept i render).2.world.host = s.world.host := by
  unfold renderKept
  split
  · rfl
  · rename_i l _
    have hhost := h l s.world
    split
    · rename_i hrun
      rw [hrun] at hhost
      exact hhost
    · rename_i hrun
      rw [hrun] at hhost
      exact hhost

theorem host_renderBody {α : Type} {render : Render σ (Except DecodeError α)} (h : render.KeepsHost)
    (s : Session σ) (reply : α → Reply) : (s.renderBody render reply).2.world.host = s.world.host := by
  have hhost := h s.world
  unfold renderBody
  split
  rename_i hrun
  rw [hrun] at hhost
  dsimp only
  split <;> exact hhost

/-- No command changes a host that no question changes. -/
theorem host_run {r : Resolver σ} (hr : r.Steady) (s : Session σ) (c : Command) :
    (s.run r c).2.world.host = s.world.host := by
  have hclosed := Render.closed_keepsHost hr
  have hdone {α β : Type} {x : Render σ α} (hx : x.KeepsHost) (f : α → β) :
      (do return f (← x) : Render σ β).KeepsHost := hx.bind fun _ => hclosed.pure _
  cases c with
  | next => exact s.host_run_of_walks r (.inl rfl)
  | drain => exact s.host_run_of_walks r (.inr (.inl rfl))
  | decodeAll => exact s.host_run_of_walks r (.inr (.inr rfl))
  | lines => exact s.host_renderBody (hclosed.lines s.decoder) _
  | text => exact s.host_renderBody (hclosed.text s.decoder) _
  | reset | useStyle => rfl
  | line i => exact s.host_renderKept (fun l => hdone (hclosed.lineIn l.style l) _) i
  | lineIn i style => exact s.host_renderKept (fun l => hdone (hclosed.lineIn style l) _) i
  | operand i => exact s.host_renderKept (fun l => hdone (hclosed.operandText l) _) i
  | signature i => exact s.host_renderKept (fun l => hdone (hclosed.signature l) _) i
  | raw | inspect | label | compare => simp [run]
  | copy | restyle =>
    unfold run
    dsimp only
    split <;> rfl

/-- The same session, whose instructions remember nothing. -/
def forgotten (s : Session σ) : Session σ := { s with kept := s.kept.map Listed.forgotten }

theorem getElem?_forgotten (s : Session σ) (i : Nat) :
    s.forgotten.kept[i]? = s.kept[i]?.map Listed.forgotten := Array.getElem?_map

/-- Every kept instruction is up to date. -/
def Current (r : Resolver σ) (s : Session σ) : Prop := ∀ l ∈ s.kept, l.UpToDate r s.world.host

/-- No command makes what is remembered out of date. -/
theorem Current.run {r : Resolver σ} (hr : r.Steady) {s : Session σ} (h : s.Current r) (c : Command) :
    (s.run r c).2.Current r := by
  unfold Current
  rw [host_run hr]
  apply forall_kept_run r h
  · intro l hnone
    exact Listed.upToDate_of_none hnone r s.world.host
  · intro i l l' hl hupdates bytes hs
    rw [hupdates.1]
    rcases hupdates.signature? with hsame | ⟨t, n, bytes', -, ht, -, -, hanswer, hs'⟩
    · exact hl bytes (hsame ▸ hs)
    · cases hs.symm.trans hs'
      rw [hr.hostAfterTimes_eq] at hanswer
      exact ⟨t, ht.2, hanswer⟩

/-- Two outcomes of a command that differ at most in what the instructions remember. -/
def Alike (x y : Reply × Session σ) : Prop := x.1 = y.1 ∧ x.2.world = y.2.world

/-- A rendering that says the same of an instruction that has forgotten does so in a session. -/
theorem renderKept_forgotten {s : Session σ} {i : Nat} {render : Listed → Render σ (Reply × Listed)}
    (h : ∀ l ∈ s.kept, (render l.forgotten).said s.world = (render l).said s.world) :
    Alike (s.forgotten.renderKept i render) (s.renderKept i render) := by
  have hworld : s.forgotten.world = s.world := rfl
  unfold renderKept
  rw [getElem?_forgotten, hworld]
  cases hl : s.kept[i]? with
  | none => exact ⟨rfl, rfl⟩
  | some l =>
    have hsaid := h l (Array.mem_of_getElem? hl)
    unfold Render.said at hsaid
    dsimp only [Option.map_some]
    rcases hforgot : (render l.forgotten).run.run s.world with ⟨n | ⟨reply, m⟩, w⟩
    all_goals
      rcases hkept : (render l).run.run s.world with ⟨n' | ⟨reply', m'⟩, w'⟩
      all_goals
        rw [hforgot, hkept] at hsaid
        cases hsaid
    · exact ⟨rfl, rfl⟩
    · exact ⟨rfl, rfl⟩

/-- A look at a kept instruction that does not look at its memory sees the same. -/
theorem withKept_forgotten (s : Session σ) (i : Nat) {look look' : Listed → Reply}
    (h : ∀ l, look' l.forgotten = look l) :
    Alike (s.forgotten.withKept i look') (s.withKept i look) := by
  unfold withKept
  rw [getElem?_forgotten]
  cases s.kept[i]? with
  | none => exact ⟨rfl, rfl⟩
  | some l => exact ⟨h l, rfl⟩

theorem keepWalk_forgotten (s : Session σ) (walk : Decoder.Walk) :
    Alike (s.forgotten.keepWalk walk) (s.keepWalk walk) := by
  unfold keepWalk
  dsimp only
  cases walk.outcome with
  | error e => exact ⟨rfl, rfl⟩
  | ok listed => exact ⟨rfl, rfl⟩

theorem renderBody_forgotten {α : Type} (s : Session σ) (render : Render σ (Except DecodeError α))
    (reply : α → Reply) :
    Alike (s.forgotten.renderBody render reply) (s.renderBody render reply) := by
  have hworld : s.forgotten.world = s.world := rfl
  unfold renderBody
  rw [hworld]
  rcases render.run.run s.world with ⟨n | e | a, w⟩
  · exact ⟨rfl, rfl⟩
  · exact ⟨rfl, rfl⟩
  · exact ⟨rfl, rfl⟩

/-- A command replies the same, and leaves the same world, if everything is forgotten before.  Only an
    instruction that is inspected shows what it remembers. -/
theorem run_forgotten {r : Resolver σ} (hr : r.Steady) {s : Session σ} (h : s.Current r) {c : Command}
    (hc : ∀ i, c ≠ .inspect i) : Alike (s.forgotten.run r c) (s.run r c) := by
  cases c with
  | inspect i => exact absurd rfl (hc i)
  | line i =>
    apply renderKept_forgotten
    intro l hl
    rw [Render.said_map, Render.said_map]
    exact congrArg _ (l.said_lineIn_forgotten hr (h l hl) l.style)
  | lineIn i style =>
    apply renderKept_forgotten
    intro l hl
    rw [Render.said_map, Render.said_map]
    exact congrArg _ (l.said_lineIn_forgotten hr (h l hl) style)
  | operand i =>
    apply renderKept_forgotten
    intro l hl
    rw [Render.said, Render.run_bind_congr (l.run_operandText_forgotten hr (h l hl))]
    rfl
  | signature i =>
    apply renderKept_forgotten
    intro l hl
    rw [Render.said, Render.run_bind_congr (l.run_signature_forgotten hr (h l hl))]
    rfl
  | raw i => exact s.withKept_forgotten i fun _ => rfl
  | label i position => exact s.withKept_forgotten i fun _ => rfl
  | compare i j =>
    apply withKept_forgotten
    intro l
    rw [getElem?_forgotten]
    cases s.kept[j]? with
    | none => rfl
    | some l' => rfl
  | next =>
    have hdecoder : s.forgotten.decoder = s.decoder := rfl
    unfold run
    dsimp only
    rw [hdecoder]
    rcases s.decoder.next.item with _ | e | l
    · exact ⟨rfl, rfl⟩
    · exact ⟨rfl, rfl⟩
    · exact ⟨rfl, rfl⟩
  | drain => exact s.keepWalk_forgotten s.decoder.drain
  | decodeAll => exact s.keepWalk_forgotten s.decoder.decodeAll
  | lines => exact s.renderBody_forgotten (s.decoder.lines r) .lines
  | text => exact s.renderBody_forgotten (s.decoder.text r) .text
  | reset | useStyle => exact ⟨rfl, rfl⟩
  | copy i =>
    have hsize : s.forgotten.kept.size = s.kept.size := Array.size_map
    unfold run
    dsimp only
    rw [getElem?_forgotten, hsize]
    cases s.kept[i]? with
    | none => exact ⟨rfl, rfl⟩
    | some l => exact ⟨rfl, rfl⟩
  | restyle i style =>
    unfold run
    dsimp only
    rw [getElem?_forgotten]
    cases s.kept[i]? with
    | none => exact ⟨rfl, rfl⟩
    | some l => exact ⟨rfl, rfl⟩

/-! ## Pushes and commands -/

/-- What can happen to a session over a scope. -/
inductive Event where
  | push (e : Scope.Entry)
  | command (c : Command)

/-- A push goes to the scope, a command to the session. -/
def happen (r : Resolver Scope) (s : Session Scope) : Event → Session Scope
  | .push e => { s with world := { s.world with host := (s.world.host.push e).2 } }
  | .command c => (s.run r c).2

/-- The session after some events. -/
def through (r : Resolver Scope) (s : Session Scope) (events : List Event) : Session Scope :=
  events.foldl (happen r) s

/-- No event does: commands do not, and the scope only grows. -/
theorem Current.happen {r : Resolver Scope} (hr : r.Lasting) {s : Session Scope} (h : s.Current r)
    (event : Event) : (s.happen r event).Current r := by
  cases event with
  | push e => exact fun l hl => (h l hl).append hr e
  | command c => exact h.run hr.steady c

/-- By induction, no number of events does. -/
theorem Current.through {r : Resolver Scope} (hr : r.Lasting) {s : Session Scope} (h : s.Current r)
    (events : List Event) : (s.through r events).Current r := by
  induction events generalizing s with
  | nil => exact h
  | cons event events ih => exact ih (h.happen hr event)

/-- **Forgetting is not noticed.**  Instructions are decoded, rendered in every way, restyled and copied
    over a scope, of which some tokens may be made to fail, and meanwhile entries are pushed into it.  At
    any time, were all that is remembered forgotten, every command would get the same reply, and leave the
    same scope and log; and every kept instruction would have the same signature, the same text and the
    same line in any style.  If the line comes about in the standard way, so does what is remembered
    afterwards. -/
theorem forgetting_unnoticed {r : Resolver Scope}
    (hr : r = Scope.resolver ∨ ∃ failure?, r = .failingOn failure? Scope.resolver)
    (start : Session Scope) (hstart : ∀ l ∈ start.kept, l.signature? = none) (events : List Event) :
    let s := start.through r events
    (∀ c, (∀ i, c ≠ .inspect i) →
      (s.forgotten.run r c).1 = (s.run r c).1 ∧
      (s.forgotten.run r c).2.world = (s.run r c).2.world) ∧
    ∀ l ∈ s.kept,
      (l.forgotten.signature r).run.run s.world = (l.signature r).run.run s.world ∧
      (l.forgotten.operandText r).run.run s.world = (l.operandText r).run.run s.world ∧
      ∀ style, (l.forgotten.lineIn r style).said s.world = (l.lineIn r style).said s.world ∧
        (style.StandardLines →
          (l.forgotten.lineIn r style).run.run s.world = (l.lineIn r style).run.run s.world) := by
  intro s
  have hlasting : r.Lasting := by
    rcases hr with rfl | ⟨failure?, rfl⟩
    · exact Resolver.lasting_scope
    · exact Resolver.lasting_scope.failingOn failure?
  have hnew : start.Current r := fun l hl => Listed.upToDate_of_none (hstart l hl) r _
  have hcurrent : s.Current r := hnew.through hlasting events
  constructor
  · intro c hc
    exact run_forgotten hlasting.steady hcurrent hc
  · intro l hl
    have hl' := hcurrent l hl
    have hsteady := hlasting.steady
    exact ⟨l.run_signature_forgotten hsteady hl', l.run_operandText_forgotten hsteady hl', fun style =>
      ⟨l.said_lineIn_forgotten hsteady hl' style, fun hstyle => l.run_lineIn_forgotten hsteady hl' hstyle⟩⟩

/-- A call asks for its signature before it is there and again when it is, and is copied; another one is
    made to fail.  Both copies remember the signature when more is pushed, and need not. -/
theorem forgetting_unnoticed_calls :
    let failure? (t : Token) : Option Error := if t = ⟨0x11000002⟩ then some .outOfBounds else none
    let r : Resolver Scope := .failingOn failure? Scope.resolver
    let start : Session Scope :=
      { decoder := .ofBytes [0x29, 1, 0, 0, 0x11, 0x29, 2, 0, 0, 0x11] .standard, world := ⟨{}, #[]⟩ }
    let s := start.through r [.command .drain, .command (.signature 0), .push (.signature [0x07]),
      .command (.line 0), .command (.copy 0), .push (.signature [0x08]), .command (.operand 1)]
    s.kept.toList.map (·.signature?) = [some [0x07], none, some [0x07]] ∧
    s.forgotten.kept.toList.map (·.signature?) = [none, none, none] ∧
    ∀ i, (s.forgotten.run r (.signature i)).1 = (s.run r (.signature i)).1 := by
  intro failure? r start s
  refine ⟨by decide +kernel, by decide +kernel, fun i => ?_⟩
  have h := forgetting_unnoticed (.inr ⟨failure?, rfl⟩) start (by simp [start])
    [.command .drain, .command (.signature 0), .push (.signature [0x07]), .command (.line 0),
      .command (.copy 0), .push (.signature [0x08]), .command (.operand 1)]
  exact (h.1 (.signature i) (by simp)).1

end Session

end Cil
