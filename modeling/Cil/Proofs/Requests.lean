import Cil.Proofs.Remembering

/-
  WHAT RENDERING ASKS.

  Every instruction has at most one question (`Instruction.request?`), and rendering a body puts the
  questions of its instructions, in order and each once, whatever the answers are.  It stops in front of
  a loaded token that names no member (`Decoder.lines_requests`).  Walking over a body asks nothing.

  The host is changed by questions and by nothing else.  `Render.Puts` says which ones a rendering puts
  that comes to its end, `Render.GivesUp` which ones it has put when it is given up.  Both are closed
  under doing one thing after another.

  A resolver with a way of its own to find members is asked for none of them, and a line that comes about
  in another way than the standard one may ask more often or not at all.  So both are left out here.
-/

namespace Cil

/-! ## Questions one after another -/

namespace Resolver

variable {σ : Type}

/-- The host after some questions. -/
def asked (r : Resolver σ) (host : σ) (qs : List Request) : σ :=
  qs.foldl (fun host q => r.hostAfter host q.capability q.token) host

theorem asked_append (r : Resolver σ) (host : σ) (qs qs' : List Request) :
    r.asked host (qs ++ qs') = r.asked (r.asked host qs) qs' := List.foldl_append ..

/-- A resolver that records has written the questions down, and otherwise behaves as before. -/
theorem asked_recording (r : Resolver σ) (host : σ) (record : Array Request) (qs : List Request) :
    r.recording.asked (host, record) qs = (r.asked host qs, record ++ qs.toArray) := by
  induction qs generalizing host record with
  | nil => rw [Array.append_empty]; rfl
  | cons q qs ih =>
    show r.recording.asked (r.hostAfter host q.capability q.token, record.push q) qs = _
    rw [ih]
    simp [asked]

end Resolver

namespace Render

variable {σ α β : Type}

/-- In every world the rendering puts these questions, in order, and comes to its end. -/
def Puts (r : Resolver σ) (x : Render σ α) (qs : List Request) : Prop :=
  ∀ w, ∃ a w', x.run.run w = (.ok a, w') ∧ w'.host = r.asked w.host qs

/-- In every world the rendering puts these questions, in order, and is then given up. -/
def GivesUp (r : Resolver σ) (x : Render σ α) (qs : List Request) : Prop :=
  ∀ w, ∃ n w', x.run.run w = (.error n, w') ∧ w'.host = r.asked w.host qs

theorem puts_pure (r : Resolver σ) (a : α) : Puts r (pure a) [] := fun w => ⟨a, w, rfl, rfl⟩

/-- Records are no requests. -/
theorem puts_report (r : Resolver σ) (records : Array Record) : Puts r (report records) [] :=
  fun w => ⟨(), { w with log := w.log ++ records }, rfl, rfl⟩

/-- One question is one request, whatever is answered. -/
theorem puts_ask (r : Resolver σ) (q : Request) : Puts r (ask r q.capability q.token) [q] :=
  fun w => ⟨_, { w with host := r.hostAfter w.host q.capability q.token }, rfl, rfl⟩

/-- The requests of two steps are those of the first, then those of the second.  The second must not choose
    its requests by what the first was told: this is what makes them a fixed list. -/
theorem Puts.bind {r : Resolver σ} {x : Render σ α} {k : α → Render σ β} {qs qs' : List Request}
    (hx : Puts r x qs) (hk : ∀ a, Puts r (k a) qs') : Puts r (x >>= k) (qs ++ qs') := by
  intro w
  obtain ⟨a, w₁, hrun, hhost⟩ := hx w
  obtain ⟨b, w₂, hrun', hhost'⟩ := hk a w₁
  refine ⟨b, w₂, (run_bind_of_ok hrun).trans hrun', ?_⟩
  rw [hhost', hhost, Resolver.asked_append]

/-- Making something of a result puts no more requests. -/
theorem Puts.map {r : Resolver σ} {x : Render σ α} {k : α → Render σ β} {qs : List Request}
    (hx : Puts r x qs) (hk : ∀ a, Puts r (k a) []) : Puts r (x >>= k) qs := by
  rw [← List.append_nil qs]
  exact hx.bind hk

/-- A rendering that is given up in its second step has put the requests of the first as well. -/
theorem Puts.givesUp {r : Resolver σ} {x : Render σ α} {k : α → Render σ β} {qs qs' : List Request}
    (hx : Puts r x qs) (hk : ∀ a, GivesUp r (k a) qs') : GivesUp r (x >>= k) (qs ++ qs') := by
  intro w
  obtain ⟨a, w₁, hrun, hhost⟩ := hx w
  obtain ⟨n, w₂, hrun', hhost'⟩ := hk a w₁
  refine ⟨n, w₂, (run_bind_of_ok hrun).trans hrun', ?_⟩
  rw [hhost', hhost, Resolver.asked_append]

/-- Behind a step that is given up nothing more is asked. -/
theorem GivesUp.bind {r : Resolver σ} {x : Render σ α} {qs : List Request} (hx : GivesUp r x qs)
    (k : α → Render σ β) : GivesUp r (x >>= k) qs := by
  intro w
  obtain ⟨n, w', hrun, hhost⟩ := hx w
  exact ⟨n, w', run_bind_of_error hrun, hhost⟩

/-- Over a list each element puts its own request, if it has one, in the order of the list. -/
theorem Puts.mapM {r : Resolver σ} {f : α → Render σ β} {q? : α → Option Request} {xs : List α}
    (h : ∀ x ∈ xs, Puts r (f x) (q? x).toList) : Puts r (xs.mapM f) (xs.filterMap q?) := by
  induction xs with
  | nil =>
    rw [List.mapM_nil]
    exact puts_pure r []
  | cons x xs ih =>
    have hx : Puts r (f x) (q? x).toList := h x List.mem_cons_self
    have hxs : Puts r (xs.mapM f) (xs.filterMap q?) := ih fun y hy => h y (List.mem_cons_of_mem x hy)
    have hlist : (x :: xs).filterMap q? = (q? x).toList ++ xs.filterMap q? := by
      cases hq : q? x <;> simp [hq]
    rw [List.mapM_cons, hlist]
    exact hx.bind fun v => hxs.map fun vs => puts_pure r (v :: vs)

/-- A list is given up where one of its elements is. -/
theorem GivesUp.mapM {r : Resolver σ} {f : α → Render σ β} {q? : α → Option Request} {front back : List α}
    {x : α} (hfront : ∀ y ∈ front, Puts r (f y) (q? y).toList) (hx : GivesUp r (f x) []) :
    GivesUp r ((front ++ x :: back).mapM f) (front.filterMap q?) := by
  rw [List.mapM_append, List.mapM_cons, ← List.append_nil (front.filterMap q?)]
  exact (Puts.mapM hfront).givesUp fun _ => (hx.bind _).bind _

end Render

/-! ## Lines -/

namespace Listed

variable {σ : Type}

section

variable {l : Listed} {r : Resolver σ} (hr : r.member? = none)
include hr

/-- An instruction that remembers no signature puts its question. -/
theorem puts_operandText (h : ¬ l.instruction.LoadsNoMember) (hs : l.signature? = none) :
    Render.Puts r (l.operandText r) l.instruction.request?.toList := by
  rcases operandText_cases_byTable h with ⟨hnone | ⟨bytes, hbytes⟩, s, htext⟩ | ⟨q, write, after, hq, htext⟩
  · rw [htext, hnone]
    exact Render.puts_pure r _
  · cases hs.symm.trans hbytes
  · rw [htext r hr, hq]
    exact (Render.puts_ask r q).map fun _ => Render.puts_pure r _

/-- One that loads a token without a member is given up before anything is asked. -/
theorem givesUp_operandText (h : l.instruction.LoadsNoMember) : Render.GivesUp r (l.operandText r) [] := by
  obtain ⟨n, hthrow⟩ := operandText_of_loadsNoMember h
  rw [hthrow r hr]
  exact fun w => ⟨n, w, rfl, rfl⟩

/-- A line that comes about in the standard way puts the question of its operand, and no other. -/
theorem puts_line (h : ¬ l.instruction.LoadsNoMember) (hs : l.signature? = none)
    (hstyle : l.style.StandardLines) : Render.Puts r (l.line r) l.instruction.request?.toList := by
  rw [line, lineIn_of_standardLines hstyle]
  exact (puts_operandText hr h hs).map fun _ => (Render.puts_report r _).bind fun _ => Render.puts_pure r _

/-- It is given up where its operand is. -/
theorem givesUp_line (h : l.instruction.LoadsNoMember) (hstyle : l.style.StandardLines) :
    Render.GivesUp r (l.line r) [] := by
  rw [line, lineIn_of_standardLines hstyle]
  exact (givesUp_operandText hr h).bind _

end

end Listed

namespace Decoder

variable {σ : Type}

section

variable {d : Decoder} (hstyle : d.style.StandardLines) {r : Resolver σ} (hr : r.member? = none)
include hstyle hr

/-- An instruction of the body puts its question, and its line is all that is kept of it. -/
theorem puts_line_of_decodeAll {listed : List Listed} (h : d.decodeAll.outcome = .ok listed) {l : Listed}
    (hl : l ∈ listed) (hmember : ¬ l.instruction.LoadsNoMember) :
    Render.Puts r (do return (← l.line r).1) l.instruction.request?.toList := by
  have hfresh := eq_fresh_of_decodeAll h l hl
  have hline := Listed.puts_line (l := fresh d.style l.instruction) hr hmember rfl hstyle
  rw [← hfresh] at hline
  exact hline.map fun _ => Render.puts_pure r _

/-- The lines of a body put the questions of its instructions, in order. -/
theorem puts_lines {listed : List Listed} (h : d.decodeAll.outcome = .ok listed)
    (hmembers : ∀ l ∈ listed, ¬ l.instruction.LoadsNoMember) :
    Render.Puts r (d.lines r) (listed.filterMap (·.instruction.request?)) := by
  have hline : ∀ l ∈ listed, Render.Puts r (do return (← l.line r).1) l.instruction.request?.toList :=
    fun l hl => puts_line_of_decodeAll hstyle hr h hl (hmembers l hl)
  unfold lines
  dsimp only
  rw [h]
  exact (Render.puts_report r _).bind fun _ => (Render.Puts.mapM hline).map fun _ => Render.puts_pure r _

/-- Up to the first token without a member, that is. -/
theorem givesUp_lines {front back : List Listed} {l : Listed}
    (h : d.decodeAll.outcome = .ok (front ++ l :: back))
    (hfront : ∀ l' ∈ front, ¬ l'.instruction.LoadsNoMember) (hl : l.instruction.LoadsNoMember) :
    Render.GivesUp r (d.lines r) (front.filterMap (·.instruction.request?)) := by
  have hbefore : ∀ l' ∈ front, Render.Puts r (do return (← l'.line r).1) l'.instruction.request?.toList :=
    fun l' hl' => puts_line_of_decodeAll hstyle hr h (List.mem_append_left _ hl') (hfront l' hl')
  have hlisted : l.style.StandardLines := by
    rw [eq_fresh_of_decodeAll h l (List.mem_append_right _ List.mem_cons_self)]
    exact hstyle
  have hhere : Render.GivesUp r (do return (← l.line r).1) [] :=
    (Listed.givesUp_line hr hl hlisted).bind _
  unfold lines
  dsimp only
  rw [h]
  exact (Render.puts_report r _).givesUp fun _ => (Render.GivesUp.mapM hbefore hhere).bind _

end

/-- A body that does not decode as a whole is asked nothing about. -/
theorem puts_lines_of_error {d : Decoder} {e : DecodeError} (h : d.decodeAll.outcome = .error e)
    (r : Resolver σ) : Render.Puts r (d.lines r) [] := by
  unfold lines
  dsimp only
  rw [h]
  exact (Render.puts_report r _).bind fun _ => Render.puts_pure r _

end Decoder

/-! ## Commands -/

namespace Session

variable {σ : Type}

/-- Decoding asks nothing. -/
theorem host_keepWalk (s : Session σ) (walk : Decoder.Walk) :
    (s.keepWalk walk).2.world.host = s.world.host := by
  unfold keepWalk
  dsimp only
  split <;> rfl

/-- Walking over a body asks nothing. -/
theorem host_run_of_walks (r : Resolver σ) (s : Session σ) {c : Command}
    (h : c = .next ∨ c = .drain ∨ c = .decodeAll) : (s.run r c).2.world.host = s.world.host := by
  rcases h with rfl | rfl | rfl
  · unfold run
    dsimp only
    split <;> rfl
  · exact s.host_keepWalk _
  · exact s.host_keepWalk _

end Session

/-! ## What is written down -/

namespace Render

variable {σ α β : Type}

/-- The questions that a rendering puts to a resolver that records them. -/
def requests (x : Render (σ × Array Request) α) (w : World σ) : List Request :=
  (x.run.run { w with host := (w.host, #[]) }).2.host.2.toList

theorem toList_record (r : Resolver σ) (host : σ) (qs : List Request) :
    (r.recording.asked (host, #[]) qs).2.toList = qs := by
  rw [Resolver.asked_recording]
  simp

/-- The recording resolver has noted the requests of a rendering that is finished. -/
theorem Puts.requests_eq {r : Resolver σ} {x : Render (σ × Array Request) α} {qs : List Request}
    (h : Puts r.recording x qs) (w : World σ) :
    (∃ a, x.result { w with host := (w.host, #[]) } = .ok a) ∧ x.requests w = qs := by
  obtain ⟨a, w', hrun, hhost⟩ := h { w with host := (w.host, #[]) }
  unfold result requests
  rw [hrun, hhost]
  exact ⟨⟨a, rfl⟩, toList_record r w.host qs⟩

/-- It has noted those of one that is given up, too. -/
theorem GivesUp.requests_eq {r : Resolver σ} {x : Render (σ × Array Request) α} {qs : List Request}
    (h : GivesUp r.recording x qs) (w : World σ) :
    (∃ n, x.result { w with host := (w.host, #[]) } = .error n) ∧ x.requests w = qs := by
  obtain ⟨n, w', hrun, hhost⟩ := h { w with host := (w.host, #[]) }
  unfold result requests
  rw [hrun, hhost]
  exact ⟨⟨n, rfl⟩, toList_record r w.host qs⟩

/-- Making something of the result asks nothing. -/
theorem requests_bind_pure (x : Render (σ × Array Request) α) (f : α → β) (w : World σ) :
    (do return f (← x) : Render (σ × Array Request) β).requests w = x.requests w := by
  unfold requests
  rcases hrun : x.run.run { w with host := (w.host, #[]) } with ⟨n | a, w'⟩
  · rw [run_bind_of_error hrun]
  · rw [run_bind_of_ok hrun]
    rfl

end Render

/-- **What rendering asks.**  Walking over a body asks nothing.  If members are found by their tables and
    lines come about in the standard way, rendering a body asks what its instructions ask, one after another
    and each once, whether there is an answer or not; an instruction that loads a token which names no
    member asks nothing, and what stands behind it is not asked about.  A body that is not walked to its
    end is not asked about at all. -/
theorem Decoder.lines_requests {σ : Type} (r : Resolver σ) (d : Decoder) (w : World σ) :
    let start : World (σ × Array Request) := { w with host := (w.host, #[]) }
    let rendering := d.lines r.recording
    (∀ (s : Session (σ × Array Request)) (c : Session.Command),
      c = .next ∨ c = .drain ∨ c = .decodeAll →
      (s.run r.recording c).2.world.host = s.world.host) ∧
    (∀ e, d.decodeAll.outcome = .error e → rendering.requests w = []) ∧
    (r.member? = none → d.style.StandardLines → ∀ listed, d.decodeAll.outcome = .ok listed →
      ((∀ l ∈ listed, ¬ l.instruction.LoadsNoMember) →
        (∃ lines, rendering.result start = .ok lines) ∧
        rendering.requests w = listed.filterMap (·.instruction.request?)) ∧
      ∀ front l back, listed = front ++ l :: back → (∀ l' ∈ front, ¬ l'.instruction.LoadsNoMember) →
        l.instruction.LoadsNoMember →
        (∃ n, rendering.result start = .error n) ∧
        rendering.requests w = front.filterMap (·.instruction.request?)) ∧
    (d.text r.recording).requests w = rendering.requests w := by
  intro start rendering
  refine ⟨?_, ?_, ?_, ?_⟩
  · intro s c hc
    exact s.host_run_of_walks r.recording hc
  · intro e he
    exact ((puts_lines_of_error he r.recording).requests_eq w).2
  · intro hr hstyle listed hlisted
    have hrecording : r.recording.member? = none := by
      rw [Resolver.recording, hr]
      rfl
    constructor
    · intro hmembers
      exact (puts_lines hstyle hrecording hlisted hmembers).requests_eq w
    · rintro front l back rfl hfront hl
      exact (givesUp_lines hstyle hrecording hlisted hfront hl).requests_eq w
  · exact Render.requests_bind_pure rendering _ w

/-- A string, a signature, nothing and a field are asked for, in this order, though there is no answer to
    any.  A loaded token that names no member lets the string in front of it be asked for, and not the
    one behind. -/
theorem Decoder.lines_requests_unanswered :
    let r : Resolver Unit := .ofLookup fun c t => .error (.unresolved t c.word)
    let body : Bytes := [0x72, 1, 0, 0, 0x70, 0x29, 2, 0, 0, 0x11, 0x00, 0xD0, 3, 0, 0, 0x04]
    let broken : Bytes := [0x72, 1, 0, 0, 0x70, 0xD0, 1, 0, 0, 0x01, 0x72, 2, 0, 0, 0x70]
    ((ofBytes body .standard).lines r.recording).requests { host := () }
      = [⟨.string, ⟨0x70000001⟩⟩, ⟨.signature, ⟨0x11000002⟩⟩, ⟨.field, ⟨0x04000003⟩⟩] ∧
    ((ofBytes broken .standard).lines r.recording).requests { host := () }
      = [⟨.string, ⟨0x70000001⟩⟩] ∧
    ((ofBytes [0x72, 1, 0, 0, 0x70, 0xF8] .standard).lines r.recording).requests { host := () } = [] := by
  intro r body broken
  let ldstr (offset : Nat) (t : Token) : Instruction :=
    ⟨offset, ⟨0x72, "ldstr", .token (.entity .string)⟩, .token (.entity .string) t⟩
  let calli : Instruction :=
    ⟨5, ⟨0x29, "calli", .token (.entity .signature)⟩, .token (.entity .signature) ⟨0x11000002⟩⟩
  let nop : Instruction := ⟨10, ⟨0x00, "nop", .empty⟩, .empty⟩
  let ldtoken (offset : Nat) (t : Token) : Instruction :=
    ⟨offset, ⟨0xD0, "ldtoken", .token .member⟩, .token .member t⟩
  have hbody : Instruction.readAll 0 body
      = ⟨[ldstr 0 ⟨0x70000001⟩, calli, nop, ldtoken 11 ⟨0x04000003⟩], none⟩ := by decide +kernel
  have hbroken : Instruction.readAll 0 broken
      = ⟨[ldstr 0 ⟨0x70000001⟩, ldtoken 5 ⟨0x01000001⟩, ldstr 10 ⟨0x70000002⟩], none⟩ := by
    decide +kernel
  have hmembers : ∀ l ∈ [ldstr 0 ⟨0x70000001⟩, calli, nop, ldtoken 11 ⟨0x04000003⟩].map (fresh .standard),
      ¬ l.instruction.LoadsNoMember := by decide
  have hall := ((lines_requests r (ofBytes body .standard) { host := () }).2.2.1 rfl rfl _
    (decodeAll_ofBytes_of_readAll hbody .standard)).1 hmembers
  have hfront := ((lines_requests r (ofBytes broken .standard) { host := () }).2.2.1 rfl rfl _
    (decodeAll_ofBytes_of_readAll hbroken .standard)).2 [fresh .standard (ldstr 0 ⟨0x70000001⟩)]
      (fresh .standard (ldtoken 5 ⟨0x01000001⟩)) [fresh .standard (ldstr 10 ⟨0x70000002⟩)] rfl
      (by decide) (by decide)
  have hnone := (lines_requests r (ofBytes [0x72, 1, 0, 0, 0x70, 0xF8] .standard) { host := () }).2.1
    (.undefinedOpcode [0xF8]) (decodeAll_ofBytes_eq_error_iff.mpr (by decide +kernel))
  exact ⟨hall.2, hfront.2, hnone⟩

end Cil
