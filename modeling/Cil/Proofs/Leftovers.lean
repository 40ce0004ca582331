import Cil.Proofs.Requests
import Cil.Proofs.WholeBody
import Cil.Scope

/-
  WHAT IS LEFT OVER IN A BUFFER IS NEVER SEEN.

  A source that cannot finish its body gives the part of its buffer that is in use.  What lies behind, how
  far beyond the buffer the number of used bytes points and why the body could not be finished make no
  difference to anything that is done with the body later on.

  Two sessions are compared, command by command.  They may differ in where the bytes of their decoders came
  from and in what was in the log when they were opened (`Session.Akin`).  No command brings the difference
  to light and none adds to it (`Akin.run`), so no list of commands does (`Akin.after`).  For the log this is
  so because a rendering adds to it without looking at it (`Render.IgnoresLog`).
-/

namespace Cil

/-! ## Renderings do not look at the log -/

/-- The same world, with records in front of its log. -/
def World.behind {σ : Type} (front : Array Record) (w : World σ) : World σ :=
  { w with log := front ++ w.log }

namespace Render

variable {σ α β : Type}

/-- Records in front of the log stay there, and nothing else comes of them. -/
def IgnoresLog (x : Render σ α) : Prop :=
  ∀ front w, x.run.run (w.behind front) = ((x.run.run w).1, (x.run.run w).2.behind front)

theorem IgnoresLog.bind {x : Render σ α} {k : α → Render σ β} (hx : x.IgnoresLog)
    (hk : ∀ a, (k a).IgnoresLog) : (x >>= k).IgnoresLog := by
  intro front w
  have hfront := hx front w
  rcases hrun : x.run.run w with ⟨n | a, w'⟩
  · rw [hrun] at hfront
    rw [run_bind_of_error hfront, run_bind_of_error hrun]
  · rw [hrun] at hfront
    rw [run_bind_of_ok hfront, run_bind_of_ok hrun]
    exact hk a front w'

theorem closed_ignoresLog (r : Resolver σ) : Closed r IgnoresLog where
  pure _ _ _ := rfl
  report records front w := by
    show (Except.ok (), World.mk w.host (front ++ w.log ++ records)) = _
    rw [Array.append_assoc]
    rfl
  ask _ _ _ _ := rfl
  askMember _ _ _ := rfl
  bind := IgnoresLog.bind

end Render

/-! ## Sessions that cannot be told apart -/

namespace Session

variable {σ : Type}

/-- The sessions differ in where the bytes of their decoders came from, and in the front of their logs. -/
structure Akin (front front' : Array Record) (s t : Session σ) : Prop where
  decoder : s.decoder.Alike t.decoder
  kept : s.kept = t.kept
  world : ∃ w : World σ, s.world = w.behind front ∧ t.world = w.behind front'

/-- Two outcomes of a command: the same reply, and sessions that are akin. -/
def AkinOutcomes (front front' : Array Record) (x y : Reply × Session σ) : Prop :=
  x.1 = y.1 ∧ Akin front front' x.2 y.2

namespace Akin

variable {front front' : Array Record} {s t : Session σ} (h : Akin front front' s t)
include h

theorem replace {d e : Decoder} (hd : d.Alike e) :
    Akin front front' { s with decoder := d } { t with decoder := e } := ⟨hd, h.kept, h.world⟩

theorem keep {kept : Array Listed} :
    Akin front front' { s with kept } { t with kept } := ⟨h.decoder, rfl, h.world⟩

theorem report (records : Array Record) : Akin front front' (s.report records) (t.report records) := by
  obtain ⟨w, hs, ht⟩ := h.world
  refine ⟨h.decoder, h.kept, { w with log := w.log ++ records }, ?_, ?_⟩
  · rw [Session.report, hs]
    simp [World.behind]
  · rw [Session.report, ht]
    simp [World.behind]

theorem withKept (i : Nat) {look look' : Listed → Reply} (hlook : ∀ l, look l = look' l) :
    AkinOutcomes front front' (s.withKept i look) (t.withKept i look') := by
  unfold Session.withKept
  rw [h.kept]
  cases t.kept[i]? with
  | none => exact ⟨rfl, h⟩
  | some l => exact ⟨hlook l, h⟩

theorem renderKept (i : Nat) {render : Listed → Render σ (Reply × Listed)}
    (hrender : ∀ l, (render l).IgnoresLog) :
    AkinOutcomes front front' (s.renderKept i render) (t.renderKept i render) := by
  obtain ⟨w, hs, ht⟩ := h.world
  unfold Session.renderKept
  rw [h.kept]
  cases t.kept[i]? with
  | none => exact ⟨rfl, h⟩
  | some l =>
    dsimp only
    rw [hs, ht, hrender l front w, hrender l front' w]
    rcases (render l).run.run w with ⟨n | ⟨reply, l'⟩, w'⟩
    · exact ⟨rfl, h.decoder, rfl, w', rfl, rfl⟩
    · exact ⟨rfl, h.decoder, rfl, w', rfl, rfl⟩

theorem renderBody {α : Type} {render : Render σ (Except DecodeError α)} (hrender : render.IgnoresLog)
    (reply : α → Reply) :
    AkinOutcomes front front' (s.renderBody render reply) (t.renderBody render reply) := by
  obtain ⟨w, hs, ht⟩ := h.world
  have hdecoder := (Decoder.decodeAll_congr h.decoder.bytes h.decoder.style).2.2
  unfold Session.renderBody
  rw [hs, ht, hrender front w, hrender front' w]
  rcases render.run.run w with ⟨n | e | a, w'⟩
  all_goals exact ⟨rfl, hdecoder, h.kept, w', rfl, rfl⟩

theorem keepWalk {walk walk' : Decoder.Walk} (houtcome : walk.outcome = walk'.outcome)
    (hlog : walk.log = walk'.log) (hdecoder : walk.decoder.Alike walk'.decoder) :
    AkinOutcomes front front' (s.keepWalk walk) (t.keepWalk walk') := by
  have hafter := (h.replace hdecoder).report walk.log
  unfold Session.keepWalk
  rw [← houtcome, ← hlog]
  cases walk.outcome with
  | error e => exact ⟨rfl, hafter⟩
  | ok listed =>
    refine ⟨rfl, hafter.decoder, ?_, hafter.world⟩
    show s.kept ++ listed = t.kept ++ listed
    rw [h.kept]

theorem next (r : Resolver σ) : AkinOutcomes front front' (s.run r .next) (t.run r .next) := by
  obtain ⟨hitem, hlog, hdecoder⟩ := h.decoder.next
  have hafter := (h.replace hdecoder).report s.decoder.next.log
  unfold Session.run
  dsimp only
  rw [← hitem, ← hlog]
  rcases s.decoder.next.item with _ | e | l
  · exact ⟨rfl, hafter⟩
  · exact ⟨rfl, hafter⟩
  · refine ⟨rfl, hafter.decoder, ?_, hafter.world⟩
    show s.kept.push l = t.kept.push l
    rw [h.kept]

/-- No command brings the difference to light, and none adds to it. -/
theorem run (r : Resolver σ) (c : Command) : AkinOutcomes front front' (s.run r c) (t.run r c) := by
  have hclosed := Render.closed_ignoresLog r
  have hdone {α β : Type} {x : Render σ α} (hx : x.IgnoresLog) (f : α → β) :
      (do return f (← x) : Render σ β).IgnoresLog := hx.bind fun _ => hclosed.pure _
  cases c with
  | next => exact h.next r
  | drain =>
    obtain ⟨houtcome, hlog, hdecoder⟩ := h.decoder.walkFrom #[] #[]
    exact h.keepWalk houtcome hlog hdecoder
  | decodeAll =>
    obtain ⟨houtcome, hlog, hdecoder⟩ := Decoder.decodeAll_congr h.decoder.bytes h.decoder.style
    exact h.keepWalk houtcome hlog hdecoder
  | lines =>
    show AkinOutcomes front front' (s.renderBody (s.decoder.lines r) .lines)
      (t.renderBody (t.decoder.lines r) .lines)
    rw [Decoder.lines_congr h.decoder.bytes h.decoder.style]
    exact h.renderBody (hclosed.lines _) _
  | text =>
    show AkinOutcomes front front' (s.renderBody (s.decoder.text r) .text)
      (t.renderBody (t.decoder.text r) .text)
    rw [Decoder.text_congr h.decoder.bytes h.decoder.style]
    exact h.renderBody (hclosed.text _) _
  | reset => exact ⟨rfl, h.replace (.reset h.decoder.bytes h.decoder.style)⟩
  | useStyle style =>
    exact ⟨rfl, h.replace ⟨h.decoder.bytes, rfl, h.decoder.phase, h.decoder.position⟩⟩
  | line i => exact h.renderKept i fun l => hdone (hclosed.lineIn l.style l) _
  | lineIn i style => exact h.renderKept i fun l => hdone (hclosed.lineIn style l) _
  | operand i => exact h.renderKept i fun l => hdone (hclosed.operandText l) _
  | signature i => exact h.renderKept i fun l => hdone (hclosed.signature l) _
  | raw i | inspect i | label i => exact h.withKept i fun _ => rfl
  | compare i j =>
    apply h.withKept i
    intro l
    rw [h.kept]
  | copy i =>
    unfold Session.run
    dsimp only
    rw [h.kept]
    cases t.kept[i]? with
    | none => exact ⟨rfl, h⟩
    | some l => exact ⟨rfl, h.keep⟩
  | restyle i style =>
    unfold Session.run
    dsimp only
    rw [h.kept]
    cases t.kept[i]? with
    | none => exact ⟨rfl, h⟩
    | some l => exact ⟨rfl, h.keep⟩

theorem after (r : Resolver σ) (commands : List Command) :
    Akin front front' (s.after r commands) (t.after r commands) := by
  induction commands generalizing s t with
  | nil => exact h
  | cons c commands ih => exact ih (h.run r c).2

end Akin

/-- The sessions get the same replies to all commands, ask the same, keep the same instructions and write
    the same to their logs, and their decoders stand at the same place. -/
def Indistinguishable (r : Resolver σ) (s t : Session σ) : Prop :=
  ∀ commands,
    let s' := s.after r commands
    let t' := t.after r commands
    (∀ c, (s'.run r c).1 = (t'.run r c).1) ∧ s'.kept = t'.kept ∧ s'.world.host = t'.world.host ∧
    s'.decoder.phase = t'.decoder.phase ∧ s'.decoder.position = t'.decoder.position ∧
    ∃ records, s'.world.log = s.world.log ++ records ∧ t'.world.log = t.world.log ++ records

/-- New sessions over the same bytes cannot be told apart, whatever was logged before. -/
theorem indistinguishable_of_bytes (r : Resolver σ) {body body' : Body} (h : body.bytes = body'.bytes)
    (style : Style) (host : σ) (front front' : Array Record) :
    Indistinguishable r { decoder := { body, style }, world := ⟨host, front⟩ }
      { decoder := { body := body', style }, world := ⟨host, front'⟩ } := by
  intro commands s' t'
  have halike : Decoder.Alike { body, style } { body := body', style } := ⟨h, rfl, rfl, rfl⟩
  have hakin : Akin front front' s' t' := by
    apply Akin.after
    exact ⟨halike, rfl, ⟨host, #[]⟩, rfl, rfl⟩
  obtain ⟨w, hs, ht⟩ := hakin.world
  refine ⟨fun c => (hakin.run r c).1, hakin.kept, ?_, hakin.decoder.phase, hakin.decoder.position, w.log,
    congrArg World.log hs, congrArg World.log ht⟩
  rw [hs, ht]
  rfl

/-! ## Sources -/

/-- A session over bytes that are known to be finished. -/
def ofBytes (bytes : Bytes) (style : Style) (host : σ) : Session σ :=
  { decoder := .ofBytes bytes style, world := { host } }

/-- A session over the body of a source.  The log begins with what taking the body puts into it. -/
def ofSource (source : Source) (style : Style) (host : σ) : Session σ :=
  { decoder := .ofSource source style, world := { host, log := source.log } }

end Session

namespace Source

theorem body_of_ok {source : Source} {bytes : Bytes} (h : source.finished = .ok bytes) :
    source.body = { bytes } := by
  unfold body
  rw [h]

/-- The buffer is used as far as it goes, also if more bytes of it are said to be in use. -/
theorem body_of_error {source : Source} {e : Error} (h : source.finished = .error e) :
    source.body =
      { bytes := source.buffer.take (min source.used.toNat source.buffer.length), complete := false } := by
  unfold body
  rw [h, inUse, List.take_eq_take_min]

end Source

namespace Session

variable {σ : Type}

/-- A session over the body of a source cannot be told from one over its bytes, and it is known throughout
    whether they are finished. -/
theorem ofSource_of_body (r : Resolver σ) {source : Source} {body : Body} (h : source.body = body)
    (style : Style) (host : σ) :
    Indistinguishable r (ofSource source style host) (ofBytes body.bytes style host) ∧
    ∀ commands, ((ofSource source style host).after r commands).decoder.body.complete = body.complete := by
  constructor
  · apply indistinguishable_of_bytes
    rw [h]
  · intro commands
    rw [body_after]
    exact congrArg Body.complete h

/-- **What is left over is never seen.**  Two sources that cannot finish their bodies, for whatever reasons,
    and have the same bytes in use, open sessions that cannot be told apart, whatever lies behind in the
    buffers and however far beyond their ends the numbers of used bytes point.  Every source opens a session
    that cannot be told from one over the finished bytes or, if there are none, over the bytes in use; and it
    is known throughout which of them they are. -/
theorem leftovers_unseen (r : Resolver σ) (style : Style) (host : σ) :
    (∀ (a b : Source) (e e' : Error), a.finished = .error e → b.finished = .error e' →
      a.buffer.take (min a.used.toNat a.buffer.length) = b.buffer.take (min b.used.toNat b.buffer.length) →
      Indistinguishable r (ofSource a style host) (ofSource b style host)) ∧
    ∀ source : Source,
      (∀ bytes, source.finished = .ok bytes →
        Indistinguishable r (ofSource source style host) (ofBytes bytes style host) ∧
        ∀ commands, ((ofSource source style host).after r commands).decoder.body.complete = true) ∧
      ∀ e, source.finished = .error e →
        Indistinguishable r (ofSource source style host)
          (ofBytes (source.buffer.take (min source.used.toNat source.buffer.length)) style host) ∧
        ∀ commands, ((ofSource source style host).after r commands).decoder.body.complete = false := by
  refine ⟨fun a b e e' ha hb hsame => ?_, fun source => ⟨fun bytes h => ?_, fun e h => ?_⟩⟩
  · apply indistinguishable_of_bytes
    rw [Source.body_of_error ha, Source.body_of_error hb, hsame]
  · exact ofSource_of_body r (Source.body_of_ok h) style host
  · exact ofSource_of_body r (Source.body_of_error h) style host

/-- Two bytes are in use.  In one buffer a third lies behind them that begins no instruction, of the other
    one more bytes are said to be in use than any buffer has, and the reasons are logged differently.  The
    third byte would make a difference if it were seen. -/
theorem leftovers_unseen_third :
    let a : Source := ⟨.error .outOfBounds, [0x00, 0x2A, 0xF8], 2⟩
    let b : Source := ⟨.error (.extraction "unfinished"), [0x00, 0x2A], 0xFFFFFFFFFFFFFFFF⟩
    let finished : Source := { a with finished := .ok a.buffer }
    let opened (source : Source) : Session Scope := ofSource source .standard ⟨#[]⟩
    Indistinguishable Scope.resolver (opened a) (opened b) ∧ a.log ≠ b.log ∧
    Indistinguishable Scope.resolver (opened a) (ofBytes [0x00, 0x2A] .standard ⟨#[]⟩) ∧
    ((opened b).after Scope.resolver [.decodeAll]).decoder.body.complete = false ∧
    Indistinguishable Scope.resolver (opened finished) (ofBytes [0x00, 0x2A, 0xF8] .standard ⟨#[]⟩) ∧
    (opened finished).decoder.decodeAll.stop? ≠ (opened a).decoder.decodeAll.stop? := by
  intro a b finished opened
  obtain ⟨hpair, hsingle⟩ := leftovers_unseen Scope.resolver .standard ⟨#[]⟩
  refine ⟨hpair a b _ _ rfl rfl (by decide), by decide +kernel, ((hsingle a).2 _ rfl).1,
    ((hsingle b).2 _ rfl).2 [.decodeAll], ((hsingle finished).1 _ rfl).1, by decide +kernel⟩

end Session

end Cil
