import Cil.Batch
import Cil.Proofs.Invariant
import Cil.Proofs.Rendering

/-
  WHOLE BODIES, WHATEVER WAS DONE BEFORE.

  The instructions, the lines and the text of a body come from a walk of its own, which goes from the
  start to the end.  Where the decoder was left does not matter to it, be it in the middle of a walk or
  behind an error.  What matters is told by `Alike`: decoders over the same bytes that stand at the same
  place, in the same phase and with the same style.  A step keeps them alike and gives the same
  (`Alike.next`), so walks and renderings do too.

  What a walk gathers is what its steps give (`Yields`), up to the first that gives no instruction.
-/

namespace Cil

namespace Decoder

variable {σ : Type}

/-! ## A walk, step by step -/

theorem walkFrom_of_ok {d : Decoder} {l : Listed} (h : d.next.item = some (.ok l))
    (gathered : Array Listed) (log : Array Record) :
    d.walkFrom gathered log = d.next.decoder.walkFrom (gathered.push l) (log ++ d.next.log) := by
  rw [walkFrom]
  split
  all_goals
    rename_i hnext
    rw [hnext] at h
    cases h
  dsimp only
  rw [hnext]

/-- The step that gives no instruction is the last of the walk. -/
theorem walkFrom_of_stop {d : Decoder} {stop? : Option DecodeError}
    (h : d.next.item = stop?.map .error) (gathered : Array Listed) (log : Array Record) :
    d.walkFrom gathered log = ⟨gathered.toList, stop?, d.next.decoder, log ++ d.next.log⟩ := by
  rw [walkFrom]
  cases stop?
  all_goals
    split
    all_goals
      rename_i hnext
      rw [hnext] at h
      cases h
    rw [hnext]

/-! ## Decoders that behave alike -/

/-- The decoders stand at the same place of the same bytes.  Where the bytes came from may differ. -/
structure Alike (d e : Decoder) : Prop where
  bytes : d.body.bytes = e.body.bytes
  style : d.style = e.style
  phase : d.phase = e.phase
  position : d.position = e.position

namespace Alike

variable {d e : Decoder}

theorem rest (h : d.Alike e) : d.rest = e.rest := by
  rw [d.rest_eq, e.rest_eq, h.bytes, h.position]

theorem reset (hbytes : d.body.bytes = e.body.bytes) (hstyle : d.style = e.style) :
    d.reset.Alike e.reset := ⟨hbytes, hstyle, rfl, rfl⟩

/-- A step gives the same, logs the same, and leaves the decoders alike. -/
theorem next (h : d.Alike e) :
    d.next.item = e.next.item ∧ d.next.log = e.next.log ∧ d.next.decoder.Alike e.next.decoder := by
  have hread : Instruction.read d.position d.rest = Instruction.read e.position e.rest := by
    rw [h.position, h.rest]
  -- of the three things that a step can do, both do the same, for they have the same to decide by
  rcases d.next_cases with ⟨hend, hd⟩ | ⟨hphase, i, rest, hi, hd⟩ | ⟨hphase, hne, x, hx, hd⟩
  · rw [h.phase, h.rest] at hend
    rcases e.next_cases with ⟨-, he⟩ | ⟨hphase', i', rest', hi', he⟩ | ⟨hphase', hne', -⟩
    · rw [hd, he, h.phase, h.position, h.bytes]
      exact ⟨rfl, rfl, reset h.bytes h.style⟩
    · rw [hend.resolve_left hphase', Instruction.read_nil] at hi'
      cases hi'
    · exact absurd hend (not_or.mpr ⟨hphase', hne'⟩)
  · rw [h.phase] at hphase
    rcases e.next_cases with ⟨hend', -⟩ | ⟨-, i', rest', hi', he⟩ | ⟨-, -, x', hx', -⟩
    · rw [hread, hend'.resolve_left hphase, Instruction.read_nil] at hi
      cases hi
    · cases (hi.symm.trans hread).trans hi'
      rw [hd, he, h.style]
      exact ⟨rfl, rfl, h.bytes, h.style, rfl, congrArg (· + i.size) h.position⟩
    · cases (hi.symm.trans hread).trans hx'
  · rw [h.phase] at hphase
    rw [h.rest] at hne
    rcases e.next_cases with ⟨hend', -⟩ | ⟨-, i', rest', hi', -⟩ | ⟨-, -, x', hx', he⟩
    · exact absurd hend' (not_or.mpr ⟨hphase, hne⟩)
    · cases (hx.symm.trans hread).trans hi'
    · cases (hx.symm.trans hread).trans hx'
      rw [hd, he, h.position]
      exact ⟨rfl, rfl, h.bytes, h.style, rfl, h.position⟩

/-- Steps that do the same make walks that gather the same, and leave the decoders alike. -/
theorem walkFrom (h : d.Alike e) (gathered : Array Listed) (log : Array Record) :
    (d.walkFrom gathered log).outcome = (e.walkFrom gathered log).outcome ∧
    (d.walkFrom gathered log).log = (e.walkFrom gathered log).log ∧
    (d.walkFrom gathered log).decoder.Alike (e.walkFrom gathered log).decoder := by
  obtain ⟨hitem, hlog, hafter⟩ := h.next
  fun_induction Decoder.walkFrom d gathered log generalizing e with
  | case1 d gathered log l after records hnext _ ih =>
    rw [hnext] at hitem hlog hafter
    rw [walkFrom_of_ok hitem.symm, ← hlog]
    obtain ⟨hitem', hlog', hafter'⟩ := hafter.next
    exact ih hafter hitem' hlog' hafter'
  | case2 d gathered log x after records hnext =>
    rw [hnext] at hitem hlog hafter
    have hstop : e.next.item = (some x).map .error := hitem.symm
    rw [walkFrom_of_stop hstop, ← hlog]
    exact ⟨rfl, rfl, hafter⟩
  | case3 d gathered log after records hnext =>
    rw [hnext] at hitem hlog hafter
    have hstop : e.next.item = none.map .error := hitem.symm
    rw [walkFrom_of_stop hstop, ← hlog]
    exact ⟨rfl, rfl, hafter⟩

end Alike

/-- A whole body is decoded by its bytes and in its style; no other state of the decoder matters. -/
theorem decodeAll_congr {d e : Decoder} (hbytes : d.body.bytes = e.body.bytes) (hstyle : d.style = e.style) :
    d.decodeAll.outcome = e.decodeAll.outcome ∧ d.decodeAll.log = e.decodeAll.log ∧
      d.decodeAll.decoder.Alike e.decodeAll.decoder := by
  obtain ⟨houtcome, hlog, hafter⟩ := (Alike.reset hbytes hstyle).walkFrom #[] #[]
  exact ⟨houtcome, hlog, .reset hafter.bytes hafter.style⟩

/-- A rendering of the body looks at the decoder only to walk over the body. -/
theorem lines_congr {d e : Decoder} (hbytes : d.body.bytes = e.body.bytes) (hstyle : d.style = e.style)
    (r : Resolver σ) : d.lines r = e.lines r := by
  obtain ⟨houtcome, hlog, -⟩ := decodeAll_congr hbytes hstyle
  unfold lines
  dsimp only
  rw [houtcome, hlog]

/-- The text of a whole body depends on its bytes and its style only, too. -/
theorem text_congr {d e : Decoder} (hbytes : d.body.bytes = e.body.bytes) (hstyle : d.style = e.style)
    (r : Resolver σ) : d.text r = e.text r := by
  rw [text, lines_congr hbytes hstyle]
  rfl

/-! ## What steps give -/

/-- Steps from the first decoder give these instructions, one after another, and lead to the second. -/
inductive Yields : Decoder → List Listed → Decoder → Prop where
  | nil (d : Decoder) : Yields d [] d
  | cons {d e : Decoder} {l : Listed} {ls : List Listed} :
      d.next.item = some (.ok l) → Yields d.next.decoder ls e → Yields d (l :: ls) e

/-- A walk gathers what its steps give, and its last step gives what stopped it. -/
theorem walkFrom_of_yields {d e : Decoder} {ls : List Listed} {stop? : Option DecodeError}
    (h : d.Yields ls e) (hstop : e.next.item = stop?.map .error)
    (gathered : Array Listed) (log : Array Record) :
    (d.walkFrom gathered log).instructions = gathered.toList ++ ls ∧
    (d.walkFrom gathered log).stop? = stop? := by
  induction h generalizing gathered log with
  | nil d =>
    rw [walkFrom_of_stop hstop]
    simp
  | cons hitem _ ih =>
    rw [walkFrom_of_ok hitem]
    simpa using ih hstop (gathered.push _) _

/-- Steps can be taken up to one that gives no instruction: there are only so many bytes. -/
theorem exists_yields (d : Decoder) :
    ∃ ls e stop?, d.Yields ls e ∧ e.next.item = Option.map .error stop? := by
  cases hitem : d.next.item with
  | none => exact ⟨[], d, none, .nil d, hitem⟩
  | some result =>
    cases result with
    | error x => exact ⟨[], d, some x, .nil d, hitem⟩
    | ok l =>
      have hfewer := length_rest_next_lt hitem
      obtain ⟨ls, e, stop?, hyields, hstop⟩ := exists_yields d.next.decoder
      exact ⟨l :: ls, e, stop?, .cons hitem hyields, hstop⟩
termination_by d.rest.length

/-- A walk from here gathers instructions exactly if steps from here give them, and a last one gives
    what stopped it. -/
theorem drain_iff_yields {d : Decoder} {ls : List Listed} {stop? : Option DecodeError} :
    d.drain.instructions = ls ∧ d.drain.stop? = stop?
      ↔ ∃ e, d.Yields ls e ∧ e.next.item = stop?.map .error := by
  constructor
  · rintro ⟨rfl, rfl⟩
    obtain ⟨ls, e, stop?, hyields, hstop⟩ := d.exists_yields
    obtain ⟨hls, hstop?⟩ := walkFrom_of_yields hyields hstop #[] #[]
    rw [drain, hls, hstop?]
    exact ⟨e, hyields, hstop⟩
  · rintro ⟨e, hyields, hstop⟩
    exact walkFrom_of_yields hyields hstop #[] #[]

theorem Walk.outcome_eq_ok_iff {w : Walk} {ls : List Listed} :
    w.outcome = .ok ls ↔ w.instructions = ls ∧ w.stop? = none := by
  unfold outcome
  split
  · rename_i hstop
    simp [hstop]
  · rename_i e hstop
    simp [hstop]

theorem Walk.outcome_eq_error_iff {w : Walk} {e : DecodeError} :
    w.outcome = .error e ↔ w.stop? = some e := by
  unfold outcome
  split
  · rename_i hstop
    simp [hstop]
  · rename_i e' hstop
    simp [hstop]

/-- Walking a whole body succeeds exactly if steps from its start give the instructions, and then
    nothing. -/
theorem decodeAll_eq_ok_iff_yields {d : Decoder} {ls : List Listed} :
    d.decodeAll.outcome = .ok ls ↔ ∃ e, d.reset.Yields ls e ∧ e.next.item = none :=
  Walk.outcome_eq_ok_iff.trans drain_iff_yields

/-- It fails exactly if they give some instructions, and then the same failure. -/
theorem decodeAll_eq_error_iff_yields {d : Decoder} {x : DecodeError} :
    d.decodeAll.outcome = .error x ↔ ∃ ls e, d.reset.Yields ls e ∧ e.next.item = some (.error x) := by
  constructor
  · intro h
    have hstop : d.reset.drain.stop? = some x := Walk.outcome_eq_error_iff.mp h
    exact ⟨_, drain_iff_yields.mp ⟨rfl, hstop⟩⟩
  · rintro ⟨ls, hyields⟩
    exact Walk.outcome_eq_error_iff.mpr (drain_iff_yields.mpr hyields).2

/-! ## Decoders that have been used -/

/-- Some commands have led to the decoder from a new one. -/
def Used (d : Decoder) : Prop :=
  ∃ (σ : Type) (r : Resolver σ) (s : Session σ) (commands : List Session.Command),
    s.decoder.IsNew ∧ (s.after r commands).decoder = d

/-- However a decoder was used, it is consistent. -/
theorem Used.consistent {d : Decoder} (h : d.Used) : d.Consistent := by
  obtain ⟨σ, r, s, commands, hs, rfl⟩ := h
  exact Session.consistent_after r hs commands

/-- A decoder that is ready stands at the start. -/
theorem Consistent.reset_eq {d : Decoder} (h : d.Consistent) (hready : d.phase = .ready) :
    d.reset = d := by
  have hposition := h.ready hready
  obtain ⟨body, style, phase, position, rest, hrest⟩ := d
  cases hready
  cases hposition
  cases hrest
  rfl

/-! ## Texts under a lookup -/

/-- The text of the body under a lookup. -/
def shownText (lookup : Lookup) (member? : Option MemberLookup) (d : Decoder) :
    Except NotAMember (Except DecodeError String) :=
  (d.text (.ofLookup lookup member? : Resolver Unit)).result { host := () }

/-- It is the same in every world. -/
theorem result_text (d : Decoder) (lookup : Lookup) (member? : Option MemberLookup) (w : World σ) :
    (d.text (.ofLookup lookup member?)).result w = d.shownText lookup member? := by
  cases h : d.decodeAll.outcome with
  | error x => rw [shownText, (result_of_error h _ w).2, (result_of_error h _ _).2]
  | ok listed =>
    have htext {τ : Type} : (d.text (.ofLookup lookup member? : Resolver τ)).Gives _ :=
      Render.Gives.bind (fun w => result_lines h lookup member? w) fun ls => Render.gives_pure _
    rw [shownText, htext, htext]

/-- If lines come about in the standard way and members are found by their tables, it is given up exactly
    if a token is loaded that names no member. -/
theorem shownText_eq_error_iff {d : Decoder} (hstyle : d.style.StandardLines) (lookup : Lookup) :
    (∃ n, d.shownText lookup none = .error n) ↔
      ∃ listed, d.decodeAll.outcome = .ok listed ∧ ∃ l ∈ listed, l.instruction.LoadsNoMember := by
  cases h : d.decodeAll.outcome with
  | error x =>
    rw [shownText, (result_of_error h _ _).2]
    simp
  | ok listed =>
    have hlines := givenUp_iff_loadsNoMember hstyle h lookup { host := () }
    rw [shownText, text, Render.result_bind]
    cases hresult : (d.lines (.ofLookup lookup)).result { host := () } with
    | error n =>
      rw [hresult] at hlines
      simpa [bind, Except.bind] using hlines
    | ok ls =>
      rw [hresult] at hlines
      simpa [bind, Except.bind, Render.gives_pure _ _] using hlines

end Decoder

/-! ## Batches -/

/-- The text of a job is the text of any decoder over its bytes in its style. -/
theorem Job.text_eq_shownText {j : Job} {d : Decoder} (hbytes : d.body.bytes = j.bytes)
    (hstyle : d.style = j.style) : j.text = d.shownText j.lookup j.member? := by
  rw [Decoder.shownText, Decoder.text_congr (e := .ofBytes j.bytes j.style) hbytes hstyle]
  rfl

/-- A job is given up exactly if its body loads a token that names no member, if its lines come about in
    the standard way and its members are found by their tables. -/
theorem Job.text_eq_error_iff {j : Job} (hstyle : j.style.StandardLines) (hmember : j.member? = none) :
    (∃ n, j.text = .error n) ↔
      ∃ listed, (Decoder.ofBytes j.bytes j.style).decodeAll.outcome = .ok listed ∧
        ∃ l ∈ listed, l.instruction.LoadsNoMember := by
  rw [Job.text_eq_shownText (d := .ofBytes j.bytes j.style) rfl rfl, hmember]
  exact Decoder.shownText_eq_error_iff hstyle j.lookup

/-- **A whole body does not depend on what was done before.**  On a decoder that has been used in any
    way, the instructions, the lines and the text of the body are those of a new decoder over the same
    bytes with the same style, in every world, and the decoder is ready at the start afterwards.  The
    instructions are those that steps from a ready decoder give before they give nothing; there are none
    exactly if steps give a failure first, which is then the failure of the whole.

    A text of a batch is the text of any such decoder over the bytes of the job, whatever the other jobs
    are.  If lines come about in the standard way and members are found by their tables, a batch is given up
    exactly if one of its bodies loads a token that names no member. -/
theorem whole_body_anew :
    (∀ {σ : Type} (r : Resolver σ) (s : Session σ), s.decoder.Used →
      let d := s.decoder
      let new := Decoder.ofBytes d.body.bytes d.style
      (d.decodeAll.outcome = new.decodeAll.outcome ∧ d.lines r = new.lines r ∧ d.text r = new.text r) ∧
      (∀ c ∈ [Session.Command.decodeAll, .lines, .text],
        (s.run r c).2.decoder.phase = .ready ∧ (s.run r c).2.decoder.position = 0) ∧
      (d.phase = .ready →
        (∀ ls, d.decodeAll.outcome = .ok ls ↔ ∃ e, d.Yields ls e ∧ e.next.item = none) ∧
        (∀ x, d.decodeAll.outcome = .error x ↔
          ∃ ls e, d.Yields ls e ∧ e.next.item = some (.error x)))) ∧
    (∀ (jobs : List Job) (texts : List (Except DecodeError String)), Batch.render jobs = .ok texts →
      texts.length = jobs.length ∧
      ∀ (i : Nat) (j : Job), jobs[i]? = some j →
        ∀ d : Decoder, d.Used → d.body.bytes = j.bytes → d.style = j.style →
          ∀ {σ : Type} (w : World σ), ∃ t, texts[i]? = some t ∧
            (d.text (.ofLookup j.lookup j.member?)).result w = .ok t) ∧
    ∀ jobs : List Job, (∀ j ∈ jobs, j.style.StandardLines ∧ j.member? = none) →
      ((∃ n, Batch.render jobs = .error n) ↔
        ∃ j ∈ jobs, ∃ listed, (Decoder.ofBytes j.bytes j.style).decodeAll.outcome = .ok listed ∧
          ∃ l ∈ listed, l.instruction.LoadsNoMember) := by
  refine ⟨?_, ?_, ?_⟩
  · intro σ r s hused d new
    have hbytes : d.body.bytes = new.body.bytes := rfl
    have hstyle : d.style = new.style := rfl
    refine ⟨?_, ?_, ?_⟩
    · exact ⟨(Decoder.decodeAll_congr hbytes hstyle).1, Decoder.lines_congr hbytes hstyle r,
        Decoder.text_congr hbytes hstyle r⟩
    · intro c hc
      have hdecoder : (s.run r c).2.decoder = d.decodeAll.decoder := by
        simp only [List.mem_cons, List.not_mem_nil, or_false] at hc
        rcases hc with rfl | rfl | rfl <;> simp [Session.run, d]
      rw [hdecoder]
      exact ⟨rfl, rfl⟩
    · intro hready
      have hreset : d.reset = d := hused.consistent.reset_eq hready
      refine ⟨fun ls => ?_, fun x => ?_⟩
      · rw [Decoder.decodeAll_eq_ok_iff_yields, hreset]
      · rw [Decoder.decodeAll_eq_error_iff_yields, hreset]
  · intro jobs texts h
    have htexts : jobs.map Job.text = texts.map .ok := mapM_eq_ok_iff.mp h
    refine ⟨by simpa using (congrArg List.length htexts).symm, ?_⟩
    intro i j hj d _ hbytes hstyle σ w
    obtain ⟨t, ht, htext⟩ := exists_getElem?_of_map_eq htexts hj
    refine ⟨t, ht, ?_⟩
    rw [d.result_text, ← Job.text_eq_shownText hbytes hstyle, htext]
  · intro jobs hjobs
    rw [Batch.render, exists_mapM_eq_error_iff]
    apply exists_congr
    intro j
    apply and_congr_right
    intro hj
    exact Job.text_eq_error_iff (hjobs j hj).1 (hjobs j hj).2

/-- A decoder that has met a byte which is no opcode; one that has given a `nop` and stands in the middle
    of its walk; and a batch of their bodies, the first of which has no text. -/
theorem whole_body_anew_stopped :
    let lookup : Lookup := fun c t => .error (.unresolved t c.word)
    let r : Resolver Unit := .ofLookup lookup
    let start (bytes : Bytes) : Session Unit :=
      { decoder := .ofBytes bytes .standard, world := ⟨(), #[]⟩ }
    let stopped := (start [0x00, 0xF8]).after r [.next, .next]
    let halfway := (start [0x00, 0x2A]).after r [.next]
    let job (bytes : Bytes) : Job := { bytes, style := .standard, lookup }
    let jobs : List Job := [job [0x00, 0xF8], job [0x00, 0x2A]]
    stopped.decoder.phase = .exhausted ∧ halfway.decoder.position = 1 ∧
    stopped.decoder.decodeAll.outcome = .error (.undefinedOpcode [0xF8]) ∧
    (stopped.run r .text).2.decoder.phase = .ready ∧
    (∃ ls e, (start [0x00, 0xF8]).decoder.Yields ls e ∧
      e.next.item = some (.error (.undefinedOpcode [0xF8]))) ∧
    ∃ texts t, Batch.render jobs = .ok texts ∧ texts[1]? = some t ∧
      (halfway.decoder.text r).result ⟨(), #[]⟩ = .ok t := by
  intro lookup r start stopped halfway job jobs
  let nop : Instruction := ⟨0, ⟨0x00, "nop", .empty⟩, .empty⟩
  let ret : Instruction := ⟨1, ⟨0x2A, "ret", .empty⟩, .empty⟩
  have hused (bytes : Bytes) (commands : List Session.Command) :
      ((start bytes).after r commands).decoder.Used :=
    ⟨Unit, r, start bytes, commands, .inl ⟨_, _, rfl⟩, rfl⟩
  have hfailed : (Decoder.ofBytes [0x00, 0xF8] .standard).decodeAll.outcome
      = .error (.undefinedOpcode [0xF8]) :=
    Decoder.decodeAll_ofBytes_eq_error_iff.mpr (by decide +kernel)
  have hread : Instruction.readAll 0 [0x00, 0x2A] = ⟨[nop, ret], none⟩ := by decide +kernel
  have hdecoded := Decoder.decodeAll_ofBytes_of_readAll hread .standard
  have hjobs : ∀ j ∈ jobs, j.style.StandardLines ∧ j.member? = none := by
    intro j hj
    rcases List.mem_cons.mp hj with rfl | hj
    · exact ⟨rfl, rfl⟩
    · cases List.mem_singleton.mp hj
      exact ⟨rfl, rfl⟩
  obtain ⟨hwhole, hbatch, hgivenUp⟩ := whole_body_anew
  obtain ⟨⟨houtcome, -⟩, hafter, -⟩ := hwhole r stopped (hused _ _)
  obtain ⟨-, -, hsteps⟩ := hwhole r (start [0x00, 0xF8]) (hused _ [])
  refine ⟨rfl, rfl, houtcome.trans hfailed, (hafter .text (by simp)).1, ?_, ?_⟩
  · exact ((hsteps rfl).2 _).mp hfailed
  · cases hrender : Batch.render jobs with
    | error n =>
      -- neither body loads a token
      obtain ⟨j, hj, listed, hlisted, l, hl, t, ho, -⟩ := (hgivenUp jobs hjobs).mp ⟨n, hrender⟩
      rcases List.mem_cons.mp hj with rfl | hj
      · cases hfailed.symm.trans hlisted
      · cases List.mem_singleton.mp hj
        cases hdecoded.symm.trans hlisted
        obtain ⟨i, hi, rfl⟩ := List.mem_map.mp hl
        rcases List.mem_cons.mp hi with rfl | hi
        · cases ho
        · cases List.mem_singleton.mp hi
          cases ho
    | ok texts =>
      obtain ⟨t, ht, htext⟩ := (hbatch jobs texts hrender).2 1 _ rfl halfway.decoder (hused _ _) rfl rfl
        (⟨(), #[]⟩ : World Unit)
      exact ⟨texts, t, rfl, ht, htext⟩

end Cil
