import Cil.Proofs.Asking
import Cil.Proofs.Walk

/-
  WHAT A LINE DEPENDS ON.

  Whatever a style makes of an instruction, it learns nothing but what is answered about the token that the
  operand carries.  So a line is the same in every world and under every resolver, as long as the answers
  about its token are the same and asking does not change them (`Listed.result_lineIn_congr`).

  A loaded token that names no member is what gives a rendering up.  By their tables, there is a line for
  every other instruction in every style (`Listed.exists_result_lineIn`), and in a style whose lines come
  about in the standard way there is none for these (`Listed.result_lineIn_eq_error_iff`).  A reason
  instead of an answer changes the lines that it is about and no other ones (`Decoder.lines_isolated`).
-/

namespace Cil

/-! ## Computations whose result is the same in every world -/

namespace Render

variable {σ α β : Type}

/-- The rendering gives `a`, whatever world it runs in. -/
def Gives (x : Render σ α) (a : Except NotAMember α) : Prop := ∀ w, x.result w = a

theorem gives_pure (a : α) : (pure a : Render σ α).Gives (.ok a) := fun _ => rfl

theorem gives_report (records : Array Record) : (report records : Render σ Unit).Gives (.ok ()) :=
  fun _ => rfl

/-- What comes next runs in a world that the first part has left, and does not look at it. -/
theorem Gives.bind {x : Render σ α} {a : Except NotAMember α} {f : α → Render σ β}
    {g : α → Except NotAMember β} (hx : x.Gives a) (hf : ∀ v, (f v).Gives (g v)) :
    (x >>= f).Gives (a >>= g) := by
  intro w
  rw [result_bind, hx w]
  congr 1
  funext v
  exact hf v _

/-- Over a list the answers are independent of each other, so the first that is given up decides. -/
theorem Gives.mapM {f : α → Render σ β} {g : α → Except NotAMember β} {xs : List α}
    (h : ∀ x ∈ xs, (f x).Gives (g x)) : (xs.mapM f).Gives (xs.mapM g) := by
  induction xs with
  | nil =>
    rw [List.mapM_nil, List.mapM_nil]
    exact gives_pure []
  | cons x xs ih =>
    have hx : (f x).Gives (g x) := h x List.mem_cons_self
    have hxs : (xs.mapM f).Gives (xs.mapM g) := ih fun y hy => h y (List.mem_cons_of_mem x hy)
    rw [List.mapM_cons, List.mapM_cons]
    exact hx.bind fun v => hxs.bind fun vs => gives_pure (v :: vs)

end Render

/-! ## One line -/

/-- Lines come about in the standard way, whatever the other conventions are. -/
def Style.StandardLines (style : Style) : Prop := style.line = standardWriting style.quoted

theorem Style.standardLines_standard : standard.StandardLines := rfl

namespace Listed

variable {σ τ : Type}

/-- What a line is put together from, given the text of the operand. -/
def parts (l : Listed) (operand : Except Error String) : Parts :=
  { offset := l.instruction.offset
    mnemonic := l.instruction.opcode.name
    operand }

/-- In the standard way the operand is asked for once, and the line made of what it says. -/
theorem lineIn_of_standardLines {style : Style} (h : style.StandardLines) (r : Resolver σ) (l : Listed) :
    l.lineIn r style = (do
      let x ← l.operandText r
      let line := Style.standardLine style.quoted (l.parts x.1)
      Render.report line.log
      return (line.text, x.2)) := by
  rw [lineIn, h]
  rfl

/-- Standard lines ask for the operand, once, and lay it out. -/
theorem result_lineIn {style : Style} (h : style.StandardLines) (r : Resolver σ) (l : Listed)
    (w : World σ) :
    (l.lineIn r style).result w = (l.operandText r).result w >>= fun x =>
      .ok ((Style.standardLine style.quoted (l.parts x.1)).text, x.2) := by
  rw [lineIn_of_standardLines h, Render.result_bind]
  rfl

/-- There is a line exactly if there is a text for the operand, or a reason why it has none. -/
theorem result_lineIn_eq_ok_iff {style : Style} (h : style.StandardLines) {l after : Listed}
    {r : Resolver σ} {w : World σ} {line : String} :
    (l.lineIn r style).result w = .ok (line, after) ↔
      ∃ operand, (l.operandText r).result w = .ok (operand, after) ∧
        line = (Style.standardLine style.quoted (l.parts operand)).text := by
  rw [result_lineIn h]
  constructor
  · intro hline
    cases hoperand : (l.operandText r).result w with
    | error n =>
      rw [hoperand] at hline
      cases hline
    | ok result =>
      rw [hoperand] at hline
      cases hline
      exact ⟨result.1, rfl, rfl⟩
  · rintro ⟨operand, hoperand, rfl⟩
    rw [hoperand]
    rfl

/-! ## Two resolvers -/

/-- From two hosts, two resolvers answer alike whatever is asked about the token of an instruction. -/
def AnsweredAlike (l : Listed) (r : Resolver σ) (host : σ) (r' : Resolver τ) (host' : τ) : Prop :=
  ∀ t, l.instruction.token? = some t →
    (∀ c, r.answer host c t = r'.answer host' c t) ∧ r.found host t = r'.found host' t

section

variable {r : Resolver σ} {r' : Resolver τ} {w : World σ} {w' : World τ}

/-- The text of an operand depends on the host by the one answer only. -/
theorem result_operandText_congr {l : Listed} (h : l.AnsweredAlike r w.host r' w'.host) :
    (l.operandText r).result w = (l.operandText r').result w' := by
  rcases l.operandText_cases with ⟨-, s, htext⟩ | ⟨c, t, ho, htext⟩ | ⟨t, ho, htext⟩
  · rw [htext, htext]
    rfl
  · rw [htext, htext]
    show Except.ok ((r.answer w.host c t).map (c.shownIn l.style), l.told c (r.answer w.host c t)) = _
    rw [(h t (Instruction.token?_of_operand ho)).1 c]
    rfl
  · rw [htext, htext, Render.result_bind]
    show (r.found w.host t >>= fun found => .ok (found.map Member.shown, l)) = _
    rw [(h t (Instruction.token?_of_operand ho)).2, Render.result_bind]
    rfl

/-- The signature depends on the host by the one answer only. -/
theorem result_signature_congr {l : Listed} (h : l.AnsweredAlike r w.host r' w'.host) :
    (l.signature r).result w = (l.signature r').result w' := by
  rcases l.signature_cases with ⟨answer, hanswer⟩ | ⟨t, ht, hasked⟩
  · rw [hanswer, hanswer]
    rfl
  · rw [hasked, hasked]
    show Except.ok (r.answer w.host .signature t, l.answered (r.answer w.host .signature t)) = _
    rw [(h t (Instruction.token?_of_operand ht.2)).1 .signature]
    rfl

/-- What is made of an answer that is the same is the same, if asking has not changed the hosts. -/
theorem result_bind_congr {α : Type} {x : Render σ (α × Listed)} {x' : Render τ (α × Listed)}
    {k : α × Listed → Render σ (String × Listed)} {k' : α × Listed → Render τ (String × Listed)}
    (hx : x.result w = x'.result w')
    (hk : ∀ v, x.result w = .ok v → (k v).result (x.run.run w).2 = (k' v).result (x'.run.run w').2) :
    (x >>= k).result w = (x' >>= k').result w' := by
  rw [Render.result_bind, Render.result_bind, ← hx]
  cases hresult : x.result w with
  | error n => rfl
  | ok v => exact hk v hresult

/-- Step by step, two resolvers that answer alike and are not changed by asking lead to the same line. -/
theorem result_write_congr (hr : r.Steady) (hr' : r'.Steady) {l : Listed}
    (h : l.AnsweredAlike r w.host r' w'.host) (writing : Writing) :
    (l.write r writing).result w = (l.write r' writing).result w' := by
  have hkeeps := Render.closed_keepsHost hr
  have hkeeps' := Render.closed_keepsHost hr'
  induction writing generalizing l w w' with
  | done text => rfl
  | report records next ih =>
    -- the records go to the logs, and the hosts stay
    have hhosts : l.AnsweredAlike r ({ w with log := w.log ++ records } : World σ).host r'
        ({ w' with log := w'.log ++ records } : World τ).host := h
    exact ih hhosts
  | operand next ih =>
    refine result_bind_congr (result_operandText_congr h) fun v hv => ih v.1 ?_
    rw [hkeeps.operandText l w, hkeeps'.operandText l w']
    unfold AnsweredAlike
    rwa [instruction_of_operandText hv]
  | signature next ih =>
    refine result_bind_congr (result_signature_congr h) fun v hv => ih v.1 ?_
    rw [hkeeps.signature l w, hkeeps'.signature l w']
    unfold AnsweredAlike
    rwa [instruction_of_signature hv]

/-- **What a line can depend on.**  In whichever style, two hosts that answer the one request of an
    instruction alike and are not changed by it give the same line. -/
theorem result_lineIn_congr (hr : r.Steady) (hr' : r'.Steady) {l : Listed}
    (h : l.AnsweredAlike r w.host r' w'.host) (style : Style) :
    (l.lineIn r style).result w = (l.lineIn r' style).result w' :=
  result_write_congr hr hr' h (style.line l.view)

end

/-! ## Members by their tables -/

section

variable {r : Resolver σ} (hr : r.member? = none) {l : Listed}
include hr

/-- An operand that loads no token without a member has a text, or a reason for having none. -/
theorem exists_result_operandText (h : ¬ l.instruction.LoadsNoMember) (w : World σ) :
    ∃ x, (l.operandText r).result w = .ok x := by
  rcases operandText_cases_byTable h with ⟨-, s, htext⟩ | ⟨q, write, after, -, htext⟩
  · rw [htext]
    exact ⟨_, rfl⟩
  · rw [htext r hr]
    exact ⟨_, rfl⟩

/-- Whatever a line asks for, and however often, it is not given up if the operand never is. -/
theorem exists_result_write (h : ¬ l.instruction.LoadsNoMember) (writing : Writing) (w : World σ) :
    ∃ x, (l.write r writing).result w = .ok x := by
  induction writing generalizing l w with
  | done text => exact ⟨_, rfl⟩
  | report records next ih => exact ih h { w with log := w.log ++ records }
  | operand next ih =>
    obtain ⟨⟨operand, after⟩, hoperand⟩ := exists_result_operandText hr h w
    rw [write, Render.result_bind, hoperand]
    exact ih operand (instruction_of_operandText hoperand ▸ h) _
  | signature next ih =>
    obtain ⟨⟨answer, after⟩, hanswer⟩ : ∃ x, (l.signature r).result w = .ok x := by
      rcases l.signature_cases with ⟨answer, hanswer⟩ | ⟨t, -, hasked⟩
      · exact ⟨_, by rw [hanswer]; rfl⟩
      · exact ⟨_, by rw [hasked]; rfl⟩
    rw [write, Render.result_bind, hanswer]
    exact ih answer (instruction_of_signature hanswer ▸ h) _

/-- In every style there is a line, whatever the resolver answers. -/
theorem exists_result_lineIn (h : ¬ l.instruction.LoadsNoMember) (style : Style) (w : World σ) :
    ∃ x, (l.lineIn r style).result w = .ok x := exists_result_write hr h (style.line l.view) w

/-- There is no text for an operand exactly if it loads a token that names no member. -/
theorem result_operandText_eq_error_iff (w : World σ) :
    (∃ n, (l.operandText r).result w = .error n) ↔ l.instruction.LoadsNoMember := by
  constructor
  · rintro ⟨n, hn⟩
    apply Classical.byContradiction
    intro hload
    obtain ⟨x, hx⟩ := exists_result_operandText hr hload w
    cases hn.symm.trans hx
  · intro hload
    obtain ⟨n, hthrow⟩ := operandText_of_loadsNoMember hload
    refine ⟨n, ?_⟩
    rw [hthrow r hr]
    rfl

/-- In the standard way there is no line exactly if there is no text. -/
theorem result_lineIn_eq_error_iff {style : Style} (hstyle : style.StandardLines) (w : World σ) :
    (∃ n, (l.lineIn r style).result w = .error n) ↔ l.instruction.LoadsNoMember := by
  rw [← result_operandText_eq_error_iff hr w, result_lineIn hstyle]
  cases (l.operandText r).result w with
  | error n => simp [bind, Except.bind]
  | ok x => simp [bind, Except.bind]

end

end Listed

/-! ## Lookups -/

/-- By its table, the member that a token names depends on the answers about it alone. -/
theorem Lookup.member_congr {lookup lookup' : Lookup} {t : Token} (h : ∀ c, lookup c t = lookup' c t) :
    lookup.member t = lookup'.member t := by
  unfold member
  simp only [h]

namespace Resolver

variable {σ : Type}

/-- Without a way of its own a resolver finds members by their tables. -/
theorem found_of_byTable {r : Resolver σ} (hr : r.member? = none) (host : σ) (t : Token) :
    r.found host t = Lookup.member (r.answer host) t := by
  unfold found findMember askByTable Lookup.member
  rw [hr, Option.getD_none]
  cases t.memberKind? with
  | none => rfl
  | some k => rfl

/-- A fixed lookup finds members in its own way, if it has one. -/
theorem found_ofLookup (lookup : Lookup) (member? : Option MemberLookup) (host : σ) (t : Token) :
    (ofLookup lookup member?).found host t = member?.getD lookup.member t := by
  cases member? with
  | some find => rfl
  | none => exact found_of_byTable rfl host t

end Resolver

namespace Listed

variable {σ τ : Type}

/-- By their tables, members are found alike where everything else is answered alike. -/
theorem answeredAlike_of_byTable {r : Resolver σ} (hr : r.member? = none) {r' : Resolver τ}
    (hr' : r'.member? = none) {host : σ} {host' : τ} {l : Listed}
    (h : ∀ t, l.instruction.token? = some t → ∀ c, r.answer host c t = r'.answer host' c t) :
    l.AnsweredAlike r host r' host' := by
  intro t ht
  rw [Resolver.found_of_byTable hr, Resolver.found_of_byTable hr']
  exact ⟨h t ht, Lookup.member_congr (h t ht)⟩

/-- The line of an instruction under a lookup. -/
def shown (lookup : Lookup) (member? : Option MemberLookup) (l : Listed) : Except NotAMember String :=
  ((l.line (.ofLookup lookup member? : Resolver Unit)).result { host := () }).map Prod.fst

/-- It is the same in every world. -/
theorem result_line (l : Listed) (lookup : Lookup) (member? : Option MemberLookup) (w : World σ) :
    ((l.line (.ofLookup lookup member?)).result w).map Prod.fst = l.shown lookup member? := by
  have halike : l.AnsweredAlike (.ofLookup lookup member? : Resolver σ) w.host
      (.ofLookup lookup member? : Resolver Unit) () := by
    intro t _
    rw [Resolver.found_ofLookup, Resolver.found_ofLookup]
    exact ⟨fun _ => rfl, rfl⟩
  have hsteady {τ : Type} : (Resolver.ofLookup lookup member? : Resolver τ).Steady :=
    Resolver.steady_ofLookup lookup member?
  exact congrArg (Except.map Prod.fst) (result_lineIn_congr hsteady hsteady halike l.style)

/-- Two lookups that answer alike about the token of an instruction lead to the same line. -/
theorem shown_congr {l : Listed} {lookup lookup' : Lookup}
    (h : ∀ t, l.instruction.token? = some t → ∀ c, lookup c t = lookup' c t) :
    l.shown lookup none = l.shown lookup' none := by
  have halike : l.AnsweredAlike (.ofLookup lookup : Resolver Unit) ()
      (.ofLookup lookup' : Resolver Unit) () := answeredAlike_of_byTable rfl rfl h
  exact congrArg (Except.map Prod.fst)
    (result_lineIn_congr (Resolver.steady_ofLookup _ _) (Resolver.steady_ofLookup _ _) halike l.style)

/-- An instruction other than an `ldtoken` of no member always has a line. -/
theorem exists_shown {l : Listed} (h : ¬ l.instruction.LoadsNoMember) (lookup : Lookup) :
    ∃ s, l.shown lookup none = .ok s := by
  obtain ⟨x, hx⟩ :=
    exists_result_lineIn (r := (.ofLookup lookup : Resolver Unit)) rfl h l.style { host := () }
  refine ⟨x.1, ?_⟩
  rw [shown, line, hx]
  rfl

/-- Standard lines are given up exactly at an `ldtoken` of no member. -/
theorem shown_eq_error_iff {l : Listed} (h : l.style.StandardLines) (lookup : Lookup) :
    (∃ n, l.shown lookup none = .error n) ↔ l.instruction.LoadsNoMember := by
  rw [← result_lineIn_eq_error_iff (r := (.ofLookup lookup : Resolver Unit)) rfl h { host := () }, shown,
    line]
  cases (l.lineIn (.ofLookup lookup : Resolver Unit) l.style).result { host := () } with
  | error n => simp [Except.map]
  | ok v => simp [Except.map]

end Listed

/-! ## All lines -/

/-- A list of computations succeeds exactly if every one does. -/
theorem mapM_eq_ok_iff {ε α β : Type} {f : α → Except ε β} {xs : List α} {ys : List β} :
    xs.mapM f = .ok ys ↔ xs.map f = ys.map .ok := by
  induction xs generalizing ys with
  | nil =>
    rw [List.mapM_nil, List.map_nil]
    cases ys with
    | nil => simp [pure, Except.pure]
    | cons y ys => simp [pure, Except.pure]
  | cons x xs ih =>
    rw [List.mapM_cons, List.map_cons]
    cases hx : f x with
    | error n => cases ys <;> simp [bind, Except.bind]
    | ok v =>
      cases hxs : xs.mapM f with
      | error n =>
        cases ys with
        | nil => simp [bind, Except.bind]
        | cons y ys => simp [bind, Except.bind, ← ih, hxs]
      | ok vs =>
        cases ys with
        | nil => simp [bind, Except.bind, pure, Except.pure]
        | cons y ys => simp [bind, Except.bind, pure, Except.pure, ← ih, hxs]

theorem exists_mapM_eq_error_iff {ε α β : Type} {f : α → Except ε β} {xs : List α} :
    (∃ n, xs.mapM f = .error n) ↔ ∃ x ∈ xs, ∃ n, f x = .error n := by
  induction xs with
  | nil => simp [pure, Except.pure]
  | cons x xs ih =>
    rw [List.mapM_cons]
    cases hx : f x with
    | error n => simp [bind, Except.bind, hx]
    | ok v =>
      cases hxs : xs.mapM f with
      | error n => simp [bind, Except.bind, hx, ← ih, hxs]
      | ok vs => simp [bind, Except.bind, pure, Except.pure, hx, ← ih, hxs]

/-- The result at a place is that of the computation at this place. -/
theorem exists_getElem?_of_map_eq {ε α β : Type} {f : α → Except ε β} {xs : List α} {ys : List β}
    (h : xs.map f = ys.map .ok) {k : Nat} {x : α} (hx : xs[k]? = some x) :
    ∃ y, ys[k]? = some y ∧ f x = .ok y := by
  have hk : (xs.map f)[k]? = (ys.map Except.ok)[k]? := by rw [h]
  rw [List.getElem?_map, List.getElem?_map, hx, Option.map_some] at hk
  obtain ⟨y, hy, hfx⟩ := Option.map_eq_some_iff.mp hk.symm
  exact ⟨y, hy, hfx.symm⟩

namespace Decoder

variable {σ : Type}

/-- Lines that do not depend on the world are gathered one after another. -/
theorem gives_lines {d : Decoder} {listed : List Listed} (h : d.decodeAll.outcome = .ok listed)
    {r : Resolver σ} {g : Listed → Except NotAMember String}
    (hline : ∀ l ∈ listed, ∀ w, ((l.line r).result w).map Prod.fst = g l) :
    (d.lines r).Gives (listed.mapM g >>= fun ls => .ok (.ok ls)) := by
  have hgives : ∀ l ∈ listed, (do return (← l.line r).1 : Render σ String).Gives (g l) := by
    intro l hl w
    rw [← hline l hl w, Render.result_bind]
    cases (l.line r).result w <;> rfl
  unfold lines
  dsimp only
  rw [h]
  refine (Render.gives_report _).bind (g := fun _ => _) fun _ => ?_
  exact (Render.Gives.mapM hgives).bind fun ls => Render.gives_pure _

/-- The lines of a body that decodes are those of its instructions, each by itself. -/
theorem result_lines {d : Decoder} {listed : List Listed} (h : d.decodeAll.outcome = .ok listed)
    (lookup : Lookup) (member? : Option MemberLookup) (w : World σ) :
    (d.lines (.ofLookup lookup member?)).result w
      = listed.mapM (Listed.shown lookup member?) >>= fun ls => .ok (.ok ls) :=
  gives_lines h (fun l _ w => l.result_line lookup member? w) w

/-- The lines of a body are those of its instructions. -/
theorem result_lines_eq_ok_iff {d : Decoder} {listed : List Listed}
    (h : d.decodeAll.outcome = .ok listed) {lookup : Lookup} {member? : Option MemberLookup} {w : World σ}
    {ls : List String} :
    (d.lines (.ofLookup lookup member?)).result w = .ok (.ok ls)
      ↔ listed.map (Listed.shown lookup member?) = ls.map .ok := by
  rw [result_lines h, ← mapM_eq_ok_iff]
  cases listed.mapM (Listed.shown lookup member?) with
  | error n => simp [bind, Except.bind]
  | ok ls' => simp [bind, Except.bind]

/-- The lines of a body are given up where one of them is. -/
theorem result_lines_eq_error_iff {d : Decoder} {listed : List Listed}
    (h : d.decodeAll.outcome = .ok listed) (lookup : Lookup) (member? : Option MemberLookup) (w : World σ) :
    (∃ n, (d.lines (.ofLookup lookup member?)).result w = .error n)
      ↔ ∃ l ∈ listed, ∃ n, l.shown lookup member? = .error n := by
  rw [← exists_mapM_eq_error_iff, result_lines h]
  cases listed.mapM (Listed.shown lookup member?) with
  | error n => simp [bind, Except.bind]
  | ok ls => simp [bind, Except.bind]

/-- What is decoded has the style of the decoder, and remembers nothing. -/
theorem eq_fresh_of_decodeAll {d : Decoder} {listed : List Listed} (h : d.decodeAll.outcome = .ok listed) :
    ∀ l ∈ listed, l = fresh d.style l.instruction := by
  obtain ⟨-, rfl⟩ := decodeAll_outcome_eq_ok_iff.mp h
  intro l hl
  obtain ⟨i, -, rfl⟩ := List.mem_map.mp hl
  rfl

/-- In the standard way, rendering is given up exactly if there is a token in the body that names no
    member. -/
theorem givenUp_iff_loadsNoMember {d : Decoder} (hstyle : d.style.StandardLines) {listed : List Listed}
    (h : d.decodeAll.outcome = .ok listed) (lookup : Lookup) (w : World σ) :
    (∃ n, (d.lines (.ofLookup lookup)).result w = .error n)
      ↔ ∃ l ∈ listed, l.instruction.LoadsNoMember := by
  rw [result_lines_eq_error_iff h]
  apply exists_congr
  intro l
  apply and_congr_right
  intro hl
  apply Listed.shown_eq_error_iff
  rw [eq_fresh_of_decodeAll h l hl]
  exact hstyle

/-- A body that cannot be walked to its end is not rendered at all. -/
theorem result_of_error {d : Decoder} {e : DecodeError} (h : d.decodeAll.outcome = .error e)
    (r : Resolver σ) (w : World σ) :
    (d.lines r).result w = .ok (.error e) ∧ (d.text r).result w = .ok (.error e) := by
  have hlines : (d.lines r).Gives (.ok (.error e)) := by
    unfold lines
    dsimp only
    rw [h]
    exact (Render.gives_report _).bind fun _ => Render.gives_pure _
  have htext : (d.text r).Gives (.ok (.error e)) := hlines.bind fun _ => Render.gives_pure _
  exact ⟨hlines w, htext w⟩

/-- **A fault stays where it is.**  A body that is walked to its end is rendered line by line, whatever
    the answers about its tokens are, unless it loads a token that names no member.  Line `k` is the line
    of instruction `k` as it is rendered alone.  If lines come about in the standard way, the rendering is
    given up then, and only then, when such a token is loaded.  A body that is not walked to its end gives
    what stopped the walk, whatever the resolver.

    Two lookups that differ in their answers about one token only lead to the same lines but for those
    of the instructions that carry it. -/
theorem lines_isolated (d : Decoder) :
    (∀ listed, d.decodeAll.outcome = .ok listed → ∀ (lookup : Lookup) {σ : Type} (w : World σ),
      (d.style.StandardLines →
        ((∃ n, (d.lines (.ofLookup lookup)).result w = .error n)
          ↔ ∃ l ∈ listed, l.instruction.LoadsNoMember)) ∧
      ((¬ ∃ l ∈ listed, l.instruction.LoadsNoMember) → ∃ ls,
        (d.lines (.ofLookup lookup)).result w = .ok (.ok ls) ∧ ls.length = listed.length ∧
        ∀ (k : Nat) (l : Listed), listed[k]? = some l → ∃ s, ls[k]? = some s ∧
          ∀ {τ : Type} (w' : World τ),
            ((l.line (.ofLookup lookup)).result w').map Prod.fst = .ok s)) ∧
    (∀ e, d.decodeAll.outcome = .error e → ∀ {σ : Type} (r : Resolver σ) (w : World σ),
      (d.lines r).result w = .ok (.error e) ∧ (d.text r).result w = .ok (.error e)) ∧
    ∀ listed, d.decodeAll.outcome = .ok listed → ∀ (t : Token) (lookup lookup' : Lookup),
      (∀ c t', t' ≠ t → lookup c t' = lookup' c t') →
      ∀ {σ τ : Type} (w : World σ) (w' : World τ) (ls ls' : List String),
        (d.lines (.ofLookup lookup)).result w = .ok (.ok ls) →
        (d.lines (.ofLookup lookup')).result w' = .ok (.ok ls') →
        ∀ (k : Nat) (l : Listed), listed[k]? = some l → l.instruction.token? ≠ some t →
          ls[k]? = ls'[k]? := by
  refine ⟨?_, ?_, ?_⟩
  · intro listed h lookup σ w
    refine ⟨fun hstyle => givenUp_iff_loadsNoMember hstyle h lookup w, ?_⟩
    intro hnone
    cases hls : listed.mapM (Listed.shown lookup none) with
    | error n =>
      obtain ⟨l, hl, n, hn⟩ := exists_mapM_eq_error_iff.mp ⟨n, hls⟩
      obtain ⟨s, hs⟩ := Listed.exists_shown (fun hload => hnone ⟨l, hl, hload⟩) lookup
      cases hn.symm.trans hs
    | ok ls =>
      have hshown := mapM_eq_ok_iff.mp hls
      refine ⟨ls, (result_lines_eq_ok_iff h).mpr hshown, ?_, ?_⟩
      · simpa using (congrArg List.length hshown).symm
      · intro k l hl
        obtain ⟨s, hs, hline⟩ := exists_getElem?_of_map_eq hshown hl
        exact ⟨s, hs, fun w' => by rw [l.result_line, hline]⟩
  · intro e h σ r w
    exact result_of_error h r w
  · intro listed h t lookup lookup' hagree σ τ w w' ls ls' hls hls' k l hl hcarry
    obtain ⟨s, hs, hline⟩ := exists_getElem?_of_map_eq ((result_lines_eq_ok_iff h).mp hls) hl
    obtain ⟨s', hs', hline'⟩ := exists_getElem?_of_map_eq ((result_lines_eq_ok_iff h).mp hls') hl
    have hsame : l.shown lookup none = l.shown lookup' none := by
      apply Listed.shown_congr
      intro t' ht' c
      apply hagree
      rintro rfl
      exact hcarry ht'
    rw [hline, hline'] at hsame
    rw [hs, hs', Except.ok.inj hsame]

/-- Two `ldstr`, about the first of which two lookups fail for different reasons; an `ldtoken` of a table
    that names no member; and a byte that is no opcode. -/
theorem lines_isolated_strings :
    let body : Bytes := [0x72, 1, 0, 0, 0x70, 0x72, 2, 0, 0, 0x70]
    let lookup : Lookup := fun c t => .error (.unresolved t c.word)
    let lookup' : Lookup := fun c t => if t = ⟨0x70000001⟩ then .error .outOfBounds else lookup c t
    let w : World Unit := { host := () }
    (∃ ls ls', ((ofBytes body .standard).lines (.ofLookup lookup)).result w = .ok (.ok ls) ∧
      ((ofBytes body .standard).lines (.ofLookup lookup')).result w = .ok (.ok ls') ∧
      ls.length = 2 ∧ ls'.length = 2 ∧ ls[1]? = ls'[1]?) ∧
    (∃ n, ((ofBytes [0xD0, 1, 0, 0, 0x01] .standard).lines (.ofLookup lookup)).result w = .error n) ∧
    ((ofBytes [0xF8] .standard).lines (.ofLookup lookup)).result w
      = .ok (.error (.undefinedOpcode [0xF8])) := by
  intro body lookup lookup' w
  let first : Instruction :=
    ⟨0, ⟨0x72, "ldstr", .token (.entity .string)⟩, .token (.entity .string) ⟨0x70000001⟩⟩
  let second : Instruction :=
    ⟨5, ⟨0x72, "ldstr", .token (.entity .string)⟩, .token (.entity .string) ⟨0x70000002⟩⟩
  let load : Instruction := ⟨0, ⟨0xD0, "ldtoken", .token .member⟩, .token .member ⟨0x01000001⟩⟩
  have hread : Instruction.readAll 0 body = ⟨[first, second], none⟩ := by decide +kernel
  have hreadLoad : Instruction.readAll 0 [0xD0, 1, 0, 0, 0x01] = ⟨[load], none⟩ := by decide +kernel
  have hbody : (ofBytes body .standard).decodeAll.outcome
      = .ok ([first, second].map (fresh .standard)) :=
    decodeAll_ofBytes_of_readAll hread .standard
  have hload : (ofBytes [0xD0, 1, 0, 0, 0x01] .standard).decodeAll.outcome
      = .ok ([load].map (fresh .standard)) :=
    decodeAll_ofBytes_of_readAll hreadLoad .standard
  have hmembers : ¬ ∃ l ∈ [first, second].map (fresh .standard), l.instruction.LoadsNoMember := by
    rintro ⟨l, hl, t, ho, -⟩
    rcases List.mem_cons.mp hl with rfl | hl
    · cases ho
    · rw [List.mem_singleton.mp hl] at ho
      cases ho
  obtain ⟨hok, -, hagree⟩ := lines_isolated (ofBytes body .standard)
  obtain ⟨ls, hls, hlen, -⟩ := (hok _ hbody lookup w).2 hmembers
  obtain ⟨ls', hls', hlen', -⟩ := (hok _ hbody lookup' w).2 hmembers
  have hsecond : ls[1]? = ls'[1]? :=
    hagree _ hbody ⟨0x70000001⟩ lookup lookup' (fun c t ht => (if_neg ht).symm) w w ls ls' hls hls' 1
      (fresh .standard second) rfl (by decide)
  obtain ⟨hwhen, -⟩ := (lines_isolated (ofBytes [0xD0, 1, 0, 0, 0x01] .standard)).1 _ hload lookup w
  have hgivenUp := (hwhen Style.standardLines_standard).mpr
    ⟨fresh .standard load, List.mem_singleton.mpr rfl, ⟨0x01000001⟩, rfl, by decide⟩
  have hstopped := (lines_isolated (ofBytes [0xF8] .standard)).2.1 (.undefinedOpcode [0xF8])
    (decodeAll_ofBytes_eq_error_iff.mpr (by decide +kernel)) (.ofLookup lookup) w
  exact ⟨⟨ls, ls', hls, hls', hlen, hlen', hsecond⟩, hgivenUp, hstopped.1⟩

end Decoder

end Cil
