import Cil.Decoder

/-
  WHAT RENDERING CAN DO.

  Rendering an operand does one of three things, and the instruction tells which: it has its text without
  asking, it asks once for what its token stands for, or it asks once for the member that its token names
  (`Listed.operandText_cases`).  How members are found is up to the resolver.  One that leaves it to the
  tables is asked for a type, a method or a field, and a token of any other table gives the rendering up
  (`Listed.operandText_of_loadsNoMember`, `Listed.operandText_cases_byTable`).

  A line may come about in any way that its style likes, but it asks through the operand and the signature
  only (`Listed.write`).  So a law of every rendering need only be shown for the single things that
  renderings do (`Render.Closed`); that a resolver with a constant host is left as it was is the first
  example (`Render.closed_keepsHost`).
-/

namespace Cil

/-! ## Results and runs -/

namespace Render

variable {σ α β : Type}

/-- What a rendering gives when it runs in a world. -/
def result (x : Render σ α) (w : World σ) : Except NotAMember α := (x.run.run w).1

/-- The second step goes on from the world that the first one leaves. -/
theorem result_bind (x : Render σ α) (f : α → Render σ β) (w : World σ) :
    (x >>= f).result w = x.result w >>= fun v => (f v).result (x.run.run w).2 := by
  unfold result
  rw [ExceptT.run_bind, StateT.run_bind]
  rcases x.run.run w with ⟨n | v, w'⟩
  · rfl
  · rfl

/-- What comes next goes on where the first part has come to its end. -/
theorem run_bind_of_ok {x : Render σ α} {k : α → Render σ β} {w w' : World σ} {a : α}
    (h : x.run.run w = (.ok a, w')) : (x >>= k).run.run w = (k a).run.run w' := by
  rw [ExceptT.run_bind, StateT.run_bind, h]
  rfl

/-- Nothing comes next where the first part was given up. -/
theorem run_bind_of_error {x : Render σ α} {k : α → Render σ β} {w w' : World σ} {n : NotAMember}
    (h : x.run.run w = (.error n, w')) : (x >>= k).run.run w = (.error n, w') := by
  rw [ExceptT.run_bind, StateT.run_bind, h]
  rfl

/-- What comes next makes no difference between two renderings that have come to the same. -/
theorem run_bind_congr {x y : Render σ α} {w : World σ} (h : x.run.run w = y.run.run w)
    (k : α → Render σ β) : (x >>= k).run.run w = (y >>= k).run.run w := by
  rw [ExceptT.run_bind, ExceptT.run_bind, StateT.run_bind, StateT.run_bind, h]

end Render

/-! ## Resolvers -/

namespace Resolver

variable {σ : Type}

/-- What the resolver answers from a host. -/
def answer (r : Resolver σ) (host : σ) (c : Capability) (t : Token) : Except Error c.Entity :=
  (r.ask c t host).1

/-- The host after a request. -/
def hostAfter (r : Resolver σ) (host : σ) (c : Capability) (t : Token) : σ := (r.ask c t host).2

/-- The member that the resolver finds from a host. -/
def found (r : Resolver σ) (host : σ) (t : Token) : Except NotAMember (Except Error Member) :=
  (r.findMember t host).1

/-- Whatever is asked leaves the host as it is. -/
structure Steady (r : Resolver σ) : Prop where
  hostAfter_eq : ∀ host c t, r.hostAfter host c t = host
  findMember_eq : ∀ host t, (r.findMember t host).2 = host

/-- Members that are looked up by their tables cost no more than what is asked for. -/
theorem steady_of_byTable {r : Resolver σ} (hr : r.member? = none)
    (h : ∀ host c t, r.hostAfter host c t = host) : r.Steady where
  hostAfter_eq := h
  findMember_eq host t := by
    unfold findMember askByTable
    rw [hr, Option.getD_none]
    cases t.memberKind? with
    | none => rfl
    | some k => exact h host k.capability t

theorem steady_ofLookup (lookup : Lookup) (member? : Option MemberLookup) :
    (ofLookup lookup member? : Resolver σ).Steady := by
  cases member? with
  | some find => exact ⟨fun _ _ _ => rfl, fun _ _ => rfl⟩
  | none => exact steady_of_byTable rfl fun _ _ _ => rfl

end Resolver

/-! ## Tokens that name no member -/

theorem Token.Kind.table_of_ofTable? {b : UInt8} {k : Kind} (h : ofTable? b = some k) : k.table = b := by
  simpa using List.find?_some h

/-- A loaded token names a type, a method or a field by the byte of its table. -/
theorem Token.memberKind?_cases (t : Token) :
    (t.table = 0x02 ∧ t.memberKind? = some .type) ∨ (t.table = 0x06 ∧ t.memberKind? = some .method) ∨
    (t.table = 0x04 ∧ t.memberKind? = some .field) ∨
    ((t.table ≠ 0x02 ∧ t.table ≠ 0x04 ∧ t.table ≠ 0x06) ∧ t.memberKind? = none) := by
  have hkind (k : Kind) (hk : t.table = k.table) : t.kind? = some k := by
    rw [kind?, hk, Kind.ofTable?_table]
  by_cases htype : t.table = 0x02
  · exact .inl ⟨htype, by rw [memberKind?, hkind .typeDef htype]⟩
  by_cases hmethod : t.table = 0x06
  · exact .inr (.inl ⟨hmethod, by rw [memberKind?, hkind .methodDef hmethod]⟩)
  by_cases hfield : t.table = 0x04
  · exact .inr (.inr (.inl ⟨hfield, by rw [memberKind?, hkind .fieldDef hfield]⟩))
  refine .inr (.inr (.inr ⟨⟨htype, hfield, hmethod⟩, ?_⟩))
  unfold memberKind?
  split
  · rename_i hk
    exact absurd (Kind.table_of_ofTable? hk).symm htype
  · rename_i hk
    exact absurd (Kind.table_of_ofTable? hk).symm hmethod
  · rename_i hk
    exact absurd (Kind.table_of_ofTable? hk).symm hfield
  · rfl

/-- The tables that hold no member are all but three. -/
theorem Token.memberKind?_eq_none_iff (t : Token) :
    t.memberKind? = none ↔ t.table ≠ 0x02 ∧ t.table ≠ 0x04 ∧ t.table ≠ 0x06 := by
  rcases t.memberKind?_cases with ⟨ht, hk⟩ | ⟨ht, hk⟩ | ⟨ht, hk⟩ | ⟨ht, hk⟩
  · simp [ht, hk]
  · simp [ht, hk]
  · simp [ht, hk]
  · simp [ht, hk]

/-- The instruction loads a token whose table names neither a type, a field nor a method. -/
def Instruction.LoadsNoMember (i : Instruction) : Prop :=
  ∃ t, i.operand = .token .member t ∧ t.table ≠ 0x02 ∧ t.table ≠ 0x04 ∧ t.table ≠ 0x06

instance : DecidablePred Instruction.LoadsNoMember := fun i =>
  decidable_of_iff
    (∃ t ∈ i.token?, i.operand = .token .member t ∧ t.table ≠ 0x02 ∧ t.table ≠ 0x04 ∧ t.table ≠ 0x06)
    ⟨fun ⟨t, _, h⟩ => ⟨t, h⟩, fun ⟨t, h⟩ => ⟨t, by rw [Instruction.token?, h.1]; rfl, h⟩⟩

namespace Instruction

/-- What rendering the instruction asks: for its token, as what the operand says, or as what the table
    says if the token is loaded. -/
def request? (i : Instruction) : Option Request :=
  match i.operand with
  | .token (.entity c) t => some ⟨c, t⟩
  | .token .member t =>
    if t.table = 0x02 then some ⟨.type, t⟩
    else if t.table = 0x06 then some ⟨.method, t⟩
    else if t.table = 0x04 then some ⟨.field, t⟩
    else none
  | _ => none

/-- An operand that names what it expects is looked up as that. -/
theorem request?_of_entity {i : Instruction} {c : Capability} {t : Token}
    (ho : i.operand = .token (.entity c) t) : i.request? = some ⟨c, t⟩ := by
  rw [request?, ho]

/-- An operand that may be any member is looked up as the kind that its table says. -/
theorem request?_of_memberKind? {i : Instruction} {t : Token} {k : MemberKind}
    (ho : i.operand = .token .member t) (hk : t.memberKind? = some k) :
    i.request? = some ⟨k.capability, t⟩ := by
  unfold request?
  rw [ho]
  rcases t.memberKind?_cases with ⟨ht, hk'⟩ | ⟨ht, hk'⟩ | ⟨ht, hk'⟩ | ⟨-, hk'⟩
  all_goals cases hk.symm.trans hk'
  all_goals simp [ht]

theorem request?_of_no_token {i : Instruction} (h : i.token? = none) : i.request? = none := by
  unfold token? at h
  unfold request?
  cases ho : i.operand with
  | token expects t =>
    rw [ho] at h
    cases h
  | _ => rfl

theorem token?_of_operand {i : Instruction} {expects : Reference} {t : Token}
    (ho : i.operand = .token expects t) : i.token? = some t := by
  rw [token?, ho]
  rfl

end Instruction

/-- By its table, a member is asked for as what it is. -/
theorem Render.askMember_of_memberKind? {σ : Type} {r : Resolver σ} (hr : r.member? = none) {t : Token}
    {k : MemberKind} (hk : t.memberKind? = some k) :
    askMember r t = (do return (← ask r k.capability t).map k.wrap) := by
  have hfind : r.findMember t = (do return .ok ((← r.ask k.capability t).map k.wrap)) := by
    rw [Resolver.findMember, hr, Option.getD_none, Resolver.askByTable, hk]
  unfold askMember
  rw [hfind]
  rfl

/-- By its table, a token that names no member cannot be asked about. -/
theorem Render.askMember_of_none {σ : Type} {r : Resolver σ} (hr : r.member? = none) {t : Token}
    (hk : t.memberKind? = none) : askMember r t = throw ⟨t⟩ := by
  have hfind : r.findMember t = (do return .error ⟨t⟩) := by
    rw [Resolver.findMember, hr, Option.getD_none, Resolver.askByTable, hk]
  unfold askMember
  rw [hfind]
  rfl

/-! ## Signatures -/

namespace Listed

variable {σ : Type}

/-- The instruction calls through the signature of a token, and has not fetched it yet. -/
def Wants (l : Listed) (t : Token) : Prop :=
  l.signature? = none ∧ l.instruction.operand = .token (.entity .signature) t

/-- What is remembered is not wanted again. -/
theorem not_wants_of_some {l : Listed} {bytes : Bytes} (h : l.signature? = some bytes) (t : Token) :
    ¬ l.Wants t := by
  intro hwants
  cases hwants.1.symm.trans h

/-- The instruction after its signature was asked for: of a failure it remembers nothing. -/
def answered (l : Listed) (answer : Except Error Bytes) : Listed :=
  { l with signature? := answer.toOption }

/-- A failed request is not remembered. -/
theorem answered_error {l : Listed} (h : l.signature? = none) (e : Error) : l.answered (.error e) = l := by
  cases l
  cases h
  rfl

/-- A signature that is remembered is told without a request. -/
theorem signature_of_some {l : Listed} {bytes : Bytes} (h : l.signature? = some bytes) (r : Resolver σ) :
    l.signature r = pure (.ok bytes, l) := by
  unfold signature
  rw [h]

/-- A signature that is wanted is asked for and remembered. -/
theorem signature_of_wants {l : Listed} {t : Token} (h : l.Wants t) (r : Resolver σ) :
    l.signature r = (do
      let answer ← Render.ask r .signature t
      return (answer, l.answered answer)) := by
  obtain ⟨hs, ho⟩ := h
  unfold signature
  rw [hs]
  dsimp only
  rw [ho]
  refine congrArg (Render.ask r .signature t >>= ·) (funext fun answer => ?_)
  cases answer with
  | ok bytes => rfl
  | error e => rw [answered_error hs]

/-- An operand that is no signature has none to tell. -/
theorem signature_of_other {l : Listed} (hs : l.signature? = none)
    (h : ∀ t, l.instruction.operand ≠ .token (.entity .signature) t) (r : Resolver σ) :
    l.signature r =
      pure (.error (.unresolved (l.instruction.operand.token?.getD ⟨0⟩) Capability.signature.word), l) := by
  unfold signature
  rw [hs]
  dsimp only
  split
  · next t ho => exact absurd ho (h t)
  · rfl

/-- What asking for a signature can do: the answer is there already, or the question is put. -/
theorem signature_cases (l : Listed) :
    (∃ answer, ∀ {σ : Type} (r : Resolver σ), l.signature r = pure (answer, l)) ∨
    ∃ t, l.Wants t ∧ ∀ {σ : Type} (r : Resolver σ), l.signature r = (do
      let answer ← Render.ask r .signature t
      return (answer, l.answered answer)) := by
  cases hs : l.signature? with
  | some bytes => exact .inl ⟨_, fun r => signature_of_some hs r⟩
  | none =>
    by_cases h : ∃ t, l.instruction.operand = .token (.entity .signature) t
    · obtain ⟨t, ho⟩ := h
      exact .inr ⟨t, ⟨hs, ho⟩, fun r => signature_of_wants ⟨hs, ho⟩ r⟩
    · exact .inl ⟨_, fun r => signature_of_other hs (not_exists.mp h) r⟩

/-! ## Operands -/

/-- The instruction after an answer about its token. -/
def told (l : Listed) : (c : Capability) → Except Error c.Entity → Listed
  | .signature, answer => l.answered answer
  | _, _ => l

theorem instruction_told (l : Listed) (c : Capability) (answer : Except Error c.Entity) :
    (l.told c answer).instruction = l.instruction := by
  cases c <;> rfl

end Listed

/-- What an operand shows of an answer, in a style. -/
def Capability.shownIn (style : Style) : (c : Capability) → c.Entity → String
  | .field, f => f.text ++ "/" ++ f.declaring.getD ""
  | .method, m => Listed.methodText m
  | .signature, bytes => style.signature bytes
  | .string, units => style.quoted units
  | .type, t => t.text

/-- What an operand shows of a member. -/
def Member.shown (m : Member) : String := m.text ++ "/" ++ m.declaring.getD ""

namespace Listed

variable {σ : Type}

/-- An operand without a token has its text by itself. -/
theorem operandText_of_no_token {l : Listed} (h : l.instruction.token? = none) :
    ∃ s, ∀ {σ : Type} (r : Resolver σ), l.operandText r = pure (.ok s, l) := by
  unfold Instruction.token? at h
  cases ho : l.instruction.operand with
  | token expects t =>
    rw [ho] at h
    cases h
  | _ => exact ⟨_, fun r => by rw [operandText, ho]⟩

/-- A remembered signature is written as it was answered. -/
theorem operandText_of_remembered {l : Listed} {t : Token} {bytes : Bytes}
    (ho : l.instruction.operand = .token (.entity .signature) t) (hs : l.signature? = some bytes)
    (r : Resolver σ) : l.operandText r = pure (.ok (l.style.signature bytes), l) := by
  unfold operandText
  rw [ho]
  dsimp only
  rw [signature_of_some hs]
  rfl

/-- Any other operand that names what it expects is asked for. -/
theorem operandText_of_entity {l : Listed} {c : Capability} {t : Token}
    (ho : l.instruction.operand = .token (.entity c) t) (hs : c = .signature → l.signature? = none)
    (r : Resolver σ) :
    l.operandText r = (do
      let answer ← Render.ask r c t
      return (answer.map (c.shownIn l.style), l.told c answer)) := by
  unfold operandText
  rw [ho]
  cases c with
  | signature =>
    dsimp only
    rw [signature_of_wants ⟨hs rfl, ho⟩]
    rfl
  | _ => rfl

/-- A member is asked for, too, and may be given up. -/
theorem operandText_of_member {l : Listed} {t : Token} (ho : l.instruction.operand = .token .member t)
    (r : Resolver σ) :
    l.operandText r = (do
      let found ← Render.askMember r t
      return (found.map Member.shown, l)) := by
  rw [operandText, ho]
  rfl

/-- What rendering an operand can do: it has its text, because there is no token or because the signature
    is remembered; or it puts one question and makes the text of the answer; or it has a member found. -/
theorem operandText_cases (l : Listed) :
    ((l.instruction.token? = none ∨ ∃ bytes, l.signature? = some bytes) ∧
      ∃ s, ∀ {σ : Type} (r : Resolver σ), l.operandText r = pure (.ok s, l)) ∨
    (∃ c t, l.instruction.operand = .token (.entity c) t ∧
      ∀ {σ : Type} (r : Resolver σ), l.operandText r = (do
        let answer ← Render.ask r c t
        return (answer.map (c.shownIn l.style), l.told c answer))) ∨
    ∃ t, l.instruction.operand = .token .member t ∧
      ∀ {σ : Type} (r : Resolver σ), l.operandText r = (do
        let found ← Render.askMember r t
        return (found.map Member.shown, l)) := by
  cases htoken : l.instruction.token? with
  | none => exact .inl ⟨.inl rfl, operandText_of_no_token htoken⟩
  | some t =>
    cases ho : l.instruction.operand with
    | token expects t =>
      cases expects with
      | member => exact .inr (.inr ⟨t, rfl, fun r => operandText_of_member ho r⟩)
      | entity c =>
        by_cases hs : c = .signature → l.signature? = none
        · exact .inr (.inl ⟨c, t, rfl, fun r => operandText_of_entity ho hs r⟩)
        · -- the signature has been fetched before
          obtain ⟨rfl, hfetched⟩ := Classical.not_imp.mp hs
          obtain ⟨bytes, hbytes⟩ := Option.ne_none_iff_exists'.mp hfetched
          exact .inl ⟨.inr ⟨bytes, hbytes⟩, _, fun r => operandText_of_remembered ho hbytes r⟩
    | _ =>
      rw [Instruction.token?, ho] at htoken
      cases htoken

/-- Rendering an operand leaves the instruction the same but for what it remembers. -/
theorem instruction_of_operandText {l after : Listed} {r : Resolver σ} {w : World σ}
    {operand : Except Error String} (h : (l.operandText r).result w = .ok (operand, after)) :
    after.instruction = l.instruction := by
  rcases l.operandText_cases with ⟨-, s, htext⟩ | ⟨c, t, -, htext⟩ | ⟨t, -, htext⟩
  · rw [htext] at h
    cases h
    rfl
  · rw [htext] at h
    cases h
    exact l.instruction_told c _
  · rw [htext, Render.result_bind] at h
    cases hfound : (Render.askMember r t).result w with
    | error n =>
      rw [hfound] at h
      cases h
    | ok found =>
      rw [hfound] at h
      cases h
      rfl

/-- Only where a member has to be found can an operand be given up. -/
theorem exists_member_of_error {l : Listed} {r : Resolver σ} {w : World σ} {n : NotAMember}
    (h : (l.operandText r).result w = .error n) : ∃ t, l.instruction.operand = .token .member t := by
  rcases l.operandText_cases with ⟨-, s, htext⟩ | ⟨c, t, -, htext⟩ | ⟨t, ho, -⟩
  · rw [htext] at h
    cases h
  · rw [htext] at h
    cases h
  · exact ⟨t, ho⟩

/-- Telling a signature changes nothing but what is remembered. -/
theorem instruction_of_signature {l after : Listed} {r : Resolver σ} {w : World σ}
    {answer : Except Error Bytes} (h : (l.signature r).result w = .ok (answer, after)) :
    after.instruction = l.instruction := by
  rcases l.signature_cases with ⟨a, hanswer⟩ | ⟨t, -, hasked⟩
  · rw [hanswer] at h
    cases h
    rfl
  · rw [hasked] at h
    cases h
    rfl

/-! ## Members by their tables -/

/-- A loaded token that names no member cannot be asked about. -/
theorem operandText_of_loadsNoMember {l : Listed} (h : l.instruction.LoadsNoMember) :
    ∃ n, ∀ {σ : Type} (r : Resolver σ), r.member? = none → l.operandText r = throw n := by
  obtain ⟨t, ho, ht⟩ := h
  refine ⟨⟨t⟩, fun r hr => ?_⟩
  rw [operandText_of_member ho, Render.askMember_of_none hr (t.memberKind?_eq_none_iff.mpr ht)]
  rfl

/-- Otherwise the operand has its text without a question, or puts its question once and makes the text of
    the answer. -/
theorem operandText_cases_byTable {l : Listed} (h : ¬ l.instruction.LoadsNoMember) :
    ((l.instruction.request? = none ∨ ∃ bytes, l.signature? = some bytes) ∧
      ∃ s, ∀ {σ : Type} (r : Resolver σ), l.operandText r = pure (.ok s, l)) ∨
    ∃ (q : Request) (write : q.capability.Entity → String)
      (after : Except Error q.capability.Entity → Listed),
      l.instruction.request? = some q ∧
      ∀ {σ : Type} (r : Resolver σ), r.member? = none → l.operandText r = (do
        let answer ← Render.ask r q.capability q.token
        return (answer.map write, after answer)) := by
  rcases l.operandText_cases with ⟨hnone, s, htext⟩ | ⟨c, t, ho, htext⟩ | ⟨t, ho, htext⟩
  · exact .inl ⟨hnone.imp_left Instruction.request?_of_no_token, s, htext⟩
  · exact .inr ⟨⟨c, t⟩, _, _, Instruction.request?_of_entity ho, fun r _ => htext r⟩
  · cases hk : t.memberKind? with
    | none => exact absurd ⟨t, ho, t.memberKind?_eq_none_iff.mp hk⟩ h
    | some k =>
      refine .inr ⟨⟨k.capability, t⟩, fun x => (k.wrap x).shown, fun _ => l,
        Instruction.request?_of_memberKind? ho hk, fun r hr => ?_⟩
      rw [htext, Render.askMember_of_memberKind? hr hk, bind_assoc]
      congr 1
      funext answer
      cases answer <;> rfl

end Listed

/-! ## Laws of every rendering -/

/-- A law that holds of asking, of finding members and of reporting, and of one thing after another that it
    holds of. -/
structure Render.Closed {σ : Type} (r : Resolver σ) (P : ∀ {α : Type}, Render σ α → Prop) : Prop where
  pure : ∀ {α : Type} (a : α), P (pure a)
  report : ∀ records, P (Render.report records)
  ask : ∀ c t, P (Render.ask r c t)
  askMember : ∀ t, P (Render.askMember r t)
  bind : ∀ {α β : Type} {x : Render σ α} {k : α → Render σ β}, P x → (∀ a, P (k a)) → P (x >>= k)

namespace Render.Closed

variable {σ : Type} {r : Resolver σ} {P : ∀ {α : Type}, Render σ α → Prop} (h : Closed r P)
include h

/-- A list is rendered element by element. -/
theorem mapM {α β : Type} {f : α → Render σ β} (hf : ∀ x, P (f x)) (xs : List α) : P (xs.mapM f) := by
  induction xs with
  | nil =>
    rw [List.mapM_nil]
    exact h.pure []
  | cons x xs ih =>
    rw [List.mapM_cons]
    exact h.bind (hf x) fun v => h.bind ih fun vs => h.pure (v :: vs)

/-- Nothing is done for a signature but to ask for it. -/
theorem signature (l : Listed) : P (l.signature r) := by
  rcases l.signature_cases with ⟨answer, hanswer⟩ | ⟨t, -, hasked⟩
  · rw [hanswer]
    exact h.pure _
  · rw [hasked]
    exact h.bind (h.ask .signature t) fun _ => h.pure _

/-- An operand obeys the law whichever of the three cases it is. -/
theorem operandText (l : Listed) : P (l.operandText r) := by
  rcases l.operandText_cases with ⟨-, s, htext⟩ | ⟨c, t, -, htext⟩ | ⟨t, -, htext⟩
  · rw [htext]
    exact h.pure _
  · rw [htext]
    exact h.bind (h.ask c t) fun _ => h.pure _
  · rw [htext]
    exact h.bind (h.askMember t) fun _ => h.pure _

/-- A line takes its steps one after another, however many there are. -/
theorem write (writing : Writing) (l : Listed) : P (l.write r writing) := by
  induction writing generalizing l with
  | done text => exact h.pure _
  | report records next ih => exact h.bind (h.report records) fun _ => ih l
  | operand next ih => exact h.bind (h.operandText l) fun x => ih x.1 x.2
  | signature next ih => exact h.bind (h.signature l) fun x => ih x.1 x.2

theorem lineIn (style : Style) (l : Listed) : P (l.lineIn r style) := h.write (style.line l.view) l

/-- A listing is its lines, with the log of the decoder in front. -/
theorem lines (d : Decoder) : P (d.lines r) := by
  unfold Decoder.lines
  refine h.bind (h.report _) fun _ => ?_
  split
  · exact h.pure _
  · refine h.bind (h.mapM (fun l => ?_) _) fun _ => h.pure _
    exact h.bind (h.lineIn l.style l) fun _ => h.pure _

theorem text (d : Decoder) : P (d.text r) := h.bind (h.lines d) fun _ => h.pure _

end Render.Closed

namespace Render

variable {σ α β : Type}

/-- In every world the rendering leaves the host as it is. -/
def KeepsHost (x : Render σ α) : Prop := ∀ w, (x.run.run w).2.host = w.host

theorem KeepsHost.bind {x : Render σ α} {k : α → Render σ β} (hx : x.KeepsHost)
    (hk : ∀ a, (k a).KeepsHost) : (x >>= k).KeepsHost := by
  intro w
  have hhost := hx w
  rcases hrun : x.run.run w with ⟨n | a, w'⟩
  · rw [hrun] at hhost
    rw [run_bind_of_error hrun]
    exact hhost
  · rw [hrun] at hhost
    rw [run_bind_of_ok hrun]
    exact (hk a w').trans hhost

/-- A host that no request changes is not changed by any rendering. -/
theorem closed_keepsHost {r : Resolver σ} (h : r.Steady) : Closed r KeepsHost where
  pure _ _ := rfl
  report _ _ := rfl
  ask c t w := h.hostAfter_eq w.host c t
  askMember t w := h.findMember_eq w.host t
  bind := KeepsHost.bind

end Render

end Cil
