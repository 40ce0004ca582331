import Cil.Scope

/-
  TOKENS HANDED OUT.

  A scope is shared: clients push into it at the same time.  Of a push only one thing happens at once,
  that the entry is put behind the others and its index is known.  The token is made of the index
  afterwards, when others may have pushed already (`Shared`).  So the state of a shared scope is the
  entries together with the pushes that have been begun, each with its index, and with its token once
  that has been handed out.

  The entry of a push stays at its index (`Ordered`), whatever happens later, and as long as three bytes
  can hold the number of the push, the token leads back to it (`Shared.tokens_resolve`).  Longer runs of
  pushes give out row zero, and then the rows of other entries again (`rows_apart_iff`).
-/

namespace Cil.Scope

/-! ## Entries and their tokens -/

namespace Entry

@[simp] theorem row_tokenAt (e : Entry) (index : Nat) :
    (e.tokenAt index).row = min (index + 1) 0xFFFFFFFF % 0x1000000 := Token.row_ofParts _ _

@[simp] theorem table_tokenAt (e : Entry) (index : Nat) : (e.tokenAt index).table = e.kind.table :=
  Token.table_ofParts _ _

@[simp] theorem kind?_tokenAt (e : Entry) (index : Nat) : (e.tokenAt index).kind? = some e.kind := by
  rw [Token.kind?, table_tokenAt, Token.Kind.ofTable?_table]

/-- As long as three bytes hold it, the row is the number of the entry, counted from one. -/
theorem row_tokenAt_of_lt (e : Entry) {index : Nat} (h : index + 1 < 0x1000000) :
    (e.tokenAt index).row = index + 1 := by
  rw [row_tokenAt]
  omega

/-- What an entry stands for: the capability that it answers to, with the answer.  A method of a generic
    type is answered as one of the instance that it is used on. -/
def answer : Entry → (c : Capability) × c.Entity
  | string units => ⟨.string, units⟩
  | signature bytes => ⟨.signature, bytes⟩
  | type t => ⟨.type, t⟩
  | field f => ⟨.field, f⟩
  | method m => ⟨.method, m⟩
  | dynamicMethod m => ⟨.method, m⟩
  | genericMethod m context => ⟨.method, { m with declaring := some context.name }⟩
  | varArgMethod m _ => ⟨.method, m⟩

theorem get?_answer (e : Entry) : get? e.answer.1 e = some e.answer.2 := by
  cases e <;> rfl

end Entry

/-- The entry in the row of a token, if the row is known. -/
theorem entry?_of_row {t : Token} {index : Nat} (h : t.row = index + 1) (s : Scope) :
    s.entry? t = s.entries[index]? := by
  unfold entry?
  rw [h]

theorem lookup_of_entry {s : Scope} {t : Token} {e : Entry} (h : s.entry? t = some e) :
    s.lookup e.answer.1 t = .ok e.answer.2 := by
  rw [lookup, h, Option.bind_some, e.get?_answer]

/-- The entry of a token that was made for its index. -/
theorem entry?_tokenAt {s : Scope} {e : Entry} {index : Nat} (hlt : index + 1 < 0x1000000)
    (h : s.entries[index]? = some e) : s.entry? (e.tokenAt index) = some e := by
  rw [entry?_of_row (e.row_tokenAt_of_lt hlt), h]

theorem size_append (s : Scope) (e : Entry) : (s.append e).size = s.size + 1 := Array.size_push e

/-- What stands in a scope stays where it is. -/
theorem getElem?_entries_append {s : Scope} {n : Nat} {e : Entry} (h : s.entries[n]? = some e)
    (e' : Entry) : (s.append e').entries[n]? = some e := by
  have hlt : n < s.entries.size := (Array.getElem?_eq_some_iff.mp h).1
  rw [append, Array.getElem?_push_lt hlt, ← h, Array.getElem?_eq_getElem hlt]

/-! ## Scopes that clients share -/

/-- A push that a client has begun: its entry stands at the index, and the token has been handed out, or
    not yet. -/
structure Call (ι : Type) where
  client : ι
  entry : Entry
  index : Nat
  token? : Option Token := none

/-- A scope that clients share, with their pushes in the order in which the entries came in. -/
structure Shared (ι : Type) where
  scope : Scope := {}
  calls : List (Call ι) := []

/-- What can happen next. -/
inductive Event (ι : Type) where
  /-- A client puts an entry behind the others, and learns its index. -/
  | append (client : ι) (e : Entry)
  /-- A push, named by its place among the pushes, gives its client the token. -/
  | handOut (place : Nat)

/-- Who pushes what in an event, if it begins a push. -/
def Event.pushed? {ι : Type} : Event ι → Option (ι × Entry)
  | append client e => some (client, e)
  | handOut _ => none

namespace Shared

variable {ι : Type}

/-- One event.  Looking up changes nothing, and may happen at any time. -/
def step (s : Shared ι) : Event ι → Shared ι
  | .append client e =>
    { scope := s.scope.append e
      calls := s.calls ++ [{ client, entry := e, index := s.scope.size }] }
  | .handOut place =>
    { s with calls := s.calls.modify place fun c => { c with token? := some (c.entry.tokenAt c.index) } }

/-- The shared scope after some events, whoever takes part in them and in whatever order. -/
def after (s : Shared ι) (events : List (Event ι)) : Shared ι := events.foldl step s

/-- What an event can do to the pushes: it begins one behind the others, or hands out a token. -/
theorem calls_step_cases {s : Shared ι} {event : Event ι} {n : Nat} {c : Call ι}
    (h : (s.step event).calls[n]? = some c) :
    (∃ client e, event = .append client e ∧ n = s.calls.length ∧ c = ⟨client, e, s.scope.size, none⟩) ∨
    ∃ c₀, s.calls[n]? = some c₀ ∧
      (c = c₀ ∨ c = { c₀ with token? := some (c₀.entry.tokenAt c₀.index) }) := by
  cases event with
  | append client e =>
    rw [step, List.getElem?_append] at h
    split at h
    · exact .inr ⟨c, h, .inl rfl⟩
    · rename_i hge
      rw [List.getElem?_singleton] at h
      split at h
      · exact .inl ⟨client, e, rfl, by omega, (Option.some.inj h).symm⟩
      · cases h
  | handOut place =>
    right
    rw [step, List.getElem?_modify] at h
    obtain ⟨c₀, hc₀, hc⟩ := Option.map_eq_some_iff.mp h
    refine ⟨c₀, hc₀, ?_⟩
    split at hc
    · exact .inr hc.symm
    · exact .inl hc.symm

/-- Handing out a token changes nothing else about the pushes. -/
theorem map_calls_handOut {β : Type} {f : Call ι → β} (hf : ∀ c t?, f { c with token? := t? } = f c)
    (s : Shared ι) (place : Nat) : (s.step (.handOut place)).calls.map f = s.calls.map f := by
  apply List.ext_getElem?
  intro n
  rw [step, List.getElem?_map, List.getElem?_map, List.getElem?_modify]
  cases s.calls[n]? with
  | none => rfl
  | some c => by_cases hplace : place = n <;> simp [hplace, hf]

/-- The pushes are those of the events, in order. -/
theorem map_calls_after (s : Shared ι) (events : List (Event ι)) :
    (s.after events).calls.map (fun c => (c.client, c.entry))
      = s.calls.map (fun c => (c.client, c.entry)) ++ events.filterMap Event.pushed? := by
  induction events generalizing s with
  | nil => simp [after]
  | cons event events ih =>
    rw [after, List.foldl_cons, ← after, ih]
    cases event with
    | append client e => simp [step, Event.pushed?]
    | handOut place =>
      rw [map_calls_handOut fun _ _ => rfl]
      rfl

theorem length_calls_after (events : List (Event ι)) :
    (after {} events).calls.length = (events.filterMap Event.pushed?).length := by
  have hlen := congrArg List.length (map_calls_after {} events)
  simpa using hlen

/-! ### What holds at all times -/

/-- The entries are those of the pushes, in order, and what a push knows about its place is right. -/
structure Ordered (s : Shared ι) : Prop where
  entries : s.scope.entries.toList = s.calls.map Call.entry
  index : ∀ {n : Nat} {c : Call ι}, s.calls[n]? = some c → c.index = n
  token : ∀ {n : Nat} {c : Call ι} {t : Token}, s.calls[n]? = some c → c.token? = some t →
    t = c.entry.tokenAt n

theorem Ordered.size_eq {s : Shared ι} (h : s.Ordered) : s.scope.size = s.calls.length := by
  have hlen := congrArg List.length h.entries
  simpa [Scope.size] using hlen

theorem Ordered.getElem?_entries {s : Shared ι} (h : s.Ordered) {n : Nat} {c : Call ι}
    (hc : s.calls[n]? = some c) : s.scope.entries[n]? = some c.entry := by
  rw [← Array.getElem?_toList, h.entries, List.getElem?_map, hc]
  rfl

theorem ordered_new : ({} : Shared ι).Ordered := ⟨rfl, nofun, nofun⟩

theorem Ordered.step {s : Shared ι} (h : s.Ordered) (event : Event ι) : (s.step event).Ordered where
  entries := by
    cases event with
    | append client e => simp [Shared.step, Scope.append, h.entries]
    | handOut place =>
      rw [map_calls_handOut fun _ _ => rfl]
      exact h.entries
  index := by
    intro n c hc
    rcases calls_step_cases hc with ⟨client, e, -, rfl, rfl⟩ | ⟨c₀, hc₀, rfl | rfl⟩
    · exact h.size_eq
    · exact h.index hc₀
    · have hindex : c₀.index = n := h.index hc₀
      exact hindex
  token := by
    intro n c t hc ht
    rcases calls_step_cases hc with ⟨client, e, -, rfl, rfl⟩ | ⟨c₀, hc₀, rfl | rfl⟩
    · cases ht
    · exact h.token hc₀ ht
    · -- the token that is handed out now
      rw [← h.index hc₀]
      exact (Option.some.inj ht).symm

theorem Ordered.after {s : Shared ι} (h : s.Ordered) (events : List (Event ι)) :
    (s.after events).Ordered := by
  induction events generalizing s with
  | nil => exact h
  | cons event events ih => exact ih (h.step event)

/-- Whatever happens, the entries stay where they are. -/
theorem getElem?_entries_after {s : Shared ι} {n : Nat} {e : Entry} (h : s.scope.entries[n]? = some e)
    (events : List (Event ι)) : (s.after events).scope.entries[n]? = some e := by
  induction events generalizing s with
  | nil => exact h
  | cons event events ih =>
    apply ih
    cases event with
    | append client e' => exact getElem?_entries_append h e'
    | handOut place => exact h

/-- The token of a push is the one that `push` gives once the pushes before it are done. -/
theorem tokenAt_eq_push {s : Shared ι} {n : Nat} (h : n ≤ s.calls.length) (e : Entry) :
    e.tokenAt n = (push ⟨((s.calls.take n).map Call.entry).toArray⟩ e).1 := by
  simp [push, Scope.size, Nat.min_eq_left h]

/-- A push that was begun can be answered. -/
theorem exists_handOut (s : Shared ι) {n : Nat} (h : n < s.calls.length) :
    ∃ c t, (s.step (.handOut n)).calls[n]? = some c ∧ c.token? = some t := by
  let c := s.calls[n]
  refine ⟨{ c with token? := some (c.entry.tokenAt c.index) }, c.entry.tokenAt c.index, ?_, rfl⟩
  rw [step, List.getElem?_modify, List.getElem?_eq_getElem h]
  simp [c]

/-- As long as three bytes hold the number of a push, its row tells it from the others. -/
theorem Ordered.nodup_tokens {s : Shared ι} (h : s.Ordered) (hlen : s.calls.length < 0x1000000) :
    (s.calls.filterMap Call.token?).Nodup := by
  rw [List.Nodup, List.pairwise_filterMap, List.pairwise_iff_getElem]
  intro i j hi hj hij t ht t' ht' heq
  have hrow : t.row = i + 1 := by
    rw [h.token (List.getElem?_eq_getElem hi) ht]
    exact Entry.row_tokenAt_of_lt _ (by omega)
  have hrow' : t'.row = j + 1 := by
    rw [h.token (List.getElem?_eq_getElem hj) ht']
    exact Entry.row_tokenAt_of_lt _ (by omega)
  rw [heq, hrow'] at hrow
  omega

/-- **Tokens that were handed out resolve for ever.**  Clients push into one scope in any order, also
    while other pushes are under way, and with fewer than `0x1000000` pushes in all.  Every push that was
    begun can be answered at once.  The token that answers it carries its number among all pushes, counted
    from one, and the kind of its entry, and it is the token that `push` gives once the pushes before it
    are done.  At that time and in every later state the token leads to the entry, and the entry gives its
    answer.  No token is handed out for two pushes. -/
theorem tokens_resolve (events more : List (Event ι))
    (hlen : ((events ++ more).filterMap Event.pushed?).length < 0x1000000) :
    let s : Shared ι := after {} events
    let later := s.after more
    s.calls.map (fun c => (c.client, c.entry)) = events.filterMap Event.pushed? ∧
    (∀ n < s.calls.length, ∃ c t, (s.step (.handOut n)).calls[n]? = some c ∧ c.token? = some t) ∧
    (∀ n c t, s.calls[n]? = some c → c.token? = some t →
      t.row = n + 1 ∧ t.table = c.entry.kind.table ∧ t.kind? = some c.entry.kind ∧
      t = (push ⟨((s.calls.take n).map Call.entry).toArray⟩ c.entry).1 ∧
      later.scope.entry? t = some c.entry ∧
      later.scope.lookup c.entry.answer.1 t = .ok c.entry.answer.2) ∧
    (later.calls.filterMap Call.token?).Nodup := by
  intro s later
  have hs : s.Ordered := ordered_new.after events
  have hlater : later.Ordered := hs.after more
  have hbound : later.calls.length < 0x1000000 := by
    rw [← length_calls_after, after, List.foldl_append] at hlen
    exact hlen
  refine ⟨?_, ?_, ?_, ?_⟩
  · exact map_calls_after {} events
  · intro n hn
    exact s.exists_handOut hn
  · intro n c t hc ht
    have hentry : later.scope.entries[n]? = some c.entry :=
      getElem?_entries_after (hs.getElem?_entries hc) more
    have hn : n < later.calls.length := by
      rw [← hlater.size_eq]
      exact (Array.getElem?_eq_some_iff.mp hentry).1
    obtain rfl := hs.token hc ht
    have hfound : later.scope.entry? (c.entry.tokenAt n) = some c.entry :=
      entry?_tokenAt (by omega) hentry
    exact ⟨c.entry.row_tokenAt_of_lt (by omega), c.entry.table_tokenAt n, c.entry.kind?_tokenAt n,
      tokenAt_eq_push (Nat.le_of_lt (List.getElem?_eq_some_iff.mp hc).1) c.entry, hfound,
      lookup_of_entry hfound⟩
  · exact hlater.nodup_tokens hbound

/-- Two clients: the second puts its entry in before the first has its token, and gets its own first. -/
theorem tokens_resolve_overlapping :
    let generic : Entry := .genericMethod ⟨"Add", "Void", ["T"], some "List"⟩ ⟨"List[String]", none⟩
    let events : List (Event Bool) := [.append false generic, .append true (.string [0x68]), .handOut 1,
      .handOut 0]
    let later := (after {} events).after [.append true (.signature [0x07])]
    later.scope.lookup .method ⟨0x06000001⟩ = .ok ⟨"Add", "Void", ["T"], some "List[String]"⟩ ∧
    later.scope.lookup .string ⟨0x70000002⟩ = .ok [0x68] ∧
    (later.calls.filterMap Call.token?).Nodup := by
  intro generic events later
  obtain ⟨-, -, hresolve, hnodup⟩ := tokens_resolve events [.append true (.signature [0x07])] (by decide)
  obtain ⟨-, -, -, -, -, hmethod⟩ := hresolve 0 _ ⟨0x06000001⟩ rfl (by decide)
  obtain ⟨-, -, -, -, -, hstring⟩ := hresolve 1 _ ⟨0x70000002⟩ rfl (by decide)
  exact ⟨hmethod, hstring, hnodup⟩

end Shared

/-! ## Longer runs of pushes -/

/-- Pushes entries one after another: their tokens, and the scope afterwards. -/
def pushAll (s : Scope) : List Entry → List Token × Scope
  | [] => ([], s)
  | e :: es =>
    let (t, s) := s.push e
    let (ts, s) := s.pushAll es
    (t :: ts, s)

/-- Each push gives the token of the place where the entry comes to stand. -/
theorem pushAll_fst (s : Scope) (es : List Entry) :
    (s.pushAll es).1 = es.mapIdx fun n e => e.tokenAt (s.size + n) := by
  induction es generalizing s with
  | nil => rfl
  | cons e es ih =>
    rw [pushAll, List.mapIdx_cons]
    show e.tokenAt s.size :: ((s.append e).pushAll es).1 = _
    rw [ih, size_append]
    simp [Nat.add_assoc, Nat.add_comm 1]

theorem getElem?_pushAll (es : List Entry) (n : Nat) :
    (pushAll {} es).1[n]? = es[n]?.map (·.tokenAt n) := by
  rw [pushAll_fst, List.getElem?_mapIdx]
  simp [Scope.size]

/-- The rows of a run of pushes count up, and begin again at zero. -/
theorem map_row_pushAll (es : List Entry) :
    (pushAll {} es).1.map Token.row
      = (List.range es.length).map fun n => min (n + 1) 0xFFFFFFFF % 0x1000000 := by
  apply List.ext_getElem?
  intro n
  rw [List.getElem?_map, List.getElem?_map, getElem?_pushAll]
  by_cases hn : n < es.length
  · rw [List.getElem?_range hn, List.getElem?_eq_getElem hn]
    simp
  · have hle : es.length ≤ n := Nat.le_of_not_lt hn
    rw [List.getElem?_eq_none hle, List.getElem?_eq_none (by simpa using hle)]
    rfl

/-- **How far rows go.**  In a run of pushes the row zero is not handed out exactly as long as there are
    fewer than `0x1000000` pushes, and no row is handed out twice exactly as long as there is at most one
    more. -/
theorem rows_apart_iff (es : List Entry) :
    ((∀ t ∈ (pushAll {} es).1, t.row ≠ 0) ↔ es.length < 0x1000000) ∧
    (((pushAll {} es).1.map Token.row).Nodup ↔ es.length ≤ 0x1000000) := by
  have hrows := map_row_pushAll es
  constructor
  · have hzero : (∀ t ∈ (pushAll {} es).1, t.row ≠ 0) ↔ 0 ∉ (pushAll {} es).1.map Token.row := by
      simp
    rw [hzero, hrows, List.mem_map]
    constructor
    · intro h
      apply Nat.lt_of_not_le
      intro hle
      exact h ⟨0xFFFFFF, List.mem_range.mpr hle, rfl⟩
    · rintro hlt ⟨n, hn, hrow⟩
      have := List.mem_range.mp hn
      omega
  · rw [hrows, List.Nodup, List.pairwise_map, List.pairwise_iff_getElem]
    simp only [List.length_range, List.getElem_range]
    constructor
    · intro h
      apply Nat.le_of_not_lt
      intro hlt
      exact h 0 0x1000000 (by omega) hlt (by decide) rfl
    · intro hle i j hi hj hij hrow
      omega

/-- One push more than three bytes can count gets the row zero, where nothing is found, and the next one
    the row of the first entry. -/
theorem row_zero_then_reused :
    let ts := (pushAll {} (List.replicate 0x1000001 (.string []))).1
    (∃ t, ts[0xFFFFFF]? = some t ∧ t.row = 0 ∧ ∀ s : Scope, s.entry? t = none) ∧
    ∃ t t', ts[0]? = some t ∧ ts[0x1000000]? = some t' ∧ t.row = t'.row := by
  have hget (n : Nat) (hn : n < 0x1000001) :
      (pushAll {} (List.replicate 0x1000001 (.string []))).1[n]? = some (Entry.tokenAt (.string []) n) := by
    rw [getElem?_pushAll, List.getElem?_replicate_of_lt hn]
    rfl
  refine ⟨⟨_, hget 0xFFFFFF (by decide), by decide, fun s => ?_⟩, _, _, hget 0 (by decide),
    hget 0x1000000 (by decide), by decide⟩
  unfold entry?
  rfl

end Cil.Scope
