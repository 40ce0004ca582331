import Cil.Proofs.Growth

/-
  WHAT IS ASKED FOR, AND WHO ANSWERS.

  An entry answers to one capability and to no other (`Scope.Entry.get?_eq_some_iff`).  Which entry is
  asked depends on the row of the token alone.  So every row of a scope that is taken has exactly one
  answer, every other row has none, and the table of the token makes no difference
  (`Scope.lookup_eq_ok_iff`).

  The table does make a difference for a token that is loaded: it decides what is asked for
  (`Lookup.member_of_memberKind?`).  A scope hands out the tables of types, methods and fields, and one
  more, for methods that are called with further arguments.  These are methods, and are found if they are
  asked for as methods; but a loaded token of that table is not asked about at all
  (`Scope.loads_iff_not_varArg`).
-/

namespace Cil

/-! ## Loaded tokens -/

namespace Lookup

theorem member_of_memberKind? {t : Token} {k : MemberKind} (h : t.memberKind? = some k) (lookup : Lookup) :
    lookup.member t = .ok ((lookup k.capability t).map k.wrap) := by
  rw [member, h]

theorem member_of_none {t : Token} (h : t.memberKind? = none) (lookup : Lookup) :
    lookup.member t = .error ⟨t⟩ := by
  rw [member, h]

end Lookup

/-- The kind of the tokens that name such a member. -/
def MemberKind.kind : MemberKind → Token.Kind
  | type => .typeDef
  | method => .methodDef
  | field => .fieldDef

theorem Token.memberKind?_of_table {t : Token} {k : MemberKind} (h : t.table = k.kind.table) :
    t.memberKind? = some k := by
  have hkind : t.kind? = some k.kind := by rw [kind?, h, Kind.ofTable?_table]
  rw [memberKind?, hkind]
  cases k <;> rfl

theorem Instruction.loadsNoMember_iff {i : Instruction} {t : Token} (h : i.operand = .token .member t) :
    i.LoadsNoMember ↔ t.memberKind? = none := by
  rw [t.memberKind?_eq_none_iff]
  constructor
  · rintro ⟨t', ho, htable⟩
    rw [h] at ho
    cases ho
    exact htable
  · intro htable
    exact ⟨t, h, htable⟩

namespace Scope

/-! ## Entries and capabilities -/

namespace Entry

/-- An entry answers to one capability, and with one entity. -/
theorem get?_eq_some_iff {c : Capability} {e : Entry} {x : c.Entity} :
    get? c e = some x ↔ e.answer = ⟨c, x⟩ := by
  cases e <;> cases c <;> simp [get?, answer, MethodHeader.inContext]

/-- What kind of member an entry is, if it is one. -/
def memberKind? : Entry → Option MemberKind
  | type _ => some .type
  | field _ => some .field
  | method _ | dynamicMethod _ | genericMethod _ _ | varArgMethod _ _ => some .method
  | string _ | signature _ => none

theorem exists_answer_of_memberKind? {e : Entry} {k : MemberKind} (h : e.memberKind? = some k) :
    ∃ x, e.answer = ⟨k.capability, x⟩ := by
  cases e <;> cases h <;> exact ⟨_, rfl⟩

theorem kind_eq_memberRef_iff (e : Entry) :
    e.kind = .memberRef ↔ ∃ m callSite, e = .varArgMethod m callSite := by
  cases e <;> simp [kind]

/-- The table of its token says what kind of member an entry is, unless it is called with further
    arguments. -/
theorem memberKind?_tokenAt {e : Entry} {k : MemberKind} (h : e.memberKind? = some k) (index : Nat) :
    (e.tokenAt index).memberKind? = if e.kind = .memberRef then none else some k := by
  rw [Token.memberKind?, kind?_tokenAt]
  cases e <;> cases h <;> rfl

end Entry

/-! ## Rows and capabilities -/

theorem entry?_eq_getElem? {t : Token} (h : 1 ≤ t.row) (s : Scope) : s.entry? t = s.entries[t.row - 1]? :=
  entry?_of_row (by omega) s

/-- Of a token only the row matters. -/
theorem entry?_congr {t t' : Token} (h : t.row = t'.row) (s : Scope) : s.entry? t = s.entry? t' := by
  unfold entry?
  rw [h]

theorem exists_entry?_iff (s : Scope) (t : Token) :
    (∃ e, s.entry? t = some e) ↔ 1 ≤ t.row ∧ t.row ≤ s.size := by
  constructor
  · rintro ⟨e, he⟩
    constructor
    · apply Nat.pos_of_ne_zero
      intro hzero
      unfold entry? at he
      rw [hzero] at he
      cases he
    · apply Nat.le_of_not_lt
      intro hlt
      cases (entry?_of_size_lt hlt).symm.trans he
  · rintro ⟨hpos, hle⟩
    have hlt : t.row - 1 < s.entries.size := by
      change t.row ≤ s.entries.size at hle
      omega
    exact ⟨_, (entry?_eq_getElem? hpos s).trans (Array.getElem?_eq_getElem hlt)⟩

/-- A scope answers with what the entry in the row of the token stands for, and with nothing else. -/
theorem lookup_eq_ok_iff {s : Scope} {c : Capability} {t : Token} {x : c.Entity} :
    s.lookup c t = .ok x ↔ ∃ e, s.entry? t = some e ∧ e.answer = ⟨c, x⟩ := by
  unfold lookup
  split
  · rename_i y hy
    obtain ⟨e, he, hget⟩ := Option.bind_eq_some_iff.mp hy
    constructor
    · rintro ⟨rfl⟩
      exact ⟨e, he, Entry.get?_eq_some_iff.mp hget⟩
    · rintro ⟨e', he', hanswer⟩
      rw [he] at he'
      cases he'
      rw [Entry.get?_eq_some_iff, hanswer] at hget
      cases hget
      rfl
  · rename_i hnone
    constructor
    · nofun
    · rintro ⟨e, he, hanswer⟩
      rw [he, Option.bind_some, Entry.get?_eq_some_iff.mpr hanswer] at hnone
      cases hnone

/-- The reason for having no answer names what was asked. -/
theorem eq_unresolved_of_lookup {s : Scope} {c : Capability} {t : Token} {reason : Error}
    (h : s.lookup c t = .error reason) : reason = .unresolved t c.word := by
  unfold lookup at h
  split at h
  · cases h
  · cases h
    rfl

/-- **Capabilities part a scope.**  If the row of a token is one of those that are taken, then exactly one
    capability answers, with what the entry in that row stands for; otherwise none does.  A capability that
    does not answer gives the token and its own word as the reason.  Tokens with the same row have the
    same answers, whatever their tables are.  Only for a loaded token the table counts: it says which
    capability is asked, and the member is its answer, or there is none for its reason. -/
theorem capabilities_partition (s : Scope) (t : Token) :
    (1 ≤ t.row ∧ t.row ≤ s.size →
      ∃ e, s.entries[t.row - 1]? = some e ∧ ∀ c x, s.lookup c t = .ok x ↔ e.answer = ⟨c, x⟩) ∧
    (¬ (1 ≤ t.row ∧ t.row ≤ s.size) → ∀ c x, s.lookup c t ≠ .ok x) ∧
    (∀ c reason, s.lookup c t = .error reason → reason = .unresolved t c.word) ∧
    (∀ t' : Token, t'.row = t.row → ∀ c x, s.lookup c t' = .ok x ↔ s.lookup c t = .ok x) ∧
    (t.table = 0x02 → s.lookup.member t = .ok ((s.lookup .type t).map .type)) ∧
    (t.table = 0x06 → s.lookup.member t = .ok ((s.lookup .method t).map .method)) ∧
    (t.table = 0x04 → s.lookup.member t = .ok ((s.lookup .field t).map .field)) := by
  have hmember (k : MemberKind) (htable : t.table = k.kind.table) :
      s.lookup.member t = .ok ((s.lookup k.capability t).map k.wrap) :=
    Lookup.member_of_memberKind? (Token.memberKind?_of_table htable) s.lookup
  refine ⟨?_, ?_, fun c reason => eq_unresolved_of_lookup, ?_, hmember .type, hmember .method,
    hmember .field⟩
  · intro hrow
    obtain ⟨e, he⟩ := (s.exists_entry?_iff t).mpr hrow
    refine ⟨e, entry?_eq_getElem? hrow.1 s ▸ he, ?_⟩
    intro c x
    rw [lookup_eq_ok_iff, he]
    simp
  · intro hrow c x hok
    obtain ⟨e, he, -⟩ := lookup_eq_ok_iff.mp hok
    exact hrow ((s.exists_entry?_iff t).mp ⟨e, he⟩)
  · intro t' hrow c x
    rw [lookup_eq_ok_iff, lookup_eq_ok_iff, entry?_congr hrow]

/-- A scope with a method that is called with further arguments: its row answers as a method under every
    table, and not as a signature; the row behind it answers nothing. -/
theorem capabilities_partition_varArg :
    let printf : MethodHeader := ⟨"Printf", "Void", ["String"], some "Demo"⟩
    let s : Scope := ⟨#[.string [0x68], .varArgMethod printf [0x05]]⟩
    s.lookup .method ⟨0x11000002⟩ = .ok printf ∧
    (∀ bytes, s.lookup .signature ⟨0x11000002⟩ ≠ .ok bytes) ∧
    (s.lookup .method ⟨0x0A000002⟩ = .ok printf ↔ s.lookup .method ⟨0x11000002⟩ = .ok printf) ∧
    (∀ c x, s.lookup c ⟨0x06000003⟩ ≠ .ok x) ∧
    s.lookup.member ⟨0x06000002⟩ = .ok ((s.lookup .method ⟨0x06000002⟩).map .method) := by
  intro printf s
  obtain ⟨hone, -, -, hrow, -⟩ := capabilities_partition s ⟨0x11000002⟩
  obtain ⟨-, hnone, -⟩ := capabilities_partition s ⟨0x06000003⟩
  obtain ⟨-, -, -, -, -, hmethod, -⟩ := capabilities_partition s ⟨0x06000002⟩
  obtain ⟨e, he, hanswer⟩ := hone (by decide)
  cases he
  refine ⟨(hanswer .method printf).mpr rfl, ?_, hrow ⟨0x0A000002⟩ (by decide) .method printf,
    hnone (by decide), hmethod (by decide)⟩
  intro bytes hbytes
  have hsignature := congrArg Sigma.fst ((hanswer .signature bytes).mp hbytes)
  cases hsignature

/-! ## Loading what was pushed -/

theorem entries_pushAll (s : Scope) (es : List Entry) :
    (s.pushAll es).2.entries.toList = s.entries.toList ++ es := by
  induction es generalizing s with
  | nil => exact (List.append_nil _).symm
  | cons e es ih =>
    show ((s.append e).pushAll es).2.entries.toList = _
    rw [ih, append, Array.toList_push, List.append_assoc]
    rfl

/-- The token of a push leads to its entry in every later state. -/
theorem entry?_pushAll {es : List Entry} {n : Nat} {e : Entry} (he : es[n]? = some e)
    (hn : n + 1 < 0x1000000) (more : List Entry) :
    entry? ((pushAll {} es).2.pushAll more).2 (e.tokenAt n) = some e := by
  have hlt : n < es.length := (List.getElem?_eq_some_iff.mp he).1
  apply entry?_tokenAt hn
  rw [← Array.getElem?_toList, entries_pushAll, entries_pushAll]
  show (([] ++ es) ++ more)[n]? = some e
  rw [List.nil_append, List.getElem?_append_left hlt, he]

/-- **What can be loaded.**  In a run of fewer than `0x1000000` pushes, the token of every type, field and
    method that is pushed is answered when it is asked for as what it is, in all later states.  When it is
    loaded, the member is that answer, unless the entry is a method that is called with further arguments.
    Then, and only then, the token names no member, and an operand that loads it is given up in every style,
    as is its line if it comes about in the standard way. -/
theorem loads_iff_not_varArg (es more : List Entry) (hlen : (es ++ more).length < 0x1000000) {n : Nat}
    {e : Entry} (he : es[n]? = some e) {k : MemberKind} (hk : e.memberKind? = some k) :
    let later := ((pushAll {} es).2.pushAll more).2
    ∃ t x, (pushAll {} es).1[n]? = some t ∧ later.lookup k.capability t = .ok x ∧
      (later.lookup.member t = .ok (.ok (k.wrap x)) ↔ ¬ ∃ m callSite, e = .varArgMethod m callSite) ∧
      (later.lookup.member t = .error ⟨t⟩ ↔ ∃ m callSite, e = .varArgMethod m callSite) ∧
      ∀ (l : Listed) (log : Array Record), l.instruction.operand = .token .member t →
        ((∃ stop, (l.operandText resolver).result ⟨later, log⟩ = .error stop)
          ↔ ∃ m callSite, e = .varArgMethod m callSite) ∧
        (l.style.StandardLines → ((∃ stop, (l.line resolver).result ⟨later, log⟩ = .error stop)
          ↔ ∃ m callSite, e = .varArgMethod m callSite)) := by
  intro later
  have hn : n + 1 < 0x1000000 := by
    have hlt : n < es.length := (List.getElem?_eq_some_iff.mp he).1
    rw [List.length_append] at hlen
    omega
  obtain ⟨x, hx⟩ := Entry.exists_answer_of_memberKind? hk
  have hfound : later.lookup k.capability (e.tokenAt n) = .ok x :=
    lookup_eq_ok_iff.mpr ⟨e, entry?_pushAll he hn more, hx⟩
  have htoken : (pushAll {} es).1[n]? = some (e.tokenAt n) := by
    rw [getElem?_pushAll, he]
    rfl
  have htable := Entry.memberKind?_tokenAt hk n
  -- whether a token that is loaded names a member is decided by its table alone
  have hload {l : Listed} (ho : l.instruction.operand = .token .member (e.tokenAt n)) :
      l.instruction.LoadsNoMember ↔ e.kind = .memberRef := by
    rw [Instruction.loadsNoMember_iff ho, htable]
    simp
  rw [← e.kind_eq_memberRef_iff]
  refine ⟨e.tokenAt n, x, htoken, hfound, ?_, ?_, fun l log ho => ⟨?_, fun hstyle => ?_⟩⟩
  · by_cases hkind : e.kind = .memberRef
    · rw [if_pos hkind] at htable
      rw [Lookup.member_of_none htable]
      simp [hkind]
    · rw [if_neg hkind] at htable
      rw [Lookup.member_of_memberKind? htable, hfound]
      exact ⟨fun _ => hkind, fun _ => rfl⟩
  · by_cases hkind : e.kind = .memberRef
    · rw [if_pos hkind] at htable
      rw [Lookup.member_of_none htable]
      simp [hkind]
    · rw [if_neg hkind] at htable
      rw [Lookup.member_of_memberKind? htable]
      simp [hkind]
  · rw [Listed.result_operandText_eq_error_iff rfl, hload ho]
  · rw [Listed.line, Listed.result_lineIn_eq_error_iff rfl hstyle, hload ho]

/-- A method of a generic type, and one that is called with further arguments, in one scope. -/
theorem loads_iff_not_varArg_generic :
    let add : MethodHeader := ⟨"Add", "Void", ["T"], some "List"⟩
    let printf : MethodHeader := ⟨"Printf", "Void", ["String"], some "Demo"⟩
    let es : List Entry := [.type ⟨"Demo", none⟩, .genericMethod add ⟨"List[Int32]", none⟩,
      .varArgMethod printf [0x05]]
    let later := ((pushAll {} es).2.pushAll [.string [0x68]]).2
    later.lookup.member ⟨0x06000002⟩ = .ok (.ok (.method ⟨"Add", "Void", ["T"], some "List[Int32]"⟩)) ∧
    later.lookup.member ⟨0x0A000003⟩ = .error ⟨⟨0x0A000003⟩⟩ := by
  intro add printf es later
  obtain ⟨t, x, ht, hx, hloads, -⟩ :=
    loads_iff_not_varArg es [.string [0x68]] (by decide) (n := 1) rfl (k := .method) rfl
  obtain ⟨t', -, ht', -, -, hrefused, -⟩ :=
    loads_iff_not_varArg es [.string [0x68]] (by decide) (n := 2) rfl (k := .method) rfl
  have htokens : (pushAll {} es).1 = [⟨0x02000001⟩, ⟨0x06000002⟩, ⟨0x0A000003⟩] := by decide
  rw [htokens] at ht ht'
  cases ht
  cases ht'
  have hfound : later.lookup .method ⟨0x06000002⟩ = .ok ⟨"Add", "Void", ["T"], some "List[Int32]"⟩ := rfl
  obtain rfl := Except.ok.inj (hx.symm.trans hfound)
  exact ⟨hloads.mpr (by rintro ⟨m, callSite, heq⟩; cases heq), hrefused.mpr ⟨printf, [0x05], rfl⟩⟩

/-- The token that a push has given is found as a method, and cannot be loaded. -/
theorem pushed_method_not_loaded :
    let printf : MethodHeader := ⟨"Printf", "Void", ["System.String"], some "Demo"⟩
    let pushed := push {} (.varArgMethod printf [0x05, 0x02, 0x01, 0x0E, 0x41, 0x08])
    pushed.1 = ⟨0x0A000001⟩ ∧ pushed.2.lookup .method pushed.1 = .ok printf ∧
      pushed.2.lookup.member pushed.1 = .error ⟨pushed.1⟩ :=
  ⟨by decide, rfl, rfl⟩

end Scope

end Cil
