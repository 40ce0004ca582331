import Cil.Capability
import Cil.Error
import Cil.Record

/-
  RESOLVERS.

  A resolver answers requests: a capability and a token.  Its answers may depend on a state of its own,
  the host, and a request may change the host, so the same request can be answered differently later.
  The simplest resolver is a `Lookup`, whose answers depend on the request alone.

  A loaded token is asked for what its table names, a type, a method or a field (`memberKind?`).  If it
  names none of them there is no request to make: `NotAMember`.  A resolver may have a way of its own to
  find the members that loaded tokens name, and is then left to it.

  Rendering asks a resolver and writes to the log.  `Render σ` is the monad of such computations; what
  has been asked and logged stays so when the rendering is given up.
-/

namespace Cil

/-! ## Requests and answers -/

/-- Answers that depend on the request alone. -/
abbrev Lookup := (c : Capability) → Token → Except Error c.Entity

/-- A way to find the member that a token names, if it names one. -/
abbrev MemberLookup := Token → Except NotAMember (Except Error Member)

/-- Answers that may depend on a host, and change it. -/
structure Resolver (σ : Type) where
  ask : (c : Capability) → Token → StateM σ (Except Error c.Entity)
  /-- The resolver's own way to find members; without one they are asked for by their tables. -/
  member? : Option (Token → StateM σ (Except NotAMember (Except Error Member))) := none

/-- One question to a resolver. -/
structure Request where
  capability : Capability
  token : Token
deriving DecidableEq, Repr

/-- A request is shown by what is asked for and the digits of the token. -/
def Request.text (r : Request) : String := r.capability.word ++ " " ++ r.token.hex

namespace Resolver

variable {σ : Type}

/-- A lookup asks no host, and neither does a way to find members that comes with it. -/
def ofLookup (lookup : Lookup) (member? : Option MemberLookup := none) : Resolver σ where
  ask c t := pure (lookup c t)
  member? := member?.map fun find t => pure (find t)

/-- The resolver that gives a fixed reason for some tokens, whatever is asked about them, and passes
    every other request on. -/
def failingOn (failure? : Token → Option Error) (r : Resolver σ) : Resolver σ where
  ask c t :=
    match failure? t with
    | some e => pure (.error e)
    | none => r.ask c t
  member? := r.member?.map fun find t =>
    match failure? t with
    | some e => pure (.ok (.error e))
    | none => find t

/-- The resolver that also writes down every request.  Members that are found in a way of its own are
    not requested. -/
def recording (r : Resolver σ) : Resolver (σ × Array Request) where
  ask c t := fun (s, requests) =>
    let (answer, s) := r.ask c t s
    (answer, s, requests.push ⟨c, t⟩)
  member? := r.member?.map fun find t (s, requests) =>
    let (found, s) := find t s
    (found, s, requests)

end Resolver

/-! ## Members -/

/-- The three things that a loaded token can name. -/
inductive MemberKind where
  | type
  | method
  | field
deriving DecidableEq, Repr

namespace MemberKind

/-- What to ask for. -/
abbrev capability : MemberKind → Capability
  | type => .type
  | method => .method
  | field => .field

/-- The answer as a member. -/
def wrap : (k : MemberKind) → k.capability.Entity → Member
  | type => .type
  | method => .method
  | field => .field

end MemberKind

/-- What a loaded token names, by its table. -/
def Token.memberKind? (t : Token) : Option MemberKind :=
  match t.kind? with
  | some .typeDef => some .type
  | some .methodDef => some .method
  | some .fieldDef => some .field
  | _ => none

/-- The member that a token names, by its table. -/
def Lookup.member (lookup : Lookup) : MemberLookup := fun t =>
  match t.memberKind? with
  | some k => .ok ((lookup k.capability t).map k.wrap)
  | none => .error ⟨t⟩

namespace Resolver

variable {σ : Type}

/-- Asks for what the table of a token says. -/
def askByTable (r : Resolver σ) (t : Token) : StateM σ (Except NotAMember (Except Error Member)) :=
  match t.memberKind? with
  | some k => return .ok ((← r.ask k.capability t).map k.wrap)
  | none => return .error ⟨t⟩

/-- Finds the member that a token names, in the resolver's own way if it has one. -/
def findMember (r : Resolver σ) : Token → StateM σ (Except NotAMember (Except Error Member)) :=
  r.member?.getD r.askByTable

end Resolver

/-! ## Rendering -/

/-- What a rendering runs in. -/
structure World (σ : Type) where
  host : σ
  log : Array Record := #[]

/-- Computations that ask a resolver with host `σ`, write to the log, and may be given up. -/
abbrev Render (σ : Type) := ExceptT NotAMember (StateM (World σ))

namespace Render

variable {σ : Type}

/-- Puts one question. -/
def ask (r : Resolver σ) (c : Capability) (t : Token) : Render σ (Except Error c.Entity) :=
  fun w =>
    let (answer, host) := r.ask c t w.host
    (.ok answer, { w with host })

/-- Writes records to the log. -/
def report (records : Array Record) : Render σ Unit :=
  fun w => (.ok (), { w with log := w.log ++ records })

/-- Asks for the member that a token names. -/
def askMember (r : Resolver σ) (t : Token) : Render σ (Except Error Member) :=
  fun w =>
    let (found, host) := r.findMember t w.host
    (found, { w with host })

end Render

end Cil
