import Cil.Resolver
import Cil.Text.Utf16

/-
  SCOPES.

  A scope is a list of entries that only grows.  Pushing an entry gives it a token: the table says what
  kind of entry it is, the row is its position, counted from one.  A token is looked up by its row alone;
  whether the entry there fits is up to the entry, not to the table byte of the token.

  A row has three bytes, so after `2 ^ 24 - 1` entries the rows that are handed out start again at zero.
-/

namespace Cil

/-- What a scope holds. -/
inductive Scope.Entry where
  | string (units : List UInt16)
  | signature (bytes : Bytes)
  | type (t : TypeHeader)
  | field (f : FieldHeader)
  | method (m : MethodHeader)
  /-- A method that belongs to no module. -/
  | dynamicMethod (m : MethodHeader)
  /-- A method of a generic type, with the instance of the type that it is used on. -/
  | genericMethod (m : MethodHeader) (context : TypeHeader)
  /-- A method called with further arguments, whose types the call site's signature gives. -/
  | varArgMethod (m : MethodHeader) (callSite : Bytes)
deriving DecidableEq, Repr

namespace Scope.Entry

/-- A string entry for a text. -/
def ofText (s : String) : Entry := string (Utf16.encode s)

/-- The kind of token that an entry gets. -/
def kind : Entry → Token.Kind
  | string _ => .string
  | signature _ => .standAloneSig
  | type _ => .typeDef
  | field _ => .fieldDef
  | method _ | dynamicMethod _ | genericMethod _ _ => .methodDef
  | varArgMethod _ _ => .memberRef

/-- The token of an entry at an index: its row is counted from one. -/
def tokenAt (e : Entry) (index : Nat) : Token := .ofParts e.kind.table (min (index + 1) 0xFFFFFFFF)

/-- The answer of an entry to a capability, if it has one. -/
def get? : (c : Capability) → Entry → Option c.Entity
  | .string, string units => some units
  | .signature, signature bytes => some bytes
  | .type, type t => some t
  | .field, field f => some f
  | .method, method m => some m
  | .method, dynamicMethod m => some m
  | .method, genericMethod m context => some (m.inContext context)
  | .method, varArgMethod m _ => some m
  | _, _ => none

end Scope.Entry

/-- A growing list of entries. -/
structure Scope where
  entries : Array Scope.Entry := #[]
deriving DecidableEq, Repr

namespace Scope

/-- How many entries there are. -/
def size (s : Scope) : Nat := s.entries.size

/-- Puts an entry behind the others. -/
def append (s : Scope) (e : Entry) : Scope := ⟨s.entries.push e⟩

/-- Appends an entry and gives it the next row. -/
def push (s : Scope) (e : Entry) : Token × Scope := (e.tokenAt s.size, s.append e)

/-- The entry in the row of a token. -/
def entry? (s : Scope) (t : Token) : Option Entry :=
  match t.row with
  | 0 => none
  | row + 1 => s.entries[row]?

/-- What a scope answers. -/
def lookup (s : Scope) : Lookup := fun c t =>
  match (s.entry? t).bind (Entry.get? c) with
  | some x => .ok x
  | none => .error (.unresolved t c.word)

/-- The resolver whose host is a scope. -/
def resolver : Resolver Scope where
  ask c t s := (s.lookup c t, s)

end Scope

end Cil
