import Cil.Error
import Cil.Record

/-
  METHOD BODIES AND WHERE THEY COME FROM.

  A source finishes its body or gives a reason why it cannot.  Then the buffer it has been writing to is
  used instead, as far as the source says that it is filled; what lies behind is left over from earlier
  and is never looked at.
-/

namespace Cil

/-- Where a body comes from. -/
structure Source where
  /-- The finished body, or the reason why there is none. -/
  finished : Except Error Bytes
  /-- The buffer that the body is written to. -/
  buffer : Bytes
  /-- How many bytes of the buffer are in use. -/
  used : UInt64

/-- The bytes of a method, and whether they are those of the finished body. -/
structure Body where
  bytes : Bytes
  complete : Bool := true
deriving DecidableEq, Repr

namespace Source

/-- The part of the buffer that is in use. -/
def inUse (s : Source) : Bytes := s.buffer.take s.used.toNat

/-- The body of a source. -/
def body (s : Source) : Body :=
  match s.finished with
  | .ok bytes => { bytes }
  | .error _ => { bytes := s.inUse, complete := false }

/-- What taking the body puts into the log. -/
def log (s : Source) : Array Record :=
  match s.finished with
  | .ok _ => #[]
  | .error e =>
    #[⟨.warn, "Method body extraction failed, using " ++ Nat.repr s.inUse.length
      ++ " raw bytes instead: " ++ e.text⟩]

end Source

end Cil
