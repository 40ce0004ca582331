/-
  LOG RECORDS.
-/

namespace Cil

/-- How much a record matters. -/
inductive Level where
  | warn
  | debug
  | trace
deriving DecidableEq, Repr

/-- The name of a level. -/
def Level.name : Level → String
  | warn => "WARN"
  | debug => "DEBUG"
  | trace => "TRACE"

/-- One entry of the log. -/
structure Record where
  level : Level
  text : String
deriving DecidableEq, Repr

end Cil
