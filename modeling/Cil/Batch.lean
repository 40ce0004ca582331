import Cil.Decoder

/-
  BATCHES.

  Many bodies are rendered in one go, each with a style and a lookup of its own, and with a way of its
  own to find members if it has one.  The answers come in the order of the jobs, and none depends on
  another job, except that a loaded token which names no member gives up the whole batch.
-/

namespace Cil

/-- A body to be rendered. -/
structure Job where
  bytes : Bytes
  style : Style
  lookup : Lookup
  /-- How members are found, if not by their tables. -/
  member? : Option MemberLookup := none

/-- The text of one job. -/
def Job.text (j : Job) : Except NotAMember (Except DecodeError String) :=
  let rendering : Render Unit _ := (Decoder.ofBytes j.bytes j.style).text (.ofLookup j.lookup j.member?)
  (rendering.run.run { host := () }).1

/-- The texts of all jobs, in order. -/
def Batch.render (jobs : List Job) : Except NotAMember (List (Except DecodeError String)) :=
  jobs.mapM Job.text

end Cil
