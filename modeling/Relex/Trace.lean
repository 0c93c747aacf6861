/-
The trace: what work leaves behind besides its results. The lines that
were handed to engines, the journal, and the counters.
-/
import Relex.Journal
import Relex.Metrics
import Relex.Text.Break

namespace Relex

/-- What work leaves behind, in the order in which it happened. -/
structure Trace where
  /-- The lines handed to engines, also those an engine failed on. -/
  calls : List Line
  journal : List Entry
  meters : Meters
  deriving DecidableEq

namespace Trace

/-- Nothing has happened. -/
def blank : Trace := ⟨[], [], .off⟩

instance : Inhabited Trace := ⟨blank⟩

/-- A line is handed to an engine. -/
def called (t : Trace) (line : Line) : Trace :=
  { t with calls := t.calls ++ [line] }

/-- An entry goes into the journal. -/
def noted (t : Trace) (e : Entry) : Trace :=
  { t with journal := t.journal ++ [e] }

/-- The innermost counters go on. -/
def recorded (t : Trace) (count : Metrics → Metrics) : Trace :=
  { t with meters := t.meters.record count }

/-- The calls and the journal were read, and start afresh. -/
def read (t : Trace) : Trace := { t with calls := [], journal := [] }

end Trace

end Relex
