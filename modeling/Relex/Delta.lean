/-
Deltas: the arithmetic of one replacement, without looking at a
document. Replacing a range by a text is described by how many lines the
document gains or loses and by how the end of the replaced span moves;
with that, the span the text takes up can be rebuilt, and positions
after the edit can be moved.

Columns. `endShift` counts from the start of the replaced span's own
last line; a span within one line starts at its start column. When lines
are gained, the rebuilt end column stands on its own, for the tail is
cut off from the old start column. When a span of several lines falls
back onto its start line, what stood before it and what followed it meet
on one line.

Boundaries. A position equal to the end of the replaced range moves when
it is the end of a range and stays when it is the start of one. So an
insertion at the edge of a range extends its end, and never draws back
its start.
-/
import Relex.Fault
import Relex.Text.Break

namespace Relex

/-- How a replaced range becomes the span of its replacement. The end is
in coordinates from before the edit. -/
structure Delta where
  start : Position
  stop : Position
  lineGrowth : Int
  endShift : Int
  deriving DecidableEq, Inhabited, Repr

namespace Delta

-- ====================================================== from an edit

/-- The delta of replacing a range by a text. Malformed ranges are
refused. -/
def ofReplacement (old : Range) (text : List Char) : Except EditFault Delta :=
  if old.IsValid then
    let width := if old.isOnOneLine then old.stop.column - old.start.column
      else old.stop.column
    .ok {
      start := old.start
      stop := old.stop
      lineGrowth := Text.breakCount text - (old.stop.line - old.start.line)
      endShift := Text.lastLength text - width }
  else .error (.located (.unappliable old) old.start)

/-- The replaced range. -/
def replaced (d : Delta) : Range := ⟨d.start, d.stop⟩

/-- The line on which the replacement ends. -/
def endLine (d : Delta) : Int := d.stop.line + d.lineGrowth

/-- Where the replaced span ended, from the start of its last line. -/
def replacedWidth (d : Delta) : Int :=
  if d.start.line = d.stop.line then d.stop.column - d.start.column
  else d.stop.column

/-- The column at which the replacement ends. -/
def endColumn (d : Delta) : Int :=
  if 0 < d.lineGrowth then d.endShift + d.replacedWidth
  else if d.lineGrowth < 0 ∧ d.endLine = d.start.line then
    d.stop.column + d.endShift + d.start.column
  else d.stop.column + d.endShift

/-- The span the replacement takes up after the edit. -/
def replacement (d : Delta) : Range :=
  ⟨d.start, ⟨d.endLine, d.endColumn⟩⟩

-- ================================================== moving positions

/-- A position from before the edit, in coordinates from after it.
Before the replaced range's end nothing moves; on its line, positions
keep their distance from the end; further down they only change
lines. -/
def move (d : Delta) (p : Position) : Position :=
  if p < d.stop then p
  else if p.line = d.stop.line then
    ⟨d.endLine, d.endColumn + (p.column - d.stop.column)⟩
  else ⟨p.line + d.lineGrowth, p.column⟩

/-- The start of a range moved: at the replaced range's end it stays. -/
def moveStart (d : Delta) (p : Position) : Position :=
  if p ≤ d.stop then p else d.move p

/-- The end of a range moved: at the replaced range's end it moves. -/
def moveStop (d : Delta) (p : Position) : Position := d.move p

/-- A range moved, end by end. -/
def moveRange (d : Delta) (r : Range) : Range :=
  ⟨d.moveStart r.start, d.moveStop r.stop⟩

end Delta

end Relex
