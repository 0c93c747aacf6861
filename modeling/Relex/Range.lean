/-
Ranges: the span between two positions, the start inside it and the end
outside. A range is kept as it was given. One that comes from outside
may be inverted or negative: `IsValid` tells, and `sorted` swaps the
ends where needed.
-/
import Relex.Position

namespace Relex

/-- From `start`, included, to `stop`, excluded. -/
structure Range where
  start : Position
  stop : Position
  deriving DecidableEq, Inhabited, Repr

namespace Range

/-- The zero-width range at a position: an insertion point. -/
def empty (p : Position) : Range := ⟨p, p⟩

/-- Ordered, and no coordinate is negative. (The end's line cannot be,
once the start's line is not.) -/
def IsValid (r : Range) : Prop :=
  r.start ≤ r.stop ∧ 0 ≤ r.start.line ∧ 0 ≤ r.start.column
    ∧ 0 ≤ r.stop.column

instance (r : Range) : Decidable r.IsValid :=
  inferInstanceAs (Decidable (_ ∧ _ ∧ _ ∧ _))

/-- The range with its ends in document order. -/
def sorted (r : Range) : Range :=
  if r.stop < r.start then ⟨r.stop, r.start⟩ else r

/-- Do both ends coincide? -/
def isEmpty (r : Range) : Bool := r.start = r.stop

/-- Do both ends lie on one line? -/
def isOnOneLine (r : Range) : Bool := r.start.line = r.stop.line

/-- How many lines the range touches. -/
def height (r : Range) : Int := r.stop.line - r.start.line + 1

/-- Does the range hold the position? `exclusiveStart` leaves the start
out, `inclusiveEnd` takes the end in; where both meet in one point, the
start decides. -/
def contains (r : Range) (p : Position) (exclusiveStart : Bool)
    (inclusiveEnd : Bool) : Bool :=
  if p < r.start then false
  else if exclusiveStart ∧ p = r.start then false
  else if inclusiveEnd ∧ p = r.stop then true
  else p < r.stop

/-- Written as `start-end`. -/
def text (r : Range) : String :=
  r.start.text ++ "-" ++ r.stop.text

instance : ToString Range := ⟨text⟩

end Range

end Relex
