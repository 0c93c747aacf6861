/-
Positions: a line and a column, both counted from zero. A position is
just a pair of integers: it may lie past the end of a line, past the
last line, or be negative. Documents clamp positions before they look
anything up (`Content.clamp`); nothing here looks at a document.

Document order compares lines first and columns second.
-/
namespace Relex

/-- A line and a column, counted from zero. -/
structure Position where
  line : Int
  column : Int
  deriving DecidableEq, Inhabited, Repr

namespace Position

-- ===================================================== document order

/-- Document order, strict: an earlier line, or an earlier column of the
same line. -/
protected def Lt (p q : Position) : Prop :=
  p.line < q.line ∨ (p.line = q.line ∧ p.column < q.column)

/-- Document order: an earlier line, or no later column of the same
line. -/
protected def Le (p q : Position) : Prop :=
  p.line < q.line ∨ (p.line = q.line ∧ p.column ≤ q.column)

instance : LT Position := ⟨Position.Lt⟩
instance : LE Position := ⟨Position.Le⟩

theorem lt_def {p q : Position} :
    p < q ↔ p.line < q.line ∨ (p.line = q.line ∧ p.column < q.column) :=
  Iff.rfl

theorem le_def {p q : Position} :
    p ≤ q ↔ p.line < q.line ∨ (p.line = q.line ∧ p.column ≤ q.column) :=
  Iff.rfl

instance (p q : Position) : Decidable (p < q) :=
  decidable_of_iff _ lt_def.symm

instance (p q : Position) : Decidable (p ≤ q) :=
  decidable_of_iff _ le_def.symm

/-- The earlier of two positions. -/
instance : Min Position := ⟨fun p q => if p ≤ q then p else q⟩

/-- The later of two positions. -/
instance : Max Position := ⟨fun p q => if q ≤ p then p else q⟩

-- ============================================================= moving

/-- The position moved by whole lines and columns. -/
def shift (p : Position) (lines columns : Int) : Position :=
  ⟨p.line + lines, p.column + columns⟩

/-- The same line, another column. -/
def atColumn (p : Position) (column : Int) : Position :=
  ⟨p.line, column⟩

/-- Written as `line:column`. -/
def text (p : Position) : String :=
  toString p.line ++ ":" ++ toString p.column

instance : ToString Position := ⟨text⟩

end Position

end Relex
