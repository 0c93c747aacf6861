/-
Sets of characters given as ranges of code points: the form in which
the properties of the character database are kept here.
-/
namespace Relex.Unicode

/-- Closed ranges of code points, in ascending order. -/
abbrev Ranges := Array (Nat × Nat)

/-- Does one of the ranges hold the character? -/
def Ranges.covers (ranges : Ranges) (c : Char) : Bool :=
  ranges.any fun r => r.1 ≤ c.toNat && c.toNat ≤ r.2

end Relex.Unicode
