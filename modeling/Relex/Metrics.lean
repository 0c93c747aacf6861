/-
Metrics: what handling edits costs, counted for as long as a host asks.

Counting blocks nest. Only the innermost counts; when it ends, the one
around it goes on from where it stood.
-/
namespace Relex

/-- The counters of one block. -/
structure Metrics where
  /-- Lines tokenized to store their states. -/
  linesTokenized : Int := 0
  /-- Those of them past the range that had to be done anyway. -/
  cascadeLines : Int := 0
  /-- Changes after which the cache was mended. -/
  changesApplied : Int := 0
  /-- Changes that failed. -/
  changesSkipped : Int := 0
  /-- Builds of a whole document's cache. -/
  fullBuilds : Int := 0
  deriving DecidableEq, Inhabited, Repr

namespace Metrics

/-- All counters at zero. -/
def zero : Metrics := {}

/-- Counts tokenized lines, and how many of them cascaded. -/
def reparsed (m : Metrics) (lines cascade : Int) : Metrics :=
  { m with
    linesTokenized := m.linesTokenized + lines
    cascadeLines := m.cascadeLines + cascade }

/-- Counts a change. -/
def changed (m : Metrics) (skipped : Bool) : Metrics :=
  if skipped then { m with changesSkipped := m.changesSkipped + 1 }
  else { m with changesApplied := m.changesApplied + 1 }

/-- Counts a build of a whole document's cache. -/
def built (m : Metrics) : Metrics :=
  { m with fullBuilds := m.fullBuilds + 1 }

end Metrics

/-- The counting blocks entered, innermost first. -/
structure Meters where
  blocks : List Metrics
  deriving DecidableEq, Inhabited, Repr

namespace Meters

/-- Nothing is counted. -/
def off : Meters := ⟨[]⟩

/-- The counters of the innermost block. -/
def active? (m : Meters) : Option Metrics := m.blocks.head?

/-- Enters a block. -/
def enter (m : Meters) : Meters := ⟨.zero :: m.blocks⟩

/-- Ends the innermost block. -/
def leave (m : Meters) : Meters := ⟨m.blocks.tail⟩

/-- Counts in the innermost block, if there is one. -/
def record (m : Meters) (count : Metrics → Metrics) : Meters :=
  ⟨m.blocks.modifyHead count⟩

end Meters

end Relex
