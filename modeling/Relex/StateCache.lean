/-
State caches: for each line of a document the state in which its
tokenizer left it. The state in which a line is entered is the one the
line above was left in; the first line is entered in the initial state.

An entry may be unset. Lines that an edit inserts get unset entries
until they are tokenized, and storing over an unset entry counts as a
change, whatever is stored: that keeps re-tokenizing going through them.
-/
import Relex.Fault

namespace Relex

/-- The states of the lines from the first on; `none` marks an unset
entry. -/
structure StateCache where
  entries : List (Option TokenState)
  deriving DecidableEq, Inhabited

namespace StateCache

-- ============================================================ looking

/-- A cache without entries. -/
def empty : StateCache := ⟨[]⟩

/-- How many entries there are, unset ones included. -/
def size (c : StateCache) : Nat := c.entries.length

/-- The state a line was left in, if it is known. -/
def get? (c : StateCache) (line : Int) : Option TokenState :=
  if line < 0 then none else (c.entries[line.toNat]?).join

/-- Is it known in which state the line was left? -/
def isSet (c : StateCache) (line : Int) : Bool := (c.get? line).isSome

/-- The state a line was left in; the initial state if unknown. -/
def leaving (c : StateCache) (line : Int) : TokenState :=
  (c.get? line).getD .none

/-- The state a line is entered in. -/
def entering (c : StateCache) (line : Int) : TokenState :=
  if line ≤ 0 then .none else c.leaving (line - 1)

/-- Every entry, unset ones as the initial state. -/
def toList (c : StateCache) : List TokenState :=
  c.entries.map (·.getD .none)

/-- The cache as messages name it. -/
def describe (c : StateCache) : String :=
  "LineStateCache(lines=" ++ toString c.size ++ ")"

-- ============================================================ storing

/-- The cache with the state of a line set, and whether that changed the
entry. Lines that the cache does not reach yet get unset entries. -/
def insert (c : StateCache) (line : Nat) (state : TokenState) :
    Bool × StateCache :=
  let padded := c.entries ++ List.replicate (line + 1 - c.size) none
  ((padded[line]?).join ≠ some state, ⟨padded.set line (some state)⟩)

/-- Sets the state of a line. A negative index counts from the end of
the entries, and must not reach past the first. -/
def insertAt (c : StateCache) (line : Int) (state : TokenState) :
    Except Fault (Bool × StateCache) :=
  if 0 ≤ line then .ok (c.insert line.toNat state)
  else if 0 ≤ line + c.size then .ok (c.insert (line + c.size).toNat state)
  else .error .noEntry

-- ========================================================= realigning

/-- An index into the entries that may count from their end, as a count
of entries in front of it. -/
def cut (c : StateCache) (index : Int) : Nat :=
  if index < 0 then (index + c.size).toNat else min index.toNat c.size

/-- Realigns the entries after the lines from `start` to `stop` were
replaced by lines that end on `newStop`. The entry of the old end line
goes to the new end line, which still has the old one's tail; the lines
in front of it get unset entries; all further entries shift along. A
cache that does not reach `start` stays as it is. -/
def realign (c : StateCache) (start stop newStop : Int) : StateCache :=
  if c.size ≤ start then c
  else
    let first := c.cut start
    ⟨c.entries.take first
      ++ List.replicate (newStop - start).toNat none
      ++ c.entries.drop (max first (c.cut stop))⟩

/-- Drops the entries of the lines from `count` on. -/
def take (c : StateCache) (count : Int) : StateCache :=
  ⟨c.entries.take count.toNat⟩

end StateCache

end Relex
