/-
Matching: what a pattern matches at a place of a text.

The matcher tries the ways a pattern can match in order of preference,
the first alternative before the second, and hands each to what follows;
the first that what follows accepts is taken. What follows is a function
(`Next`), so that going back to the next way is just trying the next.

Places only move forward, and never past the end: the types say so. A
repetition that matched nothing in its last round does not go round
again, which is why matching ends.

Matching at a place sees the whole text: anchors and looks behind see
what stands in front of the place. Captures made on a way that is given
up are undone; those of earlier rounds of a repetition stay.
-/
import Relex.Pattern.Syntax

namespace Relex.Pattern

-- =========================================================== captures

/-- The captured spans by number, the latest first. -/
abbrev Captures := List (Nat × Nat × Nat)

section

variable (text : Array Char)

/-- What follows a match: given where the match ended, and the captures,
it goes on from there or gives up. -/
abbrev Next (β : Type) (p : Nat) :=
  (q : Nat) → p ≤ q → q ≤ text.size → Captures → Option β

/-- Tries the ways to match from a place on, and hands them to what
follows. -/
abbrev Runner (β : Type) :=
  (p : Nat) → p ≤ text.size → Captures → Next text β p → Option β

-- ============================================================= places

/-- Is there a word character at the index? -/
def wordAt (i : Nat) : Bool := text[i]?.any CharClass.word.holds

/-- Does the condition hold at the place? An empty text has no word
edges, and no places that are none. -/
def Anchor.holds : Anchor → Nat → Bool
  | .start, p => p = 0
  | .finish, p =>
    p = text.size || (p + 1 = text.size && text[p]? = some '\n')
  | .veryEnd, p => p = text.size
  | .wordEdge, p =>
    text.size ≠ 0 && ((0 < p && wordAt text (p - 1)) != wordAt text p)
  | .noWordEdge, p =>
    text.size ≠ 0 && ((0 < p && wordAt text (p - 1)) == wordAt text p)

/-- Do the same `n` characters follow both places? -/
def sameFrom (p q n : Nat) : Bool :=
  (List.range n).all fun i => text[p + i]? = text[q + i]?

-- ========================================================= repetition

variable {text} {β : Type}

/-- Exactly so many rounds. -/
def rounds (body : Runner text β) : Nat → Runner text β
  | 0 => fun p hp caps next => next p (Nat.le_refl p) hp caps
  | n + 1 => fun p hp caps next =>
    body p hp caps fun q hpq hq caps =>
      rounds body n q hq caps fun r hqr hr caps =>
        next r (Nat.le_trans hpq hqr) hr caps

/-- At most so many rounds. A round that matched nothing is the last. -/
def moreRounds (body : Runner text β) (greedy : Bool) (left : Option Nat)
    (p : Nat) (hp : p ≤ text.size) (caps : Captures)
    (next : Next text β p) : Option β :=
  if left = some 0 then next p (Nat.le_refl p) hp caps
  else
    let stop (_ : Unit) := next p (Nat.le_refl p) hp caps
    let round (_ : Unit) := body p hp caps fun q hpq hq caps =>
      if h : q = p then next q hpq hq caps
      else moreRounds body greedy (left.map (· - 1)) q hq caps
        fun r hqr hr caps => next r (Nat.le_trans hpq hqr) hr caps
    if greedy then (round ()).orElse stop else (stop ()).orElse round
termination_by text.size - p
decreasing_by omega

-- =========================================================== matching

/-- Runs a pattern. -/
def Node.run : Node → (β : Type) → Runner text β
  | .empty, _ => fun p hp caps next => next p (Nat.le_refl p) hp caps
  | .set s, _ => fun p _ caps next =>
    if h : p < text.size then
      if s.holds text[p] then next (p + 1) (Nat.le_succ p) h caps else none
    else none
  | .anchor a, _ => fun p hp caps next =>
    if a.holds text p then next p (Nat.le_refl p) hp caps else none
  | .seq first second, β => fun p hp caps next =>
    first.run β p hp caps fun q hpq hq caps =>
      second.run β q hq caps fun r hqr hr caps =>
        next r (Nat.le_trans hpq hqr) hr caps
  | .alt first second, β => fun p hp caps next =>
    (first.run β p hp caps next).orElse fun _ =>
      second.run β p hp caps next
  | .loop least most greedy body, β => fun p hp caps next =>
    rounds (body.run β) least p hp caps fun q hpq hq caps =>
      moreRounds (body.run β) greedy (most.map (· - least)) q hq caps
        fun r hqr hr caps => next r (Nat.le_trans hpq hqr) hr caps
  | .capture group body, β => fun p hp caps next =>
    body.run β p hp caps fun q hpq hq caps =>
      next q hpq hq ((group, p, q) :: caps)
  | .again group, _ => fun p hp caps next =>
    match caps.lookup group with
    | none => none
    | some (start, stop) =>
      if h : p + (stop - start) ≤ text.size then
        if sameFrom text start p (stop - start) then
          next (p + (stop - start)) (Nat.le_add_right ..) h caps
        else none
      else none
  | .ahead negated body, _ => fun p hp caps next =>
    match body.run Captures p hp caps fun _ _ _ caps => some caps with
    | some seen =>
      if negated then none else next p (Nat.le_refl p) hp seen
    | none => if negated then next p (Nat.le_refl p) hp caps else none
  | .behind width negated body, _ => fun p hp caps next =>
    let seen := if width ≤ p then
        body.run Captures (p - width) (Nat.le_trans (Nat.sub_le ..) hp)
          caps fun _ _ _ caps => some caps
      else none
    match seen with
    | some seen =>
      if negated then none else next p (Nat.le_refl p) hp seen
    | none => if negated then next p (Nat.le_refl p) hp caps else none
  | .atomic body, _ => fun p hp caps next =>
    match body.run ({ q : Nat // p ≤ q ∧ q ≤ text.size } × Captures)
        p hp caps fun q hpq hq caps => some (⟨q, hpq, hq⟩, caps) with
    | some (⟨q, hpq, hq⟩, caps) => next q hpq hq caps
    | none => none

end

-- =========================================================== matchers

/-- Where a match that starts at a place ends, if there is one there: the
match a matcher prefers. -/
abbrev Matcher :=
  (text : Array Char) → (start : Nat) → start ≤ text.size →
    Option { stop : Nat // start ≤ stop ∧ stop ≤ text.size }

/-- Makes a matcher of what a pattern is written as, or says in words why
the pattern is refused. -/
abbrev Compiler := String → Except String Matcher

/-- The matcher of a pattern. -/
def Node.matcher (node : Node) : Matcher := fun _ start h =>
  node.run _ start h [] fun stop hs ht _ => some ⟨stop, hs, ht⟩

/-- A matched span of a text, at or after a place. -/
structure Span (size pos : Nat) where
  start : Nat
  stop : Nat
  pos_le_start : pos ≤ start
  start_le_stop : start ≤ stop
  stop_le_size : stop ≤ size
  deriving DecidableEq, Repr

/-- A span found from a later place on. -/
def Span.weaken {size pos later : Nat} (h : pos ≤ later)
    (s : Span size later) : Span size pos :=
  { s with pos_le_start := Nat.le_trans h s.pos_le_start }

namespace Matcher

/-- The leftmost match at or after a place. -/
def search (m : Matcher) (text : Array Char) (pos : Nat) :
    Option (Span text.size pos) :=
  if h : pos ≤ text.size then
    match m text pos h with
    | some ⟨stop, hs, ht⟩ => some ⟨pos, stop, Nat.le_refl pos, hs, ht⟩
    | none => (m.search text (pos + 1)).map (·.weaken (Nat.le_succ pos))
  else none
termination_by text.size + 1 - pos

/-- The leftmost match at or after a place that takes up at least one
character. Each match that takes up none sends the search on to the
place after its start. -/
def searchNonEmpty (m : Matcher) (text : Array Char) (pos : Nat) :
    Option { s : Span text.size pos // s.start < s.stop } :=
  if _h : pos ≤ text.size then
    match m.search text pos with
    | none => none
    | some span =>
      if hs : span.start < span.stop then some ⟨span, hs⟩
      else
        (m.searchNonEmpty text (span.start + 1)).map fun ⟨s, hs⟩ =>
          ⟨s.weaken (Nat.le_trans span.pos_le_start (Nat.le_succ _)), hs⟩
  else none
termination_by text.size + 1 - pos
decreasing_by
  have := span.pos_le_start
  omega

end Matcher

end Relex.Pattern
