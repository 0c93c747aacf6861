/-
Reparsing: building the state cache of a document, and mending it after
a batch of changes.

After a batch:

1. The changes are taken from the bottom of the document upwards.
2. For each, the cache is realigned, so that its entries follow the
   new line numbers.
3. For each, the span of its replacement is found, moved through the
   deltas of the changes further up (the document has applied those
   after it), and tokenized again.
4. Past the end of a span, lines go on being tokenized as long as the
   state stored last differs from the one that stood there: the
   cascade.

A change whose delta or tokenizing fails is noted down and skipped; the
rest of the batch still applies. In strict mode its fault is passed on
instead, after the cache was built anew.

`mendRange` never tokenizes more lines than the document has from the
start of the range on: first the range's, then at most one more for each
step of the cascade.
-/
import Relex.Delta
import Relex.Document
import Relex.Work

namespace Relex.Reparse

open Work

-- ========================================================== one line

/-- Tokenizes a line, entered in the cached state, and stores the state
it is left in. Answers the tokens, and whether the stored state
changed. -/
def retokenize (d : Document) (engine : Engine) (line : Int) :
    Work (List Token × Bool) := do
  let text ← ofExcept (d.line line)
  let answer ← ask engine text (← entering line)
  let changed ← store line.toNat answer.next
  pure (answer.tokens, changed)

/-- Tokenizes `count` lines from a line on. Answers whether the state
stored last changed; without lines, what was known before. -/
def retokenizeAll (d : Document) (engine : Engine) (line : Int)
    (changed : Bool) : (count : Nat) → Work Bool
  | 0 => pure changed
  | count + 1 => do
    let (_, changed) ← retokenize d engine line
    retokenizeAll d engine (line + 1) changed count

/-- Tokenizes lines from a line on for as long as the state stored last
changed, at most `left` of them. Answers how many. -/
def cascade (d : Document) (engine : Engine) (line : Int)
    (changed : Bool) : (left : Nat) → Work Nat
  | 0 => pure 0
  | left + 1 => do
    if changed then
      let (_, changed) ← retokenize d engine line
      let more ← cascade d engine (line + 1) changed left
      pure (more + 1)
    else pure 0

-- ===================================================== whole documents

/-- Tokenizes every line, the first in the initial state. -/
def build (d : Document) (engine : Engine) : Work Unit := do
  let _ ← retokenizeAll d engine 0 false d.lineCount
  onCache (·.take d.lineCount)
  onTrace (·.recorded (·.built.reparsed d.lineCount 0))

/-- Forgets the cache and builds it anew. -/
def rebuild (d : Document) (engine : Engine) : Work Unit := do
  onCache fun _ => .empty
  build d engine

-- ============================================================= ranges

/-- Tokenizes the lines of a range, after clamping, and goes on past it
while states keep changing. Answers how many lines it tokenized. -/
def mendRange (d : Document) (engine : Engine) (range : Range) :
    Work Int := do
  let r := d.content.clampRange range
  let first := r.start.line
  let last := r.stop.line
  let changed ← retokenizeAll d engine first false (last + 1 - first).toNat
  let cascaded ← cascade d engine (last + 1) changed
    (d.lineCount - (last + 1)).toNat
  if cascaded ≠ 0 then
    onTrace (·.noted (.ofController .debug ("Cascaded " ++ toString cascaded
      ++ " line(s) past " ++ r.text ++ " in " ++ d.describe)))
  let tokenized := last - first + 1 + cascaded
  onTrace (·.recorded (·.reparsed tokenized cascaded))
  pure tokenized

-- ============================================================ batches

/-- A change failed. In strict mode the cache is built anew and the
fault passed on; otherwise the journal tells of it. -/
def skip (d : Document) (engine : Engine) (strict : Bool)
    (change : Change) (fault : Fault) : Work Unit := do
  onTrace (·.recorded (·.changed true))
  if strict then
    rebuild d engine
    throw fault
  else
    onTrace (·.noted (.ofController .warning ("Skipping change "
      ++ change.range.text ++ " in " ++ d.describe ++ ": "
      ++ fault.message)))

/-- Realigns the cache for each change, from the bottom upwards. Answers
the changes for which that could be done, with their deltas. -/
def realignAll (d : Document) (engine : Engine) (strict : Bool) :
    List Change → Work (List (Change × Delta))
  | [] => pure []
  | change :: rest => do
    match Delta.ofReplacement change.range change.text with
    | .error e => do
      skip d engine strict change (.edit e)
      realignAll d engine strict rest
    | .ok delta => do
      onCache (·.realign delta.start.line delta.stop.line delta.endLine)
      let others ← realignAll d engine strict rest
      pure ((change, delta) :: others)

/-- The span of a replacement once the changes further up were applied
as well, the nearest of them first. -/
def settledRange (delta : Delta) (upper : List Delta) : Range :=
  upper.foldl (fun r d => ⟨d.move r.start, d.move r.stop⟩) delta.replacement

/-- Tokenizes the span of each change again, from the bottom
upwards. -/
def mendSpans (d : Document) (engine : Engine) (strict : Bool) :
    List (Change × Delta) → Work Unit
  | [] => pure ()
  | (change, delta) :: upper => do
    match ← attempt
        (mendRange d engine (settledRange delta (upper.map (·.2)))) with
    | .ok _ => onTrace (·.recorded (·.changed false))
    | .error fault => skip d engine strict change fault
    mendSpans d engine strict upper

/-- Mends the cache after a batch. The changes refer to the document
before the batch; the document holds the result already. -/
def mendBatch (d : Document) (engine : Engine) (strict : Bool)
    (changes : List Change) : Work Unit := do
  let realigned ← realignAll d engine strict (Change.bottomUp changes)
  onCache (·.take d.lineCount)
  mendSpans d engine strict realigned

end Relex.Reparse
