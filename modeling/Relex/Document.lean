/-
Documents: a text under a name, edited in batches.

A batch is a list of changes whose ranges all refer to the text before
the batch and may not overlap. A batch is refused as a whole if a range
is malformed or if two ranges overlap once clamped. Otherwise its
changes are spliced in from the bottom of the document upwards, so that
the ranges further up stay good while those below are being replaced.

Of two changes that start at one position the one with the later end
goes first. So an insertion at the start of a replaced range ends up in
front of the replacement; of several insertions at one position the one
listed last ends up in front.
-/
import Relex.Content
import Relex.Fault

namespace Relex

-- ============================================================ changes

/-- The replacement of a range by a text. -/
structure Change where
  range : Range
  text : List Char
  deriving DecidableEq, Inhabited, Repr

namespace Change

/-- Document order of changes: by start, then by end. -/
protected def Le (a b : Change) : Prop :=
  a.range.start < b.range.start
    ∨ (a.range.start = b.range.start ∧ a.range.stop ≤ b.range.stop)

instance : LE Change := ⟨Change.Le⟩

instance (a b : Change) : Decidable (a ≤ b) :=
  inferInstanceAs (Decidable (_ ∨ _))

/-- The changes from the bottom of the document upwards. Changes of one
range stay in the order in which they were listed. -/
def bottomUp (changes : List Change) : List Change :=
  changes.mergeSort fun a b => b ≤ a

/-- The first two neighbours that overlap, the upper one first, in a
list that goes from the bottom upwards. -/
def overlap? : List Change → Option (Change × Change)
  | lower :: upper :: rest =>
    if lower.range.start < upper.range.stop then some (upper, lower)
    else overlap? (upper :: rest)
  | _ => none

end Change

-- ========================================================== documents

/-- A text with the name it is known by, the language it is written in,
and how many batches were applied to it. -/
structure Document where
  uri : String
  languageId : String
  version : Nat
  content : Content
  deriving DecidableEq, Inhabited

namespace Document

/-- A new document. -/
def new (uri languageId : String) (text : List Char) : Document :=
  ⟨uri, languageId, 0, .ofText text⟩

/-- A new document of the given lines. A line that holds terminators
makes several. -/
def ofLines (uri languageId : String) (lines : List Line) : Document :=
  new uri languageId (Text.joinLines lines)

/-- The lines of the document. -/
def lines (d : Document) : List Line := d.content.lines

/-- How many lines the document has. -/
def lineCount (d : Document) : Nat := d.content.lineCount

/-- The line of an index, or the fault that there is none. -/
def line (d : Document) (index : Int) : Except Fault Line :=
  match d.content.line? index with
  | some line => .ok line
  | none => .error (.noLine index d.lineCount)

/-- The document as messages name it. -/
def describe (d : Document) : String :=
  "TextDocument(" ++ Text.quoted d.uri ++ ", lines="
    ++ toString d.lineCount ++ ", version=" ++ toString d.version ++ ")"

-- ============================================================ batches

/-- Why a batch is refused: its first malformed range, or else the
lowest two neighbours that overlap. `clamped` is the batch with its
ranges clamped. -/
def refusal? (changes clamped : List Change) : Option EditFault :=
  match changes.find? fun c => ¬c.range.IsValid with
  | some c => some (.located (.malformed c.range) c.range.start)
  | none =>
    match Change.overlap? (Change.bottomUp clamped) with
    | some (upper, lower) =>
      some (.located (.overlapping upper.range lower.range)
        lower.range.start)
    | none => none

/-- The batch with its ranges clamped, in the order given. -/
def clampBatch (d : Document) (changes : List Change) : List Change :=
  changes.map fun c => ⟨d.content.clampRange c.range, c.text⟩

/-- Splices changes in, one after the other. -/
def spliceAll (c : Content) (changes : List Change) : Content :=
  changes.foldl (fun c change => c.splice change.range change.text) c

/-- The document after a batch, together with the batch as applied: the
clamped changes in the order given. -/
def apply (d : Document) (changes : List Change) :
    Except EditFault (Document × List Change) :=
  let clamped := d.clampBatch changes
  match refusal? changes clamped with
  | some e => .error e
  | none =>
    .ok ({ d with
      version := d.version + 1
      content := spliceAll d.content (Change.bottomUp clamped) }, clamped)

end Document

end Relex
