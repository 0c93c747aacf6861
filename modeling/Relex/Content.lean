/-
Content: the text of a document, held as its lines, with positions
looked up in it.

There is always at least one line, and no line holds a terminator.
Positions that come from outside are clamped first, so no look-up can
miss: a negative line becomes the very start, a line past the last the
very end, and a column its nearest on the line.
-/
import Relex.Range
import Relex.Text.Break

namespace Relex

/-- The lines of a document, at least one, and none of them broken by a
terminator. -/
structure Content where
  lines : List Line
  lines_ne_nil : lines ≠ []
  unbroken : ∀ l ∈ lines, Text.Unbroken l
  deriving DecidableEq

namespace Content

/-- The content that is one empty line. -/
instance : Inhabited Content :=
  ⟨⟨[[]], by simp, by simp [Text.Unbroken]⟩⟩

-- ============================================================== lines

/-- The content of a text. -/
def ofText (text : List Char) : Content :=
  ⟨Text.lines text, Text.lines_ne_nil text,
    fun _ => Text.unbroken_of_mem_lines⟩

/-- The content as a text, its lines ended by line feeds. -/
def text (c : Content) : List Char := Text.joinLines c.lines

/-- How many lines there are. -/
def lineCount (c : Content) : Nat := c.lines.length

/-- The line of an index, if there is one. -/
def line? (c : Content) (index : Int) : Option Line :=
  if index < 0 then none else c.lines[index.toNat]?

/-- The line of an index; an empty one where there is none. -/
def line (c : Content) (index : Int) : Line := (c.line? index).getD []

/-- The index of the last line. -/
def lastIndex (c : Content) : Int := (c.lineCount : Int) - 1

/-- The last line. -/
def lastLine (c : Content) : Line := c.lines.getLast c.lines_ne_nil

-- =========================================================== clamping

/-- The valid position nearest to the given one. -/
def clamp (c : Content) (p : Position) : Position :=
  if p.line < 0 then ⟨0, 0⟩
  else if c.lineCount ≤ p.line then ⟨c.lastIndex, c.lastLine.length⟩
  else ⟨p.line, min (max p.column 0) (c.line p.line).length⟩

/-- A range with both ends clamped and in document order. -/
def clampRange (c : Content) (r : Range) : Range :=
  Range.sorted ⟨c.clamp r.start, c.clamp r.stop⟩

-- ============================================================ reading

/-- The text between the ends of a range, after clamping. -/
def textIn (c : Content) (r : Range) : List Char :=
  let r := c.clampRange r
  let first := c.line r.start.line
  if r.start.line = r.stop.line then
    (first.take r.stop.column.toNat).drop r.start.column.toNat
  else
    let between := (c.lines.take r.stop.line.toNat).drop
      (r.start.line.toNat + 1)
    let last := (c.line r.stop.line).take r.stop.column.toNat
    Text.joinLines (first.drop r.start.column.toNat :: between ++ [last])

/-- How many characters of the text stand before a position, after
clamping. -/
def offsetOf (c : Content) (p : Position) : Nat :=
  let p := c.clamp p
  Text.endedLength (c.lines.take p.line.toNat) + p.column.toNat

-- ============================================================ editing

/-- The content with the span of a clamped range replaced by a text. The
text is put between what stands before the range on its first line and
what follows it on its last; the whole is split into lines again. -/
def splice (c : Content) (r : Range) (text : List Char) : Content :=
  let before := (c.line r.start.line).take r.start.column.toNat
  let after := (c.line r.stop.line).drop r.stop.column.toNat
  let middle := Text.lines (before ++ text ++ after)
  ⟨c.lines.take r.start.line.toNat ++ middle
      ++ c.lines.drop (r.stop.line.toNat + 1), by
    simp [middle, Text.lines_ne_nil], by
    intro l hl
    rcases List.mem_append.1 hl with hl | hl
    · rcases List.mem_append.1 hl with hl | hl
      · exact c.unbroken l (List.mem_of_mem_take hl)
      · exact Text.unbroken_of_mem_lines hl
    · exact c.unbroken l (List.mem_of_mem_drop hl)⟩

end Content

end Relex
