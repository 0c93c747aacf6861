/-
From a range to its delta and back.

A delta keeps the end of a replacement as a shift of the old end, which
counts from another column depending on whether the replaced range lay on
one line, and is read back in three ways depending on whether lines were
gained or lost. What is read back is the span that the new text takes up
in the document, whichever of these cases coder and decoder are in
(`replacement_round_trip`).
-/
import Mathlib
import Relex.Proofs.Settled

namespace Relex

open Text

namespace Text

/-- Behind the last terminator of a text without terminators is all of
it. -/
theorem lastLength_of_breakCount {t : List Char} (h : breakCount t = 0) :
    lastLength t = t.length := by
  rw [lastLength_eq, lines_of_unbroken (unbroken_of_breakCount h)]
  rfl

theorem lastLength_eq_getLast (t : List Char) :
    lastLength t = ((lines t).getLast (lines_ne_nil t)).length := by
  rw [lastLength_eq, List.getLastD_eq_getLast?,
    List.getLast?_eq_some_getLast (lines_ne_nil t)]
  rfl

end Text

namespace Delta

variable {delta : Delta} {r : Range} {t : List Char}

/-- The line on which a replacement ends, and its column there: next to
the start column if the text has no terminator, and the text's own
otherwise. -/
theorem Describes.replacement_stop (hd : delta.Describes r t)
    (h : r.start ≤ r.stop) :
    delta.replacement.stop.line = r.start.line + breakCount t
      ∧ delta.replacement.stop.column
        = if breakCount t = 0 then r.start.column + t.length
          else ((lines t).getLast (lines_ne_nil t)).length := by
  rw [hd.replacement_eq h, extent_lines]
  refine ⟨Position.reach_line .., ?_⟩
  by_cases hbreaks : breakCount t = 0
  · rw [if_pos hbreaks, Position.reach_within (by simpa using hbreaks),
      lastLength_of_breakCount hbreaks]
  · rw [if_neg hbreaks, Position.reach_beyond (by simpa using hbreaks),
      lastLength_eq_getLast]

/-- A text put in place of an ordered range of a document: the delta of
that, read back, is a range of the new document that starts where the old
one did, ends as many lines further down as the text has terminators, and
holds the text. -/
theorem replacement_round_trip {d : Document}
    (hstart : d.content.InBounds r.start)
    (hstop : d.content.InBounds r.stop) (h : r.start ≤ r.stop)
    (t : List Char) :
    ∃ d' delta, d.apply [⟨r, t⟩] = .ok (d', [⟨r, t⟩])
      ∧ ofReplacement r t = .ok delta
      ∧ d'.content.InBounds delta.replacement.start
      ∧ d'.content.InBounds delta.replacement.stop
      ∧ d'.content.clampRange delta.replacement = delta.replacement
      ∧ delta.replacement.start = r.start
      ∧ delta.replacement.stop.line = r.start.line + breakCount t
      ∧ delta.replacement.stop.column
        = (if breakCount t = 0 then r.start.column + t.length
          else ((lines t).getLast (lines_ne_nil t)).length)
      ∧ d'.content.textIn delta.replacement = joinLines (lines t) := by
  have hvalid : r.IsValid :=
    ⟨h, hstart.line_nonneg, hstart.column_nonneg, hstop.column_nonneg⟩
  obtain ⟨delta, hdelta, hd⟩ := exists_ofReplacement hvalid t
  let change : Change := ⟨r, t⟩
  have happly := d.apply_singleton (show change.range.IsValid from hvalid)
  rw [Content.clampRange_of_inBounds hstart hstop h] at happly
  have hholds := Content.holds_replacement
    (show delta.Describes change.range change.text from hd) hstart h
  obtain ⟨hline, hcolumn⟩ := hd.replacement_stop h
  refine ⟨_, delta, happly, hdelta, hholds.ordered.1, hholds.ordered.2.1,
    hholds.textIn_eq.1, ?_, hline, hcolumn, hholds.textIn_eq.2⟩
  rw [hd.replacement_eq h]

/-- Three lines fall back onto one: what is left of the first and of the
last meets behind the new text. -/
theorem replacement_round_trip_joined :
    ∃ d' delta,
      (Document.new "untitled:document" "plaintext"
          "ab\ncd\nef".toList).apply [⟨⟨⟨0, 1⟩, ⟨2, 1⟩⟩, "xyz".toList⟩]
        = .ok (d', [⟨⟨⟨0, 1⟩, ⟨2, 1⟩⟩, "xyz".toList⟩])
      ∧ ofReplacement ⟨⟨0, 1⟩, ⟨2, 1⟩⟩ "xyz".toList = .ok delta
      ∧ delta.lineGrowth = -2
      ∧ delta.replacement.stop = ⟨0, 4⟩
      ∧ d'.content.textIn delta.replacement = "xyz".toList := by
  let d := Document.new "untitled:document" "plaintext"
    "ab\ncd\nef".toList
  have hstart : d.content.InBounds ⟨0, 1⟩ :=
    ⟨by decide, by decide, by decide, by decide⟩
  have hstop : d.content.InBounds ⟨2, 1⟩ :=
    ⟨by decide, by decide, by decide, by decide⟩
  obtain ⟨d', delta, happly, hdelta, -, -, -, -, hline, hcolumn, htext⟩ :=
    replacement_round_trip (r := ⟨⟨0, 1⟩, ⟨2, 1⟩⟩) hstart hstop (by decide)
      "xyz".toList
  refine ⟨d', delta, happly, hdelta, ?_, Position.ext' hline hcolumn,
    htext⟩
  cases hdelta
  decide

end Delta

end Relex
