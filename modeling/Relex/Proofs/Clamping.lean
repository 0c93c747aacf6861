/-
Clamping keeps the order.

There are three ways a position is clamped: above the content it becomes
the origin, below it the ending, and on a line of the content it keeps
the line and takes the nearest column. Every position of the content lies
between the origin and the ending (`le_ending`), so a position that is
clamped to one of them is clamped to the right side of all others; and on
one and the same line the nearest columns are in order (`clamp_mono`).
With that, and because the positions of the content are just the ones
that clamping leaves alone (`clamp_eq_self_iff`), clamping is a monotone
retraction onto the content.

All that is true of ranges follows: to clamp a range is to clamp its ends
once they are in document order (`clampRange_eq`). So ranges that do not
overlap still do not overlap when clamped, and a document has no reason
to refuse a batch of them.
-/
import Mathlib
import Relex.Proofs.Workspace.Refusal

namespace Relex

-- ============================================================= sorting

theorem Position.le_antisymm {p q : Position} (h : p ≤ q) (h' : q ≤ p) :
    p = q := by
  rw [le_def] at h h'
  exact Position.ext' (by omega) (by omega)

namespace Range

variable {r : Range}

theorem sorted_of_le (h : r.start ≤ r.stop) : r.sorted = r :=
  if_neg (Position.not_lt.2 h)

theorem sorted_of_lt (h : r.stop < r.start) :
    r.sorted = ⟨r.stop, r.start⟩ :=
  if_pos h

/-- Sorted, a range has its ends in order. -/
theorem sorted_ordered (r : Range) : r.sorted.start ≤ r.sorted.stop := by
  unfold sorted
  split
  · next hlt => exact Position.le_of_lt hlt
  · next hlt => exact Position.not_lt.1 hlt

end Range

-- =========================================================== positions

namespace Content

variable {c : Content} {p q : Position}

/-- The last position of the content. -/
def ending (c : Content) : Position := ⟨c.lastIndex, c.lastLine.length⟩

theorem le_ending (h : c.InBounds p) : p ≤ c.ending := by
  have hline := h.line_lt
  have hcolumn := h.column_le
  rw [Position.le_def]
  show p.line < c.lastIndex
    ∨ p.line = c.lastIndex ∧ p.column ≤ c.lastLine.length
  by_cases hlast : p.line = c.lastIndex
  · rw [hlast, line_lastIndex] at hcolumn
    exact .inr ⟨hlast, hcolumn⟩
  · unfold lastIndex at *
    omega

/-- What lies above the first line is clamped to the start. -/
theorem clamp_above (h : p.line < 0) : c.clamp p = ⟨0, 0⟩ := if_pos h

/-- What lies below the last line is clamped to the end. -/
theorem clamp_below (h : (c.lineCount : Int) ≤ p.line) :
    c.clamp p = c.ending := by
  unfold clamp
  rw [if_neg (by omega), if_pos h]
  rfl

/-- On a line of the content only the column is clamped. -/
theorem clamp_on_line (h0 : 0 ≤ p.line) (h : p.line < c.lineCount) :
    c.clamp p
      = ⟨p.line, min (max p.column 0) (c.line p.line).length⟩ := by
  unfold clamp
  rw [if_neg (by omega), if_neg (by omega)]

/-- Clamping leaves the positions of the content alone, and only them. -/
theorem clamp_eq_self_iff : c.clamp p = p ↔ c.InBounds p :=
  ⟨fun h => h ▸ c.inBounds_clamp p, clamp_of_inBounds⟩

/-- Clamping keeps the order of positions. -/
theorem clamp_mono (c : Content) (h : p ≤ q) : c.clamp p ≤ c.clamp q := by
  by_cases habove : p.line < 0
  · rw [clamp_above habove]
    exact Position.origin_le (c.inBounds_clamp q).natural
  by_cases hbelow : (c.lineCount : Int) ≤ q.line
  · rw [clamp_below hbelow]
    exact le_ending (c.inBounds_clamp p)
  -- Now both are on lines of the content.
  rw [Position.le_def] at h
  rw [clamp_on_line (p := p) (by omega) (by omega),
    clamp_on_line (p := q) (by omega) (by omega), Position.le_def]
  dsimp only
  rcases h with hline | ⟨hline, hcolumn⟩
  · exact .inl hline
  · refine .inr ⟨hline, ?_⟩
    rw [hline]
    omega

-- ============================================================== ranges

variable {r s : Range}

/-- Clamping a range is clamping its ends in document order. -/
theorem clampRange_eq (c : Content) (r : Range) :
    c.clampRange r = ⟨c.clamp r.sorted.start, c.clamp r.sorted.stop⟩ := by
  have hordered : c.clamp r.sorted.start ≤ c.clamp r.sorted.stop :=
    c.clamp_mono r.sorted_ordered
  unfold clampRange
  by_cases hlt : r.stop < r.start
  · rw [Range.sorted_of_lt hlt] at hordered ⊢
    -- The clamped ends are still in the wrong order, or they coincide.
    by_cases hclamped : c.clamp r.stop < c.clamp r.start
    · exact Range.sorted_of_lt hclamped
    · have hle := Position.not_lt.1 hclamped
      rw [Range.sorted_of_le hle]
      have heq := Position.le_antisymm hle hordered
      dsimp only
      rw [heq]
  · rw [Range.sorted_of_le (Position.not_lt.1 hlt)] at hordered ⊢
    exact Range.sorted_of_le hordered

theorem clampRange_of_le (h : r.start ≤ r.stop) :
    c.clampRange r = ⟨c.clamp r.start, c.clamp r.stop⟩ := by
  rw [clampRange_eq, Range.sorted_of_le h]

/-- Clamping a range once is enough. -/
theorem clampRange_idem (c : Content) (r : Range) :
    c.clampRange (c.clampRange r) = c.clampRange r := by
  obtain ⟨hstart, hstop, hordered⟩ := c.clampRange_ordered r
  exact clampRange_of_inBounds hstart hstop hordered

/-- A range that ends no later than another one starts still does so once
both are clamped. -/
theorem clampRange_stop_le_start (c : Content)
    (h : r.sorted.stop ≤ s.sorted.start) :
    (c.clampRange r).stop ≤ (c.clampRange s).start := by
  rw [clampRange_eq, clampRange_eq]
  exact c.clamp_mono h

theorem not_overlaps_clampRange (c : Content)
    (h : ¬r.sorted.Overlaps s.sorted) :
    ¬(c.clampRange r).Overlaps (c.clampRange s) := by
  unfold Range.Overlaps at h
  rw [not_and_or, not_not, not_not] at h
  rcases h with h | h
  · exact fun ho => ho.1 (c.clampRange_stop_le_start h)
  · exact fun ho => ho.2 (c.clampRange_stop_le_start h)

end Content

-- ============================================================= batches

instance (changes : List Change) : Decidable (Change.Separate changes) :=
  inferInstanceAs (Decidable (List.Pairwise _ _))

namespace Document

variable {changes : List Change}

/-- Clamping never makes changes overlap. -/
theorem separate_clampBatch (d : Document)
    (hin : ∀ change ∈ changes, change.range.start ≤ change.range.stop)
    (h : Change.Separate changes) :
    Change.Separate (d.clampBatch changes) := by
  unfold Change.Separate clampBatch
  rw [List.pairwise_map]
  refine h.imp_of_mem fun {a b} ha hb hab => ?_
  refine d.content.not_overlaps_clampRange ?_
  rwa [Range.sorted_of_le (hin a ha), Range.sorted_of_le (hin b hb)]

/-- A batch of valid ranges that do not overlap is not refused. -/
theorem not_refusable_of_separate (d : Document)
    (hvalid : ∀ change ∈ changes, change.range.IsValid)
    (h : Change.Separate changes) : ¬d.Refusable changes := by
  rintro (⟨change, hc, hmalformed⟩ | hcollide)
  · exact Range.isMalformed_iff.1 hmalformed (hvalid change hc)
  · exact Change.collide_iff.1 hcollide
      (d.separate_clampBatch (fun change hc => (hvalid change hc).1) h)

-- ========================================================= the theorem

/-- Clamping is a monotone retraction onto the positions of a document.
So a clamped range lies in the document with its ends in order, clamping
it again changes nothing, and an ordered range keeps its ends where they
are, each clamped by itself. Of two ranges of which one ends no later
than the other starts (an inverted range starts at its lower end), the
same is true when they are clamped; and changes whose ranges are valid
and do not overlap neither overlap when clamped nor are refused. -/
theorem clamping_retracts (d : Document) :
    (∀ p, d.content.InBounds (d.content.clamp p)
        ∧ (d.content.clamp p = p ↔ d.content.InBounds p))
      ∧ (∀ p q, p ≤ q → d.content.clamp p ≤ d.content.clamp q)
      ∧ (∀ r, d.content.InBounds (d.content.clampRange r).start
        ∧ d.content.InBounds (d.content.clampRange r).stop
        ∧ (d.content.clampRange r).start ≤ (d.content.clampRange r).stop
        ∧ d.content.clampRange (d.content.clampRange r)
          = d.content.clampRange r)
      ∧ (∀ r : Range, r.start ≤ r.stop → d.content.clampRange r
        = ⟨d.content.clamp r.start, d.content.clamp r.stop⟩)
      ∧ (∀ r s : Range, r.sorted.stop ≤ s.sorted.start →
        (d.content.clampRange r).stop ≤ (d.content.clampRange s).start)
      ∧ (∀ r s : Range, ¬r.sorted.Overlaps s.sorted →
        ¬(d.content.clampRange r).Overlaps (d.content.clampRange s))
      ∧ ∀ changes, (∀ change ∈ changes, change.range.IsValid) →
        Change.Separate changes →
        Change.Separate (d.clampBatch changes)
          ∧ ∃ d' applied, d.apply changes = .ok (d', applied) := by
  refine ⟨fun p => ⟨d.content.inBounds_clamp p,
    Content.clamp_eq_self_iff⟩, fun p q => d.content.clamp_mono, ?_,
    fun r => Content.clampRange_of_le,
    fun r s => d.content.clampRange_stop_le_start,
    fun r s => d.content.not_overlaps_clampRange, ?_⟩
  · intro r
    obtain ⟨hstart, hstop, hordered⟩ := d.content.clampRange_ordered r
    exact ⟨hstart, hstop, hordered, d.content.clampRange_idem r⟩
  · intro changes hvalid h
    exact ⟨d.separate_clampBatch (fun change hc => (hvalid change hc).1) h,
      exists_apply_eq_ok (d.not_refusable_of_separate hvalid h)⟩

/-- Two lines; ranges on either side of the end of the first line and past
the end of the text, which clamping brings together. -/
theorem clamping_retracts_past_the_end :
    let d := Document.new "untitled:document" "plaintext" "ab\ncd".toList
    let changes : List Change := [⟨⟨⟨0, 5⟩, ⟨0, 7⟩⟩, "x".toList⟩,
      ⟨⟨⟨0, 1⟩, ⟨0, 4⟩⟩, "y".toList⟩, ⟨⟨⟨7, 0⟩, ⟨9, 2⟩⟩, "z".toList⟩]
    d.content.clamp ⟨-1, 8⟩ ≤ d.content.clamp ⟨0, -3⟩
      ∧ d.content.clampRange ⟨⟨0, 1⟩, ⟨4, 0⟩⟩
        = ⟨d.content.clamp ⟨0, 1⟩, d.content.clamp ⟨4, 0⟩⟩
      ∧ (d.content.clampRange ⟨⟨1, 1⟩, ⟨0, 9⟩⟩).stop
        ≤ (d.content.clampRange ⟨⟨8, 0⟩, ⟨1, 1⟩⟩).start
      ∧ ¬(d.content.clampRange ⟨⟨8, 0⟩, ⟨1, 1⟩⟩).Overlaps
        (d.content.clampRange ⟨⟨1, 1⟩, ⟨0, 9⟩⟩)
      ∧ Change.Separate (d.clampBatch changes)
      ∧ ∃ d' applied, d.apply changes = .ok (d', applied) := by
  intro d changes
  obtain ⟨-, hmono, -, hends, hapart, hseparate, hbatch⟩ :=
    clamping_retracts d
  exact ⟨hmono _ _ (by decide), hends _ (by decide),
    hapart _ _ (by decide), hseparate _ _ (by decide),
    hbatch changes (by decide) (by decide)⟩

end Document

end Relex
