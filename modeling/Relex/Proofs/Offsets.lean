/-
Offsets and positions: two ways to point into a text.

Locating an offset goes through the pieces of the text, and what it comes
to can be said without going through anything: it is how far the lines of
the text in front of the offset reach (`locate_eq`). That text may end in
the middle of a terminator. The half counts as one by itself, and the
other half, which comes behind it, opens no further line. So whatever
comes behind the offset goes on from those lines: an offset that is
further on never lies further up, and every offset lies in the text
(`locates_by_prefix`).

The text of a document has no terminator of two characters, because its
lines are joined by line feeds. There the two ways are inverse to each
other: the text up to a position has the position as its extent, and the
text up to an offset, split into lines, is the run up to where it ends.
What lies between two positions is what lies between their offsets,
whichever of them comes first (`offsets_invert`).
-/
import Relex.Proofs.Content

namespace Relex

namespace Text

-- ============================================================ locating

/-- Below a line that ends, columns are counted anew. -/
theorem reach_ended (p : Position) {ls : List Line} (h : ls ≠ []) :
    p.reach (extent ([] :: ls))
      = (⟨p.line + 1, 0⟩ : Position).reach (extent ls) := by
  have hglue : [] :: ls = glue [[], []] ls := by
    rw [glue_cons_cons, glue_blank h]
  rw [hglue, extent_glue,
    ← Position.reach_assoc p (natural_extent _).1 (natural_extent ls).1]
  rfl

/-- Going through the pieces of a text comes as far as the lines of what
has been passed reach. -/
theorem advance_eq (text : List Char) (line column k : Nat) :
    advance line column k (pieces text)
      = (⟨line, column⟩ : Position).reach (extent (lines (text.take k))) := by
  induction text using pieces.induct generalizing line column k with
  | case1 =>
      rw [List.take_nil]
      cases k <;> exact (Position.reach_origin _).symm
  | case2 rest ih =>
      rw [pieces]
      cases k with
      | zero => exact (Position.reach_origin _).symm
      | succ k =>
          cases k with
          | zero =>
              -- the offset is between the two characters
              have hlines : lines ['\r'] = [] :: [[]] := rfl
              rw [List.take_succ_cons, List.take_zero, hlines,
                reach_ended _ (by simp)]
              exact ih (line + 1) 0 0
          | succ k =>
              have hlines : lines ('\r' :: '\n' :: rest.take k)
                  = [] :: lines (rest.take k) := rfl
              rw [List.take_succ_cons, List.take_succ_cons, hlines,
                reach_ended _ (lines_ne_nil _)]
              exact ih (line + 1) 0 k
  | case3 rest hrest ih =>
      rw [pieces.eq_3 _ hrest]
      cases k with
      | zero => exact (Position.reach_origin _).symm
      | succ k =>
          have hnext : (rest.take k).head? ≠ some '\n' := by
            intro h
            rw [List.head?_take] at h
            by_cases hk : k = 0
            · simp [hk] at h
            · rw [if_neg hk] at h
              obtain ⟨t, ht⟩ := List.head?_eq_some_iff.1 h
              exact hrest t ht
          rw [List.take_succ_cons, lines_cons_cr hnext,
            reach_ended _ (lines_ne_nil _)]
          exact ih (line + 1) 0 k
  | case4 rest ih =>
      rw [pieces]
      cases k with
      | zero => exact (Position.reach_origin _).symm
      | succ k =>
          rw [List.take_succ_cons, lines_cons_lf,
            reach_ended _ (lines_ne_nil _)]
          exact ih (line + 1) 0 k
  | case5 c rest hcrlf hcr hlf ih =>
      rw [pieces.eq_5 c rest hcrlf hcr hlf]
      cases k with
      | zero => exact (Position.reach_origin _).symm
      | succ k =>
          rw [List.take_succ_cons, lines_cons_char hcr hlf, extent_glue,
            ← Position.reach_assoc _ (natural_extent _).1
              (natural_extent _).1]
          exact ih line (column + 1) k

/-- An offset lies where the lines of the text in front of it end. -/
theorem locate_eq (text : List Char) (k : Int) :
    locate text k = extent (lines (text.take k.toNat)) := by
  unfold locate
  rw [advance_eq]
  exact Position.origin_reach _

/-- An offset that is further on lies no further up. -/
theorem locate_mono (text : List Char) {k k' : Int} (h : k ≤ k') :
    locate text k ≤ locate text k' := by
  have hsplit : text.take k'.toNat = text.take k.toNat
      ++ (text.take k'.toNat).drop k.toNat := by
    have hcut := List.take_append_drop k.toNat (text.take k'.toNat)
    rw [List.take_take, Nat.min_eq_left (by omega)] at hcut
    exact hcut.symm
  obtain ⟨ys, -, hlines⟩ := exists_lines_append (text.take k.toNat)
    ((text.take k'.toNat).drop k.toNat)
  rw [locate_eq, locate_eq, hsplit, hlines, extent_glue]
  exact Position.le_reach _ (natural_extent ys)

/-- Every offset lies in the text. -/
theorem inBounds_locate (text : List Char) (k : Int) :
    (Content.ofText text).InBounds (locate text k) := by
  obtain ⟨ys, hys, hlines⟩ := exists_lines_append (text.take k.toNat)
    (text.drop k.toNat)
  rw [List.take_append_drop] at hlines
  rw [locate_eq]
  exact Content.inBounds_extent (lines_ne_nil _) hys hlines

/-- An offset lies on the line, and in the column, that the text in front
of it measures, wherever the text is cut. It moves on with the text, and
lies in it. -/
theorem locates_by_prefix (text : List Char) :
    (∀ k : Nat, locate text k
        = ⟨breakCount (text.take k), lastLength (text.take k)⟩)
      ∧ (∀ k k' : Int, k ≤ k' → locate text k ≤ locate text k')
      ∧ ∀ k : Int, (Content.ofText text).InBounds (locate text k)
        ∧ (Content.ofText text).clamp (locate text k) = locate text k := by
  refine ⟨fun k => ?_, fun k k' => locate_mono text, fun k => ?_⟩
  · rw [locate_eq, extent_lines, Int.toNat_natCast]
  · have hin := inBounds_locate text k
    exact ⟨hin, Content.clamp_of_inBounds hin⟩

/-- An offset in the middle of a terminator lies on the next line, and so
does the one behind it. -/
theorem locates_by_prefix_halved :
    locate "a\r\nb".toList 2 = ⟨1, 0⟩ ∧ (2 : Int) ≤ 3
      ∧ locate "a\r\nb".toList 2 ≤ locate "a\r\nb".toList 3
      ∧ (Content.ofText "a\r\nb".toList).clamp ⟨1, 0⟩ = ⟨1, 0⟩ := by
  obtain ⟨hmeasured, hmono, hin⟩ := locates_by_prefix "a\r\nb".toList
  have hplace : locate "a\r\nb".toList 2 = ⟨1, 0⟩ :=
    (hmeasured 2).trans (by decide)
  have hclamp := (hin 2).2
  rw [hplace] at hclamp
  exact ⟨hplace, by decide, hmono 2 3 (by decide), hclamp⟩

end Text

namespace Content

open Text

variable {c : Content} {p q : Position}

-- =============================================== the text of a document

/-- The run up to a position is a run of unbroken lines. -/
theorem unbroken_upTo (c : Content) (p : Position) :
    ∀ l ∈ c.upTo p, Unbroken l := by
  intro l hl
  unfold upTo at hl
  rcases List.mem_append.1 hl with hl | hl
  · exact c.unbroken l (List.mem_of_mem_take hl)
  · rw [List.mem_singleton.1 hl]
    exact fun x hx => c.unbroken_line _ x (List.mem_of_mem_take hx)

/-- Offsets are those of clamped positions. -/
theorem offsetOf_clamp (c : Content) (p : Position) :
    c.offsetOf (c.clamp p) = c.offsetOf p := by
  unfold offsetOf
  rw [clamp_of_inBounds (c.inBounds_clamp p)]

/-- A position of the content is located at its offset. -/
theorem locate_offsetOf (h : c.InBounds p) :
    locate c.text (c.offsetOf p) = p := by
  rw [locate_eq, Int.toNat_natCast, take_offsetOf h,
    lines_joinLines (c.upTo_ne_nil p) (c.unbroken_upTo p), extent_upTo h]

/-- The place where an offset lies has that offset, if the text goes that
far. -/
theorem offsetOf_locate (c : Content) (k : Nat) :
    c.offsetOf (locate c.text k) = min k c.text.length := by
  have hcr : '\r' ∉ c.text := cr_not_mem_joinLines c.unbroken
  have hfront : '\r' ∉ c.text.take k :=
    fun hmem => hcr (List.mem_of_mem_take hmem)
  obtain ⟨ys, hys, hlines⟩ :=
    exists_lines_append (c.text.take k) (c.text.drop k)
  rw [List.take_append_drop] at hlines
  have hall : c.lines = Text.lines c.text :=
    (lines_joinLines c.lines_ne_nil c.unbroken).symm
  obtain ⟨hin, hupTo, -⟩ :=
    cut_extent (Text.lines_ne_nil _) hys (hall.trans hlines)
  rw [locate_eq, Int.toNat_natCast, offsetOf_eq hin, hupTo,
    joinLines_lines hfront, List.length_take]

/-- A position further on has no smaller offset. -/
theorem offsetOf_mono (hp : c.InBounds p) (hq : c.InBounds q)
    (h : p ≤ q) : c.offsetOf p ≤ c.offsetOf q := by
  rw [offsetOf_eq hp, offsetOf_eq hq, ← glue_upTo_between hp hq h,
    joinLines_glue, List.length_append]
  exact Nat.le_add_right _ _

/-- The ends of a clamped range have the smaller and the larger of the
offsets of the range's ends. -/
theorem offsetOf_clampRange (c : Content) (r : Range) :
    c.offsetOf (c.clampRange r).start
        = min (c.offsetOf r.start) (c.offsetOf r.stop)
      ∧ c.offsetOf (c.clampRange r).stop
        = max (c.offsetOf r.start) (c.offsetOf r.stop) := by
  have hstart := c.inBounds_clamp r.start
  have hstop := c.inBounds_clamp r.stop
  rw [← c.offsetOf_clamp r.start, ← c.offsetOf_clamp r.stop]
  unfold clampRange Range.sorted
  by_cases hlt : c.clamp r.stop < c.clamp r.start
  · have hle := offsetOf_mono hstop hstart (Position.le_of_lt hlt)
    rw [if_pos hlt]
    exact ⟨(Nat.min_eq_right hle).symm, (Nat.max_eq_left hle).symm⟩
  · have hle := offsetOf_mono hstart hstop (Position.not_lt.1 hlt)
    rw [if_neg hlt]
    exact ⟨(Nat.min_eq_left hle).symm, (Nat.max_eq_right hle).symm⟩

/-- The text in a range is the text between its ends' offsets. -/
theorem textIn_eq_drop_take (c : Content) (r : Range) :
    c.textIn r
      = (c.text.take (c.offsetOf (c.clampRange r).stop)).drop
        (c.offsetOf (c.clampRange r).start) := by
  obtain ⟨hstart, hstop, hle⟩ := c.clampRange_ordered r
  have hclamped : c.textIn r = c.textIn (c.clampRange r) := by
    unfold textIn
    rw [clampRange_of_inBounds hstart hstop hle]
  rw [hclamped, textIn_eq hstart hstop hle,
    drop_take_offsetOf hstart hstop hle]

-- ============================================================== theorem

/-- Offsets and positions of a document are inverse to each other, once
they are clamped; and the text in a range, whichever of its ends comes
first and wherever they are, is what lies between their offsets. -/
theorem offsets_invert (c : Content) :
    (∀ p : Position, locate c.text (c.offsetOf p) = c.clamp p)
      ∧ (∀ k : Int, (c.offsetOf (locate c.text k) : Int)
        = min (max k 0) c.text.length)
      ∧ ∀ r : Range, c.textIn r
        = (c.text.take (max (c.offsetOf r.start) (c.offsetOf r.stop))).drop
          (min (c.offsetOf r.start) (c.offsetOf r.stop)) := by
  refine ⟨fun p => ?_, fun k => ?_, fun r => ?_⟩
  · rw [← c.offsetOf_clamp p]
    exact locate_offsetOf (c.inBounds_clamp p)
  · have hnat : locate c.text k = locate c.text k.toNat := by
      rw [locate_eq, locate_eq, Int.toNat_natCast]
    rw [hnat, offsetOf_locate]
    omega
  · obtain ⟨hstart, hstop⟩ := c.offsetOf_clampRange r
    rw [textIn_eq_drop_take, hstart, hstop]

end Content

end Relex
