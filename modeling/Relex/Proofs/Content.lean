/-
Positions inside a content, and what an edit does to the text around
them.

A position that lies in the content cuts its lines in two: the run up
to it and the run onward from it. Glued together again they are the
content (`glue_upTo_onward`), the extent of the first is the position
itself (`extent_upTo`), and no other cut of the content has that extent
(`onward_extent`). Two positions in order cut out the run
between them. Texts, offsets and edits are all read off these cuts:

- the offset of a position is the length of the text up to it
  (`offsetOf_eq`);
- the text in a range is the text of the run between its ends
  (`textIn_eq`);
- a splice keeps the run up to the start and the run onward from the
  end, and puts the lines of the new text between them
  (`lines_splice`). Positions up to the start keep the run up to them
  (`splice_of_le`), and positions from the end on, moved along, the run
  onward from them (`splice_of_ge`).
-/
import Relex.Content
import Relex.Proofs.Extent

namespace Relex.Content

open Text

variable {c : Content} {p q : Position}

-- ============================================================== cuts

/-- The position lies in the content: on one of its lines, and no
further than that line's end. -/
structure InBounds (c : Content) (p : Position) : Prop where
  line_nonneg : 0 ≤ p.line
  line_lt : p.line < c.lineCount
  column_nonneg : 0 ≤ p.column
  column_le : p.column ≤ (c.line p.line).length

/-- The lines up to a position, the last of them cut off there. -/
def upTo (c : Content) (p : Position) : List Line :=
  c.lines.take p.line.toNat ++ [(c.line p.line).take p.column.toNat]

/-- The lines from a position on, the first of them cut off in front of
it. -/
def onward (c : Content) (p : Position) : List Line :=
  (c.line p.line).drop p.column.toNat :: c.lines.drop (p.line.toNat + 1)

/-- The lines between two positions, cut off at both. -/
def between (c : Content) (p q : Position) : List Line :=
  if p.line = q.line then
    [((c.line p.line).take q.column.toNat).drop p.column.toNat]
  else
    (c.line p.line).drop p.column.toNat
      :: (c.lines.take q.line.toNat).drop (p.line.toNat + 1)
      ++ [(c.line q.line).take q.column.toNat]

theorem upTo_ne_nil (c : Content) (p : Position) : c.upTo p ≠ [] := by
  simp [upTo]

theorem onward_ne_nil (c : Content) (p : Position) :
    c.onward p ≠ [] := by
  simp [onward]

theorem between_ne_nil (c : Content) (p q : Position) :
    c.between p q ≠ [] := by
  unfold between
  split <;> simp

theorem InBounds.natural (h : c.InBounds p) : p.Natural :=
  ⟨h.line_nonneg, h.column_nonneg⟩

theorem line_natCast (c : Content) (n : Nat) :
    c.line n = (c.lines[n]?).getD [] := by
  unfold line line?
  rw [if_neg (by omega), Int.toNat_natCast]

/-- A line of the content, with the lines above and below it. -/
theorem take_append_line_append_drop (h0 : 0 ≤ p.line)
    (h : p.line < c.lineCount) :
    c.lines.take p.line.toNat
      ++ c.line p.line :: c.lines.drop (p.line.toNat + 1) = c.lines := by
  obtain ⟨n, hn⟩ := Int.eq_ofNat_of_zero_le h0
  have hlt : n < c.lines.length := by
    unfold lineCount at h
    omega
  have hline : c.line p.line = c.lines[n] := by
    rw [hn, line_natCast, List.getElem?_eq_getElem hlt]
    rfl
  rw [hline, hn, Int.toNat_natCast, List.getElem_cons_drop,
    List.take_append_drop]

/-- A cut content, put together again. -/
theorem glue_upTo_onward (h : c.InBounds p) :
    glue (c.upTo p) (c.onward p) = c.lines := by
  unfold upTo onward
  rw [glue_append_cons, List.take_append_drop]
  exact take_append_line_append_drop h.line_nonneg h.line_lt

theorem extent_upTo (h : c.InBounds p) : extent (c.upTo p) = p := by
  have h0 := h.line_nonneg
  have h1 := h.line_lt
  have h2 := h.column_nonneg
  have h3 := h.column_le
  unfold lineCount at h1
  unfold upTo
  rw [extent_append_single, List.length_take, List.length_take]
  exact Position.ext' (by dsimp only; omega) (by dsimp only; omega)

section

variable {xs ys : List Line}

/-- Where two runs meet that make up the content, there is a position of
the content. -/
theorem cut_extent (hx : xs ≠ []) (hy : ys ≠ [])
    (h : c.lines = glue xs ys) :
    c.InBounds (extent xs) ∧ c.upTo (extent xs) = xs
      ∧ c.onward (extent xs) = ys := by
  obtain ⟨above, left, rfl⟩ := (List.eq_nil_or_concat xs).resolve_left hx
  obtain ⟨right, below, rfl⟩ := List.exists_cons_of_ne_nil hy
  rw [List.concat_eq_append] at *
  rw [glue_append_cons] at h
  have hline : c.line above.length = left ++ right := by
    rw [line_natCast, h, List.getElem?_append_right (Nat.le_refl _),
      Nat.sub_self]
    rfl
  rw [extent_append_single]
  refine ⟨⟨Int.natCast_nonneg _, ?_, Int.natCast_nonneg _, ?_⟩, ?_, ?_⟩
  · show (above.length : Int) < c.lineCount
    unfold lineCount
    rw [h, List.length_append, List.length_cons]
    omega
  · show (left.length : Int) ≤ (c.line above.length).length
    rw [hline, List.length_append]
    omega
  · show c.lines.take above.length
      ++ [(c.line above.length).take left.length] = above ++ [left]
    rw [hline, h, List.take_left, List.take_left]
  · show (c.line above.length).drop left.length
      :: c.lines.drop (above.length + 1) = right :: below
    rw [hline, h, List.drop_left, ← List.drop_drop, List.drop_left]
    rfl

theorem inBounds_extent (hx : xs ≠ []) (hy : ys ≠ [])
    (h : c.lines = glue xs ys) : c.InBounds (extent xs) :=
  (cut_extent hx hy h).1

theorem onward_extent (hx : xs ≠ []) (hy : ys ≠ [])
    (h : c.lines = glue xs ys) : c.onward (extent xs) = ys :=
  (cut_extent hx hy h).2.2

end

/-- Two positions in order: the run up to the second is the run up to
the first and what lies between. -/
theorem glue_upTo_between (hp : c.InBounds p) (hq : c.InBounds q)
    (h : p ≤ q) : glue (c.upTo p) (c.between p q) = c.upTo q := by
  have hp0 := hp.line_nonneg
  have hq1 := hq.line_lt
  unfold upTo between
  rcases h with hl | ⟨hl, hc⟩
  · have hpl : p.line < c.lineCount := by omega
    have hlen : p.line.toNat ≤ c.lines.length := by
      unfold lineCount at hpl
      omega
    have hsub : q.line.toNat - p.line.toNat
        = q.line.toNat - (p.line.toNat + 1) + 1 := by omega
    have htake := congrArg (List.take q.line.toNat)
      (take_append_line_append_drop hp0 hpl)
    rw [List.take_append, List.take_take, Nat.min_eq_right (by omega),
      List.length_take, Nat.min_eq_left hlen, hsub,
      List.take_succ_cons] at htake
    rw [if_neg (by omega), List.cons_append, glue_append_cons,
      List.take_append_drop, List.drop_take, ← List.cons_append,
      ← List.append_assoc, htake]
  · have hn : p.column.toNat ≤ q.column.toNat := by omega
    have htake : (c.line p.line).take p.column.toNat
        = ((c.line p.line).take q.column.toNat).take p.column.toNat := by
      rw [List.take_take, Nat.min_eq_left hn]
    rw [if_pos hl, glue_append_cons, htake, List.take_append_drop, hl]

/-- Two positions in order: the run onward from the first is what lies
between and the run onward from the second. -/
theorem glue_between_onward (hp : c.InBounds p) (hq : c.InBounds q)
    (h : p ≤ q) : glue (c.between p q) (c.onward q) = c.onward p := by
  have hcut : c.lines
      = glue (c.upTo p) (glue (c.between p q) (c.onward q)) := by
    rw [← glue_assoc, glue_upTo_between hp hq h, glue_upTo_onward hq]
  have := onward_extent (c.upTo_ne_nil p)
    (glue_ne_nil (c.between_ne_nil p q)) hcut
  rw [extent_upTo hp] at this
  exact this.symm

/-- The runs up to two positions are in order with the positions. -/
theorem extent_between (hp : c.InBounds p) (hq : c.InBounds q)
    (h : p ≤ q) : p.reach (extent (c.between p q)) = q := by
  have := congrArg extent (glue_upTo_between hp hq h)
  rw [extent_glue, extent_upTo hp, extent_upTo hq] at this
  exact this

-- =========================================================== clamping

theorem lineCount_pos (c : Content) : 0 < c.lineCount :=
  List.length_pos_iff.2 c.lines_ne_nil

/-- The last line is the one with the last index. -/
theorem line_lastIndex (c : Content) : c.line c.lastIndex = c.lastLine := by
  have hpos := c.lineCount_pos
  have hlast : c.lastIndex = ((c.lines.length - 1 : Nat) : Int) := by
    unfold lastIndex lineCount at *
    omega
  rw [hlast, line_natCast, ← List.getLast?_eq_getElem?,
    List.getLast?_eq_some_getLast c.lines_ne_nil]
  rfl

/-- A clamped position lies in the content. -/
theorem inBounds_clamp (c : Content) (p : Position) :
    c.InBounds (c.clamp p) := by
  have hpos := c.lineCount_pos
  unfold clamp
  by_cases habove : p.line < 0
  · rw [if_pos habove]
    exact ⟨Int.le_refl 0, Int.natCast_pos.2 hpos, Int.le_refl 0,
      Int.natCast_nonneg _⟩
  · rw [if_neg habove]
    by_cases hbelow : (c.lineCount : Int) ≤ p.line
    · rw [if_pos hbelow]
      refine ⟨?_, ?_, Int.natCast_nonneg _, ?_⟩
      · show 0 ≤ c.lastIndex
        unfold lastIndex
        omega
      · show c.lastIndex < c.lineCount
        unfold lastIndex
        omega
      · show (c.lastLine.length : Int) ≤ (c.line c.lastIndex).length
        exact Int.le_of_eq (by rw [line_lastIndex])
    · rw [if_neg hbelow]
      refine ⟨?_, ?_, ?_, ?_⟩
      · show 0 ≤ p.line
        omega
      · show p.line < c.lineCount
        omega
      · show 0 ≤ min (max p.column 0) ((c.line p.line).length : Int)
        omega
      · show min (max p.column 0) ((c.line p.line).length : Int)
          ≤ (c.line p.line).length
        omega

theorem inBounds_origin (c : Content) : c.InBounds ⟨0, 0⟩ :=
  ⟨Int.le_refl 0, Int.natCast_pos.2 c.lineCount_pos, Int.le_refl 0,
    Int.natCast_nonneg _⟩

/-- Clamping leaves a position of the content alone. -/
theorem clamp_of_inBounds (h : c.InBounds p) : c.clamp p = p := by
  have h0 := h.line_nonneg
  have h1 := h.line_lt
  have h2 := h.column_nonneg
  have h3 := h.column_le
  unfold clamp
  rw [if_neg (by omega), if_neg (by omega)]
  refine Position.ext' rfl ?_
  show min (max p.column 0) ((c.line p.line).length : Int) = p.column
  omega

/-- A clamped range lies in the content, its ends in order. -/
theorem clampRange_ordered (c : Content) (r : Range) :
    c.InBounds (c.clampRange r).start ∧ c.InBounds (c.clampRange r).stop
      ∧ (c.clampRange r).start ≤ (c.clampRange r).stop := by
  have hstart := c.inBounds_clamp r.start
  have hstop := c.inBounds_clamp r.stop
  unfold clampRange Range.sorted
  by_cases hlt : c.clamp r.stop < c.clamp r.start
  · rw [if_pos hlt]
    exact ⟨hstop, hstart, Position.le_of_lt hlt⟩
  · rw [if_neg hlt]
    exact ⟨hstart, hstop, Position.not_lt.1 hlt⟩

/-- Clamping leaves an ordered range of the content alone. -/
theorem clampRange_of_inBounds {r : Range} (hstart : c.InBounds r.start)
    (hstop : c.InBounds r.stop) (h : r.start ≤ r.stop) :
    c.clampRange r = r := by
  unfold clampRange Range.sorted
  rw [clamp_of_inBounds hstart, clamp_of_inBounds hstop]
  exact if_neg (Position.not_lt.2 h)

-- ============================================================ reading

theorem text_eq (h : c.InBounds p) :
    c.text = joinLines (c.upTo p) ++ joinLines (c.onward p) := by
  rw [← joinLines_glue, glue_upTo_onward h]
  rfl

/-- The text between the ends of an ordered range of the content. -/
theorem textIn_eq {r : Range} (hstart : c.InBounds r.start)
    (hstop : c.InBounds r.stop) (h : r.start ≤ r.stop) :
    c.textIn r = joinLines (c.between r.start r.stop) := by
  unfold textIn between
  rw [clampRange_of_inBounds hstart hstop h]
  dsimp only
  split
  · rfl
  · rfl

/-- The offset of a position is the length of the text up to it. -/
theorem offsetOf_eq (h : c.InBounds p) :
    c.offsetOf p = (joinLines (c.upTo p)).length := by
  have h2 := h.column_nonneg
  have h3 := h.column_le
  unfold offsetOf upTo
  rw [clamp_of_inBounds h, length_joinLines_append, List.length_take,
    Nat.min_eq_left (by omega)]

theorem take_offsetOf (h : c.InBounds p) :
    c.text.take (c.offsetOf p) = joinLines (c.upTo p) := by
  rw [offsetOf_eq h, text_eq h, List.take_left]

theorem drop_offsetOf (h : c.InBounds p) :
    c.text.drop (c.offsetOf p) = joinLines (c.onward p) := by
  rw [offsetOf_eq h, text_eq h, List.drop_left]

/-- The text from one position to a later one. -/
theorem drop_take_offsetOf (hp : c.InBounds p) (hq : c.InBounds q)
    (h : p ≤ q) :
    (c.text.take (c.offsetOf q)).drop (c.offsetOf p)
      = joinLines (c.between p q) := by
  rw [take_offsetOf hq, ← glue_upTo_between hp hq h, joinLines_glue,
    offsetOf_eq hp, List.drop_left]

-- ============================================================ editing

theorem unbroken_line (c : Content) (index : Int) :
    Unbroken (c.line index) := by
  unfold line line?
  by_cases hneg : index < 0
  · rw [if_pos hneg]
    intro x hx
    cases hx
  · rw [if_neg hneg]
    cases h : c.lines[index.toNat]? with
    | none =>
        intro x hx
        cases hx
    | some l => exact c.unbroken l (List.mem_of_getElem? h)

/-- A splice keeps the run up to the start and the run onward from the
end, and puts the lines of the text between them. -/
theorem lines_splice (c : Content) (r : Range) (text : List Char) :
    (c.splice r text).lines
      = glue (c.upTo r.start)
        (glue (Text.lines text) (c.onward r.stop)) := by
  have hbefore : Unbroken ((c.line r.start.line).take r.start.column.toNat) :=
    fun x hx => c.unbroken_line _ x (List.mem_of_mem_take hx)
  have hafter : Unbroken ((c.line r.stop.line).drop r.stop.column.toNat) :=
    fun x hx => c.unbroken_line _ x (List.mem_of_mem_drop hx)
  unfold splice upTo onward
  dsimp only
  have hglue := glue_append_right (Text.lines text)
    (List.cons_ne_nil ((c.line r.stop.line).drop r.stop.column.toNat) [])
    (c.lines.drop (r.stop.line.toNat + 1))
  rw [List.singleton_append] at hglue
  rw [lines_append_append hbefore hafter, glue_append_left,
    List.append_assoc, hglue,
    glue_append_right _ (glue_ne_nil (Text.lines_ne_nil text))]

/-- The lines above a splice keep their numbers, and those below it are
counted on from the last line of what it puts in. -/
theorem getElem?_splice {r : Range} (text : List Char) {first last : Nat}
    (hfirst : r.start.line = first) (hlast : r.stop.line = last)
    (h : first < c.lineCount) (i : Nat)
    (hi : i < first ∨ first + breakCount text < i) :
    (c.splice r text).lines[i]?
      = if i < first then c.lines[i]?
        else c.lines[i - (first + breakCount text) + last]? := by
  have hbefore : Unbroken ((c.line r.start.line).take r.start.column.toNat) :=
    fun x hx => c.unbroken_line _ x (List.mem_of_mem_take hx)
  have hafter : Unbroken ((c.line r.stop.line).drop r.stop.column.toNat) :=
    fun x hx => c.unbroken_line _ x (List.mem_of_mem_drop hx)
  have hmiddle := length_lines_append_append hbefore hafter text
  have habove : (c.lines.take first).length = first :=
    List.length_take_of_le (Nat.le_of_lt h)
  unfold splice
  dsimp only
  generalize Text.lines (_ ++ text ++ _) = middle at hmiddle ⊢
  rw [hfirst, hlast, Int.toNat_natCast, Int.toNat_natCast,
    List.append_assoc, List.getElem?_append, habove]
  by_cases hlt : i < first
  · rw [if_pos hlt, if_pos hlt, List.getElem?_take, if_pos hlt]
  · rw [if_neg hlt, if_neg hlt, List.getElem?_append,
      if_neg (by omega), List.getElem?_drop]
    congr 1
    omega

section

variable {r : Range} (text : List Char)

/-- Positions up to the start of the replaced range stay in the content,
and keep the run up to them. -/
theorem splice_of_le (hp : c.InBounds p) (hstart : c.InBounds r.start)
    (h : p ≤ r.start) :
    (c.splice r text).InBounds p
      ∧ (c.splice r text).upTo p = c.upTo p := by
  have hlines := c.lines_splice r text
  rw [← glue_upTo_between hp hstart h, glue_assoc] at hlines
  obtain ⟨hin, hupTo, -⟩ := cut_extent (c.upTo_ne_nil p)
    (glue_ne_nil (c.between_ne_nil p r.start)) hlines
  rw [extent_upTo hp] at hin hupTo
  exact ⟨hin, hupTo⟩

/-- A position behind the replaced range goes as far behind the new text
as it was behind the range, and what followed it follows it. -/
theorem splice_of_ge (hp : c.InBounds p) (hstart : c.InBounds r.start)
    (hstop : c.InBounds r.stop) (h : r.stop ≤ p) :
    (c.splice r text).InBounds
        ((r.start.reach (extent (Text.lines text))).reach
          (extent (c.between r.stop p)))
      ∧ (c.splice r text).onward
          ((r.start.reach (extent (Text.lines text))).reach
            (extent (c.between r.stop p)))
        = c.onward p := by
  have hlines := c.lines_splice r text
  rw [← glue_between_onward hstop hp h, ← glue_assoc, ← glue_assoc]
    at hlines
  obtain ⟨hin, -, honward⟩ := cut_extent
    (glue_ne_nil (glue_ne_nil (c.upTo_ne_nil r.start)))
    (c.onward_ne_nil p) hlines
  rw [extent_glue, extent_glue, extent_upTo hstart] at hin honward
  exact ⟨hin, honward⟩

end

/-- A content is determined by its text. -/
theorem text_injective {c c' : Content} (h : c.text = c'.text) :
    c = c' := by
  have hlines : c.lines = c'.lines := by
    rw [← lines_joinLines c.lines_ne_nil c.unbroken,
      ← lines_joinLines c'.lines_ne_nil c'.unbroken]
    exact congrArg Text.lines h
  cases c
  cases c'
  cases hlines
  rfl

end Relex.Content
