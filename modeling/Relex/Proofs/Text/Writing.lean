/-
The one way of writing a text as lines.

A text is lines with terminators between them, and there would be some
choice in taking it so: a terminator could be left inside a line, and a
carriage return with a line feed behind it could be one terminator or
two. A `Writing` leaves neither. Its lines are unbroken, and none of its
terminators is torn in two (`Torn`): a carriage return and a line feed
with nothing between them are one.

Reading goes by that, so what is read of a written text are the lines and
terminators it was written with (`Writing.lines_text`,
`Writing.breaks_text`): a writing begins with a line and what ends it,
and what is read first is that line and that terminator
(`pieces_ended`). A text therefore has no two writings
(`Writing.text_injective`), and it has one, made from its end on
(`exists_writing`). What splitting, counting and measuring find are the
parts of it.
-/
import Mathlib
import Relex.Proofs.Text.Lines

namespace Relex.Text

-- ============================================================ reading

variable {l last : Line} {b : Break} {ended : List (Line × Break)}
  {rest : List Char}

/-- The terminator that a piece is. -/
def Piece.break? : Piece → Option Break
  | .brk b => some b
  | .char _ => none

/-- The terminators of a text. -/
def breaks (text : List Char) : List Break :=
  (pieces text).filterMap Piece.break?

theorem length_breaks (text : List Char) :
    (breaks text).length = breakCount text := by
  rw [breaks, List.length_filterMap_eq_countP, breakCount]
  congr 1
  funext p
  cases p <;> rfl

theorem pieces_chars (b : Break) : pieces b.chars = [.brk b] := by
  cases b <;> rfl

/-- An unbroken line is read as its characters, and what ends it as one
terminator. -/
theorem pieces_ended (hl : Unbroken l) (hb : ¬Straddled b.chars rest) :
    pieces (l ++ b.chars ++ rest)
      = l.map .char ++ .brk b :: pieces rest := by
  rw [List.append_assoc, pieces_append (not_straddled_of_unbroken hl _),
    pieces_append hb, pieces_of_unbroken hl, pieces_chars]
  rfl

theorem lines_ended (hl : Unbroken l) (hb : ¬Straddled b.chars rest) :
    lines (l ++ b.chars ++ rest) = l :: lines rest := by
  rw [lines, pieces_ended hl hb, linesOfPieces_append,
    ← pieces_of_unbroken hl]
  change glue (lines l) ([] :: lines rest) = _
  rw [lines_of_unbroken hl, glue_single_cons, List.append_nil]

theorem breaks_of_unbroken (hl : Unbroken l) : breaks l = [] := by
  rw [breaks, pieces_of_unbroken hl]
  simp [List.filterMap_eq_nil_iff, Piece.break?]

theorem breaks_ended (hl : Unbroken l) (hb : ¬Straddled b.chars rest) :
    breaks (l ++ b.chars ++ rest) = b :: breaks rest := by
  rw [breaks, pieces_ended hl hb, List.filterMap_append,
    ← pieces_of_unbroken hl]
  change breaks l ++ b :: breaks rest = _
  rw [breaks_of_unbroken hl, List.nil_append]

-- =========================================================== writings

/-- With nothing between them, the carriage return that ends one line
and the line feed that ends the next are one terminator torn in two. -/
def Torn (ended next : Line × Break) : Prop :=
  ended.2 = .cr ∧ next = ([], .lf)

/-- The text of some lines with their terminators, and of what follows
the last of these. -/
def written (ended : List (Line × Break)) (last : Line) : List Char :=
  ended.flatMap (fun e => e.1 ++ e.2.chars) ++ last

theorem written_cons (l : Line) (b : Break)
    (ended : List (Line × Break)) (last : Line) :
    written ((l, b) :: ended) last
      = l ++ b.chars ++ written ended last := by
  simp [written]

/-- Lines with terminators between them: those that are ended, each with
its terminator, and the one behind the last terminator. -/
@[ext] structure Writing where
  ended : List (Line × Break)
  last : Line
  unbroken : ∀ l ∈ ended.map (·.1) ++ [last], Unbroken l
  whole : ended.IsChain fun e next => ¬Torn e next

/-- Written lines begin with a line feed only if it is a terminator and
ends the first of them. -/
theorem head?_written_eq_lf_iff
    (h : ∀ m ∈ ended.map (·.1) ++ [last], Unbroken m) :
    (written ended last).head? = some '\n'
      ↔ ended.head? = some ([], .lf) := by
  have hfirst : ∀ m ∈ ended.map (·.1) ++ [last], m.head? ≠ some '\n' :=
    fun m hm hlf => (h m hm _ (List.mem_of_head? hlf)).2 rfl
  cases ended with
  | nil => simpa [written] using hfirst last (by simp)
  | cons e ended =>
      obtain ⟨l, b⟩ := e
      cases l with
      | nil => cases b <;> simp [written, Break.chars]
      | cons c l =>
          have hc := hfirst (c :: l) (by simp)
          simpa [written] using hc

/-- A terminator meets the lines written behind it in the middle of one
terminator only if that is torn there. -/
theorem straddled_written_iff (l : Line) (b : Break)
    (h : ∀ m ∈ ended.map (·.1) ++ [last], Unbroken m) :
    Straddled b.chars (written ended last)
      ↔ ∃ next ∈ ended.head?, Torn (l, b) next := by
  unfold Straddled Torn
  rw [head?_written_eq_lf_iff h]
  cases b <;> simp [Break.chars]

namespace Writing

/-- The text that is written. -/
def text (w : Writing) : List Char := written w.ended w.last

/-- The lines, without their terminators. -/
def lines (w : Writing) : List Line := w.ended.map (·.1) ++ [w.last]

/-- The terminators between the lines. -/
def breaks (w : Writing) : List Break := w.ended.map (·.2)

/-- A writing is its lines and its terminators. -/
theorem eq_of_parts {w w' : Writing} (hlines : w.lines = w'.lines)
    (hbreaks : w.breaks = w'.breaks) : w = w' := by
  obtain ⟨hfront, hlast⟩ := List.append_inj' hlines rfl
  apply Writing.ext
  · rw [List.zip_of_prod hfront hbreaks]
    exact (List.zip_of_prod rfl rfl).symm
  · exact List.singleton_inj.1 hlast

/-- An unbroken line by itself. -/
def single (l : Line) (hl : Unbroken l) : Writing :=
  ⟨[], l, by simpa using hl, .nil⟩

/-- A line that is ended, in front of others. -/
def cons (l : Line) (b : Break) (w : Writing) (hl : Unbroken l)
    (hb : ¬Straddled b.chars w.text) : Writing where
  ended := (l, b) :: w.ended
  last := w.last
  unbroken := List.forall_mem_cons.2 ⟨hl, w.unbroken⟩
  whole := List.isChain_cons.2 ⟨fun next hnext htorn =>
    hb ((straddled_written_iff l b w.unbroken).2 ⟨next, hnext, htorn⟩),
    w.whole⟩

@[simp] theorem text_single (hl : Unbroken l) :
    (single l hl).text = l := rfl

@[simp] theorem text_cons (w : Writing) (hl : Unbroken l)
    (hb : ¬Straddled b.chars w.text) :
    (cons l b w hl hb).text = l ++ b.chars ++ w.text :=
  written_cons l b w.ended w.last

@[simp] theorem lines_single (hl : Unbroken l) :
    (single l hl).lines = [l] := rfl

@[simp] theorem lines_cons (w : Writing) (hl : Unbroken l)
    (hb : ¬Straddled b.chars w.text) :
    (cons l b w hl hb).lines = l :: w.lines := rfl

@[simp] theorem breaks_single (hl : Unbroken l) :
    (single l hl).breaks = [] := rfl

@[simp] theorem breaks_cons (w : Writing) (hl : Unbroken l)
    (hb : ¬Straddled b.chars w.text) :
    (cons l b w hl hb).breaks = b :: w.breaks := rfl

/-- A writing is one line, or begins with a line that is ended. -/
@[elab_as_elim] theorem induction {motive : Writing → Prop}
    (single : ∀ l hl, motive (single l hl))
    (cons : ∀ l b w hl hb, motive w → motive (cons l b w hl hb))
    (w : Writing) : motive w := by
  obtain ⟨ended, last, hunbroken, hwhole⟩ := w
  induction ended with
  | nil => exact single last (hunbroken last (by simp))
  | cons e ended ih =>
      obtain ⟨hl, hrest⟩ := List.forall_mem_cons.1 hunbroken
      obtain ⟨hnext, hothers⟩ := List.isChain_cons.1 hwhole
      apply cons e.1 e.2 ⟨ended, last, hrest, hothers⟩ hl
      · intro hb
        obtain ⟨next, hhead, htorn⟩ :=
          (straddled_written_iff e.1 e.2 hrest).1 hb
        exact hnext next hhead htorn
      · exact ih hrest hothers

-- ======================================================= reading back

/-- Splitting finds the lines a text was written with. -/
theorem lines_text (w : Writing) : Text.lines w.text = w.lines := by
  induction w using Writing.induction with
  | single l hl => simp [lines_of_unbroken hl]
  | cons l b w hl hb ih => rw [text_cons, lines_ended hl hb, ih, lines_cons]

/-- Reading finds the terminators a text was written with. -/
theorem breaks_text (w : Writing) : Text.breaks w.text = w.breaks := by
  induction w using Writing.induction with
  | single l hl => simp [breaks_of_unbroken hl]
  | cons l b w hl hb ih =>
      rw [text_cons, breaks_ended hl hb, ih, breaks_cons]

/-- No text is written in two ways. -/
theorem text_injective {w w' : Writing} (h : w.text = w'.text) :
    w = w' := by
  apply eq_of_parts
  · rw [← w.lines_text, h, w'.lines_text]
  · rw [← w.breaks_text, h, w'.breaks_text]

/-- A character that ends no line can be written in front of any
others. -/
theorem exists_text_eq_cons {c : Char} (hcr : c ≠ '\r') (hlf : c ≠ '\n')
    (w : Writing) : ∃ w' : Writing, w'.text = c :: w.text := by
  have hcons : ∀ {l}, Unbroken l → Unbroken (c :: l) := fun hl =>
    List.forall_mem_cons.2 ⟨⟨hcr, hlf⟩, hl⟩
  cases w using Writing.induction with
  | single l hl => exact ⟨single (c :: l) (hcons hl), by simp⟩
  | cons l b w hl hb _ =>
      exact ⟨cons (c :: l) b w (hcons hl) hb, by simp⟩

end Writing

/-- Every text can be written. -/
theorem exists_writing (text : List Char) :
    ∃ w : Writing, w.text = text := by
  have hblank : Unbroken [] := fun _ hc => absurd hc List.not_mem_nil
  induction text using pieces.induct with
  | case1 => exact ⟨.single [] hblank, rfl⟩
  | case2 rest ih =>
      obtain ⟨w, rfl⟩ := ih
      exact ⟨.cons [] .crlf w hblank (by simp [Straddled, Break.chars]),
        by simp [Break.chars]⟩
  | case3 rest hrest ih =>
      obtain ⟨w, rfl⟩ := ih
      have hb : ¬Straddled Break.cr.chars w.text := by
        intro hs
        obtain ⟨t, ht⟩ := List.head?_eq_some_iff.1 hs.2
        exact hrest t ht
      exact ⟨.cons [] .cr w hblank hb, by simp [Break.chars]⟩
  | case4 rest ih =>
      obtain ⟨w, rfl⟩ := ih
      exact ⟨.cons [] .lf w hblank (by simp [Straddled, Break.chars]),
        by simp [Break.chars]⟩
  | case5 c rest hcrlf hcr hlf ih =>
      obtain ⟨w, rfl⟩ := ih
      exact w.exists_text_eq_cons hcr hlf

-- ============================================================= gluing

/-- A bit of line glued in front ends up in front of the first line. -/
theorem glue_single_left (u : Line) {ys : List Line} (h : ys ≠ []) :
    glue [u] ys = ys.modifyHead (u ++ ·) := by
  cases ys with
  | nil => exact absurd rfl h
  | cons m ys => rfl

/-- A bit of line glued on ends up behind the last line. -/
theorem glue_single_right {xs : List Line} (h : xs ≠ []) (v : Line) :
    glue xs [v] = xs.modifyLast (· ++ v) := by
  rw [← List.dropLast_append_getLast h, glue_append_cons,
    List.modifyLast_concat]

/-- A text has exactly one writing. Splitting gives its lines, counting
counts its terminators, and measuring measures the line behind the last
of these. Bits of unbroken line around the text end up in front of its
first line and behind its last. -/
theorem splits_in_one_way (text : List Char) :
    ∃ w : Writing, w.text = text ∧ (∀ w' : Writing, w'.text = text → w' = w)
      ∧ lines text = w.lines
      ∧ breakCount text = w.ended.length
      ∧ lastLength text = w.last.length
      ∧ ∀ u v : Line, Unbroken u → Unbroken v →
        lines (u ++ text ++ v)
          = ((lines text).modifyLast (· ++ v)).modifyHead (u ++ ·) := by
  obtain ⟨w, rfl⟩ := exists_writing text
  refine ⟨w, rfl, fun w' h => Writing.text_injective h, w.lines_text,
    ?_, ?_, ?_⟩
  · rw [← length_breaks, w.breaks_text, Writing.breaks, List.length_map]
  · rw [lastLength_eq, w.lines_text, Writing.lines]
    simp
  · intro u v hu hv
    have hne := lines_ne_nil w.text
    rw [lines_append_append hu hv, ← glue_single_right hne,
      glue_single_left u (glue_ne_nil hne)]

/-- All the terminators: a carriage return in front of one that takes a
line feed along, and a line feed in front of one that takes none. -/
theorem splits_in_one_way_mixed :
    lines "a\r\r\n\n\rb".toList = [['a'], [], [], [], ['b']]
      ∧ breakCount "a\r\r\n\n\rb".toList = 4
      ∧ lastLength "a\r\r\n\n\rb".toList = 1
      ∧ lines (['x'] ++ "a\r\r\n\n\rb".toList ++ ['y'])
        = [['x', 'a'], [], [], [], ['b', 'y']] := by
  obtain ⟨w, -, hunique, hlines, hcount, hlength, hglue⟩ :=
    splits_in_one_way "a\r\r\n\n\rb".toList
  have hw := hunique
    ⟨[(['a'], .cr), ([], .crlf), ([], .lf), ([], .cr)], ['b'],
      by simp [Unbroken], by simp [Torn]⟩ rfl
  subst hw
  have hx : Unbroken ['x'] := by simp [Unbroken]
  have hy : Unbroken ['y'] := by simp [Unbroken]
  refine ⟨hlines, hcount, hlength, ?_⟩
  rw [hglue ['x'] ['y'] hx hy, hlines]
  rfl

end Relex.Text
