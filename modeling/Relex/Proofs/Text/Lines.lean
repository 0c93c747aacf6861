/-
The algebra of lines: what splitting and joining do to texts that are
put one after the other.

Two runs of lines are put together by letting the last line of the
first go on with the first line of the second (`glue`). That makes runs
of lines a monoid, with the empty run as its unit, and both directions
between texts and lines respect it: `joinLines_glue` without
conditions, `lines_append` unless the texts meet in the middle of one
terminator. Where they do, the second still goes on from the lines of
the first (`exists_lines_append`). Everything further up about the lines
of an edited document is computed in this monoid; the pieces of a text
are looked at again only where an offset is located in them.

Joining the lines of a text forgets which terminators stood between
them and nothing else (`lines_joinLines`); and not even that, if all of
them were line feeds (`joinLines_lines`).
-/
import Relex.Text.Break

namespace Relex.Text

-- ============================================================= gluing

/-- Two runs of lines as one: the last line of the first goes on with
the first line of the second. -/
def glue : List Line → List Line → List Line
  | [], ys => ys
  | [l], [] => [l]
  | [l], m :: ys => (l ++ m) :: ys
  | l :: l' :: xs, ys => l :: glue (l' :: xs) ys

@[simp] theorem glue_nil_left (ys : List Line) : glue [] ys = ys := rfl

@[simp] theorem glue_nil_right (xs : List Line) : glue xs [] = xs := by
  induction xs with
  | nil => rfl
  | cons l xs ih =>
      cases xs with
      | nil => rfl
      | cons l' xs => rw [glue, ih]

theorem glue_cons {xs : List Line} (h : xs ≠ []) (l : Line)
    (ys : List Line) : glue (l :: xs) ys = l :: glue xs ys := by
  cases xs with
  | nil => exact absurd rfl h
  | cons l' xs => rfl

theorem glue_cons_cons (l l' : Line) (xs ys : List Line) :
    glue (l :: l' :: xs) ys = l :: glue (l' :: xs) ys := rfl

theorem glue_single_cons (l m : Line) (ys : List Line) :
    glue [l] (m :: ys) = (l ++ m) :: ys := rfl

theorem glue_ne_nil {xs ys : List Line} (h : xs ≠ []) :
    glue xs ys ≠ [] := by
  cases xs with
  | nil => exact absurd rfl h
  | cons l xs =>
      cases xs with
      | nil => cases ys <;> simp [glue]
      | cons l' xs => simp [glue]

/-- A single empty line in front changes nothing. -/
theorem glue_blank {ys : List Line} (h : ys ≠ []) :
    glue [[]] ys = ys := by
  cases ys with
  | nil => exact absurd rfl h
  | cons m ys => rfl

theorem glue_assoc (xs ys zs : List Line) :
    glue (glue xs ys) zs = glue xs (glue ys zs) := by
  induction xs with
  | nil => rfl
  | cons l xs ih =>
      cases xs with
      | cons l' xs =>
          rw [glue_cons_cons, glue_cons (glue_ne_nil (by simp)), ih,
            glue_cons_cons]
      | nil =>
          cases ys with
          | nil => rw [glue_nil_right, glue_nil_left]
          | cons m ys =>
              cases ys with
              | cons m' ys => rfl
              | nil =>
                  cases zs with
                  | nil => rfl
                  | cons n zs => simp [glue]

/-- What is put in front of the first line stays in front of it. -/
theorem modifyHead_glue {xs : List Line} (h : xs ≠ []) (ys : List Line)
    (c : Char) :
    (glue xs ys).modifyHead (c :: ·) = glue (xs.modifyHead (c :: ·)) ys := by
  cases xs with
  | nil => exact absurd rfl h
  | cons l xs =>
      cases xs with
      | cons l' xs => rfl
      | nil => cases ys <;> rfl

/-- A run of lines taken apart behind one of them, and put together
again with the line broken in two. -/
theorem glue_append_cons (above below : List Line) (left right : Line) :
    glue (above ++ [left]) (right :: below)
      = above ++ (left ++ right) :: below := by
  induction above with
  | nil => rfl
  | cons l above ih =>
      rw [List.cons_append, glue_cons (by simp), ih]
      rfl

/-- Lines above the first line stay above it. -/
theorem glue_append_left (above : List Line) (l : Line)
    (ys : List Line) :
    glue (above ++ [l]) ys = above ++ glue [l] ys := by
  induction above with
  | nil => rfl
  | cons m above ih =>
      rw [List.cons_append, glue_cons (by simp), ih, List.cons_append]

/-- Lines below the last line stay below it. -/
theorem glue_append_right (xs : List Line) {ys : List Line}
    (h : ys ≠ []) (below : List Line) :
    glue xs (ys ++ below) = glue xs ys ++ below := by
  induction xs with
  | nil => rfl
  | cons l xs ih =>
      cases xs with
      | cons l' xs =>
          rw [glue_cons_cons, ih, glue_cons_cons, List.cons_append]
      | nil =>
          cases ys with
          | nil => exact absurd rfl h
          | cons m ys => rfl

theorem length_glue {xs ys : List Line} (hx : xs ≠ []) (hy : ys ≠ []) :
    (glue xs ys).length + 1 = xs.length + ys.length := by
  induction xs with
  | nil => exact absurd rfl hx
  | cons l xs ih =>
      cases xs with
      | nil =>
          cases ys with
          | nil => exact absurd rfl hy
          | cons m ys =>
              rw [glue_single_cons]
              simp only [List.length_cons, List.length_nil]
              omega
      | cons l' xs =>
          have := ih (by simp)
          rw [glue_cons (by simp)]
          simp only [List.length_cons] at this ⊢
          omega

-- ============================================================ joining

theorem joinLines_cons_cons (l l' : Line) (rest : List Line) :
    joinLines (l :: l' :: rest)
      = l ++ '\n' :: joinLines (l' :: rest) := rfl

theorem joinLines_cons {rest : List Line} (h : rest ≠ []) (l : Line) :
    joinLines (l :: rest) = l ++ '\n' :: joinLines rest := by
  cases rest with
  | nil => exact absurd rfl h
  | cons l' rest => rfl

/-- Joining respects gluing. -/
theorem joinLines_glue (xs ys : List Line) :
    joinLines (glue xs ys) = joinLines xs ++ joinLines ys := by
  induction xs with
  | nil => rfl
  | cons l xs ih =>
      cases xs with
      | cons l' xs =>
          rw [glue_cons_cons, joinLines_cons (glue_ne_nil (by simp)),
            ih, joinLines_cons_cons, List.append_assoc,
            List.cons_append]
      | nil =>
          cases ys with
          | nil => simp [joinLines]
          | cons m ys =>
              cases ys with
              | nil => rfl
              | cons m' ys =>
                  rw [glue_single_cons, joinLines_cons_cons,
                    joinLines_cons_cons, List.append_assoc]
                  rfl

/-- Each line but the last adds itself and one line feed. -/
theorem length_joinLines_append (above : List Line) (last : Line) :
    (joinLines (above ++ [last])).length
      = endedLength above + last.length := by
  induction above with
  | nil => simp [joinLines, endedLength]
  | cons l above ih =>
      rw [List.cons_append, joinLines_cons (by simp), List.length_append,
        List.length_cons, ih, endedLength]
      omega

-- ========================================================== splitting

/-- Two texts meet in the middle of one terminator. -/
def Straddled (x y : List Char) : Prop :=
  x.getLast? = some '\r' ∧ y.head? = some '\n'

/-- A text that ends in no carriage return straddles with nothing. -/
theorem not_straddled_of_unbroken {x : Line} (h : Unbroken x)
    (y : List Char) : ¬Straddled x y := by
  rintro ⟨hx, -⟩
  exact (h _ (List.mem_of_getLast? hx)).1 rfl

/-- Nothing straddles with a text that starts with no line feed. -/
theorem not_straddled_unbroken {y : Line} (h : Unbroken y)
    (x : List Char) : ¬Straddled x y := by
  rintro ⟨-, hy⟩
  exact (h _ (List.mem_of_head? hy)).2 rfl

theorem Straddled.cons {x y : List Char} (c : Char)
    (h : Straddled x y) : Straddled (c :: x) y := by
  refine ⟨?_, h.2⟩
  rw [List.getLast?_cons, h.1]
  rfl

theorem pieces_append {x y : List Char} (h : ¬Straddled x y) :
    pieces (x ++ y) = pieces x ++ pieces y := by
  induction x using pieces.induct with
  | case1 => rfl
  | case2 rest ih =>
      have hr : ¬Straddled rest y := fun hs => h ((hs.cons _).cons _)
      simp only [List.cons_append, pieces, ih hr]
  | case3 rest hrest ih =>
      have hr : ¬Straddled rest y := fun hs => h (hs.cons _)
      have hnext : ∀ t, rest ++ y = '\n' :: t → False := by
        intro t ht
        cases rest with
        | nil => exact h ⟨rfl, by rw [← List.nil_append y, ht]; rfl⟩
        | cons c rest =>
            have hc : c = '\n' := (List.cons.inj ht).1
            exact hrest rest (by rw [hc])
      rw [List.cons_append, pieces.eq_3 _ hnext, pieces.eq_3 _ hrest,
        ih hr, List.cons_append]
  | case4 rest ih =>
      have hr : ¬Straddled rest y := fun hs => h (hs.cons _)
      simp only [List.cons_append, pieces, ih hr]
  | case5 c rest hcrlf hcr hlf ih =>
      have hr : ¬Straddled rest y := fun hs => h (hs.cons _)
      rw [List.cons_append, pieces.eq_5 c (rest ++ y)
          (fun _ e _ => hcr e) hcr hlf,
        pieces.eq_5 c rest hcrlf hcr hlf, ih hr, List.cons_append]

theorem linesOfPieces_append (ps qs : List Piece) :
    linesOfPieces (ps ++ qs)
      = glue (linesOfPieces ps) (linesOfPieces qs) := by
  induction ps with
  | nil => exact (glue_blank (linesOfPieces_ne_nil qs)).symm
  | cons p ps ih =>
      have hne := linesOfPieces_ne_nil ps
      cases p with
      | brk b =>
          rw [List.cons_append, linesOfPieces, ih, linesOfPieces,
            glue_cons hne]
      | char c =>
          rw [List.cons_append, linesOfPieces, ih, linesOfPieces,
            modifyHead_glue hne]

/-- Splitting respects gluing, unless the texts meet in the middle of a
terminator. -/
theorem lines_append {x y : List Char} (h : ¬Straddled x y) :
    lines (x ++ y) = glue (lines x) (lines y) := by
  unfold lines
  rw [pieces_append h, linesOfPieces_append]

theorem pieces_of_unbroken {l : Line} (h : Unbroken l) :
    pieces l = l.map .char := by
  induction l with
  | nil => rfl
  | cons c l ih =>
      obtain ⟨hcr, hlf⟩ := h c (by simp)
      rw [pieces.eq_5 c l (fun _ e _ => hcr e) hcr hlf,
        ih fun c hc => h c (by simp [hc]), List.map_cons]

/-- A text without terminators is one line. -/
theorem lines_of_unbroken {l : Line} (h : Unbroken l) :
    lines l = [l] := by
  rw [lines, pieces_of_unbroken h]
  clear h
  induction l with
  | nil => rfl
  | cons c l ih => rw [List.map_cons, linesOfPieces, ih]; rfl

/-- Splitting a text between two bits of unbroken line: they end up in
front of its first line and behind its last. -/
theorem lines_append_append {u v : Line} (hu : Unbroken u)
    (hv : Unbroken v) (t : List Char) :
    lines (u ++ t ++ v) = glue [u] (glue (lines t) [v]) := by
  rw [lines_append (not_straddled_unbroken hv _),
    lines_append (not_straddled_of_unbroken hu _),
    lines_of_unbroken hu, lines_of_unbroken hv, glue_assoc]

/-- A line feed opens a line. -/
theorem lines_cons_lf (t : List Char) : lines ('\n' :: t) = [] :: lines t := by
  rw [lines, pieces, linesOfPieces, lines]

/-- Splitting takes back joining. -/
theorem lines_joinLines {ls : List Line} (hne : ls ≠ [])
    (h : ∀ l ∈ ls, Unbroken l) : lines (joinLines ls) = ls := by
  induction ls with
  | nil => exact absurd rfl hne
  | cons l ls ih =>
      have hl : Unbroken l := h l (by simp)
      by_cases hls : ls = []
      · subst hls
        exact lines_of_unbroken hl
      · rw [joinLines_cons hls, lines_append (not_straddled_of_unbroken hl _),
          lines_of_unbroken hl, lines_cons_lf,
          ih hls fun m hm => h m (by simp [hm]), glue_single_cons,
          List.append_nil]

-- ================================================ cut at any character

variable {text : List Char}

/-- A carriage return that no line feed follows ends a line. -/
theorem lines_cons_cr (h : text.head? ≠ some '\n') :
    lines ('\r' :: text) = [] :: lines text := by
  have hnext : ∀ t, text = '\n' :: t → False := by
    intro t ht
    simp [ht] at h
  rw [lines, pieces.eq_3 _ hnext, linesOfPieces, lines]

/-- Any other character goes in front of the first line. -/
theorem lines_cons_char {c : Char} (hcr : c ≠ '\r') (hlf : c ≠ '\n')
    (text : List Char) : lines (c :: text) = glue [[c]] (lines text) := by
  have hone : Unbroken [c] := by
    simpa [Unbroken] using ⟨hcr, hlf⟩
  rw [← lines_of_unbroken hone]
  exact lines_append (not_straddled_of_unbroken hone text)

/-- The rest of a text goes on from the lines of what is in front of it,
even if it starts in the middle of a terminator. -/
theorem exists_lines_append (x y : List Char) :
    ∃ ys, ys ≠ [] ∧ lines (x ++ y) = glue (lines x) ys := by
  by_cases h : Straddled x y
  · obtain ⟨hx, hy⟩ := h
    obtain ⟨x', rfl⟩ := List.getLast?_eq_some_iff.1 hx
    obtain ⟨y', rfl⟩ := List.head?_eq_some_iff.1 hy
    have hfront : ∀ t, ¬Straddled x' ('\r' :: t) := by
      intro t hs
      simp [Straddled] at hs
    -- the half in front is a terminator of its own
    have hx' : lines (x' ++ ['\r']) = glue (lines x') [[], []] :=
      lines_append (hfront [])
    refine ⟨lines y', lines_ne_nil y', ?_⟩
    rw [List.append_assoc, List.singleton_append,
      lines_append (hfront ('\n' :: y')), hx', glue_assoc]
    congr 1
    rw [glue_cons_cons, glue_blank (lines_ne_nil y')]
    rfl
  · exact ⟨lines y, lines_ne_nil y, lines_append h⟩

/-- A text is put together again from its lines, if it is ended by line
feeds only. -/
theorem joinLines_lines (h : '\r' ∉ text) : joinLines (lines text) = text := by
  induction text with
  | nil => rfl
  | cons c text ih =>
      have hrest : '\r' ∉ text := fun hmem => h (by simp [hmem])
      by_cases hc : c = '\n'
      · rw [hc, lines_cons_lf, joinLines_cons (lines_ne_nil _), ih hrest]
        rfl
      · have hcr : c ≠ '\r' := fun heq => h (by simp [heq])
        rw [lines_cons_char hcr hc, joinLines_glue, ih hrest]
        rfl

/-- Joining puts in line feeds and nothing else. -/
theorem cr_not_mem_joinLines {ls : List Line}
    (h : ∀ l ∈ ls, Unbroken l) : '\r' ∉ joinLines ls := by
  induction ls with
  | nil => simp [joinLines]
  | cons l ls ih =>
      have hl : '\r' ∉ l := fun hmem => (h l (by simp) _ hmem).1 rfl
      by_cases hls : ls = []
      · rw [hls]
        exact hl
      · rw [joinLines_cons hls]
        simpa [hl] using ih fun m hm => h m (by simp [hm])

-- ========================================================== measuring

/-- A text has one line more than terminators. -/
theorem length_lines (t : List Char) :
    (lines t).length = breakCount t + 1 := by
  unfold lines breakCount
  induction pieces t with
  | nil => rfl
  | cons p ps ih => cases p <;> simp [linesOfPieces, ih]

theorem length_lines_append_append {u v : Line} (hu : Unbroken u)
    (hv : Unbroken v) (t : List Char) :
    (lines (u ++ t ++ v)).length = breakCount t + 1 := by
  have hne := lines_ne_nil t
  have hinner := length_glue hne (List.cons_ne_nil v [])
  have houter := length_glue (List.cons_ne_nil u [])
    (glue_ne_nil hne : glue (lines t) [v] ≠ [])
  rw [List.length_singleton] at hinner houter
  rw [lines_append_append hu hv, ← length_lines t]
  omega

theorem lastLengthFrom_eq (before : Nat) (ps : List Piece) :
    lastLengthFrom before ps
      = (if (linesOfPieces ps).length = 1 then before else 0)
        + ((linesOfPieces ps).getLastD []).length := by
  induction ps generalizing before with
  | nil => rfl
  | cons p ps ih =>
      obtain ⟨l, ls, hl⟩ := List.exists_cons_of_ne_nil
        (linesOfPieces_ne_nil ps)
      cases p with
      | brk b => simp [lastLengthFrom, linesOfPieces, ih, hl]
      | char c =>
          cases ls with
          | nil => simp [lastLengthFrom, linesOfPieces, ih, hl]; omega
          | cons m ls => simp [lastLengthFrom, linesOfPieces, ih, hl]

/-- The length behind the last terminator is that of the last line. -/
theorem lastLength_eq (t : List Char) :
    lastLength t = ((lines t).getLastD []).length := by
  rw [lastLength, lastLengthFrom_eq, lines]
  split <;> rw [Nat.zero_add]

/-- A text that counts no terminators holds none. -/
theorem unbroken_of_breakCount {t : List Char} (h : breakCount t = 0) :
    Unbroken t := by
  unfold breakCount at h
  induction t using pieces.induct with
  | case1 => exact fun _ hc => absurd hc List.not_mem_nil
  | case2 rest ih => simp [pieces] at h
  | case3 rest hrest ih =>
      rw [pieces.eq_3 _ hrest] at h
      simp at h
  | case4 rest ih => simp [pieces] at h
  | case5 c rest hcrlf hcr hlf ih =>
      rw [pieces.eq_5 c rest hcrlf hcr hlf] at h
      exact List.forall_mem_cons.2 ⟨⟨hcr, hlf⟩, ih (by simpa using h)⟩

end Relex.Text
