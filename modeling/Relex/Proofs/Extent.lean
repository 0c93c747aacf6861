/-
Extents: how far a run of lines reaches.

The extent of a run is the position at which it ends when it starts at
the origin. A run that starts at `p` ends at `p.reach e`, where `e` is
its extent: within one line columns add up, and from the first line
break on the column is the run's own. So `reach` is to positions what
`glue` is to runs of lines (`extent_glue`), and the order of positions
is the order in which runs extend each other (`le_reach`,
`exists_reach`).

In these terms the arithmetic of deltas is short. A replacement of the
range from `p` to `q` by a text of extent `e` takes up the range from
`p` to `p.reach e` (`replacement_eq`), and the position that lies `f`
past `q` goes to the one that lies `f` past `p.reach e` (`move_reach`):
the six cases of the column rules are two.
-/
import Relex.Delta
import Relex.Proofs.Text.Lines

namespace Relex

namespace Position

-- ============================================================== order

theorem le_refl (p : Position) : p ≤ p := by
  rw [le_def]
  omega

theorem le_trans {p q r : Position} (h : p ≤ q) (h' : q ≤ r) : p ≤ r := by
  rw [le_def] at *
  omega

theorem not_lt {p q : Position} : ¬p < q ↔ q ≤ p := by
  rw [lt_def, le_def]
  omega

theorem le_of_lt {p q : Position} (h : p < q) : p ≤ q := by
  rw [lt_def] at h
  rw [le_def]
  omega

theorem line_le {p q : Position} (h : p ≤ q) : p.line ≤ q.line := by
  rw [le_def] at h
  omega

theorem ext' {p q : Position} (hl : p.line = q.line)
    (hc : p.column = q.column) : p = q := by
  cases p
  cases q
  rw [mk.injEq]
  exact ⟨hl, hc⟩

theorem eq_iff {p q : Position} :
    p = q ↔ p.line = q.line ∧ p.column = q.column :=
  ⟨fun h => h ▸ ⟨rfl, rfl⟩, fun h => ext' h.1 h.2⟩

-- =========================================================== reaching

/-- The position at which a stretch of the given extent ends when it
starts at `p`. -/
def reach (p e : Position) : Position :=
  if e.line = 0 then ⟨p.line, p.column + e.column⟩
  else ⟨p.line + e.line, e.column⟩

theorem reach_within {e : Position} (h : e.line = 0) (p : Position) :
    p.reach e = ⟨p.line, p.column + e.column⟩ := if_pos h

theorem reach_beyond {e : Position} (h : ¬e.line = 0) (p : Position) :
    p.reach e = ⟨p.line + e.line, e.column⟩ := if_neg h

theorem reach_line (p e : Position) :
    (p.reach e).line = p.line + e.line := by
  by_cases h : e.line = 0
  · rw [reach_within h, h, Int.add_zero]
  · rw [reach_beyond h]

/-- A stretch of no extent ends where it starts. -/
theorem reach_origin (p : Position) : p.reach ⟨0, 0⟩ = p := by
  simp [reach]

/-- A stretch from the origin ends at its own extent. -/
theorem origin_reach (e : Position) : reach ⟨0, 0⟩ e = e := by
  by_cases h : e.line = 0
  · rw [reach_within h]
    exact ext' h.symm (Int.zero_add _)
  · rw [reach_beyond h]
    exact ext' (Int.zero_add _) rfl

/-- Neither coordinate is negative. -/
def Natural (p : Position) : Prop := 0 ≤ p.line ∧ 0 ≤ p.column

theorem origin_le {p : Position} (h : p.Natural) : ⟨0, 0⟩ ≤ p := by
  obtain ⟨hl, hc⟩ := h
  rw [le_def]
  show 0 < p.line ∨ (0 = p.line ∧ 0 ≤ p.column)
  omega

theorem Natural.reach {p e : Position} (hp : p.Natural)
    (he : e.Natural) : (p.reach e).Natural := by
  obtain ⟨hl, hc⟩ := hp
  obtain ⟨hl', hc'⟩ := he
  by_cases h : e.line = 0
  · rw [reach_within h]
    exact ⟨hl, Int.add_nonneg hc hc'⟩
  · rw [reach_beyond h]
    exact ⟨Int.add_nonneg hl hl', hc'⟩

theorem reach_assoc (p : Position) {e f : Position} (he : 0 ≤ e.line)
    (hf : 0 ≤ f.line) : (p.reach e).reach f = p.reach (e.reach f) := by
  by_cases h : f.line = 0
  · rw [reach_within h, reach_within h]
    by_cases h' : e.line = 0
    · rw [reach_within h', reach_within (by exact h')]
      exact ext' rfl (Int.add_assoc _ _ _)
    · rw [reach_beyond h', reach_beyond (by exact h')]
  · have hef : ¬(e.reach f).line = 0 := by
      rw [reach_line]
      omega
    rw [reach_beyond h, reach_beyond hef, reach_line, reach_beyond h]
    exact ext' (Int.add_assoc _ _ _) rfl

/-- A stretch ends no earlier than it starts. -/
theorem le_reach (p : Position) {e : Position} (he : e.Natural) :
    p ≤ p.reach e := by
  obtain ⟨hl, hc⟩ := he
  by_cases h : e.line = 0
  · rw [reach_within h]
    exact .inr ⟨rfl, Int.le_add_of_nonneg_right hc⟩
  · rw [reach_beyond h]
    exact .inl (Int.lt_add_of_pos_right _ (by omega))

/-- What lies at or behind `p` lies a stretch behind it. -/
theorem exists_reach {p q : Position} (h : p ≤ q) (hq : 0 ≤ q.column) :
    ∃ e : Position, e.Natural ∧ q = p.reach e := by
  rcases h with hl | ⟨hl, hc⟩
  · have he : ¬(⟨q.line - p.line, q.column⟩ : Position).line = 0 := by
      show ¬q.line - p.line = 0
      omega
    refine ⟨⟨q.line - p.line, q.column⟩, ⟨Int.sub_nonneg_of_le ?_, hq⟩, ?_⟩
    · exact Int.le_of_lt hl
    · rw [reach_beyond he]
      exact ext' (by show q.line = p.line + (q.line - p.line); omega) rfl
  · refine ⟨⟨0, q.column - p.column⟩,
      ⟨Int.le_refl 0, Int.sub_nonneg_of_le hc⟩, ?_⟩
    rw [reach_within rfl]
    exact ext' hl.symm
      (by show q.column = p.column + (q.column - p.column); omega)

end Position

namespace Text

-- ============================================================ extents

/-- Where a run of lines ends that starts at the origin. -/
def extent : List Line → Position
  | [] => ⟨0, 0⟩
  | [l] => ⟨0, l.length⟩
  | _ :: l :: rest =>
    ⟨(extent (l :: rest)).line + 1, (extent (l :: rest)).column⟩

theorem extent_cons_cons (l m : Line) (rest : List Line) :
    extent (l :: m :: rest)
      = ⟨(extent (m :: rest)).line + 1, (extent (m :: rest)).column⟩ := rfl

theorem extent_cons {rest : List Line} (h : rest ≠ []) (l : Line) :
    extent (l :: rest)
      = ⟨(extent rest).line + 1, (extent rest).column⟩ := by
  cases rest with
  | nil => exact absurd rfl h
  | cons m rest => rfl

theorem natural_extent (ls : List Line) : (extent ls).Natural := by
  induction ls with
  | nil => exact ⟨Int.le_refl 0, Int.le_refl 0⟩
  | cons l ls ih =>
      obtain ⟨hl, hc⟩ := ih
      cases ls with
      | nil => exact ⟨Int.le_refl 0, Int.natCast_nonneg _⟩
      | cons m ls =>
          rw [extent_cons (by simp)]
          exact ⟨Int.le_add_one hl, hc⟩

/-- The extent is read off the last line and the lines above it. -/
theorem extent_append_single (above : List Line) (last : Line) :
    extent (above ++ [last]) = ⟨above.length, last.length⟩ := by
  induction above with
  | nil => rfl
  | cons l above ih =>
      rw [List.cons_append, extent_cons (by simp), ih]
      rfl

/-- Runs of lines that are put together reach as far as both after one
another. -/
theorem extent_glue (xs ys : List Line) :
    extent (glue xs ys) = (extent xs).reach (extent ys) := by
  induction xs with
  | nil => exact (Position.origin_reach _).symm
  | cons l xs ih =>
      cases xs with
      | cons l' xs =>
          rw [glue_cons_cons, extent_cons (glue_ne_nil (by simp)), ih,
            extent_cons_cons]
          by_cases h : (extent ys).line = 0
          · rw [Position.reach_within h, Position.reach_within h]
          · rw [Position.reach_beyond h, Position.reach_beyond h]
            exact Position.ext' (Int.add_right_comm _ _ _) rfl
      | nil =>
          cases ys with
          | nil => rfl
          | cons m ys =>
              cases ys with
              | nil =>
                  rw [Position.reach_within rfl]
                  exact Position.ext' rfl (by simp [glue, extent])
              | cons m' ys =>
                  obtain ⟨hl, -⟩ := natural_extent (m' :: ys)
                  have hne : ¬(extent (m :: m' :: ys)).line = 0 := by
                    rw [extent_cons_cons]
                    show ¬(extent (m' :: ys)).line + 1 = 0
                    omega
                  rw [Position.reach_beyond hne, glue_single_cons,
                    extent_cons_cons, extent_cons_cons]
                  exact Position.ext' (Int.zero_add _).symm rfl

/-- The extent of a text's lines, in its own measures. -/
theorem extent_lines (t : List Char) :
    extent (lines t) = ⟨breakCount t, lastLength t⟩ := by
  have hne := lines_ne_nil t
  have hlen := length_lines t
  rw [lastLength_eq]
  generalize lines t = ls at hne hlen
  obtain ⟨above, last, rfl⟩ :=
    (List.eq_nil_or_concat ls).resolve_left hne
  rw [List.concat_eq_append] at hlen ⊢
  rw [extent_append_single]
  refine Position.ext' ?_ (by simp)
  rw [List.length_append] at hlen
  exact congrArg Int.ofNat (Nat.succ.inj hlen)

end Text

-- ============================================================= deltas

namespace Delta

open Text

/-- The delta is that of replacing the range by the text. -/
structure Describes (d : Delta) (old : Range) (text : List Char) :
    Prop where
  start : d.start = old.start
  stop : d.stop = old.stop
  lineGrowth : d.lineGrowth
    = breakCount text - (old.stop.line - old.start.line)
  endShift : d.endShift = lastLength text
    - if old.start.line = old.stop.line
      then old.stop.column - old.start.column else old.stop.column

/-- Every replacement of a range that is not malformed has a delta. -/
theorem exists_ofReplacement {old : Range} (h : old.IsValid)
    (text : List Char) :
    ∃ d, ofReplacement old text = .ok d ∧ d.Describes old text := by
  unfold ofReplacement
  rw [if_pos h]
  refine ⟨_, rfl, rfl, rfl, rfl, ?_⟩
  simp only [Range.isOnOneLine, decide_eq_true_eq]

variable {d : Delta} {old : Range} {text : List Char}

/-- The line on which a replacement ends. -/
theorem Describes.endLine_eq (hd : d.Describes old text) :
    d.endLine = old.start.line + breakCount text := by
  unfold endLine
  rw [hd.stop, hd.lineGrowth]
  omega

/-- The span of a replacement: from the start of the replaced range as
far as the text reaches. -/
theorem Describes.replacement_eq (hd : d.Describes old text)
    (h : old.start ≤ old.stop) :
    d.replacement
      = ⟨old.start, old.start.reach (extent (lines text))⟩ := by
  have hend := hd.endLine_eq
  have hl := Position.line_le h
  have hcol : d.endColumn
      = if (breakCount text : Int) = 0
        then old.start.column + lastLength text else lastLength text := by
    unfold endColumn replacedWidth
    rw [hd.start, hd.stop, hend, hd.lineGrowth, hd.endShift]
    repeat' split
    all_goals omega
  unfold replacement
  rw [hd.start, hend, hcol, extent_lines]
  by_cases hb : (breakCount text : Int) = 0
  · rw [Position.reach_within (by exact hb), if_pos hb, hb, Int.add_zero]
  · rw [Position.reach_beyond (by exact hb), if_neg hb]

/-- What lies behind the replaced range keeps its distance from its
end. -/
theorem Describes.move_reach (hd : d.Describes old text)
    (h : old.start ≤ old.stop) {e : Position} (he : e.Natural) :
    d.move (old.stop.reach e)
      = (old.start.reach (extent (lines text))).reach e := by
  have hnew : (⟨d.endLine, d.endColumn⟩ : Position)
      = old.start.reach (extent (lines text)) :=
    congrArg Range.stop (hd.replacement_eq h)
  have hlt : ¬old.stop.reach e < old.stop :=
    Position.not_lt.2 (Position.le_reach _ he)
  obtain ⟨hl, -⟩ := he
  unfold move
  rw [hd.stop, if_neg hlt, ← hnew, Position.reach_line]
  by_cases h0 : e.line = 0
  · rw [if_pos (by omega), Position.reach_within h0,
      Position.reach_within h0]
    refine Position.ext' rfl ?_
    show d.endColumn + (old.stop.column + e.column - old.stop.column)
      = d.endColumn + e.column
    omega
  · rw [if_neg (by omega), Position.reach_beyond h0,
      Position.reach_beyond h0]
    refine Position.ext' ?_ rfl
    show old.stop.line + e.line + d.lineGrowth = d.endLine + e.line
    unfold endLine
    rw [hd.stop]
    omega

end Delta

end Relex
