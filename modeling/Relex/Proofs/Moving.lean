/-
Positions that an edit moves keep their text.

A replacement leaves the text in front of its range and the text behind
it as they are. So a position on either side has the same place in the
new document if the same text stands on its far side: in front of it if
it lies up to the start, behind it if it lies from the end on. The delta
of the replacement knows neither document, and still moves every such
position to that place (`moves_with_text`). The end of the range itself
is on the moving side; an empty range has no other.

Only the text that the edit takes out has no place afterwards. A position
strictly inside it (`Range.Encloses`) stays and can come to lie behind one
that moves; any other stays in order with those behind it, and that holds
of positions beyond the document too (`Describes.move_mono`).
-/
import Relex.Proofs.Batch

namespace Relex

open Text

/-- The position lies strictly inside the range. -/
def Range.Encloses (r : Range) (p : Position) : Prop :=
  r.start < p ∧ p < r.stop

namespace Delta

variable {delta : Delta} {r : Range} {t : List Char} {c : Content}
  {p q : Position}

-- ====================================================== either side

/-- In front of the end of the replaced range nothing moves. -/
theorem Describes.move_of_lt (hd : delta.Describes r t)
    (h : p < r.stop) : delta.move p = p := by
  unfold move
  rw [hd.stop, if_pos h]

/-- A position from the end of the replaced range on moves to a place of
the new document, and what follows it follows it there. -/
theorem Describes.onward_move (hd : delta.Describes r t)
    (hstart : c.InBounds r.start) (hstop : c.InBounds r.stop)
    (h : r.start ≤ r.stop) (hp : c.InBounds p) (hle : r.stop ≤ p) :
    (c.splice r t).InBounds (delta.move p)
      ∧ (c.splice r t).onward (delta.move p) = c.onward p := by
  have hgap := Content.extent_between hstop hp hle
  have hmove := hd.move_reach h (natural_extent (c.between r.stop p))
  rw [hgap] at hmove
  rw [hmove]
  exact Content.splice_of_ge t hp hstart hstop hle

-- ============================================================ order

/-- The end of the replaced range moves to where the new text ends,
which is not in front of the start. -/
theorem Describes.start_le_move_stop (hd : delta.Describes r t)
    (h : r.start ≤ r.stop) : r.start ≤ delta.move r.stop := by
  have hmove := hd.move_reach h (e := ⟨0, 0⟩) ⟨Int.le_refl 0, Int.le_refl 0⟩
  rw [Position.reach_origin, Position.reach_origin] at hmove
  rw [hmove]
  exact Position.le_reach _ (natural_extent (lines t))

/-- From the end of the replaced range on, moving keeps the order. -/
theorem Describes.move_mono_behind (hd : delta.Describes r t)
    (hp : r.stop ≤ p) (hpq : p ≤ q) : delta.move p ≤ delta.move q := by
  have hq := Position.le_trans hp hpq
  unfold move
  rw [hd.stop, if_neg (Position.not_lt.2 hp), if_neg (Position.not_lt.2 hq)]
  have hline : delta.endLine = r.stop.line + delta.lineGrowth := by
    rw [endLine, hd.stop]
  rw [Position.le_def] at hp hpq
  by_cases hpline : p.line = r.stop.line
  · rw [if_pos hpline]
    by_cases hqline : q.line = r.stop.line
    · rw [if_pos hqline]
      exact .inr ⟨rfl, by dsimp only; omega⟩
    · rw [if_neg hqline]
      exact .inl (by dsimp only; omega)
  · rw [if_neg hpline, if_neg (by omega), Position.le_def]
    dsimp only
    omega

/-- Moving keeps a position in order with any behind it, unless the edit
takes out the text at the position. -/
theorem Describes.move_mono (hd : delta.Describes r t)
    (h : r.start ≤ r.stop) (hp : ¬r.Encloses p) (hpq : p ≤ q) :
    delta.move p ≤ delta.move q := by
  by_cases hbehind : r.stop ≤ p
  · exact hd.move_mono_behind hbehind hpq
  · have hlt : p < r.stop := by
      rw [Position.lt_def]
      rw [Position.le_def] at hbehind
      omega
    rw [hd.move_of_lt hlt]
    by_cases hfront : q < r.stop
    · rw [hd.move_of_lt hfront]
      exact hpq
    · -- `p` is up to the start, and `q` goes to behind the new text
      have hup : p ≤ r.start :=
        Position.not_lt.1 fun hgt => hp ⟨hgt, hlt⟩
      have hle := hd.move_mono_behind (Position.le_refl r.stop)
        (Position.not_lt.1 hfront)
      exact Position.le_trans hup
        (Position.le_trans (hd.start_le_move_stop h) hle)

-- ========================================================== theorem

/-- A text put in place of an ordered range of a document. A position
from the end of the range on moves to a position of the new document that
is followed by the same text; one up to the start, unless it is the end
too, stays where it is, a position of the new document with the same text
in front of it. A position that is not strictly inside the range stays in
order with those behind it. -/
theorem moves_with_text {d : Document}
    (hstart : d.content.InBounds r.start)
    (hstop : d.content.InBounds r.stop) (h : r.start ≤ r.stop)
    (t : List Char) :
    ∃ d' delta, d.apply [⟨r, t⟩] = .ok (d', [⟨r, t⟩])
      ∧ ofReplacement r t = .ok delta
      ∧ (∀ p, d.content.InBounds p → r.stop ≤ p →
        d'.content.InBounds (delta.move p)
          ∧ d'.content.text.drop (d'.content.offsetOf (delta.move p))
            = d.content.text.drop (d.content.offsetOf p))
      ∧ (∀ p, d.content.InBounds p → p ≤ r.start → p < r.stop →
        delta.move p = p
          ∧ d'.content.InBounds p
          ∧ d'.content.text.take (d'.content.offsetOf p)
            = d.content.text.take (d.content.offsetOf p))
      ∧ ∀ p q, ¬r.Encloses p → p ≤ q → delta.move p ≤ delta.move q := by
  have hvalid : r.IsValid :=
    ⟨h, hstart.line_nonneg, hstart.column_nonneg, hstop.column_nonneg⟩
  obtain ⟨delta, hdelta, hd⟩ := exists_ofReplacement hvalid t
  let change : Change := ⟨r, t⟩
  have happly := d.apply_singleton (show change.range.IsValid from hvalid)
  rw [Content.clampRange_of_inBounds hstart hstop h] at happly
  refine ⟨_, delta, happly, hdelta, ?behind, ?front,
    fun p q => hd.move_mono h⟩
  case behind =>
    intro p hp hle
    obtain ⟨hin, honward⟩ := hd.onward_move hstart hstop h hp hle
    refine ⟨hin, ?_⟩
    rw [Content.drop_offsetOf hin, Content.drop_offsetOf hp]
    exact congrArg joinLines honward
  case front =>
    intro p hp hle hlt
    obtain ⟨hin, hupTo⟩ := Content.splice_of_le t hp hstart hle
    refine ⟨hd.move_of_lt hlt, hin, ?_⟩
    rw [Content.take_offsetOf hin, Content.take_offsetOf hp]
    exact congrArg joinLines hupTo

/-- Three lines fall back onto one: what stood behind the range on the
last of them stands behind the new text on the first. -/
theorem moves_with_text_joined :
    ∃ d' delta,
      (Document.new "untitled:document" "plaintext"
          "ab\ncd\nef".toList).apply [⟨⟨⟨0, 1⟩, ⟨2, 1⟩⟩, "xyz".toList⟩]
        = .ok (d', [⟨⟨⟨0, 1⟩, ⟨2, 1⟩⟩, "xyz".toList⟩])
      ∧ ofReplacement ⟨⟨0, 1⟩, ⟨2, 1⟩⟩ "xyz".toList = .ok delta
      ∧ delta.move ⟨2, 1⟩ = ⟨0, 4⟩
      ∧ d'.content.InBounds ⟨0, 4⟩
      ∧ d'.content.text.drop (d'.content.offsetOf ⟨0, 4⟩) = "f".toList
      ∧ delta.move ⟨0, 1⟩ = ⟨0, 1⟩
      ∧ d'.content.text.take (d'.content.offsetOf ⟨0, 1⟩) = "a".toList
      ∧ delta.move ⟨0, 1⟩ ≤ delta.move ⟨2, 2⟩ := by
  let d := Document.new "untitled:document" "plaintext"
    "ab\ncd\nef".toList
  have hstart : d.content.InBounds ⟨0, 1⟩ :=
    ⟨by decide, by decide, by decide, by decide⟩
  have hstop : d.content.InBounds ⟨2, 1⟩ :=
    ⟨by decide, by decide, by decide, by decide⟩
  obtain ⟨d', delta, happly, hdelta, hbehind, hfront, hmono⟩ :=
    moves_with_text (r := ⟨⟨0, 1⟩, ⟨2, 1⟩⟩) hstart hstop (by decide)
      "xyz".toList
  have hmove : delta.move ⟨2, 1⟩ = ⟨0, 4⟩ := by
    cases hdelta
    decide
  obtain ⟨hin, hdrop⟩ := hbehind ⟨2, 1⟩ hstop (by decide)
  obtain ⟨hstay, -, htake⟩ := hfront ⟨0, 1⟩ hstart (by decide) (by decide)
  rw [hmove] at hin hdrop
  refine ⟨d', delta, happly, hdelta, hmove, hin, hdrop.trans (by decide),
    hstay, htake.trans (by decide), hmono _ _ ?_ (by decide)⟩
  exact fun hinside => absurd hinside.1 (by decide)

end Delta

end Relex
