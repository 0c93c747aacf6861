/-
Ranges that an edit moves keep their text.

A range is moved end by end, and its ends follow different rules where
they meet the end of the replaced range: there an end moves and a start
stays. For a range that spares the replaced one, both rules agree on
which side each end is on, with one exception:

- in front of the replaced range both ends stay, and the text up to them
  stays (`Describes.spans_front`);
- behind it both move, and the text onward from them moves along
  (`Describes.spans_behind`);
- around it the start stays and the end moves, so the new text is taken
  in where the old one was (`Describes.spans_around`). That includes the
  ranges that touch an insertion, on either side.

The exception is a range that starts just where a replaced range with
text in it ends. Its start stays where it was, although the text there
has moved; what becomes of the range depends on how far the new text
reaches, and it can even be turned over.
-/
import Mathlib
import Relex.Proofs.Moving

namespace Relex

open Text

namespace Range

/-- The range lies up to the start of the other, or from its end on, or
it has it inside. -/
def Spares (s r : Range) : Prop :=
  s.stop ≤ r.start ∨ r.stop ≤ s.start
    ∨ (s.start ≤ r.start ∧ r.stop ≤ s.stop)

/-- The range starts where the other ends, and the other is not empty. -/
def Adjoins (s r : Range) : Prop := r.start < r.stop ∧ s.start = r.stop

instance (s r : Range) : Decidable (s.Spares r) :=
  inferInstanceAs (Decidable (_ ∨ _ ∨ _ ∧ _))

instance (s r : Range) : Decidable (s.Adjoins r) :=
  inferInstanceAs (Decidable (_ ∧ _))

/-- A range that spares another lies in front of it, behind it or around
it, or adjoins it. -/
theorem Spares.cases {s r : Range} (h : s.Spares r)
    (hr : r.start ≤ r.stop) (hs : s.start ≤ s.stop) :
    (s.stop ≤ r.start ∧ s.stop < r.stop) ∨ r.stop < s.start
      ∨ (s.start ≤ r.start ∧ r.stop ≤ s.stop) ∨ s.Adjoins r := by
  simp only [Spares, Adjoins, Position.le_def, Position.lt_def,
    Position.eq_iff] at *
  omega

end Range

-- ===================================================== ranges and text

namespace Content

/-- The range is one of the content: its ends lie in it, in order. -/
structure Spans (c : Content) (r : Range) : Prop where
  start : c.InBounds r.start
  stop : c.InBounds r.stop
  ordered : r.start ≤ r.stop

variable {c : Content} {r : Range} {p : Position}

/-- The text up to a range's end: up to its start, and what is in it. -/
theorem Spans.upTo_stop (h : c.Spans r) :
    joinLines (c.upTo r.stop)
      = joinLines (c.upTo r.start) ++ c.textIn r := by
  rw [← glue_upTo_between h.start h.stop h.ordered, joinLines_glue,
    textIn_eq h.start h.stop h.ordered]

/-- The text onward from a range's start: what is in it, and onward from
its end. -/
theorem Spans.onward_start (h : c.Spans r) :
    joinLines (c.onward r.start)
      = c.textIn r ++ joinLines (c.onward r.stop) := by
  rw [← glue_between_onward h.start h.stop h.ordered, joinLines_glue,
    textIn_eq h.start h.stop h.ordered]

theorem Spans.text_eq (h : c.Spans r) :
    c.text = joinLines (c.upTo r.start)
      ++ (c.textIn r ++ joinLines (c.onward r.stop)) := by
  rw [Content.text_eq h.start, h.onward_start]

/-- The text in a range is what is left between the text up to it and the
text onward from it. -/
theorem Spans.textIn_eq (h : c.Spans r) {t : List Char}
    (htext : c.text = joinLines (c.upTo r.start)
      ++ (t ++ joinLines (c.onward r.stop))) : c.textIn r = t := by
  rw [h.text_eq] at htext
  exact List.append_cancel_right (List.append_cancel_left htext)

/-- The text in a range around another: in front of that, in it, and
behind it. -/
theorem Spans.textIn_around {s : Range} (hs : c.Spans s) (hr : c.Spans r)
    (hstart : s.start ≤ r.start) (hstop : r.stop ≤ s.stop) :
    c.textIn s = c.textIn ⟨s.start, r.start⟩
      ++ (c.textIn r ++ c.textIn ⟨r.stop, s.stop⟩) := by
  have hbefore : c.Spans ⟨s.start, r.start⟩ := ⟨hs.start, hr.start, hstart⟩
  have hafter : c.Spans ⟨r.stop, s.stop⟩ := ⟨hr.stop, hs.stop, hstop⟩
  refine hs.textIn_eq ?_
  rw [hr.text_eq, hbefore.upTo_stop, hafter.onward_start]
  simp only [List.append_assoc]

theorem textIn_empty (h : c.InBounds p) : c.textIn ⟨p, p⟩ = [] := by
  have hself : c.Spans ⟨p, p⟩ := ⟨h, h, Position.le_refl p⟩
  exact List.self_eq_append_right.1 hself.upTo_stop

theorem text_splice (c : Content) (r : Range) (t : List Char) :
    (c.splice r t).text = joinLines (c.upTo r.start)
      ++ (joinLines (Text.lines t) ++ joinLines (c.onward r.stop)) := by
  unfold text
  rw [lines_splice, joinLines_glue, joinLines_glue]

end Content

-- ======================================================= either side

namespace Delta

variable {delta : Delta} {r s : Range} {t : List Char} {c : Content}
  {p : Position}

theorem Describes.moveStart_of_le (hd : delta.Describes r t)
    (h : p ≤ r.stop) : delta.moveStart p = p := by
  unfold moveStart
  rw [hd.stop, if_pos h]

theorem Describes.moveStart_of_lt (hd : delta.Describes r t)
    (h : r.stop < p) : delta.moveStart p = delta.move p := by
  unfold moveStart
  rw [hd.stop, if_neg fun hle => Position.not_lt.2 hle h]

/-- A range in front of the replaced one stays, and keeps its text. -/
theorem Describes.spans_front (hd : delta.Describes r t)
    (hr : c.Spans r) (hs : c.Spans s) (hle : s.stop ≤ r.start)
    (hlt : s.stop < r.stop) :
    (c.splice r t).Spans (delta.moveRange s)
      ∧ (c.splice r t).textIn (delta.moveRange s) = c.textIn s := by
  have hstay : delta.moveRange s = s := by
    unfold moveRange moveStop
    rw [hd.move_of_lt hlt, hd.moveStart_of_le (Position.le_trans
      hs.ordered (Position.le_of_lt hlt))]
  obtain ⟨hstop, hupTo⟩ := Content.splice_of_le t hs.stop hr.start hle
  obtain ⟨hstart, hupTo'⟩ := Content.splice_of_le t hs.start hr.start
    (Position.le_trans hs.ordered hle)
  have hspans : (c.splice r t).Spans s := ⟨hstart, hstop, hs.ordered⟩
  have htext := hspans.upTo_stop
  rw [hupTo, hupTo', hs.upTo_stop] at htext
  rw [hstay]
  exact ⟨hspans, (List.append_cancel_left htext).symm⟩

/-- A range behind the replaced one moves along with its text. -/
theorem Describes.spans_behind (hd : delta.Describes r t)
    (hr : c.Spans r) (hs : c.Spans s) (hlt : r.stop < s.start) :
    (c.splice r t).Spans (delta.moveRange s)
      ∧ (c.splice r t).textIn (delta.moveRange s) = c.textIn s := by
  have hle := Position.le_of_lt hlt
  have hmove : delta.moveRange s
      = ⟨delta.move s.start, delta.move s.stop⟩ := by
    unfold moveRange moveStop
    rw [hd.moveStart_of_lt hlt]
  obtain ⟨hstart, honward⟩ :=
    hd.onward_move hr.start hr.stop hr.ordered hs.start hle
  obtain ⟨hstop, honward'⟩ := hd.onward_move hr.start hr.stop hr.ordered
    hs.stop (Position.le_trans hle hs.ordered)
  have hspans : (c.splice r t).Spans
      ⟨delta.move s.start, delta.move s.stop⟩ :=
    ⟨hstart, hstop, hd.move_mono_behind hle hs.ordered⟩
  have htext := hspans.onward_start
  dsimp only at htext
  rw [honward, honward', hs.onward_start] at htext
  rw [hmove]
  exact ⟨hspans, (List.append_cancel_right htext).symm⟩

/-- A range around the replaced one takes in the new text for the old. -/
theorem Describes.spans_around (hd : delta.Describes r t)
    (hr : c.Spans r) (hs : c.Spans s) (hstart : s.start ≤ r.start)
    (hstop : r.stop ≤ s.stop) :
    (c.splice r t).Spans (delta.moveRange s)
      ∧ (c.splice r t).textIn (delta.moveRange s)
        = c.textIn ⟨s.start, r.start⟩
          ++ (joinLines (lines t) ++ c.textIn ⟨r.stop, s.stop⟩) := by
  have hmove : delta.moveRange s = ⟨s.start, delta.move s.stop⟩ := by
    unfold moveRange moveStop
    rw [hd.moveStart_of_le (Position.le_trans hstart hr.ordered)]
  obtain ⟨hin, hupTo⟩ := Content.splice_of_le t hs.start hr.start hstart
  obtain ⟨hin', honward⟩ :=
    hd.onward_move hr.start hr.stop hr.ordered hs.stop hstop
  have hordered : s.start ≤ delta.move s.stop :=
    Position.le_trans hstart (Position.le_trans
      (hd.start_le_move_stop hr.ordered)
      (hd.move_mono_behind (Position.le_refl _) hstop))
  have hspans : (c.splice r t).Spans ⟨s.start, delta.move s.stop⟩ :=
    ⟨hin, hin', hordered⟩
  have hbefore : c.Spans ⟨s.start, r.start⟩ := ⟨hs.start, hr.start, hstart⟩
  have hafter : c.Spans ⟨r.stop, s.stop⟩ := ⟨hr.stop, hs.stop, hstop⟩
  rw [hmove]
  refine ⟨hspans, hspans.textIn_eq ?_⟩
  dsimp only
  rw [c.text_splice, hupTo, honward, hbefore.upTo_stop,
    hafter.onward_start]
  simp only [List.append_assoc]

-- ========================================================== theorem

/-- A text put in place of an ordered range of a document, and another
such range that lies up to the start of it, or from its end on, or around
it. Unless it adjoins the replaced range, the other range is moved to an
ordered range of the new document. In front of the replaced range and
behind it, it has the text there that it had; around it, its text with
the new text in place of the replaced one, the line breaks of it read as
line feeds. In particular it grows by an insertion that touches it, at
whichever end. If it adjoins the replaced range, its start stays and only
its end is moved with the text. -/
theorem ranges_move_with_text {d : Document} (hr : d.content.Spans r)
    (t : List Char) :
    ∃ d' delta, d.apply [⟨r, t⟩] = .ok (d', [⟨r, t⟩])
      ∧ ofReplacement r t = .ok delta
      ∧ ∀ s, d.content.Spans s → s.Spares r →
        (¬s.Adjoins r → d'.content.Spans (delta.moveRange s))
        ∧ (s.stop ≤ r.start ∧ s.stop < r.stop ∨ r.stop < s.start →
          d'.content.textIn (delta.moveRange s) = d.content.textIn s)
        ∧ (s.start ≤ r.start ∧ r.stop ≤ s.stop →
          d.content.textIn s = d.content.textIn ⟨s.start, r.start⟩
              ++ (d.content.textIn r ++ d.content.textIn ⟨r.stop, s.stop⟩)
            ∧ d'.content.textIn (delta.moveRange s)
              = d.content.textIn ⟨s.start, r.start⟩
                ++ (joinLines (lines t)
                  ++ d.content.textIn ⟨r.stop, s.stop⟩))
        ∧ (r.start = r.stop → s.stop = r.start →
          d'.content.textIn (delta.moveRange s)
            = d.content.textIn s ++ joinLines (lines t))
        ∧ (r.start = r.stop → s.start = r.start →
          d'.content.textIn (delta.moveRange s)
            = joinLines (lines t) ++ d.content.textIn s)
        ∧ (s.Adjoins r →
          delta.moveRange s = ⟨s.start, delta.move s.stop⟩
            ∧ d'.content.InBounds (delta.move s.stop)) := by
  have hvalid : r.IsValid := ⟨hr.ordered, hr.start.line_nonneg,
    hr.start.column_nonneg, hr.stop.column_nonneg⟩
  obtain ⟨delta, hdelta, hd⟩ := exists_ofReplacement hvalid t
  let change : Change := ⟨r, t⟩
  have happly := d.apply_singleton (show change.range.IsValid from hvalid)
  rw [Content.clampRange_of_inBounds hr.start hr.stop hr.ordered]
    at happly
  refine ⟨_, delta, happly, hdelta, fun s hs hspares => ⟨?spans, ?apart,
    ?around, ?grownStop, ?grownStart, ?adjoins⟩⟩
  case spans =>
    intro hadjoins
    rcases hspares.cases hr.ordered hs.ordered with
      hfront | hbehind | haround | h
    · exact (hd.spans_front hr hs hfront.1 hfront.2).1
    · exact (hd.spans_behind hr hs hbehind).1
    · exact (hd.spans_around hr hs haround.1 haround.2).1
    · exact absurd h hadjoins
  case apart =>
    rintro (hfront | hbehind)
    · exact (hd.spans_front hr hs hfront.1 hfront.2).2
    · exact (hd.spans_behind hr hs hbehind).2
  case around =>
    rintro ⟨hstart, hstop⟩
    exact ⟨hs.textIn_around hr hstart hstop,
      (hd.spans_around hr hs hstart hstop).2⟩
  -- A range that an insertion touches has it inside, at one end.
  case grownStop =>
    intro hempty htouch
    have hstart : s.start ≤ r.start := htouch ▸ hs.ordered
    have hstop : r.stop ≤ s.stop := by
      rw [htouch, hempty]
      exact Position.le_refl _
    rw [(hd.spans_around hr hs hstart hstop).2, ← hempty, htouch,
      Content.textIn_empty hr.start, List.append_nil, ← htouch]
  case grownStart =>
    intro hempty htouch
    have hstart : s.start ≤ r.start := by
      rw [htouch]
      exact Position.le_refl _
    have hstop : r.stop ≤ s.stop := by
      rw [← hempty, ← htouch]
      exact hs.ordered
    rw [(hd.spans_around hr hs hstart hstop).2, ← hempty, htouch,
      Content.textIn_empty hr.start, List.nil_append, ← htouch]
  case adjoins =>
    rintro ⟨-, hstart⟩
    have hstop : r.stop ≤ s.stop := hstart ▸ hs.ordered
    refine ⟨?_, (hd.onward_move hr.start hr.stop hr.ordered hs.stop
      hstop).1⟩
    unfold moveRange moveStop
    rw [hd.moveStart_of_le (hstart ▸ Position.le_refl _)]

/-- Two lines inserted where a range ends: the range grows by them. -/
theorem ranges_move_with_text_inserted :
    ∃ d' delta,
      (Document.new "untitled:document" "plaintext" "abcd".toList).apply
          [⟨⟨⟨0, 2⟩, ⟨0, 2⟩⟩, "x\r\ny".toList⟩]
        = .ok (d', [⟨⟨⟨0, 2⟩, ⟨0, 2⟩⟩, "x\r\ny".toList⟩])
      ∧ ofReplacement ⟨⟨0, 2⟩, ⟨0, 2⟩⟩ "x\r\ny".toList = .ok delta
      ∧ delta.moveRange ⟨⟨0, 1⟩, ⟨0, 2⟩⟩ = ⟨⟨0, 1⟩, ⟨1, 1⟩⟩
      ∧ d'.content.Spans ⟨⟨0, 1⟩, ⟨1, 1⟩⟩
      ∧ d'.content.textIn ⟨⟨0, 1⟩, ⟨1, 1⟩⟩ = "bx\ny".toList := by
  let d := Document.new "untitled:document" "plaintext" "abcd".toList
  have hone : d.content.InBounds ⟨0, 1⟩ :=
    ⟨by decide, by decide, by decide, by decide⟩
  have htwo : d.content.InBounds ⟨0, 2⟩ :=
    ⟨by decide, by decide, by decide, by decide⟩
  obtain ⟨d', delta, happly, hdelta, hmoves⟩ := ranges_move_with_text
    (r := ⟨⟨0, 2⟩, ⟨0, 2⟩⟩) ⟨htwo, htwo, by decide⟩ "x\r\ny".toList
  have hmove : delta.moveRange ⟨⟨0, 1⟩, ⟨0, 2⟩⟩ = ⟨⟨0, 1⟩, ⟨1, 1⟩⟩ := by
    cases hdelta
    decide
  obtain ⟨hspans, -, -, hgrown, -⟩ := hmoves ⟨⟨0, 1⟩, ⟨0, 2⟩⟩
    ⟨hone, htwo, by decide⟩ (by decide)
  have hspans := hspans (by decide)
  have htext := hgrown rfl rfl
  rw [hmove] at hspans htext
  exact ⟨d', delta, happly, hdelta, hmove, hspans, htext.trans (by decide)⟩

/-- A range that starts where a deleted one ends: its start stays, its
end moves with the text, and what was an ordered range of the document is
turned over and starts past the end of it. -/
theorem turns_over :
    let d := Document.new "untitled:document" "plaintext" "abcde".toList
    let r : Range := ⟨⟨0, 0⟩, ⟨0, 3⟩⟩
    let s : Range := ⟨⟨0, 3⟩, ⟨0, 5⟩⟩
    d.content.Spans r ∧ d.content.Spans s ∧ r.stop ≤ s.start
      ∧ ∃ d' delta, d.apply [⟨r, []⟩] = .ok (d', [⟨r, []⟩])
        ∧ ofReplacement r [] = .ok delta
        ∧ delta.moveRange s = ⟨⟨0, 3⟩, ⟨0, 2⟩⟩
        ∧ ¬(delta.moveRange s).start ≤ (delta.moveRange s).stop
        ∧ ¬d'.content.InBounds (delta.moveRange s).start := by
  have hstart : (Content.ofText "abcde".toList).InBounds ⟨0, 0⟩ :=
    ⟨by decide, by decide, by decide, by decide⟩
  have hstop : (Content.ofText "abcde".toList).InBounds ⟨0, 3⟩ :=
    ⟨by decide, by decide, by decide, by decide⟩
  have hend : (Content.ofText "abcde".toList).InBounds ⟨0, 5⟩ :=
    ⟨by decide, by decide, by decide, by decide⟩
  refine ⟨⟨hstart, hstop, by decide⟩, ⟨hstop, hend, by decide⟩,
    by decide, ⟨"untitled:document", "plaintext", 1,
      .ofText "de".toList⟩, _, by cbv, rfl, by decide, by decide, ?_⟩
  exact fun h => absurd h.column_le (by decide)

end Delta

end Relex
