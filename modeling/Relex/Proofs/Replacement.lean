/-
A batch is one simultaneous replacement.

The document splices the changes of a batch in one after the other, from
the bottom upwards, and splits prefix, text and suffix into lines again
each time. The reference (`replaceSpans`) never looks at lines: it walks
down the text from before the batch once, copies what lies between the
replaced spans, and puts each change's text, with line feeds for
terminators, in place of its span. `replaces_at_once` says that both
give the same text for every accepted batch.

The induction goes down the document. Its invariant (`exists_run`) is
about the content in which the changes from some point downwards have
been spliced in: the run up to that point is still the one from before
the batch, and the rest has the text the reference gives from that point
on. No terminator can form across the border of two texts, because what
stands next to a text that is spliced in is always part of an unbroken
line.
-/
import Mathlib
import Relex.Proofs.Batch
import Relex.Workspace.Notify

namespace Relex

open Text Change

-- ======================================================= the reference

/-- The text with spans of it replaced, all at once. The spans are given
from the top down as the offsets of their ends and what is put in their
place; `passed` counts the characters that have been dealt with. -/
def Text.replaceSpans (text : List Char) :
    (passed : Nat) → List (Nat × Nat × List Char) → List Char
  | passed, [] => text.drop passed
  | passed, (start, stop, new) :: rest =>
    (text.take start).drop passed ++ new ++ replaceSpans text stop rest

/-- What a change does to the text of a content: the offsets between
which it replaces, and its text with line feeds for terminators. -/
def Change.span (c : Content) (change : Change) : Nat × Nat × List Char :=
  (c.offsetOf change.range.start, c.offsetOf change.range.stop,
    joinLines (lines change.text))

-- ======================================================= the invariant

/-- With the changes below `p` spliced in, the run up to `p` is as it
was, and what follows has the text of the reference. -/
theorem exists_run {c : Content} {changes : List Change} {p : Position}
    (hp : c.InBounds p) (hbelow : ∀ change ∈ changes, p ≤ change.range.start)
    (h : Stacked c changes.reverse) :
    ∃ run, run ≠ []
      ∧ (Document.spliceAll c changes.reverse).lines = glue (c.upTo p) run
      ∧ joinLines run
        = replaceSpans c.text (c.offsetOf p) (changes.map (·.span c)) := by
  induction changes generalizing p with
  | nil =>
      exact ⟨c.onward p, c.onward_ne_nil p,
        (Content.glue_upTo_onward hp).symm, (Content.drop_offsetOf hp).symm⟩
  | cons change rest ih =>
      obtain ⟨hstart, hstop, hle⟩ := h.inside change (by simp)
      have hps := hbelow change (by simp)
      rw [List.reverse_cons] at h ⊢
      obtain ⟨hrest, -, hapart⟩ := List.pairwise_append.1 h.apart
      obtain ⟨run, hne, hlines, htext⟩ := ih hstop
        (fun u hu => hapart u (by simpa using hu) change (by simp))
        ⟨fun u hu => h.inside u (List.mem_append_left _ hu), hrest⟩
      -- the change meets the content that the ones below it have left
      rw [Document.spliceAll_append]
      generalize Document.spliceAll c rest.reverse = below at hlines ⊢
      have hcut := Content.cut_extent (c.upTo_ne_nil _) hne hlines
      rw [Content.extent_upTo hstop] at hcut
      obtain ⟨-, -, honward⟩ := hcut
      rw [← Content.glue_upTo_between hstart hstop hle, glue_assoc]
        at hlines
      have hcut := Content.cut_extent (c.upTo_ne_nil _)
        (glue_ne_nil (c.between_ne_nil _ _)) hlines
      rw [Content.extent_upTo hstart] at hcut
      obtain ⟨-, hupTo, -⟩ := hcut
      refine ⟨glue (c.between p change.range.start)
          (glue (lines change.text) run),
        glue_ne_nil (c.between_ne_nil _ _), ?_, ?_⟩
      · show (below.splice change.range change.text).lines = _
        rw [Content.lines_splice, hupTo, honward, ← glue_assoc (c.upTo p),
          Content.glue_upTo_between hp hstart hps]
      · rw [joinLines_glue, joinLines_glue, htext, List.map_cons, span,
          replaceSpans, Content.drop_take_offsetOf hp hstart hps,
          List.append_assoc]

-- ========================================================= the theorem

/-- An accepted batch replaces the spans of its changes at once. The
spans are those of the clamped changes in the text from before the
batch, from the top down, changes of one range in the reverse of the
order in which they were listed. Every listener is told of the clamped
changes, in the order given. -/
theorem replaces_at_once {d d' : Document} {changes applied : List Change}
    (h : d.apply changes = .ok (d', applied)) :
    d'.content.text = replaceSpans d.content.text 0
        ((topDown applied).map (·.span d.content))
      ∧ applied = changes.map (fun change =>
        ⟨d.content.clampRange change.range, change.text⟩)
      ∧ ∀ (ws : Workspace) (buffer : Nat) (listeners : List Listener),
        ws.buffers[buffer]? = some ⟨d, listeners⟩ →
        ∃ ws', ws.applyBatch buffer changes = .ok (applied,
            listeners.map fun l => ⟨l, buffer, applied⟩, ws')
          ∧ ws'.document? buffer = some d' := by
  obtain ⟨happlied, hstacked, -, hcontent⟩ := Document.apply_eq_ok h
  refine ⟨?_, happlied, ?_⟩
  · have horigin := d.content.inBounds_origin
    rw [← List.reverse_reverse (bottomUp applied),
      ← topDown_eq_reverse] at hstacked hcontent
    -- the splices from the bottom upwards leave one run from the top down
    obtain ⟨run, -, hlines, htext⟩ := exists_run horigin
      (fun change hc => Position.origin_le
        (hstacked.inside change (by simpa using hc)).1.natural) hstacked
    have hzero : (joinLines (d.content.upTo ⟨0, 0⟩)) = [] := by
      simp [Content.upTo, joinLines]
    rw [Content.offsetOf_eq horigin, hzero] at htext
    show joinLines d'.content.lines = _
    rw [hcontent, hlines, joinLines_glue, hzero, htext]
    rfl
  · intro ws buffer listeners hb
    unfold Workspace.applyBatch
    rw [hb]
    dsimp only
    rw [h]
    refine ⟨_, rfl, ?_⟩
    unfold Workspace.document?
    rw [List.getElem?_set_self (List.getElem?_eq_some_iff.1 hb).1]
    rfl

/-- A line feed and a carriage return put next to each other, from two
adjacent changes, stay two breaks. -/
theorem replaces_adjacent_at_once :
    ∃ d d' : Document, ∃ changes applied : List Change,
      d.content.text = "ab\ncd".toList
        ∧ d.apply changes = .ok (d', applied)
        ∧ d'.content.text = "ax\n\nyd".toList
        ∧ d'.content.text = replaceSpans d.content.text 0
          ((topDown applied).map (·.span d.content)) := by
  have h : (Document.new "untitled:document" "plaintext"
        "ab\ncd".toList).apply
      [⟨⟨⟨0, 1⟩, ⟨0, 1⟩⟩, "x\r".toList⟩, ⟨⟨⟨0, 1⟩, ⟨1, 1⟩⟩, "\ny".toList⟩]
      = .ok (⟨"untitled:document", "plaintext", 1,
          .ofText "ax\n\nyd".toList⟩,
        [⟨⟨⟨0, 1⟩, ⟨0, 1⟩⟩, "x\r".toList⟩,
          ⟨⟨⟨0, 1⟩, ⟨1, 1⟩⟩, "\ny".toList⟩]) := by cbv
  exact ⟨_, _, _, _, by decide, h, by decide, (replaces_at_once h).1⟩

end Relex
