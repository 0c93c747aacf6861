/-
Batches: the order in which changes are spliced in, and what a document
knows about a batch once it has accepted it.

Going from the bottom upwards is going from the top downwards backwards,
also among changes of one range: the changes from the top down are the
batch turned around and then sorted, both sorts keep the order of what
they find equal, and a sorted list is determined by what it lists for
each range (`topDown_eq_reverse`).

What a document knows about an accepted batch is that the changes are
stacked (`Stacked`): each lies in the content, and each ends where the
next one below it starts, or before. Splicing in the lowest leaves the
others stacked in the new content (`Stacked.tail`), which is what every
induction over a batch rests on.
-/
import Relex.Document
import Relex.Proofs.Content

namespace Relex

namespace Change

-- ============================================================ sorting

theorem le_def {a b : Change} :
    a ≤ b ↔ a.range.start < b.range.start
      ∨ (a.range.start = b.range.start ∧ a.range.stop ≤ b.range.stop) :=
  Iff.rfl

theorem le_trans {a b c : Change} (h : a ≤ b) (h' : b ≤ c) : a ≤ c := by
  simp only [le_def, Position.lt_def, Position.le_def,
    Position.eq_iff] at *
  omega

theorem le_total (a b : Change) : a ≤ b ∨ b ≤ a := by
  simp only [le_def, Position.lt_def, Position.le_def, Position.eq_iff]
  omega

theorem range_eq {a b : Change} (h : a ≤ b) (h' : b ≤ a) :
    a.range = b.range := by
  simp only [le_def, Position.lt_def, Position.le_def,
    Position.eq_iff] at h h'
  obtain ⟨⟨p, q⟩, _⟩ := a
  obtain ⟨⟨p', q'⟩, _⟩ := b
  rw [Range.mk.injEq, Position.eq_iff, Position.eq_iff]
  dsimp only at h h'
  omega

theorem le_of_range_eq {a b : Change} (h : a.range = b.range) :
    a ≤ b := by
  rw [le_def, h]
  exact .inr ⟨rfl, Position.le_refl _⟩

theorem decide_trans (a b c : Change) (h : decide (a ≤ b) = true)
    (h' : decide (b ≤ c) = true) : decide (a ≤ c) = true :=
  decide_eq_true (le_trans (of_decide_eq_true h) (of_decide_eq_true h'))

theorem decide_total (a b : Change) :
    (decide (a ≤ b) || decide (b ≤ a)) = true := by
  rw [Bool.or_eq_true, decide_eq_true_iff, decide_eq_true_iff]
  exact le_total a b

/-- A sort keeps those elements in order that it finds equal. -/
theorem filter_mergeSort {α : Type} {le : α → α → Bool}
    (trans : ∀ a b c, le a b → le b c → le a c)
    (total : ∀ a b, le a b || le b a) {s : α → Bool}
    (hs : ∀ a b, s a → s b → le a b) (l : List α) :
    (l.mergeSort le).filter s = l.filter s := by
  have hall : ∀ a ∈ l.filter s, s a := fun a ha => (List.mem_filter.1 ha).2
  have hsorted : (l.filter s).Pairwise (le · ·) :=
    List.pairwise_of_forall_mem_list
      fun a ha b hb => hs a b (hall a ha) (hall b hb)
  have hsub := (List.sublist_mergeSort trans total hsorted
    List.filter_sublist).filter s
  rw [List.filter_eq_self.2 hall] at hsub
  exact (hsub.eq_of_length
    ((List.mergeSort_perm l le).filter s).length_eq.symm).symm

/-- A sorted list is determined by what it lists for each range. -/
theorem eq_of_sorted {l l' : List Change}
    (h : l.Pairwise (· ≤ ·)) (h' : l'.Pairwise (· ≤ ·))
    (hf : ∀ r, l.filter (·.range = r) = l'.filter (·.range = r)) :
    l = l' := by
  induction l generalizing l' with
  | nil =>
      cases l' with
      | nil => rfl
      | cons b t' => simpa using hf b.range
  | cons a t ih =>
      cases l' with
      | nil => simpa using hf a.range
      | cons b t' =>
          -- each head is in the other list, so neither is below the other
          have ha : a ∈ (b :: t').filter (·.range = a.range) := by
            rw [← hf]
            simp
          have hb : b ∈ (a :: t).filter (·.range = b.range) := by
            rw [hf]
            simp
          rw [List.mem_filter] at ha hb
          have hab : a ≤ b := by
            rcases List.mem_cons.1 hb.1 with rfl | hb
            · exact le_of_range_eq rfl
            · exact List.rel_of_pairwise_cons h hb
          have hba : b ≤ a := by
            rcases List.mem_cons.1 ha.1 with rfl | ha
            · exact le_of_range_eq rfl
            · exact List.rel_of_pairwise_cons h' ha
          have hr := range_eq hab hba
          have hhead := hf a.range
          rw [List.filter_cons_of_pos (by simp),
            List.filter_cons_of_pos (by simp [hr])] at hhead
          obtain ⟨rfl, -⟩ := List.cons.inj hhead
          refine congrArg _ (ih h.of_cons h'.of_cons ?_)
          intro r
          have := hf r
          rw [List.filter_cons, List.filter_cons] at this
          split at this
          · exact (List.cons.inj this).2
          · exact this

theorem bottomUp_singleton (change : Change) :
    bottomUp [change] = [change] :=
  List.mergeSort_singleton change

/-- The changes from the top of the document downwards. Changes of one
range come in the reverse of the order in which they were listed. -/
def topDown (changes : List Change) : List Change :=
  changes.reverse.mergeSort fun a b => a ≤ b

theorem bottomUp_perm (changes : List Change) :
    (bottomUp changes).Perm changes :=
  List.mergeSort_perm _ _

theorem bottomUp_sorted (changes : List Change) :
    (bottomUp changes).Pairwise fun a b => b ≤ a :=
  (List.pairwise_mergeSort (fun a b c h h' => decide_trans c b a h' h)
    (fun a b => decide_total b a) changes).imp of_decide_eq_true

theorem topDown_sorted (changes : List Change) :
    (topDown changes).Pairwise (· ≤ ·) :=
  (List.pairwise_mergeSort decide_trans decide_total
    changes.reverse).imp of_decide_eq_true

/-- Changes of one range are listed from the top downwards in the reverse
of the order in which they came. -/
theorem filter_topDown (changes : List Change) (r : Range) :
    (topDown changes).filter (·.range = r)
      = (changes.filter (·.range = r)).reverse := by
  unfold topDown
  rw [filter_mergeSort decide_trans decide_total, List.filter_reverse]
  intro a b ha hb
  exact decide_eq_true (le_of_range_eq
    ((of_decide_eq_true ha).trans (of_decide_eq_true hb).symm))

/-- From the top downwards is from the bottom upwards, backwards. -/
theorem topDown_eq_reverse (changes : List Change) :
    topDown changes = (bottomUp changes).reverse := by
  refine eq_of_sorted (topDown_sorted changes)
    (List.pairwise_reverse.2 (bottomUp_sorted changes)) ?_
  intro r
  unfold bottomUp
  rw [filter_topDown, List.filter_reverse,
    filter_mergeSort (fun a b c h h' => decide_trans c b a h' h)
      (fun a b => decide_total b a)]
  intro a b ha hb
  exact decide_eq_true (le_of_range_eq
    ((of_decide_eq_true hb).trans (of_decide_eq_true ha).symm))

/-- Those of some changes that pass a test come from the bottom upwards as
they do among the others. -/
theorem filter_bottomUp (p : Change → Bool) (changes : List Change) :
    (bottomUp changes).filter p = bottomUp (changes.filter p) := by
  have htop : (topDown changes).filter p
      = topDown (changes.filter p) := by
    refine eq_of_sorted ((topDown_sorted changes).filter p)
      (topDown_sorted _) ?_
    intro r
    rw [filter_topDown, List.filter_filter, List.filter_filter]
    simp only [Bool.and_comm _ (p _)]
    rw [← List.filter_filter, filter_topDown, List.filter_reverse,
      List.filter_filter]
  rw [topDown_eq_reverse, topDown_eq_reverse, List.filter_reverse] at htop
  exact List.reverse_inj.1 htop

-- =========================================================== stacking

/-- Changes listed from the bottom upwards that lie in a content, none
reaching into the one below it. -/
structure Stacked (c : Content) (changes : List Change) : Prop where
  inside : ∀ change ∈ changes, c.InBounds change.range.start
    ∧ c.InBounds change.range.stop
    ∧ change.range.start ≤ change.range.stop
  apart : changes.Pairwise fun lower upper =>
    upper.range.stop ≤ lower.range.start

/-- The ranges of stacked changes are not malformed. -/
theorem Stacked.isValid {c : Content} {changes : List Change}
    (h : Stacked c changes) : ∀ change ∈ changes, change.range.IsValid :=
  fun change hc => by
    obtain ⟨hstart, hstop, hle⟩ := h.inside change hc
    exact ⟨hle, hstart.line_nonneg, hstart.column_nonneg,
      hstop.column_nonneg⟩

/-- Ranges in order of which no neighbours overlap stand apart. -/
theorem apart_of_overlap? {changes : List Change}
    (hin : ∀ change ∈ changes, change.range.start ≤ change.range.stop)
    (h : overlap? changes = none) :
    changes.Pairwise fun lower upper =>
      upper.range.stop ≤ lower.range.start := by
  induction changes with
  | nil => exact .nil
  | cons lower rest ih =>
      cases rest with
      | nil => exact List.pairwise_singleton _ _
      | cons upper rest =>
          rw [overlap?] at h
          split at h
          · cases h
          · next hlt =>
            have hrest := ih (fun c hc => hin c (by simp [hc])) h
            have hle := Position.not_lt.1 hlt
            refine .cons ?_ hrest
            intro c hc
            rcases List.mem_cons.1 hc with rfl | hc
            · exact hle
            · exact Position.le_trans (List.rel_of_pairwise_cons hrest hc)
                (Position.le_trans (hin upper (by simp)) hle)

namespace Stacked

variable {c : Content} {change : Change} {upper : List Change}

theorem head (h : Stacked c (change :: upper)) :
    c.InBounds change.range.start ∧ c.InBounds change.range.stop
      ∧ change.range.start ≤ change.range.stop :=
  h.inside change (by simp)

theorem above (h : Stacked c (change :: upper)) :
    ∀ u ∈ upper, u.range.stop ≤ change.range.start :=
  fun _ hu => List.rel_of_pairwise_cons h.apart hu

/-- With the lowest change spliced in, the others are stacked in the new
content. -/
theorem tail (h : Stacked c (change :: upper)) :
    Stacked (c.splice change.range change.text) upper := by
  have hstart := h.head.1
  refine ⟨?_, h.apart.of_cons⟩
  intro u hu
  obtain ⟨hu₁, hu₂, hle⟩ := h.inside u (by simp [hu])
  have hstop := h.above u hu
  exact ⟨(Content.splice_of_le _ hu₁ hstart
      (Position.le_trans hle hstop)).1,
    (Content.splice_of_le _ hu₂ hstart hstop).1, hle⟩

end Stacked

end Change

-- =========================================================== accepting

namespace Document

open Change

theorem spliceAll_append (c : Content) (lower upper : List Change) :
    spliceAll c (lower ++ upper) = spliceAll (spliceAll c lower) upper :=
  List.foldl_append ..

/-- With some of the lowest changes spliced in, the others are stacked in
the new content. -/
theorem stacked_spliceAll {c : Content} {lower upper : List Change}
    (h : Stacked c (lower ++ upper)) :
    Stacked (spliceAll c lower) upper := by
  induction lower generalizing c with
  | nil => exact h
  | cons change lower ih => exact ih h.tail

/-- What accepting a batch comes to: its ranges are clamped, then the
changes, stacked in the content, are spliced in from the bottom
upwards. -/
theorem apply_eq_ok {d d' : Document} {changes applied : List Change}
    (h : d.apply changes = .ok (d', applied)) :
    applied = d.clampBatch changes
      ∧ Stacked d.content (bottomUp applied)
      ∧ d'.version = d.version + 1
      ∧ d'.content = spliceAll d.content (bottomUp applied) := by
  unfold apply at h
  dsimp only at h
  split at h
  · cases h
  · next hr =>
    cases h
    refine ⟨rfl, ?_, rfl, rfl⟩
    have hinside : ∀ change ∈ bottomUp (d.clampBatch changes),
        d.content.InBounds change.range.start
          ∧ d.content.InBounds change.range.stop
          ∧ change.range.start ≤ change.range.stop := by
      intro change hc
      obtain ⟨raw, -, rfl⟩ :=
        List.mem_map.1 ((bottomUp_perm _).mem_iff.1 hc)
      exact d.content.clampRange_ordered raw.range
    unfold refusal? at hr
    split at hr
    · cases hr
    · split at hr
      · cases hr
      · next ho =>
        exact ⟨hinside,
          apart_of_overlap? (fun c hc => (hinside c hc).2.2) ho⟩

/-- A change by itself is accepted unless its range is malformed. -/
theorem apply_singleton (d : Document) {change : Change}
    (h : change.range.IsValid) :
    d.apply [change] = .ok ({ d with
        version := d.version + 1
        content := d.content.splice (d.content.clampRange change.range)
          change.text },
      [⟨d.content.clampRange change.range, change.text⟩]) := by
  unfold apply refusal? clampBatch
  rw [List.find?_cons_of_neg (by simp [h]), List.find?_nil,
    List.map_singleton]
  dsimp only
  rw [bottomUp_singleton]
  rfl

/-- A batch leaves a document under its URI. -/
theorem uri_of_apply {d d' : Document} {changes applied : List Change}
    (h : d.apply changes = .ok (d', applied)) : d'.uri = d.uri := by
  unfold apply at h
  dsimp only at h
  split at h
  · cases h
  · cases h
    rfl

/-- The changes of a batch as applied are not malformed. -/
theorem isValid_of_apply {d d' : Document} {changes applied : List Change}
    (h : d.apply changes = .ok (d', applied)) :
    ∀ change ∈ applied, change.range.IsValid := by
  intro change hc
  obtain ⟨-, hstacked, -, -⟩ := apply_eq_ok h
  exact hstacked.isValid change ((bottomUp_perm applied).mem_iff.2 hc)

end Document

end Relex
