/-
Which batches are refused.

A document refuses a batch if a range of it is malformed, or if two of
its changes overlap once clamped (`Refusable`). This does not depend on
how the batch is listed: being malformed is a matter of single changes,
overlapping one of pairs.

The document only compares neighbours in the order from the bottom
upwards, and only one end of each. That is enough. If each range starts
no earlier than the one above it ends, then it starts no earlier than any
further up ends, since every range ends where it starts or later. And
neighbours that fail the test do overlap (`overlaps_of_lt`): the other
side of overlapping could only fail if the upper range, too, began and
ended at one point, and then the order would have put its end first.

A batch that is refused leaves the whole workspace as it was, and nobody
is called. One that is not refused is taken, and what its round of
notifications comes to is what the edit comes to.
-/
import Mathlib
import Relex.Proofs.Workspace.Equivalence
import Relex.Proofs.Workspace.Rounds

namespace Relex

-- ======================================================== overlapping

namespace Range

/-- Not in order, or with a negative coordinate. -/
def IsMalformed (r : Range) : Prop :=
  r.stop < r.start ∨ r.start.line < 0 ∨ r.start.column < 0
    ∨ r.stop.column < 0

/-- Neither range ends where the other starts, or before. -/
def Overlaps (r s : Range) : Prop :=
  ¬r.stop ≤ s.start ∧ ¬s.stop ≤ r.start

instance (r s : Range) : Decidable (r.Overlaps s) :=
  inferInstanceAs (Decidable (_ ∧ _))

variable {r s : Range}

theorem isMalformed_iff : r.IsMalformed ↔ ¬r.IsValid := by
  simp only [IsMalformed, IsValid, Position.lt_def, Position.le_def]
  omega

theorem overlaps_comm : r.Overlaps s ↔ s.Overlaps r := and_comm

/-- Adjacent ranges do not overlap. -/
theorem not_overlaps_of_le (h : r.stop ≤ s.start) : ¬r.Overlaps s :=
  fun ho => ho.1 h

/-- An insertion overlaps the ranges it lies strictly inside. -/
theorem empty_overlaps_iff {p : Position} :
    (empty p).Overlaps r ↔ r.start < p ∧ p < r.stop := by
  simp only [Overlaps, empty, Position.le_def, Position.lt_def]
  omega

/-- A range overlaps its like, unless both are empty. -/
theorem overlaps_self_iff : r.Overlaps r ↔ r.start < r.stop := by
  simp only [Overlaps, Position.le_def, Position.lt_def]
  omega

end Range

namespace Change

/-- Two changes at different places of the list overlap. -/
def Collide (changes : List Change) : Prop :=
  ∃ (i j : Nat) (a b : Change), i ≠ j ∧ changes[i]? = some a
    ∧ changes[j]? = some b ∧ a.range.Overlaps b.range

/-- No two of the changes overlap. -/
def Separate (changes : List Change) : Prop :=
  changes.Pairwise fun a b => ¬a.range.Overlaps b.range

variable {changes changes' : List Change}

theorem collide_iff : Collide changes ↔ ¬Separate changes := by
  unfold Separate
  rw [List.pairwise_iff_getElem]
  constructor
  · rintro ⟨i, j, a, b, hij, ha, hb, ho⟩ h
    obtain ⟨hi, rfl⟩ := List.getElem?_eq_some_iff.1 ha
    obtain ⟨hj, rfl⟩ := List.getElem?_eq_some_iff.1 hb
    rcases Nat.lt_or_gt_of_ne hij with hij | hij
    · exact h i j hi hj hij ho
    · exact h j i hj hi hij (Range.overlaps_comm.1 ho)
  · intro h
    push Not at h
    obtain ⟨i, j, hi, hj, hij, ho⟩ := h
    exact ⟨i, j, _, _, hij.ne, List.getElem?_eq_getElem hi,
      List.getElem?_eq_getElem hj, ho⟩

/-- The order in which changes are listed makes no difference. -/
theorem Separate.perm (h : Separate changes)
    (hp : changes.Perm changes') : Separate changes' :=
  List.Pairwise.perm h hp fun hab hba => hab (Range.overlaps_comm.1 hba)

theorem collide_perm (hp : changes.Perm changes') :
    Collide changes ↔ Collide changes' := by
  rw [collide_iff, collide_iff]
  exact not_congr ⟨fun h => h.perm hp, fun h => h.perm hp.symm⟩

-- ========================================================= neighbours

/-- If the lower of two changes starts before the upper one ends, they
overlap. -/
theorem overlaps_of_lt {lower upper : Change} (hle : upper ≤ lower)
    (hlower : lower.range.start ≤ lower.range.stop)
    (h : lower.range.start < upper.range.stop) :
    lower.range.Overlaps upper.range := by
  simp only [le_def, Range.Overlaps, Position.lt_def, Position.le_def,
    Position.eq_iff] at *
  omega

/-- Looking at neighbours finds an overlap if there is any. -/
theorem overlap?_eq_none_iff
    (hsorted : changes.Pairwise fun lower upper => upper ≤ lower)
    (hin : ∀ change ∈ changes, change.range.start ≤ change.range.stop) :
    overlap? changes = none ↔ Separate changes := by
  refine ⟨fun h => (apart_of_overlap? hin h).imp fun h ho => ho.2 h,
    fun h => ?_⟩
  induction changes with
  | nil => rfl
  | cons lower rest ih =>
      cases rest with
      | nil => rfl
      | cons upper rest =>
          have hle := List.rel_of_pairwise_cons hsorted
            (List.mem_cons_self (a := upper))
          have hapart := List.rel_of_pairwise_cons h
            (List.mem_cons_self (a := upper))
          rw [overlap?, if_neg fun hlt =>
            hapart (overlaps_of_lt hle (hin lower (by simp)) hlt)]
          exact ih hsorted.of_cons (fun c hc => hin c (by simp [hc]))
            h.of_cons

end Change

-- =========================================================== refusing

namespace Document

open Change

/-- A batch the document has reason to refuse: a given range is
malformed, or changes overlap once they are clamped. -/
def Refusable (d : Document) (changes : List Change) : Prop :=
  (∃ change ∈ changes, change.range.IsMalformed)
    ∨ Collide (d.clampBatch changes)

variable {d : Document} {changes changes' : List Change}

/-- The order in which a batch is listed makes no difference to whether
it is refused. -/
theorem refusable_perm (d : Document) (hp : changes.Perm changes') :
    d.Refusable changes ↔ d.Refusable changes' := by
  unfold Refusable clampBatch
  rw [collide_perm (hp.map _)]
  simp only [hp.mem_iff]

theorem refusal?_eq_none_iff :
    refusal? changes (d.clampBatch changes) = none
      ↔ ¬d.Refusable changes := by
  have hin : ∀ change ∈ bottomUp (d.clampBatch changes),
      change.range.start ≤ change.range.stop := by
    intro change hc
    obtain ⟨raw, -, rfl⟩ :=
      List.mem_map.1 ((bottomUp_perm _).mem_iff.1 hc)
    exact (d.content.clampRange_ordered raw.range).2.2
  have hseparate : overlap? (bottomUp (d.clampBatch changes)) = none
      ↔ ¬Collide (d.clampBatch changes) := by
    rw [overlap?_eq_none_iff (bottomUp_sorted _) hin, ← not_iff_not,
      ← collide_iff, not_not, collide_perm (bottomUp_perm _)]
  have hvalid : changes.find? (fun c => ¬c.range.IsValid) = none
      ↔ ¬∃ change ∈ changes, change.range.IsMalformed := by
    simp [Range.isMalformed_iff]
  unfold Refusable
  rw [not_or, ← hvalid, ← hseparate]
  unfold refusal?
  generalize changes.find? _ = malformed
  generalize overlap? _ = pair
  cases malformed <;> cases pair <;> simp

/-- A document refuses what it has reason to refuse, and nothing else. -/
theorem apply_eq_error_iff :
    (∃ e, d.apply changes = .error e) ↔ d.Refusable changes := by
  rw [← not_not (a := d.Refusable changes), ← refusal?_eq_none_iff]
  unfold apply
  dsimp only
  split
  · next hr => simp [hr]
  · next hr => simp [hr]

theorem exists_apply_eq_ok (h : ¬d.Refusable changes) :
    ∃ d' applied, d.apply changes = .ok (d', applied) := by
  cases happly : d.apply changes with
  | error e => exact absurd (apply_eq_error_iff.1 ⟨e, happly⟩) h
  | ok r => exact ⟨r.1, r.2, rfl⟩

end Document

-- ======================================================== the theorem

namespace Workspace

open Change Document

variable {ws : Workspace} {buffer : Nat} {b : Buffer}
  {changes : List Change}

theorem applyBatch_of_refusable (hb : ws.buffers[buffer]? = some b)
    (h : b.document.Refusable changes) :
    ∃ e, ws.applyBatch buffer changes = .error e := by
  obtain ⟨e, happly⟩ := apply_eq_error_iff.2 h
  rw [applyBatch_of_some hb, happly]
  exact ⟨e, rfl⟩

theorem applyBatch_of_not_refusable (hb : ws.buffers[buffer]? = some b)
    (h : ¬b.document.Refusable changes) :
    ∃ d applied, b.document.apply changes = .ok (d, applied)
      ∧ ws.applyBatch buffer changes = .ok (applied,
        b.listeners.map (⟨·, buffer, applied⟩), { ws with
          buffers := ws.buffers.set buffer { b with document := d } }) := by
  obtain ⟨d, applied, happly⟩ := exists_apply_eq_ok h
  rw [applyBatch_of_some hb]
  exact ⟨d, applied, happly, by rw [happly]; rfl⟩

/-- If a round ends in a fault, somebody has failed or was refused an
edit. -/
theorem Round.exists_raised {plans : List Plan} {agenda : List Delivery}
    {story : List Happening} {result : Except Fault Unit × Workspace}
    (h : Round plans agenda ws story result) {fault : Fault}
    (hresult : result.1 = .error fault) : ∃ d, .raised d ∈ story := by
  induction h with
  | done => cases hresult
  | @fails plans d => exact ⟨d, by simp⟩
  | @refused plans left d => exact ⟨d, by simp⟩
  | goesOn hon hplan hrest ih =>
      obtain ⟨d, hd⟩ := ih hresult
      exact ⟨d, by simp [hd]⟩
  | nests hon hplan hbatch hrest ih =>
      obtain ⟨d, hd⟩ := ih hresult
      exact ⟨d, by simp [hd]⟩

/-- An edit fails only because the document has reason to refuse the
batch, or because somebody has failed or was refused an edit. -/
theorem exists_raised_of_edit (hb : ws.buffers[buffer]? = some b)
    (h : ¬b.document.Refusable changes) {fault : Fault} {ws' : Workspace}
    (hon : (edit buffer changes).on ws = (.error fault, ws')) :
    ∃ l, .raised l ∈ history [(buffer, changes)] ws := by
  obtain ⟨d, applied, -, he⟩ := applyBatch_of_not_refusable hb h
  rw [edit_on, he] at hon
  rw [history, he]
  dsimp only at hon ⊢
  cases hround : (deliverAll ws.plans (b.listeners.map
      (⟨·, buffer, applied⟩)) { ws with
        buffers := ws.buffers.set buffer ⟨d, b.listeners⟩ }).1 with
  | ok _ =>
      rw [hround] at hon
      cases (Prod.mk.inj hon).1
  | error fault' =>
      obtain ⟨l, hl⟩ := (round_roundHistory _ _ _).exists_raised hround
      exact ⟨l, by simp [hl]⟩

/-- A document refuses a batch exactly if it has reason to, in whatever
order the batch is listed; and an edit that fails for any other reason
fails because a listener did. When a batch is refused, the workspace is
left as it was and nothing happens in it. Any other batch is taken. As for
overlapping: an insertion overlaps what it lies strictly inside, adjacent
ranges do not overlap, and a range overlaps its like unless it is
empty. -/
theorem refuses_exactly (hb : ws.buffers[buffer]? = some b)
    (changes : List Change) :
    (∀ listed, listed.Perm changes →
      ((∃ e, b.document.apply listed = .error e)
        ↔ b.document.Refusable changes)
      ∧ ((∃ e ws', (edit buffer listed).on ws = (.error (.edit e), ws')
          ∧ Smooth (history [(buffer, listed)] ws))
        ↔ b.document.Refusable changes))
      ∧ (b.document.Refusable changes →
        (∃ e, (edit buffer changes).on ws = (.error (.edit e), ws))
          ∧ history [(buffer, changes)] ws = [])
      ∧ (¬b.document.Refusable changes → ∃ d applied story,
        b.document.apply changes = .ok (d, applied)
          ∧ history [(buffer, changes)] ws
            = .applied buffer applied b.listeners :: story)
      ∧ (∀ r p, (Range.empty p).Overlaps r ↔ r.start < p ∧ p < r.stop)
      ∧ (∀ r s : Range, r.stop ≤ s.start → ¬r.Overlaps s)
      ∧ ∀ r : Range, r.Overlaps r ↔ r.start < r.stop := by
  have hrefused : ∀ listed, b.document.Refusable listed →
      (∃ e, (edit buffer listed).on ws = (.error (.edit e), ws))
        ∧ history [(buffer, listed)] ws = [] := by
    intro listed h
    obtain ⟨e, he⟩ := applyBatch_of_refusable hb h
    rw [edit_on, history, he]
    exact ⟨⟨e, rfl⟩, rfl⟩
  refine ⟨?_, hrefused changes, ?_, fun r p => Range.empty_overlaps_iff,
    fun r s => Range.not_overlaps_of_le, fun r => Range.overlaps_self_iff⟩
  · intro listed hp
    rw [← b.document.refusable_perm hp]
    refine ⟨apply_eq_error_iff, ?_, ?_⟩
    · -- what an accepted batch fails with was raised by a listener
      rintro ⟨e, ws', hon, hsmooth⟩
      by_contra h
      obtain ⟨l, hl⟩ := exists_raised_of_edit hb h hon
      exact hsmooth l hl
    · intro h
      obtain ⟨⟨e, hon⟩, hnothing⟩ := hrefused listed h
      refine ⟨e, ws, hon, ?_⟩
      rw [hnothing]
      exact fun d => List.not_mem_nil
  · intro h
    obtain ⟨d, applied, happly, he⟩ := applyBatch_of_not_refusable hb h
    rw [history, he]
    dsimp only
    rw [taking, hb]
    exact ⟨d, applied, _, happly, rfl⟩

/-- An insertion strictly inside a replaced range. -/
def within : List Change :=
  [⟨⟨⟨0, 2⟩, ⟨0, 2⟩⟩, "x".toList⟩, ⟨⟨⟨0, 1⟩, ⟨0, 3⟩⟩, "y".toList⟩]

/-- Insertions at both edges of a replaced range, two at one of them, and
two ranges that overlap behind the end of the document. -/
def touching : List Change :=
  [⟨⟨⟨0, 3⟩, ⟨0, 3⟩⟩, "x".toList⟩, ⟨⟨⟨0, 1⟩, ⟨0, 3⟩⟩, "y".toList⟩,
    ⟨⟨⟨0, 1⟩, ⟨0, 1⟩⟩, "z".toList⟩, ⟨⟨⟨0, 3⟩, ⟨0, 3⟩⟩, "w".toList⟩,
    ⟨⟨⟨5, 0⟩, ⟨7, 0⟩⟩, "u".toList⟩, ⟨⟨⟨6, 0⟩, ⟨8, 0⟩⟩, "v".toList⟩]

theorem refuses_exactly_touching :
    (∃ e, (edit 0 within).on (watched "abcd")
        = (.error (.edit e), watched "abcd"))
      ∧ ∃ d applied story, (Document.new "untitled:document" "plaintext"
          "abcd".toList).apply touching = .ok (d, applied)
        ∧ history [(0, touching)] (watched "abcd")
          = .applied 0 applied [.watcher 0] :: story := by
  have hb : (watched "abcd").buffers[0]? = some ⟨.new "untitled:document"
      "plaintext" "abcd".toList, [.watcher 0]⟩ := by cbv
  obtain ⟨-, hrefused, -⟩ := refuses_exactly hb within
  obtain ⟨-, -, htaken, -⟩ := refuses_exactly hb touching
  refine ⟨(hrefused (.inr ⟨0, 1, _, _, by decide, rfl, rfl, ?_⟩)).1,
    htaken (refusal?_eq_none_iff.1 ?_)⟩
  · decide
  · cbv

end Workspace

end Relex
