/-
Mending a cache after a batch.

First the cache is realigned, change by change, while the document holds
the result already. So realigning is looked at next to splicing: after
the changes spliced in so far, the cache is sound on every line of the
content they have led to, except on the lines on which their ranges now
start (`sound_realign`). Lines that a change has put in are entered in an
unknown state, so nothing is claimed of them, and each line further down
is entered as before and left as before.

Changes further up move those starts along, exactly as they move the
ranges that are mended in the end (`sound_realignedBy`). So when the
spans are mended, from the bottom upwards, the pending lines are the
first lines of the spans still to come (`ends_mendSpans`), and in the end
none is (`ends_mendBatch`), also if the engine failed on some of them.
-/
import Relex.Proofs.Mending
import Relex.Proofs.Settled

namespace Relex

-- ============================================================ numbers

namespace Delta.Describes

variable {d : Delta} {old : Range} {text : List Char}

/-- A position at or behind the end of the replaced range moves by as
many lines as the document gains. -/
theorem move_line (hd : d.Describes old text) {p : Position}
    (h : old.stop ≤ p) : (d.move p).line = p.line + d.lineGrowth := by
  unfold move
  rw [hd.stop, if_neg (Position.not_lt.2 h)]
  split
  · next hline =>
    show d.stop.line + d.lineGrowth = _
    rw [hd.stop, hline]
  · rfl

theorem endLine_sub (hd : d.Describes old text) :
    d.endLine - old.stop.line = d.lineGrowth := by
  unfold endLine
  rw [hd.stop]
  omega

/-- A position at or behind the end of the replaced range stays behind
its start. -/
theorem move_behind (hd : d.Describes old text) (hstart : old.start.Natural)
    (h : old.start ≤ old.stop) {p : Position} (hp : old.stop ≤ p)
    (hnat : p.Natural) : old.start ≤ d.move p ∧ (d.move p).Natural := by
  obtain ⟨e, he, rfl⟩ := Position.exists_reach hp hnat.2
  have hnew := Text.natural_extent (Text.lines text)
  rw [hd.move_reach h he]
  exact ⟨Position.le_trans (Position.le_reach _ hnew)
    (Position.le_reach _ he), (hstart.reach hnew).reach he⟩

end Delta.Describes

namespace Reparse

open Content Change Text

-- ======================================================== one change

section

variable {c : Content} {k : StateCache} {e : Engine}

section

variable {r : Range} {text : List Char} {first last i : Nat}
  (hfirst : r.start.line = first) (hlast : r.stop.line = last)
  (hlt : first < c.lineCount) (hle : first ≤ last)

include hfirst hlast hlt hle

/-- Above a change everything is seen as before. -/
theorem sound_above (hi : i < first) (h : k.Sound e c.lines i) :
    (k.realign first last (first + breakCount text : Nat)).Sound e
      (c.splice r text).lines i := by
  have hnew := Nat.le_add_right first (breakCount text)
  have hget := k.get?_realign hle hnew i
  have hentry := k.entered?_realign hle hnew i
  have hline := c.getElem?_splice text hfirst hlast hlt i (.inl hi)
  rw [if_pos hi] at hget hline
  rw [if_pos (Nat.le_of_lt hi)] at hentry
  exact h.congr hentry hline hget

/-- Below a change everything is seen as it was before of the line that
has moved there. -/
theorem sound_below (hi : first + breakCount text < i)
    (h : k.Sound e c.lines (i - (first + breakCount text) + last)) :
    (k.realign first last (first + breakCount text : Nat)).Sound e
      (c.splice r text).lines i := by
  have hnew := Nat.le_add_right first (breakCount text)
  have hget := k.get?_realign hle hnew i
  have hentry := k.entered?_realign hle hnew i
  have hline := c.getElem?_splice text hfirst hlast hlt i (.inr hi)
  rw [if_neg (by omega)] at hline
  rw [if_neg (by omega), if_neg (by omega)] at hget hentry
  exact h.congr hentry hline hget

omit hfirst hlast hlt in
/-- The lines that a change puts in behind the first are entered in an
unknown state, so nothing is claimed of them. -/
theorem sound_within (lines : List Line) (hi : first < i)
    (hi' : i ≤ first + breakCount text) :
    (k.realign first last (first + breakCount text : Nat)).Sound e
      lines i := by
  have hentry := k.entered?_realign hle
    (Nat.le_add_right first (breakCount text)) i
  rw [if_neg (by omega), if_pos hi'] at hentry
  exact StateCache.sound_of_entered?_eq_none hentry

end

/-- A realigned cache is sound on the lines of the spliced content except
where the replacement starts and where the lines that were pending have
gone. -/
theorem sound_realign {change : Change} {d : Delta} {rs : List Range}
    (hd : d.Describes change.range change.text)
    (hstart : c.InBounds change.range.start)
    (hstop : c.InBounds change.range.stop)
    (hle : change.range.start ≤ change.range.stop)
    (hrs : ∀ r ∈ rs, change.range.stop ≤ r.start)
    (h : ∀ i : Nat, (∃ r ∈ rs, r.start.line = i) ∨ k.Sound e c.lines i)
    (i : Nat) :
    (change.range.start.line = i ∨ ∃ r ∈ rs, (d.move r.start).line = i)
      ∨ (k.realign d.start.line d.stop.line d.endLine).Sound e
        (c.splice change.range change.text).lines i := by
  obtain ⟨first, hfirst⟩ := Int.eq_ofNat_of_zero_le hstart.line_nonneg
  obtain ⟨last, hlast⟩ := Int.eq_ofNat_of_zero_le hstop.line_nonneg
  have hlines : first ≤ last := by
    have := Position.line_le hle
    omega
  have hlt : first < c.lineCount := by
    have := hstart.line_lt
    omega
  have hend : d.endLine
      = ((first + breakCount change.text : Nat) : Int) := by
    rw [hd.endLine_eq, hfirst]
    rfl
  have hgrowth := hd.endLine_sub
  rw [hd.start, hd.stop, hend, hfirst, hlast]
  rw [hend, hlast] at hgrowth
  by_cases habove : i < first
  · rcases h i with ⟨r, hr, hri⟩ | hs
    · have := Position.line_le (hrs r hr)
      omega
    · exact .inr (sound_above hfirst hlast hlt hlines habove hs)
  · by_cases hbelow : first + breakCount change.text < i
    · rcases h (i - (first + breakCount change.text) + last)
        with ⟨r, hr, hri⟩ | hs
      · refine .inl (.inr ⟨r, hr, ?_⟩)
        rw [hd.move_line (hrs r hr), hri]
        omega
      · exact .inr (sound_below hfirst hlast hlt hlines hbelow hs)
    · by_cases hfst : i = first
      · exact .inl (.inl (by rw [hfst]))
      · exact .inr (sound_within hlines _ (by omega) (by omega))

-- ====================================================== whole batches

/-- A cache realigned for one delta after the other. -/
def realignedBy (k : StateCache) (deltas : List Delta) : StateCache :=
  deltas.foldl
    (fun k d => k.realign d.start.line d.stop.line d.endLine) k

/-- A range with both ends moved. -/
def movedBy (d : Delta) (r : Range) : Range :=
  ⟨d.move r.start, d.move r.stop⟩

/-- The settled ranges of changes listed from the bottom upwards. -/
def settledAll : List (Change × Delta) → List Range
  | [] => []
  | pair :: upper =>
    settledRange pair.2 (upper.map (·.2)) :: settledAll upper

/-- The ranges start behind all these changes. -/
def Behind (rs : List Range) (upper : List (Change × Delta)) : Prop :=
  ∀ r ∈ rs, r.start.Natural ∧ ∀ pair ∈ upper, pair.1.range.stop ≤ r.start

/-- Ranges behind a stack of changes are behind those further up still
when the lowest was applied, and so is the replacement it made. -/
theorem Behind.step {rs : List Range} {pair : Change × Delta}
    {upper : List (Change × Delta)} (h : Behind rs (pair :: upper))
    (hd : pair.2.Describes pair.1.range pair.1.text)
    (hs : Stacked c ((pair :: upper).map (·.1))) :
    Behind (pair.2.replacement :: rs.map (movedBy pair.2)) upper := by
  obtain ⟨hstart, hstop, hle⟩ := hs.head
  have habove : ∀ p ∈ upper, p.1.range.stop ≤ pair.1.range.start :=
    fun p hp => hs.above p.1 (List.mem_map_of_mem hp)
  intro r hr
  rcases List.mem_cons.1 hr with rfl | hr
  · rw [hd.replacement_eq hle]
    exact ⟨hstart.natural, habove⟩
  · obtain ⟨below, hbelow, rfl⟩ := List.mem_map.1 hr
    obtain ⟨hnat, hbehind⟩ := h below hbelow
    obtain ⟨hmoved, hnat⟩ := hd.move_behind hstart.natural hle
      (hbehind pair (by simp)) hnat
    exact ⟨hnat, fun p hp => Position.le_trans (habove p hp) hmoved⟩

/-- A cache realigned for a whole batch is sound on the lines of the new
content except where the settled ranges start. The ranges `rs` are those
of changes further down that the cache was realigned for already. -/
theorem sound_realignedBy {pairs : List (Change × Delta)}
    (rs : List Range) (hd : Described pairs)
    (hs : Stacked c (pairs.map (·.1))) (hrs : Behind rs pairs)
    (h : ∀ i : Nat, (∃ r ∈ rs, r.start.line = i) ∨ k.Sound e c.lines i)
    (i : Nat) :
    (∃ r ∈ rs.map (carry (pairs.map (·.2))) ++ settledAll pairs,
        r.start.line = i)
      ∨ (realignedBy k (pairs.map (·.2))).Sound e
        (Document.spliceAll c (pairs.map (·.1))).lines i := by
  induction pairs generalizing c k rs with
  | nil =>
      refine (h i).imp_left fun ⟨r, hr, hri⟩ => ⟨r, ?_, hri⟩
      rw [List.mem_append, List.mem_map]
      exact .inl ⟨r, hr, rfl⟩
  | cons pair upper ih =>
      obtain ⟨hstart, hstop, hle⟩ := hs.head
      have hself := (hd pair (by simp)).2
      have hstep : ∀ i : Nat, (∃ r ∈ pair.2.replacement
            :: rs.map (movedBy pair.2), r.start.line = i) ∨ _ := fun i =>
        (sound_realign hself hstart hstop hle
          (fun r hr => (hrs r hr).2 pair (by simp)) h i).imp_left <| by
        rintro (hfirst | ⟨r, hr, hri⟩)
        · refine ⟨_, List.mem_cons_self .., ?_⟩
          rw [hself.replacement_eq hle, hfirst]
        · exact ⟨_, List.mem_cons_of_mem _ (List.mem_map_of_mem hr), hri⟩
      refine (ih _ (fun p hp => hd p (by simp [hp])) hs.tail
        (hrs.step hself hs) hstep).imp_left fun ⟨r, hr, hri⟩ =>
          ⟨r, ?_, hri⟩
      rw [List.map_cons, List.map_map, List.mem_append,
        List.mem_cons] at hr
      rw [List.mem_append]
      rcases hr with (rfl | hr) | hr
      · exact .inr (List.mem_cons_self ..)
      · exact .inl hr
      · exact .inr (List.mem_cons_of_mem _ hr)

end

-- =========================================================== the work

variable {d : Document} {e : Engine} {b : Bench} {strict : Bool}
  {pairs : List (Change × Delta)} {pending : Nat → Prop}

/-- Where the changes have deltas, realigning goes through. -/
theorem ends_realignAll (hd : Described pairs)
    {returns : List (Change × Delta) → Bench → Prop}
    {fails : Fault → Bench → Prop}
    (h : returns pairs
      { b with cache := realignedBy b.cache (pairs.map (·.2)) }) :
    Ends (realignAll d e strict (pairs.map (·.1))) b returns fails := by
  induction pairs generalizing b returns with
  | nil => exact .pure h
  | cons pair upper ih =>
      rw [List.map_cons, realignAll, (hd pair (by simp)).1]
      exact .bind (.onCache (.bind
        (ih (fun p hp => hd p (by simp [hp])) (.pure h))))

/-- Mending the spans settles the lines they start on. It fails in strict
mode only. -/
theorem ends_mendSpans
    (h : b.cache.SoundBut e d.lines fun i => pending i
      ∨ ∃ r ∈ settledAll pairs, (d.content.clampRange r).start.line = i) :
    Ends (mendSpans d e strict pairs) b
      (fun _ b' => b'.cache.SoundBut e d.lines pending)
      (fun fault b' => strict = true ∧ Breaks d e pending fault b') := by
  induction pairs generalizing b with
  | nil =>
      refine .pure (h.mono fun i _ hp => hp.resolve_right ?_)
      rintro ⟨r, hr, -⟩
      cases hr
  | cons pair upper ih =>
      have h : b.cache.SoundBut e d.lines fun i => (pending i
            ∨ ∃ r ∈ settledAll upper,
              (d.content.clampRange r).start.line = i)
          ∨ (d.content.clampRange (settledRange pair.2
            (upper.map (·.2)))).start.line = i := by
        apply h.mono
        intro i _ hp
        rcases hp with hp | ⟨r, hr, hri⟩
        · exact .inl (.inl hp)
        · rcases List.mem_cons.1 hr with rfl | hr
          · exact .inr hri
          · exact .inl (.inr ⟨r, hr, hri⟩)
      refine .bind (.attempt ((ends_mendRange h).mono ?_ ?_))
      · exact fun _ _ hb => .bind (.onTrace (ih hb))
      · refine fun _ _ hb => .bind ((ends_skip hb).mono
          (fun _ _ h' => ih h') ?_)
        intro _ _ h'
        exact ⟨h'.1, h'.2.mono fun _ _ hp => hp.elim⟩

/-- Cut down to the document, a cache that is sound on its lines but for
the pending ones is sound but for these. -/
theorem soundBut_take {c : StateCache}
    (h : ∀ i : Nat, i < d.lineCount → pending i ∨ c.Sound e d.lines i) :
    (c.take d.lineCount).SoundBut e d.lines pending := by
  refine ⟨?_, fun i => ?_⟩
  · rw [StateCache.size_take]
    exact Nat.min_le_left ..
  · by_cases hi : i < d.lineCount
    · exact (h i hi).imp_right fun hs => hs.take hi
    · exact .inr (StateCache.sound_of_length_le (Nat.not_lt.1 hi))

/-- Mending after a batch leaves pending what was pending before, if the
realigned cache is sound but for that and for the lines on which the
settled ranges start. -/
theorem ends_mendBatch {changes : List Change}
    (hpairs : pairs.map (·.1) = bottomUp changes) (hd : Described pairs)
    (h : ∀ i : Nat, i < d.lineCount → (pending i
        ∨ ∃ r ∈ settledAll pairs,
          (d.content.clampRange r).start.line = i)
      ∨ (realignedBy b.cache (pairs.map (·.2))).Sound e d.lines i) :
    Ends (mendBatch d e strict changes) b
      (fun _ b' => b'.cache.SoundBut e d.lines pending)
      (fun fault b' => strict = true ∧ Breaks d e pending fault b') := by
  unfold mendBatch
  rw [← hpairs]
  exact .bind (ends_realignAll hd (.bind (.onCache (ends_mendSpans
    (soundBut_take h)))))

/-- The settled ranges of stacked changes lie in the content that
splicing them in leads to. -/
theorem clampRange_settledAll {c : Content} (hd : Described pairs)
    (hs : Stacked c (pairs.map (·.1))) :
    ∀ r ∈ settledAll pairs,
      (Document.spliceAll c (pairs.map (·.1))).clampRange r = r := by
  induction pairs generalizing c with
  | nil => exact fun _ h => absurd h (by simp [settledAll])
  | cons pair upper ih =>
      intro r hr
      rcases List.mem_cons.1 hr with rfl | hr
      · exact (holds_settledRange hd hs).textIn_eq.1
      · exact ih (fun p hp => hd p (by simp [hp])) hs.tail r hr

/-- A cache that is sound for a document, realigned for a batch, is sound
for the next one except on the lines on which the settled ranges
start. -/
theorem sound_realignedBy_of_apply {d' : Document} {c : StateCache}
    {changes applied : List Change}
    (happly : d.apply changes = .ok (d', applied))
    (hpairs : pairs.map (·.1) = bottomUp applied) (hd : Described pairs)
    (h : c.SoundBut e d.lines fun _ => False) (i : Nat) :
    (False ∨ ∃ r ∈ settledAll pairs,
        (d'.content.clampRange r).start.line = i)
      ∨ (realignedBy c (pairs.map (·.2))).Sound e d'.lines i := by
  obtain ⟨-, hs, -, hcontent⟩ := Document.apply_eq_ok happly
  rw [← hpairs] at hs hcontent
  have hsound := sound_realignedBy [] hd hs
    (fun _ hr => absurd hr (by simp))
    (fun i => .inr ((h.sound i).resolve_left id)) i
  rw [← hcontent] at hsound
  refine hsound.imp_left fun ⟨r, hr, hri⟩ => .inr ⟨r, hr, ?_⟩
  rw [hcontent, clampRange_settledAll hd hs r hr, hri]

/-- A cache that is sound for a document is sound for the next one, once
it was mended after the batch between them; also if that fails. -/
theorem ends_mendBatch_of_apply {d' : Document}
    {changes applied : List Change}
    (happly : d.apply changes = .ok (d', applied))
    (h : b.cache.SoundBut e d.lines fun _ => False) :
    Ends (mendBatch d' e strict applied) b
      (fun _ b' => b'.cache.SoundBut e d'.lines fun _ => False)
      (fun fault b' => strict = true
        ∧ Breaks d' e (fun _ => False) fault b') := by
  obtain ⟨-, hs, -, -⟩ := Document.apply_eq_ok happly
  obtain ⟨pairs, hpairs, hd⟩ := exists_described hs.isValid
  exact ends_mendBatch hpairs hd fun i _ =>
    sound_realignedBy_of_apply happly hpairs hd h i

/-- Mending after well-formed changes goes through, whatever the cache
and the document hold, unless the engine fails in strict mode. -/
theorem mendBatch_ok {changes : List Change}
    (he : strict = true → e.Total)
    (h : ∀ change ∈ changes, change.range.IsValid) :
    ((mendBatch d e strict changes).on b).1 = .ok () := by
  obtain ⟨pairs, hpairs, hd⟩ := exists_described
    fun change hc => h change ((bottomUp_perm changes).mem_iff.1 hc)
  have hends : Ends (mendBatch d e strict changes) b _
      (fun fault b' => strict = true
        ∧ Breaks d e (fun _ => True) fault b') :=
    ends_mendBatch hpairs hd fun _ _ => .inl (.inl trivial)
  rcases hends.elim with ⟨_, _, hw, -⟩ | ⟨_, _, -, hstrict, hnot, -⟩
  · rw [show (mendBatch d e strict changes).on b = _ from hw]
  · exact absurd (he hstrict) hnot

end Reparse

end Relex
