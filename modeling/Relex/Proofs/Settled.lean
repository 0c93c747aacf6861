/-
Where the replacements of a batch end up.

After a batch each change's replacement has to be found again in the new
document: the range it took up when it was spliced in, moved through the
deltas of the changes further up, which were spliced in after it. That
this is exact is said with `Holds`: a range of a content that holds
certain lines, cut out of the content's lines at both ends.

- A splice puts the lines of its text where its delta says
  (`holds_replacement`).
- A splice further up moves a range along with what it holds
  (`Holds.carry`). The range's start may lie right where the splice's
  range ends; both its ends then move.

The deltas are all in coordinates from before the batch, and the
positions that go through them in coordinates of a batch half applied.
That does no harm because a position behind the replaced range is moved
by how far it lies behind that range's end, which both coordinates agree
on: what is spliced in further down changes nothing up to there.
-/
import Mathlib
import Relex.Proofs.Batch
import Relex.Reparse

namespace Relex

open Text

namespace Content

-- ============================================================ holding

/-- The range lies in the content, its ends in order, and these are the
lines between them. -/
def Holds (c : Content) (r : Range) (ls : List Line) : Prop :=
  ∃ above below, above ≠ [] ∧ ls ≠ [] ∧ below ≠ []
    ∧ c.lines = glue above (glue ls below)
    ∧ r = ⟨extent above, (extent above).reach (extent ls)⟩

variable {c : Content} {r : Range} {ls : List Line}

theorem Holds.ordered (h : c.Holds r ls) :
    c.InBounds r.start ∧ c.InBounds r.stop ∧ r.start ≤ r.stop := by
  obtain ⟨above, below, ha, hl, hb, hlines, rfl⟩ := h
  refine ⟨inBounds_extent ha (glue_ne_nil hl) hlines, ?_,
    Position.le_reach _ (natural_extent ls)⟩
  rw [← glue_assoc] at hlines
  have := inBounds_extent (glue_ne_nil ha) hb hlines
  rwa [extent_glue] at this

/-- Clamping does nothing to a range that holds lines of the content,
and the text in the range is theirs. -/
theorem Holds.textIn_eq (h : c.Holds r ls) :
    c.clampRange r = r ∧ c.textIn r = joinLines ls := by
  obtain ⟨hstart, hstop, hle⟩ := h.ordered
  refine ⟨clampRange_of_inBounds hstart hstop hle, ?_⟩
  rw [Content.textIn_eq hstart hstop hle]
  obtain ⟨above, below, ha, hl, hb, hlines, rfl⟩ := h
  have honward := onward_extent ha (glue_ne_nil hl) hlines
  have hcut := glue_between_onward hstart hstop hle
  rw [← glue_assoc] at hlines
  have hrest := onward_extent (glue_ne_nil ha) hb hlines
  rw [extent_glue] at hrest
  dsimp only at hcut ⊢
  rw [honward, hrest] at hcut
  have hjoin := congrArg joinLines hcut
  rw [joinLines_glue, joinLines_glue] at hjoin
  exact List.append_cancel_right hjoin

/-- What a splice puts in stands where its delta says. -/
theorem holds_replacement {change : Change} {d : Delta}
    (hd : d.Describes change.range change.text)
    (hstart : c.InBounds change.range.start)
    (hle : change.range.start ≤ change.range.stop) :
    (c.splice change.range change.text).Holds d.replacement
      (Text.lines change.text) := by
  refine ⟨c.upTo change.range.start, c.onward change.range.stop,
    c.upTo_ne_nil _, Text.lines_ne_nil _, c.onward_ne_nil _,
    c.lines_splice _ _, ?_⟩
  rw [hd.replacement_eq hle, extent_upTo hstart]

/-- A splice that ends at or before the start of a range moves the range
along with what it holds, to somewhere at or behind its own start. -/
theorem Holds.carry (h : c.Holds r ls) {change : Change} {d : Delta}
    (hd : d.Describes change.range change.text)
    (hstart : c.InBounds change.range.start)
    (hstop : c.InBounds change.range.stop)
    (hle : change.range.start ≤ change.range.stop)
    (hup : change.range.stop ≤ r.start) :
    (c.splice change.range change.text).Holds
        ⟨d.move r.start, d.move r.stop⟩ ls
      ∧ change.range.start ≤ d.move r.start := by
  have hin := h.ordered.1
  obtain ⟨above, below, ha, hl, hb, hlines, rfl⟩ := h
  dsimp only at hup hin ⊢
  have hls := natural_extent ls
  have hgap := extent_between hstop hin hup
  have hnat := natural_extent (c.between change.range.stop (extent above))
  have hcut := glue_between_onward hstop hin hup
  rw [onward_extent ha (glue_ne_nil hl) hlines] at hcut
  generalize c.between change.range.stop (extent above) = gap
    at hgap hnat hcut
  have hnew := natural_extent (Text.lines change.text)
  have hmove : d.move (extent above)
      = extent (glue (c.upTo change.range.start)
        (glue (Text.lines change.text) gap)) := by
    rw [← hgap, hd.move_reach hle hnat, extent_glue, extent_glue,
      extent_upTo hstart, Position.reach_assoc _ hnew.1 hnat.1]
  have hmove' : d.move ((extent above).reach (extent ls))
      = (d.move (extent above)).reach (extent ls) := by
    rw [← hgap, Position.reach_assoc _ hnat.1 hls.1,
      hd.move_reach hle (hnat.reach hls), hd.move_reach hle hnat,
      Position.reach_assoc _ hnat.1 hls.1]
  refine ⟨⟨glue (c.upTo change.range.start)
      (glue (Text.lines change.text) gap), below,
    glue_ne_nil (c.upTo_ne_nil _), hl, hb, ?_, ?_⟩, ?_⟩
  · rw [lines_splice, ← hcut, glue_assoc, glue_assoc]
  · rw [hmove', hmove]
  · rw [hmove, extent_glue, extent_upTo hstart]
    exact Position.le_reach _ (natural_extent _)

end Content

-- ======================================================== whole batches

namespace Reparse

open Content Change

/-- Each change is listed with its own delta. -/
def Described (pairs : List (Change × Delta)) : Prop :=
  ∀ pair ∈ pairs, Delta.ofReplacement pair.1.range pair.1.text = .ok pair.2
    ∧ pair.2.Describes pair.1.range pair.1.text

/-- Changes have deltas unless their ranges are malformed. -/
theorem exists_described {changes : List Change}
    (h : ∀ change ∈ changes, change.range.IsValid) :
    ∃ pairs : List (Change × Delta),
      pairs.map (·.1) = changes ∧ Described pairs := by
  induction changes with
  | nil => exact ⟨[], rfl, fun _ h => absurd h (by simp)⟩
  | cons change upper ih =>
      obtain ⟨pairs, hpairs, hall⟩ := ih fun u hu => h u (by simp [hu])
      obtain ⟨d, hok, hd⟩ :=
        Delta.exists_ofReplacement (h change (by simp)) change.text
      refine ⟨(change, d) :: pairs, by rw [List.map_cons, hpairs], ?_⟩
      exact List.forall_mem_cons.2 ⟨⟨hok, hd⟩, hall⟩

/-- A range moved through the deltas of changes further up, the nearest
of them first. -/
def carry (upper : List Delta) (r : Range) : Range :=
  upper.foldl (fun r d => ⟨d.move r.start, d.move r.stop⟩) r

/-- Changes further up, all of them, move a range along with what it
holds. -/
theorem holds_carry {c : Content} {r : Range} {ls : List Line}
    {upper : List (Change × Delta)} (h : c.Holds r ls)
    (hd : Described upper) (hs : Stacked c (upper.map (·.1)))
    (hup : ∀ pair ∈ upper, pair.1.range.stop ≤ r.start) :
    (Document.spliceAll c (upper.map (·.1))).Holds
      (carry (upper.map (·.2)) r) ls := by
  induction upper generalizing c r with
  | nil => exact h
  | cons pair upper ih =>
      obtain ⟨hstart, hstop, hle⟩ := hs.head
      obtain ⟨hnext, hbehind⟩ := h.carry (hd pair (by simp)).2 hstart hstop
        hle (hup pair (by simp))
      refine ih hnext (fun p hp => hd p (by simp [hp])) hs.tail ?_
      intro p hp
      exact Position.le_trans
        (hs.above p.1 (List.mem_map_of_mem hp)) hbehind

/-- Once the batch is applied from a change on upwards, the change's
settled range holds the lines of its text. -/
theorem holds_settledRange {c : Content} {pair : Change × Delta}
    {upper : List (Change × Delta)} (hd : Described (pair :: upper))
    (hs : Stacked c ((pair :: upper).map (·.1))) :
    (Document.spliceAll c ((pair :: upper).map (·.1))).Holds
      (settledRange pair.2 (upper.map (·.2))) (lines pair.1.text) := by
  obtain ⟨hstart, hstop, hle⟩ := hs.head
  have hself := (hd pair (by simp)).2
  refine holds_carry (holds_replacement hself hstart hle)
    (fun p hp => hd p (by simp [hp])) hs.tail ?_
  intro p hp
  rw [hself.replacement_eq hle]
  exact hs.above p.1 (List.mem_map_of_mem hp)

theorem mapM_described {pairs : List (Change × Delta)}
    (h : Described pairs) :
    (pairs.map (·.1)).mapM (fun u => Delta.ofReplacement u.range u.text)
      = .ok (pairs.map (·.2)) := by
  induction pairs with
  | nil => rfl
  | cons pair pairs ih =>
      rw [List.map_cons, List.mapM_cons, (h pair (by simp)).1,
        ih fun p hp => h p (by simp [hp])]
      rfl

-- ========================================================= the theorem

/-- The settled range of every change of an accepted batch is exact: it
lies in the new document, and the text there is the text of the change,
whatever the other changes of the batch are. -/
theorem settledRange_exact {d d' : Document}
    {changes applied : List Change}
    (h : d.apply changes = .ok (d', applied)) :
    (bottomUp applied).Perm applied
      ∧ ∀ (lower : List Change) (change : Change) (upper : List Change),
        bottomUp applied = lower ++ change :: upper →
        ∃ delta deltas,
          Delta.ofReplacement change.range change.text = .ok delta
            ∧ upper.mapM (fun u => Delta.ofReplacement u.range u.text)
              = .ok deltas
            ∧ d'.content.clampRange (settledRange delta deltas)
              = settledRange delta deltas
            ∧ d'.content.textIn (settledRange delta deltas)
              = joinLines (lines change.text) := by
  obtain ⟨-, hstacked, -, hcontent⟩ := Document.apply_eq_ok h
  refine ⟨bottomUp_perm applied, ?_⟩
  intro lower change upper hsplit
  rw [hsplit] at hstacked hcontent
  have hs := Document.stacked_spliceAll hstacked
  -- the changes above are those applied later, with their deltas
  obtain ⟨pairs, hpairs, hd⟩ := exists_described hs.isValid
  obtain ⟨pair, pairs, rfl⟩ := List.exists_cons_of_ne_nil
    (show pairs ≠ [] by rintro rfl; simp at hpairs)
  obtain ⟨rfl, rfl⟩ := List.cons.inj hpairs
  have hholds := (holds_settledRange hd hs).textIn_eq
  rw [Document.spliceAll_append] at hcontent
  refine ⟨pair.2, pairs.map (·.2), (hd pair (by simp)).1,
    mapM_described fun p hp => hd p (by simp [hp]), ?_⟩
  rw [hcontent]
  exact hholds

/-- A replacement that starts where another change inserts: it settles
behind what is inserted, on other lines than it was spliced in on. -/
theorem settledRange_exact_sibling :
    ∃ d d' : Document, ∃ changes applied upper : List Change,
      ∃ change : Change, d.apply changes = .ok (d', applied)
        ∧ bottomUp applied = change :: upper
        ∧ ∃ delta deltas,
          Delta.ofReplacement change.range change.text = .ok delta
            ∧ upper.mapM (fun u => Delta.ofReplacement u.range u.text)
              = .ok deltas
            ∧ d'.content.textIn (settledRange delta deltas)
              = "\ny".toList := by
  have h : (Document.new "untitled:document" "plaintext"
        "ab\ncd".toList).apply
      [⟨⟨⟨0, 1⟩, ⟨0, 1⟩⟩, "x\r".toList⟩, ⟨⟨⟨0, 1⟩, ⟨1, 1⟩⟩, "\ny".toList⟩]
      = .ok (⟨"untitled:document", "plaintext", 1,
          .ofText "ax\n\nyd".toList⟩,
        [⟨⟨⟨0, 1⟩, ⟨0, 1⟩⟩, "x\r".toList⟩,
          ⟨⟨⟨0, 1⟩, ⟨1, 1⟩⟩, "\ny".toList⟩]) := by cbv
  have hsplit : bottomUp
      [⟨⟨⟨0, 1⟩, ⟨0, 1⟩⟩, "x\r".toList⟩, ⟨⟨⟨0, 1⟩, ⟨1, 1⟩⟩, "\ny".toList⟩]
      = [] ++ ⟨⟨⟨0, 1⟩, ⟨1, 1⟩⟩, "\ny".toList⟩
        :: [⟨⟨⟨0, 1⟩, ⟨0, 1⟩⟩, "x\r".toList⟩] := by cbv
  obtain ⟨delta, deltas, hdelta, hdeltas, -, htext⟩ :=
    (settledRange_exact h).2 _ _ _ hsplit
  exact ⟨_, _, _, _, _, _, h, hsplit, delta, deltas, hdelta, hdeltas,
    htext⟩

end Reparse

end Relex
