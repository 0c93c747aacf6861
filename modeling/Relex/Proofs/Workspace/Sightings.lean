/-
What watchers see of a run of edits.

A watcher notes each batch it is called with. So what it has noted after
a run of edits is what it had noted before, and then what the history of
the run says it heard (`Edits.noticed`). Histories are thereby held
against what can be observed.
-/
import Relex.Proofs.Workspace.Rounds

namespace Relex.Workspace

variable {ws ws' : Workspace} {buffer b : Nat} {changes : List Change}
  {plans : List Plan} {agenda : List Delivery} {story : List Happening}
  {result : Except Fault Unit × Workspace}
  {edits : List (Nat × List Change)}

-- ============================================================ sightings

/-- The batches a watcher noted for a buffer. -/
def noticed (w b : Nat) (ws : Workspace) : List (List Change) :=
  ws.sightings.filterMap fun s =>
    if s.watcher = w ∧ s.buffer = b then some s.changes else none

theorem sightings_unsubscribe (ws : Workspace) (i : Nat) :
    (ws.unsubscribe i).sightings = ws.sightings := by
  unfold unsubscribe
  split
  · rfl
  · split <;> rfl

/-- Habits leave alone what was seen. -/
theorem keeps_follow (seen : List Sighting) (habits : List Habit) :
    (habits.forM (follow buffer)).Keeps (·.sightings = seen) := by
  refine Act.Keeps.forM ?_
  intro habit _
  cases habit with
  | dispose i =>
      refine Act.keeps_modify fun ws h => ?_
      rw [sightings_unsubscribe]
      exact h
  | subscribe w => exact Act.keeps_modify fun _ h => h
  | fail words => exact Act.keeps_throw _

/-- Calling a controller is nothing that is seen. -/
theorem sightings_callController {i : Nat} {outcome : Except Fault Unit}
    (hon : (deliver ⟨.controller i, buffer, changes⟩).on ws
      = (outcome, ws')) : ws'.sightings = ws.sightings := by
  have hkeeps : (deliver ⟨.controller i, buffer, changes⟩).Keeps
      (·.sightings = ws.sightings) := by
    refine deliver_keeps ?_ ?_ (fun _ _ _ h => h)
      (fun _ _ _ _ _ _ _ _ h => h)
    · intro _ _ _ hw
      cases hw
    · intro ws' j h
      rw [sightings_unsubscribe]
      exact h
  exact hkeeps.left rfl hon

/-- A watcher that is called notes the batch. -/
theorem sightings_callWatcher {w : Nat} {watcher : Watcher} {d : Document}
    {outcome : Except Fault Unit} (hw : ws.watchers[w]? = some watcher)
    (hd : ws.document? buffer = some d)
    (hon : (deliver ⟨.watcher w, buffer, changes⟩).on ws
      = (outcome, ws')) :
    ws'.sightings = ws.sightings
      ++ [⟨w, buffer, d.version, d.content.text, changes⟩] := by
  have hfollow : (callWatcher w buffer changes).on ws
      = (watcher.habits.forM (follow buffer)).on { ws with
          sightings := ws.sightings
            ++ [⟨w, buffer, d.version, d.content.text, changes⟩] } := by
    unfold callWatcher
    rw [Act.on_bind, Act.on_get]
    dsimp only
    rw [Act.on_bind, Act.on_get]
    dsimp only
    rw [hw, hd, Act.on_bind, Act.on_modify]
  exact (keeps_follow _ _).left rfl (hfollow.symm.trans hon)

/-- A watcher that is not there notes nothing. -/
theorem sightings_callWatcher_of_none {w : Nat}
    {outcome : Except Fault Unit}
    (h : ws.watchers[w]? = none ∨ ws.document? buffer = none)
    (hon : (deliver ⟨.watcher w, buffer, changes⟩).on ws
      = (outcome, ws')) : ws'.sightings = ws.sightings := by
  have hnothing : (callWatcher w buffer changes).on ws = (.ok (), ws) := by
    unfold callWatcher
    rw [Act.on_bind, Act.on_get]
    dsimp only
    rw [Act.on_bind, Act.on_get]
    dsimp only
    split
    · next hw hd =>
      rcases h with h | h
      · rw [h] at hw
        cases hw
      · rw [h] at hd
        cases hd
    · rfl
  have : (.ok (), ws) = (outcome, ws') := hnothing.symm.trans hon
  cases this
  rfl

/-- A call is noted by the watcher it is for, and by nobody else. -/
theorem noticed_deliver {w : Nat} {d : Delivery}
    {outcome : Except Fault Unit} (hw : (ws.watchers[w]?).isSome)
    (hd : (ws.document? b).isSome)
    (hon : (deliver d).on ws = (outcome, ws')) :
    noticed w b ws'
      = noticed w b ws ++ (d.toward? (.watcher w) b).toList := by
  obtain ⟨listener, buffer, changes⟩ := d
  unfold noticed Delivery.toward?
  cases listener with
  | controller i =>
      rw [sightings_callController hon]
      simp
  | watcher w' =>
      by_cases hthere : (ws.watchers[w']?).isSome
          ∧ (ws.document? buffer).isSome
      · obtain ⟨watcher, hwatcher⟩ := Option.isSome_iff_exists.1 hthere.1
        obtain ⟨doc, hdoc⟩ := Option.isSome_iff_exists.1 hthere.2
        rw [sightings_callWatcher hwatcher hdoc hon,
          List.filterMap_append]
        by_cases hfor : w' = w ∧ buffer = b <;> simp [hfor]
      · have hnone : ws.watchers[w']? = none
            ∨ ws.document? buffer = none := by
          by_cases hw' : (ws.watchers[w']?).isSome
          · right
            simpa [hw'] using hthere
          · left
            simpa using hw'
        rw [sightings_callWatcher_of_none hnone hon, if_neg]
        · simp
        · rintro ⟨hw', hb⟩
          cases hw'
          subst hb
          exact hthere ⟨hw, hd⟩

theorem Batch.there {taking : List Happening} {nested : List Delivery}
    (h : Batch ws buffer changes taking nested ws')
    (hd : (ws.document? b).isSome) :
    (ws'.document? b).isSome ∧ ws'.watchers = ws.watchers
      ∧ ws'.sightings = ws.sightings := by
  obtain ⟨d, hd⟩ := Option.isSome_iff_exists.1 hd
  obtain ⟨d', hd', -⟩ := h.replays hd
  refine ⟨by rw [hd']; rfl, ?_⟩
  cases h <;> exact ⟨rfl, rfl⟩

/-- What a watcher notes in a round is what it is called with. -/
theorem Round.noticed {w : Nat} (h : Round plans agenda ws story result)
    (hw : (ws.watchers[w]?).isSome) (hd : (ws.document? b).isSome) :
    result.2.watchers = ws.watchers
      ∧ Workspace.noticed w b result.2
        = Workspace.noticed w b ws ++ heard (.watcher w) b story := by
  induction h with
  | done => simp [Workspace.noticed]
  | fails hon =>
      refine ⟨(deliver_frame hon).2, ?_⟩
      exact (noticed_deliver hw hd hon).trans (by simp)
  | refused hon =>
      refine ⟨(deliver_frame hon).2, ?_⟩
      exact (noticed_deliver hw hd hon).trans (by simp)
  | goesOn hon hplan hrest ih =>
      obtain ⟨hdocs, hwatchers⟩ := deliver_frame hon
      obtain ⟨hwatchers', hseen⟩ :=
        ih (hwatchers ▸ hw) ((hdocs b).symm ▸ hd)
      refine ⟨hwatchers'.trans hwatchers, ?_⟩
      rw [hseen, noticed_deliver hw hd hon, heard_called,
        List.append_assoc]
  | nests hon hplan hbatch hrest ih =>
      obtain ⟨hdocs, hwatchers⟩ := deliver_frame hon
      obtain ⟨hthere, hkept, hsame⟩ :=
        hbatch.there ((hdocs b).symm ▸ hd)
      obtain ⟨hwatchers', hseen⟩ :=
        ih ((hkept.trans hwatchers).symm ▸ hw) hthere
      refine ⟨hwatchers'.trans (hkept.trans hwatchers), ?_⟩
      have hbefore := noticed_deliver hw hd hon
      unfold Workspace.noticed at hseen hbefore ⊢
      rw [hseen, hsame, hbefore, heard_called, heard_append,
        hbatch.heard_eq_nil, List.nil_append, List.append_assoc]

/-- What a watcher notes in a run of edits is what it is called with. -/
theorem Edits.noticed {w : Nat} (h : Edits edits ws story ws')
    (hw : (ws.watchers[w]?).isSome) (hd : (ws.document? b).isSome) :
    Workspace.noticed w b ws'
      = Workspace.noticed w b ws ++ heard (.watcher w) b story := by
  induction h with
  | nil => simp
  | refused happly hrest ih => exact ih hw hd
  | taken hbatch hround hrest ih =>
      obtain ⟨hthere, hkept, hsame⟩ := hbatch.there hd
      obtain ⟨hwatchers, hseen⟩ :=
        hround.noticed (b := b) (hkept.symm ▸ hw) hthere
      obtain ⟨d, hdoc⟩ := Option.isSome_iff_exists.1 hthere
      obtain ⟨d', hdoc', -⟩ := hround.replays hdoc
      have hothers := ih ((hwatchers.trans hkept).symm ▸ hw)
        (hdoc' ▸ rfl)
      unfold Workspace.noticed at hseen hothers ⊢
      rw [hothers, hseen, hsame, heard_append, heard_append,
        hbatch.heard_eq_nil, List.nil_append, List.append_assoc]

end Relex.Workspace
