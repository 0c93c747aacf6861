/-
Lists and registrations agree.

Each registration puts its listener on the list of a buffer once, and
takes one entry off again when it is disposed of. So in a workspace that
was empty once, a listener is on a list as often as it has registrations
there that are live (`Booked`), whoever disposed of whatever.

A controller that is listed once thus has a live registration
(`Booked.exists_live`), and one whose registrations are all disposed of is
on no list (`Booked.unlisted`).
-/
import Relex.Proofs.Workspace.Rounds

namespace Relex.Workspace

/-- How many live registrations a listener has with a buffer. -/
def live (registrations : List Registration) (b : Nat) (l : Listener) :
    Nat :=
  registrations.countP fun s => s.live ∧ s.buffer = b ∧ s.listener = l

/-- A listener is listed as often as it has live registrations. -/
structure Booked (ws : Workspace) : Prop where
  listed : ∀ (b : Nat) (buffer : Buffer) (l : Listener),
    ws.buffers[b]? = some buffer →
      buffer.listeners.count l = live ws.registrations b l

variable {ws ws' : Workspace} {b : Nat} {l : Listener}

namespace Booked

theorem empty : Workspace.empty.Booked :=
  ⟨fun _ _ _ hb => by cases hb⟩

/-- Only lists and registrations matter. -/
theorem congr (h : ws.Booked)
    (hb : ∀ (b : Nat) (buffer' : Buffer), ws'.buffers[b]? = some buffer' →
      ∃ buffer, ws.buffers[b]? = some buffer
        ∧ buffer'.listeners = buffer.listeners)
    (hr : ws'.registrations = ws.registrations) : ws'.Booked := by
  refine ⟨?_⟩
  intro b buffer' l hbuffer'
  obtain ⟨buffer, hbuffer, hlisteners⟩ := hb b buffer' hbuffer'
  rw [hlisteners, hr]
  exact h.listed b buffer l hbuffer

/-- What is noted down, planned or configured is no matter. -/
theorem of_notes (h : ws.Booked) (hb : ws'.buffers = ws.buffers)
    (hr : ws'.registrations = ws.registrations) : ws'.Booked :=
  h.congr (fun _ buffer hbuffer => ⟨buffer, hb ▸ hbuffer, rfl⟩) hr

/-- With a new document nobody may be registered yet. -/
theorem addBuffer (h : ws.Booked) (d : Document)
    (hnew : ∀ l, live ws.registrations ws.buffers.length l = 0) :
    (ws.addBuffer d).2.Booked := by
  refine ⟨?_⟩
  intro b buffer l hb
  rcases getElem?_concat_eq_some hb with hb | ⟨rfl, rfl⟩
  · exact h.listed b buffer l hb
  · exact (hnew l).symm

/-- Who is registered is put on the list. -/
theorem subscribe (h : ws.Booked) (i : Nat) (l : Listener) :
    (ws.subscribe i l).2.Booked := by
  refine ⟨?_⟩
  intro b buffer l' hb
  have hb : (ws.buffers.modify i (relist (· ++ [l])))[b]?
      = some buffer := hb
  rw [List.getElem?_modify] at hb
  obtain ⟨old, hold, rfl⟩ := Option.map_eq_some_iff.1 hb
  have hold := h.listed b old l' hold
  show _ = live (ws.registrations ++ [⟨i, l, true⟩]) b l'
  unfold live at hold ⊢
  rw [List.countP_append, ← hold]
  by_cases hi : i = b <;> by_cases hl : l = l' <;> simp [relist, hi, hl]

/-- A registration that is disposed of takes one entry with it; one that
was disposed of before, none. -/
theorem unsubscribe (h : ws.Booked) (i : Nat) :
    (ws.unsubscribe i).Booked := by
  unfold Workspace.unsubscribe
  cases hs : ws.registrations[i]? with
  | none => exact h
  | some s =>
      dsimp only
      split
      · next hlive =>
        refine ⟨?_⟩
        intro b buffer l hb
        have hb : (ws.buffers.modify s.buffer
            (relist (·.erase s.listener)))[b]? = some buffer := hb
        rw [List.getElem?_modify] at hb
        obtain ⟨old, hold, rfl⟩ := Option.map_eq_some_iff.1 hb
        have hold := h.listed b old l hold
        obtain ⟨hi, hget⟩ := List.getElem?_eq_some_iff.1 hs
        show _ = live (ws.registrations.set i _) b l
        unfold live at hold ⊢
        rw [List.countP_set hi, ← hold, hget]
        by_cases hb : s.buffer = b <;> by_cases hl : s.listener = l <;>
          simp [relist, hlive, hb, hl, List.count_erase]
      · exact h

theorem retire (h : ws.Booked) (i : Nat) : (ws.retire i).Booked :=
  retire_keeps h (fun _ r _ _ => h.unsubscribe r)
    fun _ h => h.of_notes rfl rfl

theorem applyBatch (h : ws.Booked) {changes applied : List Change}
    {nested : List Delivery}
    (happly : ws.applyBatch b changes = .ok (applied, nested, ws')) :
    ws'.Booked := by
  have hbatch := batch_taking happly
  generalize ws.taking b applied = taking at hbatch
  cases hbatch with
  | absent hb => exact h
  | @taken old d applied hb happly =>
      refine h.congr ?_ rfl
      intro j buffer' hbuffer'
      rw [List.getElem?_set] at hbuffer'
      split at hbuffer'
      · next hj =>
        subst hj
        split at hbuffer'
        · cases hbuffer'
          exact ⟨old, hb, rfl⟩
        · cases hbuffer'
      · exact ⟨buffer', hbuffer', rfl⟩

theorem edit (h : ws.Booked) (b : Nat) (changes : List Change) :
    ((Workspace.edit b changes).on ws).2.Booked := by
  refine edit_keeps (fun _ _ h => h.of_notes rfl rfl) ?_
    (fun _ _ _ _ _ _ h happly => h.applyBatch happly) b changes ws h
  intro d
  exact deliver_keeps (fun _ _ _ _ h => h.of_notes rfl rfl)
    (fun _ i h => h.unsubscribe i)
    (fun _ b w h => h.subscribe b (.watcher w))
    fun _ _ _ _ _ _ _ _ h => h.of_notes rfl rfl

-- ======================================================= what it comes to

/-- Who is listed has a live registration. -/
theorem exists_live (h : ws.Booked) {buffer : Buffer}
    (hb : ws.buffers[b]? = some buffer) (hl : l ∈ buffer.listeners) :
    ∃ i : Nat, ws.registrations[i]? = some ⟨b, l, true⟩ := by
  have hpos : 0 < live ws.registrations b l := by
    rw [← h.listed b buffer l hb]
    exact List.count_pos_iff.2 hl
  obtain ⟨⟨b', l', on⟩, hs, hon⟩ := List.countP_pos_iff.1 hpos
  obtain ⟨i, hi⟩ := List.mem_iff_getElem?.1 hs
  obtain ⟨rfl, rfl, rfl⟩ := of_decide_eq_true hon
  exact ⟨i, hi⟩

/-- Who has no live registration is not listed. -/
theorem unlisted (h : ws.Booked) {buffer : Buffer}
    (hb : ws.buffers[b]? = some buffer)
    (hl : ∀ s ∈ ws.registrations, s.listener = l → s.live = false) :
    l ∉ buffer.listeners := by
  intro hmem
  obtain ⟨i, hi⟩ := h.exists_live hb hmem
  cases hl _ (List.mem_of_getElem? hi) rfl

end Booked

end Relex.Workspace
