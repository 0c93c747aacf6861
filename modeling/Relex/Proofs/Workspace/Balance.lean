/-
The books balance.

A registration and the entry it stands for are two things. The list of a
buffer holds listeners, not registrations; disposing of a registration
takes off the first entry that equals its listener, which may have been
put there by another registration of the same listener. Nonetheless the
lists hold at any time just the listeners of the registrations that are
live, each as often (`Balanced`): whatever is registered and disposed of,
how often, in what order, by the host or by listeners that are called.

So a registration that is live finds an entry to take off, and takes off
that one and no other (`Balanced.takesOff`). Once disposed of it stays so
(`stable_discarded`), and disposing of it again does nothing. And in a round
in which nobody fails each listener hears of the batch once for each
registration that was live when the document took it.

All this is said of workspaces in which documents were there before
anybody was registered with them (`Placed`): what is not there has no
list.
-/
import Mathlib
import Relex.Proofs.Workspace.Disposed

namespace Relex.Workspace

-- ============================================================= placing

/-- Who is registered by the deed, or attached, is so with a document that
is there. -/
def Deed.Placed (ws : Workspace) : Deed → Prop
  | .subscribe buffer _ | .attach buffer _ _ =>
    buffer < ws.buffers.length
  | _ => True

/-- So it is for all the deeds of a run. -/
def Placed : List Deed → Workspace → Prop
  | [], _ => True
  | deed :: deeds, ws => deed.Placed ws ∧ Placed deeds (deed.after ws)

-- ============================================================= balance

/-- The listeners of the registrations with a buffer that are live, in the
order of registration. -/
def enlisted (ws : Workspace) (b : Nat) : List Listener :=
  (ws.registrations.filter fun s => s.live ∧ s.buffer = b).map
    (·.listener)

/-- Lists and registrations agree, and each registration is with a
document that is there. -/
structure Balanced (ws : Workspace) : Prop extends Booked ws where
  placed : ∀ s ∈ ws.registrations, s.buffer < ws.buffers.length

variable {ws ws' : Workspace} {b r : Nat} {l : Listener}
  {buffer : Buffer} {s : Registration}

/-- Each is enlisted as often as it has live registrations. -/
theorem count_enlisted (ws : Workspace) (b : Nat) (l : Listener) :
    (ws.enlisted b).count l = live ws.registrations b l := by
  unfold enlisted live
  rw [List.count_eq_countP, List.countP_map, List.countP_filter]
  refine List.countP_congr fun s _ => ?_
  simp only [Function.comp, Bool.and_eq_true, beq_iff_eq, decide_eq_true_eq]
  tauto

/-- The list of a buffer holds the listeners of its live registrations,
each as often. -/
theorem Booked.perm_enlisted (h : ws.Booked)
    (hb : ws.buffers[b]? = some buffer) :
    buffer.listeners.Perm (ws.enlisted b) := by
  refine List.perm_iff_count.2 fun l => ?_
  rw [h.listed b buffer l hb, count_enlisted]

namespace Balanced

theorem empty : Workspace.empty.Balanced :=
  ⟨.empty, fun _ hs => by cases hs⟩

theorem of_notes (h : ws.Balanced) (hb : ws'.buffers = ws.buffers)
    (hr : ws'.registrations = ws.registrations) : ws'.Balanced := by
  refine ⟨h.toBooked.of_notes hb hr, ?_⟩
  rw [hr, hb]
  exact h.placed

/-- A new document has nobody registered with it. -/
theorem addBuffer (h : ws.Balanced) (d : Document) :
    (ws.addBuffer d).2.Balanced := by
  refine ⟨h.toBooked.addBuffer d fun l => ?_, fun s hs => ?_⟩
  · refine List.countP_eq_zero.2 fun s hs => ?_
    have := h.placed s hs
    simp only [decide_eq_true_eq]
    omega
  · have := h.placed s hs
    show s.buffer < (ws.buffers ++ [_]).length
    rw [List.length_append]
    omega

/-- Who is registered with a document that is there is put on its list. -/
theorem subscribe (h : ws.Balanced) (hb : b < ws.buffers.length)
    (l : Listener) : (ws.subscribe b l).2.Balanced := by
  refine ⟨h.toBooked.subscribe b l, fun s hs => ?_⟩
  show s.buffer < (ws.buffers.modify b _).length
  rw [List.length_modify]
  rcases List.mem_append.1 hs with hs | hs
  · exact h.placed s hs
  · obtain rfl := List.mem_singleton.1 hs
    exact hb

theorem length_buffers_unsubscribe (ws : Workspace) (r : Nat) :
    (ws.unsubscribe r).buffers.length = ws.buffers.length := by
  unfold Workspace.unsubscribe
  split
  · rfl
  · split
    · exact List.length_modify ..
    · rfl

/-- What is disposed of comes off the list. -/
theorem unsubscribe (h : ws.Balanced) (r : Nat) :
    (ws.unsubscribe r).Balanced := by
  refine ⟨h.toBooked.unsubscribe r, fun s hs => ?_⟩
  rw [length_buffers_unsubscribe]
  unfold Workspace.unsubscribe at hs
  cases hr : ws.registrations[r]? with
  | none =>
      rw [hr] at hs
      exact h.placed s hs
  | some s₀ =>
      rw [hr] at hs
      dsimp only at hs
      split at hs
      · rcases List.mem_or_eq_of_mem_set hs with hs | rfl
        · exact h.placed s hs
        · exact h.placed s₀ (List.mem_of_getElem? hr)
      · exact h.placed s hs

/-- A new controller that listens has one registration. -/
theorem withNew (h : ws.Balanced) (hb : b < ws.buffers.length)
    (t : Option Engine.Tokenizer) (listens : Bool) :
    (ws.withNew b t listens).Balanced := by
  cases listens with
  | false => exact h.of_notes rfl rfl
  | true =>
      exact (h.subscribe hb (.controller ws.controllers.length)).of_notes
        rfl rfl

theorem applyBatch (h : ws.Balanced) {changes applied : List Change}
    {nested : List Delivery}
    (happly : ws.applyBatch b changes = .ok (applied, nested, ws')) :
    ws'.Balanced := by
  refine ⟨h.toBooked.applyBatch happly, ?_⟩
  have hbatch := batch_taking happly
  generalize ws.taking b applied = taking at hbatch
  cases hbatch with
  | absent hb => exact h.placed
  | taken hb happly =>
      show ∀ s ∈ ws.registrations, s.buffer < (ws.buffers.set b _).length
      rw [List.length_set]
      exact h.placed

-- =============================================================== deeds

theorem whenReady {α : Type} (c : Nat) (answer : α)
    (work : Document → Engine → Work α) :
    (whenReady c answer work).Keeps Balanced :=
  whenReady_keeps (fun _ _ _ _ _ _ h => h.of_notes rfl rfl) answer work

theorem rebuild (c : Nat) : (Workspace.rebuild c).Keeps Balanced :=
  rebuild_keeps (fun _ h => h.of_notes rfl rfl)
    fun _ _ _ _ _ _ h => h.of_notes rfl rfl

theorem equip (c : Nat) (t : Option Engine.Tokenizer) :
    (Workspace.equip c t).Keeps Balanced :=
  equip_keeps (fun _ h => h.of_notes rfl rfl)
    (fun _ _ _ _ _ _ h => h.of_notes rfl rfl)
    fun _ _ _ _ h => h.of_notes rfl rfl

theorem attach (h : ws.Balanced) (hb : b < ws.buffers.length)
    (t : Option Engine.Tokenizer) (listens : Bool) :
    ((Workspace.attach b t listens).on ws).2.Balanced := by
  rw [attach_on]
  exact (whenReady _ _ _).bind (fun _ => Act.keeps_pure _) _
    (h.withNew hb t listens)

theorem whenAttached {α : Type} (c : Nat) (answer : α)
    (work : Document → Option Engine → Work α) :
    (whenAttached c answer work).Keeps Balanced := by
  refine Act.keeps_get.bind fun ws => ?_
  split
  · exact Act.keeps_pure _
  · exact fun ws h => h.of_notes rfl rfl

/-- A watcher that is called registers others only with the document that
it was called for, which is there. -/
theorem deliver (d : Delivery) : (Workspace.deliver d).Keeps Balanced := by
  obtain ⟨listener, b, changes⟩ := d
  cases listener with
  | controller c =>
      refine Act.keeps_get.bind fun ws => ?_
      split
      · exact Act.keeps_pure _
      · split
        · exact Act.keeps_pure _
        · exact Act.keeps_get.bind fun _ => whenReady c _ _
  | watcher w =>
      intro ws h
      show ((callWatcher w b changes).on ws).2.Balanced
      unfold callWatcher
      rw [Act.on_bind, Act.on_get]
      dsimp only
      rw [Act.on_bind, Act.on_get]
      dsimp only
      split
      · next w d _ hd =>
        have hb : b < ws.buffers.length := by
          obtain ⟨_, hb, -⟩ := Option.map_eq_some_iff.1 hd
          exact (List.getElem?_eq_some_iff.1 hb).1
        -- a habit may register someone, so the document has to stay there
        have hhabits : (w.habits.forM (follow b)).Keeps
            fun ws => ws.Balanced ∧ b < ws.buffers.length := by
          refine Act.Keeps.forM fun habit _ => ?_
          cases habit with
          | dispose r =>
              refine Act.keeps_modify fun ws h => ⟨h.1.unsubscribe r, ?_⟩
              rw [length_buffers_unsubscribe]
              exact h.2
          | subscribe w =>
              refine Act.keeps_modify fun ws h => ⟨h.1.subscribe h.2 _, ?_⟩
              show b < (ws.buffers.modify b _).length
              rw [List.length_modify]
              exact h.2
          | fail words => exact Act.keeps_throw _
        rw [Act.on_bind, Act.on_modify]
        dsimp only
        refine And.left (hhabits _ ?_)
        exact ⟨Balanced.of_notes h rfl rfl, hb⟩
      · exact h

theorem deliverAll (h : ws.Balanced) (plans : List Plan)
    (agenda : List Delivery) :
    (Workspace.deliverAll plans agenda ws).2.Balanced :=
  deliverAll_keeps (fun _ _ h => h.of_notes rfl rfl) deliver
    (fun _ _ _ _ _ _ h happly => h.applyBatch happly) plans agenda h

theorem edit (b : Nat) (changes : List Change) :
    (Workspace.edit b changes).Keeps Balanced :=
  edit_keeps (fun _ _ h => h.of_notes rfl rfl) deliver
    (fun _ _ _ _ _ _ h happly => h.applyBatch happly) b changes

theorem take (h : ws.Balanced) (b : Nat) (changes : List Change) :
    ((Deed.take b changes).after ws).Balanced :=
  take_keeps h fun _ _ _ => h.applyBatch

theorem retire (h : ws.Balanced) (c : Nat) : (ws.retire c).Balanced :=
  retire_keeps h (fun _ r _ _ => h.unsubscribe r)
    fun _ h => h.of_notes rfl rfl

/-- Every deed keeps the balance, whether it goes through or fails. -/
theorem after (h : ws.Balanced) {deed : Deed} (hp : deed.Placed ws) :
    (deed.after ws).Balanced := by
  cases deed with
  | addBuffer d => exact h.addBuffer d
  | addWatcher w => exact h.of_notes rfl rfl
  | subscribe b w => exact h.subscribe hp (.watcher w)
  | unsubscribe r => exact h.unsubscribe r
  | attach b t listens => exact h.attach hp t listens
  | build c => exact whenReady c () Reparse.build ws h
  | rebuild c => exact rebuild c ws h
  | equip c t => exact equip c t ws h
  | retokenize c line => exact whenReady c _ _ ws h
  | mendRange c range => exact whenReady c _ _ ws h
  | mendBatch c changes =>
      exact (Act.keeps_get.bind fun _ => whenReady c _ _) ws h
  | lookup c p => exact (Act.keeps_get.bind fun _ => whenAttached c _ _) ws h
  | lookupLine c line => exact whenAttached c _ _ ws h
  | retire c => exact h.retire c
  | edit b changes => exact edit b changes ws h
  | take b changes => exact h.take b changes
  | tell agenda => exact h.deliverAll ws.plans agenda
  | plan plans => exact h.of_notes rfl rfl
  | configure config => exact h.of_notes rfl rfl
  | count f => exact h.of_notes rfl rfl

/-- And so it is after any run of deeds. -/
theorem afterDeeds (h : ws.Balanced) {deeds : List Deed}
    (hp : Placed deeds ws) : (Workspace.afterDeeds deeds ws).Balanced := by
  induction deeds generalizing ws with
  | nil => exact h
  | cons deed deeds ih => exact ih (h.after hp.1) hp.2

end Balanced

-- =========================================================== disposing

/-- Disposing of a registration takes the first entry of its listener off
the list of its buffer, which is there, and changes nothing else but that
the registration is not live any more. -/
def TakesOff (ws : Workspace) (r : Nat) (s : Registration) : Prop :=
  ∃ d front back,
    ws.buffers[s.buffer]? = some ⟨d, front ++ s.listener :: back⟩
      ∧ s.listener ∉ front
      ∧ ws.unsubscribe r = { ws with
          buffers := ws.buffers.set s.buffer ⟨d, front ++ back⟩
          registrations := ws.registrations.set r { s with live := false } }

/-- A registration that is live has an entry to take off. -/
theorem Balanced.takesOff (h : ws.Balanced)
    (hs : ws.registrations[r]? = some s) (hlive : s.live = true) :
    ws.TakesOff r s := by
  obtain ⟨buffer, hb⟩ : ∃ buffer, ws.buffers[s.buffer]? = some buffer :=
    ⟨_, List.getElem?_eq_getElem (h.placed s (List.mem_of_getElem? hs))⟩
  have hmem : s.listener ∈ buffer.listeners := by
    rw [(h.perm_enlisted hb).mem_iff]
    refine List.mem_map.2 ⟨s, List.mem_filter.2 ?_, rfl⟩
    exact ⟨List.mem_of_getElem? hs, by simp [hlive]⟩
  obtain ⟨front, back, hfront, hsplit, herase⟩ :=
    List.exists_erase_eq hmem
  refine ⟨buffer.document, front, back, ?_, hfront, ?_⟩
  · rw [hb, ← hsplit]
  · unfold Workspace.unsubscribe
    rw [hs]
    dsimp only
    rw [if_pos hlive, List.modify_eq_set_getElem?, hb, ← herase]
    rfl

/-- The registration was disposed of. -/
def Discarded (r : Nat) (ws : Workspace) : Prop :=
  ∃ s, ws.registrations[r]? = some s ∧ s.live = false

/-- To dispose of a registration twice is to do so once. -/
theorem Discarded.unsubscribe (h : Discarded r ws) : ws.unsubscribe r = ws := by
  obtain ⟨s, hs, hlive⟩ := h
  unfold Workspace.unsubscribe
  rw [hs]
  dsimp only
  rw [hlive, if_neg Bool.false_ne_true]

/-- New registrations are no matter to those there are. -/
theorem Discarded.concat (h : Discarded r ws) (s' : Registration)
    (hr : ws'.registrations = ws.registrations ++ [s']) :
    Discarded r ws' := by
  obtain ⟨s, hs, hlive⟩ := h
  refine ⟨s, ?_, hlive⟩
  rw [hr, List.getElem?_append_left (List.getElem?_eq_some_iff.1 hs).1]
  exact hs

/-- No registration gets live again. -/
theorem discarded_unsubscribe (h : Discarded r ws) (i : Nat) :
    Discarded r (ws.unsubscribe i) := by
  obtain ⟨s, hs, hlive⟩ := h
  unfold Workspace.unsubscribe
  cases hi : ws.registrations[i]? with
  | none => exact ⟨s, hs, hlive⟩
  | some s' =>
      dsimp only
      split
      · next hlive' =>
        have hne : i ≠ r := by
          rintro rfl
          obtain rfl := Option.some.inj (hi.symm.trans hs)
          exact Bool.false_ne_true (hlive.symm.trans hlive')
        exact ⟨s, (List.getElem?_set_ne hne).trans hs, hlive⟩
      · exact ⟨s, hs, hlive⟩

/-- Whoever disposes of a registration has disposed of it. -/
theorem discarded_unsubscribe_self (hs : ws.registrations[r]? = some s) :
    Discarded r (ws.unsubscribe r) := by
  unfold Workspace.unsubscribe
  rw [hs]
  dsimp only
  split
  · have hlt := (List.getElem?_eq_some_iff.1 hs).1
    exact ⟨{ s with live := false }, List.getElem?_set_self hlt, rfl⟩
  · next hlive => exact ⟨s, hs, by simpa using hlive⟩

/-- Whatever hosts do, no registration gets live again. -/
theorem stable_discarded (r : Nat) : Stable (Discarded r) where
  notes := fun ws ws' _ _ hr h => by
    unfold Discarded
    rw [hr]
    exact h
  addBuffer := fun ws d h => h
  applyBatch := fun ws b changes applied nested ws' h happly => by
    unfold Discarded
    rw [(applyBatch_frame happly).2]
    exact h
  subscribe := fun ws b w h => h.concat _ rfl
  unsubscribe := fun ws i h => discarded_unsubscribe h i
  withNew := fun ws b t listens h => by
    cases listens with
    | false => exact h
    | true => exact h.concat _ rfl
  leave := fun ws i k t bench _ _ h => h
  clear := fun ws i h => h
  give := fun ws i k t _ _ h => h
  drop := fun ws i h => h

-- =============================================================== rounds

/-- In a round in which nobody fails each listener hears of the batch once
for each registration with the buffer that was live when the document took
it, and besides of what documents take during the round. -/
theorem Balanced.heard_enlisted (h : ws.Balanced)
    {changes applied : List Change} {deliveries : List Delivery}
    (hb : ws.buffers[b]? = some buffer)
    (happly : ws.applyBatch b changes = .ok (applied, deliveries, ws'))
    (hs : Smooth (roundHistory ws'.plans deliveries ws'))
    (l : Listener) :
    (heard l b (roundHistory ws'.plans deliveries ws')).Perm
      (List.replicate ((ws.enlisted b).count l) applied
        ++ owed l b (roundHistory ws'.plans deliveries ws')) := by
  have hheard := (round_roundHistory ws'.plans deliveries ws').heard_owed
    (l := l) (b := b) hs
  have hbatch := batch_taking happly
  unfold taking at hbatch
  rw [hb] at hbatch
  have howed : owed l b [.applied b applied buffer.listeners]
      = List.replicate ((ws.enlisted b).count l) applied := by
    rw [← (h.perm_enlisted hb).count_eq l]
    simp [owed]
  rw [hbatch.awaited_eq] at hheard
  dsimp only at hheard
  rw [howed] at hheard
  exact hheard

-- ========================================================= the theorem

/-- Any deeds are done, possibly with a round of notifications under way,
and nobody is registered with a document before it is there. Then the list
of each buffer holds the listeners of its live registrations, each as
often. Disposing of a live registration takes off an entry of its listener,
which is there, and nothing else; whatever is done afterwards, disposing of
it again changes nothing. And if a document takes a batch now, and nobody
fails in the round that follows, every listener hears of the batch once for
each of its registrations that is live now; what it hears besides are
batches that documents take during the round. -/
theorem registrations_balance (deeds : List Deed)
    (hplaced : Placed deeds empty) (hws : afterDeeds deeds empty = ws) :
    (∀ (b : Nat) (buffer : Buffer), ws.buffers[b]? = some buffer →
        buffer.listeners.Perm (ws.enlisted b))
      ∧ (∀ (r : Nat) (s : Registration), ws.registrations[r]? = some s →
        (s.live = true → ws.TakesOff r s)
          ∧ ∀ later ws', afterDeeds later (ws.unsubscribe r) = ws' →
            ws'.unsubscribe r = ws')
      ∧ ∀ (b : Nat) (buffer : Buffer) changes applied deliveries ws',
        ws.buffers[b]? = some buffer →
        ws.applyBatch b changes = .ok (applied, deliveries, ws') →
        Smooth (roundHistory ws'.plans deliveries ws') →
        ∀ l, (heard l b (roundHistory ws'.plans deliveries ws')).Perm
          (List.replicate ((ws.enlisted b).count l) applied
            ++ owed l b (roundHistory ws'.plans deliveries ws')) := by
  have hbalanced : ws.Balanced :=
    hws ▸ Balanced.empty.afterDeeds hplaced
  refine ⟨fun b buffer => hbalanced.perm_enlisted, fun r s hs =>
    ⟨hbalanced.takesOff hs, ?_⟩, fun b buffer changes applied deliveries
      ws' => hbalanced.heard_enlisted⟩
  rintro later ws' rfl
  exact ((stable_discarded r).afterDeeds (discarded_unsubscribe_self hs)
    later).unsubscribe

/-- The first watcher is registered twice, and one of its registrations
disposed of, twice. The other watcher is registered twice; the first
disposes of one of these registrations whenever it is called. -/
def doublings : List Deed := [
  .addBuffer (.new "untitled:document" "plaintext" "a".toList),
  .addWatcher ⟨"first", [.dispose 2]⟩, .addWatcher ⟨"last", []⟩,
  .subscribe 0 0, .subscribe 0 0, .subscribe 0 1, .subscribe 0 1,
  .unsubscribe 1, .unsubscribe 1]

def doubled : Workspace := afterDeeds doublings empty

/-- What becomes of it when the document takes a batch, and whom that is to
be told. -/
def doubledTaking : Workspace := (Deed.take 0 inserted).after doubled

def doubledTold : List Delivery :=
  [⟨.watcher 0, 0, inserted⟩, ⟨.watcher 1, 0, inserted⟩,
    ⟨.watcher 1, 0, inserted⟩]

/-- The other watcher is told twice of the batch in the course of which
one of its registrations is disposed of. -/
theorem registrations_balance_doubled :
    [.watcher 0, .watcher 1, .watcher 1].Perm (doubled.enlisted 0)
      ∧ doubled.TakesOff 2 ⟨0, .watcher 1, true⟩
      ∧ (afterDeeds [.edit 0 inserted] (doubled.unsubscribe 2)).unsubscribe 2
        = afterDeeds [.edit 0 inserted] (doubled.unsubscribe 2)
      ∧ heard (.watcher 1) 0 (roundHistory [] doubledTold doubledTaking)
        = [inserted, inserted] := by
  have hplaced : Placed doublings empty :=
    ⟨trivial, trivial, trivial, Nat.one_pos, Nat.one_pos, Nat.one_pos,
      Nat.one_pos, trivial, trivial, trivial⟩
  obtain ⟨hlisted, hdispose, hround⟩ :=
    registrations_balance doublings hplaced (rfl : _ = doubled)
  have hbuffer : doubled.buffers[0]? = some ⟨.new "untitled:document"
      "plaintext" "a".toList, [.watcher 0, .watcher 1, .watcher 1]⟩ := by cbv
  have hmade : doubled.registrations[2]?
      = some ⟨0, .watcher 1, true⟩ := by cbv
  have happly : doubled.applyBatch 0 inserted
      = .ok (inserted, doubledTold, doubledTaking) := by cbv
  have hplans : doubledTaking.plans = [] := by cbv
  have hstory : roundHistory [] doubledTold doubledTaking
      = doubledTold.map .called := by cbv
  have hheard := hround 0 _ inserted _ _ _ hbuffer happly
  rw [hplans, hstory] at hheard
  have hheard := hheard (by simp [doubledTold, Smooth]) (.watcher 1)
  rw [← (hlisted 0 _ hbuffer).count_eq] at hheard
  have htwice : (heard (.watcher 1) 0 (doubledTold.map .called)).Perm
    (List.replicate 2 inserted) := hheard
  refine ⟨hlisted 0 _ hbuffer, (hdispose 2 _ hmade).1 rfl,
    (hdispose 2 _ hmade).2 _ _ rfl, ?_⟩
  rw [hstory]
  exact List.perm_replicate.1 htwice

end Relex.Workspace
