/-
Numbers in a workspace stand for something.

Listeners and registrations name controllers by number. In a workspace
that was empty once and has only been changed as hosts and listeners
change it, none names a controller that was not made yet (`Grounded`).
So the number the next controller gets is on no list, and no
registration has it (`Grounded.unlisted`, `Grounded.unregistered`).
-/
import Relex.Proofs.Workspace.Rounds

namespace Relex

/-- The listener is none of the controllers from a number on. -/
def Listener.Below (n : Nat) : Listener → Prop
  | .controller i => i < n
  | .watcher _ => True

theorem Listener.Below.mono {m n : Nat} {l : Listener} (h : l.Below m)
    (hmn : m ≤ n) : l.Below n := by
  cases l with
  | controller i => exact Nat.lt_of_lt_of_le h hmn
  | watcher i => trivial

namespace Workspace

/-- Every listener, on a list or in a registration, is there. -/
structure Grounded (ws : Workspace) : Prop where
  listeners : ∀ b ∈ ws.buffers, ∀ l ∈ b.listeners,
    l.Below ws.controllers.length
  registrations : ∀ s ∈ ws.registrations,
    s.listener.Below ws.controllers.length

variable {ws : Workspace}

namespace Grounded

/-- The next controller's number is on no list. -/
theorem unlisted (h : ws.Grounded) {b : Buffer} (hb : b ∈ ws.buffers) :
    .controller ws.controllers.length ∉ b.listeners := by
  intro hl
  exact Nat.lt_irrefl _ (h.listeners b hb _ hl)

/-- No registration is of the next controller. -/
theorem unregistered (h : ws.Grounded) {s : Registration}
    (hs : s ∈ ws.registrations) :
    s.listener ≠ .controller ws.controllers.length := by
  intro hl
  have hbelow := h.registrations s hs
  rw [hl] at hbelow
  exact Nat.lt_irrefl _ hbelow

-- ============================================================ changes

theorem empty : Workspace.empty.Grounded := by
  refine ⟨?_, ?_⟩
  · intro b hb
    cases hb
  · intro s hs
    cases hs

/-- What is noted down, planned or configured names no controllers. -/
theorem of_notes (h : ws.Grounded) {ws' : Workspace}
    (hb : ws'.buffers = ws.buffers)
    (hr : ws'.registrations = ws.registrations)
    (hc : ws.controllers.length ≤ ws'.controllers.length) :
    ws'.Grounded := by
  refine ⟨?_, ?_⟩
  · intro b hmem l hl
    rw [hb] at hmem
    exact (h.listeners b hmem l hl).mono hc
  · intro s hs
    rw [hr] at hs
    exact (h.registrations s hs).mono hc

theorem addBuffer (h : ws.Grounded) (d : Document) :
    (ws.addBuffer d).2.Grounded := by
  refine ⟨?_, h.registrations⟩
  intro b hb l hl
  rcases List.mem_append.1 hb with hb | hb
  · exact h.listeners b hb l hl
  · obtain rfl := List.mem_singleton.1 hb
    cases hl

theorem addWatcher (h : ws.Grounded) (w : Watcher) :
    (ws.addWatcher w).2.Grounded :=
  ⟨h.listeners, h.registrations⟩

theorem modifyController (h : ws.Grounded) (i : Nat)
    (f : Controller → Controller) : (ws.modifyController i f).Grounded :=
  h.of_notes rfl rfl (List.length_modify ..).ge

/-- A listener that is put on a list has to be there. -/
theorem relist (h : ws.Grounded) (i : Nat)
    {f : List Listener → List Listener}
    {registrations : List Registration}
    (hf : ∀ ls, ∀ l ∈ f ls, l ∈ ls ∨ l.Below ws.controllers.length)
    (hr : ∀ s ∈ registrations, s ∈ ws.registrations
      ∨ s.listener.Below ws.controllers.length) :
    Grounded { ws with
      buffers := ws.buffers.modify i (relist f), registrations } := by
  refine ⟨?_, ?_⟩
  · intro b hb l hl
    obtain ⟨j, hj⟩ := List.mem_iff_getElem?.1 hb
    rw [List.getElem?_modify] at hj
    obtain ⟨b', hb', rfl⟩ := Option.map_eq_some_iff.1 hj
    have hmem := List.mem_of_getElem? hb'
    split at hl
    · rcases hf b'.listeners l hl with hl | hl
      · exact h.listeners b' hmem l hl
      · exact hl
    · exact h.listeners b' hmem l hl
  · intro s hs
    rcases hr s hs with hs | hs
    · exact h.registrations s hs
    · exact hs

/-- Who is registered has to be there. -/
theorem subscribe (h : ws.Grounded) (buffer : Nat) {l : Listener}
    (hl : l.Below ws.controllers.length) :
    (ws.subscribe buffer l).2.Grounded := by
  refine h.relist buffer (f := (· ++ [l])) ?_ ?_
  · intro ls l' hmem
    rcases List.mem_append.1 hmem with hmem | hmem
    · exact .inl hmem
    · obtain rfl := List.mem_singleton.1 hmem
      exact .inr hl
  · intro s hs
    rcases List.mem_append.1 hs with hs | hs
    · exact .inl hs
    · obtain rfl := List.mem_singleton.1 hs
      exact .inr hl

/-- Whose registration is disposed of was there before. -/
theorem unsubscribe (h : ws.Grounded) (i : Nat) :
    (ws.unsubscribe i).Grounded := by
  unfold Workspace.unsubscribe
  cases hs : ws.registrations[i]? with
  | none => exact h
  | some s =>
      dsimp only
      split
      · refine h.relist s.buffer (f := (·.erase s.listener)) ?_ ?_
        · intro ls l hl
          exact .inl (List.mem_of_mem_erase hl)
        · intro s' hs'
          rcases List.mem_or_eq_of_mem_set hs' with hs' | rfl
          · exact .inl hs'
          · exact .inr (h.registrations s (List.mem_of_getElem? hs))
      · exact h

theorem retire (h : ws.Grounded) (controller : Nat) :
    (ws.retire controller).Grounded :=
  retire_keeps h (fun _ r _ _ => h.unsubscribe r)
    fun _ h => h.modifyController ..

end Grounded

-- ======================================================== controllers

/-- Work on a cache concerns no lists. -/
theorem keeps_whenReady {α : Type} (controller : Nat) (answer : α)
    (work : Document → Engine → Work α) :
    (whenReady controller answer work).Keeps Grounded :=
  whenReady_keeps (fun _ _ _ _ _ _ h =>
    h.of_notes rfl rfl (List.length_modify ..).ge) answer work

-- ========================================================== attaching

/-- The workspace with a new controller in it that has built nothing
yet. -/
def withNew (ws : Workspace) (buffer : Nat)
    (t : Option Engine.Tokenizer) (listens : Bool) : Workspace :=
  let controller := ws.controllers.length
  if listens then
    { ws with
      buffers := ws.buffers.modify buffer
        (relist (· ++ [.controller controller]))
      registrations := ws.registrations
        ++ [⟨buffer, .controller controller, true⟩]
      controllers := ws.controllers
        ++ [⟨buffer, t, .empty, some ws.registrations.length, false⟩] }
  else
    { ws with controllers :=
        ws.controllers ++ [⟨buffer, t, .empty, none, false⟩] }

theorem modify_append_length {α : Type} (l : List α) (a : α)
    (f : α → α) : (l ++ [a]).modify l.length f = l ++ [f a] := by
  induction l with
  | nil => rfl
  | cons b l ih =>
      rw [List.cons_append, List.length_cons, List.modify_succ_cons, ih]
      rfl

/-- Attaching is putting the controller in, and then building. -/
theorem attach_on (ws : Workspace) (buffer : Nat)
    (t : Option Engine.Tokenizer) (listens : Bool) :
    (attach buffer t listens).on ws
      = (build ws.controllers.length >>= fun _ =>
          pure ws.controllers.length).on (ws.withNew buffer t listens) := by
  unfold attach withNew
  rw [Act.on_bind, Act.on_get]
  dsimp only
  rw [Act.on_bind, Act.on_modify]
  dsimp only
  cases listens with
  | false => rfl
  | true =>
      rw [if_pos rfl, if_pos rfl, Act.on_bind, Act.on_modify]
      unfold subscribe modifyController
      dsimp only
      rw [modify_append_length]
      rfl

/-- A new controller is made before it is registered. -/
theorem Grounded.withNew (h : ws.Grounded) (buffer : Nat)
    (t : Option Engine.Tokenizer) (listens : Bool) :
    (ws.withNew buffer t listens).Grounded := by
  have hmade : ∀ k : Controller, ws.controllers.length
      < (ws.controllers ++ [k]).length := by
    intro k
    rw [List.length_append]
    exact Nat.lt_succ_self _
  cases listens with
  | false => exact h.of_notes rfl rfl (Nat.le_of_lt (hmade _))
  | true =>
      have hcontrollers : Grounded { ws with controllers :=
          ws.controllers ++ [⟨buffer, t, .empty,
            some ws.registrations.length, false⟩] } :=
        h.of_notes rfl rfl (Nat.le_of_lt (hmade _))
      exact hcontrollers.subscribe buffer (hmade _)

/-- A controller that listens was made before it is put on the list. -/
theorem keeps_attach (buffer : Nat) (t : Option Engine.Tokenizer)
    (listens : Bool) : (attach buffer t listens).Keeps Grounded := by
  intro ws h
  rw [attach_on]
  exact (keeps_whenReady _ _ _).bind (fun _ => Act.keeps_pure _) _
    (h.withNew buffer t listens)

-- ============================================================== edits

/-- Who is called may register watchers and dispose of registrations, and
names no controller. -/
theorem keeps_deliver (d : Delivery) : (deliver d).Keeps Grounded :=
  deliver_keeps (fun _ _ _ _ h => h.of_notes rfl rfl le_rfl)
    (fun _ i h => h.unsubscribe i)
    (fun _ buffer _ h => h.subscribe buffer trivial)
    fun _ _ _ _ _ _ _ _ h =>
      h.of_notes rfl rfl (List.length_modify ..).ge

/-- A document that takes a batch keeps its listeners. -/
theorem Grounded.applyBatch (h : ws.Grounded) {buffer : Nat}
    {changes applied : List Change} {nested : List Delivery}
    {ws' : Workspace}
    (happly : ws.applyBatch buffer changes = .ok (applied, nested, ws')) :
    ws'.Grounded := by
  unfold Workspace.applyBatch at happly
  split at happly
  · cases happly
    exact h
  · next b hb =>
    split at happly
    · cases happly
    · cases happly
      refine ⟨?_, h.registrations⟩
      intro b' hb' l hl
      rcases List.mem_or_eq_of_mem_set hb' with hb' | rfl
      · exact h.listeners b' hb' l hl
      · exact h.listeners b (List.mem_of_getElem? hb) l hl

theorem keeps_edit (buffer : Nat) (changes : List Change) :
    (edit buffer changes).Keeps Grounded :=
  edit_keeps (fun _ _ h => h.of_notes rfl rfl le_rfl) keeps_deliver
    (fun _ _ _ _ _ _ h happly => h.applyBatch happly) buffer changes

end Workspace

end Relex
