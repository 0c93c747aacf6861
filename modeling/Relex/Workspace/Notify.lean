/-
Editing documents and telling their listeners.

A batch that a document accepts is delivered to the listeners registered
at that moment, in their order; who is registered or disposed of while
the round is under way changes later rounds only. A listener that edits
starts a round of its own, which is over before the outer round goes on.
If a listener fails, the round ends there, and so do all rounds around
it; the document keeps the batch.

The deliveries still to be made are kept in one list. A nested round
goes in front of what is left of the outer one. Each nested round takes
one plan of a watcher, so the rounds end.
-/
import Relex.Workspace.Controllers

namespace Relex.Workspace

/-- A batch on its way to a listener. -/
structure Delivery where
  listener : Listener
  buffer : Nat
  changes : List Change
  deriving DecidableEq, Repr

-- =============================================================== calls

/-- A watcher called for a buffer does as it is used to. -/
def follow (buffer : Nat) : Habit → Act Unit
  | .dispose registration => modify (·.unsubscribe registration)
  | .subscribe watcher =>
    modify fun ws => (ws.subscribe buffer (.watcher watcher)).2
  | .fail words => throw (.failed words)

/-- A watcher is called: it notes what it sees and follows its
habits. -/
def callWatcher (watcher buffer : Nat) (changes : List Change) :
    Act Unit := do
  match (← get).watchers[watcher]?, (← get).document? buffer with
  | some w, some d =>
    modify fun ws => { ws with
      sightings := ws.sightings ++
        [⟨watcher, buffer, d.version, d.content.text, changes⟩] }
    w.habits.forM (follow buffer)
  | _, _ => pure ()

/-- A controller is called: it mends its cache, if the batch is for its
own document and it was not disposed of. -/
def callController (controller buffer : Nat) (changes : List Change) :
    Act Unit := do
  match (← get).controllers[controller]? with
  | none => pure ()
  | some c =>
    if c.disposed ∨ c.buffer ≠ buffer then pure ()
    else mendBatch controller changes

/-- A delivery is made. -/
def deliver (d : Delivery) : Act Unit :=
  match d.listener with
  | .controller id => callController id d.buffer d.changes
  | .watcher id => callWatcher id d.buffer d.changes

-- ============================================================= batches

/-- Applies a batch to a buffer's document. Answers the batch as
applied, and the deliveries to be made. -/
def applyBatch (ws : Workspace) (buffer : Nat) (changes : List Change) :
    Except EditFault (List Change × List Delivery × Workspace) :=
  match ws.buffers[buffer]? with
  | none => .ok ([], [], ws)
  | some b =>
    match b.document.apply changes with
    | .error e => .error e
    | .ok (d, applied) =>
      .ok (applied, b.listeners.map (⟨·, buffer, applied⟩), { ws with
        buffers := ws.buffers.set buffer { b with document := d } })

/-- The plan a listener acts on when it is called, and those left. -/
def Delivery.plan? (d : Delivery) (plans : List Plan) :
    Option (Plan × List Plan) :=
  match d.listener with
  | .controller _ => none
  | .watcher id => Plan.take? id plans

/-- Makes deliveries, the first one first. `plans` are those left to the
watchers. -/
def deliverAll (plans : List Plan) :
    List Delivery → Workspace → Except Fault Unit × Workspace
  | [], ws => (.ok (), { ws with plans := plans })
  | d :: rest, ws =>
    match (deliver d).on ws with
    | (.error fault, ws) => (.error fault, { ws with plans := plans })
    | (.ok (), ws) =>
      match _h : d.plan? plans with
      | none => deliverAll plans rest ws
      | some (plan, left) =>
        match ws.applyBatch plan.buffer plan.changes with
        | .error e => (.error (.edit e), { ws with plans := left })
        | .ok (_, nested, ws) => deliverAll left (nested ++ rest) ws
termination_by agenda => (plans.length, agenda.length)
decreasing_by
  · exact .right _ (Nat.lt_succ_self _)
  · refine .left _ _ ?_
    cases d with
    | mk listener buffer changes =>
      cases listener with
      | controller id => simp [Delivery.plan?] at _h
      | watcher id =>
        have := Plan.length_of_take? _h
        omega

/-- Applies a batch to a buffer's document and tells the listeners.
Answers the batch as applied. -/
def edit (buffer : Nat) (changes : List Change) : Act (List Change) := do
  match (← get).applyBatch buffer changes with
  | .error e => throw (.edit e)
  | .ok (applied, deliveries, ws) =>
    set ws
    Act.of fun ws => deliverAll ws.plans deliveries ws
    pure applied

end Relex.Workspace
