/-
Work in a workspace that keeps a property of it.

`Act.Keeps` says of work that it leaves a workspace with a property if
it finds it so, whether the work goes through or fails half way. Work
made of steps keeps what its steps keep (`Act.Keeps.bind`). A round of
notifications, nested rounds included, keeps what single calls and single
batches keep (`deliverAll_keeps`), and so does an edit (`edit_keeps`).
-/
import Relex.Workspace.Notify

namespace Relex

-- ============================================================== steps

/-- The work leaves every workspace with the property if it finds it so,
also when it fails. -/
def Act.Keeps {α : Type} (P : Workspace → Prop) (w : Act α) : Prop :=
  ∀ ws, P ws → P (w.on ws).2

namespace Act

variable {α β : Type} {P : Workspace → Prop}

/-- The property holds of what the work has left. -/
theorem Keeps.left {w : Act α} {ws ws' : Workspace}
    {result : Except Fault α} (hw : Keeps P w) (h : P ws)
    (hon : w.on ws = (result, ws')) : P ws' := by
  have hleft := hw ws h
  rw [hon] at hleft
  exact hleft

theorem keeps_pure (a : α) : Keeps P (pure a : Act α) :=
  fun _ h => h

theorem keeps_throw (fault : Fault) : Keeps P (throw fault : Act α) :=
  fun _ h => h

theorem keeps_get : Keeps P (get : Act Workspace) :=
  fun _ h => h

theorem keeps_modify {f : Workspace → Workspace}
    (hf : ∀ ws, P ws → P (f ws)) : Keeps P (modify f : Act PUnit) :=
  hf

theorem Keeps.bind {w : Act α} {k : α → Act β} (hw : Keeps P w)
    (hk : ∀ a, Keeps P (k a)) : Keeps P (w >>= k) := by
  intro ws h
  rw [on_bind]
  rcases hon : w.on ws with ⟨fault | a, ws'⟩
  · exact hw.left h hon
  · exact hk a ws' (hw.left h hon)

theorem Keeps.forM {l : List α} {f : α → Act PUnit}
    (hf : ∀ a ∈ l, Keeps P (f a)) : Keeps P (l.forM f) := by
  induction l with
  | nil => exact keeps_pure _
  | cons a l ih =>
      rw [List.forM_eq_forM, List.forM_cons]
      exact (hf a (by simp)).bind fun _ => ih fun b hb => hf b (by simp [hb])

end Act

-- =========================================================== disposing

/-- What is left of a controller that is disposed of. -/
def Controller.dropped (k : Controller) : Controller :=
  { k with
    tokenizer := none
    cache := .empty
    registration := none
    disposed := true }

namespace Workspace

/-- Disposing of a controller keeps what disposing of its registration
and dropping it keep. -/
theorem retire_keeps {P : Workspace → Prop} {ws : Workspace} {i : Nat}
    (h : P ws)
    (hunsubscribe : ∀ k r, ws.controllers[i]? = some k →
      k.registration = some r → P (ws.unsubscribe r))
    (hdrop : ∀ ws, P ws → P (ws.modifyController i (·.dropped))) :
    P (ws.retire i) := by
  unfold retire
  cases hk : ws.controllers[i]? with
  | none => exact h
  | some k =>
      dsimp only
      cases hr : k.registration with
      | none => exact hdrop ws h
      | some r => exact hdrop _ (hunsubscribe k r hk hr)

-- ============================================================== rounds

section

variable {ws ws' : Workspace} {plans left : List Plan} {d : Delivery}
  (rest : List Delivery)

/-- A call that fails ends the round. -/
theorem deliverAll_of_error {fault : Fault}
    (hon : (deliver d).on ws = (.error fault, ws')) :
    deliverAll plans (d :: rest) ws
      = (.error fault, { ws' with plans := plans }) := by
  rw [deliverAll, hon]

/-- After a call that was no occasion for a plan the round goes on. -/
theorem deliverAll_of_none (hon : (deliver d).on ws = (.ok (), ws'))
    (hplan : d.plan? plans = none) :
    deliverAll plans (d :: rest) ws = deliverAll plans rest ws' := by
  rw [deliverAll, hon]
  dsimp only
  split
  · rfl
  · next h => cases hplan.symm.trans h

/-- After a call that was the occasion for a plan, the round the plan
starts comes first. -/
theorem deliverAll_of_some {plan : Plan}
    (hon : (deliver d).on ws = (.ok (), ws'))
    (hplan : d.plan? plans = some (plan, left)) :
    deliverAll plans (d :: rest) ws
      = match ws'.applyBatch plan.buffer plan.changes with
        | .error e => (.error (.edit e), { ws' with plans := left })
        | .ok (_, nested, ws'') => deliverAll left (nested ++ rest) ws''
    := by
  rw [deliverAll, hon]
  dsimp only
  split
  · next h => cases hplan.symm.trans h
  · next h =>
    cases hplan.symm.trans h
    rfl

end

/-- A batch is taken if the buffer's document takes it; its listeners are
to be told. -/
theorem applyBatch_of_some {ws : Workspace} {buffer : Nat} {b : Buffer}
    (hb : ws.buffers[buffer]? = some b) (changes : List Change) :
    ws.applyBatch buffer changes
      = (b.document.apply changes).map fun (d, applied) =>
        (applied, b.listeners.map (⟨·, buffer, applied⟩), { ws with
          buffers := ws.buffers.set buffer { b with document := d } }) := by
  unfold applyBatch
  rw [hb]
  dsimp only
  cases b.document.apply changes <;> rfl

section

variable {ws : Workspace} {P : Workspace → Prop}
  (hplans : ∀ ws plans, P ws → P { ws with plans := plans })
  (hcall : ∀ d, (deliver d).Keeps P)
  (hbatch : ∀ ws buffer changes applied nested ws', P ws →
    ws.applyBatch buffer changes = .ok (applied, nested, ws') → P ws')

include hplans hcall hbatch

/-- A round of notifications keeps what the calls and the batches of the
round keep, and what does not depend on the plans left. -/
theorem deliverAll_keeps (plans : List Plan) (agenda : List Delivery)
    (h : P ws) : P (deliverAll plans agenda ws).2 := by
  -- along the round: what is left of it starts where the property is kept
  induction plans, agenda, ws using deliverAll.induct with
  | case1 plans ws =>
      rw [deliverAll]
      exact hplans ws plans h
  | case2 plans d rest ws fault ws' hon =>
      have hleft : P ws' := (hcall d).left h hon
      rw [deliverAll_of_error rest hon]
      exact hplans ws' plans hleft
  | case3 plans d rest ws ws' hon hplan ih =>
      have hleft : P ws' := (hcall d).left h hon
      rw [deliverAll_of_none rest hon hplan]
      exact ih hleft
  | case4 plans d rest ws ws' hon plan left hplan e happly =>
      have hleft : P ws' := (hcall d).left h hon
      rw [deliverAll_of_some rest hon hplan, happly]
      exact hplans ws' left hleft
  | case5 plans d rest ws ws' hon plan left hplan applied nested ws''
      happly ih =>
      have hleft : P ws' := (hcall d).left h hon
      rw [deliverAll_of_some rest hon hplan, happly]
      exact ih (hbatch ws' _ _ _ _ _ hleft happly)

/-- An edit keeps what the calls and the batches of its round keep. -/
theorem edit_keeps (buffer : Nat) (changes : List Change) :
    (edit buffer changes).Keeps P := by
  intro ws h
  unfold edit
  rw [Act.on_bind, Act.on_get]
  dsimp only
  cases happly : ws.applyBatch buffer changes with
  | error e => exact h
  | ok result =>
      obtain ⟨applied, deliveries, ws'⟩ := result
      have hround := Act.Keeps.bind
        (w := Act.of fun ws => deliverAll ws.plans deliveries ws)
        (k := fun _ => pure applied)
        (fun ws h => deliverAll_keeps hplans hcall hbatch ws.plans
          deliveries h) fun _ => Act.keeps_pure applied
      dsimp only
      rw [Act.on_bind, Act.on_set]
      exact hround ws' (hbatch ws _ _ _ _ _ h happly)

end

end Workspace

end Relex
