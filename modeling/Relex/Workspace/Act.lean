/-
Work in a workspace. It may fail, and what it changed before that
stands.

`Act.on` starts work in a workspace; the lemmas below open up work that
is written as a sequence of steps.
-/
import Relex.Workspace.Basic

namespace Relex

/-- Work in a workspace: it may fail, and what it changed before that
stands. -/
abbrev Act (α : Type) := ExceptT Fault (StateM Workspace) α

namespace Act

/-- Starts work in a workspace. Answers what came of it, and the
workspace as it was left. -/
def on {α : Type} (w : Act α) (ws : Workspace) :
    Except Fault α × Workspace :=
  w.run.run ws

/-- Work given by what it does to every workspace. -/
def of {α : Type} (f : Workspace → Except Fault α × Workspace) : Act α :=
  ExceptT.mk f

section

variable {α β : Type} (ws : Workspace)

@[simp] theorem on_of (f : Workspace → Except Fault α × Workspace) :
    (of f).on ws = f ws := rfl

@[simp] theorem on_pure (a : α) :
    (pure a : Act α).on ws = (.ok a, ws) := rfl

@[simp] theorem on_throw (fault : Fault) :
    (throw fault : Act α).on ws = (.error fault, ws) := rfl

@[simp] theorem on_get : (get : Act Workspace).on ws = (.ok ws, ws) := rfl

@[simp] theorem on_set (ws' : Workspace) :
    (set ws' : Act PUnit).on ws = (.ok ⟨⟩, ws') := rfl

@[simp] theorem on_modify (f : Workspace → Workspace) :
    (modify f : Act PUnit).on ws = (.ok ⟨⟩, f ws) := rfl

/-- One piece of work after another: the second starts in the workspace
the first has left, unless the first failed. -/
theorem on_bind (w : Act α) (k : α → Act β) :
    (w >>= k).on ws = match w.on ws with
      | (.ok a, ws) => (k a).on ws
      | (.error fault, ws) => (.error fault, ws) := by
  simp only [on, ExceptT.run_bind, StateT.run_bind]
  rcases w.run.run ws with ⟨_ | _, _⟩ <;> rfl

end

end Act

end Relex
