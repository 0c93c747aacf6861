/-
Work on a state cache. It may fail half way, and what it has done up to
there stands: the cache and the trace are kept also when it fails.

`Work.on` starts work on a bench, which is a cache with a trace. The
lemmas below say what each kind of work does to a bench; with
`Work.on_bind` they open up any work written as a sequence of steps.
-/
import Relex.Engine
import Relex.StateCache
import Relex.Trace

namespace Relex

/-- What work on one cache changes: the cache, and the trace. -/
structure Bench where
  cache : StateCache
  trace : Trace
  deriving DecidableEq, Inhabited

/-- Work on one cache: it may fail, and what it changed before that
stands. -/
abbrev Work (α : Type) := ExceptT Fault (StateM Bench) α

namespace Work

/-- Starts work on a bench. Answers what came of it, and the bench as it
was left. -/
def on {α : Type} (w : Work α) (b : Bench) : Except Fault α × Bench :=
  w.run.run b

/-- Changes the cache. -/
def onCache (f : StateCache → StateCache) : Work Unit :=
  modify fun b => { b with cache := f b.cache }

/-- Adds to the trace. -/
def onTrace (f : Trace → Trace) : Work Unit :=
  modify fun b => { b with trace := f b.trace }

/-- Goes on after work that failed, with its fault. -/
def attempt {α : Type} (w : Work α) : Work (Except Fault α) :=
  ExceptT.lift w.run

/-- The state in which a line is entered. -/
def entering (line : Int) : Work TokenState :=
  return (← get).cache.entering line

/-- Stores the state in which a line is left. Answers whether that
changed what was stored. -/
def store (line : Nat) (state : TokenState) : Work Bool :=
  modifyGet fun b =>
    let (changed, cache) := b.cache.insert line state
    (changed, { b with cache })

/-- Hands a line to an engine. -/
def ask (engine : Engine) (line : Line) (entering : TokenState) :
    Work LineResult := do
  onTrace (·.called line)
  ofExcept (engine line entering)

-- ==================================================== how work unfolds

section

variable {α β : Type} (b : Bench)

@[simp] theorem on_pure (a : α) :
    (pure a : Work α).on b = (.ok a, b) := rfl

@[simp] theorem on_throw (fault : Fault) :
    (throw fault : Work α).on b = (.error fault, b) := rfl

/-- One piece of work after another: the second starts on the bench the
first has left, unless the first failed. -/
theorem on_bind (w : Work α) (k : α → Work β) :
    (w >>= k).on b = match w.on b with
      | (.ok a, b) => (k a).on b
      | (.error fault, b) => (.error fault, b) := by
  simp only [on, ExceptT.run_bind, StateT.run_bind]
  rcases w.run.run b with ⟨_ | _, _⟩ <;> rfl

@[simp] theorem on_ofExcept (r : Except Fault α) :
    (ofExcept r : Work α).on b = (r, b) := by
  cases r <;> rfl

@[simp] theorem on_onCache (f : StateCache → StateCache) :
    (onCache f).on b = (.ok (), { b with cache := f b.cache }) := rfl

@[simp] theorem on_onTrace (f : Trace → Trace) :
    (onTrace f).on b = (.ok (), { b with trace := f b.trace }) := rfl

/-- Work that is attempted returns what came of it. -/
@[simp] theorem on_attempt (w : Work α) :
    (attempt w).on b = (.ok (w.on b).1, (w.on b).2) := rfl

@[simp] theorem on_entering (line : Int) :
    (entering line).on b = (.ok (b.cache.entering line), b) := rfl

/-- Storing answers whether the entry changed. -/
@[simp] theorem on_store (line : Nat) (state : TokenState) :
    (store line state).on b = (.ok (b.cache.insert line state).1,
      { b with cache := (b.cache.insert line state).2 }) := rfl

/-- The trace says that the engine was called, and with which line. -/
@[simp] theorem on_ask (engine : Engine) (line : Line)
    (entering : TokenState) :
    (ask engine line entering).on b = (engine line entering,
      { b with trace := b.trace.called line }) := by
  simp [ask, on_bind]

end

end Work

end Relex
