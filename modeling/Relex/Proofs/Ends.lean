/-
How work ends that may fail.

`Ends w s returns fails` says of work started in a state that it ends in
one of two ways: it returns something, and then `returns` holds of that
and of the state it leaves, or it fails, and then `fails` holds of the
fault and of the state it leaves. Since what failing work has done
stands, both ways matter, and both are carried through a sequence of
steps (`Ends.bind`).

The rules for the kinds of work on a cache follow.
-/
import Relex.Work

namespace Relex

/-- Work started in a state ends so that what it returns, or the fault it
fails with, and the state it leaves are as said. -/
def Ends {σ α : Type} (w : ExceptT Fault (StateM σ) α) (s : σ)
    (returns : α → σ → Prop) (fails : Fault → σ → Prop) : Prop :=
  match (w.run.run s : Except Fault α × σ) with
  | (.ok a, s') => returns a s'
  | (.error fault, s') => fails fault s'

namespace Ends

section

variable {σ α β : Type} {s : σ} {w : ExceptT Fault (StateM σ) α}
  {returns returns' : α → σ → Prop} {fails fails' : Fault → σ → Prop}

theorem pure {a : α} (h : returns a s) :
    Ends (Pure.pure a : ExceptT Fault (StateM σ) α) s returns fails := h

theorem throw {fault : Fault} (h : fails fault s) :
    Ends (MonadExcept.throw fault : ExceptT Fault (StateM σ) α) s returns
      fails := h

/-- The second step starts with what the first returns. If the first
fails, that is how the whole ends. -/
theorem bind {k : α → ExceptT Fault (StateM σ) β}
    {returns : β → σ → Prop}
    (h : Ends w s (fun a s' => Ends (k a) s' returns fails) fails) :
    Ends (w >>= k) s returns fails := by
  unfold Ends at *
  rw [ExceptT.run_bind, StateT.run_bind]
  rcases hw : (w.run.run s : Except Fault α × σ) with ⟨_ | a, s'⟩
  · rw [hw] at h
    exact h
  · rw [hw] at h
    exact h

/-- A run that returned ends as it did. -/
theorem of_ok {a : α} {s' : σ}
    (hw : (w.run.run s : Except Fault α × σ) = (.ok a, s'))
    (h : returns a s') : Ends w s returns fails := by
  unfold Ends
  rw [hw]
  exact h

/-- And so does one that failed. -/
theorem of_error {fault : Fault} {s' : σ}
    (hw : (w.run.run s : Except Fault α × σ) = (.error fault, s'))
    (h : fails fault s') : Ends w s returns fails := by
  unfold Ends
  rw [hw]
  exact h

/-- The two ways in which work can have ended. -/
theorem elim (h : Ends w s returns fails) :
    (∃ a s', (w.run.run s : Except Fault α × σ) = (.ok a, s')
        ∧ returns a s')
      ∨ ∃ fault s', (w.run.run s : Except Fault α × σ)
          = (.error fault, s') ∧ fails fault s' := by
  unfold Ends at h
  rcases hw : (w.run.run s : Except Fault α × σ) with ⟨fault | a, s'⟩
  · rw [hw] at h
    exact .inr ⟨fault, s', rfl, h⟩
  · rw [hw] at h
    exact .inl ⟨a, s', rfl, h⟩

/-- What holds of the state that is left, however the work ends. -/
theorem left (h : Ends w s returns fails) {leaves : σ → Prop}
    (hreturns : ∀ a s', returns a s' → leaves s')
    (hfails : ∀ fault s', fails fault s' → leaves s') :
    leaves ((w.run.run s : Except Fault α × σ).2) := by
  rcases h.elim with ⟨a, s', hw, h⟩ | ⟨fault, s', hw, h⟩
  · rw [hw]
    exact hreturns a s' h
  · rw [hw]
    exact hfails fault s' h

/-- What is said of the end may be weakened. -/
theorem mono (h : Ends w s returns fails)
    (hreturns : ∀ a s', returns a s' → returns' a s')
    (hfails : ∀ fault s', fails fault s' → fails' fault s') :
    Ends w s returns' fails' := by
  rcases h.elim with ⟨a, s', hw, h⟩ | ⟨fault, s', hw, h⟩
  · exact .of_ok hw (hreturns a s' h)
  · exact .of_error hw (hfails fault s' h)

/-- What two descriptions say of one run, together. -/
theorem and (h : Ends w s returns fails) (h' : Ends w s returns' fails') :
    Ends w s (fun a s' => returns a s' ∧ returns' a s')
      (fun fault s' => fails fault s' ∧ fails' fault s') := by
  unfold Ends at *
  rcases hw : (w.run.run s : Except Fault α × σ) with ⟨_ | _, s'⟩
  · rw [hw] at h h'
    exact ⟨h, h'⟩
  · rw [hw] at h h'
    exact ⟨h, h'⟩

/-- Work that cannot fail returns. -/
theorem exists_ok (h : Ends w s returns fun _ _ => False) :
    ∃ a s', (w.run.run s : Except Fault α × σ) = (.ok a, s')
      ∧ returns a s' :=
  h.elim.resolve_right fun ⟨_, _, _, hfalse⟩ => hfalse

end

-- ==================================================== work on a cache

section

open Work

variable {α : Type} {b : Bench} {fails : Fault → Bench → Prop}

theorem onCache {f : StateCache → StateCache}
    {returns : Unit → Bench → Prop}
    (h : returns () { b with cache := f b.cache }) :
    Ends (Work.onCache f) b returns fails := h

theorem onTrace {f : Trace → Trace} {returns : Unit → Bench → Prop}
    (h : returns () { b with trace := f b.trace }) :
    Ends (Work.onTrace f) b returns fails := h

theorem entering {line : Int} {returns : TokenState → Bench → Prop}
    (h : returns (b.cache.entering line) b) :
    Ends (Work.entering line) b returns fails := h

theorem store {line : Nat} {state : TokenState}
    {returns : Bool → Bench → Prop}
    (h : returns (b.cache.insert line state).1
      { b with cache := (b.cache.insert line state).2 }) :
    Ends (Work.store line state) b returns fails := h

/-- The engine's answer is what asking it returns, the engine's fault
what asking it fails with. -/
theorem ask {engine : Engine} {line : Line} {s : TokenState}
    {returns : LineResult → Bench → Prop}
    (hok : ∀ a, engine line s = .ok a →
      returns a { b with trace := b.trace.called line })
    (hfault : ∀ fault, engine line s = .error fault →
      fails fault { b with trace := b.trace.called line }) :
    Ends (Work.ask engine line s) b returns fails := by
  have hask := on_ask b engine line s
  cases h : engine line s with
  | error fault =>
      rw [h] at hask
      exact .of_error hask (hfault fault h)
  | ok a =>
      rw [h] at hask
      exact .of_ok hask (hok a h)

/-- Work that is attempted does not fail; it returns its fault. -/
theorem attempt {w : Work α}
    {returns : Except Fault α → Bench → Prop}
    (h : Ends w b (fun a => returns (.ok a))
      fun fault => returns (.error fault)) :
    Ends (Work.attempt w) b returns fails := by
  have hattempt := on_attempt b w
  unfold on at hattempt
  rcases h.elim with ⟨a, b', hw, h⟩ | ⟨fault, b', hw, h⟩
  · rw [hw] at hattempt
    exact .of_ok hattempt h
  · rw [hw] at hattempt
    exact .of_ok hattempt h

end

end Ends

end Relex
