/-
Controllers whose engines never fail.

Building, rebuilding and taking another tokenizer go through with an
engine that never fails, and without an engine; the cache is then what
keeps up with the document, or empty. Nothing else in the workspace is
changed but the trace. So it is for queries, which leave the cache as it
is, also if they fail.
-/
import Relex.Proofs.Lookup
import Relex.Proofs.Workspace.Following
import Relex.Proofs.Workspace.Grounded
import Relex.Workspace.Scopes

namespace Relex.Workspace

variable {ws : Workspace} {c : Nat} {k : Controller} {d : Document}

/-- Whatever configuration work is done under, afterwards the one is
active that was before. -/
theorem underConfig?_on {α : Type} {work : Act α} {ws : Workspace}
    {Q : Except Fault α → Workspace → Prop}
    (hwork : ∀ a : Ambient, ∃ result ws',
      work.on { ws with config := a } = (result, { ws' with config := a })
        ∧ Q result ws') (config : Option Config) :
    ∃ result ws', (underConfig? config work).on ws
        = (result, { ws' with config := ws.config })
      ∧ Q result ws' := by
  cases config with
  | none => exact hwork ws.config
  | some config =>
      obtain ⟨result, ws', hon, hq⟩ := hwork (ws.config.enter config)
      refine ⟨result, ws', ?_, hq⟩
      show (underConfig config work).on ws = _
      unfold underConfig
      rw [Act.on_of, hon]
      rfl

/-- Changing a controller into itself changes nothing. -/
theorem modifyController_self {f : Controller → Controller}
    (hk : ws.controllers[c]? = some k) (hf : f k = k) :
    ws.modifyController c f = ws := by
  have hsame : ws.controllers.modify c f = ws.controllers := by
    refine List.ext_getElem? fun j => ?_
    rw [List.getElem?_modify]
    by_cases hj : c = j
    · subst hj
      rw [hk]
      simp [hf]
    · simp [hj]
  unfold modifyController
  rw [hsame]

theorem leave_self (hk : ws.controllers[c]? = some k) :
    ws.leave c ⟨k.cache, ws.trace⟩ = ws :=
  modifyController_self hk rfl

theorem leave_leave (ws : Workspace) (c : Nat) (b b' : Bench) :
    (ws.leave c b).leave c b' = ws.leave c b' := by
  show ({ ws with
    controllers := (ws.controllers.modify c _).modify c _
    trace := b'.trace } : Workspace) = _
  rw [List.modify_modify_eq]
  rfl

theorem leave_cache (hk : ws.controllers[c]? = some k) (trace : Trace) :
    ws.leave c ⟨k.cache, trace⟩ = { ws with trace } := by
  have hself := congrArg (fun ws : Workspace => { ws with trace })
    (leave_self hk)
  exact hself

/-- Building without an engine does nothing, and with one that never
fails it goes through. -/
theorem build_on (hseat : ws.seat? c = some (k, d))
    (ht : ∀ t, k.tokenizer = some t → t.engine.Total)
    (hcache : k.cache = .empty) :
    ∃ b : Bench, (build c).on ws = (.ok (), ws.leave c b)
      ∧ KeepsUp { k with cache := b.cache } d.lines
      ∧ (k.tokenizer = none → b.cache = .empty) := by
  unfold build
  cases hk : k.tokenizer with
  | none =>
      refine ⟨⟨k.cache, ws.trace⟩, ?_, ?_, fun _ => hcache⟩
      · rw [whenReady_of_inert hseat hk,
          leave_self (seat?_eq_some.1 hseat).1]
      · intro t hnone
        cases hnone
  | some t =>
      have hends : Ends (Reparse.build d t.engine) ⟨k.cache, ws.trace⟩
          _ _ := Reparse.ends_build (hcache ▸ StateCache.soundBut_empty)
      rcases hends.elim with ⟨_, b, hw, hb⟩ | ⟨_, _, _, hnot, _⟩
      · refine ⟨b, ?_, ?_, fun hnone => by cases hnone⟩
        · rw [whenReady_of_ready hseat hk,
            show (Reparse.build d t.engine).on _ = _ from hw]
        · intro u hu
          obtain rfl := Option.some.inj hu
          exact hb
      · exact absurd (ht t hk) hnot

/-- Rebuilding goes through. -/
theorem rebuild_on (hseat : ws.seat? c = some (k, d))
    (ht : ∀ t, k.tokenizer = some t → t.engine.Total) :
    ∃ b : Bench, (rebuild c).on ws = (.ok (), ws.leave c b)
      ∧ KeepsUp { k with cache := b.cache } d.lines
      ∧ (k.tokenizer = none → b.cache = .empty) := by
  obtain ⟨b, hon, hkeeps⟩ :=
    build_on (seat?_leave hseat ⟨.empty, ws.trace⟩) ht rfl
  refine ⟨b, ?_, hkeeps⟩
  unfold rebuild
  rw [Act.on_bind, Act.on_modify]
  show (build c).on (ws.leave c ⟨.empty, ws.trace⟩) = _
  rw [hon, leave_leave]

/-- A controller that was not disposed of takes a tokenizer whose engine
never fails. -/
theorem equip_on (hseat : ws.seat? c = some (k, d))
    (hlive : k.disposed = false) {t : Engine.Tokenizer}
    (ht : t.engine.Total) :
    ∃ b : Bench, (equip c (some t)).on ws
        = (.ok (), { ws.modifyController c fun k =>
            { k with tokenizer := some t, cache := b.cache } with
          trace := b.trace })
      ∧ KeepsUp { k with tokenizer := some t, cache := b.cache }
        d.lines := by
  obtain ⟨hk, hd⟩ := seat?_eq_some.1 hseat
  have hgiven : (ws.modifyController c fun k =>
      { k with tokenizer := some t }).seat? c
      = some ({ k with tokenizer := some t }, d) := by
    refine seat?_eq_some.2 ⟨?_, hd⟩
    show (ws.controllers.modify c _)[c]? = _
    rw [List.getElem?_modify_eq, hk]
    rfl
  obtain ⟨b, hon, hkeeps, -⟩ := rebuild_on hgiven fun u hu => by
    obtain rfl := Option.some.inj hu
    exact ht
  refine ⟨b, ?_, hkeeps⟩
  unfold equip
  rw [Act.on_bind, Act.on_get]
  dsimp only
  rw [hk]
  dsimp only
  rw [hlive, if_neg Bool.false_ne_true, Act.on_bind, Act.on_modify]
  dsimp only
  rw [hon]
  show (_, { ws with
    controllers := (ws.controllers.modify c _).modify c _
    trace := b.trace }) = _
  rw [List.modify_modify_eq]
  rfl

/-- A query leaves the cache as it is. -/
theorem whenAttached_left {α : Type} {answer : α}
    {work : Document → Option Engine → Work α}
    (hseat : ws.seat? c = some (k, d))
    (hcache : ∀ b : Bench, ((work d k.engine?).on b).2.cache = b.cache) :
    ∃ result trace, (whenAttached c answer work).on ws
      = (result, ws.leave c ⟨k.cache, trace⟩) := by
  have hon : (whenAttached c answer work).on ws
      = (((work d k.engine?).on ⟨k.cache, ws.trace⟩).1,
        ws.leave c ((work d k.engine?).on ⟨k.cache, ws.trace⟩).2) := by
    unfold whenAttached
    rw [Act.on_bind, Act.on_get]
    dsimp only
    rw [hseat]
    rfl
  have hsame := hcache ⟨k.cache, ws.trace⟩
  generalize (work d k.engine?).on ⟨k.cache, ws.trace⟩ = done at hon hsame
  obtain ⟨result, cache, trace⟩ := done
  obtain rfl : cache = k.cache := hsame
  exact ⟨result, trace, hon⟩

theorem lookup_left (hseat : ws.seat? c = some (k, d)) (p : Position) :
    ∃ result trace, (lookup c p).on ws
      = (result, ws.leave c ⟨k.cache, trace⟩) := by
  unfold lookup
  rw [Act.on_bind, Act.on_get]
  exact whenAttached_left hseat (Lookup.token_cache d · k.engine? _ p)

/-- Attaching a controller without a tokenizer builds nothing. -/
theorem attach_inert (ws : Workspace) (buffer : Nat) :
    (attach buffer none true).on ws
      = (.ok ws.controllers.length, ws.withNew buffer none true) := by
  rw [attach_on, Act.on_bind]
  unfold build
  cases hseat : (ws.withNew buffer none true).seat?
      ws.controllers.length with
  | none => rw [whenReady_of_no_seat hseat]; rfl
  | some seat =>
      obtain ⟨k, d⟩ := seat
      have hk : (ws.withNew buffer none true).controllers[
          ws.controllers.length]? = some _ := List.getElem?_concat_length
      obtain rfl := Option.some.inj
        (hk.symm.trans (seat?_eq_some.1 hseat).1)
      rw [whenReady_of_inert hseat rfl]
      rfl

end Relex.Workspace
