/-
Controllers mind their own business.

That calls of others and work on their caches leave a controller
undisturbed is shown where calm is defined. Here it is shown of what else
may be done to the others: they are attached and disposed of
(`undisturbed_withNew`, `undisturbed_retire`), and their documents are
edited (`undisturbed_edit`).

The engines of the others must not fail, for in strict mode a fault ends
the round. They do not as long as no other is given one that may.
-/
import Relex.Proofs.Workspace.Following
import Relex.Proofs.Workspace.Grounded

namespace Relex.Workspace

variable {ws : Workspace} {p : Place} {i buffer : Nat}

-- ======================================================== controllers

/-- A controller that is there is not disturbed by new ones, as long as
these have no engines. -/
theorem undisturbed_concat (ws : Workspace)
    (hp : p.controller < ws.controllers.length) {k : Controller}
    (hk : k.tokenizer = none) :
    Undisturbed p ws { ws with controllers := ws.controllers ++ [k] } := by
  have hself : (ws.controllers ++ [k])[p.controller]?
      = ws.controllers[p.controller]? := List.getElem?_append_left hp
  refine ⟨rfl, hself, rfl, fun h => ⟨h.listed, h.registered,
    fun k hk => h.seated k (hself ▸ hk), h.habits, ?_, h.lenient⟩⟩
  intro hs j k' t hk' hj ht
  rcases getElem?_concat_eq_some hk' with hk' | ⟨-, rfl⟩
  · exact h.total hs j k' t hk' hj ht
  · rw [hk] at ht
    cases ht

/-- Attaching a controller without a tokenizer disturbs none that is
there. -/
theorem undisturbed_withNew (ws : Workspace)
    (hp : p.controller < ws.controllers.length) (buffer : Nat) :
    Undisturbed p ws (ws.withNew buffer none true) := by
  have hlisted : Undisturbed p ws { ws with
      buffers := ws.buffers.modify buffer
        (relist (· ++ [.controller ws.controllers.length]))
      registrations := ws.registrations
        ++ [⟨buffer, .controller ws.controllers.length, true⟩] } := by
    refine Undisturbed.of_relist ws buffer ?_ ?_
    · intro ls
      have hne : ws.controllers.length ≠ p.controller := by omega
      simp [hne]
    · intro j s hs hl
      rcases getElem?_concat_eq_some hs with hs | ⟨-, rfl⟩
      · exact ⟨s, hs, rfl⟩
      · have := Listener.controller.inj hl
        omega
  refine hlisted.trans (undisturbed_concat _ ?_ (k :=
    ⟨buffer, none, .empty, some ws.registrations.length, false⟩) rfl)
  exact hp

/-- Disposing of a controller disturbs none with another registration. -/
theorem undisturbed_retire (h : ws.Calm p) (hi : i ≠ p.controller)
    (hr : ∀ k, ws.controllers[i]? = some k →
      k.registration ≠ some p.registration) :
    Undisturbed p ws (ws.retire i) := by
  refine retire_keeps (.refl p ws) ?_ ?_
  · intro k r hk hreg
    refine undisturbed_unsubscribe h ?_
    rintro rfl
    exact hr k hk hreg
  · intro ws' hu
    refine hu.trans (undisturbed_modify ws' hi ?_)
    intro k t ht
    cases ht

-- ============================================================== edits

/-- Editing another document disturbs no controller, if no watcher has
plans. -/
theorem undisturbed_edit (h : ws.Calm p) (hb : buffer ≠ p.buffer)
    (hplans : ws.plans = []) (changes : List Change) :
    Undisturbed p ws ((edit buffer changes).on ws).2 := by
  unfold edit
  rw [Act.on_bind, Act.on_get]
  dsimp only
  unfold applyBatch
  cases hbuffer : ws.buffers[buffer]? with
  | none =>
      dsimp only
      rw [Act.on_bind, Act.on_set]
      dsimp only
      rw [on_bind_pure_snd, Act.on_of, deliverAll]
      exact .refl p ws
  | some b =>
      dsimp only
      cases happly : b.document.apply changes with
      | error e => exact .refl p ws
      | ok r =>
          obtain ⟨d, applied⟩ := r
          have hset := undisturbed_set ws hb ⟨d, b.listeners⟩
          -- the round tells of another document
          have hforeign : ∀ e ∈ b.listeners.map fun l =>
              (⟨l, buffer, applied⟩ : Delivery), e.Foreign p := by
            intro e he
            obtain ⟨l, -, rfl⟩ := List.mem_map.1 he
            exact ⟨fun _ => hb, Document.isValid_of_apply happly⟩
          have hnone : ∀ plan ∈ ws.plans, Harmless plan p.buffer := by
            simp [hplans]
          obtain ⟨left, ws', hround, -, heq⟩ :=
            deliverAll_foreign (hset.calm h) hnone hforeign []
          rw [List.append_nil] at heq
          dsimp only
          rw [Act.on_bind, Act.on_set]
          dsimp only
          rw [on_bind_pure_snd, Act.on_of, heq, deliverAll]
          exact hset.trans (hround.trans
            (.of_notes p ws' left ws'.trace ws'.sightings))

end Relex.Workspace
