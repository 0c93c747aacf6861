/-
Controllers that are looked after.

A host that looks after controllers attaches them without a tokenizer,
gives them one later, has their caches built anew, and disposes of them;
meanwhile the documents are edited. Each of its controllers, those from a
number on, then serves its document or is gone (`Tended`).

Each of the acts keeps this. Only attaching and disposing change where
controllers stand; the others leave all of them where they were
(`Stays`).
-/
import Relex.Proofs.Workspace.Equivalence
import Relex.Proofs.Workspace.Prompt
import Relex.Proofs.Workspace.Standing

namespace Relex.Workspace

/-- Nothing in the workspace is in the way of controllers: listeners and
registrations agree, watchers have no plans, do not fail and dispose of
no registrations to come, and no engine fails. -/
structure Clear (ws : Workspace) : Prop where
  grounded : ws.Grounded
  booked : ws.Booked
  plans : ws.plans = []
  habits : ∀ w ∈ ws.watchers, ∀ habit ∈ w.habits,
    (∀ i, habit = .dispose i → i < ws.registrations.length)
      ∧ ∀ words, habit ≠ .fail words
  total : ∀ k ∈ ws.controllers, ∀ t, k.tokenizer = some t →
    t.engine.Total

/-- The controllers from a number on serve their documents or are gone,
and nothing is in their way. -/
structure Tended (ws : Workspace) (n : Nat) : Prop extends ws.Clear where
  made : n ≤ ws.controllers.length
  each : ∀ (c : Nat) (k : Controller), n ≤ c →
    ws.controllers[c]? = some k →
    Gone ws c k ∨ ∃ r d, Serves ws c r k d

/-- Controllers are still looked after, each stands where it stood, and
the URIs and the configuration are the same. -/
structure Stays (n : Nat) (ws ws' : Workspace) : Prop where
  tended : ws'.Tended n
  standing : ws'.standing = ws.standing
  uri : ∀ b, ws'.uri? b = ws.uri? b
  config : ws'.config = ws.config

variable {ws ws' : Workspace} {n c r b : Nat} {k : Controller}
  {d : Document}

/-- At first nobody is looked after. -/
theorem Clear.tended (h : ws.Clear) :
    ws.Tended ws.controllers.length := by
  refine ⟨h, le_rfl, ?_⟩
  intro c k hc hk
  have := (List.getElem?_eq_some_iff.1 hk).1
  omega

namespace Tended

/-- A controller from the number on that was not disposed of serves. -/
theorem serves (h : ws.Tended n) (hc : n ≤ c)
    (hk : ws.controllers[c]? = some k) (hlive : k.disposed = false) :
    ∃ r d, Serves ws c r k d := by
  rcases h.each c k hc hk with hgone | hserves
  · rw [hgone.disposed] at hlive
    cases hlive
  · exact hserves

-- ====================================================== what is noted

theorem traced (h : ws.Tended n) (trace : Trace) :
    Tended { ws with trace } n := by
  refine ⟨⟨h.grounded.of_notes rfl rfl le_rfl,
    h.booked.of_notes rfl rfl, h.plans, h.habits, h.total⟩, h.made, ?_⟩
  intro c k hc hk
  rcases h.each c k hc hk with hgone | ⟨r, d, hserves⟩
  · exact .inl ⟨hgone.1, hgone.2, hgone.3, hgone.4, hgone.5⟩
  · exact .inr ⟨r, d, hserves.undisturbed
      (.of_notes _ ws ws.plans trace ws.sightings)⟩

theorem configure (h : ws.Tended n) (config : Ambient) :
    Tended { ws with config } n := by
  refine ⟨⟨h.grounded.of_notes rfl rfl le_rfl,
    h.booked.of_notes rfl rfl, h.plans, h.habits, h.total⟩, h.made, ?_⟩
  intro c k hc hk
  rcases h.each c k hc hk with hgone | ⟨r, d, hserves⟩
  · exact .inl ⟨hgone.1, hgone.2, hgone.3, hgone.4, hgone.5⟩
  · exact .inr ⟨r, d, hserves.configure config⟩

-- ================================================ caches and tokenizers

/-- A controller that serves may be given any cache it keeps up with, and
any tokenizer that never fails. -/
theorem modify (h : ws.Tended n) (hserves : Serves ws c r k d)
    {f : Controller → Controller}
    (hf : ∀ k, (f k).buffer = k.buffer ∧ (f k).disposed = k.disposed
      ∧ (f k).registration = k.registration)
    (htotal : ∀ k t, (f k).tokenizer = some t →
      k.tokenizer = some t ∨ t.engine.Total)
    (hkeeps : KeepsUp (f k) d.lines)
    (hbare : (f k).tokenizer = none → (f k).cache = .empty) :
    (ws.modifyController c f).Tended n := by
  have hget : ∀ j : Nat, (ws.modifyController c f).controllers[j]?
      = (ws.controllers[j]?).map fun k => if c = j then f k else k :=
    fun j => List.getElem?_modify ..
  refine ⟨⟨h.grounded.modifyController c f, h.booked.of_notes rfl rfl,
    h.plans, h.habits, ?_⟩, ?_, ?_⟩
  · intro k' hk' t ht
    obtain ⟨j, hj⟩ := List.mem_iff_getElem?.1 hk'
    rw [hget] at hj
    obtain ⟨k, hk, rfl⟩ := Option.map_eq_some_iff.1 hj
    have hold := h.total k (List.mem_of_getElem? hk) t
    split at ht
    · exact (htotal k t ht).elim hold id
    · exact hold ht
  · show n ≤ (ws.controllers.modify c f).length
    rw [List.length_modify]
    exact h.made
  · intro j k' hj hk'
    rw [hget] at hk'
    obtain ⟨k'', hk'', rfl⟩ := Option.map_eq_some_iff.1 hk'
    -- the others are not disturbed
    by_cases hjc : c = j
    · subst hjc
      obtain rfl := Option.some.inj
        (hk''.symm.trans hserves.seated.controller)
      rw [if_pos rfl]
      refine .inr ⟨r, d, ?_, hkeeps, ?_, hbare⟩
      · rw [(hf k'').1]
        exact hserves.seated.modify (fun k => ⟨(hf k).1, (hf k).2.1⟩) rfl
      · rw [(hf k'').2.2]
        exact hserves.registration
    · rw [if_neg hjc]
      rcases h.each j k'' hj hk'' with hgone | ⟨r', d', hother⟩
      · exact .inl ⟨hgone.1, hgone.2, hgone.3, hgone.4, hgone.5⟩
      · exact .inr ⟨r', d', hother.undisturbed
          (undisturbed_modify ws hjc htotal)⟩

/-- The same with what is noted down on the way. -/
theorem leave (h : ws.Tended n) (hserves : Serves ws c r k d)
    {f : Controller → Controller}
    (hf : ∀ k, (f k).buffer = k.buffer ∧ (f k).disposed = k.disposed
      ∧ (f k).registration = k.registration)
    (htotal : ∀ k t, (f k).tokenizer = some t →
      k.tokenizer = some t ∨ t.engine.Total)
    (hkeeps : KeepsUp (f k) d.lines)
    (hbare : (f k).tokenizer = none → (f k).cache = .empty)
    (hleft : ∃ trace, ws' = { ws.modifyController c f with trace }) :
    Stays n ws ws' := by
  obtain ⟨trace, rfl⟩ := hleft
  refine ⟨(h.modify hserves hf htotal hkeeps hbare).traced trace, ?_,
    fun _ => rfl, rfl⟩
  funext j
  refine standing_congr ?_ fun _ => rfl
  show ((ws.controllers.modify c f)[j]?).map _ = _
  rw [List.getElem?_modify]
  cases ws.controllers[j]? with
  | none => rfl
  | some k =>
      by_cases hj : c = j <;> simp [hj, hf k]

variable {uri : String}

/-- A controller that was not disposed of serves the document of its
URI. -/
theorem serves_of_standing (h : ws.Tended n) (hc : n ≤ c)
    (hs : ws.standing c = some (false, some uri)) :
    ∃ r k d, Serves ws c r k d ∧ d.uri = uri := by
  obtain ⟨k, hk, he⟩ := Option.map_eq_some_iff.1 hs
  obtain ⟨r, d, hserves⟩ := h.serves hc hk (congrArg Prod.fst he)
  rw [standing_of_seat? hserves.seat?_eq] at hs
  have huri := congrArg Prod.snd (Option.some.inj hs)
  exact ⟨r, k, d, hserves, Option.some.inj huri⟩

theorem rebuild (h : ws.Tended n) (hc : n ≤ c)
    (hs : ws.standing c = some (false, some uri)) (config : Option Config) :
    ∃ ws', (underConfig? config (Workspace.rebuild c)).on ws
        = (.ok (), ws') ∧ Stays n ws ws' := by
  obtain ⟨r, k, d, hserves, -⟩ := h.serves_of_standing hc hs
  have htotal := h.total k (List.mem_of_getElem? hserves.seated.controller)
  have hwork : ∀ a : Ambient, ∃ result ws',
      (Workspace.rebuild c).on { ws with config := a }
          = (result, { ws' with config := a })
        ∧ result = .ok () ∧ ∃ b : Bench, ws' = ws.leave c b
          ∧ KeepsUp { k with cache := b.cache } d.lines
          ∧ (k.tokenizer = none → b.cache = .empty) := by
    intro a
    obtain ⟨b, hon, hb⟩ := rebuild_on (hserves.configure a).seat?_eq htotal
    exact ⟨_, ws.leave c b, hon, rfl, b, rfl, hb⟩
  obtain ⟨_, _, hon, rfl, b, rfl, hkeeps, hbare⟩ :=
    underConfig?_on hwork config
  refine ⟨_, hon, h.leave hserves (f := fun k =>
    { k with cache := b.cache }) (fun _ => ⟨rfl, rfl, rfl⟩)
    (fun _ _ ht => .inl ht) hkeeps hbare ⟨b.trace, rfl⟩⟩

theorem equip (h : ws.Tended n) (hc : n ≤ c)
    (hs : ws.standing c = some (false, some uri)) {t : Engine.Tokenizer}
    (ht : t.engine.Total) (config : Option Config) :
    ∃ ws', (underConfig? config (Workspace.equip c (some t))).on ws
        = (.ok (), ws') ∧ Stays n ws ws' := by
  obtain ⟨r, k, d, hserves, -⟩ := h.serves_of_standing hc hs
  have hwork : ∀ a : Ambient, ∃ result ws',
      (Workspace.equip c (some t)).on { ws with config := a }
          = (result, { ws' with config := a })
        ∧ result = .ok () ∧ ∃ b : Bench,
          ws' = { ws.modifyController c fun k =>
            { k with tokenizer := some t, cache := b.cache } with
            trace := b.trace }
          ∧ KeepsUp { k with tokenizer := some t, cache := b.cache }
            d.lines := by
    intro a
    obtain ⟨b, hon, hb⟩ :=
      equip_on (hserves.configure a).seat?_eq hserves.live ht
    exact ⟨_, _, hon, rfl, b, rfl, hb⟩
  obtain ⟨_, _, hon, rfl, b, rfl, hkeeps⟩ := underConfig?_on hwork config
  refine ⟨_, hon, h.leave hserves (f := fun k =>
    { k with tokenizer := some t, cache := b.cache })
    (fun _ => ⟨rfl, rfl, rfl⟩) ?_ hkeeps (fun hnone => by cases hnone)
    ⟨b.trace, rfl⟩⟩
  intro _ u hu
  obtain rfl := Option.some.inj hu
  exact .inr ht

theorem lookup (h : ws.Tended n) (hc : n ≤ c)
    (hs : ws.standing c = some (false, some uri)) (p : Position)
    (config : Option Config) :
    ∃ result ws', (underConfig? config (Workspace.lookup c p)).on ws
        = (result, ws') ∧ Stays n ws ws' := by
  obtain ⟨r, k, d, hserves, -⟩ := h.serves_of_standing hc hs
  have hwork : ∀ a : Ambient, ∃ result ws',
      (Workspace.lookup c p).on { ws with config := a }
          = (result, { ws' with config := a })
        ∧ ∃ trace, ws' = ws.leave c ⟨k.cache, trace⟩ := by
    intro a
    obtain ⟨result, trace, hon⟩ :=
      lookup_left (hserves.configure a).seat?_eq p
    exact ⟨result, _, hon, trace, rfl⟩
  obtain ⟨result, _, hon, trace, rfl⟩ := underConfig?_on hwork config
  exact ⟨result, _, hon, h.leave hserves (f := fun k' =>
    { k' with cache := k.cache }) (fun _ => ⟨rfl, rfl, rfl⟩)
    (fun _ _ ht => .inl ht) hserves.keepsUp hserves.bare ⟨trace, rfl⟩⟩

/-- Controllers are rebuilt one after the other. -/
theorem rebuildAll (h : ws.Tended n) {cs : List Nat}
    (hcs : ∀ c ∈ cs, n ≤ c
      ∧ ∃ uri, ws.standing c = some (false, some uri)) :
    ∃ ws', (cs.forM Workspace.rebuild).on ws = (.ok (), ws')
      ∧ Stays n ws ws' := by
  induction cs generalizing ws with
  | nil => exact ⟨ws, rfl, h, rfl, fun _ => rfl, rfl⟩
  | cons c cs ih =>
      obtain ⟨hc, uri, hs⟩ := hcs c (by simp)
      obtain ⟨ws₁, hon, hfirst⟩ := h.rebuild hc hs none
      obtain ⟨ws₂, hon', hrest⟩ := ih hfirst.tended fun c hc => by
        rw [hfirst.standing]
        exact hcs c (List.mem_cons_of_mem _ hc)
      refine ⟨ws₂, ?_, hrest.tended, hrest.standing.trans hfirst.standing,
        fun b => (hrest.uri b).trans (hfirst.uri b),
        hrest.config.trans hfirst.config⟩
      have hon : (Workspace.rebuild c).on ws = (.ok (), ws₁) := hon
      rw [List.forM_eq_forM, List.forM_cons, Act.on_bind, hon]
      exact hon'

end Tended

-- ============================================================ attaching

theorem Clear.quiet (h : ws.Clear) (b : Nat) : ws.Quiet b := by
  refine h.grounded.quiet ?_ ?_
  · intro w hw habit hh
    refine ⟨fun he => ?_, (h.habits w hw habit hh).2⟩
    exact Nat.lt_irrefl _ ((h.habits w hw habit hh).1 _ he)
  · intro plan hp
    rw [h.plans] at hp
    cases hp

theorem Clear.withNew (h : ws.Clear) (b : Nat) :
    (ws.withNew b none true).Clear := by
  refine ⟨?_, ?_, h.plans, ?_, ?_⟩
  · have hgrounded := keeps_attach b none true ws h.grounded
    rw [attach_inert] at hgrounded
    exact hgrounded
  · exact (h.booked.subscribe b
      (.controller ws.controllers.length)).of_notes rfl rfl
  · intro w hw habit hh
    refine ⟨fun i hi => ?_, (h.habits w hw habit hh).2⟩
    have := (h.habits w hw habit hh).1 i hi
    show i < (ws.registrations ++ [_]).length
    rw [List.length_append]
    omega
  · intro k hk t ht
    rcases List.mem_append.1 hk with hk | hk
    · exact h.total k hk t ht
    · obtain rfl := List.mem_singleton.1 hk
      cases ht

/-- A controller is attached without a tokenizer. -/
theorem Tended.attach (h : ws.Tended n) (hd : ws.document? b = some d) :
    (ws.withNew b none true).Tended n := by
  refine ⟨h.toClear.withNew b, ?_, ?_⟩
  · show n ≤ (ws.controllers ++ [_]).length
    rw [List.length_append]
    exact Nat.le_add_right_of_le h.made
  · intro c k hc hk
    rcases getElem?_concat_eq_some hk with hk | ⟨rfl, rfl⟩
    · have hlt := (List.getElem?_eq_some_iff.1 hk).1
      rcases h.each c k hc hk with hgone | ⟨r, d', hserves⟩
      · exact .inl (hgone.withNew hlt b)
      · exact .inr ⟨r, d', hserves.undisturbed
          (undisturbed_withNew ws hlt b)⟩
    · have hseated := (h.quiet b).seated hd none
        (fun (_ : true = true) => h.total) fun _ => rfl
      exact .inr ⟨_, d, hseated, nofun, rfl, fun _ => rfl⟩

-- ============================================================ disposing

theorem Clear.retire (h : ws.Clear) (c : Nat) : (ws.retire c).Clear := by
  obtain ⟨hplans, hwatchers, hregistrations, -⟩ := retire_frame ws c
  refine ⟨h.grounded.retire c, h.booked.retire c, hplans.trans h.plans,
    ?_, ?_⟩
  · rw [hwatchers, hregistrations]
    exact h.habits
  · intro k hk t ht
    obtain ⟨j, hj⟩ := List.mem_iff_getElem?.1 hk
    rw [controllers_retire] at hj
    obtain ⟨k', hk', rfl⟩ := Option.map_eq_some_iff.1 hj
    split at ht
    · cases ht
    · exact h.total k' (List.mem_of_getElem? hk') t ht

/-- What is disposed of is gone. -/
theorem Tended.gone_retire (h : ws.Tended n) (hc : n ≤ c)
    (hk : ws.controllers[c]? = some k) :
    Gone (ws.retire c) c k.dropped := by
  refine ⟨rfl, rfl, rfl, rfl, ?_⟩
  rcases h.each c k hc hk with hgone | ⟨r, d, hserves⟩
  · exact hgone.silent.retire c
  · unfold Workspace.retire
    rw [hk]
    dsimp only
    rw [hserves.registration]
    exact hserves.silent

/-- Disposing of a controller that is looked after. -/
theorem Tended.retire (h : ws.Tended n) (hc : n ≤ c) :
    (ws.retire c).Tended n := by
  obtain ⟨-, -, -, hcontrollers⟩ := retire_frame ws c
  refine ⟨h.toClear.retire c, hcontrollers ▸ h.made, ?_⟩
  intro j k hj hk
  rw [controllers_retire] at hk
  obtain ⟨k', hk', rfl⟩ := Option.map_eq_some_iff.1 hk
  by_cases hcj : c = j
  · subst hcj
    rw [if_pos rfl]
    exact .inl (h.gone_retire hc hk')
  · rw [if_neg hcj]
    rcases h.each j k' hj hk' with hgone | ⟨r, d, hserves⟩
    · exact .inl ⟨hgone.1, hgone.2, hgone.3, hgone.4,
        hgone.silent.retire c⟩
    · refine .inr ⟨r, d, hserves.undisturbed
        (undisturbed_retire hserves.seated.calm hcj ?_)⟩
      intro k hk hr
      rcases h.each c k hc hk with hgone | ⟨r', d', hother⟩
      · cases hgone.registration.symm.trans hr
      · exact hother.ne hserves h.booked hcj
          (Option.some.inj (hother.registration.symm.trans hr))

-- ============================================================== edits

theorem Clear.edit (h : ws.Clear) (b : Nat) (changes : List Change) :
    ((Workspace.edit b changes).on ws).2.Clear := by
  have hframe := frame_edit ws b changes
  refine ⟨keeps_edit b changes ws h.grounded, h.booked.edit b changes,
    ?_, ?_, ?_⟩
  · rw [edit_on]
    cases happly : ws.applyBatch b changes with
    | error e => exact h.plans
    | ok result =>
        obtain ⟨applied, deliveries, ws'⟩ := result
        have hleft := (round_roundHistory ws'.plans deliveries
          ws').plans_subset
        have hnone := (batch_taking happly).plans_eq.trans h.plans
        exact List.subset_nil.1 (hnone ▸ hleft)
  · rw [hframe.watchers]
    intro w hw habit hh
    obtain ⟨hdispose, hfail⟩ := h.habits w hw habit hh
    exact ⟨fun i hi => (hdispose i hi).trans_le hframe.registrations,
      hfail⟩
  · intro k' hk' t ht
    obtain ⟨c, hc⟩ := List.mem_iff_getElem?.1 hk'
    obtain ⟨k, hk, halike⟩ := hframe.alike c k' hc
    exact h.total k (List.mem_of_getElem? hk) t (halike.tokenizer ▸ ht)

/-- A controller serves on when a document is edited, its own or
another. -/
theorem Serves.edit (h : Serves ws c r k d) (hplans : ws.plans = [])
    (b : Nat) (changes : List Change) :
    ∃ k' d', Serves ((Workspace.edit b changes).on ws).2 c r k' d' := by
  by_cases hb : b = k.buffer
  · subst hb
    have hfollows : Follows ws ⟨k.buffer, c, r, true⟩
        ⟨d, k.tokenizer, ws.config⟩ :=
      ⟨by simp [hplans], k, h.seated, h.keepsUp⟩
    obtain ⟨k', hseated, hkeeps⟩ := (hfollows.edit changes).seated
    obtain ⟨k₀, hk₀, halike⟩ := (frame_edit ws k.buffer changes).alike c k'
      hseated.controller
    obtain rfl := Option.some.inj (hk₀.symm.trans h.seated.controller)
    refine ⟨k', _, ?_, hkeeps, halike.registration.trans h.registration,
      ?_⟩
    · rw [halike.buffer, hseated.tokenizer, hseated.config]
      exact hseated
    · intro hnone
      rw [halike.tokenizer] at hnone
      rw [halike.cache hnone, h.bare hnone]
  · exact ⟨k, d, h.undisturbed
      (undisturbed_edit h.seated.calm hb hplans changes)⟩

/-- A document is edited, whether it is served or not. -/
theorem Tended.edit (h : ws.Tended n) (b : Nat) (changes : List Change) :
    ((Workspace.edit b changes).on ws).2.Tended n := by
  have hframe := frame_edit ws b changes
  refine ⟨h.toClear.edit b changes, hframe.controllers ▸ h.made, ?_⟩
  intro c k' hc hk'
  obtain ⟨k, hk, halike⟩ := hframe.alike c k' hk'
  rcases h.each c k hc hk with hgone | ⟨r, d, hserves⟩
  · exact .inl (hframe.gone hgone halike)
  · obtain ⟨k'', d', hserves'⟩ := hserves.edit h.plans b changes
    obtain rfl := Option.some.inj
      (hk'.symm.trans hserves'.seated.controller)
    exact .inr ⟨r, d', hserves'⟩

end Relex.Workspace
