/-
What becomes of a grammar that the host registers.

It takes the place of any other of its scope. The registry marks the scopes
that a loader provided, and forgetting what was loaded takes out those and
no others; but registering leaves the marks as they are, and a load that is
under way registers what it brings without looking. So of the entry of a
scope that the host registered, and did not register again, two things can
become (`keeps_registered`):

- a load that came in since has put its own grammar there;
- all that was loaded was forgotten, and a load of the scope had come in
  at some time since the last forgetting, before or after the registration.

Both happen (`displaced`). If no load of the scope comes in from the last
forgetting on, the entry stays.
-/
import Relex.Proofs.Arrivals
import Relex.Proofs.Service.Refetching

namespace Relex

-- ================================================================ loads

namespace Loads

variable {κ : Type} {l l' first : Loads κ} {g : Grammar} {scope : String}

theorem grammars_finishTokenizer (l : Loads κ) (scope : String)
    (g : Grammar) :
    (l.finishTokenizer scope (some g)).2.registry.grammars
        = l.registry.grammars
      ∧ (l.finishTokenizer scope (some g)).2.registry.loaded
        = l.registry.loaded := by
  unfold finishTokenizer
  dsimp only
  cases ht : l.registry.tokenizer scope g with
  | error e => exact ⟨rfl, rfl⟩
  | ok result =>
      obtain ⟨-, hsame | ⟨-, -, -, hgrammars, hloaded, -⟩⟩ :=
        Registry.tokenizer_cases ht
      · exact ⟨congrArg _ hsame, congrArg _ hsame⟩
      · exact ⟨hgrammars, hloaded⟩

/-- The scopes that are marked as loaded are those of which grammars came
in, and those that were marked to begin with. -/
structure Provided (first l : Loads κ) : Prop where
  later : Later first l
  marked : ∀ scope ∈ l.registry.loaded,
    scope ∈ first.registry.loaded ∨ Arrived first l scope

theorem Provided.refl (l : Loads κ) : Provided l l :=
  ⟨.refl l, fun _ h => .inl h⟩

theorem Provided.same (h : Provided first l) (hl : Later l l')
    (hloaded : l'.registry.loaded = l.registry.loaded) :
    Provided first l' := by
  refine ⟨h.later.trans hl, fun scope hscope => ?_⟩
  rw [hloaded] at hscope
  exact (h.marked scope hscope).imp_right (·.later hl)

/-- A grammar that came in marks its scope. -/
theorem Provided.came (h : Provided first l) (hl : Later l l')
    (hg : Brought l l' g)
    (hnew : l'.registry = l.registry.registerLoaded g) :
    Provided first l' := by
  refine ⟨h.later.trans hl, fun scope hscope => ?_⟩
  rw [hnew, Registry.mem_loaded_registerLoaded] at hscope
  rcases hscope with hscope | hscope
  · exact .inr ⟨g, hg.since h.later, hscope⟩
  · exact (h.marked scope hscope).imp_right (·.later hl)

theorem Provided.forgetLoaded (h : Provided first l) :
    Provided first l.forgetLoaded :=
  ⟨h.later, nofun⟩

/-- The entry of a grammar's scope is the grammar, or one that a load
brought since. There is none only if what was loaded was forgotten, and a
load of the scope had come in. -/
structure Holding (first : Loads κ) (g : Grammar) (forgotten : Prop)
    (l : Loads κ) : Prop extends Provided first l where
  entry : ∀ g', l.registry.get? g.scope = some g' →
    g' = g ∨ Brought first l g' ∧ g'.scope = g.scope
  gone : l.registry.get? g.scope = none → forgotten
    ∧ (g.scope ∈ first.registry.loaded ∨ Arrived first l g.scope)

variable {forgotten : Prop}

theorem Holding.same (h : Holding first g forgotten l) (hl : Later l l')
    (hgrammars : l'.registry.grammars = l.registry.grammars)
    (hloaded : l'.registry.loaded = l.registry.loaded) :
    Holding first g forgotten l' := by
  have hget : l'.registry.get? g.scope = l.registry.get? g.scope :=
    congrArg (·.get? g.scope) hgrammars
  refine ⟨h.toProvided.same hl hloaded, ?_, ?_⟩
  · intro g' hg'
    rw [hget] at hg'
    exact (h.entry g' hg').imp_right fun hg' => ⟨hg'.1.later hl, hg'.2⟩
  · intro hnone
    rw [hget] at hnone
    obtain ⟨hforgot, hcame⟩ := h.gone hnone
    exact ⟨hforgot, hcame.imp_right (·.later hl)⟩

/-- A grammar that comes in is the entry of its own scope, and leaves the
others. -/
theorem Holding.came (h : Holding first g forgotten l) (hl : Later l l')
    {g₁ : Grammar} (hg₁ : Brought l l' g₁)
    (hnew : l'.registry = l.registry.registerLoaded g₁) :
    Holding first g forgotten l' := by
  have hget : l'.registry.get? g.scope
      = if g₁.scope = g.scope then some g₁
        else l.registry.get? g.scope := by
    rw [hnew]
    exact Registry.get?_register ..
  refine ⟨h.toProvided.came hl hg₁ hnew, ?_, ?_⟩
  · intro g' hg'
    rw [hget] at hg'
    split at hg'
    · next hscope =>
      cases hg'
      exact .inr ⟨hg₁.since h.later, hscope⟩
    · exact (h.entry g' hg').imp_right fun hg' =>
        ⟨hg'.1.later hl, hg'.2⟩
  · intro hnone
    rw [hget] at hnone
    split at hnone
    · cases hnone
    · obtain ⟨hforgot, hcame⟩ := h.gone hnone
      exact ⟨hforgot, hcame.imp_right (·.later hl)⟩

/-- Once what was loaded is forgotten, the entry may be gone. -/
theorem Holding.forgetLoaded (h : Holding first g forgotten l)
    (hforgot : forgotten) : Holding first g forgotten l.forgetLoaded := by
  have hget : l.forgetLoaded.registry.get? g.scope = _ :=
    Registry.get?_forgetLoaded ..
  refine ⟨h.toProvided.forgetLoaded, ?_, ?_⟩
  · intro g' hg'
    rw [hget] at hg'
    split at hg'
    · cases hg'
    · exact h.entry g' hg'
  · intro hnone
    rw [hget] at hnone
    split at hnone
    · next hmarked => exact ⟨hforgot, h.marked _ hmarked⟩
    · exact h.gone hnone

/-- The host registers a grammar of another scope. -/
theorem Holding.register (h : Holding first g forgotten l)
    {g₁ : Grammar} (hother : g₁.scope ≠ g.scope) :
    Holding first g forgotten
      { l with registry := l.registry.register g₁ } := by
  have hget : (l.registry.register g₁).get? g.scope
      = l.registry.get? g.scope := by
    rw [Registry.get?_register, if_neg hother]
  refine ⟨h.toProvided.same (.refl l) rfl, ?_, ?_⟩
  · intro g' hg'
    exact h.entry g' (hget.symm.trans hg')
  · intro hnone
    exact h.gone (hget.symm.trans hnone)

theorem holding_register (l : Loads κ) (g : Grammar) (forgotten : Prop) :
    Holding { l with registry := l.registry.register g } g forgotten
      { l with registry := l.registry.register g } := by
  have hget : (l.registry.register g).get? g.scope = some g := by
    rw [Registry.get?_register, if_pos rfl]
  refine ⟨.refl _, ?_, ?_⟩
  · intro g' hg'
    exact .inl (Option.some.inj (hg'.symm.trans hget))
  · intro hnone
    cases hget.symm.trans hnone

end Loads

-- ============================================================== services

namespace Service

open Loads (Later Brought Arrived Provided Holding)

/-- Of the grammars and the marks, jobs change only what a load brings, and
what a reload forgets. -/
theorem upheld_of_grammars {J : Job → Prop} {Q : Loads Job → Prop}
    (hinstalls : ∀ number scope uri c after,
      J ⟨number, .install scope uri c after⟩)
    (hsame : ∀ l l', Q l → Later l l' →
      l'.registry.grammars = l.registry.grammars →
      l'.registry.loaded = l.registry.loaded → Q l')
    (hcame : ∀ l l' g, Q l → Later l l' → Brought l l' g →
      l'.registry = l.registry.registerLoaded g → Q l')
    (hforget : ∀ number, J ⟨number, .reload⟩ → ∀ l, Q l →
      Q l.forgetLoaded) :
    Upheld J (fun l _ => Q l) (fun _ _ _ => True)
      fun _ _ _ => True where
  installs := hinstalls
  journal l _ h := hsame _ _ h (.refl l) rfl rfl
  ask l _ scope h := by
    have hreg := Loads.registry_askGrammar l scope
    exact hsame _ _ h (Loads.later_askGrammar l scope)
      (congrArg _ hreg) (congrArg _ hreg)
  known _ _ _ _ _ _ _ := trivial
  wait _ _ _ _ _ _ _ := trivial
  compile l _ scope g h _ := by
    obtain ⟨hgrammars, hloaded⟩ :=
      Loads.grammars_finishTokenizer l scope g
    exact hsame _ _ h
      (.of_progress (Loads.progress?_finishTokenizer l scope (some g)))
      hgrammars hloaded
  join l _ _ id job h _ _ _ :=
    hsame _ _ h (.of_progress (Loads.progress?_join l id job)) rfl rfl
  start l _ _ h _ := hsame _ _ h (.refl l) rfl rfl
  cancel l _ waiter h := by
    have hreg := Loads.registry_cancel l waiter
    exact hsame _ _ h (.of_progress (Loads.progress?_cancel l waiter))
      (congrArg _ hreg) (congrArg _ hreg)
  comeBack l _ id h := by
    have hreg := Loads.registry_comeBack l id
    exact hsame _ _ h (Loads.later_comeBack l id)
      (congrArg _ hreg) (congrArg _ hreg)
  defer l _ h := hsame _ _ h (.refl l) rfl rfl
  reload l _ number h hjob := hforget number hjob l h
  mapLanguage l _ _ _ h := hsame _ _ h (.refl l) rfl rfl
  -- a grammar comes in only in the turn in which its fetch is over
  turn l _ event l' h ht := by
    have hlater := Loads.later_turn ht
    rcases Loads.registry_turn ht with hreg | ⟨id, g, hnone, hout, hnew⟩
    · exact hsame _ _ h hlater (congrArg _ hreg) (congrArg _ hreg)
    · exact hcame _ _ g h hlater ⟨id, hnone, hout⟩ hnew
  resumed _ _ _ _ _ _ _ _ _ := trivial
  finish _ _ _ _ h _ := h
  asideG _ _ _ _ := trivial
  asideW _ _ _ _ := trivial

/-- The marks of any later service go back to an earlier one, or to loads
that came in since. -/
theorem provided_afterAll (s : Service) (moves : List Move) :
    Provided s.loads (afterAll moves s).loads :=
  ((upheld_of_grammars (J := fun _ => True)
      (fun _ _ _ _ _ => trivial)
      (fun _ _ h hl _ hloaded => h.same hl hloaded)
      (fun _ _ _ h hl hg hnew => h.came hl hg hnew)
      (fun _ _ _ h => h.forgetLoaded)).afterAll
    (fun _ _ => trivial)
    (fun _ _ l _ h => h.same (.refl l) rfl)
    (fun _ _ _ h => h.forgetLoaded)
    ⟨.refl s.loads, fun _ _ => trivial, fun _ _ _ => trivial⟩).upheld

/-- What was loaded is forgotten by one of the later moves, or by a reload
that was started before or is started by one of them. -/
def Forgets (before after : List Move) : Prop :=
  .forgetLoaded ∈ after
    ∨ ∃ number, .start ⟨number, .reload⟩ ∈ before ++ after

theorem holding_afterAll {before after : List Move} {g : Grammar}
    {ws : Workspace} {registry : Registry} {loader : Option Loader}
    {config : Option Config} {s s' : Service}
    (hs : s = afterAll (before ++ [.register g])
      (new ws registry loader config))
    (hs' : s' = afterAll after s)
    (hlast : ∀ g', .register g' ∈ after → g'.scope ≠ g.scope) :
    Holding s.loads g (Forgets before after) s'.loads := by
  -- a reload forgets, but there is one only if it was started
  let J : Job → Prop := fun job =>
    job.task = .reload → Forgets before after
  have hinstalls : ∀ number scope uri c rest,
      J ⟨number, .install scope uri c rest⟩ := nofun
  have hstart : ∀ job, .start job ∈ before ++ after → J job := by
    rintro ⟨number, task⟩ hjob rfl
    exact .inr ⟨number, hjob⟩
  have hall : Upheld J (fun _ _ => True) (fun _ _ _ => True)
      fun _ _ _ => True :=
    upheld_of_grammars hinstalls (fun _ _ _ _ _ _ => trivial)
      (fun _ _ _ _ _ _ _ => trivial) fun _ _ _ _ => trivial
  have hholding : Upheld J
      (fun l _ => Holding s.loads g (Forgets before after) l)
      (fun _ _ _ => True) fun _ _ _ => True :=
    upheld_of_grammars hinstalls (fun _ _ h => h.same)
      (fun _ _ _ h hl hg hnew => h.came hl hg hnew)
      fun _ hjob _ h => h.forgetLoaded (hjob rfl)
  have hfirst := hall.afterAll
    (fun job hjob => hstart job (List.mem_append_left _ hjob))
    (fun _ _ _ _ _ => trivial) (fun _ _ _ _ => trivial)
    (s := new ws registry loader config)
    ⟨trivial, Loads.carries_new registry loader⟩
  rw [afterAll_append] at hs
  subst hs'
  refine (hholding.afterAll
    (fun job hjob => hstart job (List.mem_append_right _ hjob))
    (fun g' hg' _ _ h => h.register (hlast g' hg'))
    (fun hforget _ _ h => h.forgetLoaded (.inl hforget))
    ⟨?_, ?_⟩).upheld
  · subst hs
    exact Loads.holding_register _ g _
  · subst hs
    exact ⟨hfirst.jobs.ready, hfirst.jobs.waiting⟩

/-- From its registration on, a grammar is the entry of its scope until
the host registers another, or a load of the scope brings one, or it is
forgotten. It is forgotten only with what was loaded, and only if a load
of the scope came in since any moment before, such as the last forgetting,
at which the scope was not marked. What forgetting leaves was given by the
host; what it takes out is of scopes of which loads came in. -/
theorem keeps_registered {ws : Workspace} {registry : Registry}
    {loader : Option Loader} {config : Option Config}
    {start before after : List Move} {g : Grammar} {s₀ s s' : Service}
    (hs₀ : s₀ = afterAll start (new ws registry loader config))
    (hs : s = afterAll (before ++ [.register g]) s₀)
    (hs' : s' = afterAll after s)
    (hlast : ∀ g', .register g' ∈ after → g'.scope ≠ g.scope) :
    (∀ g', s'.registry.get? g.scope = some g' →
      g' = g ∨ Brought s.loads s'.loads g' ∧ g'.scope = g.scope)
    ∧ (s'.registry.get? g.scope = none →
      Forgets (start ++ before) after
        ∧ (g.scope ∈ s₀.registry.loaded
          ∨ Arrived s₀.loads s'.loads g.scope))
    ∧ (∀ scope g', s'.registry.forgetLoaded.get? scope = some g' →
      s'.registry.get? scope = some g'
        ∧ Given registry (start ++ before ++ .register g :: after) g')
    ∧ (∀ scope g', s'.registry.get? scope = some g' →
      s'.registry.forgetLoaded.get? scope = none →
      scope ∈ s₀.registry.loaded
        ∨ Arrived s₀.loads s'.loads scope) := by
  have hwhole : s = afterAll ((start ++ before) ++ [.register g])
      (new ws registry loader config) := by
    rw [List.append_assoc, afterAll_append, ← hs₀, hs]
  have hholding := holding_afterAll hwhole hs' hlast
  have hprovided : Provided s₀.loads s'.loads := by
    have hmoves : s' = afterAll ((before ++ [.register g]) ++ after) s₀ :=
      by rw [afterAll_append, ← hs, hs']
    rw [hmoves]
    exact provided_afterAll s₀ _
  -- marks that are there at the registration go back to `s₀`
  have hbefore : Provided s₀.loads s.loads := by
    rw [hs]
    exact provided_afterAll s₀ _
  have hmarked : s'.registry.Marked
      (Given registry (start ++ before ++ .register g :: after)) := by
    have hmoves : s' = afterAll (start ++ before ++ .register g :: after)
        (new ws registry loader config) := by
      rw [List.append_cons, afterAll_append, ← hwhole, hs']
    rw [hmoves]
    apply loads_afterAll (Loads.stable_marked _)
    · intro g' hg' l hl
      exact hl.register (.inr hg')
    · intro scope g' hg'
      exact .inl (.inl ⟨scope, hg'⟩)
  refine ⟨hholding.entry, ?_, ?_, ?_⟩
  · -- the entry is gone, so it was forgotten with what was loaded
    intro hnone
    obtain ⟨hforgot, hcame⟩ := hholding.gone hnone
    refine ⟨hforgot, ?_⟩
    rcases hcame with hmark | harrived
    · exact (hbefore.marked _ hmark).imp_right (·.later hholding.later)
    · exact .inr (harrived.since hbefore.later)
  · intro scope g' hg'
    refine ⟨?_, hmarked.given_of_forgetLoaded hg'⟩
    rw [Registry.get?_forgetLoaded] at hg'
    split at hg'
    · cases hg'
    · exact hg'
  · intro scope g' hg' hnone
    rw [Registry.get?_forgetLoaded] at hnone
    split at hnone
    · next hmark => exact hprovided.marked scope hmark
    · cases hg'.symm.trans hnone

/-- A load came in and was forgotten. What is registered then is not
forgotten again, and nothing is loaded in its place. -/
theorem keeps_registered_newer :
    ∃ s₀ s s', s₀ = afterAll (loadedOnce ++ [.forgetLoaded])
        (new .empty .empty (some changing) none)
      ∧ s = afterAll [.register newer] s₀
      ∧ s' = afterAll [.start ⟨1, .grammar "s"⟩, .turn, .forgetLoaded] s
      ∧ s'.registry.get? "s" = some newer := by
  obtain ⟨s₀, hs₀⟩ : ∃ s₀, s₀ = afterAll (loadedOnce ++ [.forgetLoaded])
    (new .empty .empty (some changing) none) := ⟨_, rfl⟩
  obtain ⟨s, hs⟩ : ∃ s, s = afterAll [.register newer] s₀ := ⟨_, rfl⟩
  obtain ⟨s', hs'⟩ : ∃ s', s' = afterAll
    [.start ⟨1, .grammar "s"⟩, .turn, .forgetLoaded] s := ⟨_, rfl⟩
  have hfetches : s₀.loads.fetches = [⟨"s", .done (some older), [0]⟩] := by
    rw [hs₀]
    cbv
  have hsame : s'.loads.fetches = s₀.loads.fetches := by
    rw [hs', hs, hs₀]
    cbv
  have hunmarked : s₀.registry.loaded = [] := by
    rw [hs₀]
    cbv
  -- the only fetch was over before
  have hbrought : ∀ (first : Loads Job) g,
      first.fetches = s₀.loads.fetches → ¬ Brought first s'.loads g := by
    rintro first g hfirst ⟨id, hnone, hout⟩
    have hout' : first.outcome? id = s'.loads.outcome? id := by
      unfold Loads.outcome?
      rw [hfirst, hsame]
    cases hnone.symm.trans (hout'.trans hout)
  have hmoves : s = afterAll ([] ++ [.register newer]) s₀ := hs
  obtain ⟨hentry, hgone, -, -⟩ :=
    keeps_registered hs₀ hmoves hs' (by simp)
  refine ⟨s₀, s, s', hs₀, hs, hs', ?_⟩
  cases hget : s'.registry.get? newer.scope with
  | none =>
      obtain ⟨-, hmark | ⟨g, hg, -⟩⟩ := hgone hget
      · rw [hunmarked] at hmark
        cases hmark
      · exact absurd hg (hbrought _ g rfl)
  | some g' =>
      rcases hentry g' hget with rfl | ⟨hg, -⟩
      · exact hget
      · refine absurd hg (hbrought _ g' ?_)
        rw [hs]
        rfl

/-- A grammar is registered over a loaded one, and forgotten with it. And
one is registered while a load is under way, which then replaces it. -/
theorem displaced :
    (∃ s s', s = afterAll (loadedOnce ++ [.register newer])
        (new .empty .empty (some changing) none)
      ∧ s' = afterAll [.forgetLoaded] s
      ∧ s.registry.get? "s" = some newer
      ∧ s'.registry.get? "s" = none)
    ∧ ∃ s s', s = afterAll [.start ⟨0, .grammar "s"⟩, .turn, .turn,
        .register newer] (new .empty .empty (some changing) none)
      ∧ s' = afterAll [.comeBack 0, .turn] s
      ∧ s.registry.get? "s" = some newer
      ∧ s'.registry.get? "s" = some older := by
  refine ⟨⟨_, _, rfl, rfl, ?_, ?_⟩, ⟨_, _, rfl, rfl, ?_, ?_⟩⟩ <;> cbv

end Service

end Relex
