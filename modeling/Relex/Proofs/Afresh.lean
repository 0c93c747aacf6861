/-
What comes from calls of the loader that were begun since.

When all that was loaded is forgotten, fetches may be under way, their
outcomes may be on their way to those who wait, and those may have been
told and not gone on yet: the grammars of these are owed (`Owes`). Nothing
else leads back to a call that was begun before (`Afresh`): what was begun
since has grammars from calls begun since, and a grammar that comes up at
all was given by other means, or owed, or comes from such a call
(`Origin`).

Which calls were begun since is read off the number of calls the loader
has had for each scope.
-/
import Relex.Proofs.Loads

namespace Relex.Loads

variable {κ : Type} {l l' first : Loads κ} {id : Nat} {f : Fetch}
  {g : Grammar} {given : Grammar → Prop}

-- =============================================================== origins

/-- A call of the loader for a scope that was begun between two moments
came with a grammar. The calls for each scope are numbered from zero. -/
def FetchedSince (first l : Loads κ) (scope : String) (g : Grammar) :
    Prop :=
  ∃ load i, l.loader = some load ∧ first.calls.count scope ≤ i
    ∧ i < l.calls.count scope ∧ (load scope i).loaded = .grammar g

/-- A grammar is still to be delivered: a call is under way that comes
with it, or the outcome of a fetch is to be handed to someone, or someone
who was told it did not go on yet. -/
inductive Owes (l : Loads κ) (g : Grammar) : Prop where
  | call (f : Fetch) (under : f ∈ l.fetches)
    (stage : f.stage = .waiting (.grammar g)
      ∨ f.stage = .returned (.grammar g))
  | relay (id waiter : Nat) (ready : .relay id waiter ∈ l.ready)
    (outcome : l.outcome? id = some (some g))
  | told (n : Nat) (w : Waiter κ) (waits : (n, w) ∈ l.waiters)
    (signal : w.signal = some (.outcome (some g)))

/-- Where a grammar can come from that is there some time after all that
was loaded was forgotten: it was given by other means, or it was owed at
that moment, or a call of the loader begun since came with it. -/
def Origin (given : Grammar → Prop) (first l : Loads κ) (g : Grammar) :
    Prop :=
  given g ∨ first.Owes g ∨ ∃ scope, FetchedSince first l scope g

/-- All grammars there are, or may come up, are of such an origin, and what
was begun since has nothing to do with what was begun before. -/
structure Afresh (given : Grammar → Prop) (first l : Loads κ) :
    Prop where
  calls : ∀ scope, first.calls.count scope ≤ l.calls.count scope
  begun : first.fetches.length ≤ l.fetches.length
  pending : ∀ scope id, l.pending.get? scope = some id →
    first.fetches.length ≤ id
  since : ∀ id scope stage g, first.fetches.length ≤ id →
    l.progress? id = some (scope, stage) → stage.Holds g →
    FetchedSince first l scope g
  -- a fetch that is over may have any grammar: nobody joins it any more,
  -- and those it was to be handed to are in the turns to come
  coming : ∀ id scope stage g, l.progress? id = some (scope, stage) →
    stage.isOver = false → stage.Holds g → Origin given first l g
  relays : ∀ id waiter g, .relay id waiter ∈ l.ready →
    l.outcome? id = some (some g) → Origin given first l g
  told : ∀ n w g, (n, w) ∈ l.waiters →
    w.signal = some (.outcome (some g)) → Origin given first l g
  registry : l.registry.From (Origin given first l)

theorem FetchedSince.later {scope : String}
    (h : FetchedSince first l scope g) (hloader : l'.loader = l.loader)
    (hcalls : ∀ scope, l.calls.count scope ≤ l'.calls.count scope) :
    FetchedSince first l' scope g := by
  obtain ⟨load, i, hload, hfrom, hto, hg⟩ := h
  refine ⟨load, i, hloader.trans hload, hfrom, ?_, hg⟩
  exact Nat.lt_of_lt_of_le hto (hcalls scope)

theorem Origin.later (h : Origin given first l g)
    (hloader : l'.loader = l.loader)
    (hcalls : ∀ scope, l.calls.count scope ≤ l'.calls.count scope) :
    Origin given first l' g := by
  rcases h with hg | hg | ⟨scope, hg⟩
  · exact .inl hg
  · exact .inr (.inl hg)
  · exact .inr (.inr ⟨scope, hg.later hloader hcalls⟩)

theorem Origin.quiet (h : Origin given first l g) (hq : Quiet l l') :
    Origin given first l' g :=
  h.later hq.loader hq.count_le

-- ====================================================== nothing comes in

theorem Afresh.quiet (h : Afresh given first l) (hq : Quiet l l') :
    Afresh given first l' := by
  refine ⟨?_, Nat.le_trans h.begun hq.begun, ?_, ?_, ?_, ?_, ?_, ?_⟩
  · intro scope
    exact Nat.le_trans (h.calls scope) (hq.count_le scope)
  · intro scope id hid
    rcases hq.pending scope id hid with hid | hnew
    · exact h.pending scope id hid
    · exact Nat.le_trans h.begun hnew
  · intro id scope stage g hn hp hg
    exact (h.since id scope stage g hn (hq.held hp hg) hg).later
      hq.loader hq.count_le
  · intro id scope stage g hp hover hg
    exact (h.coming id scope stage g (hq.held hp hg) hover hg).quiet hq
  · intro id waiter g hready hout
    obtain ⟨scope, hp⟩ := outcome?_eq_some.1 hout
    exact (h.relays id waiter g (hq.relays id waiter hready)
      (outcome?_eq_some.2 ⟨scope, hq.held hp .done⟩)).quiet hq
  · intro n w g hw hsignal
    obtain ⟨w', hw', hsignal'⟩ := hq.told n w g hw hsignal
    exact (h.told n w' g hw' hsignal').quiet hq
  · exact (hq.registry _ h.registry).mono fun g hg => hg.quiet hq

-- ====================================================== fetches going on

/-- A fetch goes on with a grammar that is accounted for. -/
theorem Afresh.set (h : Afresh given first l)
    (hf : l.fetches[id]? = some f) (stage : Stage)
    (hsince : ∀ g, stage.Holds g → first.fetches.length ≤ id →
      FetchedSince first l f.scope g)
    (hknown : ∀ g, stage.Holds g → Origin given first l g) :
    Afresh given first
      { l with fetches := l.fetches.set id { f with stage } } := by
  refine { h with
    begun := ?_
    since := ?_
    coming := ?_
    relays := ?_ }
  · show _ ≤ (l.fetches.set _ _).length
    rw [List.length_set]
    exact h.begun
  · intro i scope stage' g hn hp hg
    rw [progress?_set hf] at hp
    split at hp
    · next hi =>
      subst hi
      cases hp
      exact hsince g hg hn
    · exact h.since i scope stage' g hn hp hg
  · intro i scope stage' g hp hover hg
    rw [progress?_set hf] at hp
    split at hp
    · cases hp
      exact hknown g hg
    · exact h.coming i scope stage' g hp hover hg
  · intro i waiter g hready hout
    obtain ⟨scope, hp⟩ := outcome?_eq_some.1 hout
    rw [progress?_set hf] at hp
    split at hp
    · cases hp
      exact hknown g .done
    · exact h.relays i waiter g hready (outcome?_eq_some.2 ⟨scope, hp⟩)

/-- The loader is called once more. -/
theorem Afresh.called (h : Afresh given first l) (scope : String) :
    Afresh given first { l with calls := l.calls ++ [scope] } := by
  have hcalls : ∀ other, l.calls.count other
      ≤ (l.calls ++ [scope]).count other := by
    intro other
    rw [List.count_append]
    exact Nat.le_add_right ..
  refine ⟨?_, h.begun, h.pending, ?_, ?_, ?_, ?_, ?_⟩
  · intro other
    exact Nat.le_trans (h.calls other) (hcalls other)
  · intro id other stage g hn hp hg
    exact (h.since id other stage g hn hp hg).later rfl hcalls
  · intro id other stage g hp hover hg
    exact (h.coming id other stage g hp hover hg).later rfl hcalls
  · intro id waiter g hready hout
    exact (h.relays id waiter g hready hout).later rfl hcalls
  · intro n w g hw hsignal
    exact (h.told n w g hw hsignal).later rfl hcalls
  · exact h.registry.mono fun g hg => hg.later rfl hcalls

/-- A fetch is over, with a grammar that is accounted for. The turns that
come up then hand it over. -/
theorem Afresh.over (h : Afresh given first l)
    (hf : l.fetches[id]? = some f) {grammar : Option Grammar}
    (hsince : ∀ g, grammar = some g → first.fetches.length ≤ id →
      FetchedSince first l f.scope g)
    (hknown : ∀ g, grammar = some g → Origin given first l g) :
    Afresh given first { l with
      fetches := l.fetches.set id { f with stage := .done grammar }
      ready := l.ready ++ .forget id :: f.waiters.map (.relay id) } := by
  have hset : Afresh given first { l with
      fetches := l.fetches.set id { f with stage := .done grammar } } := by
    apply h.set hf
    · intro g hg
      cases hg
      exact hsince g rfl
    · intro g hg
      cases hg
      exact hknown g rfl
  refine { hset with relays := ?_ }
  intro i waiter g hready hout
  rcases List.mem_append.1 hready with hready | hready
  · exact hset.relays i waiter g hready hout
  rcases List.mem_cons.1 hready with hready | hready
  · cases hready
  obtain ⟨_, -, hi⟩ := List.mem_map.1 hready
  cases hi
  obtain ⟨scope, hp⟩ := outcome?_eq_some.1 hout
  have hp := (progress?_set hf (.done grammar) id).symm.trans hp
  rw [if_pos rfl] at hp
  cases hp
  exact hknown g rfl

/-- The loader has come back for a fetch with a grammar that is accounted
for. -/
theorem Afresh.complete (h : Afresh given first l)
    (hf : l.fetches[id]? = some f) {loaded : Loaded}
    (hsince : ∀ g, loaded = .grammar g → first.fetches.length ≤ id →
      FetchedSince first l f.scope g)
    (hknown : ∀ g, loaded = .grammar g → Origin given first l g) :
    Afresh given first (l.complete id f loaded) := by
  cases loaded with
  | grammar g =>
      have hreg : Afresh given first
          { l with registry := l.registry.registerLoaded g } :=
        { h with registry := h.registry.registerLoaded (hknown g rfl) }
      apply hreg.over hf
      · intro g' hg'
        cases hg'
        exact hsince g rfl
      · intro g' hg'
        cases hg'
        exact hknown g rfl
  | nothing => exact h.over hf nofun nofun
  | failed =>
      have hnoted : Afresh given first (l.noted (.ofRegistry .error
          ("Unable to load grammar for scope " ++ f.scope))) :=
        { h with }
      exact hnoted.over hf nofun nofun

theorem Afresh.runFetch (h : Afresh given first l) (id : Nat) :
    Afresh given first (l.runFetch id) := by
  unfold Loads.runFetch
  split
  · next f load hf hload =>
    have hp := progress?_eq_some hf
    split
    · have hcalled := h.called f.scope
      -- the call is made now, so what it brings was fetched since
      have hnew : ∀ g,
          (load f.scope (l.calls.count f.scope)).loaded = .grammar g →
          FetchedSince first { l with calls := l.calls ++ [f.scope] }
            f.scope g := by
        intro g hg
        refine ⟨load, _, hload, h.calls f.scope, ?_, hg⟩
        show _ < (l.calls ++ [f.scope]).count f.scope
        simp
      dsimp only
      split
      · apply hcalled.set hf (.waiting _)
        · intro g hg _
          exact hnew g (Stage.loaded_of_holds hg)
        · intro g hg
          exact .inr (.inr ⟨_, hnew g (Stage.loaded_of_holds hg)⟩)
      · apply hcalled.complete hf
        · intro g hg _
          exact hnew g hg
        · intro g hg
          exact .inr (.inr ⟨_, hnew g hg⟩)
    · next loaded hstage =>
      rw [hstage] at hp
      apply h.complete hf
      · rintro g rfl hn
        exact h.since id _ _ g hn hp .returned
      · rintro g rfl
        exact h.coming id _ _ g hp rfl .returned
    · exact h
  · exact h

-- ================================================================ turns

/-- The one who waits is told the outcome of a fetch. -/
theorem Afresh.relay (h : Afresh given first l) (id waiter : Nat)
    (hknown : ∀ g, l.outcome? id = some (some g) →
      Origin given first l g) :
    Afresh given first (l.relay id waiter) := by
  unfold Loads.relay
  split
  · next grammar _ _ hout hw =>
    have htold : Afresh given first
        (l.tell waiter (.outcome grammar)) := by
      refine { h with told := ?_ }
      intro n w g hw hsignal
      rcases told_tell hw hsignal with heq | ⟨w', hw', hsignal'⟩
      · cases heq
        exact hknown g hout
      · exact h.told n w' g hw' hsignal'
    exact htold.quiet (quiet_enqueue _ nofun)
  · exact h

theorem Afresh.turn (h : Afresh given first l) {event : Event κ}
    (ht : l.turn = some (event, l')) :
    Afresh given first l'
      ∧ ∀ k g, event = .resumed k (some g) → Origin given first l' g
    := by
  cases taken ht with
  | start hready => exact ⟨h.quiet (quiet_rest hready), nofun⟩
  | fetch hready =>
      exact ⟨(h.quiet (quiet_rest hready)).runFetch _, nofun⟩
  | forget hready =>
      exact ⟨(h.quiet (quiet_rest hready)).quiet (quiet_forget ..), nofun⟩
  | @relay id waiter rest hready =>
      -- the turn is no longer among those to come, so what it hands over
      -- is known from before it was taken
      refine ⟨(h.quiet (quiet_rest hready)).relay id waiter fun g hg => ?_,
        nofun⟩
      apply h.relays id waiter g ?_ hg
      rw [hready]
      exact List.mem_cons_self ..
  | idle hready => exact ⟨h.quiet (quiet_rest hready), nofun⟩
  | resume hready hw =>
      have hrest := h.quiet (quiet_rest hready)
      refine ⟨hrest.quiet (quiet_leave ..), ?_⟩
      rintro k g ⟨⟩
      exact h.told _ _ g hw rfl
  | cancelled hready =>
      have hrest := h.quiet (quiet_rest hready)
      exact ⟨hrest.quiet (quiet_leave ..), nofun⟩

-- =========================================================== all of them

/-- A grammar that is answered at once is accounted for. -/
theorem Afresh.answered (h : Afresh given first l) {scope : String}
    (hask : l.askGrammar scope = (.known (some g), l')) :
    Origin given first l' g := by
  unfold askGrammar at hask
  split at hask
  · next g' hget =>
    cases hask
    exact h.registry.grammars scope g hget
  · split at hask
    · cases hask
    · split at hask
      · next id hid =>
        split at hask
        · next grammar hout =>
          cases hask
          obtain ⟨other, hp⟩ := outcome?_eq_some.1 hout
          have hn := h.pending scope id hid
          exact .inr (.inr ⟨other, h.since id other _ g hn hp .done⟩)
        · cases hask
      · cases hask

/-- Who has to wait for a grammar waits for a fetch of its own time. -/
theorem Afresh.wait (h : Afresh given first l) {scope : String}
    (hask : (l.askGrammar scope).1 = .wait id) :
    first.fetches.length ≤ id := by
  unfold askGrammar at hask
  split at hask
  · cases hask
  · split at hask
    · cases hask
    · split at hask
      · next id' hid =>
        split at hask
        · cases hask
        · cases hask
          exact h.pending scope id hid
      · cases hask
        exact h.begun

theorem Afresh.comeBack (h : Afresh given first l) (id : Nat) :
    Afresh given first (l.comeBack id) := by
  unfold Loads.comeBack
  split
  · next scope loaded waiters hf =>
    have hp := progress?_eq_some hf
    have hset := h.set hf (.returned loaded)
      (fun g hg hn => by
        cases hg
        exact h.since id _ _ g hn hp .waiting)
      (fun g hg => by
        cases hg
        exact h.coming id _ _ g hp rfl .waiting)
    exact hset.quiet (quiet_enqueue _ nofun)
  · exact h

theorem stable_afresh (given : Grammar → Prop) (first : Loads κ) :
    Stable (Afresh given first) (Origin given first) where
  journal _ h := { h with }
  ask l scope h := h.quiet (quiet_askGrammar l scope)
  known _ _ _ _ h hask := h.answered hask
  compile _ scope _ h hg := by
    have hdone := from_finishTokenizer h.registry hg scope
    unfold Loads.finishTokenizer at hdone ⊢
    dsimp only at hdone ⊢
    split at hdone
    · exact { h with registry := hdone }
    · exact { h with }
  join l fetch k h := h.quiet (quiet_join l fetch k)
  start l k h := h.quiet (quiet_enqueue l nofun)
  cancel l waiter h := h.quiet (quiet_cancel l waiter)
  comeBack _ id h := h.comeBack id
  defer l h := h.quiet (quiet_defer l)
  forgetLoaded l h := h.quiet (quiet_forgetLoaded l)
  mapLanguage _ language scope h :=
    { h with registry := h.registry.mapLanguage language scope }
  turn _ _ _ h ht := (h.turn ht).1
  resumed _ k g _ h ht := (h.turn ht).2 k g rfl
  aside _ _ h := h

/-- What goes on when all that was loaded is forgotten is owed, and what
stays in the registry is accounted for if it was given. -/
theorem afresh_forgetLoaded
    (hkept : ∀ scope g, l.registry.forgetLoaded.get? scope = some g →
      given g) :
    Afresh given l l.forgetLoaded := by
  refine ⟨fun _ => Nat.le_refl _, Nat.le_refl _, nofun, ?_, ?_, ?_, ?_,
    ?_, nofun⟩
  · intro id scope stage g hn hp
    have hnone : l.progress? id = none := progress?_eq_none hn
    cases hnone.symm.trans hp
  · -- a call under way is owed, and so is one that came back
    intro id scope stage g hp hover hg
    obtain ⟨f, hf, hfp⟩ := Option.map_eq_some_iff.1 hp
    cases hfp
    refine .inr (.inl (.call f (List.mem_of_getElem? hf) ?_))
    cases hstage : f.stage with
    | created =>
        rw [hstage] at hg
        cases hg
    | waiting loaded =>
        rw [hstage] at hg
        cases hg
        exact .inl rfl
    | returned loaded =>
        rw [hstage] at hg
        cases hg
        exact .inr rfl
    | done grammar =>
        rw [hstage] at hover
        cases hover
  · intro id waiter g hready hout
    exact .inr (.inl (.relay id waiter hready hout))
  · intro n w g hw hsignal
    exact .inr (.inl (.told n w hw hsignal))
  · intro scope g hg
    exact .inl (hkept scope g hg)

end Relex.Loads
