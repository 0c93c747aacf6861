/-
What is left of the loads once all that was loaded is forgotten.

Forgetting drops the pending fetches, so whoever asks for a grammar
afterwards waits for no fetch that was begun before, and is told what a
call of the loader begun since came with. It does not stop the fetches,
though. A call that is under way registers what it brings whenever the
loader comes back, and someone who was told the outcome of an older fetch,
or is about to be, has a tokenizer built from it.

Nothing else gets through (`refetches`): at any time after, a grammar in
the registry, or one a tokenizer in there was built from, was given by the
host, or was brought by a call begun since, or was owed at the moment of
forgetting. If nothing was owed, whatever a loader provided was really
fetched again. If something was, it may even take the place of what was
fetched again (`outlived`).
-/
import Mathlib
import Relex.Proofs.Afresh
import Relex.Proofs.Service.Upkeep

namespace Relex

-- ========================================================= given by hand

namespace Registry

variable {given : Grammar → Prop} {r : Registry} {g : Grammar}

/-- All grammars were given, but for those of scopes that a loader
provided. -/
def Marked (given : Grammar → Prop) (r : Registry) : Prop :=
  ∀ scope g, r.get? scope = some g → given g ∨ scope ∈ r.loaded

theorem Marked.register (h : r.Marked given) (hg : given g) :
    (r.register g).Marked given := by
  intro scope g' hg'
  rw [get?_register] at hg'
  split at hg'
  · cases hg'
    exact .inl hg
  · exact h scope g' hg'

theorem Marked.registerLoaded (h : r.Marked given) (g : Grammar) :
    (r.registerLoaded g).Marked given := by
  intro scope g' hg'
  have hg' : (r.register g).get? scope = some g' := hg'
  rw [get?_register] at hg'
  split at hg'
  · next hscope => exact .inr (mem_loaded_registerLoaded.2 (.inl hscope))
  · exact (h scope g' hg').imp_right fun hs =>
      mem_loaded_registerLoaded.2 (.inr hs)

theorem Marked.tokenizer (h : r.Marked given) {r' : Registry}
    {scope : String} {t : GrammarTokenizer}
    (ht : r.tokenizer scope g = .ok (t, r')) : r'.Marked given := by
  obtain ⟨-, rfl | ⟨-, -, -, hgrammars, hloaded, -⟩⟩ := tokenizer_cases ht
  · exact h
  · intro other g' hg'
    unfold get? at hg'
    rw [hgrammars] at hg'
    rw [hloaded]
    exact h other g' hg'

theorem Marked.given_of_forgetLoaded (h : r.Marked given)
    {scope : String} (hg : r.forgetLoaded.get? scope = some g) :
    given g := by
  rw [get?_forgetLoaded] at hg
  split at hg
  · cases hg
  · next hscope => exact (h scope g hg).resolve_right hscope

end Registry

theorem Loads.stable_marked {κ : Type} (given : Grammar → Prop) :
    Stable (fun l : Loads κ => l.registry.Marked given)
      fun _ _ => True where
  journal _ h := h
  ask l scope h := by
    rw [registry_askGrammar]
    exact h
  known _ _ _ _ _ _ := trivial
  compile l scope g h _ := by
    unfold finishTokenizer
    dsimp only
    cases ht : l.registry.tokenizer scope g with
    | error e => exact h
    | ok result => exact h.tokenizer ht
  join _ _ _ h := h
  start _ _ h := h
  cancel l waiter h := by
    rw [registry_cancel]
    exact h
  comeBack l id h := by
    rw [registry_comeBack]
    exact h
  defer _ h := h
  forgetLoaded _ h := fun _ _ hg => .inl (h.given_of_forgetLoaded hg)
  mapLanguage _ _ _ h := h
  turn l event l' h ht := by
    rcases registry_turn ht with hsame | ⟨-, g, -, -, hnew⟩
    · rw [hsame]
      exact h
    · rw [hnew]
      exact h.registerLoaded g
  resumed _ _ _ _ _ _ := trivial
  aside _ _ _ := trivial

-- ============================================================== services

namespace Service

open Loads (FetchedSince Origin Afresh)

/-- The host gave the grammar: it was in the registry the service was made
with, or was registered. -/
def Given (registry : Registry) (moves : List Move) (g : Grammar) :
    Prop :=
  (∃ scope, registry.get? scope = some g) ∨ .register g ∈ moves

/-- Once all that was loaded is forgotten, whoever asks waits for no fetch
that was begun before, and what such a fetch has is from a call begun
since. All grammars in the registry, and those its tokenizers were built
from, were given by the host, or fetched since, or owed. -/
theorem refetches {ws : Workspace} {registry : Registry}
    {loader : Option Loader} {config : Option Config}
    {before after : List Move} {s s' : Service}
    (hs : s = afterAll before (new ws registry loader config))
    (hs' : s' = afterAll (.forgetLoaded :: after) s) :
    (∀ scope id, (s'.loads.askGrammar scope).1 = .wait id →
      s.loads.fetches.length ≤ id)
    ∧ (∀ id f g, s.loads.fetches.length ≤ id →
      s'.loads.fetches[id]? = some f → f.stage.Holds g →
      FetchedSince s.loads s'.loads f.scope g)
    ∧ (∀ scope g, s'.registry.get? scope = some g →
      Origin (Given registry (before ++ after)) s.loads s'.loads g)
    ∧ (∀ scope t, s'.registry.tokenizers.get? scope = some t →
      ∃ g, Origin (Given registry (before ++ after)) s.loads s'.loads g
        ∧ Grammar.Lexer.build g registry.compiler = .ok t.lexer) := by
  -- what a loader provided is marked, so only what was given is kept
  have hmarked : s.loads.registry.Marked
      (Given registry (before ++ after)) := by
    subst hs
    apply loads_afterAll (Loads.stable_marked _)
    · intro g hg l hl
      exact hl.register (.inr (List.mem_append_left _ hg))
    · intro scope g hg
      exact .inl (.inl ⟨scope, hg⟩)
  have hstart : Afresh (Given registry (before ++ after)) s.loads
      s.loads.forgetLoaded :=
    Loads.afresh_forgetLoaded fun _ _ hg =>
      hmarked.given_of_forgetLoaded hg
  have hend : Afresh (Given registry (before ++ after)) s.loads
      s'.loads := by
    subst hs'
    apply loads_afterAll (s := Move.forgetLoaded.after s)
      (Loads.stable_afresh _ s.loads) _ hstart
    intro g hg l hl
    have hgiven : Given registry (before ++ after) g :=
      .inr (List.mem_append_right _ hg)
    exact { hl with registry := hl.registry.register (.inl hgiven) }
  refine ⟨?_, ?_, ?_, ?_⟩
  · intro scope id hask
    exact hend.wait hask
  · intro id f g hn hf hg
    exact hend.since id f.scope f.stage g hn (Loads.progress?_eq_some hf) hg
  · intro scope g hg
    exact hend.registry.grammars scope g hg
  · intro scope t ht
    have hcompiler : s'.registry.compiler = registry.compiler := by
      rw [hs', hs, compiler_afterAll, compiler_afterAll]
      rfl
    rw [← hcompiler]
    exact hend.registry.tokenizers scope t ht

-- ========================================================= two instances

/-- Two grammars for the same scope. -/
def older : Grammar := ⟨"s", [], [], "older"⟩

def newer : Grammar := ⟨"s", [], [], "newer"⟩

/-- A loader that is waited for the first time, and comes with another
grammar at once from then on. -/
def changing : Loader := fun _ i =>
  if i = 0 then ⟨.grammar older, true⟩ else ⟨.grammar newer, false⟩

theorem first_of_older {scope : String} {i : Nat}
    (h : (changing scope i).loaded = .grammar older) : i = 0 := by
  cases i with
  | zero => rfl
  | succ i =>
      have h : Loaded.grammar newer = .grammar older := h
      exact absurd (Loaded.grammar.inj h) (by decide)

/-- The first grammar is loaded, and everyone was told. -/
def loadedOnce : List Move :=
  [.start ⟨0, .grammar "s"⟩, .turn, .turn, .comeBack 0, .turn, .turn,
    .turn, .turn]

theorem loads_loadedOnce (s : Service)
    (hs : s = afterAll loadedOnce
      (new .empty .empty (some changing) none)) :
    s.registry.get? "s" = some older
      ∧ s.loads.fetches = [⟨"s", .done (some older), [0]⟩]
      ∧ s.loads.ready = [] ∧ s.loads.waiters = [] := by
  subst hs
  refine ⟨?_, ?_, ?_, ?_⟩ <;> cbv

/-- Nothing is owed then. What is forgotten and loaded again is new. -/
theorem refetches_newer :
    ∃ s s', s = afterAll loadedOnce
        (new .empty .empty (some changing) none)
      ∧ s' = afterAll [.forgetLoaded, .start ⟨1, .grammar "s"⟩, .turn,
        .turn] s
      ∧ s.registry.get? "s" = some older
      ∧ s'.registry.get? "s" = some newer
      ∧ ∃ scope, FetchedSince s.loads s'.loads scope newer := by
  obtain ⟨s, hs⟩ : ∃ s, s = afterAll loadedOnce
    (new .empty .empty (some changing) none) := ⟨_, rfl⟩
  obtain ⟨s', hs'⟩ : ∃ s', s' = afterAll [.forgetLoaded,
    .start ⟨1, .grammar "s"⟩, .turn, .turn] s := ⟨_, rfl⟩
  have hnewer : s'.registry.get? "s" = some newer := by
    rw [hs', hs]
    cbv
  obtain ⟨holder, hfetches, hready, hwaiters⟩ := loads_loadedOnce s hs
  obtain ⟨-, -, horigin, -⟩ := refetches hs hs'
  refine ⟨s, s', hs, hs', holder, hnewer, ?_⟩
  rcases horigin "s" newer hnewer with hgiven | howed | hfetched
  · rcases hgiven with ⟨scope, hget⟩ | hmove
    · cases hget
    · simp [loadedOnce] at hmove
  · cases howed with
    | call f under stage =>
        rw [hfetches, List.mem_singleton] at under
        subst under
        rcases stage with h | h <;> cases h
    | relay id waiter ready outcome =>
        rw [hready] at ready
        cases ready
    | told n w waits signal =>
        rw [hwaiters] at waits
        cases waits
  · exact hfetched

/-- The first call outlives its forgetting: it comes back after the second
one, and takes the place of what that came with. -/
theorem outlived :
    ∃ s s', s = afterAll [.start ⟨0, .grammar "s"⟩, .turn, .turn]
        (new .empty .empty (some changing) none)
      ∧ s' = afterAll [.forgetLoaded, .start ⟨1, .grammar "s"⟩, .turn,
        .turn, .comeBack 0, .turn, .turn, .turn, .turn, .turn] s
      ∧ s.loads.calls = ["s"] ∧ s'.loads.calls = ["s", "s"]
      ∧ (changing "s" 1).loaded = .grammar newer
      ∧ s'.registry.get? "s" = some older
      ∧ ∀ scope, ¬ FetchedSince s.loads s'.loads scope older := by
  obtain ⟨s, hs⟩ : ∃ s, s = afterAll
    [.start ⟨0, .grammar "s"⟩, .turn, .turn]
    (new .empty .empty (some changing) none) := ⟨_, rfl⟩
  obtain ⟨s', hs'⟩ : ∃ s', s' = afterAll [.forgetLoaded,
    .start ⟨1, .grammar "s"⟩, .turn, .turn, .comeBack 0, .turn, .turn,
    .turn, .turn, .turn] s := ⟨_, rfl⟩
  have hbefore : s.loads.calls = ["s"] := by
    rw [hs]
    cbv
  have hafter : s'.loads.calls = ["s", "s"] := by
    rw [hs', hs]
    cbv
  have holder : s'.registry.get? "s" = some older := by
    rw [hs', hs]
    cbv
  have hloader : s'.loads.loader = some changing := by
    rw [hs', hs]
    cbv
  refine ⟨s, s', hs, hs', hbefore, hafter, rfl, holder, ?_⟩
  rintro scope ⟨load, i, hload, hfrom, hto, hg⟩
  obtain rfl := Option.some.inj (hloader.symm.trans hload)
  -- only the first call came with the older grammar, and it was begun
  -- before all was forgotten
  rw [hafter] at hto
  have hscope : scope ∈ ["s", "s"] :=
    List.count_pos_iff.1 (Nat.lt_of_le_of_lt (Nat.zero_le i) hto)
  obtain rfl : scope = "s" := by simpa using hscope
  rw [hbefore, first_of_older hg] at hfrom
  exact absurd hfrom (by decide)

end Service

end Relex
