/-
What the operations on loads do to the registry.

Most of them leave it alone. A fetch that brings a grammar registers it,
and a tokenizer is stored as soon as it is built. So a tokenizer that is
answered is in the registry (`get?_of_finishTokenizer`,
`get?_of_askTokenizer`), and whatever is in there was built from some
grammar (`Registry.From`, `stable_built`): its engine never fails
(`Registry.From.total`).
-/
import Relex.Proofs.Grammar.Total
import Relex.Proofs.Service.Moves
import Relex.Proofs.Table

namespace Relex

-- ============================================================ registries

namespace Registry

/-- Of the grammars in the registry, and of those its tokenizers were
built from, something is known. -/
structure From (G : Grammar → Prop) (r : Registry) : Prop where
  grammars : ∀ scope g, r.get? scope = some g → G g
  tokenizers : ∀ scope t, r.tokenizers.get? scope = some t →
    ∃ g, G g ∧ Grammar.Lexer.build g r.compiler = .ok t.lexer

/-- All tokenizers were built from grammars. -/
def Built (r : Registry) : Prop := r.From fun _ => True

variable {G : Grammar → Prop} {r r' : Registry} {scope : String}
  {g : Grammar} {t : GrammarTokenizer}

/-- The engine of a tokenizer in the registry never fails. -/
theorem From.total (h : r.From G)
    (ht : r.tokenizers.get? scope = some t) :
    t.toTokenizer.engine.Total := by
  obtain ⟨g, -, hg⟩ := h.tokenizers scope t ht
  exact Grammar.Lexer.total_engine hg

theorem From.mono {H : Grammar → Prop} (h : r.From G)
    (hgh : ∀ g, G g → H g) : r.From H := by
  refine ⟨?_, ?_⟩
  · intro scope g hg
    exact hgh g (h.grammars scope g hg)
  · intro scope t ht
    obtain ⟨g, hg, hbuild⟩ := h.tokenizers scope t ht
    exact ⟨g, hgh g hg, hbuild⟩

theorem From.empty {compiler : Pattern.Compiler} :
    From G (.empty compiler) := by
  refine ⟨?_, ?_⟩
  · intro scope g h
    cases h
  · intro scope t h
    cases h

/-- The grammar that is registered is the one of its scope. -/
theorem get?_register (r : Registry) (g : Grammar) (scope : String) :
    (r.register g).get? scope
      = if g.scope = scope then some g else r.get? scope :=
  Table.get?_insert ..

/-- A loaded grammar's scope is marked, and the marks there were stay. -/
theorem mem_loaded_registerLoaded :
    scope ∈ (r.registerLoaded g).loaded
      ↔ g.scope = scope ∨ scope ∈ r.loaded := by
  show scope ∈ (if g.scope ∈ r.loaded then r.loaded
    else r.loaded ++ [g.scope]) ↔ _
  split
  · next hmem =>
    refine ⟨.inr, ?_⟩
    rintro (rfl | h)
    · exact hmem
    · exact h
  · simp [or_comm, eq_comm]

/-- The new grammar takes the tokenizer of its scope out. -/
theorem From.register (h : r.From G) (hg : G g) :
    (r.register g).From G := by
  refine ⟨?_, ?_⟩
  · intro scope g' hg'
    rw [get?_register] at hg'
    split at hg'
    · obtain rfl := Option.some.inj hg'
      exact hg
    · exact h.grammars scope g' hg'
  · intro scope t ht
    have ht : (r.tokenizers.erase g.scope).get? scope = some t := ht
    rw [Table.get?_erase] at ht
    split at ht
    · cases ht
    · exact h.tokenizers scope t ht

theorem From.registerLoaded (h : r.From G) (hg : G g) :
    (r.registerLoaded g).From G :=
  ⟨(h.register hg).grammars, (h.register hg).tokenizers⟩

theorem From.mapLanguage (h : r.From G) (language scope : String) :
    (r.mapLanguage language scope).From G :=
  ⟨h.grammars, h.tokenizers⟩

/-- What is forgotten is what was marked as loaded. -/
theorem get?_forgetLoaded (r : Registry) (scope : String) :
    r.forgetLoaded.get? scope
      = if scope ∈ r.loaded then none else r.get? scope := by
  show (r.loaded.foldl _ r.grammars).get? scope = _
  unfold get?
  induction r.loaded generalizing r with
  | nil => rfl
  | cons s scopes ih =>
      rw [List.foldl_cons, ih { r with grammars := r.grammars.erase s },
        Table.get?_erase]
      by_cases hs : s = scope
      · simp [hs]
      · simp [hs, Ne.symm hs]

theorem From.forgetLoaded (h : r.From G) : r.forgetLoaded.From G := by
  refine ⟨?_, ?_⟩
  · intro scope g hg
    rw [get?_forgetLoaded] at hg
    split at hg
    · cases hg
    · exact h.grammars scope g hg
  · intro scope t ht
    cases ht

/-- The tokenizer of a scope is the one that was there, or is built from
the grammar and stored. -/
theorem tokenizer_cases (h : r.tokenizer scope g = .ok (t, r')) :
    r'.tokenizers.get? scope = some t
      ∧ (r' = r ∨ r.tokenizers.get? scope = none
        ∧ Grammar.Lexer.build g r.compiler = .ok t.lexer
        ∧ r'.compiler = r.compiler ∧ r'.grammars = r.grammars ∧ r'.loaded = r.loaded
        ∧ r'.tokenizers = r.tokenizers.insert scope t) := by
  unfold tokenizer at h
  cases hget : r.tokenizers.get? scope with
  | some t' =>
      rw [hget] at h
      cases h
      exact ⟨hget, .inl rfl⟩
  | none =>
      rw [hget] at h
      dsimp only at h
      cases hbuild : Grammar.Lexer.build g r.compiler with
      | error e =>
          rw [hbuild] at h
          cases h
      | ok lexer =>
          rw [hbuild] at h
          cases h
          refine ⟨?_, .inr ⟨rfl, rfl, rfl, rfl, rfl, rfl⟩⟩
          show (r.tokenizers.insert scope _).get? scope = _
          rw [Table.get?_insert, if_pos rfl]

/-- It has to be known of the grammar that a tokenizer is built from. -/
theorem From.tokenizer (h : r.From G) (hg : G g)
    (ht : r.tokenizer scope g = .ok (t, r')) : r'.From G := by
  obtain ⟨-, rfl | ⟨-, hbuild, hcompiler, hgrammars, -, htokenizers⟩⟩ :=
    tokenizer_cases ht
  · exact h
  · refine ⟨?_, ?_⟩
    · intro other g' hg'
      unfold get? at hg'
      rw [hgrammars] at hg'
      exact h.grammars other g' hg'
    · intro other u hu
      rw [htokenizers, Table.get?_insert] at hu
      rw [hcompiler]
      split at hu
      · obtain rfl := Option.some.inj hu
        exact ⟨g, hg, hbuild⟩
      · exact h.tokenizers other u hu

end Registry

-- ================================================================ loads

namespace Loads

variable {κ : Type} {l l' : Loads κ} {scope : String} {g : Grammar}
  {t : GrammarTokenizer}

theorem registry_askGrammar (l : Loads κ) (scope : String) :
    (l.askGrammar scope).2.registry = l.registry := by
  unfold askGrammar
  split
  · rfl
  · split
    · rfl
    · split
      · split <;> rfl
      · rfl

theorem registry_cancel (l : Loads κ) (waiter : Nat) :
    (l.cancel waiter).registry = l.registry := by
  unfold cancel
  split
  · rfl
  · dsimp only
    split <;> rfl

theorem registry_comeBack (l : Loads κ) (id : Nat) :
    (l.comeBack id).registry = l.registry := by
  unfold comeBack
  split <;> rfl

/-- A fetch that is over registers the grammar it brings, if it does. -/
theorem registry_complete (l : Loads κ) (id : Nat) (f : Fetch)
    (loaded : Loaded) :
    (l.complete id f loaded).registry = match loaded with
      | .grammar g => l.registry.registerLoaded g
      | _ => l.registry := by
  cases loaded <;> rfl

/-- What a fetch brings is its outcome from then on. -/
theorem outcome?_complete {id : Nat} {f : Fetch}
    (hf : l.fetches[id]? = some f) (loaded : Loaded) :
    (l.complete id f loaded).outcome? id = some (match loaded with
      | .grammar g => some g
      | _ => none) := by
  obtain ⟨hlt, -⟩ := List.getElem?_eq_some_iff.1 hf
  unfold outcome? complete
  cases loaded with
  | grammar g =>
      dsimp only
      rw [List.getElem?_set_self hlt]
  | nothing =>
      dsimp only
      rw [List.getElem?_set_self hlt]
  | failed =>
      dsimp only [noted]
      rw [List.getElem?_set_self hlt]

/-- The turn of a fetch registers what the fetch brings, if that ends
it. -/
theorem registry_runFetch (l : Loads κ) (id : Nat) :
    (l.runFetch id).registry = l.registry
      ∨ ∃ g, l.outcome? id = none
        ∧ (l.runFetch id).outcome? id = some (some g)
        ∧ (l.runFetch id).registry = l.registry.registerLoaded g := by
  -- both ways of being over come to this
  have hcomplete : ∀ (l' : Loads κ) f loaded,
      l'.fetches[id]? = some f → l.outcome? id = none →
      l'.registry = l.registry →
      (l'.complete id f loaded).registry = l.registry
        ∨ ∃ g, l.outcome? id = none
          ∧ (l'.complete id f loaded).outcome? id = some (some g)
          ∧ (l'.complete id f loaded).registry
            = l.registry.registerLoaded g := by
    intro l' f loaded hf hnone h
    rw [registry_complete, h]
    cases loaded with
    | grammar g => exact .inr ⟨g, hnone, outcome?_complete hf (.grammar g), rfl⟩
    | nothing => exact .inl rfl
    | failed => exact .inl rfl
  unfold runFetch
  split
  · next f load hf hload =>
    obtain ⟨scope, stage, waiters⟩ := f
    -- a fetch whose turn does anything was not over
    have hnone : (∀ grammar, stage ≠ .done grammar) →
        l.outcome? id = none := by
      intro hstage
      unfold outcome?
      rw [hf]
      split
      · next heq =>
        cases heq
        exact absurd rfl (hstage _)
      · rfl
    cases stage with
    | created =>
        dsimp only
        split
        · exact .inl rfl
        · exact hcomplete _ _ _ hf (hnone nofun) rfl
    | returned loaded => exact hcomplete _ _ _ hf (hnone nofun) rfl
    | waiting loaded => exact .inl rfl
    | done grammar => exact .inl rfl
  · exact .inl rfl

theorem registry_forget (l : Loads κ) (id : Nat) :
    (l.forget id).registry = l.registry := by
  unfold forget
  split
  · rfl
  · split <;> rfl

theorem registry_relay (l : Loads κ) (id waiter : Nat) :
    (l.relay id waiter).registry = l.registry := by
  unfold relay
  split <;> rfl

/-- A turn leaves the registry as it is, or a fetch is over in it, and its
grammar is registered. -/
theorem registry_turn {event : Event κ}
    (h : l.turn = some (event, l')) :
    l'.registry = l.registry
      ∨ ∃ id g, l.outcome? id = none ∧ l'.outcome? id = some (some g)
        ∧ l'.registry = l.registry.registerLoaded g := by
  cases taken h with
  | start => exact .inl rfl
  | @fetch id rest hready =>
      refine (registry_runFetch { l with ready := rest } id).imp_right ?_
      exact fun hnew => ⟨id, hnew⟩
  | forget => exact .inl (registry_forget ..)
  | relay => exact .inl (registry_relay ..)
  | idle => exact .inl rfl
  | resume => exact .inl rfl
  | cancelled => exact .inl rfl

/-- A tokenizer that is answered is in the registry. -/
theorem get?_of_finishTokenizer {grammar : Option Grammar}
    (h : l.finishTokenizer scope grammar = (some t, l')) :
    l'.registry.tokenizers.get? scope = some t := by
  unfold finishTokenizer at h
  cases grammar with
  | none => cases h
  | some g =>
      dsimp only at h
      cases ht : l.registry.tokenizer scope g with
      | error e =>
          rw [ht] at h
          cases h
      | ok result =>
          obtain ⟨u, r⟩ := result
          rw [ht] at h
          cases h
          exact (Registry.tokenizer_cases ht).1

/-- So is one that is known without waiting. -/
theorem get?_of_askTokenizer
    (h : l.askTokenizer scope = (.known (some t), l')) :
    l'.registry.tokenizers.get? scope = some t := by
  unfold askTokenizer at h
  cases hget : l.registry.tokenizers.get? scope with
  | some u =>
      rw [hget] at h
      cases h
      exact hget
  | none =>
      rw [hget] at h
      dsimp only at h
      rcases hask : l.askGrammar scope with ⟨grammar | id, l₁⟩
      · rw [hask] at h
        dsimp only at h
        rcases hdone : l₁.finishTokenizer scope grammar with ⟨u, l₂⟩
        rw [hdone] at h
        cases h
        exact get?_of_finishTokenizer hdone
      · rw [hask] at h
        cases h

/-- Getting a tokenizer built keeps what is known of the grammars, if it
is known of this one. -/
theorem from_finishTokenizer {G : Grammar → Prop}
    (h : l.registry.From G) (hg : G g) (scope : String) :
    (l.finishTokenizer scope (some g)).2.registry.From G := by
  unfold Loads.finishTokenizer
  dsimp only
  cases ht : l.registry.tokenizer scope g with
  | error e => exact h
  | ok result => exact h.tokenizer hg ht

/-- No operation puts another compiler in the place of the registry's. -/
theorem stable_compiler (compiler : Pattern.Compiler) :
    Stable (fun l : Loads κ => l.registry.compiler = compiler)
      fun _ _ => True where
  journal _ h := h
  ask l scope h := by
    rw [registry_askGrammar]
    exact h
  known _ _ _ _ _ _ := trivial
  -- a tokenizer is stored beside the compiler
  compile l scope g h _ := by
    unfold finishTokenizer
    dsimp only
    cases ht : l.registry.tokenizer scope g with
    | error e => exact h
    | ok result =>
        obtain ⟨-, hsame | ⟨-, -, hsame, -⟩⟩ := Registry.tokenizer_cases ht
        · exact (congrArg Registry.compiler hsame).trans h
        · exact hsame.trans h
  join _ _ _ h := h
  start _ _ h := h
  cancel l waiter h := by
    rw [registry_cancel]
    exact h
  comeBack l id h := by
    rw [registry_comeBack]
    exact h
  defer _ h := h
  forgetLoaded _ h := h
  mapLanguage _ _ _ h := h
  turn l event l' h ht := by
    rcases registry_turn ht with hsame | ⟨-, g, -, -, hnew⟩
    · rw [hsame]
      exact h
    · rw [hnew]
      exact h
  resumed _ _ _ _ _ _ := trivial
  aside _ _ _ := trivial

/-- All tokenizers stay built from grammars. -/
theorem stable_built :
    Stable (fun l : Loads κ => l.registry.Built) fun _ _ => True where
  journal _ h := h
  ask l scope h := by
    rw [registry_askGrammar]
    exact h
  known _ _ _ _ _ _ := trivial
  compile _ scope _ h hg := from_finishTokenizer h hg scope
  join _ _ _ h := h
  start _ _ h := h
  cancel l waiter h := by
    rw [registry_cancel]
    exact h
  comeBack l id h := by
    rw [registry_comeBack]
    exact h
  defer _ h := h
  forgetLoaded _ h := h.forgetLoaded
  mapLanguage _ language scope h := h.mapLanguage language scope
  turn l event l' h ht := by
    rcases registry_turn ht with hsame | ⟨-, g, -, -, hnew⟩
    · rw [hsame]
      exact h
    · rw [hnew]
      exact h.registerLoaded trivial
  resumed _ _ _ _ _ _ := trivial
  aside _ _ _ := trivial

end Loads

end Relex
