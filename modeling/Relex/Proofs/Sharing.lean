/-
Loads that are shared.

As long as nothing is registered by hand and nothing forgotten, and the
loader comes with grammars of the scopes it was called for, the pending
fetch of a scope is the only one that is not over (`Single`): whoever asks
meanwhile finds it, and once it brought a grammar nobody has to ask again.
So what is in the registry stays as it is (`Registry.Grows`), and the
loader is called no more for a scope that it gave the grammar of
(`Onward`).
-/
import Relex.Proofs.Arrivals

namespace Relex

-- ============================================================ registries

namespace Registry

/-- The tokenizers there are were built from the grammars there are. -/
def Coherent (r : Registry) : Prop :=
  ∀ scope t, r.tokenizers.get? scope = some t →
    ∃ g, r.get? scope = some g
      ∧ Grammar.Lexer.build g r.compiler = .ok t.lexer

theorem coherent_empty (compiler : Pattern.Compiler) :
    (empty compiler).Coherent := nofun

/-- What was in a registry is still there. -/
structure Grows (r r' : Registry) : Prop where
  grammars : ∀ scope g, r.get? scope = some g → r'.get? scope = some g
  tokenizers : ∀ scope t, r.tokenizers.get? scope = some t →
    r'.tokenizers.get? scope = some t

variable {r r' r'' : Registry} {g : Grammar} {scope : String}
  {t : GrammarTokenizer}

theorem Grows.refl (r : Registry) : Grows r r :=
  ⟨fun _ _ h => h, fun _ _ h => h⟩

theorem Grows.trans (h : Grows r r') (h' : Grows r' r'') : Grows r r'' :=
  ⟨fun scope g hg => h'.grammars scope g (h.grammars scope g hg),
    fun scope t ht => h'.tokenizers scope t (h.tokenizers scope t ht)⟩

theorem Coherent.registerLoaded (h : r.Coherent) (g : Grammar) :
    (r.registerLoaded g).Coherent := by
  intro scope t ht
  have ht : (r.tokenizers.erase g.scope).get? scope = some t := ht
  rw [Table.get?_erase] at ht
  split at ht
  · cases ht
  · next hne =>
    obtain ⟨g', hg', hbuild⟩ := h scope t ht
    refine ⟨g', ?_, hbuild⟩
    have hget := get?_register r g scope
    rw [if_neg hne] at hget
    exact hget.trans hg'

/-- A grammar that was not known takes nothing's place. -/
theorem Coherent.grows (h : r.Coherent) (hnone : r.get? g.scope = none) :
    Grows r (r.registerLoaded g) := by
  refine ⟨?_, ?_⟩
  · intro scope g' hg'
    have hget := get?_register r g scope
    rw [if_neg] at hget
    · exact hget.trans hg'
    · rintro rfl
      cases hnone.symm.trans hg'
  · intro scope t ht
    show (r.tokenizers.erase g.scope).get? scope = some t
    rw [Table.get?_erase, if_neg, ht]
    rintro rfl
    obtain ⟨g', hg', -⟩ := h g.scope t ht
    cases hnone.symm.trans hg'

theorem Coherent.tokenizer (h : r.Coherent) (hg : r.get? scope = some g)
    (ht : r.tokenizer scope g = .ok (t, r')) :
    r'.Coherent ∧ Grows r r' := by
  obtain ⟨-, rfl | ⟨hnone, hbuild, hcompiler, hgrammars, -,
    htokenizers⟩⟩ := tokenizer_cases ht
  · exact ⟨h, .refl r'⟩
  · have hget : ∀ other, r'.get? other = r.get? other :=
      fun other => congrArg (·.get? other) hgrammars
    refine ⟨?_, ?_, ?_⟩
    · intro other u hu
      rw [htokenizers, Table.get?_insert] at hu
      rw [hget, hcompiler]
      split at hu
      · next heq =>
        subst heq
        cases hu
        exact ⟨g, hg, hbuild⟩
      · exact h other u hu
    · intro other g' hg'
      exact (hget other).trans hg'
    · intro other u hu
      rw [htokenizers, Table.get?_insert, if_neg, hu]
      rintro rfl
      cases hnone.symm.trans hu

end Registry

namespace Loads

variable {κ : Type} {l l' first : Loads κ} {id : Nat} {f : Fetch}
  {g : Grammar} {scope : String} {stage : Stage}

-- ====================================================== a single fetch

/-- The loader comes with grammars of the scopes it was called for. -/
def Honest (load : Loader) : Prop :=
  ∀ scope i g, (load scope i).loaded = .grammar g → g.scope = scope

/-- There is a fetch for a scope that is not over only as the pending one,
and only while no grammar of the scope is known. What a fetch brought is
known. If one that is still pending brought none, there is none. -/
structure Single (l : Loads κ) : Prop where
  honest : ∀ load, l.loader = some load → Honest load
  held : ∀ id scope stage g, l.progress? id = some (scope, stage) →
    stage.Holds g → g.scope = scope
  pending : ∀ id scope stage, l.progress? id = some (scope, stage) →
    stage.isOver = false →
    l.pending.get? scope = some id ∧ l.registry.get? scope = none
  named : ∀ scope id, l.pending.get? scope = some id →
    l.loader.isNone = false
      ∧ ∃ stage, l.progress? id = some (scope, stage)
        ∧ (stage = .done none → l.registry.get? scope = none)
  done : ∀ id scope g, l.progress? id = some (scope, .done (some g)) →
    l.registry.get? scope = some g
  coherent : l.registry.Coherent

theorem single_new {registry : Registry} {loader : Option Loader}
    (hloader : ∀ load, loader = some load → Honest load)
    (hregistry : registry.Coherent) :
    Single (new registry loader : Loads κ) :=
  ⟨hloader, nofun, nofun, nofun, nofun, hregistry⟩

/-- Two fetches for a scope that are not over are the same. -/
theorem Single.eq (h : Single l) {id' : Nat} {stage' : Stage}
    (hp : l.progress? id = some (scope, stage))
    (hopen : stage.isOver = false)
    (hp' : l.progress? id' = some (scope, stage'))
    (hopen' : stage'.isOver = false) : id = id' :=
  Option.some.inj ((h.pending id scope stage hp hopen).1.symm.trans
    (h.pending id' scope stage' hp' hopen').1)

/-- A grammar that comes with the answer is the scope's, and who has to
wait waits for a fetch of the scope. -/
theorem Single.asked (h : Single l) (scope : String) :
    (∀ g, (l.askGrammar scope).1 = .known (some g) →
      (l.askGrammar scope).2.registry.get? scope = some g)
    ∧ ∀ id, (l.askGrammar scope).1 = .wait id →
      ∃ stage, (l.askGrammar scope).2.progress? id
        = some (scope, stage) := by
  unfold askGrammar
  split
  · next g hg =>
    refine ⟨?_, nofun⟩
    rintro _ ⟨⟩
    exact hg
  · next hnone =>
    split
    · exact ⟨nofun, nofun⟩
    · split
      · next id hid =>
        obtain ⟨-, stage, hp, -⟩ := h.named scope id hid
        split
        · next grammar hout =>
          refine ⟨?_, nofun⟩
          rintro g ⟨⟩
          obtain ⟨other, hp'⟩ := outcome?_eq_some.1 hout
          cases hp.symm.trans hp'
          exact h.done id scope g hp
        · refine ⟨nofun, ?_⟩
          rintro _ ⟨⟩
          exact ⟨stage, hp⟩
      · refine ⟨nofun, ?_⟩
        rintro _ ⟨⟩
        refine ⟨.created, ?_⟩
        unfold progress?
        dsimp only [enqueue]
        rw [List.getElem?_concat_length]
        rfl

/-- Whoever asks while a fetch is pending begins no other: there is nothing
to do but to wait for it, or it is over and its outcome is the answer. -/
theorem Single.shares (h : Single l)
    (hid : l.pending.get? scope = some id) :
    (l.askGrammar scope).2 = l
      ∧ ((l.askGrammar scope).1 = .wait id
        ∨ ∃ grammar, (l.askGrammar scope).1 = .known grammar
          ∧ l.outcome? id = some grammar) := by
  obtain ⟨hloads, stage, hp, hbare⟩ := h.named scope id hid
  cases hget : l.registry.get? scope with
  | some g =>
      -- then the fetch is over, and it is what brought the grammar
      unfold askGrammar
      rw [hget]
      refine ⟨rfl, .inr ⟨some g, rfl, outcome?_eq_some.2 ⟨scope, ?_⟩⟩⟩
      cases hover : stage.isOver with
      | false =>
          cases hget.symm.trans (h.pending id scope stage hp hover).2
      | true =>
          cases stage with
          | done grammar =>
              cases grammar with
              | none => cases hget.symm.trans (hbare rfl)
              | some g' =>
                  cases hget.symm.trans (h.done id scope g' hp)
                  exact hp
          | created => cases hover
          | waiting loaded => cases hover
          | returned loaded => cases hover
  | none =>
      unfold askGrammar
      rw [hget, hid]
      dsimp only
      rw [if_neg (ne_true_of_eq_false hloads)]
      cases hout : l.outcome? id with
      | none => exact ⟨rfl, .inl rfl⟩
      | some grammar => exact ⟨rfl, .inr ⟨grammar, rfl, rfl⟩⟩

-- ============================================================= onward

/-- The loader has come back with a grammar of the scope, or one was known
all along. -/
def Settled (l : Loads κ) (scope : String) : Prop :=
  (∃ g, l.registry.get? scope = some g)
    ∨ ∃ id g, l.progress? id = some (scope, .returned (.grammar g))

/-- What is known stays known, what was built stays in use, and the loader
is called no more for scopes it has given the grammar of. -/
structure Onward (first l : Loads κ) : Prop where
  later : Later first l
  grows : first.registry.Grows l.registry
  settled : ∀ scope, Settled first scope → Settled l scope
    ∧ l.calls.count scope = first.calls.count scope

theorem Onward.refl (l : Loads κ) : Onward l l :=
  ⟨.refl l, .refl _, fun _ h => ⟨h, rfl⟩⟩

theorem Onward.trans (h : Onward first l) (h' : Onward l l') :
    Onward first l' := by
  refine ⟨h.later.trans h'.later, h.grows.trans h'.grows, ?_⟩
  intro scope hscope
  obtain ⟨hmid, hcount⟩ := h.settled scope hscope
  obtain ⟨hlast, hcount'⟩ := h'.settled scope hmid
  exact ⟨hlast, hcount'.trans hcount⟩

/-- What goes on with a step that leaves fetches and calls alone. -/
theorem Onward.of_progress (hp : ∀ id, l'.progress? id = l.progress? id)
    (hg : l.registry.Grows l'.registry) (hc : l'.calls = l.calls) :
    Onward l l' := by
  refine ⟨.of_progress hp, hg, ?_⟩
  intro scope hscope
  refine ⟨?_, by rw [hc]⟩
  rcases hscope with ⟨g, hknown⟩ | ⟨id, g, hreturned⟩
  · exact .inl ⟨g, hg.grammars scope g hknown⟩
  · exact .inr ⟨id, g, (hp id).trans hreturned⟩

-- ============================================================ operations

/-- Nothing changed for the fetches, and the registry at most grew by
tokenizers. -/
theorem Single.of_progress (h : Single l)
    (hp : ∀ id, l'.progress? id = l.progress? id)
    (hloader : l'.loader = l.loader) (hpending : l'.pending = l.pending)
    (hget : ∀ scope, l'.registry.get? scope = l.registry.get? scope)
    (hcoherent : l'.registry.Coherent) : Single l' := by
  refine ⟨?_, ?_, ?_, ?_, ?_, hcoherent⟩
  · rw [hloader]
    exact h.honest
  · intro id scope stage g hid
    exact h.held id scope stage g ((hp id).symm.trans hid)
  · intro id scope stage hid
    rw [hpending, hget]
    exact h.pending id scope stage ((hp id).symm.trans hid)
  · intro scope id hid
    rw [hpending] at hid
    rw [hloader, hget]
    obtain ⟨hloads, stage, hid, hnone⟩ := h.named scope id hid
    exact ⟨hloads, stage, (hp id).trans hid, hnone⟩
  · intro id scope g hid
    rw [hget]
    exact h.done id scope g ((hp id).symm.trans hid)

theorem Single.steady (h : Single l)
    (hp : ∀ id, l'.progress? id = l.progress? id)
    (hloader : l'.loader = l.loader) (hpending : l'.pending = l.pending)
    (hregistry : l'.registry = l.registry) (hcalls : l'.calls = l.calls) :
    Single l' ∧ Onward l l' := by
  refine ⟨h.of_progress hp hloader hpending ?_ ?_,
    .of_progress hp ?_ hcalls⟩
  · rw [hregistry]
    exact fun _ => rfl
  · rw [hregistry]
    exact h.coherent
  · rw [hregistry]
    exact .refl _

/-- A new fetch begins for a scope that has none. -/
theorem Single.begin (h : Single l) (hloader : l.loader.isNone = false)
    (hnone : l.registry.get? scope = none)
    (hfree : l.pending.get? scope = none) :
    Single { l with
      fetches := l.fetches ++ [⟨scope, .created, []⟩]
      pending := l.pending.insert scope l.fetches.length } := by
  -- the new fetch has the next number; the others are as they were
  have hnew : ∀ id, progress? { l with
      fetches := l.fetches ++ [⟨scope, .created, []⟩]
      pending := l.pending.insert scope l.fetches.length } id
        = if id = l.fetches.length then some (scope, .created)
          else l.progress? id := by
    intro id
    unfold progress?
    dsimp only
    by_cases hid : id = l.fetches.length
    · rw [if_pos hid, hid, List.getElem?_concat_length]
      rfl
    · rw [if_neg hid, List.getElem?_append]
      split
      · rfl
      · rw [List.getElem?_eq_none (by rw [List.length_singleton]; omega),
          List.getElem?_eq_none (by omega)]
  refine ⟨h.honest, ?_, ?_, ?_, ?_, h.coherent⟩
  · intro id other stage g hid hg
    rw [hnew] at hid
    split at hid
    · cases hid
      cases hg
    · exact h.held id other stage g hid hg
  · intro id other stage hid hopen
    show (l.pending.insert scope _).get? other = some id ∧ _
    rw [hnew] at hid
    rw [Table.get?_insert]
    split at hid
    · next heq =>
      cases hid
      exact ⟨by rw [if_pos rfl, heq], hnone⟩
    · obtain ⟨hpending, hunknown⟩ := h.pending id other stage hid hopen
      refine ⟨?_, hunknown⟩
      rw [if_neg, hpending]
      -- a fetch of the scope that is not over would be pending
      rintro rfl
      cases hfree.symm.trans hpending
  · intro other id hid
    have hid : (l.pending.insert scope _).get? other = some id := hid
    rw [Table.get?_insert] at hid
    refine ⟨hloader, ?_⟩
    rw [hnew]
    split at hid
    · next heq =>
      cases hid
      exact ⟨.created, by rw [if_pos rfl, heq], nofun⟩
    · obtain ⟨-, stage, hp, hbare⟩ := h.named other id hid
      refine ⟨stage, ?_, hbare⟩
      rw [if_neg, hp]
      rintro rfl
      rw [progress?_eq_none (Nat.le_refl _)] at hp
      cases hp
  · intro id other g hid
    rw [hnew] at hid
    split at hid
    · cases hid
    · exact h.done id other g hid

/-- A fetch goes on, and is not over yet. -/
theorem Single.set (h : Single l) (hf : l.fetches[id]? = some f)
    (hopen : f.stage.isOver = false) (stage : Stage)
    (hstage : stage.isOver = false)
    (hheld : ∀ g, stage.Holds g → g.scope = f.scope) :
    Single { l with fetches := l.fetches.set id { f with stage } } := by
  refine ⟨h.honest, ?_, ?_, ?_, ?_, h.coherent⟩
  · intro i other stage' g hp hg
    rw [progress?_set hf] at hp
    split at hp
    · cases hp
      exact hheld g hg
    · exact h.held i other stage' g hp hg
  · intro i other stage' hp hopen'
    rw [progress?_set hf] at hp
    split at hp
    · next heq =>
      subst heq
      cases hp
      exact h.pending id f.scope f.stage (progress?_eq_some hf) hopen
    · exact h.pending i other stage' hp hopen'
  · intro other i hi
    obtain ⟨hloads, stage', hp, hbare⟩ := h.named other i hi
    refine ⟨hloads, ?_⟩
    rw [progress?_set hf]
    split
    · next heq =>
      subst heq
      cases (progress?_eq_some hf).symm.trans hp
      refine ⟨stage, rfl, ?_⟩
      rintro rfl
      cases hstage
    · exact ⟨stage', hp, hbare⟩
  · intro i other g hp
    rw [progress?_set hf] at hp
    split at hp
    · cases hp
      cases hstage
    · exact h.done i other g hp

/-- A fetch is over. What it brought, if anything, is in the registry. -/
theorem Single.over (h : Single l) (hf : l.fetches[id]? = some f)
    (hopen : f.stage.isOver = false) {grammar : Option Grammar}
    {registry : Registry} (ready : List (Turn κ))
    (hheld : ∀ g, grammar = some g →
      g.scope = f.scope ∧ registry.get? f.scope = some g)
    (hnone : grammar = none → registry.get? f.scope = none)
    (hothers : ∀ scope, scope ≠ f.scope →
      registry.get? scope = l.registry.get? scope)
    (hcoherent : registry.Coherent) :
    Single { l with
      registry
      fetches := l.fetches.set id { f with stage := .done grammar }
      ready } := by
  have hprogress : ∀ i, progress? { l with
      registry
      fetches := l.fetches.set id { f with stage := .done grammar }
      ready } i = if id = i then some (f.scope, .done grammar)
        else l.progress? i :=
    progress?_set hf (.done grammar)
  have hp := progress?_eq_some hf
  obtain ⟨hpending, hunknown⟩ := h.pending id f.scope f.stage hp hopen
  refine ⟨h.honest, ?_, ?_, ?_, ?_, hcoherent⟩
  · intro i other stage g hi hg
    rw [hprogress] at hi
    split at hi
    · cases hi
      cases hg
      exact (hheld g rfl).1
    · exact h.held i other stage g hi hg
  · intro i other stage hi hopen'
    rw [hprogress] at hi
    split at hi
    · cases hi
      cases hopen'
    · next hne =>
      obtain ⟨hthere, hnone⟩ := h.pending i other stage hi hopen'
      refine ⟨hthere, (hothers other ?_).trans hnone⟩
      -- two fetches that are not over would be pending for one scope
      rintro rfl
      exact hne (Option.some.inj (hpending.symm.trans hthere))
  · intro other i hi
    -- it stays pending until the turn that drops it
    have hthere : l.pending.get? other = some i := hi
    obtain ⟨hloads, stage, hi, hbare⟩ := h.named other i hi
    refine ⟨hloads, ?_⟩
    rw [hprogress i]
    split
    · next heq =>
      subst heq
      cases hp.symm.trans hi
      refine ⟨.done grammar, rfl, ?_⟩
      rintro ⟨⟩
      exact hnone rfl
    · next hne =>
      refine ⟨stage, hi, fun hstage => ?_⟩
      refine (hothers other ?_).trans (hbare hstage)
      rintro rfl
      exact hne (Option.some.inj (hpending.symm.trans hthere))
  · intro i other g hi
    rw [hprogress] at hi
    split at hi
    · cases hi
      exact (hheld g rfl).2
    · have hknown := h.done i other g hi
      refine (hothers other ?_).trans hknown
      rintro rfl
      cases hunknown.symm.trans hknown

/-- A fetch that the loader has not come back for goes on. -/
theorem Onward.set (hf : l.fetches[id]? = some f)
    (hopen : f.stage.isOver = false)
    (hout : ∀ g, f.stage ≠ .returned (.grammar g)) (stage : Stage) :
    Onward l
      { l with fetches := l.fetches.set id { f with stage } } := by
  refine ⟨later_set hf hopen stage, .refl _, ?_⟩
  rintro scope (hknown | ⟨i, g, hi⟩)
  · exact ⟨.inl hknown, rfl⟩
  · refine ⟨.inr ⟨i, g, ?_⟩, rfl⟩
    rw [progress?_set hf, if_neg, hi]
    rintro rfl
    obtain ⟨-, hstage⟩ := Prod.mk.inj
      (Option.some.inj ((progress?_eq_some hf).symm.trans hi))
    exact hout g hstage

/-- The loader is called for a fetch: no other fetch of the scope has come
back with a grammar. -/
theorem Onward.called (h : Single l) (hf : l.fetches[id]? = some f)
    (hcreated : f.stage = .created) :
    Onward l { l with calls := l.calls ++ [f.scope] } := by
  have hp := progress?_eq_some hf
  have hopen : f.stage.isOver = false := by rw [hcreated]; rfl
  have hunsettled : ¬ Settled l f.scope := by
    rintro (⟨g, hg⟩ | ⟨i, g, hi⟩)
    · cases (h.pending id _ _ hp hopen).2.symm.trans hg
    · obtain rfl := h.eq hp hopen hi rfl
      rw [hcreated] at hp
      cases hp.symm.trans hi
  refine ⟨.refl l, .refl _, fun scope hscope => ⟨hscope, ?_⟩⟩
  have hne : f.scope ≠ scope := by
    rintro rfl
    exact hunsettled hscope
  show (l.calls ++ [f.scope]).count scope = _
  rw [List.count_append, List.count_singleton,
    if_neg (beq_eq_false_iff_ne.2 hne ▸ Bool.false_ne_true), Nat.add_zero]

/-- A fetch is over. If it had returned with a grammar, that is registered
now. -/
theorem Onward.over (hf : l.fetches[id]? = some f) (hl : Later l l')
    (hgrows : l.registry.Grows l'.registry)
    (hreturned : ∀ g, f.stage = .returned (.grammar g) →
      l'.registry.get? f.scope = some g)
    (hothers : ∀ i, id ≠ i → l'.progress? i = l.progress? i)
    (hcalls : l'.calls = l.calls) : Onward l l' := by
  refine ⟨hl, hgrows, ?_⟩
  rintro scope (⟨g, hg⟩ | ⟨i, g, hi⟩)
  · exact ⟨.inl ⟨g, hgrows.grammars scope g hg⟩, by rw [hcalls]⟩
  · refine ⟨?_, by rw [hcalls]⟩
    by_cases heq : id = i
    · subst heq
      obtain ⟨rfl, hstage⟩ := Prod.mk.inj
        (Option.some.inj ((progress?_eq_some hf).symm.trans hi))
      exact .inl ⟨g, hreturned g hstage⟩
    · exact .inr ⟨i, g, (hothers i heq).trans hi⟩

theorem Single.complete (h : Single l) (hf : l.fetches[id]? = some f)
    (hopen : f.stage.isOver = false) {loaded : Loaded}
    (hheld : ∀ g, loaded = .grammar g → g.scope = f.scope)
    (hreturned : ∀ g, f.stage = .returned (.grammar g) →
      loaded = .grammar g) :
    Single (l.complete id f loaded)
      ∧ Onward l (l.complete id f loaded) := by
  have hunknown :=
    (h.pending id f.scope f.stage (progress?_eq_some hf) hopen).2
  have hlater := later_complete hf hopen loaded
  have hothers : ∀ grammar i, id ≠ i → progress? { l with
      fetches := l.fetches.set id { f with stage := .done grammar } } i
        = l.progress? i := by
    intro grammar i hne
    rw [progress?_set hf, if_neg hne]
  cases loaded with
  | grammar g =>
      have hscope := hheld g rfl
      have hknown :
          (l.registry.registerLoaded g).get? f.scope = some g := by
        rw [← hscope]
        exact (Registry.get?_register ..).trans (if_pos rfl)
      -- nothing was known of the scope, so nothing is replaced
      have hgrows := h.coherent.grows (hscope ▸ hunknown)
      refine ⟨h.over hf hopen (l.ready ++ _) ?_ nofun ?_
          (h.coherent.registerLoaded g),
        .over hf hlater hgrows ?_ (hothers (some g)) rfl⟩
      · rintro _ ⟨⟩
        exact ⟨hscope, hknown⟩
      · intro scope hne
        refine (Registry.get?_register ..).trans (if_neg ?_)
        rw [hscope]
        exact hne.symm
      · intro g' hstage
        cases hreturned g' hstage
        exact hknown
  | nothing =>
      have honward := Onward.over hf hlater (.refl _)
        (fun g hstage => nomatch hreturned g hstage) (hothers none) rfl
      exact ⟨h.over hf hopen (l.ready ++ _) nofun (fun _ => hunknown)
        (fun _ _ => rfl) h.coherent, honward⟩
  | failed =>
      have honward := Onward.over hf hlater (.refl _)
        (fun g hstage => nomatch hreturned g hstage) (hothers none) rfl
      have hnoted : Single (l.noted (.ofRegistry .error
          ("Unable to load grammar for scope " ++ f.scope))) :=
        h.of_progress (fun _ => rfl) rfl rfl (fun _ => rfl) h.coherent
      exact ⟨hnoted.over hf hopen (l.ready ++ _) nofun (fun _ => hunknown)
        (fun _ _ => rfl) h.coherent, honward⟩

theorem Single.runFetch (h : Single l) (id : Nat) :
    Single (l.runFetch id) ∧ Onward l (l.runFetch id) := by
  unfold Loads.runFetch
  split
  · next f load hf hload =>
    have hp := progress?_eq_some hf
    split
    · next hcreated =>
      have hopen : f.stage.isOver = false := by rw [hcreated]; rfl
      have hbrings : ∀ g,
          (load f.scope (l.calls.count f.scope)).loaded = .grammar g →
          g.scope = f.scope := h.honest load hload f.scope _
      have hcalled : Single { l with calls := l.calls ++ [f.scope] } :=
        h.of_progress (fun _ => rfl) rfl rfl (fun _ => rfl) h.coherent
      have honward := Onward.called h hf hcreated
      have hout : ∀ g, f.stage ≠ .returned (.grammar g) := by
        rw [hcreated]
        exact nofun
      dsimp only
      split
      · -- the loader has to be waited for
        refine ⟨hcalled.set hf hopen _ rfl fun g hg =>
          hbrings g (Stage.loaded_of_holds hg),
          honward.trans (Onward.set ?_ hopen hout _)⟩
        exact hf
      · -- it answers at once
        obtain ⟨hsingle, hon⟩ := hcalled.complete hf hopen hbrings
          fun g hg => absurd hg (hout g)
        exact ⟨hsingle, honward.trans hon⟩
    · next loaded hstage =>
      have hopen : f.stage.isOver = false := by rw [hstage]; rfl
      apply h.complete hf hopen
      · rintro g rfl
        rw [hstage] at hp
        exact h.held id _ _ g hp .returned
      · intro g hg
        rw [hstage] at hg
        cases hg
        rfl
    · exact ⟨h, .refl l⟩
  · exact ⟨h, .refl l⟩

theorem Single.comeBack (h : Single l) (id : Nat) :
    Single (l.comeBack id) ∧ Onward l (l.comeBack id) := by
  unfold Loads.comeBack
  split
  · next scope loaded waiters hf =>
    have hset := h.set hf rfl (.returned loaded) rfl fun g hg => by
      cases hg
      exact h.held id _ _ g (progress?_eq_some hf) .waiting
    refine ⟨hset.of_progress (fun _ => rfl) rfl rfl (fun _ => rfl)
      h.coherent, ?_⟩
    exact (Onward.set hf rfl nofun (.returned loaded)).trans
      (.of_progress (fun _ => rfl) (.refl _) rfl)
  · exact ⟨h, .refl l⟩

theorem Single.askGrammar (h : Single l) (scope : String) :
    Single (l.askGrammar scope).2 ∧ Onward l (l.askGrammar scope).2 := by
  unfold Loads.askGrammar
  split
  · exact ⟨h, .refl l⟩
  · next hnone =>
    split
    · exact ⟨h, .refl l⟩
    · next hloader =>
      split
      · split
        · exact ⟨h, .refl l⟩
        · exact ⟨h, .refl l⟩
      · next hfree =>
        have hbegun := h.begin (eq_false_of_ne_true hloader) hnone hfree
        refine ⟨hbegun.of_progress (fun _ => rfl) rfl rfl (fun _ => rfl)
          h.coherent, ?_, .refl _, ?_⟩
        · intro id other stage hp
          exact ⟨stage, progress?_append l _ hp, fun _ => rfl⟩
        · rintro other (hknown | ⟨i, g, hi⟩)
          · exact ⟨.inl hknown, rfl⟩
          · exact ⟨.inr ⟨i, g, progress?_append l _ hi⟩, rfl⟩

/-- A tokenizer is built from the grammar of its scope. -/
theorem Single.finishTokenizer (h : Single l)
    (hg : l.registry.get? scope = some g) :
    Single (l.finishTokenizer scope (some g)).2
      ∧ Onward l (l.finishTokenizer scope (some g)).2 := by
  unfold Loads.finishTokenizer
  dsimp only
  cases ht : l.registry.tokenizer scope g with
  | error e =>
      exact ⟨h.of_progress (fun _ => rfl) rfl rfl (fun _ => rfl) h.coherent,
        .of_progress (fun _ => rfl) (.refl _) rfl⟩
  | ok result =>
      obtain ⟨hcoherent, hgrows⟩ := h.coherent.tokenizer hg ht
      refine ⟨h.of_progress (fun _ => rfl) rfl rfl ?_ hcoherent,
        .of_progress (fun _ => rfl) hgrows rfl⟩
      obtain ⟨-, hsame | ⟨-, -, -, hgrammars, -⟩⟩ :=
        Registry.tokenizer_cases ht
      · exact fun other => congrArg (·.get? other) hsame
      · exact fun other => congrArg (·.get? other) hgrammars

/-- From a grammar that is known a tokenizer is got if one can be built. -/
theorem Single.isSome_finishTokenizer (h : Single l)
    (hg : l.registry.get? scope = some g) :
    (l.finishTokenizer scope (some g)).1.isSome = true
      ↔ ∃ lexer, Grammar.Lexer.build g l.registry.compiler
        = .ok lexer := by
  unfold Loads.finishTokenizer Registry.tokenizer
  dsimp only
  cases ht : l.registry.tokenizers.get? scope with
  | some t =>
      obtain ⟨g', hg', hbuild⟩ := h.coherent scope t ht
      cases hg.symm.trans hg'
      exact ⟨fun _ => ⟨t.lexer, hbuild⟩, fun _ => rfl⟩
  | none =>
      dsimp only
      cases hbuild : Grammar.Lexer.build g l.registry.compiler with
      | error e => exact ⟨nofun, nofun⟩
      | ok lexer => exact ⟨fun _ => ⟨lexer, rfl⟩, fun _ => rfl⟩

theorem Single.cancel (h : Single l) (waiter : Nat) :
    Single (l.cancel waiter) ∧ Onward l (l.cancel waiter) := by
  refine h.steady (progress?_cancel l waiter) ?_ ?_
    (registry_cancel l waiter) ?_
  all_goals
    unfold Loads.cancel
    split
    · rfl
    · dsimp only
      split <;> rfl

theorem Single.mapLanguage (h : Single l) (language scope : String) :
    Single { l with registry := l.registry.mapLanguage language scope }
      ∧ Onward l
        { l with registry := l.registry.mapLanguage language scope } :=
  ⟨h.of_progress (fun _ => rfl) rfl rfl (fun _ => rfl) h.coherent,
    .of_progress (fun _ => rfl) ⟨fun _ _ hg => hg, fun _ _ ht => ht⟩ rfl⟩

-- ================================================================ turns

/-- A fetch that is over may be forgotten. -/
theorem Single.forget (h : Single l)
    (hover : ∃ grammar, l.outcome? id = some grammar) :
    Single (l.forget id) := by
  obtain ⟨grammar, hout⟩ := hover
  obtain ⟨scope, hp⟩ := outcome?_eq_some.1 hout
  unfold Loads.forget
  split
  · exact h
  · next f hf =>
    split
    · next hpending =>
      obtain ⟨rfl, -⟩ := Prod.mk.inj
        (Option.some.inj ((progress?_eq_some hf).symm.trans hp))
      refine ⟨h.honest, h.held, ?_, ?_, h.done, h.coherent⟩
      · intro i other stage hi hopen
        obtain ⟨hthere, hnone⟩ := h.pending i other stage hi hopen
        refine ⟨?_, hnone⟩
        show (l.pending.erase f.scope).get? other = some i
        rw [Table.get?_erase, if_neg, hthere]
        rintro rfl
        cases hpending.symm.trans hthere
        cases hp.symm.trans hi
        cases hopen
      · intro other i hi
        have hi : (l.pending.erase f.scope).get? other = some i := hi
        rw [Table.get?_erase] at hi
        split at hi
        · cases hi
        · exact h.named other i hi
    · exact h

theorem Onward.forget (l : Loads κ) (id : Nat) :
    Onward l (l.forget id) := by
  unfold Loads.forget
  split
  · exact .refl _
  · split
    · exact .of_progress (fun _ => rfl) (.refl _) rfl
    · exact .refl _

theorem Single.relay (h : Single l) (id waiter : Nat) :
    Single (l.relay id waiter) ∧ Onward l (l.relay id waiter) := by
  unfold Loads.relay
  split
  · exact h.steady (fun _ => rfl) rfl rfl rfl rfl
  · exact ⟨h, .refl _⟩

theorem Single.rest (h : Single l) (rest : List (Turn κ)) :
    Single { l with ready := rest } :=
  h.of_progress (fun _ => rfl) rfl rfl (fun _ => rfl) h.coherent

theorem Single.turn (h : Single l) {event : Event κ}
    (hforgets : ∀ id, .forget id ∈ l.ready →
      ∃ grammar, l.outcome? id = some grammar)
    (ht : l.turn = some (event, l')) : Single l' ∧ Onward l l' := by
  have htaken : ∀ rest, Onward l { l with ready := rest } :=
    fun rest => .of_progress (fun _ => rfl) (.refl _) rfl
  cases taken ht with
  | start => exact h.steady (fun _ => rfl) rfl rfl rfl rfl
  | @fetch id rest hready =>
      obtain ⟨hsingle, honward⟩ := (h.rest rest).runFetch id
      exact ⟨hsingle, (htaken rest).trans honward⟩
  | @forget id rest hready =>
      have hover := hforgets id (by rw [hready]; simp)
      exact ⟨(h.rest rest).forget hover,
        (htaken rest).trans (.forget _ id)⟩
  | @relay id waiter rest hready =>
      obtain ⟨hsingle, honward⟩ := (h.rest rest).relay id waiter
      exact ⟨hsingle, (htaken rest).trans honward⟩
  | idle => exact h.steady (fun _ => rfl) rfl rfl rfl rfl
  | resume => exact h.steady (fun _ => rfl) rfl rfl rfl rfl
  | cancelled => exact h.steady (fun _ => rfl) rfl rfl rfl rfl

end Loads

end Relex
