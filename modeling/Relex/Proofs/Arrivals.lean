/-
What stays of a fetch, and what came in meanwhile.

Whatever is done to the loads, a fetch keeps its scope, and one that is
over keeps its outcome (`Later`). So which grammars came in between two
moments can be read off the fetches of the second: one of them has such a
grammar for its outcome, and was not over at the first (`Brought`).
-/
import Relex.Proofs.Loads

namespace Relex.Loads

variable {κ : Type} {l l' l'' first : Loads κ} {id : Nat} {f : Fetch}
  {scope : String} {stage : Stage} {g : Grammar}

/-- All fetches are still there, for the same scopes, and those that were
over are as they were. -/
def Later (l l' : Loads κ) : Prop :=
  ∀ id scope stage, l.progress? id = some (scope, stage) →
    ∃ stage', l'.progress? id = some (scope, stage')
      ∧ (stage.isOver = true → stage' = stage)

/-- A fetch came with this grammar between two moments. -/
def Brought (first l : Loads κ) (g : Grammar) : Prop :=
  ∃ id, first.outcome? id = none ∧ l.outcome? id = some (some g)

/-- A grammar of the scope came in between two moments. -/
def Arrived (first l : Loads κ) (scope : String) : Prop :=
  ∃ g, Brought first l g ∧ g.scope = scope

-- ================================================================= later

theorem Later.refl (l : Loads κ) : Later l l :=
  fun _ _ stage hp => ⟨stage, hp, fun _ => rfl⟩

theorem Later.trans (h : Later l l') (h' : Later l' l'') :
    Later l l'' := by
  intro id scope stage hp
  obtain ⟨stage₁, hp₁, hover₁⟩ := h id scope stage hp
  obtain ⟨stage₂, hp₂, hover₂⟩ := h' id scope stage₁ hp₁
  refine ⟨stage₂, hp₂, fun hover => ?_⟩
  rw [hover₁ hover] at hover₂
  exact hover₂ hover

theorem Later.of_progress
    (h : ∀ id, l'.progress? id = l.progress? id) : Later l l' := by
  intro id scope stage hp
  exact ⟨stage, (h id).trans hp, fun _ => rfl⟩

/-- A fetch that is over keeps its outcome. -/
theorem Later.outcome? (h : Later l l') {grammar : Option Grammar}
    (hout : l.outcome? id = some grammar) :
    l'.outcome? id = some grammar := by
  obtain ⟨scope, hp⟩ := outcome?_eq_some.1 hout
  obtain ⟨stage, hp', hover⟩ := h id scope _ hp
  rw [hover rfl] at hp'
  exact outcome?_eq_some.2 ⟨scope, hp'⟩

/-- A fetch that is not over was not over before. -/
theorem Later.outcome?_eq_none (h : Later l l')
    (hnone : l'.outcome? id = none) : l.outcome? id = none := by
  cases hout : l.outcome? id with
  | none => rfl
  | some grammar => cases hnone.symm.trans (h.outcome? hout)

/-- What came in has come in for good. -/
theorem Brought.later (h : Brought first l g) (hl : Later l l') :
    Brought first l' g := by
  obtain ⟨id, hnone, hout⟩ := h
  exact ⟨id, hnone, hl.outcome? hout⟩

/-- What came in since a moment came in since any earlier one. -/
theorem Brought.since (h : Brought l l' g) (hl : Later first l) :
    Brought first l' g := by
  obtain ⟨id, hnone, hout⟩ := h
  exact ⟨id, hl.outcome?_eq_none hnone, hout⟩

theorem Arrived.later (h : Arrived first l scope) (hl : Later l l') :
    Arrived first l' scope := by
  obtain ⟨g, hbrought, hscope⟩ := h
  exact ⟨g, hbrought.later hl, hscope⟩

theorem Arrived.since (h : Arrived l l' scope) (hl : Later first l) :
    Arrived first l' scope := by
  obtain ⟨g, hbrought, hscope⟩ := h
  exact ⟨g, hbrought.since hl, hscope⟩

-- ============================================================ operations

/-- A new fetch makes no difference to those there are. -/
theorem progress?_append (l : Loads κ) (f : Fetch)
    (h : l.progress? id = some (scope, stage)) :
    progress? { l with fetches := l.fetches ++ [f] } id
      = some (scope, stage) := by
  obtain ⟨f', hf', hp⟩ := Option.map_eq_some_iff.1 h
  obtain ⟨hlt, -⟩ := List.getElem?_eq_some_iff.1 hf'
  unfold progress?
  dsimp only
  rw [List.getElem?_append_left hlt, hf']
  exact congrArg some hp

/-- Asking for a grammar adds a fetch at most. -/
theorem later_askGrammar (l : Loads κ) (scope : String) :
    Later l (l.askGrammar scope).2 := by
  unfold askGrammar
  split
  · exact .refl l
  · split
    · exact .refl l
    · split
      · split
        · exact .refl l
        · exact .refl l
      · intro id other stage hp
        exact ⟨stage, progress?_append l _ hp, fun _ => rfl⟩

theorem progress?_finishTokenizer (l : Loads κ) (scope : String)
    (grammar : Option Grammar) (id : Nat) :
    (l.finishTokenizer scope grammar).2.progress? id
      = l.progress? id := by
  unfold finishTokenizer
  cases grammar with
  | none => rfl
  | some g =>
      dsimp only
      split <;> rfl

theorem progress?_join (l : Loads κ) (fetch : Nat) (k : κ) (id : Nat) :
    (l.join fetch k).progress? id = l.progress? id :=
  progress?_modify l fetch (· ++ [l.admitted]) id

/-- No fetch moves because one who waits for it is not to go on. -/
theorem progress?_cancel (l : Loads κ) (waiter id : Nat) :
    (l.cancel waiter).progress? id = l.progress? id := by
  unfold cancel
  split
  · rfl
  · next w hw =>
    dsimp only
    split
    · rfl
    · exact progress?_modify l w.fetch (·.erase waiter) id

/-- A fetch that is not over goes on. -/
theorem later_set (hf : l.fetches[id]? = some f)
    (hopen : f.stage.isOver = false) (stage : Stage) :
    Later l
      { l with fetches := l.fetches.set id { f with stage } } := by
  intro i scope stage' hp
  by_cases hi : id = i
  · subst hi
    obtain ⟨rfl, rfl⟩ := Prod.mk.inj
      (Option.some.inj ((progress?_eq_some hf).symm.trans hp))
    refine ⟨stage, ?_, fun hover => ?_⟩
    · rw [progress?_set hf, if_pos rfl]
    · rw [hopen] at hover
      cases hover
  · refine ⟨stage', ?_, fun _ => rfl⟩
    rw [progress?_set hf, if_neg hi]
    exact hp

/-- A fetch whose loader comes back was not over. -/
theorem later_comeBack (l : Loads κ) (id : Nat) :
    Later l (l.comeBack id) := by
  unfold comeBack
  split
  · next scope loaded waiters hf =>
    exact later_set hf rfl (.returned loaded)
  · exact .refl l

/-- A fetch that is completed was not over, and is from then on. -/
theorem later_complete (hf : l.fetches[id]? = some f)
    (hopen : f.stage.isOver = false) (loaded : Loaded) :
    Later l (l.complete id f loaded) := by
  cases loaded with
  | grammar g => exact later_set hf hopen _
  | nothing => exact later_set hf hopen _
  | failed => exact later_set hf hopen _

/-- The turn of a fetch that is over does nothing. -/
theorem later_runFetch (l : Loads κ) (id : Nat) :
    Later l (l.runFetch id) := by
  unfold runFetch
  split
  · next f load hf hload =>
    split
    · next hstage =>
      have hopen : f.stage.isOver = false := by rw [hstage]; rfl
      dsimp only
      have hcalled :
          Later l { l with calls := l.calls ++ [f.scope] } := .refl l
      split
      · exact hcalled.trans (later_set hf hopen _)
      · refine hcalled.trans (later_complete ?_ hopen _)
        exact hf
    · next loaded hstage =>
      have hopen : f.stage.isOver = false := by rw [hstage]; rfl
      exact later_complete hf hopen _
    · exact .refl l
  · exact .refl l

/-- No turn takes back what a fetch has brought. -/
theorem later_turn {event : Event κ} (ht : l.turn = some (event, l')) :
    Later l l' := by
  cases taken ht with
  | start => exact .refl l
  | @fetch id rest hready =>
      exact later_runFetch { l with ready := rest } id
  | @forget id rest hready =>
      apply Later.of_progress
      intro i
      unfold forget
      split
      · rfl
      · split <;> rfl
  | @relay id waiter rest hready =>
      apply Later.of_progress
      intro i
      unfold relay
      split <;> rfl
  | idle => exact .refl l
  | resume => exact .refl l
  | cancelled => exact .refl l

end Relex.Loads
