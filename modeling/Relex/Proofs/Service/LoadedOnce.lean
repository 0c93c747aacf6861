/-
Callers share what is loaded.

Any number of jobs may ask for grammars and tokenizers in any order, before
a load, during it, when it is over but still pending, and after it. As long
as the host registers nothing and nothing is forgotten, and the loader
comes with grammars of the scopes it was called for (`loads_once`),

- there is at most one fetch for a scope that is not over, and whoever asks
  while one is pending waits for it or is given its outcome;
- the loader is not called again for a scope that it came back with the
  grammar of;
- all that waited for the same fetch go on with the same outcome, which is
  the fetch's for good;
- a tokenizer that is answered is the one in the registry, so all that
  asked for that of one scope are answered the same.
-/
import Mathlib
import Relex.Proofs.Addressed
import Relex.Proofs.Service.Upkeep
import Relex.Proofs.Sharing

namespace Relex.Service

open Loads (Honest Single Addressed Later Onward)

/-- The move registers nothing by hand and forgets nothing. -/
def Move.Spares : Move → Prop
  | .register _ => False
  | .forgetLoaded => False
  | .start ⟨_, .reload⟩ => False
  | _ => True

/-- The jobs that some moves, which spare what was loaded, may start, and
those these lead to. -/
def Asks (moves : List Move) (job : Job) : Prop :=
  match job.task with
  | .reload => False
  | .install .. => True
  | _ => .start job ∈ moves

theorem asks_of_start {moves : List Move} (hmoves : ∀ m ∈ moves, m.Spares)
    {job : Job} (hjob : .start job ∈ moves) : Asks moves job := by
  obtain ⟨number, task⟩ := job
  cases task with
  | reload => exact hmoves _ hjob
  | install => trivial
  | grammar scope => exact hjob
  | tokenizer scope => exact hjob
  | openBuffer buffer => exact hjob

-- ============================================================== shared

/-- The grammar of a scope is known. -/
def Known (l : Loads Job) (scope : String) (g : Grammar) : Prop :=
  l.registry.get? scope = some g

/-- A fetch is for the scope. -/
def IsFor (l : Loads Job) (scope : String) (id : Nat) : Prop :=
  ∃ stage, l.progress? id = some (scope, stage)

variable {J : Job → Prop} {first l l' : Loads Job}
  {fin : List (Nat × Outcome)}

/-- Loads are shared, and the jobs that are over were answered what is in
the registry. -/
structure Shares (J : Job → Prop) (first l : Loads Job)
    (fin : List (Nat × Outcome)) : Prop where
  single : Single l
  addressed : Addressed (fun job : Job => job.task.scope?) l
  onward : Onward first l
  right : ∀ number outcome, (number, outcome) ∈ fin →
    Right J Known l number outcome

/-- What is right stays right as long as the registry grows. -/
theorem Right.grows {number : Nat} {outcome : Outcome}
    (h : Right J Known l number outcome)
    (hg : l.registry.Grows l'.registry) :
    Right J Known l' number outcome := by
  cases outcome with
  | grammar grammar =>
      cases grammar with
      | none => trivial
      | some g =>
          obtain ⟨scope, hjob, hknown⟩ := h
          exact ⟨scope, hjob, hg.grammars scope g hknown⟩
  | tokenizer tokenizer =>
      cases tokenizer with
      | none => trivial
      | some t =>
          obtain ⟨scope, hjob, hstored⟩ := h
          exact ⟨scope, hjob, hg.tokenizers scope t hstored⟩
  | opened c => trivial
  | reloaded => trivial
  | cancelled => trivial
  | failed fault => trivial

theorem Shares.step (h : Shares J first l fin)
    (hl : Single l' ∧ Onward l l')
    (ha : Addressed (fun job : Job => job.task.scope?) l') :
    Shares J first l' fin :=
  ⟨hl.1, ha, h.onward.trans hl.2, fun number outcome hmem =>
    (h.right number outcome hmem).grows hl.2.grows⟩

/-- Who goes on with a grammar goes on about its scope. -/
theorem Shares.resumed (h : Shares J first l fin) {job : Job}
    {scope : String} {g : Grammar}
    (ht : l.turn = some (.resumed job (some g), l'))
    (hscope : job.task.scope? = some scope) : Known l' scope g := by
  obtain ⟨hregistry, n, w, other, -, -, habout, hp⟩ :=
    h.addressed.resumed ht
  cases hscope.symm.trans habout
  show l'.registry.get? scope = some g
  rw [hregistry]
  exact h.single.done w.fetch scope g hp

theorem upheld_shares (moves : List Move) (first : Loads Job) :
    Upheld (Asks moves) (Shares (Asks moves) first) IsFor Known where
  installs _ _ _ _ _ := trivial
  journal l _ h := h.step
    (h.single.steady (fun _ => rfl) rfl rfl rfl rfl)
    (h.addressed.steady rfl rfl rfl rfl)
  ask _ _ scope h :=
    h.step (h.single.askGrammar scope) (h.addressed.askGrammar scope)
  known l _ scope g l' h hask := by
    have hasked := h.single.asked scope
    rw [hask] at hasked
    exact hasked.1 g rfl
  wait l _ scope id l' h hask := by
    have hasked := h.single.asked scope
    rw [hask] at hasked
    exact hasked.2 id rfl
  compile _ _ scope g h hg := h.step (h.single.finishTokenizer hg)
    (h.addressed.finishTokenizer scope (some g))
  join l _ scope id job h hid hscope _ := by
    obtain ⟨stage, hp⟩ := hid
    exact h.step
      (h.single.steady (Loads.progress?_join l id job) rfl rfl rfl rfl)
      (h.addressed.join hscope hp)
  start _ _ _ h _ := h.step
    (h.single.steady (fun _ => rfl) rfl rfl rfl rfl)
    (h.addressed.enqueue nofun nofun)
  cancel _ _ waiter h :=
    h.step (h.single.cancel waiter) (h.addressed.cancel waiter)
  comeBack _ _ id h :=
    h.step (h.single.comeBack id) (h.addressed.comeBack id)
  defer _ _ h := h.step
    (h.single.steady (fun _ => rfl) rfl rfl rfl rfl) h.addressed.defer
  -- no job asks for a reload
  reload _ _ _ _ hjob := hjob.elim
  mapLanguage l _ language scope h := h.step
    (h.single.mapLanguage language scope)
    (h.addressed.steady rfl rfl rfl rfl)
  turn _ _ _ _ h ht := h.step
    (h.single.turn h.addressed.forgets ht) (h.addressed.turn ht)
  -- who goes on was told the outcome of a fetch of its scope
  resumed _ _ _ _ _ _ h ht hscope := h.resumed ht hscope
  finish _ _ number outcome h hright := by
    refine { h with right := ?_ }
    intro number' outcome' hmem
    rcases List.mem_append.1 hmem with hmem | hmem
    · exact h.right number' outcome' hmem
    · cases List.mem_singleton.1 hmem
      exact hright
  asideG _ _ _ h := h
  asideW _ _ _ h := h

-- ============================================================== services

variable {s s' : Service}

theorem shares_afterAll {moves more : List Move} (hs : Kept (Asks moves)
      (Shares (Asks moves) first) s.loads s.finished)
    (hmoves : ∀ m ∈ moves, m.Spares) (hmore : more ⊆ moves) :
    Kept (Asks moves) (Shares (Asks moves) first)
      (afterAll more s).loads (afterAll more s).finished := by
  refine (upheld_shares moves first).afterAll ?_ ?_ ?_ hs
  · intro job hjob
    exact asks_of_start hmoves (hmore hjob)
  · intro g hg
    exact (hmoves _ (hmore hg)).elim
  · intro hforget
    exact (hmoves _ (hmore hforget)).elim

theorem finished_resume (s : Service) (number : Nat) (scope : String)
    (grammar : Option Grammar) :
    (s.resume ⟨number, .tokenizer scope⟩ grammar).finished
      = s.finished ++ [(number,
        .tokenizer (s.loads.finishTokenizer scope grammar).1)] :=
  rfl

/-- One who waited for a grammar is answered the outcome; one who waited
for a tokenizer is answered one if it can be built. -/
theorem Shares.answers (h : Shares J first s.loads fin) {job : Job}
    {grammar : Option Grammar} {l : Loads Job}
    (ht : s.loads.turn = some (.resumed job grammar, l)) :
    ∃ s₁, s.turn? = some s₁
      ∧ (∀ scope, job.task = .grammar scope →
        s₁.finished = s.finished ++ [(job.number, .grammar grammar)])
      ∧ ∀ scope, job.task = .tokenizer scope →
        ∃ t, s₁.finished = s.finished ++ [(job.number, .tokenizer t)]
          ∧ (t.isSome = true ↔ ∃ g lexer, grammar = some g
            ∧ Grammar.Lexer.build g s.registry.compiler = .ok lexer) := by
  have hturned := (h.single.turn h.addressed.forgets ht).1
  obtain ⟨number, task⟩ := job
  unfold turn?
  rw [ht]
  refine ⟨_, rfl, ?_, ?_⟩
  · rintro scope rfl
    rfl
  · rintro scope rfl
    refine ⟨_, finished_resume .., ?_⟩
    cases grammar with
    | none => exact ⟨nofun, nofun⟩
    | some g =>
        have hknown : l.registry.get? scope = some g := h.resumed ht rfl
        obtain ⟨hregistry, -⟩ := h.addressed.resumed ht
        have hnoted : Single { l with journal := [] } :=
          hturned.of_progress (fun _ => rfl) rfl rfl (fun _ => rfl)
            hturned.coherent
        refine (hnoted.isSome_finishTokenizer hknown).trans ?_
        show (∃ lexer, Grammar.Lexer.build g l.registry.compiler = .ok lexer)
          ↔ _
        rw [hregistry]
        refine ⟨?_, ?_⟩
        · rintro ⟨lexer, hbuild⟩
          exact ⟨g, lexer, rfl, hbuild⟩
        · rintro ⟨_, lexer, ⟨⟩, hbuild⟩
          exact ⟨lexer, hbuild⟩

/-- What jobs ask for is loaded once, and shared. -/
theorem loads_once {ws : Workspace} {registry : Registry}
    {loader : Option Loader} {config : Option Config}
    (hloader : ∀ load, loader = some load → Honest load)
    (hregistry : registry.Coherent) {moves more : List Move}
    (hmoves : ∀ m ∈ moves ++ more, m.Spares) {s s' : Service}
    (hs : s = afterAll moves (new ws registry loader config))
    (hs' : s' = afterAll more s) :
    (∀ id id' scope stage stage',
      s.loads.progress? id = some (scope, stage) →
      s.loads.progress? id' = some (scope, stage') →
      stage.isOver = false → stage'.isOver = false → id = id')
    ∧ (∀ id scope stage g, s.loads.progress? id = some (scope, stage) →
      stage = .returned (.grammar g) ∨ stage = .done (some g) →
      s'.loads.calls.count scope = s.loads.calls.count scope)
    ∧ (∀ scope id, s.loads.pending.get? scope = some id →
      (s.loads.askGrammar scope).2 = s.loads
        ∧ ((s.loads.askGrammar scope).1 = .wait id
          ∨ ∃ grammar, (s.loads.askGrammar scope).1 = .known grammar
            ∧ s'.loads.outcome? id = some grammar))
    ∧ (∀ job grammar l, s.loads.turn = some (.resumed job grammar, l) →
      (∃ n w, (n, w) ∈ s.loads.waiters ∧ w.goesOn = job
        ∧ s'.loads.outcome? w.fetch = some grammar)
      ∧ ∃ s₁, s.turn? = some s₁
        ∧ (∀ scope, job.task = .grammar scope →
          s₁.finished = s.finished ++ [(job.number, .grammar grammar)])
        ∧ ∀ scope, job.task = .tokenizer scope →
          ∃ t, s₁.finished = s.finished ++ [(job.number, .tokenizer t)]
            ∧ (t.isSome = true ↔ ∃ g lexer, grammar = some g
              ∧ Grammar.Lexer.build g registry.compiler = .ok lexer))
    ∧ (∀ n n' t t' scope,
      (∀ m other, m = n ∨ m = n' →
        .start ⟨m, .tokenizer other⟩ ∈ moves ++ more → other = scope) →
      (n, .tokenizer (some t)) ∈ s.finished →
      (n', .tokenizer (some t')) ∈ s'.finished → t = t') := by
  -- from the start, where nothing is under way, up to `s`
  have hnew : Kept (Asks (moves ++ more))
      (Shares (Asks (moves ++ more)) (.new registry loader))
      (.new registry loader) [] :=
    ⟨⟨Loads.single_new hloader hregistry,
      Loads.addressed_new registry loader, .refl _,
      fun _ _ hmem => absurd hmem List.not_mem_nil⟩,
      Loads.carries_new registry loader⟩
  have hfirst := shares_afterAll (s := new ws registry loader config) hnew
    hmoves (List.subset_append_left moves more)
  rw [← hs] at hfirst
  obtain ⟨⟨hsingle, haddressed, -, hright⟩, hjobs⟩ := hfirst
  -- and from `s` on
  have hlast : Kept (Asks (moves ++ more))
      (Shares (Asks (moves ++ more)) s.loads) s'.loads s'.finished := by
    subst hs'
    exact shares_afterAll ⟨⟨hsingle, haddressed, .refl _, hright⟩, hjobs⟩
      hmoves (List.subset_append_right ..)
  obtain ⟨⟨-, -, honward, hright'⟩, -⟩ := hlast
  refine ⟨?_, ?_, ?_, ?_, ?_⟩
  · -- two fetches of a scope that are not over are one
    intro id id' scope stage stage' hp hp' hopen hopen'
    exact hsingle.eq hp hopen hp' hopen'
  · -- once a grammar has come, its scope is settled, and nobody calls the
    -- loader for it again
    intro id scope stage g hp hcame
    refine (honward.settled scope ?_).2
    rcases hcame with rfl | rfl
    · exact .inr ⟨id, g, hp⟩
    · exact .inl ⟨g, hsingle.done id scope g hp⟩
  · -- who asks meanwhile waits for the pending fetch, or gets its outcome
    intro scope id hid
    obtain ⟨hsame, hwait | ⟨grammar, hknown, hout⟩⟩ := hsingle.shares hid
    · exact ⟨hsame, .inl hwait⟩
    · exact ⟨hsame, .inr ⟨grammar, hknown, honward.later.outcome? hout⟩⟩
  · -- who goes on was told the outcome of the fetch it waited for
    intro job grammar l ht
    have hcompiler : s.registry.compiler = registry.compiler := by
      rw [hs, compiler_afterAll]
      rfl
    rw [← hcompiler]
    refine ⟨?_, Shares.answers ⟨hsingle, haddressed, .refl _, hright⟩ ht⟩
    obtain ⟨-, n, w, scope, hw, hgoes, -, hp⟩ := haddressed.resumed ht
    exact ⟨n, w, hw, hgoes, honward.later.outcome?
      (Loads.outcome?_eq_some.2 ⟨scope, hp⟩)⟩
  · -- both tokenizers were stored for the scope, and what is stored stays
    intro n n' t t' scope honly ht ht'
    obtain ⟨other, hjob, hstored⟩ := hright n _ ht
    obtain ⟨other', hjob', hstored'⟩ := hright' n' _ ht'
    obtain rfl := honly n other (.inl rfl) hjob
    obtain rfl := honly n' other' (.inr rfl) hjob'
    have hlasting := honward.grows.tokenizers _ t hstored
    exact Option.some.inj (hlasting.symm.trans hstored')

-- ========================================================= an instance

/-- A loader that is waited for, and comes with an empty grammar for each
scope. -/
def forEach : Loader := fun scope _ => ⟨.grammar ⟨scope, [], [], ""⟩, true⟩

theorem honest_forEach : Honest forEach := by
  intro scope i g hg
  obtain rfl := Loaded.grammar.inj hg
  rfl

/-- Two jobs wait for the same load. -/
def bothWaiting : List Move :=
  [.start ⟨0, .tokenizer "s"⟩, .start ⟨1, .grammar "s"⟩, .turn, .turn,
    .turn]

/-- The loader comes back. A third job asks before the two are told. -/
def thirdAsks : List Move :=
  [.comeBack 0, .start ⟨2, .tokenizer "s"⟩, .turn, .turn, .turn, .turn,
    .turn, .turn, .turn]

/-- The tokenizer that is answered, by its number. -/
def serial? : Outcome → Option Nat
  | .tokenizer (some t) => some t.serial
  | _ => none

theorem exists_answered (number : Nat) (h : (number, some 0) ∈
      fin.map fun e => (e.1, serial? e.2)) :
    ∃ t, (number, .tokenizer (some t)) ∈ fin := by
  obtain ⟨⟨n, outcome⟩, hmem, heq⟩ := List.mem_map.1 h
  obtain ⟨rfl, hserial⟩ := Prod.mk.inj heq
  cases outcome with
  | tokenizer t =>
      cases t with
      | none => cases hserial
      | some t => exact ⟨t, hmem⟩
  | grammar g => cases hserial
  | opened c => cases hserial
  | reloaded => cases hserial
  | cancelled => cases hserial
  | failed fault => cases hserial

/-- The third job gets its tokenizer first. The one that waited is answered
the same, and the loader was called once. -/
theorem loads_once_for_three :
    ∃ s s' t, s = afterAll bothWaiting
        (new .empty .empty (some forEach) none)
      ∧ s' = afterAll thirdAsks s ∧ s.finished = []
      ∧ (2, .tokenizer (some t)) ∈ s'.finished
      ∧ (0, .tokenizer (some t)) ∈ s'.finished
      ∧ s'.loads.calls.count "s" = 1 := by
  obtain ⟨s, hs⟩ : ∃ s, s = afterAll bothWaiting
    (new .empty .empty (some forEach) none) := ⟨_, rfl⟩
  obtain ⟨s', hs'⟩ : ∃ s', s' = afterAll thirdAsks s := ⟨_, rfl⟩
  have hboth : s' = afterAll (bothWaiting ++ thirdAsks)
      (new .empty .empty (some forEach) none) := by
    rw [afterAll_append, ← hs, hs']
  have hempty : s.finished = [] := by
    rw [hs]
    cbv
  have hanswered : s'.finished.map (fun e => (e.1, serial? e.2))
      = [(2, some 0), (0, some 0), (1, none)] := by
    rw [hs', hs]
    cbv
  have hcalls : s'.loads.calls = ["s"] := by
    rw [hs', hs]
    cbv
  obtain ⟨t, ht⟩ : ∃ t, (2, .tokenizer (some t)) ∈ s'.finished :=
    exists_answered 2 (by rw [hanswered]; simp)
  obtain ⟨t', ht'⟩ : ∃ t', (0, .tokenizer (some t')) ∈ s'.finished :=
    exists_answered 0 (by rw [hanswered]; simp)
  have hloader : ∀ load, some forEach = some load → Honest load := by
    rintro _ ⟨⟩
    exact honest_forEach
  have hmoves : ∀ m ∈ (bothWaiting ++ thirdAsks) ++ [], m.Spares := by
    simp [bothWaiting, thirdAsks, Move.Spares]
  have honly : ∀ m other, m = 2 ∨ m = 0 → .start ⟨m, .tokenizer other⟩
      ∈ (bothWaiting ++ thirdAsks) ++ [] → other = "s" := by
    rintro m other - hstart
    have hjobs : m = 0 ∧ other = "s" ∨ m = 2 ∧ other = "s" := by
      simpa [bothWaiting, thirdAsks] using hstart
    exact hjobs.elim (·.2) (·.2)
  -- both answers are there at the end, so no moves follow
  have hend : s' = afterAll [] s' := rfl
  obtain ⟨-, -, -, -, hsame⟩ :=
    loads_once hloader (Registry.coherent_empty _) hmoves hboth hend
  obtain rfl := hsame 2 0 t t' "s" honly ht ht'
  exact ⟨s, s', t, hs, hs', hempty, ht, ht', by rw [hcalls]; rfl⟩

end Relex.Service
