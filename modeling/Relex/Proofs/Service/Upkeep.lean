/-
What every run of moves keeps.

A job asks for a grammar or a tokenizer, waits for a fetch if it has to,
gets a tokenizer built from what it is told, and is answered. These are
all the dealings that jobs have with the loads and with the outcomes, so
what they keep (`Upheld`) is kept by a turn, by every move, and by every
run of moves (`Upheld.afterAll`).

What jobs may do depends on which jobs there are. `J` says which may be
started, and no others are ever ready or waiting (`Loads.Carries`): in a
run in which no reload is started, what was loaded is forgotten by the
host's order only. Between two operations `W` and `G` hold what the first
found out for the second: that a fetch is for a scope, that a grammar is
known to be a scope's.
-/
import Relex.Proofs.Loads

namespace Relex

/-- The scope of the grammar or the tokenizer that a task is about. -/
def Task.scope? : Task → Option String
  | .grammar scope => some scope
  | .tokenizer scope => some scope
  | .openBuffer _ => none
  | .reload => none
  | .install scope _ _ _ => some scope

-- =============================================================== carried

namespace Loads

variable {κ : Type} {J : κ → Prop} {l l' : Loads κ}

/-- All those that are ready to begin, or wait, are of a kind. -/
structure Carries (J : κ → Prop) (l : Loads κ) : Prop where
  ready : ∀ k, .start k ∈ l.ready → J k
  waiting : ∀ n w, (n, w) ∈ l.waiters → J w.goesOn

theorem carries_new (registry : Registry) (loader : Option Loader) :
    (new registry loader : Loads κ).Carries J :=
  ⟨nofun, nofun⟩

/-- Nobody new is left to begin or to wait. -/
theorem Carries.of_ready (h : l.Carries J) {turns : List (Turn κ)}
    (hready : l'.ready = l.ready ++ turns)
    (hturns : ∀ k, .start k ∈ turns → J k)
    (hwaiters : l'.waiters = l.waiters) : l'.Carries J := by
  refine ⟨?_, ?_⟩
  · intro k hk
    rw [hready] at hk
    rcases List.mem_append.1 hk with hk | hk
    · exact h.ready k hk
    · exact hturns k hk
  · rw [hwaiters]
    exact h.waiting

/-- Who starts has to be of the kind. -/
theorem Carries.start (h : l.Carries J) {k : κ} (hk : J k) :
    (l.enqueue (.start k)).Carries J := by
  refine h.of_ready rfl ?_ rfl
  intro k' hk'
  cases List.mem_singleton.1 hk'
  exact hk

theorem Carries.tell (h : l.Carries J) (waiter : Nat) (signal : Signal) :
    (l.tell waiter signal).Carries J := by
  refine ⟨h.ready, ?_⟩
  intro n w hw
  obtain ⟨⟨n', w'⟩, hw', heq⟩ := List.mem_map.1 hw
  dsimp only at heq
  have hjob := h.waiting n' w' hw'
  split at heq
  · cases heq
    exact hjob
  · cases heq
    exact hjob

/-- Asking may bring up the turn of a fetch, in which nobody begins. -/
theorem Carries.askGrammar (h : l.Carries J) (scope : String) :
    (l.askGrammar scope).2.Carries J := by
  unfold Loads.askGrammar
  split
  · exact h
  · split
    · exact h
    · split
      · split
        · exact h
        · exact h
      · exact h.of_ready rfl (by simp) rfl

theorem Carries.finishTokenizer (h : l.Carries J) (scope : String)
    (grammar : Option Grammar) :
    (l.finishTokenizer scope grammar).2.Carries J := by
  unfold Loads.finishTokenizer
  cases grammar with
  | none => exact h
  | some g =>
      dsimp only
      split
      · exact ⟨h.ready, h.waiting⟩
      · exact ⟨h.ready, h.waiting⟩

theorem Carries.askTokenizer (h : l.Carries J) (scope : String) :
    (l.askTokenizer scope).2.Carries J := by
  unfold Loads.askTokenizer
  have hasked := h.askGrammar scope
  cases l.registry.tokenizers.get? scope with
  | some t => exact h
  | none =>
      dsimp only
      rcases hask : l.askGrammar scope with ⟨grammar | id, l'⟩
      · rw [hask] at hasked
        exact hasked.finishTokenizer scope grammar
      · rw [hask] at hasked
        exact hasked

/-- Who begins to wait has to be of the kind. -/
theorem Carries.join (h : l.Carries J) (fetch : Nat) {k : κ} (hk : J k) :
    (l.join fetch k).Carries J := by
  refine ⟨h.ready, ?_⟩
  intro n w hw
  rcases List.mem_append.1 hw with hw | hw
  · exact h.waiting n w hw
  · cases List.mem_singleton.1 hw
    exact hk

theorem Carries.cancel (h : l.Carries J) (waiter : Nat) :
    (l.cancel waiter).Carries J := by
  have htold := h.tell waiter .cancelled
  unfold Loads.cancel
  split
  · exact h
  · dsimp only
    split
    · exact htold
    · exact htold.of_ready rfl (by simp) rfl

theorem Carries.comeBack (h : l.Carries J) (id : Nat) :
    (l.comeBack id).Carries J := by
  unfold Loads.comeBack
  split
  · exact h.of_ready rfl (by simp) rfl
  · exact h

theorem Carries.defer (h : l.Carries J) : l.defer.Carries J := by
  refine ⟨?_, h.waiting⟩
  intro k hk
  apply h.ready k
  unfold Loads.defer at hk
  cases hl : l.ready with
  | nil =>
      rw [hl] at hk
      cases hk
  | cons t rest =>
      rw [hl] at hk
      rcases List.mem_append.1 hk with hk | hk
      · exact List.mem_cons_of_mem _ hk
      · rw [← List.mem_singleton.1 hk]
        exact List.mem_cons_self ..

/-- A fetch that is over brings up turns that tell of it. -/
theorem Carries.complete (h : l.Carries J) (id : Nat) (f : Fetch)
    (loaded : Loaded) : (l.complete id f loaded).Carries J := by
  cases loaded with
  | grammar g => exact h.of_ready rfl (by simp) rfl
  | nothing => exact h.of_ready rfl (by simp) rfl
  | failed => exact h.of_ready rfl (by simp) rfl

/-- In the turn of a fetch nobody begins or begins to wait. -/
theorem Carries.runFetch (h : l.Carries J) (id : Nat) :
    (l.runFetch id).Carries J := by
  unfold Loads.runFetch
  split
  · next f load hf hload =>
    split
    · have hcalled : Carries J { l with calls := l.calls ++ [f.scope] } :=
        ⟨h.ready, h.waiting⟩
      dsimp only
      split
      · exact ⟨h.ready, h.waiting⟩
      · exact hcalled.complete ..
    · exact h.complete ..
    · exact h
  · exact h

theorem Carries.forget (h : l.Carries J) (id : Nat) :
    (l.forget id).Carries J := by
  unfold Loads.forget
  split
  · exact h
  · split
    · exact ⟨h.ready, h.waiting⟩
    · exact h

theorem Carries.relay (h : l.Carries J) (id waiter : Nat) :
    (l.relay id waiter).Carries J := by
  unfold Loads.relay
  split
  · exact (h.tell ..).of_ready rfl (by simp) rfl
  · exact h

theorem Carries.rest (h : l.Carries J) {t : Turn κ} {rest : List (Turn κ)}
    (hready : l.ready = t :: rest) : Carries J { l with ready := rest } := by
  refine ⟨?_, h.waiting⟩
  intro k hk
  apply h.ready k
  rw [hready]
  exact List.mem_cons_of_mem _ hk

theorem Carries.leave (h : l.Carries J) (waiter : Nat) :
    Carries J { l with waiters := l.waiters.filter (·.1 ≠ waiter) } :=
  ⟨h.ready, fun n w hw => h.waiting n w (List.mem_filter.1 hw).1⟩

/-- Those that begin or go on are of the kind, too. -/
theorem Carries.turn (h : l.Carries J) {event : Event κ}
    (ht : l.turn = some (event, l')) :
    l'.Carries J ∧ (∀ k, event = .started k → J k)
      ∧ ∀ k grammar, event = .resumed k grammar → J k := by
  cases taken ht with
  | start hready =>
      refine ⟨h.rest hready, ?_, nofun⟩
      rintro _ ⟨⟩
      apply h.ready
      rw [hready]
      exact List.mem_cons_self ..
  | fetch hready => exact ⟨(h.rest hready).runFetch _, nofun, nofun⟩
  | forget hready => exact ⟨(h.rest hready).forget _, nofun, nofun⟩
  | relay hready => exact ⟨(h.rest hready).relay .., nofun, nofun⟩
  | idle hready => exact ⟨h.rest hready, nofun, nofun⟩
  | resume hready hw =>
      refine ⟨(h.rest hready).leave _, nofun, ?_⟩
      rintro _ _ ⟨⟩
      exact h.waiting _ _ hw
  | cancelled hready => exact ⟨(h.rest hready).leave _, nofun, nofun⟩

end Loads

-- =============================================== in the workspace only

namespace Service

/-- Ending an opening concerns the workspace only. -/
theorem install_frame (s : Service) (scope uri : String) (c : Nat)
    (t : Option GrammarTokenizer) :
    (s.install scope uri c t).2.loads = s.loads
      ∧ (s.install scope uri c t).2.finished = s.finished
      ∧ (s.install scope uri c t).2.controllers = s.controllers := by
  unfold install
  cases t with
  | none => exact ⟨rfl, rfl, rfl⟩
  | some t =>
      dsimp only
      split
      · unfold act
        dsimp only
        rcases (Workspace.underConfig? s.config
          (Workspace.equip c (some t.toTokenizer))).on s.ws
          with ⟨_ | _, _⟩ <;> exact ⟨rfl, rfl, rfl⟩
      · exact ⟨rfl, rfl, rfl⟩

/-- So does a query. -/
theorem lookup_frame (s : Service) (buffer : Nat) (p : Position) :
    (s.lookup buffer p).2.loads = s.loads
      ∧ (s.lookup buffer p).2.finished = s.finished
      ∧ (s.lookup buffer p).2.controllers = s.controllers := by
  unfold lookup
  split
  · exact ⟨rfl, rfl, rfl⟩
  · next c hc =>
    unfold act
    dsimp only
    rcases (Workspace.underConfig? s.config
      (Workspace.lookup c p)).on s.ws with ⟨_ | _, _⟩ <;>
      exact ⟨rfl, rfl, rfl⟩

-- ================================================================ upheld

variable {J : Job → Prop} {P : Loads Job → List (Nat × Outcome) → Prop}
  {W : Loads Job → String → Nat → Prop}
  {G : Loads Job → String → Grammar → Prop}

/-- What is answered to a job: a grammar is known to be that of the scope
it asked for, a tokenizer is in the registry for it. -/
def Right (J : Job → Prop) (G : Loads Job → String → Grammar → Prop)
    (l : Loads Job) (number : Nat) : Outcome → Prop
  | .grammar (some g) =>
    ∃ scope, J ⟨number, .grammar scope⟩ ∧ G l scope g
  | .tokenizer (some t) =>
    ∃ scope, J ⟨number, .tokenizer scope⟩
      ∧ l.registry.tokenizers.get? scope = some t
  | _ => True

/-- A property of the loads and of what came of jobs, which all that jobs
do keeps: jobs of a kind, among which are all that wait for the tokenizer
of a document. -/
structure Upheld (J : Job → Prop)
    (P : Loads Job → List (Nat × Outcome) → Prop)
    (W : Loads Job → String → Nat → Prop)
    (G : Loads Job → String → Grammar → Prop) : Prop where
  installs : ∀ number scope uri c after,
    J ⟨number, .install scope uri c after⟩
  journal : ∀ l fin, P l fin → P { l with journal := [] } fin
  ask : ∀ l fin scope, P l fin → P (l.askGrammar scope).2 fin
  known : ∀ l fin scope g l', P l fin →
    l.askGrammar scope = (.known (some g), l') → G l' scope g
  wait : ∀ l fin scope id l', P l fin →
    l.askGrammar scope = (.wait id, l') → W l' scope id
  compile : ∀ l fin scope g, P l fin → G l scope g →
    P (l.finishTokenizer scope (some g)).2 fin
  join : ∀ l fin scope id job, P l fin → W l scope id →
    job.task.scope? = some scope → J job → P (l.join id job) fin
  start : ∀ l fin job, P l fin → J job →
    P (l.enqueue (.start job)) fin
  cancel : ∀ l fin waiter, P l fin → P (l.cancel waiter) fin
  comeBack : ∀ l fin id, P l fin → P (l.comeBack id) fin
  defer : ∀ l fin, P l fin → P l.defer fin
  reload : ∀ l fin number, P l fin → J ⟨number, .reload⟩ →
    P l.forgetLoaded fin
  mapLanguage : ∀ l fin language scope, P l fin →
    P { l with registry := l.registry.mapLanguage language scope } fin
  turn : ∀ l fin event l', P l fin → l.turn = some (event, l') → P l' fin
  resumed : ∀ l fin job scope g l', P l fin →
    l.turn = some (.resumed job (some g), l') →
    job.task.scope? = some scope → G l' scope g
  finish : ∀ l fin number outcome, P l fin → Right J G l number outcome →
    P l (fin ++ [(number, outcome)])
  asideG : ∀ l scope g, G l scope g → G { l with journal := [] } scope g
  asideW : ∀ l scope id, W l scope id → W { l with journal := [] } scope id

/-- The property holds, and the jobs that are left are of the kind. -/
structure Kept (J : Job → Prop)
    (P : Loads Job → List (Nat × Outcome) → Prop) (l : Loads Job)
    (fin : List (Nat × Outcome)) : Prop where
  upheld : P l fin
  jobs : l.Carries J

namespace Upheld

variable {s : Service} (h : Upheld J P W G)

include h

-- ============================================================== at once

theorem withLoads {α : Type} {f : Loads Job → α × Loads Job}
    (hf : Kept J P (f s.loads).2 s.finished) :
    Kept J P (s.withLoads f).2.loads (s.withLoads f).2.finished :=
  ⟨h.journal _ _ hf.upheld, hf.jobs.ready, hf.jobs.waiting⟩

/-- A job may end with what is right. -/
theorem finishes (hs : Kept J P s.loads s.finished) {number : Nat}
    {outcome : Outcome} (hright : Right J G s.loads number outcome) :
    Kept J P (s.finish number outcome).loads
      (s.finish number outcome).finished :=
  ⟨h.finish _ _ _ _ hs.upheld hright, hs.jobs⟩

/-- A job of the kind may wait for a fetch of its scope. -/
theorem suspends (hs : Kept J P s.loads s.finished) {scope : String}
    {id : Nat} {job : Job} (hid : W s.loads scope id)
    (hscope : job.task.scope? = some scope) (hjob : J job) :
    Kept J P (s.suspend id job).loads (s.suspend id job).finished :=
  ⟨h.join _ _ _ _ _ hs.upheld hid hscope hjob, hs.jobs.join id hjob⟩

theorem asks {l : Loads Job} {fin : List (Nat × Outcome)}
    (hl : Kept J P l fin) (scope : String) :
    Kept J P (l.askGrammar scope).2 fin :=
  ⟨h.ask _ _ _ hl.upheld, hl.jobs.askGrammar scope⟩

/-- A tokenizer may be built from a grammar that is known to be its
scope's. -/
theorem compiles {l : Loads Job} {fin : List (Nat × Outcome)}
    (hl : Kept J P l fin) (scope : String) {grammar : Option Grammar}
    (hg : ∀ g, grammar = some g → G l scope g) :
    Kept J P (l.finishTokenizer scope grammar).2 fin := by
  refine ⟨?_, hl.jobs.finishTokenizer scope grammar⟩
  cases grammar with
  | none => exact hl.upheld
  | some g => exact h.compile _ _ _ _ hl.upheld (hg g rfl)

/-- To ask for a tokenizer is to ask for a grammar and compile it. -/
theorem asksTokenizer {l : Loads Job} {fin : List (Nat × Outcome)}
    (hl : Kept J P l fin) (scope : String) :
    Kept J P (l.askTokenizer scope).2 fin := by
  have hasked := h.asks hl scope
  unfold Loads.askTokenizer
  cases l.registry.tokenizers.get? scope with
  | some t => exact hl
  | none =>
      dsimp only
      rcases hask : l.askGrammar scope with ⟨grammar | id, l'⟩
      · rw [hask] at hasked
        refine h.compiles hasked scope fun g hg => ?_
        subst hg
        exact h.known _ _ _ _ _ hl.upheld hask
      · rw [hask] at hasked
        exact hasked

/-- Who has to wait for a tokenizer waits for the grammar of its scope. -/
theorem waits {l l' : Loads Job} {fin : List (Nat × Outcome)}
    (hl : Kept J P l fin) {scope : String} {id : Nat}
    (hask : l.askTokenizer scope = (.wait id, l')) : W l' scope id := by
  unfold Loads.askTokenizer at hask
  split at hask
  · cases hask
  · split at hask
    · cases hask
    · next id' l₁ hgrammar =>
      cases hask
      exact h.wait _ _ _ _ _ hl.upheld hgrammar

-- ================================================================= jobs

theorem getGrammar (hs : Kept J P s.loads s.finished) {number : Nat}
    {scope : String} (hjob : J ⟨number, .grammar scope⟩) :
    Kept J P (s.getGrammar number scope).loads
      (s.getGrammar number scope).finished := by
  have hasked := h.withLoads (s := s) (f := (·.askGrammar scope))
    (h.asks hs scope)
  unfold Service.getGrammar
  rcases hask : s.loads.askGrammar scope with ⟨grammar | id, l⟩
  · rw [withLoads_eq (f := (·.askGrammar scope)) hask] at hasked ⊢
    refine h.finishes hasked ?_
    cases grammar with
    | none => trivial
    | some g =>
        exact ⟨scope, hjob,
          h.asideG _ _ _ (h.known _ _ _ _ _ hs.upheld hask)⟩
  · rw [withLoads_eq (f := (·.askGrammar scope)) hask] at hasked ⊢
    exact h.suspends hasked
      (h.asideW _ _ _ (h.wait _ _ _ _ _ hs.upheld hask)) rfl hjob

theorem getTokenizer (hs : Kept J P s.loads s.finished) {number : Nat}
    {scope : String} (hjob : J ⟨number, .tokenizer scope⟩) :
    Kept J P (s.getTokenizer number scope).loads
      (s.getTokenizer number scope).finished := by
  have hasked := h.withLoads (s := s) (f := (·.askTokenizer scope))
    (h.asksTokenizer hs scope)
  unfold Service.getTokenizer
  rcases hask : s.loads.askTokenizer scope with ⟨t | id, l⟩
  · rw [withLoads_eq (f := (·.askTokenizer scope)) hask] at hasked ⊢
    refine h.finishes hasked ?_
    cases t with
    | none => trivial
    | some t =>
        have hstored := Loads.get?_of_askTokenizer hask
        exact ⟨scope, hjob, hstored⟩
  · rw [withLoads_eq (f := (·.askTokenizer scope)) hask] at hasked ⊢
    exact h.suspends hasked (h.asideW _ _ _ (h.waits hs hask)) rfl hjob

/-- To begin to open a document keeps what is upheld, and if it has to
wait, it is for the grammar of the document's scope. -/
theorem beginOpening (hs : Kept J P s.loads s.finished) (buffer : Nat) :
    Kept J P (s.beginOpening buffer).2.loads
        (s.beginOpening buffer).2.finished
      ∧ ∀ fetch scope uri c,
        (s.beginOpening buffer).1 = .waits fetch scope uri c →
        W (s.beginOpening buffer).2.loads scope fetch := by
  unfold Service.beginOpening
  split
  · exact ⟨hs, nofun⟩
  · next d hd =>
    split
    · exact ⟨hs, nofun⟩
    · split
      · next c hc =>
        unfold act
        dsimp only
        rcases (Workspace.underConfig? s.config
          (Workspace.rebuild c)).on s.ws with ⟨_ | _, _⟩
        · exact ⟨hs, nofun⟩
        · exact ⟨hs, nofun⟩
      · split
        · exact ⟨hs, nofun⟩
        · next scope hscope =>
          unfold act
          dsimp only
          rcases (Workspace.attach buffer none true).on s.ws
            with ⟨_ | c, ws⟩
          · exact ⟨hs, nofun⟩
          · dsimp only
            -- only from here on the loads are concerned
            have hasked := h.withLoads (s := { s with
                ws, controllers := s.controllers.insert d.uri c })
              (f := (·.askTokenizer scope)) (h.asksTokenizer hs scope)
            rcases hask : s.loads.askTokenizer scope with ⟨t | id, l⟩
            · unfold Service.withLoads at hasked ⊢
              dsimp only at hasked ⊢
              rw [hask] at hasked ⊢
              dsimp only
              refine ⟨?_, nofun⟩
              rw [(install_frame ..).1, (install_frame ..).2.1]
              exact hasked
            · unfold Service.withLoads at hasked ⊢
              dsimp only at hasked ⊢
              rw [hask] at hasked ⊢
              refine ⟨hasked, ?_⟩
              rintro _ _ _ _ ⟨⟩
              exact h.asideW _ _ _ (h.waits hs hask)

theorem openBuffer (hs : Kept J P s.loads s.finished)
    (number buffer : Nat) :
    Kept J P (s.openBuffer number buffer).loads
      (s.openBuffer number buffer).finished := by
  obtain ⟨hbegun, hwaits⟩ := h.beginOpening hs buffer
  unfold Service.openBuffer
  split
  · next hopen =>
    rw [hopen] at hbegun
    exact h.finishes hbegun trivial
  · next hopen =>
    rw [hopen] at hbegun
    exact h.finishes hbegun trivial
  · next hopen =>
    rw [hopen] at hbegun hwaits
    exact h.suspends hbegun (hwaits _ _ _ _ rfl) rfl (h.installs ..)

/-- So does opening one document after the other. -/
theorem reopen (number total : Nat) {buffers : List Nat}
    (hs : Kept J P s.loads s.finished) :
    Kept J P (Service.reopen number total buffers s).loads
      (Service.reopen number total buffers s).finished := by
  induction buffers generalizing s with
  | nil =>
      exact h.finishes (s := s.noted (.ofService .info
        ("Reloaded " ++ toString total ++ " document(s)"))) hs trivial
  | cons buffer left ih =>
      obtain ⟨hbegun, hwaits⟩ := h.beginOpening hs buffer
      unfold Service.reopen
      split
      · next hopen =>
        rw [hopen] at hbegun
        exact ih hbegun
      · next hopen =>
        rw [hopen] at hbegun
        exact h.finishes hbegun trivial
      · next hopen =>
        rw [hopen] at hbegun hwaits
        exact h.suspends hbegun (hwaits _ _ _ _ rfl) rfl (h.installs ..)

/-- Whatever its task, a job that begins keeps what is upheld. -/
theorem begin (hs : Kept J P s.loads s.finished) {job : Job}
    (hjob : J job) :
    Kept J P (s.begin job).loads (s.begin job).finished := by
  obtain ⟨number, task⟩ := job
  unfold Service.begin
  cases task with
  | grammar scope => exact h.getGrammar hs hjob
  | tokenizer scope => exact h.getTokenizer hs hjob
  | openBuffer buffer => exact h.openBuffer hs ..
  | reload =>
      have hforgot : Kept J P s.loads.forgetLoaded s.finished :=
        ⟨h.reload _ _ _ hs.upheld hjob, hs.jobs.ready, hs.jobs.waiting⟩
      exact h.reopen _ _ hforgot
  | install => exact hs

/-- So does one that goes on, if what it was told is right for it. -/
theorem resume (hs : Kept J P s.loads s.finished) {job : Job}
    (hjob : J job) {grammar : Option Grammar}
    (hg : ∀ scope g, grammar = some g → job.task.scope? = some scope →
      G s.loads scope g) :
    Kept J P (s.resume job grammar).loads
      (s.resume job grammar).finished := by
  obtain ⟨number, task⟩ := job
  unfold Service.resume
  cases task with
  | grammar scope =>
      refine h.finishes hs ?_
      cases grammar with
      | none => trivial
      | some g => exact ⟨scope, hjob, hg scope g rfl rfl⟩
  | tokenizer scope =>
      have hdone := h.withLoads (s := s)
        (f := (·.finishTokenizer scope grammar))
        (h.compiles hs scope fun g he => hg scope g he rfl)
      rcases hfinish : s.loads.finishTokenizer scope grammar with ⟨t, l⟩
      dsimp only
      rw [withLoads_eq (f := (·.finishTokenizer scope grammar)) hfinish]
        at hdone ⊢
      refine h.finishes hdone ?_
      cases t with
      | none => trivial
      | some t =>
          have hstored := Loads.get?_of_finishTokenizer hfinish
          exact ⟨scope, hjob, hstored⟩
  | install scope uri c after =>
      have hdone := h.withLoads (s := s)
        (f := (·.finishTokenizer scope grammar))
        (h.compiles hs scope fun g he => hg scope g he rfl)
      dsimp only
      rcases hw : s.withLoads (·.finishTokenizer scope grammar)
        with ⟨t, s'⟩
      rw [hw] at hdone
      dsimp only at hdone ⊢
      -- installing concerns the workspace, and no loads
      rw [← (install_frame s' scope uri c t).1,
        ← (install_frame s' scope uri c t).2.1] at hdone
      rcases hi : s'.install scope uri c t with ⟨fault | answer, s''⟩
      · rw [hi] at hdone
        exact h.finishes hdone trivial
      · rw [hi] at hdone
        cases after with
        | none => exact h.finishes hdone trivial
        | some reload => exact h.reopen _ _ hdone
  | openBuffer buffer => exact hs
  | reload => exact hs

/-- A turn hands on what is right: who goes on was told the outcome of the
fetch that it waited for. -/
theorem turn? (hs : Kept J P s.loads s.finished) {s' : Service}
    (hturn : s.turn? = some s') : Kept J P s'.loads s'.finished := by
  unfold Service.turn? at hturn
  cases ht : s.loads.turn with
  | none =>
      rw [ht] at hturn
      cases hturn
  | some result =>
      obtain ⟨event, l⟩ := result
      rw [ht] at hturn
      obtain rfl := Option.some.inj hturn
      obtain ⟨hjobs, hstarted, hresumed⟩ := hs.jobs.turn ht
      have hl : Kept J P { l with journal := [] } s.finished :=
        ⟨h.journal _ _ (h.turn _ _ _ _ hs.upheld ht), hjobs.ready,
          hjobs.waiting⟩
      cases event with
      | quiet => exact hl
      | started job => exact h.begin hl (hstarted job rfl)
      | cancelled job => exact h.finishes hl trivial
      | resumed job grammar =>
          refine h.resume hl (hresumed job grammar rfl) ?_
          rintro scope g rfl hscope
          exact h.asideG _ _ _
            (h.resumed _ _ _ _ _ _ hs.upheld ht hscope)

-- ================================================================ moves

/-- What is upheld is kept by every move, if that starts no job of
another kind, and registers or forgets nothing that is not to be. -/
theorem after (hs : Kept J P s.loads s.finished) (m : Move)
    (hstart : ∀ job, m = .start job → J job)
    (hregister : ∀ g, m = .register g →
      P { s.loads with registry := s.loads.registry.register g }
        s.finished)
    (hforget : m = .forgetLoaded → P s.loads.forgetLoaded s.finished) :
    Kept J P (m.after s).loads (m.after s).finished := by
  cases m with
  | start job =>
      exact ⟨h.start _ _ _ hs.upheld (hstart job rfl),
        hs.jobs.start (hstart job rfl)⟩
  | turn =>
      unfold Move.after
      cases hturn : s.turn? with
      | none => exact hs
      | some s' => exact h.turn? hs hturn
  | defer => exact ⟨h.defer _ _ hs.upheld, hs.jobs.defer⟩
  | comeBack fetch =>
      exact ⟨h.comeBack _ _ _ hs.upheld, hs.jobs.comeBack fetch⟩
  | cancel number =>
      unfold Move.after Service.cancel
      dsimp only
      split
      · exact hs
      · exact ⟨h.cancel _ _ _ hs.upheld, hs.jobs.cancel _⟩
  | edit buffer changes => exact hs
  | close buffer =>
      unfold Move.after Service.close
      dsimp only
      split
      · exact hs
      · exact hs
  | lookup buffer p =>
      obtain ⟨hloads, hfinished, -⟩ := lookup_frame s buffer p
      unfold Move.after
      rw [hloads, hfinished]
      exact hs
  | refresh => exact hs
  | dispose => exact hs
  | configure config => exact hs
  | register g =>
      exact ⟨hregister g rfl, hs.jobs.ready, hs.jobs.waiting⟩
  | mapLanguage language scope =>
      exact ⟨h.mapLanguage _ _ _ _ hs.upheld, hs.jobs.ready,
        hs.jobs.waiting⟩
  | forgetLoaded =>
      exact ⟨hforget rfl, hs.jobs.ready, hs.jobs.waiting⟩

/-- And so it is after any moves. -/
theorem afterAll {moves : List Move}
    (hstart : ∀ job, .start job ∈ moves → J job)
    (hregister : ∀ g, .register g ∈ moves → ∀ l fin, P l fin →
      P { l with registry := l.registry.register g } fin)
    (hforget : .forgetLoaded ∈ moves → ∀ l fin, P l fin →
      P l.forgetLoaded fin)
    (hs : Kept J P s.loads s.finished) :
    Kept J P (Service.afterAll moves s).loads
      (Service.afterAll moves s).finished := by
  induction moves generalizing s with
  | nil => exact hs
  | cons m moves ih =>
      refine ih (fun job hj => hstart job (List.mem_cons_of_mem _ hj))
        (fun g hg => hregister g (List.mem_cons_of_mem _ hg))
        (fun hf => hforget (List.mem_cons_of_mem _ hf))
        (h.after hs m ?_ ?_ ?_)
      · rintro job rfl
        exact hstart job (List.mem_cons_self ..)
      · rintro g rfl
        exact hregister g (List.mem_cons_self ..) _ _ hs.upheld
      · rintro rfl
        exact hforget (List.mem_cons_self ..) _ _ hs.upheld

end Upheld

-- ================================================================ stable

/-- What all operations on loads keep is upheld whichever jobs there
are. -/
theorem upheld_of_stable {Q : Loads Job → Prop}
    {R : Loads Job → Grammar → Prop} (h : Loads.Stable Q R) :
    Upheld (fun _ => True) (fun l _ => Q l) (fun _ _ _ => True)
      (fun l _ g => R l g) where
  installs _ _ _ _ _ := trivial
  journal l _ hl := h.journal l hl
  ask l _ scope hl := h.ask l scope hl
  known l _ scope g l' hl hask := h.known l scope g l' hl hask
  wait _ _ _ _ _ _ _ := trivial
  compile l _ scope g hl hg := h.compile l scope g hl hg
  join l _ _ id job hl _ _ _ := h.join l id job hl
  start l _ job hl _ := h.start l job hl
  cancel l _ waiter hl := h.cancel l waiter hl
  comeBack l _ id hl := h.comeBack l id hl
  defer l _ hl := h.defer l hl
  reload l _ _ hl _ := h.forgetLoaded l hl
  mapLanguage l _ language scope hl := h.mapLanguage l language scope hl
  turn l _ event l' hl ht := h.turn l event l' hl ht
  resumed l _ job _ g l' hl ht _ := h.resumed l job g l' hl ht
  finish _ _ _ _ hl _ := hl
  asideG l _ g hg := h.aside l g hg
  asideW _ _ _ _ := trivial

/-- What all operations on loads keep, all moves keep. -/
theorem loads_afterAll {Q : Loads Job → Prop}
    {R : Loads Job → Grammar → Prop} (h : Loads.Stable Q R) {s : Service}
    {moves : List Move}
    (hm : ∀ g, .register g ∈ moves → ∀ l, Q l →
      Q { l with registry := l.registry.register g })
    (hs : Q s.loads) : Q (afterAll moves s).loads :=
  ((upheld_of_stable h).afterAll (fun _ _ => trivial)
    (fun g hg l _ hl => hm g hg l hl)
    (fun _ l _ hl => h.forgetLoaded l hl)
    ⟨hs, fun _ _ => trivial, fun _ _ _ => trivial⟩).upheld

/-- The compiler of patterns is the same for good. -/
theorem compiler_afterAll (moves : List Move) (s : Service) :
    (afterAll moves s).registry.compiler = s.registry.compiler :=
  loads_afterAll (Loads.stable_compiler _) (fun _ _ _ h => h) rfl

end Service

end Relex
