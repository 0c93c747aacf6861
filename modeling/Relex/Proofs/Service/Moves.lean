/-
What can happen to a service, in any order.

The moves of a service are what its host, its documents, its loader and
its own jobs do: a job is started or cancelled, the next turn is taken or
put off, the loader comes back for a call, a document is edited, closed or
queried, caches are built anew, the service is disposed of, the registry
is changed. Opening a document or reloading is a job, which may take many
turns; in between any moves may be made. `afterAll` is the service after a
run of moves.

Whatever a move does to the loads, it does with the few operations the
loads have. A property of the loads that these keep is called
`Loads.Stable`; that every run of moves keeps it too is shown in
`Proofs.Service.Upkeep`.
-/
import Relex.Proofs.Table
import Relex.Service.Jobs

namespace Relex

-- =============================================================== loads

namespace Loads

variable {κ : Type}

/-- The loader comes back for a call it was waited for. -/
def comeBack (l : Loads κ) (id : Nat) : Loads κ :=
  match l.fetches[id]? with
  | some ⟨scope, .waiting loaded, waiters⟩ =>
    { l with fetches := l.fetches.set id ⟨scope, .returned loaded, waiters⟩
      }.enqueue (.fetch id)
  | _ => l

/-- The loader is let come back for the oldest call for a scope that it is
waited for. -/
theorem release_eq (l : Loads κ) (scope : String) :
    (l.release scope).2 = match l.waitingFetch? scope with
      | none => l
      | some id => l.comeBack id := by
  unfold release
  cases hfind : l.waitingFetch? scope with
  | none => rfl
  | some id =>
      obtain ⟨hlt, hp, -⟩ := List.findIdx?_eq_some_iff_getElem.1 hfind
      obtain ⟨-, hwaits⟩ := of_decide_eq_true hp
      have hget := List.getElem?_eq_getElem hlt
      rcases hf : l.fetches[id] with ⟨scope', stage, waiters⟩
      rw [hf] at hget hwaits
      cases stage with
      | waiting loaded =>
          unfold comeBack
          dsimp only
          have : Inhabited Fetch := ⟨⟨scope', .waiting loaded, waiters⟩⟩
          rw [List.modify_eq_set, hget]
          rfl
      | created => cases hwaits
      | returned loaded => cases hwaits
      | done grammar => cases hwaits

/-- The next turn is put off, behind all others. -/
def defer (l : Loads κ) : Loads κ :=
  { l with ready := l.ready.tail ++ l.ready.head?.toList }

/-- A turn is taken: what comes of it, and how the loads are then. Who is
woken goes on with what it was told, if it was told anything. -/
inductive Taken (l : Loads κ) : Event κ → Loads κ → Prop where
  | start {k : κ} {rest : List (Turn κ)}
      (hready : l.ready = .start k :: rest) :
      Taken l (.started k) { l with ready := rest }
  | fetch {id : Nat} {rest : List (Turn κ)}
      (hready : l.ready = .fetch id :: rest) :
      Taken l .quiet (runFetch { l with ready := rest } id)
  | forget {id : Nat} {rest : List (Turn κ)}
      (hready : l.ready = .forget id :: rest) :
      Taken l .quiet (forget { l with ready := rest } id)
  | relay {id waiter : Nat} {rest : List (Turn κ)}
      (hready : l.ready = .relay id waiter :: rest) :
      Taken l .quiet (relay { l with ready := rest } id waiter)
  | idle {waiter : Nat} {rest : List (Turn κ)}
      (hready : l.ready = .wake waiter :: rest) :
      Taken l .quiet { l with ready := rest }
  | resume {waiter fetch : Nat} {rest : List (Turn κ)}
      {grammar : Option Grammar} {k : κ}
      (hready : l.ready = .wake waiter :: rest)
      (hw : (waiter, ⟨fetch, some (.outcome grammar), k⟩) ∈ l.waiters) :
      Taken l (.resumed k grammar) { l with
        ready := rest
        waiters := l.waiters.filter (·.1 ≠ waiter) }
  | cancelled {waiter fetch : Nat} {rest : List (Turn κ)} {k : κ}
      (hready : l.ready = .wake waiter :: rest)
      (hw : (waiter, ⟨fetch, some .cancelled, k⟩) ∈ l.waiters) :
      Taken l (.cancelled k) { l with
        ready := rest
        waiters := l.waiters.filter (·.1 ≠ waiter) }

theorem taken {l l' : Loads κ} {event : Event κ}
    (ht : l.turn = some (event, l')) : Taken l event l' := by
  unfold turn at ht
  split at ht
  · cases ht
  · next t rest hready =>
    dsimp only at ht
    cases t with
    | start k =>
        cases ht
        exact .start hready
    | fetch id =>
        cases ht
        exact .fetch hready
    | forget id =>
        cases ht
        exact .forget hready
    | relay id waiter =>
        cases ht
        exact .relay hready
    | wake waiter =>
        have ht := Option.some.inj ht
        unfold wake at ht
        split at ht
        · next fetch signal k hw =>
          have hmem := Table.mem_of_lookup hw
          dsimp only at ht
          split at ht
          · cases ht
            exact .resume hready hmem
          · cases ht
            exact .cancelled hready hmem
        · cases ht
          exact .idle hready

/-- A property that all operations on loads keep. Of the grammars that go
from one operation to another, and so may be compiled, another property is
known, as the loads are then. -/
structure Stable (P : Loads κ → Prop) (G : Loads κ → Grammar → Prop) :
    Prop where
  journal : ∀ l, P l → P { l with journal := [] }
  ask : ∀ l scope, P l → P (l.askGrammar scope).2
  known : ∀ l scope g l', P l →
    l.askGrammar scope = (.known (some g), l') → G l' g
  compile : ∀ l scope g, P l → G l g →
    P (l.finishTokenizer scope (some g)).2
  join : ∀ l fetch k, P l → P (l.join fetch k)
  start : ∀ l k, P l → P (l.enqueue (.start k))
  cancel : ∀ l waiter, P l → P (l.cancel waiter)
  comeBack : ∀ l id, P l → P (l.comeBack id)
  defer : ∀ l, P l → P l.defer
  forgetLoaded : ∀ l, P l → P l.forgetLoaded
  mapLanguage : ∀ l language scope, P l →
    P { l with registry := l.registry.mapLanguage language scope }
  turn : ∀ l event l', P l → l.turn = some (event, l') → P l'
  resumed : ∀ l k g l', P l → l.turn = some (.resumed k (some g), l') →
    G l' g
  aside : ∀ l g, G l g → G { l with journal := [] } g

variable {P : Loads κ → Prop} {G : Loads κ → Grammar → Prop} {l : Loads κ}

theorem Stable.finishTokenizer (h : Stable P G) (hl : P l)
    (scope : String) {grammar : Option Grammar}
    (hg : ∀ g, grammar = some g → G l g) :
    P (l.finishTokenizer scope grammar).2 := by
  cases grammar with
  | none => exact hl
  | some g => exact h.compile l scope g hl (hg g rfl)

theorem Stable.askTokenizer (h : Stable P G) (hl : P l)
    (scope : String) : P (l.askTokenizer scope).2 := by
  unfold Loads.askTokenizer
  have hasked := h.ask l scope hl
  cases l.registry.tokenizers.get? scope with
  | some t => exact hl
  | none =>
      dsimp only
      rcases hask : l.askGrammar scope with ⟨grammar | id, l'⟩
      · rw [hask] at hasked
        refine h.finishTokenizer hasked scope fun g hg => ?_
        subst hg
        exact h.known l scope g l' hl hask
      · rw [hask] at hasked
        exact hasked

end Loads

namespace Service

/-- What is noted down about loads goes into the workspace's journal. -/
theorem withLoads_eq {s : Service} {α : Type}
    {f : Loads Job → α × Loads Job} {answer : α} {l : Loads Job}
    (h : f s.loads = (answer, l)) :
    s.withLoads f = (answer, { s with
      loads := { l with journal := [] }
      ws := l.journal.foldl Workspace.noted s.ws }) := by
  unfold withLoads
  rw [h]

-- =============================================================== moves

/-- Something that happens to a service. -/
inductive Move where
  /-- A job is started. -/
  | start (job : Job)
  /-- The next turn is taken, if there is one. -/
  | turn
  /-- The next turn is put off, behind all others. -/
  | defer
  /-- The loader comes back for a call it was waited for. -/
  | comeBack (fetch : Nat)
  /-- A job that waits is cancelled. -/
  | cancel (number : Nat)
  /-- A batch is applied to a document, or refused. -/
  | edit (buffer : Nat) (changes : List Change)
  | close (buffer : Nat)
  | lookup (buffer : Nat) (p : Position)
  /-- The caches of all open documents are built anew. -/
  | refresh
  | dispose
  /-- Another configuration gets active. -/
  | configure (config : Ambient)
  | register (g : Grammar)
  | mapLanguage (language scope : String)
  | forgetLoaded

/-- The service after a move. -/
def Move.after (s : Service) : Move → Service
  | start job => s.start job
  | turn => s.turn?.getD s
  | defer => { s with loads := s.loads.defer }
  | comeBack fetch => { s with loads := s.loads.comeBack fetch }
  | cancel number => s.cancel number
  | edit buffer changes => (s.edit buffer changes).2
  | close buffer => s.close buffer
  | lookup buffer p => (s.lookup buffer p).2
  | refresh => s.rebuildAll.2
  | dispose => s.dispose
  | configure config => { s with ws := { s.ws with config } }
  | register g => s.modifyRegistry (·.register g)
  | mapLanguage language scope =>
    s.modifyRegistry (·.mapLanguage language scope)
  | forgetLoaded => { s with loads := s.loads.forgetLoaded }

/-- The service after some moves, one after the other. -/
def afterAll (moves : List Move) (s : Service) : Service :=
  moves.foldl Move.after s

theorem afterAll_append (moves more : List Move) (s : Service) :
    afterAll (moves ++ more) s = afterAll more (afterAll moves s) :=
  List.foldl_append

end Service

end Relex
