/-
Loading grammars: the loads under way, and who waits for them.

A grammar that is not known is fetched from the loader. Whoever asks for
it meanwhile waits for the same fetch. A fetch never fails: if the
loader does, the journal says so and there is no grammar.

Things happen in turns, first come first served. A fetch begins in a
turn of its own, in which the loader is called. When the loader has
come back, the fetch is done, and there are turns

1. to drop it from the pending fetches, if it is still the one pending
   for its scope;
2. to hand the outcome to each of those waiting, in the order in which
   they began to wait; each of these turns gives rise to one in which
   the one waiting goes on.

Asking again between the end of a fetch and the turn that drops it gets
its outcome without waiting. Forgetting what was loaded drops the
pending fetches, but does not stop them: those that run on will register
what they bring. Who no longer waits leaves the fetch running for the
others.

What the ones waiting do when they go on is for their owner to say; here
it is just a value of some type `κ`.
-/
import Relex.Journal
import Relex.Registry.Basic

namespace Relex

-- =========================================================== loaders

/-- What a loader comes back with. -/
inductive Loaded where
  | grammar (g : Grammar)
  | nothing
  | failed
  deriving Inhabited

/-- How a loader answers a call: what it comes back with, and whether it
has to be waited for. -/
structure Reply where
  loaded : Loaded
  waits : Bool

/-- Answers the calls for each scope, which are numbered from zero. -/
abbrev Loader := String → Nat → Reply

-- =========================================================== fetches

/-- How far a fetch has come. -/
inductive Stage where
  /-- The loader was not called yet. -/
  | created
  /-- The loader was called and did not come back yet. -/
  | waiting (loaded : Loaded)
  /-- The loader came back, and the fetch goes on in a turn to come. -/
  | returned (loaded : Loaded)
  /-- The fetch is over. -/
  | done (grammar : Option Grammar)

/-- Is the loader being waited for? -/
def Stage.isWaiting : Stage → Bool
  | .waiting _ => true
  | _ => false

/-- The fetch of a scope's grammar: how far it has come, and the numbers
of those waiting for it, in the order in which they began to. -/
structure Fetch where
  scope : String
  stage : Stage
  waiters : List Nat

/-- How many turns a fetch that goes on by itself leads to after the one in
which it is over: one to drop it, and one for each of those waiting. -/
def Fetch.toCome (f : Fetch) : Nat :=
  match f.stage with
  | .created => f.waiters.length + 1
  | .returned _ => f.waiters.length + 1
  | _ => 0

/-- What one who waits has been told. -/
inductive Signal where
  | outcome (grammar : Option Grammar)
  | cancelled

/-- Someone waiting: the fetch, what it has been told, and how it goes
on. -/
structure Waiter (κ : Type) where
  fetch : Nat
  signal : Option Signal
  goesOn : κ

/-- What there is to do. -/
inductive Turn (κ : Type) where
  /-- Something new begins. -/
  | start (k : κ)
  /-- A fetch begins, or goes on when the loader has come back. -/
  | fetch (id : Nat)
  /-- A fetch that is over is dropped from the pending ones. -/
  | forget (id : Nat)
  /-- The outcome of a fetch is handed to one who waits. -/
  | relay (id waiter : Nat)
  /-- One who waited goes on. -/
  | wake (waiter : Nat)

/-- Does something new begin in the turn? -/
def Turn.isStart {κ : Type} : Turn κ → Bool
  | .start _ => true
  | _ => false

/-- What became of a turn, for the owner to act upon. -/
inductive Event (κ : Type) where
  | quiet
  | started (k : κ)
  | resumed (k : κ) (grammar : Option Grammar)
  | cancelled (k : κ)

/-- The registry with the loads under way: the pending fetch of each
scope, all fetches by number, those waiting by number, the turns to
come, the scopes the loader was called for, and entries for the
journal. -/
structure Loads (κ : Type) where
  registry : Registry
  loader : Option Loader
  pending : Table Nat
  fetches : List Fetch
  waiters : List (Nat × Waiter κ)
  admitted : Nat
  ready : List (Turn κ)
  calls : List String
  journal : List Entry

/-- What asking for something that may have to be loaded comes to: it is
there, or is known not to be; or there is a fetch to wait for. -/
inductive Asked (α : Type) where
  | known (answer : Option α)
  | wait (fetch : Nat)

namespace Loads

variable {κ : Type}

/-- Nothing is under way. -/
def new (registry : Registry) (loader : Option Loader) : Loads κ :=
  ⟨registry, loader, .empty, [], [], 0, [], [], []⟩

/-- Adds an entry to the journal. -/
def noted (l : Loads κ) (e : Entry) : Loads κ :=
  { l with journal := l.journal ++ [e] }

/-- A turn comes up after those that are ready. -/
def enqueue (l : Loads κ) (t : Turn κ) : Loads κ :=
  { l with ready := l.ready ++ [t] }

-- ============================================================= asking

/-- The outcome of a fetch, if it is over. -/
def outcome? (l : Loads κ) (id : Nat) : Option (Option Grammar) :=
  match l.fetches[id]? with
  | some ⟨_, .done grammar, _⟩ => some grammar
  | _ => none

/-- Asks for the grammar of a scope. -/
def askGrammar (l : Loads κ) (scope : String) :
    Asked Grammar × Loads κ :=
  match l.registry.get? scope with
  | some g => (.known (some g), l)
  | none =>
    if l.loader.isNone then (.known none, l)
    else
      match l.pending.get? scope with
      | some id =>
        match l.outcome? id with
        | some grammar => (.known grammar, l)
        | none => (.wait id, l)
      | none =>
        let id := l.fetches.length
        let fetch : Fetch := ⟨scope, .created, []⟩
        let l := { l with
          fetches := l.fetches ++ [fetch]
          pending := l.pending.insert scope id }
        (.wait id, l.enqueue (.fetch id))

/-- The tokenizer for a scope, once its grammar was asked for. -/
def finishTokenizer (l : Loads κ) (scope : String)
    (grammar : Option Grammar) : Option GrammarTokenizer × Loads κ :=
  match grammar with
  | none => (none, l)
  | some g =>
    match l.registry.tokenizer scope g with
    | .ok (t, registry) => (some t, { l with registry })
    | .error _ =>
      (none, l.noted (.ofRegistry .error
        ("Grammar for scope " ++ scope ++ " is invalid")))

/-- Asks for the tokenizer of a scope. -/
def askTokenizer (l : Loads κ) (scope : String) :
    Asked GrammarTokenizer × Loads κ :=
  match l.registry.tokenizers.get? scope with
  | some t => (.known (some t), l)
  | none =>
    match l.askGrammar scope with
    | (.known grammar, l) =>
      let (t, l) := l.finishTokenizer scope grammar
      (.known t, l)
    | (.wait id, l) => (.wait id, l)

/-- Someone begins to wait for a fetch. -/
def join (l : Loads κ) (fetch : Nat) (k : κ) : Loads κ :=
  { l with
    waiters := l.waiters ++ [(l.admitted, ⟨fetch, none, k⟩)]
    admitted := l.admitted + 1
    fetches := l.fetches.modify fetch fun f =>
      { f with waiters := f.waiters ++ [l.admitted] } }

/-- Tells one who waits something, if nothing else was told before. -/
def tell (l : Loads κ) (waiter : Nat) (signal : Signal) : Loads κ :=
  { l with waiters := l.waiters.map fun (n, w) =>
      if n = waiter then (n, { w with signal := some signal }) else (n, w) }

/-- One who waits is not to go on. The fetch runs on for the others. -/
def cancel (l : Loads κ) (waiter : Nat) : Loads κ :=
  match l.waiters.lookup waiter with
  | none => l
  | some w =>
    let told := l.tell waiter .cancelled
    match w.signal with
    | some _ => told
    | none =>
      { told with fetches := told.fetches.modify w.fetch fun f =>
          { f with waiters := f.waiters.erase waiter }
        }.enqueue (.wake waiter)

-- =========================================================== fetching

/-- The loader came back for a fetch: it is over. -/
def complete (l : Loads κ) (id : Nat) (f : Fetch) (loaded : Loaded) :
    Loads κ :=
  let (l, grammar) : Loads κ × Option Grammar := match loaded with
    | .grammar g =>
      ({ l with registry := l.registry.registerLoaded g }, some g)
    | .nothing => (l, none)
    | .failed =>
      (l.noted (.ofRegistry .error
        ("Unable to load grammar for scope " ++ f.scope)), none)
  { l with
    fetches := l.fetches.set id { f with stage := .done grammar }
    ready := l.ready ++ .forget id :: f.waiters.map (.relay id) }

/-- The turn of a fetch: the loader is called, or has come back. -/
def runFetch (l : Loads κ) (id : Nat) : Loads κ :=
  match l.fetches[id]?, l.loader with
  | some f, some loader =>
    match f.stage with
    | .created =>
      let reply := loader f.scope (l.calls.count f.scope)
      let l := { l with calls := l.calls ++ [f.scope] }
      if reply.waits then
        { l with fetches :=
            l.fetches.set id { f with stage := .waiting reply.loaded } }
      else l.complete id f reply.loaded
    | .returned loaded => l.complete id f loaded
    | _ => l
  | _, _ => l

/-- The oldest fetch of a scope whose loader call is waited for. -/
def waitingFetch? (l : Loads κ) (scope : String) : Option Nat :=
  l.fetches.findIdx? fun f => f.scope = scope ∧ f.stage.isWaiting

/-- The loader comes back for the oldest waiting call for a scope.
Answers whether there was one. -/
def release (l : Loads κ) (scope : String) : Bool × Loads κ :=
  match l.waitingFetch? scope with
  | none => (false, l)
  | some id =>
    (true, { l with fetches := l.fetches.modify id fun f =>
        match f.stage with
        | .waiting loaded => { f with stage := .returned loaded }
        | _ => f }.enqueue (.fetch id))

/-- Forgets what was loaded, and drops the pending fetches. -/
def forgetLoaded (l : Loads κ) : Loads κ :=
  { l with registry := l.registry.forgetLoaded, pending := .empty }

-- ============================================================== turns

/-- A fetch is dropped from the pending ones, if it is still there. -/
def forget (l : Loads κ) (id : Nat) : Loads κ :=
  match l.fetches[id]? with
  | none => l
  | some f =>
    if l.pending.get? f.scope = some id then
      { l with pending := l.pending.erase f.scope }
    else l

/-- The outcome of a fetch is handed to one who waits for it. -/
def relay (l : Loads κ) (id waiter : Nat) : Loads κ :=
  match l.outcome? id, l.waiters.lookup waiter with
  | some grammar, some ⟨_, none, _⟩ =>
    (l.tell waiter (.outcome grammar)).enqueue (.wake waiter)
  | _, _ => l

/-- One who waited goes on, and waits no longer. -/
def wake (l : Loads κ) (waiter : Nat) : Event κ × Loads κ :=
  match l.waiters.lookup waiter with
  | some ⟨_, some signal, k⟩ =>
    let l := { l with waiters := l.waiters.filter (·.1 ≠ waiter) }
    match signal with
    | .outcome grammar => (.resumed k grammar, l)
    | .cancelled => (.cancelled k, l)
  | _ => (.quiet, l)

/-- Takes the first turn, if there is one. -/
def turn (l : Loads κ) : Option (Event κ × Loads κ) :=
  match l.ready with
  | [] => none
  | t :: rest =>
    let l := { l with ready := rest }
    match t with
    | .start k => some (.started k, l)
    | .fetch id => some (.quiet, l.runFetch id)
    | .forget id => some (.quiet, l.forget id)
    | .relay id waiter => some (.quiet, l.relay id waiter)
    | .wake waiter => some (l.wake waiter)

/-- What is counted of each in a list, altogether. -/
def total {α : Type} (count : α → Nat) : List α → Nat
  | [] => 0
  | a :: rest => count a + total count rest

/-- How many turns there are to come as long as nobody asks for anything:
those that are ready, those the fetches lead to, and one for each of those
waiting to be told. -/
def toCome (l : Loads κ) : Nat :=
  l.ready.length + total (·.toCome) l.fetches
    + l.waiters.countP (·.2.signal.isNone)

/-- In how many of the turns that are ready something new begins. -/
def toStart (l : Loads κ) : Nat := l.ready.countP (·.isStart)

/-- What is counted of those waiting, altogether. -/
def inWait (count : κ → Nat) (l : Loads κ) : Nat :=
  total (fun w => count w.2.goesOn) l.waiters

end Loads

end Relex
