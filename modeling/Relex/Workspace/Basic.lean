/-
Workspaces: documents, and who listens to them.

A document sits in a buffer, together with its listeners in the order in
which they were registered. Two kinds of listeners there are:
controllers, which keep a cache of the document's states, and watchers,
which stand for whatever else a host may register.

A listener may be registered several times, and each registration can be
disposed of. That takes one entry of the listener off the document, the
first; disposing of a registration again does nothing.

A watcher notes what it sees and then follows its habits. Besides, it
may plan edits: each time it is called it makes the next of them. So a
watcher edits finitely often, and a round of notifications ends.

Buffers, controllers, registrations and watchers are numbered in the
order in which they were made, from zero.
-/
import Relex.Config
import Relex.Lookup

namespace Relex

-- ========================================================== listeners

/-- Who is told of the batches applied to a document, by number. -/
inductive Listener where
  | controller (id : Nat)
  | watcher (id : Nat)
  deriving DecidableEq, Repr

/-- A document and its listeners, in the order of registration. -/
structure Buffer where
  document : Document
  listeners : List Listener

/-- The registration of a listener with a buffer. It is live until it is
disposed of. -/
structure Registration where
  buffer : Nat
  listener : Listener
  live : Bool
  deriving DecidableEq, Repr

-- ======================================================== controllers

/-- Keeps the states of one buffer's document. Without a tokenizer it
stores nothing and answers nothing. Once it is disposed of it stays
so. -/
structure Controller where
  buffer : Nat
  tokenizer : Option Engine.Tokenizer
  cache : StateCache
  registration : Option Nat
  disposed : Bool

namespace Controller

/-- Has the controller a tokenizer? -/
def isReady (c : Controller) : Bool := c.tokenizer.isSome

/-- The engine of the controller's tokenizer. -/
def engine? (c : Controller) : Option Engine :=
  c.tokenizer.map (·.engine)

/-- The controller of a document as messages name it. -/
def describe (c : Controller) (d : Document) : String :=
  "DocumentController(" ++ d.describe ++ ", "
    ++ (if c.isReady then "ready" else "inert") ++ ", cached="
    ++ toString c.cache.size ++ ")"

end Controller

-- =========================================================== watchers

/-- What a watcher does whenever it is called. -/
inductive Habit where
  /-- Disposes of a registration. -/
  | dispose (registration : Nat)
  /-- Registers a watcher with the buffer it was called for. -/
  | subscribe (watcher : Nat)
  /-- Fails, in its own words. -/
  | fail (words : String)
  deriving DecidableEq, Repr

/-- A listener of the host's own. -/
structure Watcher where
  name : String
  habits : List Habit
  deriving DecidableEq, Repr

/-- An edit that a watcher means to make. -/
structure Plan where
  watcher : Nat
  buffer : Nat
  changes : List Change
  deriving DecidableEq, Repr

/-- The next of a watcher's plans, and the plans that are left. -/
def Plan.take? (watcher : Nat) : List Plan → Option (Plan × List Plan)
  | [] => none
  | plan :: rest =>
    if plan.watcher = watcher then some (plan, rest)
    else (take? watcher rest).map fun (next, left) => (next, plan :: left)

theorem Plan.length_of_take? {watcher : Nat} {plans left : List Plan}
    {plan : Plan} (h : Plan.take? watcher plans = some (plan, left)) :
    plans.length = left.length + 1 := by
  induction plans generalizing left with
  | nil => cases h
  | cons p rest ih =>
    simp only [Plan.take?] at h
    split at h
    · cases h; rfl
    · obtain ⟨⟨next, left'⟩, h', e⟩ := Option.map_eq_some_iff.1 h
      cases e
      simp [ih h']

/-- What a watcher saw when it was called: the document as it stood, and
the batch it was told of. -/
structure Sighting where
  watcher : Nat
  buffer : Nat
  version : Nat
  text : List Char
  changes : List Change
  deriving DecidableEq, Repr

-- ========================================================= workspaces

/-- All there is: buffers, controllers, registrations and watchers by
number, the plans the watchers have left, the configuration, the trace,
and what watchers saw. -/
structure Workspace where
  buffers : List Buffer
  controllers : List Controller
  registrations : List Registration
  watchers : List Watcher
  plans : List Plan
  config : Ambient
  trace : Trace
  sightings : List Sighting

namespace Workspace

/-- Nothing is there yet. -/
def empty : Workspace := ⟨[], [], [], [], [], .fresh, .blank, []⟩

instance : Inhabited Workspace := ⟨empty⟩

/-- The document of a buffer. -/
def document? (ws : Workspace) (buffer : Nat) : Option Document :=
  (ws.buffers[buffer]?).map (·.document)

/-- A controller, with its document. -/
def seat? (ws : Workspace) (controller : Nat) :
    Option (Controller × Document) := do
  let c ← ws.controllers[controller]?
  let d ← ws.document? c.buffer
  return (c, d)

/-- Changes a controller. -/
def modifyController (ws : Workspace) (controller : Nat)
    (f : Controller → Controller) : Workspace :=
  { ws with controllers := ws.controllers.modify controller f }

/-- Adds an entry to the journal. -/
def noted (ws : Workspace) (e : Entry) : Workspace :=
  { ws with trace := ws.trace.noted e }

-- ====================================================== registrations

/-- Puts a document into a new buffer. Answers its number. -/
def addBuffer (ws : Workspace) (d : Document) : Nat × Workspace :=
  (ws.buffers.length, { ws with buffers := ws.buffers ++ [⟨d, []⟩] })

/-- Adds a watcher. Answers its number. -/
def addWatcher (ws : Workspace) (w : Watcher) : Nat × Workspace :=
  (ws.watchers.length, { ws with watchers := ws.watchers ++ [w] })

/-- Registers a listener with a buffer. Answers the number of the
registration. -/
def subscribe (ws : Workspace) (buffer : Nat) (listener : Listener) :
    Nat × Workspace :=
  (ws.registrations.length, { ws with
    buffers := ws.buffers.modify buffer fun b =>
      { b with listeners := b.listeners ++ [listener] }
    registrations := ws.registrations ++ [⟨buffer, listener, true⟩] })

/-- Disposes of a registration. -/
def unsubscribe (ws : Workspace) (registration : Nat) : Workspace :=
  match ws.registrations[registration]? with
  | none => ws
  | some s =>
    if s.live then
      { ws with
        buffers := ws.buffers.modify s.buffer fun b =>
          { b with listeners := b.listeners.erase s.listener }
        registrations := ws.registrations.set registration
          { s with live := false } }
    else ws

end Workspace

end Relex
