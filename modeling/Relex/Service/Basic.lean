/-
The service: the controllers of all open documents, one for each URI,
and the registry their grammars come from.

A document is opened in two steps. Its controller is attached at once,
without a tokenizer, so that no edit is lost while the grammar is being
loaded; when the tokenizer is there the cache is built from the text as
it is then. A document whose grammar cannot be had keeps its controller,
which goes on storing nothing.

What takes time is done in jobs (`Service.Jobs`). This module holds what
is done at once.
-/
import Relex.Registry.Loads
import Relex.Workspace.Notify
import Relex.Workspace.Scopes

namespace Relex

-- ============================================================== jobs

/-- What is left of a reload: the documents still to be opened, by
buffer, and how many there were. -/
structure Reload where
  left : List Nat
  total : Nat
  deriving DecidableEq, Repr

/-- What a job is to do when its turn comes. -/
inductive Task where
  /-- Answers with a grammar. -/
  | grammar (scope : String)
  /-- Answers with a tokenizer. -/
  | tokenizer (scope : String)
  /-- Opens the document of a buffer. -/
  | openBuffer (buffer : Nat)
  /-- Forgets what was loaded and opens all documents again. -/
  | reload
  /-- Goes on opening a document, whose controller waits for the
  tokenizer of a scope; after it, what is left of a reload. -/
  | install (scope uri : String) (controller : Nat)
    (after : Option Reload)
  deriving DecidableEq, Repr

/-- How many documents of a reload are left to be opened when the task goes
on. -/
def Task.left : Task → Nat
  | .install _ _ _ (some after) => after.left.length
  | _ => 0

/-- A task, and the number its starter gave it. -/
structure Job where
  number : Nat
  task : Task
  deriving DecidableEq, Repr

/-- What came of a job. -/
inductive Outcome where
  | grammar (g : Option Grammar)
  | tokenizer (t : Option GrammarTokenizer)
  | opened (controller : Option Nat)
  | reloaded
  | cancelled
  | failed (fault : Fault)

-- =========================================================== services

/-- The workspace of the documents, the loads under way, the controllers
of open documents by URI, the service's own configuration if it has one,
and what came of the jobs that are over. -/
structure Service where
  ws : Workspace
  loads : Loads Job
  controllers : Table Nat
  config : Option Config
  disposed : Bool
  finished : List (Nat × Outcome)

namespace Service

/-- A service in a workspace, with no document open. -/
def new (ws : Workspace) (registry : Registry) (loader : Option Loader)
    (config : Option Config) : Service :=
  ⟨ws, .new registry loader, .empty, config, false, []⟩

/-- The service as messages name it. -/
def describe (s : Service) : String :=
  "ScopeService(documents=" ++ toString s.controllers.size ++ ")"

/-- The URIs of the open documents, in the order of opening. -/
def uris (s : Service) : List String := s.controllers.names

/-- The URI of the document in a buffer. -/
def uri (s : Service) (buffer : Nat) : String :=
  ((s.ws.document? buffer).map (·.uri)).getD ""

/-- The controller of the document in a buffer. It is looked up by the
document's URI. -/
def controllerFor? (s : Service) (buffer : Nat) : Option Nat :=
  s.controllers.get? (s.uri buffer)

-- ============================================================ effects

/-- Does something in the workspace. -/
def act {α : Type} (s : Service) (w : Act α) :
    Except Fault α × Service :=
  let (result, ws) := w.on s.ws
  (result, { s with ws })

/-- Adds an entry to the journal. -/
def noted (s : Service) (e : Entry) : Service :=
  { s with ws := s.ws.noted e }

/-- Does something with the loads. What they note down goes into the one
journal. -/
def withLoads {α : Type} (s : Service) (f : Loads Job → α × Loads Job) :
    α × Service :=
  let (answer, loads) := f s.loads
  (answer, { s with
    loads := { loads with journal := [] }
    ws := loads.journal.foldl Workspace.noted s.ws })

-- ========================================================== documents

/-- Applies a batch to a buffer's document. -/
def edit (s : Service) (buffer : Nat) (changes : List Change) :
    Except Fault (List Change) × Service :=
  s.act (Workspace.edit buffer changes)

/-- Closes the document of a buffer, if it is open. -/
def close (s : Service) (buffer : Nat) : Service :=
  match s.controllerFor? buffer with
  | none => s
  | some controller =>
    { s with
      controllers := s.controllers.erase (s.uri buffer)
      ws := s.ws.retire controller }

/-- The token that covers a position of a buffer's document. A query
that fails is noted down, and has no answer. -/
def lookup (s : Service) (buffer : Nat) (p : Position) :
    Option ScopedSpan × Service :=
  match s.controllerFor? buffer with
  | none => (none, s)
  | some controller =>
    match s.act (Workspace.underConfig? s.config
        (Workspace.lookup controller p)) with
    | (.ok answer, s) => (answer, s)
    | (.error _, s) =>
      (none, s.noted (.ofService .warning ("Scope query at " ++ p.text
        ++ " in " ++ s.uri buffer ++ " failed")))

/-- Gives the controller of a buffer's document another tokenizer, or
none. -/
def equip (s : Service) (buffer : Nat)
    (t : Option Engine.Tokenizer) : Except Fault Unit × Service :=
  match s.controllerFor? buffer with
  | none => (.ok (), s)
  | some controller => s.act (Workspace.equip controller t)

/-- Builds the caches of all open documents anew, in the order of
opening. A failure ends it. -/
def rebuildAll (s : Service) : Except Fault Unit × Service :=
  s.act (Workspace.underConfig? s.config
    (s.controllers.values.forM Workspace.rebuild))

-- =========================================================== grammars

/-- Changes the registry. -/
def modifyRegistry (s : Service) (f : Registry → Registry) : Service :=
  { s with loads := { s.loads with registry := f s.loads.registry } }

/-- Makes a tokenizer of an engine, unlike any other. -/
def issue (s : Service) (engine : Engine) : Engine.Tokenizer × Service :=
  let (serial, registry) := s.loads.registry.issue
  (⟨serial, engine⟩, { s with loads := { s.loads with registry } })

/-- The registry as it is. -/
def registry (s : Service) : Registry := s.loads.registry

-- ========================================================== lifecycle

/-- Disposes of the controllers of all open documents. -/
def closeAll (s : Service) : Service :=
  { s with
    ws := s.controllers.values.foldl Workspace.retire s.ws
    controllers := .empty }

/-- Ends the service: all documents are closed, and none is opened any
more. -/
def dispose (s : Service) : Service := { s.closeAll with disposed := true }

end Service

end Relex
