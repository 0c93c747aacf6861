/-
Jobs: what the service does that may have to wait for a grammar.

A job begins in a turn of its own, runs until it is over or has to wait,
and goes on in another turn when what it waited for is there. Between
its turns anything may have happened: documents edited, closed, opened
again, or the service disposed of. A tokenizer that arrives is installed
only if the controller it was asked for is still the one of its URI.
-/
import Relex.Service.Basic

namespace Relex.Service

/-- A job is over. -/
def finish (s : Service) (number : Nat) (outcome : Outcome) : Service :=
  { s with finished := s.finished ++ [(number, outcome)] }

/-- A job waits for a fetch. -/
def suspend (s : Service) (fetch : Nat) (job : Job) : Service :=
  { s with loads := s.loads.join fetch job }

-- =========================================================== grammars

/-- Answers a job with a grammar. -/
def getGrammar (s : Service) (number : Nat) (scope : String) : Service :=
  match s.withLoads (·.askGrammar scope) with
  | (.known grammar, s) => s.finish number (.grammar grammar)
  | (.wait fetch, s) => s.suspend fetch ⟨number, .grammar scope⟩

/-- Answers a job with a tokenizer. -/
def getTokenizer (s : Service) (number : Nat) (scope : String) : Service :=
  match s.withLoads (·.askTokenizer scope) with
  | (.known t, s) => s.finish number (.tokenizer t)
  | (.wait fetch, s) => s.suspend fetch ⟨number, .tokenizer scope⟩

-- ============================================================ opening

/-- How far opening a document has come: it is over, with a controller
if the document has one, or it waits for the tokenizer of a scope. -/
inductive Opening where
  | over (result : Except Fault (Option Nat))
  | waits (fetch : Nat) (scope uri : String) (controller : Nat)

/-- Ends the opening of a document: the tokenizer goes to the
controller, if there is one and the controller is still in place. -/
def install (s : Service) (scope uri : String) (controller : Nat)
    (t : Option GrammarTokenizer) :
    Except Fault (Option Nat) × Service :=
  match t with
  | none =>
    (.ok (some controller), s.noted (.ofService .warning ("Grammar "
      ++ scope ++ " is unavailable; " ++ uri ++ " stays inert")))
  | some t =>
    if s.controllers.get? uri = some controller then
      match s.act (Workspace.underConfig? s.config
          (Workspace.equip controller (some t.toTokenizer))) with
      | (.ok (), s) => (.ok (some controller), s)
      | (.error fault, s) => (.error fault, s)
    else (.ok (some controller), s)

/-- Begins to open the document of a buffer. One that is open has its
cache built anew instead. A document in a language without a grammar is
not opened. -/
def beginOpening (s : Service) (buffer : Nat) : Opening × Service :=
  match s.ws.document? buffer with
  | none => (.over (.ok none), s)
  | some d =>
    if s.disposed then (.over (.ok none), s)
    else
      match s.controllers.get? d.uri with
      | some controller =>
        match s.act (Workspace.underConfig? s.config
            (Workspace.rebuild controller)) with
        | (.ok (), s) => (.over (.ok (some controller)), s)
        | (.error fault, s) => (.over (.error fault), s)
      | none =>
        match s.registry.scopeOf? d.languageId with
        | none =>
          (.over (.ok none), s.noted (.ofService .debug
            ("No grammar for language " ++ d.languageId ++ " (" ++ d.uri
              ++ ")")))
        | some scope =>
          match s.act (Workspace.attach buffer none true) with
          | (.error fault, s) => (.over (.error fault), s)
          | (.ok controller, s) =>
            let s := { s with
              controllers := s.controllers.insert d.uri controller }
            match s.withLoads (·.askTokenizer scope) with
            | (.wait fetch, s) => (.waits fetch scope d.uri controller, s)
            | (.known t, s) =>
              let (result, s) := s.install scope d.uri controller t
              (.over result, s)

/-- Opens the document of a buffer, for a job of its own. -/
def openBuffer (s : Service) (number buffer : Nat) : Service :=
  match s.beginOpening buffer with
  | (.over (.ok controller), s) => s.finish number (.opened controller)
  | (.over (.error fault), s) => s.finish number (.failed fault)
  | (.waits fetch scope uri controller, s) =>
    s.suspend fetch ⟨number, .install scope uri controller none⟩

-- ========================================================== reloading

/-- Opens documents one after the other, until one has to wait. -/
def reopen (number total : Nat) : List Nat → Service → Service
  | [], s =>
    (s.noted (.ofService .info ("Reloaded " ++ toString total
      ++ " document(s)"))).finish number .reloaded
  | buffer :: left, s =>
    match s.beginOpening buffer with
    | (.over (.ok _), s) => reopen number total left s
    | (.over (.error fault), s) => s.finish number (.failed fault)
    | (.waits fetch scope uri controller, s) =>
      s.suspend fetch
        ⟨number, .install scope uri controller (some ⟨left, total⟩)⟩

/-- Closes all documents, forgets what was loaded, and opens the
documents again. -/
def reload (s : Service) (number : Nat) : Service :=
  let buffers := s.controllers.values.filterMap fun controller =>
    (s.ws.controllers[controller]?).map (·.buffer)
  let s := s.closeAll
  reopen number buffers.length buffers
    { s with loads := s.loads.forgetLoaded }

-- ============================================================== turns

/-- A job begins. -/
def begin (s : Service) (job : Job) : Service :=
  match job.task with
  | .grammar scope => s.getGrammar job.number scope
  | .tokenizer scope => s.getTokenizer job.number scope
  | .openBuffer buffer => s.openBuffer job.number buffer
  | .reload => s.reload job.number
  | .install .. => s

/-- A job goes on with the grammar it waited for. -/
def resume (s : Service) (job : Job) (grammar : Option Grammar) :
    Service :=
  match job.task with
  | .grammar _ => s.finish job.number (.grammar grammar)
  | .tokenizer scope =>
    let (t, s) := s.withLoads (·.finishTokenizer scope grammar)
    s.finish job.number (.tokenizer t)
  | .install scope uri controller after =>
    let (t, s) := s.withLoads (·.finishTokenizer scope grammar)
    match s.install scope uri controller t, after with
    | (.error fault, s), _ => s.finish job.number (.failed fault)
    | (.ok controller, s), none =>
      s.finish job.number (.opened controller)
    | (.ok _, s), some reload =>
      reopen job.number reload.total reload.left s
  | .openBuffer _ => s
  | .reload => s

/-- Acts upon what became of a turn. -/
def handle (s : Service) : Event Job → Service
  | .quiet => s
  | .started job => s.begin job
  | .resumed job grammar => s.resume job grammar
  | .cancelled job => s.finish job.number .cancelled

/-- Takes the next turn, if there is one. -/
def turn? (s : Service) : Option Service :=
  match s.loads.turn with
  | none => none
  | some (event, loads) =>
    some (({ s with
      loads := { loads with journal := [] }
      ws := loads.journal.foldl Workspace.noted s.ws }).handle event)

/-- Takes at most so many turns. -/
def turns : Nat → Service → Service
  | 0, s => s
  | n + 1, s =>
    match s.turn? with
    | none => s
    | some s => turns n s

/-- How many documents the jobs that wait have left to open. -/
def toOpen (s : Service) : Nat := s.loads.inWait (·.task.left)

/-- A bound on the documents that can come to be open at one time: those
that are, those that are left to be opened, and one for each job that is
to begin. -/
def mayBeOpen (s : Service) : Nat :=
  s.controllers.size + s.toOpen + s.loads.toStart

/-- A bound on the turns that can follow. A job that goes on asks for a
tokenizer at most once for each document that it has left to open, and one
that begins at most once for each that may be open then. Each time leads
to four turns at most: for the fetch, to drop it, to hand over the outcome,
and to go on. -/
def turnBound (s : Service) : Nat :=
  s.loads.toCome + 4 * (s.toOpen + s.loads.toStart * s.mayBeOpen)

/-- Takes turns until none is left. -/
def settle (s : Service) : Service := turns s.turnBound s

-- ==================================================== starting, ending

/-- Starts a job. It begins when its turn comes. -/
def start (s : Service) (job : Job) : Service :=
  { s with loads := s.loads.enqueue (.start job) }

/-- Cancels a job that waits. -/
def cancel (s : Service) (number : Nat) : Service :=
  match s.loads.waiters.find? (·.2.goesOn.number = number) with
  | none => s
  | some (waiter, _) => { s with loads := s.loads.cancel waiter }

/-- The loader comes back for the oldest waiting call for a scope.
Answers whether there was one. -/
def release (s : Service) (scope : String) : Bool × Service :=
  s.withLoads (·.release scope)

end Relex.Service
