/-
What controllers do: they build the cache of their document when they
are attached, mend it when they are told of a batch, and answer queries
from it.

A controller is registered with its document before it builds the cache.
If its engine fails there, the registration stays, and so does the part
of the cache that was built.
-/
import Relex.Workspace.Act

namespace Relex.Workspace

/-- Does work on a controller's cache. What the work changed stands,
also if it failed. -/
def onCache {α : Type} (controller : Nat) (cache : StateCache)
    (work : Work α) : Act α :=
  Act.of fun ws =>
    let (result, bench) := work.on ⟨cache, ws.trace⟩
    (result, { ws.modifyController controller
      fun c => { c with cache := bench.cache } with trace := bench.trace })

/-- Does work for a controller that has a tokenizer; for any other, this
is the answer. -/
def whenReady {α : Type} (controller : Nat) (answer : α)
    (work : Document → Engine → Work α) : Act α := do
  match (← get).seat? controller with
  | none => pure answer
  | some (c, d) =>
    match c.engine? with
    | none => pure answer
    | some engine => onCache controller c.cache (work d engine)

-- ============================================================== caches

/-- Tokenizes every line of the controller's document. -/
def build (controller : Nat) : Act Unit :=
  whenReady controller () Reparse.build

/-- Forgets the controller's cache and builds it anew. -/
def rebuild (controller : Nat) : Act Unit := do
  modify (·.modifyController controller fun c => { c with cache := .empty })
  build controller

/-- Gives the controller another tokenizer, or none, and builds the
cache anew. A controller that was disposed of is left alone. -/
def equip (controller : Nat) (t : Option Engine.Tokenizer) :
    Act Unit := do
  match (← get).controllers[controller]? with
  | none => pure ()
  | some c =>
    if c.disposed then pure ()
    else
      modify (·.modifyController controller fun c =>
        { c with tokenizer := t })
      rebuild controller

/-- Tokenizes a line and stores its state. Answers the tokens, and
whether the stored state changed. -/
def retokenize (controller : Nat) (line : Int) :
    Act (List Token × Bool) :=
  whenReady controller ([], false) fun d engine =>
    Reparse.retokenize d engine line

/-- Tokenizes the lines of a range, and on from there while states keep
changing. Answers how many lines it tokenized. -/
def mendRange (controller : Nat) (range : Range) : Act Int :=
  whenReady controller 0 fun d engine => Reparse.mendRange d engine range

/-- Mends the controller's cache after a batch that was applied to its
document. -/
def mendBatch (controller : Nat) (changes : List Change) :
    Act Unit := do
  let strict := (← get).config.active.isStrict
  whenReady controller () fun d engine =>
    Reparse.mendBatch d engine strict changes

-- ============================================================ queries

/-- Does work for a controller, with a tokenizer or without. -/
def whenAttached {α : Type} (controller : Nat) (answer : α)
    (work : Document → Option Engine → Work α) : Act α := do
  match (← get).seat? controller with
  | none => pure answer
  | some (c, d) => onCache controller c.cache (work d c.engine?)

/-- The token that covers a position. -/
def lookup (controller : Nat) (p : Position) :
    Act (Option ScopedSpan) := do
  let fallsBack := (← get).config.active.fallsBack
  whenAttached controller none fun d engine =>
    Lookup.token d engine fallsBack p

/-- The tokens of a line, entered in the cached state. -/
def lookupLine (controller : Nat) (line : Int) :
    Act (Option LineResult) :=
  whenAttached controller none fun d engine =>
    Lookup.line d engine line

-- ========================================================== lifecycle

/-- Attaches a new controller to a buffer, registers it if asked to, and
builds its cache. Answers its number. -/
def attach (buffer : Nat) (t : Option Engine.Tokenizer)
    (listens : Bool) : Act Nat := do
  let controller := (← get).controllers.length
  modify fun ws => { ws with
    controllers := ws.controllers ++ [⟨buffer, t, .empty, none, false⟩] }
  if listens then
    modify fun ws =>
      let (registration, ws) := ws.subscribe buffer (.controller controller)
      ws.modifyController controller fun c =>
        { c with registration := some registration }
  build controller
  pure controller

/-- Disposes of a controller: it stops listening, and gives up its
tokenizer and its cache. -/
def retire (ws : Workspace) (controller : Nat) : Workspace :=
  match ws.controllers[controller]? with
  | none => ws
  | some c =>
    let ws := match c.registration with
      | some registration => ws.unsubscribe registration
      | none => ws
    ws.modifyController controller fun c =>
      { c with
        tokenizer := none
        cache := .empty
        registration := none
        disposed := true }

end Relex.Workspace
