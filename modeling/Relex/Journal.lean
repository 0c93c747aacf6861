/-
The journal: what is noted down along the way, for whoever runs the
program. Every entry names its logger. All loggers stand under one root,
so that a single reader of the root sees everything.
-/
namespace Relex

/-- How much an entry matters. -/
inductive Level where
  | debug
  | info
  | warning
  | error
  deriving DecidableEq, Repr

/-- An entry of the journal. -/
structure Entry where
  level : Level
  logger : String
  message : String
  deriving DecidableEq, Repr

namespace Entry

/-- The logger above all others. -/
def rootLogger : String := "linescope"

/-- The logger of a name: the name itself where it stands under the
root, and otherwise the name put under the root. -/
def loggerNamed (name : String) : String :=
  if name = rootLogger ∨ (rootLogger ++ ".").toList.isPrefixOf name.toList
  then name
  else rootLogger ++ "." ++ name

/-- An entry about a document's cache. -/
def ofController (level : Level) (message : String) : Entry :=
  ⟨level, loggerNamed "controller", message⟩

/-- An entry about loading grammars. -/
def ofRegistry (level : Level) (message : String) : Entry :=
  ⟨level, loggerNamed "registry", message⟩

/-- An entry about open documents. -/
def ofService (level : Level) (message : String) : Entry :=
  ⟨level, loggerNamed "service", message⟩

end Entry

end Relex
