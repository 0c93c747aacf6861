/-
Queries: which token covers a position.

A query tokenizes one line, entered in the cached state, and stores
nothing. So queries can be made at any time without disturbing the
cache.

Of the tokens that cover a column the first one listed is taken. Since
tokens are listed by their start, none that covers the column starts
earlier.
-/
import Relex.Reparse

namespace Relex

/-- The token found at a position: where in the document it is, its
text, and its scopes. -/
structure ScopedSpan where
  range : Range
  text : List Char
  scopes : List String
  deriving DecidableEq, Repr

namespace Lookup

/-- The token that answers for a column: the first that covers it, or
else the last one, if falling back is allowed. -/
def pick (tokens : List Token) (fallsBack : Bool) (column : Int) :
    Option Token :=
  match Token.at? tokens column with
  | some t => some t
  | none => if fallsBack then tokens.getLast? else none

/-- A token of a line as the answer to a query. -/
def info (line : Int) (text : Line) (t : Token) : ScopedSpan :=
  ⟨⟨⟨line, t.start⟩, ⟨line, t.stop⟩⟩,
    (text.take t.stop.toNat).drop t.start.toNat, t.scopes⟩

/-- Tokenizes a line, entered in the cached state. No answer without an
engine, or for a line that does not exist. -/
def line (d : Document) (engine : Option Engine) (line : Int) :
    Work (Option LineResult) := do
  match engine, d.content.line? line with
  | some engine, some text =>
    return some (← Work.ask engine text (← Work.entering line))
  | _, _ => return none

/-- The token that covers a position, after clamping. No answer without
an engine, or where there is no such token. -/
def token (d : Document) (engine : Option Engine) (fallsBack : Bool)
    (p : Position) : Work (Option ScopedSpan) := do
  let p := d.content.clamp p
  match ← line d engine p.line with
  | none => return none
  | some answer =>
    return (pick answer.tokens fallsBack p.column).map
      (info p.line (d.content.line p.line))

end Lookup

end Relex
