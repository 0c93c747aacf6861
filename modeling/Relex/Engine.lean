/-
Engines: what tokenizes lines. An engine is given the text of a line and
the state in which the line is entered, and answers with the line's
tokens and the state for the next line, or fails. It is a function: one
line entered in one state always gets one answer. Stopping early once
states agree rests on that, and on nothing else about an engine.

Three small engines are given here, two of them for trying things out;
the engine of a rule grammar is `Grammar.Lexer.engine`.
-/
import Relex.Fault
import Relex.Text.Break

namespace Relex

/-- Tokenizes one line, entered in a given state. -/
abbrev Engine := Line → TokenState → Except Fault LineResult

namespace Engine

/-- The answer made of the given tokens and next state; a fault if the
tokens are out of order. -/
def answer (tokens : List Token) (next : TokenState) :
    Except Fault LineResult :=
  match LineResult.check tokens next with
  | .ok answer => .ok answer
  | .error t => .error (.disorder t)

/-- A tokenizer: an engine, and a number that tells it from every other
tokenizer made. -/
structure Tokenizer where
  serial : Nat
  engine : Engine

-- ======================================================= brace depth

/-- The tokens of the rest of a line, entered at a column and a depth,
and the depth at the end. -/
def depthTokens (column depth : Int) : Line → List Token × Int
  | [] => ([], depth)
  | c :: rest =>
    let (shown, after, kind) :=
      if c = Char.ofNat 0x7b then (depth, depth + 1, "punctuation.open")
      else if c = Char.ofNat 0x7d then
        (depth - 1, depth - 1, "punctuation.close")
      else (depth, depth, "text")
    let token : Token := ⟨column, column + 1,
      ["source.depth", "depth." ++ toString shown, kind]⟩
    let (tokens, last) := depthTokens (column + 1) after rest
    (token :: tokens, last)

/-- Counts the braces that are open: a token for each character, and the
depth as the state. A closing brace too many makes the depth negative.
An empty line gets one empty token. -/
def depth : Engine := fun line entering =>
  let start := match entering with
    | .number n => n
    | _ => 0
  let (tokens, last) := depthTokens 0 start line
  if tokens.isEmpty then
    answer [⟨0, 0, ["source.depth", "depth." ++ toString last]⟩]
      (.number last)
  else answer tokens (.number last)

-- ============================================================= blank

/-- Finds nothing, and carries nothing. -/
def blank : Engine := fun _ _ => .ok (.bare .none)

-- ============================================================= table

/-- What a table says about a line. -/
inductive Ruling where
  | fails (words : String)
  | answers (tokens : List Token) (next : TokenState)

/-- A row of a table: the line it is about, and the state the line has
to be entered in, if that matters. -/
structure Row where
  text : Line
  entering : Option TokenState
  ruling : Ruling

/-- Is the row about this line, entered in this state? -/
def Row.rules (r : Row) (line : Line) (entering : TokenState) : Bool :=
  r.text = line ∧ (r.entering = none ∨ r.entering = some entering)

/-- Goes by the first row that is about the line. A line without a row
is one token, and leaves the state as it was. -/
def table (rows : List Row) : Engine := fun line entering =>
  match rows.find? (·.rules line entering) with
  | none => answer [⟨0, line.length, ["table"]⟩] entering
  | some row =>
    match row.ruling with
    | .fails words => .error (.failed words)
    | .answers tokens next => answer tokens next

end Engine

end Relex
