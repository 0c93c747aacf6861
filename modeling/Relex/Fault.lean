/-
Faults: everything that can go wrong, by cause, and the words for it.

None of them is fatal. A rejected edit leaves the document alone, a
grammar that does not build leaves its documents without tokens, and a
failing tokenizer costs the change that met it.
-/
import Relex.Range
import Relex.Token

namespace Relex

-- ============================================================== edits

/-- Why an edit was refused. -/
inductive EditCause where
  /-- No delta can be computed over a malformed range. -/
  | unappliable (range : Range)
  /-- A document was given a malformed range. -/
  | malformed (range : Range)
  /-- Two ranges of one batch overlap; the one further up first. -/
  | overlapping (upper lower : Range)
  /-- A cause given in words. -/
  | described (words : String)
  deriving DecidableEq, Repr

/-- The words for a refused edit, without its place. -/
def EditCause.words : EditCause → String
  | .unappliable r => "cannot apply change over malformed range " ++ r.text
  | .malformed r => "malformed change range " ++ r.text
  | .overlapping upper lower =>
    "overlapping changes " ++ upper.text ++ " and " ++ lower.text
  | .described words => words

/-- A refused edit: the cause, and the line and column at fault where
they are known. -/
structure EditFault where
  cause : EditCause
  line : Option Int
  column : Option Int
  deriving DecidableEq, Repr

namespace EditFault

/-- A cause at a position. -/
def located (cause : EditCause) (p : Position) : EditFault :=
  ⟨cause, some p.line, some p.column⟩

/-- The place in front of a message: the line, and the column if both
are known. A column without a line is not shown. -/
def place (e : EditFault) : String :=
  match e.line, e.column with
  | none, _ => ""
  | some line, none => toString line ++ " "
  | some line, some column => toString line ++ ":" ++ toString column ++ " "

/-- The message, its place in front. -/
def message (e : EditFault) : String := e.place ++ e.cause.words

end EditFault

-- =========================================================== grammars

/-- Why a grammar does not build. -/
inductive GrammarCause where
  /-- A pattern was refused, for a reason given in words. -/
  | invalidPattern (pattern reason : String)
  /-- Two different blocks have one name. -/
  | duplicateBlock (name : String)
  /-- An inclusion names no block. -/
  | unknownInclude (name : String)
  /-- A cause given in words. -/
  | described (words : String)
  deriving DecidableEq, Repr

/-- The words for a grammar's cause. -/
def GrammarCause.words : GrammarCause → String
  | .invalidPattern pattern reason =>
    "invalid pattern " ++ Text.quoted pattern ++ ": " ++ reason
  | .duplicateBlock name => "duplicate block name " ++ Text.quoted name
  | .unknownInclude name => "include of unknown block " ++ Text.quoted name
  | .described words => words

/-- A grammar that does not build: its scope, and the cause. -/
structure GrammarFault where
  scope : String
  cause : GrammarCause
  deriving DecidableEq, Repr

/-- The message, naming the grammar's scope. -/
def GrammarFault.message (e : GrammarFault) : String :=
  "Grammar '" ++ e.scope ++ "': " ++ e.cause.words

-- ============================================================= faults

/-- What can go wrong while documents are edited and tokenized. -/
inductive Fault where
  | edit (e : EditFault)
  | grammar (e : GrammarFault)
  /-- A tokenizer answered a token out of order. -/
  | disorder (t : Token)
  /-- A line was asked for that a document of `count` lines lacks. -/
  | noLine (line : Int) (count : Nat)
  /-- A state was to be stored before the first line. -/
  | noEntry
  /-- A block was looked up that the grammar lacks. -/
  | noBlock (name : String)
  /-- A tokenizer or a listener failed, in its own words. -/
  | failed (words : String)
  deriving DecidableEq, Repr

/-- The message for a fault. -/
def Fault.message : Fault → String
  | .edit e => e.message
  | .grammar e => e.message
  | .disorder t => "token spans out of order: " ++ t.text
  | .noLine line count =>
    "line " ++ toString line ++ " out of range (0.."
      ++ toString ((count : Int) - 1) ++ ")"
  | .noEntry => "list index out of range"
  | .noBlock name => "no block " ++ Text.quoted name
  | .failed words => words

end Relex
