/-
The lexer of a grammar: an engine that tokenizes lines by the grammar's
rules.

At each place the leftmost match wins. The closing pattern of the
innermost open block comes first, so it wins a tie against the block's
rules; among those the one listed first wins. What no rule matches
becomes a token with the scopes of the open blocks. Rules have to match
at least one character; a closing pattern may match none.

Each step moves on by a character or closes a block, so a line of `n`
characters entered with `d` blocks open takes at most `2 n + d` steps.

What patterns mean is up to the compiler that a lexer is built with.
-/
import Relex.Engine
import Relex.Grammar.Basic
import Relex.Pattern.Reader

namespace Relex.Grammar

open Pattern (Compiler Matcher Span)

-- =========================================================== building

/-- A rule ready to be tried: where it matches, and what happens
there. -/
structure Candidate where
  matcher : Matcher
  action : Action

/-- A block ready to be entered: how it is closed, and the rules that
hold inside. -/
structure Context where
  block : Block
  closing : Matcher
  candidates : List Candidate

/-- A grammar ready to tokenize lines: the rules outside of all blocks,
and the blocks. -/
structure Lexer where
  grammar : Grammar
  root : List Candidate
  contexts : List Context

namespace Lexer

/-- The matcher of a pattern of the grammar. -/
def compile (g : Grammar) (compiler : Compiler) (pattern : String) :
    Except GrammarFault Matcher :=
  match compiler pattern with
  | .ok matcher => .ok matcher
  | .error reason => .error ⟨g.scope, .invalidPattern pattern reason⟩

/-- Rules ready to be tried, in order. -/
def candidates (g : Grammar) (compiler : Compiler) (blocks : List Block)
    (rules : List Rule) : Except GrammarFault (List Candidate) := do
  (← g.resolved blocks rules).mapM fun (pattern, action) => do
    return ⟨← compile g compiler pattern, action⟩

/-- The lexer of a grammar, or why there is none: two different blocks
of one name, an inclusion of an unknown block, or a pattern that the
compiler refuses. Patterns are read as they are written, if no other
compiler is given. -/
def build (g : Grammar) (compiler : Compiler := Pattern.compile) :
    Except GrammarFault Lexer := do
  let blocks ← g.blocks
  let closings ← blocks.mapM fun b => compile g compiler b.closing
  let root ← candidates g compiler blocks g.rules
  let contexts ← (blocks.zip closings).mapM fun (b, closing) => do
    return ⟨b, closing, ← candidates g compiler blocks b.rules⟩
  return ⟨g, root, contexts⟩

/-- The block of a name, ready to be entered. -/
def context? (lx : Lexer) (name : String) : Option Context :=
  lx.contexts.find? (·.block.name = name)

/-- The lexer as messages name it. -/
def describe (lx : Lexer) : String :=
  "RuleTokenizer(" ++ Text.quoted lx.grammar.scope ++ ", blocks="
    ++ toString lx.contexts.length ++ ")"

end Lexer

-- =============================================================== hits

/-- A match in a text, at or after a place, with `depth` blocks open: an
open block is closed, or a rule's action happens. A closing match may be
empty, but needs an open block; any other is not empty. -/
structure Hit (size pos depth : Nat) where
  span : Span size pos
  /-- What happens; none if the innermost block is closed. -/
  action : Option Action
  moves : if action.isSome then span.start < span.stop else 0 < depth

namespace Hit

variable {size pos depth : Nat}

/-- The one of two hits that starts first; of two that start at one
place, the one found first. -/
def earlier (found : Option (Hit size pos depth))
    (next : Option (Hit size pos depth)) : Option (Hit size pos depth) :=
  match found, next with
  | none, next => next
  | found, none => found
  | some a, some b => if b.span.start < a.span.start then some b else some a

end Hit

/-- Where a candidate matches first. -/
def Candidate.hit? (c : Candidate) (text : Array Char) (pos depth : Nat) :
    Option (Hit text.size pos depth) :=
  (c.matcher.searchNonEmpty text pos).map fun ⟨span, h⟩ =>
    ⟨span, some c.action, by simpa using h⟩

/-- Where the innermost open block can be closed first. -/
def Context.hit? (c : Context) (text : Array Char) (pos depth : Nat) :
    Option (Hit text.size pos (depth + 1)) :=
  (c.closing.search text pos).map fun span => ⟨span, none, by simp⟩

namespace Lexer

/-- The hit to be taken from a place on, with some blocks open, the
innermost first. -/
def hit? (lx : Lexer) (text : Array Char) (pos : Nat) :
    (frames : List Context) → Option (Hit text.size pos frames.length)
  | [] => lx.root.foldl
    (fun found c => Hit.earlier found (c.hit? text pos _)) none
  | top :: below => top.candidates.foldl
    (fun found c => Hit.earlier found (c.hit? text pos _))
    (top.hit? text pos below.length)

-- ========================================================= tokenizing

/-- The scopes inside some open blocks, the innermost first. -/
def scopes (lx : Lexer) (frames : List Context) : List String :=
  lx.grammar.scope :: frames.reverse.map (·.block.scope)

/-- The token from one place to another; none if it were empty. -/
def piece (start stop : Nat) (scopes : List String) : List Token :=
  if start < stop then [⟨start, stop, scopes⟩] else []

/-- Tokenizes the rest of a line from a place on, with some blocks open,
the innermost first. Answers the tokens, and the blocks open at the
end. -/
def run (lx : Lexer) (text : Array Char) (pos : Nat)
    (frames : List Context) : Except Fault (List Token × List Context) :=
  match lx.hit? text pos frames with
  | none => .ok (piece pos text.size (lx.scopes frames), frames)
  | some ⟨span, action, _moves⟩ =>
    let before := piece pos span.start (lx.scopes frames)
    match action with
    | none => do
      let within := piece span.start span.stop (lx.scopes frames)
      let (tokens, last) ← lx.run text span.stop frames.tail
      return (before ++ within ++ tokens, last)
    | some (.classify scope) => do
      let within :=
        piece span.start span.stop (lx.scopes frames ++ [scope])
      let (tokens, last) ← lx.run text span.stop frames
      return (before ++ within ++ tokens, last)
    | some (.enter name) =>
      match lx.context? name with
      | none => .error (.noBlock name)
      | some c => do
        let within := piece span.start span.stop (lx.scopes (c :: frames))
        let (tokens, last) ← lx.run text span.stop (c :: frames)
        return (before ++ within ++ tokens, last)
termination_by 2 * (text.size - pos) + frames.length
decreasing_by
  all_goals
    have := span.pos_le_start
    have := span.start_le_stop
    have := span.stop_le_size
    simp at _moves
  · rw [List.length_tail]
    omega
  · omega
  · rw [List.length_cons]
    omega

/-- The open blocks a state tells of, the innermost first. Names of
blocks the grammar lacks are passed over; any state but a stack tells of
none. -/
def entered (lx : Lexer) : TokenState → List Context
  | .stack s => (s.frames.filterMap lx.context?).reverse
  | _ => []

/-- The state that tells of some open blocks, the innermost first. -/
def left (frames : List Context) : TokenState :=
  .stack ⟨frames.reverse.map (·.block.name)⟩

/-- The engine of the lexer. A line that gives no token gets one that is
empty. -/
def engine (lx : Lexer) : Engine := fun line entering => do
  let (tokens, frames) ← lx.run line.toArray 0 (lx.entered entering)
  let tokens :=
    if tokens.isEmpty then [⟨0, 0, lx.scopes frames⟩] else tokens
  Engine.answer tokens (left frames)

end Lexer

end Relex.Grammar
