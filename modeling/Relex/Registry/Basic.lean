/-
The registry: grammars by their scope, and languages by their
identifiers.

Grammars come from the host, which registers them, or from a loader. The
registry keeps apart which scopes a loader provided, so that these can
be forgotten and loaded again. Tokenizers are built when they are first
asked for, and kept until the grammar is replaced; their patterns are
compiled by the registry's compiler.
-/
import Relex.Grammar.Lexer
import Relex.Table

namespace Relex

/-- A tokenizer built from a grammar: its lexer, and the number that
tells it from every other tokenizer. -/
structure GrammarTokenizer where
  serial : Nat
  lexer : Grammar.Lexer

namespace GrammarTokenizer

/-- The tokenizer for a controller to use. -/
def toTokenizer (t : GrammarTokenizer) : Engine.Tokenizer :=
  ⟨t.serial, t.lexer.engine⟩

end GrammarTokenizer

/-- The compiler of patterns, grammars and tokenizers by scope, the scopes
a loader provided, the scope of each language, and how many tokenizers
were made. -/
structure Registry where
  compiler : Pattern.Compiler
  grammars : Table Grammar
  loaded : List String
  languages : Table String
  tokenizers : Table GrammarTokenizer
  issued : Nat

namespace Registry

/-- Nothing is registered. -/
def empty (compiler : Pattern.Compiler := Pattern.compile) : Registry :=
  ⟨compiler, .empty, [], .empty, .empty, 0⟩

-- ======================================================== registering

/-- Registers a grammar, in place of one of the same scope, whose
tokenizer is forgotten. Its languages are mapped to its scope, unless
they are mapped already. -/
def register (r : Registry) (g : Grammar) : Registry :=
  { r with
    grammars := r.grammars.insert g.scope g
    tokenizers := r.tokenizers.erase g.scope
    languages := g.languageIds.foldl
      (fun languages id => languages.insertNew id g.scope) r.languages }

/-- Registers a grammar that a loader provided. -/
def registerLoaded (r : Registry) (g : Grammar) : Registry :=
  let r := r.register g
  { r with
    loaded := if g.scope ∈ r.loaded then r.loaded
      else r.loaded ++ [g.scope] }

/-- Maps a language to a scope, in place of the one it may have. -/
def mapLanguage (r : Registry) (language scope : String) : Registry :=
  { r with languages := r.languages.insert language scope }

/-- Forgets the grammars of the scopes a loader provided, and all
tokenizers. -/
def forgetLoaded (r : Registry) : Registry :=
  { r with
    grammars := r.loaded.foldl (fun grammars s => grammars.erase s)
      r.grammars
    loaded := []
    tokenizers := .empty }

-- ============================================================ looking

/-- The scope of a language. -/
def scopeOf? (r : Registry) (language : String) : Option String :=
  r.languages.get? language

/-- The grammar of a scope, if it is known. -/
def get? (r : Registry) (scope : String) : Option Grammar :=
  r.grammars.get? scope

/-- Is the grammar of the scope known? -/
def has (r : Registry) (scope : String) : Bool := r.grammars.has scope

/-- The scopes whose grammars are known. -/
def scopes (r : Registry) : List String := r.grammars.names

/-- How many grammars are known. -/
def size (r : Registry) : Nat := r.grammars.size

-- ========================================================= tokenizers

/-- A number no tokenizer has yet. -/
def issue (r : Registry) : Nat × Registry :=
  (r.issued, { r with issued := r.issued + 1 })

/-- The tokenizer for a scope, made from this grammar unless there is
one already. -/
def tokenizer (r : Registry) (scope : String) (g : Grammar) :
    Except GrammarFault (GrammarTokenizer × Registry) :=
  match r.tokenizers.get? scope with
  | some t => .ok (t, r)
  | none =>
    match Grammar.Lexer.build g r.compiler with
    | .error e => .error e
    | .ok lexer =>
      let (serial, r) := r.issue
      let t : GrammarTokenizer := ⟨serial, lexer⟩
      .ok (t, { r with tokenizers := r.tokenizers.insert scope t })

end Registry

end Relex
