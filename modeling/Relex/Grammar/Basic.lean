/-
Grammars: rules for tokenizing the lines of one language.

A single rule classifies a match within a line. A block opens where its
opening pattern matches and lasts, over lines if need be, until its
closing pattern does; inside it, rules of its own hold. An inclusion
stands for another block of the grammar, wherever in the grammar that is
written, or for the grammar's own rules; so blocks can nest, also in
themselves.
-/
import Relex.Fault

namespace Relex

-- ============================================================== rules

/-- A rule of a grammar. -/
inductive Rule where
  /-- A match of the pattern gets the scope. -/
  | single (pattern scope : String)
  /-- A region from an opening to a closing match gets the scope, its
  ends included; the rules hold inside. -/
  | block (name opening closing scope : String) (rules : List Rule)
  /-- The block of the name stands here, or the grammar's own rules. -/
  | inclusion (name : String)
  deriving Inhabited, Repr

namespace Rule

mutual

/-- Are two rules equal, the rules inside them included? -/
def decEq : (a b : Rule) → Decidable (a = b)
  | .single p s, .single p' s' =>
    decidable_of_iff (p = p' ∧ s = s') (by simp)
  | .inclusion n, .inclusion n' => decidable_of_iff (n = n') (by simp)
  | .block n o c s rs, .block n' o' c' s' rs' =>
    match decEqAll rs rs' with
    | isTrue h => decidable_of_iff (n = n' ∧ o = o' ∧ c = c' ∧ s = s')
      (by simp [h])
    | isFalse h => isFalse fun e => h (Rule.block.inj e).2.2.2.2
  | .single _ _, .block .. | .single _ _, .inclusion _
  | .block .., .single _ _ | .block .., .inclusion _
  | .inclusion _, .single _ _ | .inclusion _, .block .. =>
    isFalse (by simp)

/-- Are two lists of rules equal, rule by rule? -/
def decEqAll : (as bs : List Rule) → Decidable (as = bs)
  | [], [] => isTrue rfl
  | [], _ :: _ => isFalse (by simp)
  | _ :: _, [] => isFalse (by simp)
  | a :: as, b :: bs =>
    match decEq a b, decEqAll as bs with
    | isTrue h, isTrue h' => isTrue (by rw [h, h'])
    | isFalse h, _ => isFalse fun e => h (List.cons.inj e).1
    | _, isFalse h => isFalse fun e => h (List.cons.inj e).2

end

instance : DecidableEq Rule := decEq

/-- The inclusion of this name stands for the grammar's own rules. -/
def selfName : String := "$self"

end Rule

-- =========================================================== grammars

/-- The rules for one language. -/
structure Grammar where
  /-- The scope all tokens have, and the name the grammar goes by. -/
  scope : String
  /-- The rules outside of all blocks. -/
  rules : List Rule
  /-- The languages, by their identifiers, the grammar is for. -/
  languageIds : List String
  /-- A name for people. -/
  name : String
  deriving DecidableEq, Inhabited, Repr

-- ============================================================= blocks

/-- A block of a grammar. -/
structure Block where
  name : String
  opening : String
  closing : String
  scope : String
  rules : List Rule
  deriving DecidableEq, Inhabited, Repr

namespace Grammar

mutual

/-- Adds the blocks in a rule to those known, an outer one before those
inside it. A block may be written more than once, if always the same. -/
def collect (scope : String) (known : List Block) :
    Rule → Except GrammarFault (List Block)
  | .single _ _ => .ok known
  | .inclusion _ => .ok known
  | .block name opening closing blockScope rules =>
    let block : Block := ⟨name, opening, closing, blockScope, rules⟩
    match known.find? (·.name = name) with
    | none => collectAll scope (known ++ [block]) rules
    | some same =>
      if same = block then .ok known
      else .error ⟨scope, .duplicateBlock name⟩

/-- Adds the blocks in some rules to those known. -/
def collectAll (scope : String) (known : List Block) :
    List Rule → Except GrammarFault (List Block)
  | [] => .ok known
  | rule :: rest =>
    match collect scope known rule with
    | .error e => .error e
    | .ok known => collectAll scope known rest

end

/-- All blocks of the grammar, each name once. -/
def blocks (g : Grammar) : Except GrammarFault (List Block) :=
  collectAll g.scope [] g.rules

-- ========================================================= inclusions

/-- What happens where a rule's pattern matches. -/
inductive Action where
  /-- The match gets one more scope. -/
  | classify (scope : String)
  /-- A block is entered. -/
  | enter (name : String)
  deriving DecidableEq, Repr

/-- Rules with their inclusions resolved: patterns, and what happens
where they match. `self` are the grammar's own rules. -/
def resolve (scope : String) (blocks : List Block)
    (self : Except GrammarFault (List (String × Action))) :
    List Rule → Except GrammarFault (List (String × Action))
  | [] => .ok []
  | rule :: rest => do
    let first ← match rule with
      | .single pattern scope => .ok [(pattern, .classify scope)]
      | .block name opening _ _ _ => .ok [(opening, .enter name)]
      | .inclusion name =>
        if name = Rule.selfName then self
        else match blocks.find? (·.name = name) with
          | some b => .ok [(b.opening, .enter name)]
          | none => .error ⟨scope, .unknownInclude name⟩
    let others ← resolve scope blocks self rest
    return first ++ others

/-- Some rules of the grammar with their inclusions resolved. Where the
grammar's own rules include themselves, that adds nothing. -/
def resolved (g : Grammar) (blocks : List Block) (rules : List Rule) :
    Except GrammarFault (List (String × Action)) :=
  resolve g.scope blocks (resolve g.scope blocks (.ok []) g.rules) rules

end Grammar

end Relex
