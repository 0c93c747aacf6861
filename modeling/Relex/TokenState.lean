/-
Line states: what a tokenizer carries from the end of one line into the
next. To everything but the tokenizer that made it a state is opaque:
all that is ever asked of two states is whether they are equal. States
of different kinds are never equal; states of one kind are equal when
their values are.

The initial state, in which the first line of a document is entered, is
`none`. It is a state like any other and a tokenizer may return to it.
-/
namespace Relex

-- ======================================================= block stacks

/-- The names of the blocks open at the end of a line, outermost
first. -/
structure BlockStack where
  frames : List String
  deriving DecidableEq, Inhabited, Repr

namespace BlockStack

/-- How many blocks are open. -/
def depth (s : BlockStack) : Nat := s.frames.length

/-- The innermost open block. -/
def top (s : BlockStack) : Option String := s.frames.getLast?

/-- Opens a block inside the others. -/
def push (s : BlockStack) (name : String) : BlockStack :=
  ⟨s.frames ++ [name]⟩

/-- Closes the innermost block, if any is open. -/
def pop (s : BlockStack) : BlockStack := ⟨s.frames.dropLast⟩

end BlockStack

-- ============================================================= states

/-- A tokenizer state at a line's end. -/
inductive TokenState where
  | none
  | number (n : Int)
  | text (s : String)
  | tuple (parts : List TokenState)
  | stack (s : BlockStack)
  deriving Inhabited, Repr

namespace TokenState

mutual

/-- Are two states equal? -/
def decEq : (a b : TokenState) → Decidable (a = b)
  | .none, .none => isTrue rfl
  | .number m, .number n => decidable_of_iff (m = n) (by simp)
  | .text s, .text t => decidable_of_iff (s = t) (by simp)
  | .stack s, .stack t => decidable_of_iff (s = t) (by simp)
  | .tuple xs, .tuple ys =>
    match decEqParts xs ys with
    | isTrue h => isTrue (by rw [h])
    | isFalse h => isFalse fun e => h (TokenState.tuple.inj e)
  | .none, .number _ | .none, .text _ | .none, .tuple _ | .none, .stack _
  | .number _, .none | .number _, .text _ | .number _, .tuple _
  | .number _, .stack _ | .text _, .none | .text _, .number _
  | .text _, .tuple _ | .text _, .stack _ | .tuple _, .none
  | .tuple _, .number _ | .tuple _, .text _ | .tuple _, .stack _
  | .stack _, .none | .stack _, .number _ | .stack _, .text _
  | .stack _, .tuple _ => isFalse (by simp)

/-- Are two tuples of states equal, part by part? -/
def decEqParts : (xs ys : List TokenState) → Decidable (xs = ys)
  | [], [] => isTrue rfl
  | [], _ :: _ => isFalse (by simp)
  | _ :: _, [] => isFalse (by simp)
  | x :: xs, y :: ys =>
    match decEq x y, decEqParts xs ys with
    | isTrue h, isTrue h' => isTrue (by rw [h, h'])
    | isFalse h, _ => isFalse fun e => h (List.cons.inj e).1
    | _, isFalse h => isFalse fun e => h (List.cons.inj e).2

end

instance : DecidableEq TokenState := decEq

end TokenState

end Relex
