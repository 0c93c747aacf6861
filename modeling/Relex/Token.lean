/-
Tokens: the classified spans of one line, and what a tokenizer answers
for a line.

An answer's spans are in order: each starts at or after the one before
it and ends at or after its own start, and none starts before column
zero. They may overlap, be empty, leave gaps, and run past the line. The
order is part of the type `LineResult`; `LineResult.check` is how an
answer is made of tokens that come from outside.
-/
import Relex.TokenState
import Relex.Text.Quoted

namespace Relex

-- ============================================================= tokens

/-- A span of columns, the first inside it and the last outside, with
its classification, outermost first. -/
structure Token where
  start : Int
  stop : Int
  scopes : List String
  deriving DecidableEq, Inhabited, Repr

namespace Token

/-- How many columns the token spans. -/
def length (t : Token) : Int := t.stop - t.start

/-- Does the span hold the column? -/
def covers (t : Token) (column : Int) : Bool :=
  t.start ≤ column ∧ column < t.stop

/-- Written with its span and its scopes. -/
def text (t : Token) : String :=
  "Token(" ++ toString t.start ++ ":" ++ toString t.stop ++ ", "
    ++ Text.quoted (" ".intercalate t.scopes) ++ ")"

/-- The first token whose span holds the column. -/
def at? (tokens : List Token) (column : Int) : Option Token :=
  tokens.find? (·.covers column)

-- ======================================================== their order

/-- The spans are in order, none starting before `least`. -/
def Ordered (least : Int) : List Token → Prop
  | [] => True
  | t :: rest => least ≤ t.start ∧ t.start ≤ t.stop ∧ Ordered t.start rest

instance decidableOrdered :
    (least : Int) → (tokens : List Token) → Decidable (Ordered least tokens)
  | _, [] => isTrue trivial
  | least, t :: rest =>
    have := decidableOrdered t.start rest
    inferInstanceAs (Decidable (least ≤ t.start ∧ t.start ≤ t.stop ∧ _))

/-- The first token that is out of order. -/
def disorder? (least : Int) : List Token → Option Token
  | [] => none
  | t :: rest =>
    if t.start < least ∨ t.stop < t.start then some t
    else disorder? t.start rest

theorem ordered_of_disorder?_eq_none {least : Int} {tokens : List Token}
    (h : disorder? least tokens = none) : Ordered least tokens := by
  induction tokens generalizing least with
  | nil => trivial
  | cons t rest ih =>
    simp only [disorder?] at h
    split at h
    · cases h
    · exact ⟨by omega, by omega, ih h⟩

end Token

-- ==================================================== a line's answer

/-- What a tokenizer answers for a line: the tokens, and the state in
which the next line is entered. -/
structure LineResult where
  tokens : List Token
  next : TokenState
  ordered : Token.Ordered 0 tokens
  deriving DecidableEq

namespace LineResult

/-- An answer without tokens. -/
def bare (next : TokenState) : LineResult := ⟨[], next, trivial⟩

instance : Inhabited LineResult := ⟨bare .none⟩

/-- The answer made of the given tokens, or the first of them that is
out of order. -/
def check (tokens : List Token) (next : TokenState) :
    Except Token LineResult :=
  match h : Token.disorder? 0 tokens with
  | none => .ok ⟨tokens, next, Token.ordered_of_disorder?_eq_none h⟩
  | some t => .error t

end LineResult

end Relex
