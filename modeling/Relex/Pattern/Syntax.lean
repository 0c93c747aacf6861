/-
The shape of patterns: regular expressions with captures, references to
captures, looks ahead and behind, anchors, and greedy, lazy and atomic
repetition. `Pattern.Reader` makes them of text, `Pattern.Matching`
says what they match.

Characters in sets are kept as code points, for an escape may name a
code point that is no character.
-/
import Relex.Unicode.Alphanumeric
import Relex.Unicode.Decimal
import Relex.Unicode.Space

namespace Relex.Pattern

-- ====================================================== character sets

/-- The named classes of characters. -/
inductive CharClass where
  /-- Decimal digits of any script. -/
  | digit
  /-- White space. -/
  | space
  /-- Letters, numbers and the underscore. -/
  | word
  deriving DecidableEq, Repr

/-- Is the character in the class? -/
def CharClass.holds : CharClass → Char → Bool
  | .digit, c => Unicode.isDecimal c
  | .space, c => Unicode.isSpace c
  | .word, c => Unicode.isAlphanumeric c || c = '_'

/-- A part of a character set: a range of code points, or a class or
what is outside it. -/
inductive SetPart where
  | range (first last : Nat)
  | named (kind : CharClass) (outside : Bool)
  deriving DecidableEq, Repr

/-- A part that is one code point. -/
def SetPart.single (code : Nat) : SetPart := .range code code

/-- Is the character in the part? -/
def SetPart.holds : SetPart → Char → Bool
  | .range first last, c => first ≤ c.toNat && c.toNat ≤ last
  | .named kind outside, c => kind.holds c != outside

/-- A character set: some parts, or all that is outside them. -/
structure CharSet where
  outside : Bool
  parts : List SetPart
  deriving DecidableEq, Repr

/-- Is the character in the set? -/
def CharSet.holds (s : CharSet) (c : Char) : Bool :=
  s.parts.any (·.holds c) != s.outside

/-- The set of one code point. -/
def CharSet.single (code : Nat) : CharSet := ⟨false, [.single code]⟩

/-- The set of one class, or of what is outside it. -/
def CharSet.named (kind : CharClass) (outside : Bool) : CharSet :=
  ⟨false, [.named kind outside]⟩

/-- Everything but the line feed. -/
def CharSet.anyButBreak : CharSet := ⟨true, [.single 0x0a]⟩

-- =========================================================== patterns

/-- Conditions on a place between two characters. -/
inductive Anchor where
  /-- The start of the text. -/
  | start
  /-- The end of the text, or a line feed that ends it. -/
  | finish
  /-- The end of the text. -/
  | veryEnd
  /-- A word character on one side only. -/
  | wordEdge
  /-- Word characters on both sides, or on neither. -/
  | noWordEdge
  deriving DecidableEq, Repr

/-- A pattern. -/
inductive Node where
  /-- The empty text. -/
  | empty
  /-- One character of a set. -/
  | set (s : CharSet)
  /-- A condition on the place. -/
  | anchor (a : Anchor)
  /-- One after the other. -/
  | seq (first second : Node)
  /-- The first, or else the second. -/
  | alt (first second : Node)
  /-- Repetition, at least and at most so many times; as often as
  possible first if greedy, as rarely as possible first if not. -/
  | loop (least : Nat) (most : Option Nat) (greedy : Bool) (body : Node)
  /-- What the body matches is captured under a number. -/
  | capture (group : Nat) (body : Node)
  /-- What was captured under a number, once more. -/
  | again (group : Nat)
  /-- The body matches from here, or does not. -/
  | ahead (negated : Bool) (body : Node)
  /-- The body matches from so many characters back, or does not. -/
  | behind (width : Nat) (negated : Bool) (body : Node)
  /-- The body's first match, and none of its others. -/
  | atomic (body : Node)
  deriving DecidableEq, Repr, Inhabited

-- ============================================================= widths

/-- How many characters matches have, at least and at most. -/
structure Width where
  least : Nat
  most : Option Nat
  deriving DecidableEq, Repr, Inhabited

namespace Width

/-- Exactly so many. -/
def exactly (n : Nat) : Width := ⟨n, some n⟩

/-- Do all matches have one length? -/
def isEven (w : Width) : Bool := w.most = some w.least

/-- One after the other. -/
def append (v w : Width) : Width :=
  ⟨v.least + w.least, do return (← v.most) + (← w.most)⟩

/-- One or the other. -/
def join (v w : Width) : Width :=
  ⟨min v.least w.least, do return max (← v.most) (← w.most)⟩

/-- Repeated. Nothing, repeated without bound, is still nothing, and so
is anything repeated not at all. -/
def times (w : Width) (least : Nat) (most : Option Nat) : Width :=
  ⟨w.least * least,
    if w.most = some 0 ∨ most = some 0 then some 0
    else do return (← w.most) * (← most)⟩

end Width

end Relex.Pattern
