/-
What can be wrong with a pattern: the causes for which reading refuses a
pattern, where in the pattern each was met, and the words for it.
-/
namespace Relex.Pattern

/-- Why a pattern was refused. -/
inductive Cause where
  /-- A group has no closing parenthesis. -/
  | unterminatedGroup
  /-- A closing parenthesis closes nothing. -/
  | unbalancedParenthesis
  /-- A character set has no closing bracket. -/
  | unterminatedSet
  /-- A quantifier has nothing in front of it, or an anchor. -/
  | nothingToRepeat
  /-- A quantifier follows a quantifier. -/
  | multipleRepeat
  /-- The least number of repetitions is above the greatest. -/
  | minAboveMax
  /-- The pattern ends in a lone backslash. -/
  | escapeAtEnd
  /-- No such escape; the escape as written. -/
  | badEscape (written : List Char)
  /-- A code point escape with too few digits; the escape as written. -/
  | incompleteEscape (written : List Char)
  /-- An octal escape above 0o377; the escape as written. -/
  | octalAboveByte (written : List Char)
  /-- A range of characters that runs backwards, or to or from a class;
  its two ends as written. -/
  | badRange (first last : List Char)
  /-- The pattern ends inside the head of a group. -/
  | unexpectedEnd
  /-- No such kind of group; what follows the question mark. -/
  | unknownExtension (written : List Char)
  /-- A reference to a group that has not been opened. -/
  | invalidReference (group : Nat)
  /-- A reference to a group from inside it. -/
  | openReference
  /-- A reference to a group of the lookbehind it stands in. -/
  | lookbehindReference
  /-- A lookbehind whose matches differ in length. -/
  | unevenLookbehind
  deriving DecidableEq, Repr

/-- The words for a cause. -/
def Cause.words : Cause → String
  | .unterminatedGroup => "missing ), unterminated subpattern"
  | .unbalancedParenthesis => "unbalanced parenthesis"
  | .unterminatedSet => "unterminated character set"
  | .nothingToRepeat => "nothing to repeat"
  | .multipleRepeat => "multiple repeat"
  | .minAboveMax => "min repeat greater than max repeat"
  | .escapeAtEnd => "bad escape (end of pattern)"
  | .badEscape w => "bad escape " ++ String.ofList w
  | .incompleteEscape w => "incomplete escape " ++ String.ofList w
  | .octalAboveByte w =>
    "octal escape value " ++ String.ofList w ++ " outside of range 0-0o377"
  | .badRange a b =>
    "bad character range " ++ String.ofList a ++ "-" ++ String.ofList b
  | .unexpectedEnd => "unexpected end of pattern"
  | .unknownExtension w => "unknown extension ?" ++ String.ofList w
  | .invalidReference n => "invalid group reference " ++ toString n
  | .openReference => "cannot refer to an open group"
  | .lookbehindReference =>
    "cannot refer to group defined in the same lookbehind subpattern"
  | .unevenLookbehind => "look-behind requires fixed-width pattern"

/-- A refused pattern: the cause, and where in the pattern it was met,
unless the pattern as a whole is at fault. -/
structure Fault where
  cause : Cause
  place : Option Nat
  deriving DecidableEq, Repr

/-- The line of an offset and the column in it, both from one, where
only a line feed ends a line. -/
def lineAndColumn (pattern : List Char) (place : Nat) : Nat × Nat :=
  let before := pattern.take place
  (before.count '\n' + 1,
    (before.reverse.takeWhile (· ≠ '\n')).length + 1)

/-- The message for a refused pattern. The place is added where there is
one, and its line and column where the pattern has several lines. -/
def Fault.message (pattern : List Char) (f : Fault) : String :=
  match f.place with
  | none => f.cause.words
  | some place =>
    let message := f.cause.words ++ " at position " ++ toString place
    if '\n' ∈ pattern then
      let (line, column) := lineAndColumn pattern place
      message ++ " (line " ++ toString line ++ ", column "
        ++ toString column ++ ")"
    else message

end Relex.Pattern
