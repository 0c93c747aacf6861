/-
Escapes and character sets, as patterns write them.

An escape is a backslash and a character. Some letters stand for control
characters and some for classes; some open a code point in hexadecimal,
and digits one in octal. Any other letter or digit after a backslash is
refused, and any other character stands for itself.
-/
import Relex.Pattern.Glyph
import Relex.Pattern.Syntax

namespace Relex.Pattern

open Input (fault)

-- ============================================================ escapes

/-- The controls that have a letter of their own. -/
def controlOf? : Char → Option Nat
  | 'a' => some 0x07
  | 'f' => some 0x0c
  | 'n' => some 0x0a
  | 'r' => some 0x0d
  | 't' => some 0x09
  | 'v' => some 0x0b
  | '\\' => some 0x5c
  | _ => none

/-- The classes that have a letter of their own. -/
def classOf? : Char → Option (CharClass × Bool)
  | 'd' => some (.digit, false)
  | 'D' => some (.digit, true)
  | 's' => some (.space, false)
  | 'S' => some (.space, true)
  | 'w' => some (.word, false)
  | 'W' => some (.word, true)
  | _ => none

/-- How many digits a code point escape has. -/
def codeDigits? : Char → Option Nat
  | 'x' => some 2
  | 'u' => some 4
  | 'U' => some 8
  | _ => none

/-- Reads an escape that gives a code point in hexadecimal. -/
def readCode (inp : Input) (g : Glyph) (digits : Nat)
    (rest : List Glyph) : Except Fault (Nat × Rest rest) := do
  let (cs, left) ← inp.takeWhile isHexadecimal digits rest
  let written := g.written ++ cs
  if cs.length < digits then fault (.incompleteEscape written) g.place
  else if 0x10ffff < numeral 16 cs then fault (.badEscape written) g.place
  else return (numeral 16 cs, left)

/-- The code point of an octal escape, of which these are the digits. -/
def octalCode (g : Glyph) (digits : List Char) : Except Fault Nat :=
  if 0xff < numeral 8 digits then
    fault (.octalAboveByte ('\\' :: digits)) g.place
  else .ok (numeral 8 digits)

/-- A character that a backslash leaves as it is: any but a letter or a
digit. -/
def literalCode (g : Glyph) : Except Fault Nat :=
  if g.char.isAlphanum then fault (.badEscape g.written) g.place
  else .ok g.char.toNat

-- =============================================================== sets

/-- Reads an escape inside a set. -/
def readSetEscape (inp : Input) (g : Glyph) (rest : List Glyph) :
    Except Fault (SetPart × Rest rest) := do
  if let some (kind, outside) := classOf? g.char then
    return (.named kind outside, ⟨rest, rest_refl rest⟩)
  else if let some code := controlOf? g.char then
    return (.single code, ⟨rest, rest_refl rest⟩)
  else if g.char = 'b' then
    return (.single 0x08, ⟨rest, rest_refl rest⟩)
  else if let some digits := codeDigits? g.char then
    let (code, left) ← readCode inp g digits rest
    return (.single code, left)
  else if isOctal g.char then
    let (cs, left) ← inp.takeWhile isOctal 2 rest
    return (.single (← octalCode g (g.char :: cs)), left)
  else
    return (.single (← literalCode g), ⟨rest, rest_refl rest⟩)

/-- Reads a glyph inside a set. -/
def readSetGlyph (inp : Input) (g : Glyph) (rest : List Glyph) :
    Except Fault (SetPart × Rest rest) :=
  if g.escaped then readSetEscape inp g rest
  else .ok (.single g.char.toNat, ⟨rest, rest_refl rest⟩)

/-- The range between two parts, if each is one code point. -/
def rangeBetween? : SetPart → SetPart → Option SetPart
  | .range a _, .range b _ => if a ≤ b then some (.range a b) else none
  | _, _ => none

/-- Reads the parts of a set up to its closing bracket. A bracket that
would leave the set empty stands for itself, and so does a hyphen in
front of the closing one. `parts` are those read so far, and `place` is
where the set was opened. -/
def readParts (inp : Input) (place : Nat) (parts : List SetPart) :
    (gs : List Glyph) → Except Fault (List SetPart × Rest gs)
  | [] => fault .unterminatedSet place
  | g :: gs => do
    inp.passed gs
    if g.isPlain ']' && !parts.isEmpty then
      return (parts, ⟨gs, Nat.le_succ _⟩)
    let (first, ⟨rest, h⟩) ← readSetGlyph inp g gs
    let (hyphen, ⟨rest', h'⟩) ← inp.takePlain '-' rest
    if hyphen then
      match hr : rest' with
      | [] => fault .unterminatedSet place
      | last :: rest'' =>
        have hn : rest''.length ≤ rest'.length := rest_tail hr
        inp.passed rest''
        if last.isPlain ']' then
          return (parts ++ [first, .single 0x2d],
            ⟨rest'', by simp only [List.length_cons]; omega⟩)
        let (second, ⟨after, h''⟩) ← readSetGlyph inp last rest''
        match rangeBetween? first second with
        | none =>
          fault (.badRange g.written last.written)
            (inp.place after - (g.written.length + 1
              + last.written.length))
        | some part =>
          let (parts, ⟨left, h₃⟩) ←
            readParts inp place (parts ++ [part]) after
          return (parts,
            ⟨left, by simp only [List.length_cons]; omega⟩)
    else
      let (parts, ⟨left, h₃⟩) ←
        readParts inp place (parts ++ [first]) rest'
      return (parts, ⟨left, by simp only [List.length_cons]; omega⟩)
termination_by gs => gs.length
decreasing_by all_goals (simp only [List.length_cons]; omega)

/-- Reads a set, the opening bracket taken. -/
def readSet (inp : Input) (place : Nat) (gs : List Glyph) :
    Except Fault (CharSet × Rest gs) := do
  let (outside, ⟨rest, h⟩) ← inp.takePlain '^' gs
  let (parts, ⟨left, h'⟩) ← readParts inp place [] rest
  return (⟨outside, parts⟩, ⟨left, rest_trans h' h⟩)

end Relex.Pattern
