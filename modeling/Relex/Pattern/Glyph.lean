/-
Glyphs: what reading a pattern takes from its text piece by piece. A
glyph is a single character, or a pair of a backslash and the character
after it.

A lone backslash at the very end is no glyph. It is met as soon as the
glyph in front of it is taken (`Input.passed`), whatever that glyph is
for.

All that takes glyphs answers with those left, and with the proof that
they are no more than before; so reading ends.
-/
import Relex.Pattern.Fault

namespace Relex.Pattern

-- ============================================================= glyphs

/-- A character of a pattern, alone or after a backslash, and where it
was written. -/
structure Glyph where
  char : Char
  escaped : Bool
  place : Nat
  deriving DecidableEq, Repr

namespace Glyph

/-- The glyph as written. -/
def written (g : Glyph) : List Char :=
  if g.escaped then ['\\', g.char] else [g.char]

/-- Is it this character, with no backslash? -/
def isPlain (g : Glyph) (c : Char) : Bool := !g.escaped && g.char == c

/-- The glyphs of a text from a place on. A backslash at the end of the
text is left out. -/
def ofChars (place : Nat) : List Char → List Glyph
  | [] => []
  | '\\' :: c :: rest => ⟨c, true, place⟩ :: ofChars (place + 2) rest
  | c :: rest =>
    if c = '\\' then [] else ⟨c, false, place⟩ :: ofChars (place + 1) rest

/-- Does the text end in a backslash that escapes nothing? -/
def dangles : List Char → Bool
  | [] => false
  | '\\' :: _ :: rest => dangles rest
  | c :: rest => c == '\\' || dangles rest

end Glyph

/-- What reading needs to know of the text besides its glyphs. -/
structure Input where
  length : Nat
  dangling : Bool

/-- The glyphs left to read, among some others. -/
abbrev Rest (gs : List Glyph) := { r : List Glyph // r.length ≤ gs.length }

section Rest

variable {gs rest left : List Glyph}

/-- Nothing is taken, and all are left. -/
theorem rest_refl (gs : List Glyph) : gs.length ≤ gs.length :=
  Nat.le_refl _

/-- What is left of what was left. -/
theorem rest_trans (h' : left.length ≤ rest.length)
    (h : rest.length ≤ gs.length) : left.length ≤ gs.length :=
  Nat.le_trans h' h

/-- One glyph is taken. -/
theorem rest_tail {g : Glyph} (h : gs = g :: rest) :
    rest.length ≤ gs.length := by
  rw [h]
  exact Nat.le_succ _

end Rest

namespace Input

/-- The place reached when some glyphs are left to read. -/
def place (inp : Input) : List Glyph → Nat
  | [] => inp.length
  | g :: _ => g.place

/-- A glyph was taken, and these are left: a fault if nothing but a lone
backslash is. -/
def passed (inp : Input) (rest : List Glyph) : Except Fault Unit :=
  if rest.isEmpty && inp.dangling then
    .error ⟨.escapeAtEnd, some (inp.length - 1)⟩
  else .ok ()

/-- A fault met at a place. -/
def fault {α : Type} (cause : Cause) (place : Nat) : Except Fault α :=
  .error ⟨cause, some place⟩

/-- Takes plain characters of a kind, at most so many. -/
def takeWhile (inp : Input) (kind : Char → Bool) :
    (most : Nat) → (gs : List Glyph) → Except Fault (List Char × Rest gs)
  | 0, gs => .ok ([], ⟨gs, rest_refl gs⟩)
  | _ + 1, [] => .ok ([], ⟨[], rest_refl []⟩)
  | most + 1, g :: rest =>
    if !g.escaped && kind g.char then do
      inp.passed rest
      let (cs, ⟨left, h⟩) ← inp.takeWhile kind most rest
      return (g.char :: cs, ⟨left, Nat.le_succ_of_le h⟩)
    else .ok ([], ⟨g :: rest, rest_refl _⟩)

/-- Takes a plain character, if it is the next glyph. -/
def takePlain (inp : Input) (c : Char) :
    (gs : List Glyph) → Except Fault (Bool × Rest gs)
  | [] => .ok (false, ⟨[], rest_refl []⟩)
  | g :: rest =>
    if g.isPlain c then do
      inp.passed rest
      return (true, ⟨rest, Nat.le_succ _⟩)
    else .ok (false, ⟨g :: rest, rest_refl _⟩)

end Input

-- ============================================================ numbers

/-- The value of a digit, in any base up to sixteen. -/
def digitValue (c : Char) : Nat :=
  if c.isDigit then c.toNat - 0x30
  else if 'a' ≤ c ∧ c ≤ 'f' then c.toNat - 0x57
  else c.toNat - 0x37

/-- The value of some digits in a base. -/
def numeral (base : Nat) (digits : List Char) : Nat :=
  digits.foldl (fun n c => n * base + digitValue c) 0

/-- Is the character an octal digit? -/
def isOctal (c : Char) : Bool := '0' ≤ c && c ≤ '7'

/-- Is the character a hexadecimal digit? -/
def isHexadecimal (c : Char) : Bool :=
  c.isDigit || ('a' ≤ c && c ≤ 'f') || ('A' ≤ c && c ≤ 'F')

end Relex.Pattern
