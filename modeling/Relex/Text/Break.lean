/-
Line breaks. Three terminators end a line: carriage return with line
feed, a carriage return alone, a line feed alone. A trailing terminator
opens one more, empty, line, so a text always has at least one line.

A text is first read into pieces, where each terminator is one piece
(`pieces`). Splitting, counting and measuring all walk the pieces, so
they agree on what a terminator is.
-/
import Relex.Position

namespace Relex

/-- The characters of one line, without its terminator. -/
abbrev Line := List Char

namespace Text

-- ============================================================= pieces

/-- A line terminator. -/
inductive Break where
  | crlf
  | cr
  | lf
  deriving DecidableEq, Repr

/-- The characters of a terminator. -/
def Break.chars : Break → List Char
  | .crlf => ['\r', '\n']
  | .cr => ['\r']
  | .lf => ['\n']

/-- One step through a text: a character inside a line, or a
terminator. -/
inductive Piece where
  | char (c : Char)
  | brk (b : Break)
  deriving DecidableEq, Repr

/-- The pieces of a text. A carriage return takes a line feed that
follows it along. -/
def pieces : List Char → List Piece
  | [] => []
  | '\r' :: '\n' :: rest => .brk .crlf :: pieces rest
  | '\r' :: rest => .brk .cr :: pieces rest
  | '\n' :: rest => .brk .lf :: pieces rest
  | c :: rest => .char c :: pieces rest

-- ========================================================== splitting

/-- The lines among the pieces. -/
def linesOfPieces : List Piece → List Line
  | [] => [[]]
  | .char c :: rest => (linesOfPieces rest).modifyHead (c :: ·)
  | .brk _ :: rest => [] :: linesOfPieces rest

/-- The lines of a text, without their terminators. -/
def lines (text : List Char) : List Line :=
  linesOfPieces (pieces text)

theorem linesOfPieces_ne_nil (ps : List Piece) :
    linesOfPieces ps ≠ [] := by
  induction ps with
  | nil => simp [linesOfPieces]
  | cons p rest ih =>
    cases p with
    | char c =>
      cases h : linesOfPieces rest with
      | nil => exact absurd h ih
      | cons l ls => simp [linesOfPieces, h]
    | brk b => simp [linesOfPieces]

/-- A text has at least one line. -/
theorem lines_ne_nil (text : List Char) : lines text ≠ [] :=
  linesOfPieces_ne_nil _

/-- A line that holds no terminator, not even half of one. -/
def Unbroken (l : Line) : Prop := ∀ c ∈ l, c ≠ '\r' ∧ c ≠ '\n'

/-- The characters among the pieces end no line. -/
theorem char_of_mem_pieces {text : List Char} {c : Char}
    (h : .char c ∈ pieces text) : c ≠ '\r' ∧ c ≠ '\n' := by
  induction text using pieces.induct with
  | case1 => simp [pieces] at h
  | case2 rest ih => exact ih (by simpa [pieces] using h)
  | case3 rest hcr ih => exact ih (by simpa [pieces, hcr] using h)
  | case4 rest ih => exact ih (by simpa [pieces] using h)
  | case5 c' rest hcrlf hcr hlf ih =>
    rw [pieces] at h <;> try assumption
    rcases List.mem_cons.1 h with h | h
    · cases h
      exact ⟨fun e => hcr e, fun e => hlf e⟩
    · exact ih h

theorem unbroken_of_mem_linesOfPieces {ps : List Piece} {l : Line}
    (hps : ∀ c, .char c ∈ ps → c ≠ '\r' ∧ c ≠ '\n')
    (hl : l ∈ linesOfPieces ps) : Unbroken l := by
  induction ps generalizing l with
  | nil =>
    have : l = [] := by simpa [linesOfPieces] using hl
    subst this
    exact fun _ hc => absurd hc (by simp)
  | cons p rest ih =>
    have hrest := fun c hc => hps c (List.mem_cons_of_mem p hc)
    cases p with
    | char c =>
      cases h : linesOfPieces rest with
      | nil => exact absurd h (linesOfPieces_ne_nil rest)
      | cons first others =>
        rw [h] at ih
        rw [linesOfPieces, h, List.modifyHead_cons] at hl
        rcases List.mem_cons.1 hl with rfl | hl
        · exact List.forall_mem_cons.2
            ⟨hps c (by simp), ih hrest (by simp)⟩
        · exact ih hrest (List.mem_cons_of_mem _ hl)
    | brk b =>
      rcases List.mem_cons.1 hl with rfl | hl
      · exact fun _ hc => absurd hc (by simp)
      · exact ih hrest hl

/-- No line of a text holds a terminator. -/
theorem unbroken_of_mem_lines {text : List Char} {l : Line}
    (h : l ∈ lines text) : Unbroken l :=
  unbroken_of_mem_linesOfPieces (fun _ => char_of_mem_pieces) h

/-- The lines put together again, each but the last ended by a line
feed. -/
def joinLines : List Line → List Char
  | [] => []
  | [l] => l
  | l :: rest => l ++ '\n' :: joinLines rest

-- ========================================================== measuring

/-- How many characters some lines take up when each is ended by a line
feed. -/
def endedLength : List Line → Nat
  | [] => 0
  | l :: rest => l.length + 1 + endedLength rest

/-- How many terminators a text holds. -/
def breakCount (text : List Char) : Nat :=
  (pieces text).countP fun
    | .brk _ => true
    | .char _ => false

/-- The length of the last line, when `before` characters of the current
line have been passed. -/
def lastLengthFrom (before : Nat) : List Piece → Nat
  | [] => before
  | .char _ :: rest => lastLengthFrom (before + 1) rest
  | .brk _ :: rest => lastLengthFrom 0 rest

/-- How many characters follow the last terminator. -/
def lastLength (text : List Char) : Nat :=
  lastLengthFrom 0 (pieces text)

/-- The line and column reached after `offset` more characters, from a
line and column already reached. An offset between the two characters of
one terminator counts as past it; one past the end stops at the end. -/
def advance (line column : Nat) : (offset : Nat) → List Piece → Position
  | 0, _ => ⟨line, column⟩
  | _ + 1, [] => ⟨line, column⟩
  | offset + 1, .char _ :: rest => advance line (column + 1) offset rest
  | offset + 1, .brk b :: rest =>
    advance (line + 1) 0 (offset + 1 - b.chars.length) rest

/-- The line and column of a character offset in a text. A negative
offset stands for the start. -/
def locate (text : List Char) (offset : Int) : Position :=
  advance 0 0 offset.toNat (pieces text)

end Text

end Relex
