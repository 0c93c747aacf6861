/-
Reading patterns: from text to `Node`, or to the fault for which the
text is refused; and the compiler that comes of it (`compile`).

Reading goes through the glyphs of the text from left to right and keeps
the groups that are open, innermost first (`Reading`). Each step takes
at least one glyph, so reading ends.

Of several faults the one met first is reported, with the place that was
reached. That the matches of a look behind are all of one length is
required only of patterns that are otherwise sound; so this fault comes
last, and has no place.

Not all that regular expressions may be written with is read. Refused as
unknown extensions or bad escapes are

- flags, for the whole pattern or for a group: `(?i)`, `(?s:.)`, `(?-i:.)`;
- groups with names, and references by name: `(?P<q>.)`, `(?P=q)`;
- comments, and conditions on groups: `(?#.)`, `(?(1)b|c)`;
- characters by their names, after `\N`.

What is proved of lexers is proved for any compiler (`Compiler`), and so
does not rest on what is read here.
-/
import Relex.Pattern.Escape
import Relex.Pattern.Fault
import Relex.Pattern.Matching

namespace Relex.Pattern

open Input (fault)

-- ============================================================== items

/-- What a quantifier may follow. -/
inductive ItemSort where
  | plain
  /-- An anchor, which is not repeated. -/
  | anchor
  /-- A repetition, which is not repeated again. -/
  | repeated
  deriving DecidableEq, Repr

/-- A piece of an alternative, with the lengths of its matches. -/
structure Item where
  node : Node
  width : Width
  sort : ItemSort

namespace Item

/-- One character of a set. -/
def set (s : CharSet) : Item := ⟨.set s, .exactly 1, .plain⟩

/-- One code point. -/
def single (code : Nat) : Item := set (.single code)

/-- A condition on the place. -/
def anchor (a : Anchor) : Item := ⟨.anchor a, .exactly 0, .anchor⟩

end Item

/-- How a group was opened. -/
inductive Opening where
  /-- A group that only holds together, or the whole pattern. -/
  | cluster
  /-- A capture, under its number. -/
  | capture (group : Nat)
  | atomic
  | ahead (negated : Bool)
  /-- A look behind; an outermost one is not inside another. -/
  | behind (negated outermost : Bool)
  deriving DecidableEq, Repr

/-- An open group: how and where it was opened, its finished
alternatives, and the items of the one being read, the latest first. -/
structure Level where
  opening : Opening
  place : Nat
  finished : List (Node × Width)
  items : List Item

namespace Level

/-- A group just opened. -/
def opened (opening : Opening) (place : Nat) : Level :=
  ⟨opening, place, [], []⟩

/-- The alternative being read. -/
def current (l : Level) : Node × Width :=
  l.items.foldl
    (fun (node, width) item => (
      if node = .empty then item.node else .seq item.node node,
      item.width.append width))
    (.empty, .exactly 0)

/-- The alternative being read is finished, and another begins. -/
def another (l : Level) : Level :=
  { l with finished := l.current :: l.finished, items := [] }

/-- All alternatives, the first preferred. -/
def body (l : Level) : Node × Width :=
  l.finished.foldl
    (fun (node, width) (node', width') =>
      (.alt node' node, width'.join width))
    l.current

/-- One more item. -/
def add (l : Level) (item : Item) : Level :=
  { l with items := item :: l.items }

end Level

/-- How far reading has come: the innermost open group, those around it,
the lengths of the captures by number, unknown while one is open, and
how many captures there were when the outermost look behind began, if
one is open. `uneven` tells of a look behind whose matches differ in
length. -/
structure Reading where
  level : Level
  outer : List Level
  captures : List (Option Width)
  behindFrom : Option Nat
  uneven : Bool

namespace Reading

/-- Nothing is read. -/
def start : Reading := ⟨.opened .cluster 0, [], [], none, false⟩

/-- One more item in the innermost group. -/
def add (r : Reading) (item : Item) : Reading :=
  { r with level := r.level.add item }

/-- A group is opened. -/
def push (r : Reading) (opening : Opening) (place : Nat) : Reading :=
  { r with level := .opened opening place, outer := r.level :: r.outer }

end Reading

-- ========================================================= references

/-- A reference to a capture. The capture has to be closed, and inside a
look behind it has to be from outside. `place` is where the reference
was written, `after` the place behind it. -/
def reference (r : Reading) (group place after : Nat) :
    Except Fault Item :=
  match r.captures[group - 1]? with
  | none => fault (.invalidReference group) (place + 1)
  | some none => fault .openReference place
  | some (some width) =>
    match r.behindFrom with
    | some before =>
      if before < group then fault .lookbehindReference after
      else .ok ⟨.again group, width, .plain⟩
    | none => .ok ⟨.again group, width, .plain⟩

/-- Reads an escape that begins with a digit other than zero: three
octal digits give a code point, anything else refers to a capture. -/
def readDigits (inp : Input) (r : Reading) (g : Glyph)
    (rest : List Glyph) : Except Fault (Item × Rest rest) := do
  let (second, ⟨left, h⟩) ← inp.takeWhile Char.isDigit 1 rest
  let digits := g.char :: second
  if second.length = 1 && digits.all isOctal then
    let (third, ⟨left', h'⟩) ← inp.takeWhile isOctal 1 left
    if third.length = 1 then
      let code ← octalCode g (digits ++ third)
      return (.single code, ⟨left', rest_trans h' h⟩)
  let item ← reference r (numeral 10 digits) g.place (inp.place left)
  return (item, ⟨left, h⟩)

/-- The anchors that have a letter of their own. -/
def anchorOf? : Char → Option Anchor
  | 'A' => some .start
  | 'b' => some .wordEdge
  | 'B' => some .noWordEdge
  | 'Z' => some .veryEnd
  | _ => none

/-- Reads an escape outside of sets. -/
def readEscape (inp : Input) (r : Reading) (g : Glyph)
    (rest : List Glyph) : Except Fault (Item × Rest rest) := do
  if let some a := anchorOf? g.char then
    return (.anchor a, ⟨rest, rest_refl rest⟩)
  else if let some (kind, outside) := classOf? g.char then
    return (.set (.named kind outside), ⟨rest, rest_refl rest⟩)
  else if let some code := controlOf? g.char then
    return (.single code, ⟨rest, rest_refl rest⟩)
  else if let some digits := codeDigits? g.char then
    let (code, left) ← readCode inp g digits rest
    return (.single code, left)
  else if g.char = '0' then
    let (cs, left) ← inp.takeWhile isOctal 2 rest
    return (.single (numeral 8 cs), left)
  else if g.char.isDigit then
    readDigits inp r g rest
  else
    return (.single (← literalCode g), ⟨rest, rest_refl rest⟩)

-- ======================================================== quantifiers

/-- The counts between braces, the opening one taken; none if what
follows is no pair of counts, for then the brace stands for itself. -/
def readCounts (inp : Input) (gs : List Glyph) :
    Except Fault (Option (Nat × Option Nat × Rest gs)) := do
  if gs.head?.any (·.isPlain (Char.ofNat 0x7d)) then
    return none
  let (least, ⟨rest, h⟩) ← inp.takeWhile Char.isDigit gs.length gs
  let (comma, ⟨rest', h'⟩) ← inp.takePlain ',' rest
  let (most, ⟨rest'', h''⟩) ←
    if comma then inp.takeWhile Char.isDigit rest'.length rest'
    else pure (least, ⟨rest', rest_refl rest'⟩)
  let (closed, ⟨left, h₃⟩) ← inp.takePlain (Char.ofNat 0x7d) rest''
  if closed then
    let most := if most.isEmpty then none else some (numeral 10 most)
    if most.any (· < numeral 10 least) then
      fault .minAboveMax (inp.place gs)
    else
      return some (numeral 10 least, most,
        ⟨left, rest_trans h₃ (rest_trans h'' (rest_trans h' h))⟩)
  else return none

/-- Repeats the latest item of the group. `place` is the quantifier's.
A question mark after the quantifier makes it lazy; a plus sign makes it
take what it can and give nothing back. -/
def quantify (inp : Input) (r : Reading) (place least : Nat)
    (most : Option Nat) (rest : List Glyph) :
    Except Fault (Reading × Rest rest) := do
  match r.level.items with
  | [] => fault .nothingToRepeat place
  | item :: before =>
    match item.sort with
    | .anchor => fault .nothingToRepeat place
    | .repeated => fault .multipleRepeat place
    | .plain =>
      let width := item.width.times least most
      let repeated (node : Node) : Reading :=
        { r with level := { r.level with
            items := ⟨node, width, .repeated⟩ :: before } }
      let (lazy, ⟨left, h⟩) ← inp.takePlain '?' rest
      if lazy then
        return (repeated (.loop least most false item.node), ⟨left, h⟩)
      let (keeps, ⟨left', h'⟩) ← inp.takePlain '+' left
      if keeps then
        return (repeated
            (.atomic (.loop least most true (.atomic item.node))),
          ⟨left', rest_trans h' h⟩)
      return (repeated (.loop least most true item.node),
        ⟨left', rest_trans h' h⟩)

-- ============================================================= groups

/-- Opens a group, the parenthesis at `place` taken. -/
def openGroup (inp : Input) (r : Reading) (place : Nat)
    (gs : List Glyph) : Except Fault (Reading × Rest gs) := do
  let (special, ⟨rest, h⟩) ← inp.takePlain '?' gs
  if !special then
    let group := r.captures.length + 1
    return ({ r with captures := r.captures ++ [none] }.push
      (.capture group) place, ⟨rest, h⟩)
  match hr : rest with
  | [] => fault .unexpectedEnd inp.length
  | g :: rest' =>
    inp.passed rest'
    have ht := rest_tail hr
    have h' := rest_trans ht h
    if g.isPlain ':' then return (r.push .cluster place, ⟨rest', h'⟩)
    if g.isPlain '>' then return (r.push .atomic place, ⟨rest', h'⟩)
    if g.isPlain '=' then
      return (r.push (.ahead false) place, ⟨rest', h'⟩)
    if g.isPlain '!' then return (r.push (.ahead true) place, ⟨rest', h'⟩)
    if g.isPlain '<' then
      match hr' : rest' with
      | [] => fault .unexpectedEnd inp.length
      | g' :: rest'' =>
        have ht' := rest_tail hr'
        inp.passed rest''
        if g'.isPlain '=' || g'.isPlain '!' then
          let outermost := r.behindFrom.isNone
          let r := if outermost then
              { r with behindFrom := some r.captures.length }
            else r
          return (r.push (.behind (g'.isPlain '!') outermost) place,
            ⟨rest'', rest_trans ht' h'⟩)
        fault (.unknownExtension ('<' :: g'.written))
          (inp.place rest'' - (g'.written.length + 2))
    fault (.unknownExtension g.written)
      (inp.place rest' - (g.written.length + 1))

/-- Closes the innermost group, `outer` being the first and `others` the
rest of those around it. -/
def closeGroup (r : Reading) (outer : Level) (others : List Level) :
    Reading :=
  let (node, width) := r.level.body
  let r' := { r with level := outer, outer := others }
  match r.level.opening with
  | .cluster => r'.add ⟨node, width, .plain⟩
  | .atomic => r'.add ⟨.atomic node, width, .plain⟩
  | .capture group =>
    { r' with captures := r'.captures.set (group - 1) (some width) }.add
      ⟨.capture group node, width, .plain⟩
  | .ahead negated => r'.add ⟨.ahead negated node, .exactly 0, .plain⟩
  | .behind negated outermost =>
    { r' with
      behindFrom := if outermost then none else r'.behindFrom
      uneven := r'.uneven || !width.isEven }.add
      ⟨.behind width.least negated node, .exactly 0, .plain⟩

-- ============================================================ reading

/-- Takes a plain character that is no end of an alternative. -/
def stepPlain (inp : Input) (r : Reading) (g : Glyph)
    (rest : List Glyph) : Except Fault (Reading × Rest rest) := do
  let here : Rest rest := ⟨rest, rest_refl rest⟩
  match g.char with
  | '[' =>
    let (s, left) ← readSet inp g.place rest
    return (r.add (.set s), left)
  | '(' => openGroup inp r g.place rest
  | '.' => return (r.add (.set .anyButBreak), here)
  | '^' => return (r.add (.anchor .start), here)
  | '$' => return (r.add (.anchor .finish), here)
  | '*' => quantify inp r g.place 0 none rest
  | '+' => quantify inp r g.place 1 none rest
  | '?' => quantify inp r g.place 0 (some 1) rest
  | c =>
    if c = Char.ofNat 0x7b then
      match ← readCounts inp rest with
      | some (least, most, ⟨left, h⟩) =>
        let (r, ⟨left', h'⟩) ← quantify inp r g.place least most left
        return (r, ⟨left', rest_trans h' h⟩)
      | none => return (r.add (.single c.toNat), here)
    else return (r.add (.single c.toNat), here)

/-- Takes a glyph, and those that belong to it. -/
def step (inp : Input) (r : Reading) (g : Glyph) (rest : List Glyph) :
    Except Fault (Reading × Rest rest) := do
  let here : Rest rest := ⟨rest, rest_refl rest⟩
  if g.isPlain ')' then
    match r.outer with
    | [] => fault .unbalancedParenthesis g.place
    | outer :: others =>
      inp.passed rest
      return (closeGroup r outer others, here)
  inp.passed rest
  if g.isPlain '|' then
    return ({ r with level := r.level.another }, here)
  if g.escaped then
    let (item, left) ← readEscape inp r g rest
    return (r.add item, left)
  stepPlain inp r g rest

/-- No glyph is left: every group has to be closed. -/
def finish (r : Reading) : Except Fault Node :=
  match r.outer with
  | _ :: _ => fault .unterminatedGroup r.level.place
  | [] =>
    if r.uneven then .error ⟨.unevenLookbehind, none⟩
    else .ok r.level.body.1

/-- Reads all glyphs. -/
def readAll (inp : Input) (r : Reading) :
    (gs : List Glyph) → Except Fault Node
  | [] => finish r
  | g :: gs => do
    let (r, ⟨left, _⟩) ← step inp r g gs
    readAll inp r left
termination_by gs => gs.length
decreasing_by simp only [List.length_cons]; omega

/-- The pattern that a text writes down. -/
def read (text : List Char) : Except Fault Node := do
  let inp : Input := ⟨text.length, Glyph.dangles text⟩
  let glyphs := Glyph.ofChars 0 text
  inp.passed glyphs
  readAll inp .start glyphs

/-- The compiler of the patterns that can be read. -/
def compile : Compiler := fun pattern =>
  match read pattern.toList with
  | .ok node => .ok node.matcher
  | .error f => .error (f.message pattern.toList)

end Relex.Pattern
