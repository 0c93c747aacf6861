/-
The tokens of a lexer tile the line.

Tokens tile a span if the first starts where the span starts, each further
one starts where the one before it stops, the last stops where the span
stops, and none is empty (`Token.Tiles`). Then every column of the span is
covered by a token, and a column past it by none.

That a lexer's tokens tile the line takes no more than that a hit lies
behind the place it is looked for from: a round's tokens, what stands in
front of the match and the match, tile what the round goes through
(`Round.tiles`), and rounds follow each other. Which rules matched, and
which blocks were opened or closed by a match that may be empty, does not
come into it. So a lexer that could be built covers each column of a line
once (`tiles_every_line`).

A line without characters is tiled by no tokens at all; it gets one that
is empty. Every token has the scope of the grammar first.
-/
import Relex.Proofs.Grammar.Rounds

namespace Relex

-- ============================================================= tiling

namespace Token

/-- The tokens follow each other without gaps from one column to another,
and none is empty. -/
def Tiles (start stop : Int) : List Token → Prop
  | [] => start = stop
  | t :: rest =>
    t.start = start ∧ t.start < t.stop ∧ Tiles t.stop stop rest

namespace Tiles

variable {start stop column : Int} {tokens more : List Token}

theorem le (h : Tiles start stop tokens) : start ≤ stop := by
  induction tokens generalizing start with
  | nil => exact Int.le_of_eq h
  | cons t rest ih =>
      obtain ⟨rfl, hlt, hrest⟩ := h
      have := ih hrest
      omega

theorem append {middle : Int} (h : Tiles start middle tokens)
    (h' : Tiles middle stop more) :
    Tiles start stop (tokens ++ more) := by
  induction tokens generalizing start with
  | nil =>
      obtain rfl : start = middle := h
      exact h'
  | cons t rest ih =>
      obtain ⟨hstart, hlt, hrest⟩ := h
      exact ⟨hstart, hlt, ih hrest⟩

theorem ne_nil (h : Tiles start stop tokens) (hlt : start < stop) :
    tokens ≠ [] := by
  rintro rfl
  obtain rfl : start = stop := h
  omega

/-- A column of the span is covered by a token that lies in the span. -/
theorem exists_at? (h : Tiles start stop tokens) (hstart : start ≤ column)
    (hstop : column < stop) :
    ∃ t ∈ tokens, Token.at? tokens column = some t ∧ start ≤ t.start
      ∧ t.start ≤ column ∧ column < t.stop ∧ t.stop ≤ stop := by
  induction tokens generalizing start with
  | nil =>
      obtain rfl : start = stop := h
      omega
  | cons t rest ih =>
      obtain ⟨rfl, hlt, hrest⟩ := h
      unfold Token.at?
      rw [List.find?_cons]
      by_cases hcolumn : column < t.stop
      · have hcovers : t.covers column = true := by
          simp [covers, hstart, hcolumn]
        rw [hcovers]
        exact ⟨t, by simp, rfl, by omega, hstart, hcolumn, hrest.le⟩
      · have hcovers : t.covers column = false := by
          simp [covers, hcolumn]
        rw [hcovers]
        obtain ⟨t', ht', hat, hle, h'⟩ := ih hrest (by omega)
        exact ⟨t', by simp [ht'], hat, by omega, h'⟩

/-- A column past the span is covered by no token. -/
theorem at?_eq_none (h : Tiles start stop tokens)
    (hstop : stop ≤ column) : Token.at? tokens column = none := by
  refine List.find?_eq_none.2 fun t ht => ?_
  have hle : t.stop ≤ stop := by
    induction tokens generalizing start with
    | nil => cases ht
    | cons first rest ih =>
        obtain ⟨-, -, hrest⟩ := h
        rcases List.mem_cons.1 ht with rfl | ht
        · exact hrest.le
        · exact ih hrest ht
  simp only [covers, decide_eq_true_eq]
  omega

/-- A column of the span is covered by one token, any other by none. -/
theorem countP_covers (h : Tiles start stop tokens) (column : Int) :
    tokens.countP (·.covers column)
      = if start ≤ column ∧ column < stop then 1 else 0 := by
  induction tokens generalizing start with
  | nil =>
      obtain rfl : start = stop := h
      rw [if_neg (by omega)]
      rfl
  | cons t rest ih =>
      obtain ⟨rfl, hlt, hrest⟩ := h
      have hle := hrest.le
      rw [List.countP_cons, ih hrest]
      simp only [covers, decide_eq_true_eq]
      by_cases hcolumn : column < t.stop
      · rw [if_neg (by omega)]
        simp only [hcolumn, show column < stop by omega, and_true]
        omega
      · simp only [hcolumn, and_false, if_false, Nat.add_zero]
        congr 1
        simp only [eq_iff_iff]
        omega

/-- The last token stops where the span stops. -/
theorem stop_getLast? (h : Tiles start stop tokens) {last : Token}
    (hlast : tokens.getLast? = some last) : last.stop = stop := by
  induction tokens generalizing start with
  | nil => cases hlast
  | cons t rest ih =>
      obtain ⟨-, -, hrest⟩ := h
      cases rest with
      | nil =>
          obtain rfl := Option.some.inj hlast
          exact hrest
      | cons t' rest =>
          rw [List.getLast?_cons_cons] at hlast
          exact ih hrest hlast

end Tiles

end Token

namespace Grammar.Lexer

variable {lx : Lexer} {g : Grammar} {compiler : Pattern.Compiler}
  {text : Array Char} {pos pos' count : Nat}
  {frames frames' last : List Context} {tokens now : List Token}

/-- The scope of the grammar is the first of every token. -/
def Scoped (scope : String) (tokens : List Token) : Prop :=
  ∀ t ∈ tokens, t.scopes.head? = some scope

theorem tiles_piece {start stop : Nat} (h : start ≤ stop)
    (scopes : List String) :
    Token.Tiles start stop (piece start stop scopes) := by
  unfold piece
  split
  · exact ⟨rfl, by dsimp only; omega, rfl⟩
  · show (start : Int) = stop
    omega

theorem scoped_piece {scope : String} {scopes : List String}
    (h : scopes.head? = some scope) (start stop : Nat) :
    Scoped scope (piece start stop scopes) := by
  intro t ht
  unfold piece at ht
  split at ht
  · obtain rfl := List.mem_singleton.1 ht
    exact h
  · cases ht

theorem Scoped.append {scope : String} {tokens more : List Token}
    (h : Scoped scope tokens) (h' : Scoped scope more) :
    Scoped scope (tokens ++ more) :=
  fun t ht => (List.mem_append.1 ht).elim (h t) (h' t)

/-- What stands in front of a match, and the match itself. -/
theorem tiles_match {scope : String} {size : Nat}
    (span : Pattern.Span size pos) {before within : List String}
    (hbefore : before.head? = some scope)
    (hwithin : within.head? = some scope) :
    Token.Tiles pos span.stop
        (piece pos span.start before ++ piece span.start span.stop within)
      ∧ Scoped scope
        (piece pos span.start before ++ piece span.start span.stop within) :=
  ⟨(tiles_piece span.pos_le_start before).append
      (tiles_piece span.start_le_stop within),
    (scoped_piece hbefore _ _).append (scoped_piece hwithin _ _)⟩

/-- The tokens of a round tile what it goes through, with the scope of the
grammar first. -/
theorem Round.tiles (h : lx.Round text pos frames now pos' frames') :
    Token.Tiles pos pos' now ∧ Scoped lx.grammar.scope now := by
  cases h with
  | closes | classifies | enters => exact tiles_match _ rfl rfl

/-- The tokens of the rest of a line tile it, with the scope of the
grammar first, whichever blocks are open. -/
theorem Rounds.tiles (h : lx.Rounds text count pos frames tokens last)
    (hpos : pos ≤ text.size) :
    Token.Tiles pos text.size tokens
      ∧ Scoped lx.grammar.scope tokens := by
  induction h with
  | last missed => exact ⟨tiles_piece hpos _, scoped_piece rfl _ _⟩
  | more first rest ih =>
      obtain ⟨hnow, hscoped⟩ := first.tiles
      obtain ⟨hlater, hscoped'⟩ := ih first.pays.2.1
      exact ⟨hnow.append hlater, hscoped.append hscoped'⟩

-- ============================================================== answers

/-- What a lexer answers for a line: tokens that tile it, or one empty
token if the line is empty, with the scope of the grammar first. -/
structure Tiled (scope : String) (line : Line) (tokens : List Token) :
    Prop where
  tiles : line ≠ [] → Token.Tiles 0 line.length tokens
  single : line = [] → ∃ scopes, tokens = [⟨0, 0, scopes⟩]
  first : Scoped scope tokens

/-- The answer of a lexer's engine for a line, in any state. -/
theorem tiled_engine (lx : Lexer) {line : Line} {s : TokenState}
    {a : LineResult} (h : lx.engine line s = .ok a) :
    Tiled lx.grammar.scope line a.tokens := by
  obtain ⟨tokens, last, hrun, htokens, -⟩ := run_of_engine h
  rw [htokens]
  obtain ⟨count, hrounds⟩ := run_eq_ok_iff.1 hrun
  obtain ⟨htiles, hscoped⟩ := hrounds.tiles (Nat.zero_le _)
  have hsize : line.toArray.size = line.length := rfl
  rw [hsize] at htiles
  cases line with
  | nil =>
      have hnil : tokens = [] := by
        cases tokens with
        | nil => rfl
        | cons t rest =>
            obtain ⟨hstart, hlt, hrest⟩ := htiles
            have hle := hrest.le
            rw [List.length_nil] at hle
            omega
      rw [hnil]
      refine ⟨fun h => absurd rfl h, fun _ => ⟨_, rfl⟩, ?_⟩
      intro t ht
      obtain rfl := List.mem_singleton.1 ht
      rfl
  | cons c rest =>
      have hne := htiles.ne_nil (by
        rw [List.length_cons]
        omega)
      rw [if_neg (by simp [hne])]
      exact ⟨fun _ => htiles, nofun, hscoped⟩

namespace Tiled

variable {scope : String} {line : Line} {tokens : List Token}
  {column : Int}

/-- A column of the line is covered by a token that lies in the line. -/
theorem exists_at? (h : Tiled scope line tokens) (hcolumn : 0 ≤ column)
    (hlt : column < line.length) :
    ∃ t ∈ tokens, Token.at? tokens column = some t ∧ 0 ≤ t.start
      ∧ t.start ≤ column ∧ column < t.stop ∧ t.stop ≤ line.length := by
  refine (h.tiles ?_).exists_at? hcolumn hlt
  rintro rfl
  rw [List.length_nil] at hlt
  omega

/-- The column behind the line is covered by no token. -/
theorem at?_length (h : Tiled scope line tokens) :
    Token.at? tokens line.length = none := by
  by_cases hline : line = []
  · obtain ⟨scopes, rfl⟩ := h.single hline
    rw [hline]
    rfl
  · exact (h.tiles hline).at?_eq_none (Int.le_refl _)

/-- There is a last token, and it stops at the end of the line. -/
theorem exists_getLast? (h : Tiled scope line tokens) :
    ∃ t, tokens.getLast? = some t ∧ t.stop = line.length := by
  by_cases hline : line = []
  · obtain ⟨scopes, rfl⟩ := h.single hline
    rw [hline]
    exact ⟨_, rfl, rfl⟩
  · have htiles := h.tiles hline
    have hlength : 0 < (line.length : Int) :=
      Int.natCast_pos.2 (List.length_pos_iff.2 hline)
    have hlast := List.getLast?_eq_some_getLast
      (htiles.ne_nil hlength)
    exact ⟨_, hlast, htiles.stop_getLast? hlast⟩

end Tiled

/-- The grammar of a lexer is the one it was built for. -/
theorem grammar_of_build (h : build g compiler = .ok lx) :
    lx.grammar = g :=
  (built_of_build h).grammar

-- ============================================================= theorem

/-- A lexer that could be built answers for every line, whatever is in it,
and in every state: its tokens pass the check of their order. They tile
the line; if the line is empty there is one token, which is empty. Every
column of the line is covered by exactly one token, and no other column by
any. -/
theorem tiles_every_line (h : build g compiler = .ok lx)
    (line : Line) (s : TokenState) :
    ∃ a, lx.engine line s = .ok a
      ∧ (line ≠ [] → Token.Tiles 0 line.length a.tokens)
      ∧ (line = [] → ∃ scopes, a.tokens = [⟨0, 0, scopes⟩])
      ∧ ∀ column : Int, a.tokens.countP (·.covers column)
        = if 0 ≤ column ∧ column < line.length then 1 else 0 := by
  obtain ⟨a, ha⟩ := total_engine h line s
  have htiled := tiled_engine lx ha
  refine ⟨a, ha, htiled.tiles, htiled.single, fun column => ?_⟩
  by_cases hline : line = []
  · -- an empty token covers nothing
    obtain ⟨scopes, htokens⟩ := htiled.single hline
    rw [htokens, hline, List.countP_singleton]
    simp [Token.covers]
  · exact (htiled.tiles hline).countP_covers column

/-- Blocks that open in themselves and close in front of an `x`, and a
rule that matches almost everywhere, but mostly nothing. -/
def lookouts : Grammar :=
  ⟨"source", [.block "nest" "<" "(?=x)" "nest" [.inclusion "$self"],
    .single "a*" "run"], [], "lookouts"⟩

/-- Two blocks are closed at one place, and the line has a line break in
it. -/
theorem tiles_every_line_lookouts : ∃ lx a, build lookouts = .ok lx
    ∧ lx.engine "<<x\naa".toList (.stack ⟨["strange"]⟩) = .ok a
    ∧ Token.Tiles 0 6 a.tokens
    ∧ a.tokens.countP (·.covers 2) = 1
    ∧ a.tokens.countP (·.covers 6) = 0 := by
  obtain ⟨lx, hlx⟩ : ∃ lx, build lookouts = .ok lx :=
    exists_build (by decide +kernel)
  obtain ⟨a, ha, htiles, -, hcovered⟩ :=
    tiles_every_line hlx "<<x\naa".toList (.stack ⟨["strange"]⟩)
  exact ⟨lx, a, hlx, ha, htiles (by decide), hcovered 2, hcovered 6⟩

end Grammar.Lexer

end Relex
