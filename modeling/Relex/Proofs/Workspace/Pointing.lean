/-
Pointing at a text: what a controller with a grammar answers for a
position.

Whatever was edited, and whatever the cache has a line entered in, the
tokens that answer for a line tile it. So a position in front of a
character of its line is always answered for, by the token that the
character is part of; and a position at the end of its line by no token,
or by the last, if falling back is allowed (`lookup_finds_token`).

What edits come into it for is little: they leave a controller its
document's place and its tokenizer (`seat?_editAll`).
-/
import Mathlib
import Relex.Proofs.Grammar.Tiling
import Relex.Proofs.Workspace.Equivalence
import Relex.Proofs.Workspace.Rounds
import Relex.Proofs.Workspace.Standing

namespace Relex

-- ============================================================= answers

namespace Lookup

variable {d : Document} {line : Int} {t : Token}

/-- A token that lies in its line is answered with the text there. -/
theorem text_info (h0 : 0 ≤ line) (hline : line < d.lineCount)
    (hstart : 0 ≤ t.start) (hle : t.start ≤ t.stop)
    (hstop : t.stop ≤ (d.content.line line).length) :
    (info line (d.content.line line) t).text
      = d.content.textIn (info line (d.content.line line) t).range := by
  have hin : ∀ column : Int, 0 ≤ column →
      column ≤ (d.content.line line).length →
      d.content.InBounds ⟨line, column⟩ :=
    fun column h h' => ⟨h0, hline, h, h'⟩
  have hclamp := Content.clampRange_of_inBounds
    (r := ⟨⟨line, t.start⟩, ⟨line, t.stop⟩⟩)
    (hin t.start hstart (Int.le_trans hle hstop))
    (hin t.stop (Int.le_trans hstart hle) hstop)
    (.inr ⟨rfl, hle⟩)
  unfold info Content.textIn
  rw [hclamp]
  exact (if_pos rfl).symm

/-- The answer is for a piece of the position's line that the position is
in: its range, its text, and its scopes. -/
structure Spots (d : Document) (scope : String) (q : Position)
    (s : ScopedSpan) : Prop where
  start : s.range.start.line = q.line
  stop : s.range.stop.line = q.line
  nonempty : s.range.start.column < s.range.stop.column
  starts : s.range.start ≤ q
  stops : q < s.range.stop
  text : s.text = d.content.textIn s.range
  scope : s.scopes.head? = some scope

variable {q : Position} {scope : String} {tokens : List Token}
  {fallsBack : Bool}

/-- In front of a character of a line that is tiled, the token picked is
the one that the character is part of. -/
theorem spots_pick (hin : d.content.InBounds q)
    (h : Grammar.Lexer.Tiled scope (d.content.line q.line) tokens)
    (hlt : q.column < (d.content.line q.line).length) :
    ∃ s, (pick tokens fallsBack q.column).map
        (info q.line (d.content.line q.line)) = some s
      ∧ Spots d scope q s := by
  obtain ⟨t, ht, hat, h0, hstart, hstop, hle⟩ :=
    h.exists_at? hin.column_nonneg hlt
  unfold pick
  rw [hat]
  refine ⟨_, rfl, rfl, rfl, ?_, .inr ⟨rfl, hstart⟩, .inr ⟨rfl, hstop⟩,
    ?_, h.first t ht⟩
  · show t.start < t.stop
    omega
  · exact text_info hin.line_nonneg hin.line_lt h0 (by omega) hle

/-- At the end of a line that is tiled, only falling back finds a
token. -/
theorem pick_length {line : Line}
    (h : Grammar.Lexer.Tiled scope line tokens) :
    pick tokens fallsBack line.length
      = if fallsBack then tokens.getLast? else none := by
  unfold pick
  rw [h.at?_length]

end Lookup

namespace Workspace

open Lookup Grammar

variable {ws : Workspace} {controller : Nat} {k : Controller}
  {d : Document}

-- ============================================================== edits

/-- An edit leaves a controller its document's place and its
tokenizer. -/
theorem seat?_edit (buffer : Nat) (changes : List Change)
    (h : ws.seat? controller = some (k, d)) :
    ∃ k' d', ((edit buffer changes).on ws).2.seat? controller
        = some (k', d')
      ∧ k'.buffer = k.buffer ∧ k'.tokenizer = k.tokenizer := by
  obtain ⟨hk, hd⟩ := seat?_eq_some.1 h
  have hframe := frame_edit ws buffer changes
  generalize ((edit buffer changes).on ws).2 = ws' at hframe ⊢
  have hlt : controller < ws'.controllers.length := by
    rw [hframe.controllers]
    exact (List.getElem?_eq_some_iff.1 hk).1
  have hk' := List.getElem?_eq_getElem hlt
  obtain ⟨k₀, hk₀, halike⟩ := hframe.alike controller _ hk'
  obtain rfl : k = k₀ := Option.some.inj (hk.symm.trans hk₀)
  have huri : ws'.uri? k.buffer = some d.uri := by
    rw [hframe.uri]
    unfold uri?
    rw [hd]
    rfl
  obtain ⟨d', hd', -⟩ := Option.map_eq_some_iff.1 huri
  refine ⟨_, d', seat?_eq_some.2 ⟨hk', ?_⟩, halike.buffer,
    halike.tokenizer⟩
  rw [halike.buffer]
  exact hd'

/-- So does any run of edits. -/
theorem seat?_editAll (edits : List (Nat × List Change))
    (h : ws.seat? controller = some (k, d)) :
    ∃ k' d', (editAll edits ws).seat? controller = some (k', d')
      ∧ k'.buffer = k.buffer ∧ k'.tokenizer = k.tokenizer := by
  induction edits generalizing ws k d with
  | nil => exact ⟨k, d, h, rfl, rfl⟩
  | cons e edits ih =>
      obtain ⟨k₁, d₁, h₁, hbuffer, htokenizer⟩ := seat?_edit e.1 e.2 h
      obtain ⟨k', d', h', hbuffer', htokenizer'⟩ := ih h₁
      exact ⟨k', d', h', hbuffer'.trans hbuffer,
        htokenizer'.trans htokenizer⟩

-- ========================================================= the theorem

/-- A controller with the tokenizer of a grammar, whatever the compiler of
its patterns, after any edits and under any configuration, is asked about a
position. If the position, once
clamped, is in front of a character, the answer is for a piece of its line
that it is in, with the scope of the grammar first. If it is at the end of
its line there is no answer, or, where falling back is allowed, the line's
last token is the answer, which stops at the end of the line. -/
theorem lookup_finds_token {g : Grammar} {compiler : Pattern.Compiler}
    {lx : Lexer} {t : Engine.Tokenizer}
    (hg : Lexer.build g compiler = .ok lx)
    (hseat : ws.seat? controller = some (k, d))
    (ht : k.tokenizer = some t) (hengine : t.engine = lx.engine)
    (edits : List (Nat × List Change)) :
    ∃ k' d', (editAll edits ws).seat? controller = some (k', d')
      ∧ k'.buffer = k.buffer
      ∧ ∀ (config : Ambient) (p : Position), ∃ answer,
        ((lookup controller p).on
            { editAll edits ws with config := config }).1 = .ok answer
          ∧ ((d'.content.clamp p).column
              < (d'.content.line (d'.content.clamp p).line).length →
            ∃ s, answer = some s
              ∧ Spots d' g.scope (d'.content.clamp p) s)
          ∧ ((d'.content.clamp p).column
              = (d'.content.line (d'.content.clamp p).line).length →
            (config.active.fallsBack = false → answer = none)
              ∧ (config.active.fallsBack = true → ∃ result last,
                ((lookupLine controller (d'.content.clamp p).line).on
                    { editAll edits ws with config := config }).1
                  = .ok (some result)
                ∧ result.tokens.getLast? = some last
                ∧ answer = some (info (d'.content.clamp p).line
                    (d'.content.line (d'.content.clamp p).line) last)
                ∧ last.stop = (d'.content.clamp p).column)) := by
  obtain ⟨k', d', hseat', hbuffer, htokenizer⟩ :=
    seat?_editAll edits hseat
  refine ⟨k', d', hseat', hbuffer, fun config p => ?_⟩
  have hseat' : ({ editAll edits ws with config := config }
      : Workspace).seat? controller = some (k', d') := hseat'
  have hready : k'.engine? = some lx.engine := by
    unfold Controller.engine?
    rw [htokenizer, ht, ← hengine]
    rfl
  have hin := d'.content.inBounds_clamp p
  have hline := line?_of_inBounds hin
  have htoken := lookup_on hseat' p
  rw [hready, token_on, hline] at htoken
  generalize d'.content.clamp p = q at hin hline htoken ⊢
  generalize hentered : k'.cache.entering q.line = s₀ at htoken
  -- the line is covered by tokens, whatever state it is entered in
  obtain ⟨a, ha⟩ := Lexer.total_engine hg (d'.content.line q.line) s₀
  have htiled := Lexer.tiled_engine lx ha
  rw [Lexer.grammar_of_build hg] at htiled
  dsimp only at htoken
  rw [ha] at htoken
  dsimp only [Except.map] at htoken
  refine ⟨_, htoken, spots_pick hin htiled, fun hend => ⟨fun hoff => ?_,
    fun hon => ?_⟩⟩
  · rw [hend, pick_length htiled, hoff]
    rfl
  · -- the last token ends where the line does
    obtain ⟨last, hlast, hstop⟩ := htiled.exists_getLast?
    refine ⟨a, last, ?_, hlast, ?_, hstop.trans hend.symm⟩
    · unfold lookupLine
      rw [whenAttached_on _ _ hseat', hready, line_on, hline]
      dsimp only
      rw [hentered, ha]
      rfl
    · rw [hend, pick_length htiled, hon, if_pos rfl, hlast]
      rfl

/-- Comments run from a hash to a full stop, over lines if need be. -/
def commented : Grammar :=
  ⟨"source", [.block "comment" "#" "\\." "comment" []], [], "commented"⟩

/-- A line is put in where a comment is open. Pointing in front of it
finds the comment, and pointing at its end finds nothing, if falling back
is not allowed. -/
theorem lookup_finds_token_commented : ∃ lx ws₀ ws',
    Lexer.build commented = .ok lx
      ∧ (attach 0 (some ⟨0, lx.engine⟩) true).on (watched "a # b\nc. d")
        = (.ok 0, ws₀)
      ∧ ws' = editAll [(0, [⟨⟨⟨0, 9⟩, ⟨1, 0⟩⟩, "\ne\n".toList⟩])] ws₀
      ∧ (∃ s, ((lookup 0 ⟨1, -3⟩).on ws').1 = .ok (some s)
        ∧ Spots ⟨"untitled:document", "plaintext", 1,
          .ofText "a # b\ne\nc. d".toList⟩ "source" ⟨1, 0⟩ s)
      ∧ ((lookup 0 ⟨1, 7⟩).on { ws' with config :=
          ⟨{ fallbackToLastToken := .flag false }, []⟩ }).1
        = .ok none := by
  obtain ⟨lx, hlx⟩ : ∃ lx, Lexer.build commented = .ok lx :=
    Lexer.exists_build (by cbv)
  have hdoc : (watched "a # b\nc. d").document? 0 = some (.new
      "untitled:document" "plaintext" "a # b\nc. d".toList) := rfl
  obtain ⟨ws₀, k, hattach, -, hseat, ht, -⟩ := attach_ready
    (u := ⟨0, lx.engine⟩) hdoc (Lexer.total_engine hlx) true
  obtain ⟨strict, hfollows⟩ := (quiet_watched "a # b\nc. d").follows hdoc
    (some ⟨0, lx.engine⟩) (lenient_watched _
      [.edit [⟨⟨⟨0, 9⟩, ⟨1, 0⟩⟩, "\ne\n".toList⟩]])
  rw [hattach] at hfollows
  obtain ⟨k', hk', -⟩ := hfollows.seated
  obtain ⟨k₁, d', hseat', -, hpoints⟩ :=
    lookup_finds_token hlx hseat ht rfl
    [(0, [⟨⟨⟨0, 9⟩, ⟨1, 0⟩⟩, "\ne\n".toList⟩])]
  have hd' : d' = ⟨"untitled:document", "plaintext", 1,
      .ofText "a # b\ne\nc. d".toList⟩ := by
    have hsame := hseat'.symm.trans hk'.seat?_eq
    rw [(Prod.mk.inj (Option.some.inj hsame)).2]
    cbv
  rw [hd'] at hpoints
  have hinside : (Content.ofText "a # b\ne\nc. d".toList).clamp ⟨1, -3⟩
      = ⟨1, 0⟩ := by cbv
  have hend : (Content.ofText "a # b\ne\nc. d".toList).clamp ⟨1, 7⟩
      = ⟨1, 1⟩ := by cbv
  have hline : (Content.ofText "a # b\ne\nc. d".toList).line 1
      = "e".toList := by cbv
  refine ⟨lx, ws₀, _, hlx, hattach, rfl, ?_, ?_⟩
  · obtain ⟨answer, hanswer, hcovered, -⟩ := hpoints
      (editAll [(0, [⟨⟨⟨0, 9⟩, ⟨1, 0⟩⟩, "\ne\n".toList⟩])] ws₀).config
      ⟨1, -3⟩
    rw [hinside, hline] at hcovered
    obtain ⟨s, rfl, hs⟩ := hcovered (by decide)
    exact ⟨s, hanswer, hs⟩
  · obtain ⟨answer, hanswer, -, hlast⟩ := hpoints
      ⟨{ fallbackToLastToken := .flag false }, []⟩ ⟨1, 7⟩
    rw [hend, hline] at hlast
    obtain rfl := (hlast (by decide)).1 rfl
    exact hanswer

end Workspace

end Relex
