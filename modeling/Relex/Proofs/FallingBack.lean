/-
Where the token that answers for a position lies.

Falling back is meant for positions past the last token of their line.
But a query falls back wherever no token covers the column, and then takes
the last token of the line, without looking where that one starts. So in a
gap in front of a token (`Token.Gap`) the answer lies ahead of the position
(`answered_ahead`).

That happens nowhere else. Outside of such gaps the answer lies around the
position, or all tokens have stopped there and the last of them answers
(`lies_ahead_in_gaps_only`). Engines that tile their lines, among them
those of all grammars, leave no gaps.
-/
import Mathlib
import Relex.Proofs.Covering
import Relex.Proofs.Grammar.Tiling

namespace Relex

-- ================================================================ gaps

namespace Token

variable {tokens : List Token} {column : Int} {t last : Token}

/-- No token covers the column, and some token starts behind it. -/
structure Gap (tokens : List Token) (column : Int) : Prop where
  uncovered : ∀ t ∈ tokens, ¬t.covers column
  ahead : ∃ t ∈ tokens, column < t.start

/-- A column that a token does not cover is in front of it or past it. -/
theorem stop_le_of_not_covers (h : ¬t.covers column)
    (hstart : t.start ≤ column) : t.stop ≤ column := by
  simp only [covers, decide_eq_true_eq, not_and] at h
  exact Int.not_lt.1 (h hstart)

/-- No token starts behind the last. -/
theorem start_le_of_getLast? (hsorted : tokens.Pairwise (·.start ≤ ·.start))
    (hlast : tokens.getLast? = some last) (ht : t ∈ tokens) :
    t.start ≤ last.start := by
  obtain ⟨front, rfl⟩ := List.getLast?_eq_some_iff.1 hlast
  rcases List.mem_append.1 ht with ht | ht
  · exact (List.pairwise_append.1 hsorted).2.2 t ht last (by simp)
  · obtain rfl := List.mem_singleton.1 ht
    exact Int.le_refl _

/-- A column in a gap is in front of the last token. -/
theorem Gap.lt_start (h : Gap tokens column)
    (hsorted : tokens.Pairwise (·.start ≤ ·.start))
    (hlast : tokens.getLast? = some last) : column < last.start := by
  obtain ⟨t, ht, hlt⟩ := h.ahead
  exact Int.lt_of_lt_of_le hlt (start_le_of_getLast? hsorted hlast ht)

/-- Past all gaps, a column that no token covers is past all tokens. -/
theorem stop_le_of_not_gap (h : ¬Gap tokens column)
    (hcovered : ¬∃ t ∈ tokens, t.covers column) (ht : t ∈ tokens) :
    t.stop ≤ column := by
  have huncovered : ∀ t ∈ tokens, ¬t.covers column :=
    fun t ht hcovers => hcovered ⟨t, ht, hcovers⟩
  refine stop_le_of_not_covers (huncovered t ht) (Int.not_lt.1 ?_)
  exact fun hlt => h ⟨huncovered, t, ht, hlt⟩

end Token

/-- Tokens that tile a line leave no gap in it, nor at its end. -/
theorem Grammar.Lexer.Tiled.not_gap {scope : String} {line : Line}
    {tokens : List Token} {column : Int} (h : Tiled scope line tokens)
    (hordered : Token.Ordered 0 tokens) (h0 : 0 ≤ column)
    (hlength : column ≤ line.length) : ¬Token.Gap tokens column := by
  intro hgap
  obtain ⟨-, hsorted, hstops⟩ := Token.ordered_iff.1 hordered
  obtain ⟨last, hlast, hstop⟩ := h.exists_getLast?
  have hstart := hgap.lt_start hsorted hlast
  have hle := hstops last (List.mem_of_getLast? hlast)
  have hbefore : column < line.length := by omega
  obtain ⟨t, ht, -, -, hfrom, hto, -⟩ := h.exists_at? h0 hbefore
  have hcovers : t.covers column := by
    simp only [Token.covers, decide_eq_true_eq]
    exact ⟨hfrom, hto⟩
  exact hgap.uncovered t ht hcovers

namespace Lookup

-- ============================================================= answers

variable {d : Document} {e : Engine} {b : Bench}

/-- The query answers with the token that is picked. -/
theorem token_answer {p : Position} {answer : LineResult}
    (fallsBack : Bool)
    (he : e (d.content.line (d.content.clamp p).line)
        (b.cache.entering (d.content.clamp p).line) = .ok answer) :
    ((Lookup.token d (some e) fallsBack p).on b).1
      = .ok ((pick answer.tokens fallsBack
          (d.content.clamp p).column).map (info (d.content.clamp p).line
            (d.content.line (d.content.clamp p).line))) := by
  rw [token_on, line?_of_inBounds (d.content.inBounds_clamp p)]
  dsimp only
  rw [he]
  rfl

/-- The token that covers a column lies around it. -/
theorem around_of_covers {t : Token} {q : Position} (line : Line)
    (h : t.covers q.column) :
    (info q.line line t).range.start ≤ q
      ∧ q < (info q.line line t).range.stop := by
  simp only [Token.covers, decide_eq_true_eq] at h
  exact ⟨.inr ⟨rfl, h.1⟩, .inr ⟨rfl, h.2⟩⟩

-- ========================================================= the theorem

/-- A position is looked up in a document, with any cache and under a
configuration that allows falling back, and the engine answers for the line
that the position is on once it is clamped. A token is found just when
there are tokens. Unless the position is in a gap, the token found covers
it, or else all tokens have stopped at or in front of it and the one found
is the last. In a gap the one found is the last, too, and there it starts
behind the position. The engine of a grammar leaves no gaps. -/
theorem lies_ahead_in_gaps_only (config : Config)
    (hconfig : config.fallsBack = true) {p q : Position}
    {answer : LineResult} (hq : d.content.clamp p = q)
    (he : e (d.content.line q.line) (b.cache.entering q.line)
      = .ok answer) :
    (∃ found, ((Lookup.token d (some e) config.fallsBack p).on b).1
        = .ok found
      ∧ (found = none ↔ answer.tokens = [])
      ∧ (¬Token.Gap answer.tokens q.column → ∀ s, found = some s →
        (∃ t ∈ answer.tokens, t.covers q.column)
            ∧ s.range.start ≤ q ∧ q < s.range.stop
          ∨ (∀ t ∈ answer.tokens, t.stop ≤ q.column)
            ∧ answer.tokens.getLast?.map
              (info q.line (d.content.line q.line)) = some s
            ∧ s.range.stop ≤ q)
      ∧ (Token.Gap answer.tokens q.column → ∃ s, found = some s
        ∧ answer.tokens.getLast?.map
          (info q.line (d.content.line q.line)) = some s
        ∧ q < s.range.start))
      ∧ ∀ g compiler lx, Grammar.Lexer.build g compiler = .ok lx →
        e = lx.engine → ¬Token.Gap answer.tokens q.column := by
  subst hq
  obtain ⟨-, hsorted, -⟩ := Token.ordered_iff.1 answer.ordered
  have hin := d.content.inBounds_clamp p
  refine ⟨⟨_, token_answer config.fallsBack he, ?_, ?_, ?_⟩, ?_⟩
  · rw [Option.map_eq_none_iff, pick_eq_none_iff, hconfig]
    simp
  · intro hgap s hs
    by_cases hcovered : ∃ t ∈ answer.tokens,
        t.covers (d.content.clamp p).column
    · obtain ⟨t, hpick, ht⟩ := pick_of_covered hsorted hcovered
      rw [hpick] at hs
      obtain rfl := Option.some.inj hs
      exact .inl ⟨hcovered, around_of_covers _ ht.covers⟩
    · -- nothing covers the column and it is in no gap, so it is past all
      have hpast := fun t => Token.stop_le_of_not_gap (t := t) hgap hcovered
      rw [pick_of_uncovered fun t ht hc => hcovered ⟨t, ht, hc⟩, hconfig,
        if_pos rfl] at hs
      obtain ⟨last, hlast, rfl⟩ := Option.map_eq_some_iff.1 hs
      have hstop := hpast last (List.mem_of_getLast? hlast)
      exact .inr ⟨fun t => hpast t, hs, .inr ⟨rfl, hstop⟩⟩
  · intro hgap
    -- in a gap there is a token ahead, so the last one is ahead, too
    obtain ⟨t, ht, -⟩ := hgap.ahead
    have hlast := List.getLast?_eq_some_getLast (List.ne_nil_of_mem ht)
    have hstart := hgap.lt_start hsorted hlast
    rw [pick_of_uncovered hgap.uncovered, hconfig, if_pos rfl, hlast]
    exact ⟨_, rfl, rfl, .inr ⟨rfl, hstart⟩⟩
  · rintro g compiler lx - rfl
    exact (Grammar.Lexer.tiled_engine lx he).not_gap answer.ordered
      hin.column_nonneg hin.column_le

/-- A token, a gap, and another token up to the end of the line. -/
def spaced : LineResult :=
  ⟨[⟨0, 1, ["a"]⟩, ⟨2, 3, ["b"]⟩], .none, by decide⟩

/-- A document of one line, which is answered for so. -/
def spacedLine : Document :=
  .new "untitled:document" "plaintext" "a b".toList

/-- At the end of the line all tokens have stopped, and the last one
answers. -/
theorem lies_ahead_in_gaps_only_spaced :
    Config.default.fallsBack = true
      ∧ ¬Token.Gap spaced.tokens 3
      ∧ ∃ s : ScopedSpan, ((Lookup.token spacedLine
          (some fun _ _ => .ok spaced) true ⟨7, 0⟩).on default).1
          = .ok (some s) ∧ s.range.stop ≤ ⟨0, 3⟩ := by
  have hclamp : spacedLine.content.clamp ⟨7, 0⟩ = ⟨0, 3⟩ := by cbv
  have hstarts : ∀ t ∈ spaced.tokens, ¬(3 : Int) < t.start := by decide
  have huncovered : ¬∃ t ∈ spaced.tokens, t.covers 3 := by decide
  have hgap : ¬Token.Gap spaced.tokens 3 := fun h =>
    h.ahead.elim fun t ht => hstarts t ht.1 ht.2
  obtain ⟨⟨found, hon, hnone, hlies, -⟩, -⟩ := lies_ahead_in_gaps_only
    (d := spacedLine) (e := fun _ _ => .ok spaced) (b := default)
    Config.default rfl hclamp rfl
  cases found with
  | none => exact absurd (hnone.1 rfl) (by decide)
  | some s =>
      refine ⟨rfl, hgap, s, hon, ?_⟩
      rcases hlies hgap s rfl with ⟨hcovered, -⟩ | ⟨-, -, hstop⟩
      · exact absurd hcovered huncovered
      · exact hstop

/-- In the gap the last token answers as well, though it starts behind the
position. -/
theorem answered_ahead :
    spacedLine.content.clamp ⟨0, 1⟩ = ⟨0, 1⟩
      ∧ ∃ s : ScopedSpan, ((Lookup.token spacedLine
          (some fun _ _ => .ok spaced) Config.default.fallsBack
          ⟨0, 1⟩).on default).1 = .ok (some s)
        ∧ ¬((s.range.start ≤ ⟨0, 1⟩ ∧ ⟨0, 1⟩ < s.range.stop)
          ∨ s.range.stop ≤ ⟨0, 1⟩) := by
  have hclamp : spacedLine.content.clamp ⟨0, 1⟩ = ⟨0, 1⟩ := by cbv
  have hline : spacedLine.content.line 0 = "a b".toList := by cbv
  refine ⟨hclamp, ⟨⟨⟨0, 2⟩, ⟨0, 3⟩⟩, ['b'], ["b"]⟩, ?_, by decide⟩
  have hanswer : (fun _ _ => .ok spaced : Engine)
      (spacedLine.content.line (spacedLine.content.clamp ⟨0, 1⟩).line)
      ((default : Bench).cache.entering
        (spacedLine.content.clamp ⟨0, 1⟩).line) = .ok spaced := rfl
  rw [token_answer _ hanswer, hclamp]
  show Except.ok (some (info 0 (spacedLine.content.line 0)
    ⟨2, 3, ["b"]⟩)) = _
  rw [hline]
  rfl

end Lookup

end Relex
