/-
Which token answers for a column.

Tokens of a line may overlap, be empty, leave gaps and run past the line,
so a column may be covered by several of them, or by none. A query takes
the first one listed that covers it. That this one starts no later than
any other that covers the column is not looked at then: it follows from
the order of the list, which was checked when the engine's answer was
made.

That check makes one pass, and compares each token with the one before it
only. Nonetheless it accepts just the lists in which every two tokens are
in order (`Token.ordered_iff`). So the token that answers has the least
start of all that cover the column, and of those with that start it is the
first listed (`Token.Foremost`).
-/
import Mathlib
import Relex.Config
import Relex.Proofs.Lookup

namespace Relex

-- =============================================================== order

namespace Token

variable {tokens : List Token} {column least : Int} {t : Token}

/-- Comparing neighbours comes to comparing all pairs. -/
theorem ordered_iff : Ordered least tokens
    ↔ (∀ t ∈ tokens, least ≤ t.start)
      ∧ tokens.Pairwise (·.start ≤ ·.start)
      ∧ ∀ t ∈ tokens, t.start ≤ t.stop := by
  induction tokens generalizing least with
  | nil => simp [Ordered]
  | cons t rest ih =>
      rw [Ordered, ih, List.pairwise_cons]
      constructor
      · rintro ⟨hleast, hstop, hfrom, hsorted, hstops⟩
        refine ⟨?_, ⟨hfrom, hsorted⟩, ?_⟩
        · intro t' ht'
          rcases List.mem_cons.1 ht' with rfl | ht'
          · exact hleast
          · exact Int.le_trans hleast (hfrom t' ht')
        · exact List.forall_mem_cons.2 ⟨hstop, hstops⟩
      · rintro ⟨hleast, ⟨hfrom, hsorted⟩, hstops⟩
        exact ⟨hleast t (by simp), hstops t (by simp), hfrom, hsorted,
          fun t' ht' => hstops t' (.tail _ ht')⟩

/-- What is in order has no first token that is not. -/
theorem disorder?_of_ordered (h : Ordered least tokens) :
    disorder? least tokens = none := by
  induction tokens generalizing least with
  | nil => rfl
  | cons t rest ih =>
      obtain ⟨hleast, hstop, hrest⟩ := h
      rw [disorder?, if_neg (by omega)]
      exact ih hrest

/-- Of the tokens that cover the column, this one has the least start, and
it is the first listed of those with that start. -/
structure Foremost (tokens : List Token) (column : Int) (t : Token) :
    Prop where
  covers : t.covers column
  least : ∀ t' ∈ tokens, t'.covers column → t.start ≤ t'.start
  first : ∃ front back, tokens = front ++ t :: back
    ∧ ∀ t' ∈ front, t'.covers column → t'.start ≠ t.start

theorem Foremost.mem (h : Foremost tokens column t) : t ∈ tokens := by
  obtain ⟨front, back, rfl, -⟩ := h.first
  simp

/-- The first listed token that covers a column is the foremost of those
that do. -/
theorem foremost_of_at? (hsorted : tokens.Pairwise (·.start ≤ ·.start))
    (h : at? tokens column = some t) : Foremost tokens column t := by
  obtain ⟨hcovers, front, back, rfl, hfront⟩ :=
    List.find?_eq_some_iff_append.1 h
  have hbefore : ∀ t' ∈ front, ¬t'.covers column := by
    intro t' ht' hcovers'
    simpa [hcovers'] using hfront t' ht'
  have hbehind := (List.pairwise_append.1 hsorted).2.1
  refine ⟨hcovers, ?_, front, back, rfl, ?_⟩
  · intro t' ht' hcovers'
    rcases List.mem_append.1 ht' with ht' | ht'
    · exact absurd hcovers' (hbefore t' ht')
    · rcases List.mem_cons.1 ht' with rfl | ht'
      · exact Int.le_refl _
      · exact List.rel_of_pairwise_cons hbehind ht'
  · exact fun t' ht' hcovers' => absurd hcovers' (hbefore t' ht')

theorem at?_eq_none_iff :
    at? tokens column = none ↔ ∀ t ∈ tokens, ¬t.covers column :=
  List.find?_eq_none

end Token

-- ====================================================== line's answers

/-- An answer is made of just the tokens that are in order. -/
theorem LineResult.exists_check_iff {tokens : List Token}
    {next : TokenState} :
    (∃ answer, check tokens next = .ok answer)
      ↔ Token.Ordered 0 tokens := by
  constructor
  · rintro ⟨answer, h⟩
    unfold check at h
    split at h
    · next hnone => exact Token.ordered_of_disorder?_eq_none hnone
    · cases h
  · intro h
    have hnone := Token.disorder?_of_ordered h
    unfold check
    split
    · exact ⟨_, rfl⟩
    · next t hsome => cases hnone.symm.trans hsome

/-- An answer holds the tokens and the state that it was made of. -/
theorem LineResult.of_check {tokens : List Token} {next : TokenState}
    {answer : LineResult} (h : check tokens next = .ok answer) :
    answer.tokens = tokens ∧ answer.next = next := by
  unfold check at h
  split at h
  · cases h
    exact ⟨rfl, rfl⟩
  · cases h

namespace Lookup

-- ============================================================= picking

variable {tokens : List Token} {column : Int} {fallsBack : Bool}

/-- If tokens cover the column, the foremost of them is picked. -/
theorem pick_of_covered (hsorted : tokens.Pairwise (·.start ≤ ·.start))
    (h : ∃ t ∈ tokens, t.covers column) :
    ∃ t, pick tokens fallsBack column = some t
      ∧ t.Foremost tokens column := by
  cases hat : Token.at? tokens column with
  | none =>
      obtain ⟨t, ht, hcovers⟩ := h
      exact absurd hcovers (Token.at?_eq_none_iff.1 hat t ht)
  | some t =>
      refine ⟨t, ?_, Token.foremost_of_at? hsorted hat⟩
      unfold pick
      rw [hat]

/-- If no token covers the column, only falling back finds one. -/
theorem pick_of_uncovered (h : ∀ t ∈ tokens, ¬t.covers column) :
    pick tokens fallsBack column
      = if fallsBack then tokens.getLast? else none := by
  unfold pick
  rw [Token.at?_eq_none_iff.2 h]

theorem pick_eq_none_iff : pick tokens fallsBack column = none
    ↔ tokens = [] ∨ (∀ t ∈ tokens, ¬t.covers column) ∧ fallsBack = false
    := by
  by_cases h : ∃ t ∈ tokens, t.covers column
  · obtain ⟨t, ht, hcovers⟩ := h
    have hsome : pick tokens fallsBack column ≠ none := by
      intro hnone
      unfold pick at hnone
      split at hnone
      · cases hnone
      · next hat => exact Token.at?_eq_none_iff.1 hat t ht hcovers
    simp only [hsome, false_iff, not_or]
    exact ⟨List.ne_nil_of_mem ht, fun hall => hall.1 t ht hcovers⟩
  · have hnone : ∀ t ∈ tokens, ¬t.covers column :=
      fun t ht hcovers => h ⟨t, ht, hcovers⟩
    rw [pick_of_uncovered hnone]
    cases fallsBack with
    | false => exact iff_of_true rfl (.inr ⟨hnone, rfl⟩)
    | true => simp

-- ========================================================= the theorem

variable {d : Document} {e : Engine} {b : Bench}

/-- A position is looked up in a document, with any cache and under any
configuration, and the engine answers for the line that the position is on
once it is clamped, entered as the cache has it. If tokens of that answer
cover the column, the foremost of them is found: of the least start, and
the first listed with it. Nothing is found just when there are no tokens,
or none covers the column and falling back is not allowed. As to what
answers there are: an answer is made of given tokens just when no start is
negative, every two starts are in order, and no token stops before its
start; and then these are its tokens. -/
theorem lowest_start_wins (config : Config) {p q : Position}
    {answer : LineResult} (hq : d.content.clamp p = q)
    (he : e (d.content.line q.line) (b.cache.entering q.line)
      = .ok answer) :
    (∃ found, ((Lookup.token d (some e) config.fallsBack p).on b).1
        = .ok found
      ∧ ((∃ t ∈ answer.tokens, t.covers q.column) →
        ∃ t, t.Foremost answer.tokens q.column
          ∧ found = some (info q.line (d.content.line q.line) t))
      ∧ (found = none ↔ answer.tokens = []
        ∨ (∀ t ∈ answer.tokens, ¬t.covers q.column)
          ∧ config.fallsBack = false))
      ∧ ∀ tokens next,
        ((∃ made, LineResult.check tokens next = .ok made)
            ↔ (∀ t ∈ tokens, 0 ≤ t.start)
              ∧ tokens.Pairwise (·.start ≤ ·.start)
              ∧ ∀ t ∈ tokens, t.start ≤ t.stop)
          ∧ ∀ made, LineResult.check tokens next = .ok made →
            made.tokens = tokens ∧ made.next = next := by
  subst hq
  obtain ⟨-, hsorted, -⟩ := Token.ordered_iff.1 answer.ordered
  have hline := line?_of_inBounds (d.content.inBounds_clamp p)
  -- the answer depends on the tokens of the line only
  have htoken : ((Lookup.token d (some e) config.fallsBack p).on b).1
      = .ok ((pick answer.tokens config.fallsBack
          (d.content.clamp p).column).map (info (d.content.clamp p).line
            (d.content.line (d.content.clamp p).line))) := by
    rw [token_on, hline]
    dsimp only
    rw [he]
    rfl
  refine ⟨⟨_, htoken, fun hcovered => ?_, ?_⟩, fun tokens next =>
    ⟨LineResult.exists_check_iff.trans Token.ordered_iff,
      fun made => LineResult.of_check⟩⟩
  · obtain ⟨t, hpick, ht⟩ :
        ∃ t, pick answer.tokens config.fallsBack (d.content.clamp p).column
            = some t ∧ t.Foremost answer.tokens (d.content.clamp p).column :=
      pick_of_covered hsorted hcovered
    exact ⟨t, ht, congrArg _ hpick⟩
  · rw [Option.map_eq_none_iff]
    exact pick_eq_none_iff

/-- On a line of three characters: an empty token, two that overlap, a gap,
and one that starts at the end of the line and runs past it. -/
def overlapping : LineResult :=
  ⟨[⟨0, 0, ["empty"]⟩, ⟨1, 2, ["inner"]⟩, ⟨1, 4, ["outer"]⟩,
    ⟨3, 9, ["past"]⟩], .none, by decide⟩

/-- Two tokens cover the end of the line. The one found there is that
which starts further to the left. -/
theorem lowest_start_wins_overlapping :
    (⟨1, 4, ["outer"]⟩ : Token).Foremost overlapping.tokens 3
      ∧ ((Lookup.token (.new "untitled:document" "plaintext" "a\nbcd".toList)
          (some fun _ _ => .ok overlapping) true ⟨7, 0⟩).on default).1
        = .ok (some ⟨⟨⟨1, 1⟩, ⟨1, 4⟩⟩, "cd".toList, ["outer"]⟩) := by
  have hclamp : (Content.ofText "a\nbcd".toList).clamp ⟨7, 0⟩ = ⟨1, 3⟩ := by
    cbv
  have hline : (Content.ofText "a\nbcd".toList).line 1 = "bcd".toList := by
    cbv
  have houter : ∀ t ∈ overlapping.tokens, t.covers 3 → t.start ≤ 1 →
      t = ⟨1, 4, ["outer"]⟩ := by decide
  obtain ⟨⟨found, hfound, hcovered, -⟩, -⟩ := lowest_start_wins
    (d := .new "untitled:document" "plaintext" "a\nbcd".toList)
    (e := fun _ _ => .ok overlapping) (b := default) Config.default hclamp
    rfl
  obtain ⟨t, ht, rfl⟩ := hcovered ⟨⟨1, 4, ["outer"]⟩, by decide, by decide⟩
  obtain rfl := houter t ht.mem ht.covers
    (ht.least ⟨1, 4, ["outer"]⟩ (by decide) (by decide))
  refine ⟨ht, hfound.trans ?_⟩
  show Except.ok (some (info 1 ((Content.ofText "a\nbcd".toList).line 1)
    ⟨1, 4, ["outer"]⟩)) = _
  rw [hline]
  rfl

end Lookup

end Relex
