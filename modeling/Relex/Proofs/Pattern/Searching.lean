/-
What a search finds.

A matcher tells of each place of a text the match it prefers there, if
there is one (`Matcher.At`); where a search began does not come into it.
So what a search has to find is said without the search: the match at the
least place from which on there is one (`Leftmost`). Both searches find
that, among all matches the one (`search_eq_some_iff`), and among those
that take up a character the other (`searchNonEmpty_eq_some_iff`), which
goes on one place behind each empty match it meets. They find nothing
only if there is nothing from the place on.
-/
import Relex.Pattern.Matching

namespace Relex.Pattern

-- =========================================================== leftmost

/-- From `pos` on, `start` is the first place at which the relation
holds, and it holds up to `stop` there. -/
structure Leftmost (P : Nat → Nat → Prop) (pos start stop : Nat) :
    Prop where
  pos_le : pos ≤ start
  holds : P start stop
  least : ∀ s e, pos ≤ s → s < start → ¬P s e

namespace Leftmost

variable {P : Nat → Nat → Prop} {pos start stop start' stop' : Nat}

theorem start_eq (h : Leftmost P pos start stop)
    (h' : Leftmost P pos start' stop') : start = start' := by
  apply Nat.le_antisymm
  · exact Nat.le_of_not_lt fun hlt =>
      h.least start' stop' h'.pos_le hlt h'.holds
  · exact Nat.le_of_not_lt fun hlt =>
      h'.least start stop h.pos_le hlt h.holds

/-- Where the relation holds, it holds first there or in front of it. -/
theorem exists_le {s e : Nat} (h : P s e) (hpos : pos ≤ s) :
    ∃ start stop, Leftmost P pos start stop ∧ start ≤ s := by
  induction s using Nat.strongRecOn generalizing e with
  | ind s ih =>
      by_cases hfront : ∃ s' e', pos ≤ s' ∧ s' < s ∧ P s' e'
      · obtain ⟨s', e', hpos', hlt, hp⟩ := hfront
        obtain ⟨start, stop, hfirst, hle⟩ := ih s' hlt hp hpos'
        exact ⟨start, stop, hfirst, by omega⟩
      · exact ⟨s, e, ⟨hpos, h, fun s' e' hle hlt hp =>
          hfront ⟨s', e', hle, hlt, hp⟩⟩, Nat.le_refl s⟩

/-- Searching from the next place on comes to the same if the relation
does not hold at the first. -/
theorem of_succ (h : Leftmost P (pos + 1) start stop)
    (hfirst : ∀ e, ¬P pos e) : Leftmost P pos start stop := by
  refine ⟨Nat.le_of_succ_le h.pos_le, h.holds, fun s e hs hlt => ?_⟩
  by_cases hpos : s = pos
  · rw [hpos]
    exact hfirst e
  · exact h.least s e (by omega) hlt

/-- Up to the first place at which a relation holds, a stronger one does
not hold. -/
theorem of_later {Q : Nat → Nat → Prop} {first : Nat}
    (hfirst : Leftmost P pos first stop') (hsub : ∀ s e, Q s e → P s e)
    (hat : ∀ e, ¬Q first e) (h : Leftmost Q (first + 1) start stop) :
    Leftmost Q pos start stop := by
  have hle := hfirst.pos_le
  have hlater := h.pos_le
  refine ⟨by omega, h.holds, fun s e hs hlt hq => ?_⟩
  by_cases hbefore : s < first
  · exact hfirst.least s e hs hbefore (hsub s e hq)
  · exact h.of_succ hat |>.least s e (by omega) hlt hq

end Leftmost

-- =========================================================== searches

namespace Matcher

variable {m : Matcher} {text : Array Char} {pos : Nat}

/-- The matcher's match at `start` ends at `stop`. -/
def At (m : Matcher) (text : Array Char) (start stop : Nat) : Prop :=
  ∃ (h : start ≤ text.size) (hs : start ≤ stop ∧ stop ≤ text.size),
    m text start h = some ⟨stop, hs⟩

/-- The matcher's match at `start` ends at `stop`, and takes up a
character. -/
def AtNonEmpty (m : Matcher) (text : Array Char) (start stop : Nat) :
    Prop :=
  m.At text start stop ∧ start < stop

/-- A place has one match. -/
theorem At.stop_eq {start stop stop' : Nat} (h : m.At text start stop)
    (h' : m.At text start stop') : stop = stop' := by
  obtain ⟨_, _, hm⟩ := h
  obtain ⟨_, _, hm'⟩ := h'
  rw [hm] at hm'
  simpa using hm'

/-- There are no matches behind the end of a text. -/
theorem At.start_le {start stop : Nat} (h : m.At text start stop) :
    start ≤ text.size := h.1

/-- A match from a place on is a span from there on. -/
theorem At.exists_span {start stop : Nat} (h : m.At text start stop)
    (hpos : pos ≤ start) :
    ∃ span : Span text.size pos, span.start = start ∧ span.stop = stop := by
  obtain ⟨_, ⟨hs, ht⟩, _⟩ := h
  exact ⟨⟨start, stop, hpos, hs, ht⟩, rfl, rfl⟩

/-- The outcome of a search from `pos` on for matches of a kind: the
first of them, or nothing if there is none. -/
def Finds (P : Nat → Nat → Prop) (pos : Nat) :
    Option (Span text.size pos) → Prop
  | some span => Leftmost P pos span.start span.stop
  | none => ∀ s e, pos ≤ s → ¬P s e

theorem finds_search (m : Matcher) (text : Array Char) (pos : Nat) :
    Finds (m.At text) pos (m.search text pos) := by
  induction pos using Matcher.search.induct m text with
  | case1 pos h stop hs ht hm =>
      rw [search, dif_pos h, hm]
      exact ⟨Nat.le_refl pos, ⟨h, ⟨hs, ht⟩, hm⟩,
        fun s e hle hlt => absurd hle (Nat.not_le.2 hlt)⟩
  | case2 pos h hm ih =>
      rw [search, dif_pos h, hm]
      have hfirst : ∀ e, ¬m.At text pos e := by
        intro e ⟨_, _, hsome⟩
        rw [hm] at hsome
        cases hsome
      cases hsearch : m.search text (pos + 1) with
      | some span =>
          rw [hsearch] at ih
          exact Leftmost.of_succ ih hfirst
      | none =>
          rw [hsearch] at ih
          intro s e hle
          by_cases hs : s = pos
          · rw [hs]
            exact hfirst e
          · exact ih s e (by omega)
  | case3 pos h =>
      rw [search, dif_neg h]
      intro s e hle hat
      exact h (Nat.le_trans hle hat.start_le)

theorem finds_searchNonEmpty (m : Matcher) (text : Array Char)
    (pos : Nat) :
    Finds (m.AtNonEmpty text) pos
      ((m.searchNonEmpty text pos).map (·.1)) := by
  induction pos using Matcher.searchNonEmpty.induct m text with
  | case1 pos h hsearch =>
      rw [searchNonEmpty, dif_pos h, hsearch]
      have hfinds := m.finds_search text pos
      rw [hsearch] at hfinds
      exact fun s e hle hat => hfinds s e hle hat.1
  | case2 pos h span hsearch hs =>
      rw [searchNonEmpty, dif_pos h, hsearch]
      dsimp only
      rw [dif_pos hs]
      have hfinds := m.finds_search text pos
      rw [hsearch] at hfinds
      exact ⟨hfinds.pos_le, ⟨hfinds.holds, hs⟩,
        fun s e hle hlt hat => hfinds.least s e hle hlt hat.1⟩
  | case3 pos h span hsearch hs ih =>
      rw [searchNonEmpty, dif_pos h, hsearch]
      dsimp only
      rw [dif_neg hs]
      -- an empty match: nothing up to it, and the search goes on behind it
      have hfinds := m.finds_search text pos
      rw [hsearch] at hfinds
      have hat : ∀ e, ¬m.AtNonEmpty text span.start e := by
        intro e ⟨hat, hlt⟩
        rw [hat.stop_eq hfinds.holds] at hlt
        exact hs hlt
      have hsub : ∀ s e, m.AtNonEmpty text s e → m.At text s e :=
        fun s e hat => hat.1
      cases hmore : m.searchNonEmpty text (span.start + 1) with
      | some found =>
          rw [hmore] at ih
          exact Leftmost.of_later hfinds hsub hat ih
      | none =>
          rw [hmore] at ih
          intro s e hle hmatch
          by_cases hbefore : s < span.start
          · exact hfinds.least s e hle hbefore hmatch.1
          · by_cases hself : s = span.start
            · rw [hself] at hmatch
              exact hat e hmatch
            · exact ih s e (by omega) hmatch
  | case4 pos h =>
      rw [searchNonEmpty, dif_neg h]
      intro s e hle hat
      exact h (Nat.le_trans hle hat.1.start_le)

/-- What a search that finds the first match of a kind found is told by
where it is. -/
theorem Finds.eq_some_iff {P : Nat → Nat → Prop}
    {found : Option (Span text.size pos)} (h : Finds P pos found)
    (hP : ∀ s e e', P s e → P s e' → e = e') {span : Span text.size pos} :
    found = some span ↔ Leftmost P pos span.start span.stop := by
  constructor
  · intro hsome
    rw [hsome] at h
    exact h
  · intro hleft
    cases found with
    | none => exact absurd hleft.holds (h _ _ hleft.pos_le)
    | some other =>
        have hstart : other.start = span.start := Leftmost.start_eq h hleft
        have hholds : P other.start other.stop := h.holds
        rw [hstart] at hholds
        have hstop := hP _ _ _ hholds hleft.holds
        cases other
        cases span
        dsimp only at hstart hstop
        subst hstart hstop
        rfl

/-- A search finds the leftmost match. -/
theorem search_eq_some_iff {span : Span text.size pos} :
    m.search text pos = some span
      ↔ Leftmost (m.At text) pos span.start span.stop :=
  (m.finds_search text pos).eq_some_iff fun _ _ _ h h' => h.stop_eq h'

/-- A search for matches that take up a character finds the leftmost of
these; empty ones in front of it do not hide it. -/
theorem searchNonEmpty_eq_some_iff {span : Span text.size pos} :
    (m.searchNonEmpty text pos).map (·.1) = some span
      ↔ Leftmost (m.AtNonEmpty text) pos span.start span.stop :=
  (m.finds_searchNonEmpty text pos).eq_some_iff
    fun _ _ _ h h' => h.1.stop_eq h'.1

end Matcher

end Relex.Pattern
