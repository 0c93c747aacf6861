/-
Searching on behind empty matches.

A search for a match that takes up a character is made in attempts. Each
is a search for any match, which finds the leftmost one
(`search_eq_some_iff`); where that is empty, the next attempt begins one
place behind its start (`Attempts`). The place an attempt begins at gets
greater each time and is never more than one behind the end of the text,
so there are no more attempts than places left (`Attempts.count_le`),
even if each of them comes upon an empty match, the last one upon that at
the end of the text.

Beginning again passes over places without looking: the empty match's own
start, which has no other match, and those in front of it, which have
none at all. So what is found is the leftmost match that takes up a
character (`place?_eq_some_iff`), and it is found from any place up to
its start on (`place?_later`).
-/
import Relex.Pattern.Reader
import Relex.Proofs.Pattern.Searching

namespace Relex.Pattern

/-- What holds first from a place on holds first from a later one on as
well, up to the place where it holds. -/
theorem Leftmost.later {P : Nat → Nat → Prop}
    {pos later start stop : Nat} (h : Leftmost P pos start stop)
    (hpos : pos ≤ later) (hstart : later ≤ start) :
    Leftmost P later start stop :=
  ⟨hstart, h.holds, fun s e hs => h.least s e (Nat.le_trans hpos hs)⟩

theorem Span.start_le {size pos : Nat} (span : Span size pos) :
    span.start ≤ size :=
  Nat.le_trans span.start_le_stop span.stop_le_size

namespace Matcher

-- =========================================================== attempts

/-- Searching from a place on for a match that takes up a character takes
so many attempts. It comes to one, from a place to another, or to
none. -/
inductive Attempts (m : Matcher) (text : Array Char) :
    Nat → Nat → Option (Nat × Nat) → Prop
  /-- Behind the end of the text there is nothing to attempt. -/
  | beyond {pos} (behind : text.size < pos) : Attempts m text 0 pos none
  /-- There is no match. -/
  | missed {pos} (within : pos ≤ text.size)
      (nothing : m.search text pos = none) :
      Attempts m text 1 pos none
  /-- The first match takes up a character. -/
  | taken {pos} {span : Span text.size pos}
      (found : m.search text pos = some span)
      (takes : span.start < span.stop) :
      Attempts m text 1 pos (some (span.start, span.stop))
  /-- The first match is empty, and the next attempt begins behind it. -/
  | skipped {count pos place} {span : Span text.size pos}
      (found : m.search text pos = some span)
      (empty : span.stop = span.start)
      (rest : Attempts m text count (span.start + 1) place) :
      Attempts m text (count + 1) pos place

/-- Where the first match is that takes up a character. -/
def place? (m : Matcher) (text : Array Char) (pos : Nat) :
    Option (Nat × Nat) :=
  (m.searchNonEmpty text pos).map fun s => (s.1.start, s.1.stop)

variable {m : Matcher} {text : Array Char} {pos : Nat}

theorem place?_of_missed (h : m.search text pos = none) :
    m.place? text pos = none := by
  rw [place?, searchNonEmpty, h]
  split <;> rfl

theorem place?_of_taken {span : Span text.size pos}
    (h : m.search text pos = some span) (takes : span.start < span.stop) :
    m.place? text pos = some (span.start, span.stop) := by
  have hpos : pos ≤ text.size :=
    Nat.le_trans span.pos_le_start span.start_le
  rw [place?, searchNonEmpty, dif_pos hpos, h]
  simp [takes]

theorem place?_of_empty {span : Span text.size pos}
    (h : m.search text pos = some span) (empty : span.stop = span.start) :
    m.place? text pos = m.place? text (span.start + 1) := by
  have hpos : pos ≤ text.size :=
    Nat.le_trans span.pos_le_start span.start_le
  have htakes : ¬span.start < span.stop := by omega
  rw [place?, searchNonEmpty, dif_pos hpos, h]
  simp [htakes, place?, Function.comp_def, Span.weaken]

theorem place?_of_beyond (h : text.size < pos) :
    m.place? text pos = none := by
  rw [place?, searchNonEmpty, dif_neg (Nat.not_le.2 h)]
  rfl

/-- The attempts come to what the search finds. -/
theorem Attempts.place?_eq {count : Nat} {place : Option (Nat × Nat)}
    (h : m.Attempts text count pos place) : m.place? text pos = place := by
  induction h with
  | beyond behind => exact place?_of_beyond behind
  | missed within nothing => exact place?_of_missed nothing
  | taken found takes => exact place?_of_taken found takes
  | skipped found empty rest ih => rw [place?_of_empty found empty, ih]

/-- Each attempt leaves at least one place less to begin the next at. -/
theorem Attempts.count_le {count : Nat} {place : Option (Nat × Nat)}
    (h : m.Attempts text count pos place) :
    count ≤ text.size + 1 - pos := by
  induction h with
  | beyond behind => exact Nat.zero_le _
  | missed within nothing => omega
  | @taken pos span found takes =>
      have hpos := span.pos_le_start
      have hstart := span.start_le
      omega
  | @skipped count pos place span found empty rest ih =>
      have hpos := span.pos_le_start
      have hstart := span.start_le
      omega

/-- The attempts come to an end. -/
theorem exists_attempts (m : Matcher) (text : Array Char) (pos : Nat) :
    ∃ count place, m.Attempts text count pos place := by
  induction pos using searchNonEmpty.induct m text with
  | case1 pos h hsearch => exact ⟨1, none, .missed h hsearch⟩
  | case2 pos h span hsearch htakes =>
      exact ⟨1, some (span.start, span.stop), .taken hsearch htakes⟩
  | case3 pos h span hsearch htakes ih =>
      obtain ⟨count, place, hrest⟩ := ih
      have hempty : span.stop = span.start :=
        Nat.le_antisymm (Nat.le_of_not_lt htakes) span.start_le_stop
      exact ⟨count + 1, place, .skipped hsearch hempty hrest⟩
  | case4 pos h => exact ⟨0, none, .beyond (Nat.lt_of_not_le h)⟩

-- ============================================================= places

/-- The search finds the leftmost match that takes up a character. -/
theorem place?_eq_some_iff {s e : Nat} :
    m.place? text pos = some (s, e)
      ↔ Leftmost (m.AtNonEmpty text) pos s e := by
  constructor
  · intro h
    obtain ⟨found, hfound, hplace⟩ := Option.map_eq_some_iff.1 h
    cases hplace
    exact searchNonEmpty_eq_some_iff.1 (by rw [hfound]; rfl)
  · intro h
    obtain ⟨span, rfl, rfl⟩ := h.holds.1.exists_span h.pos_le
    have hspan := searchNonEmpty_eq_some_iff.2 h
    obtain ⟨found, hfound, rfl⟩ := Option.map_eq_some_iff.1 hspan
    rw [place?, hfound]
    rfl

/-- A match that takes up a character is not missed for what stands in
front of it. -/
theorem exists_place? {s e : Nat} (hpos : pos ≤ s)
    (h : m.AtNonEmpty text s e) :
    ∃ start stop, m.place? text pos = some (start, stop) ∧ start ≤ s := by
  obtain ⟨start, stop, hfirst, hle⟩ := Leftmost.exists_le h hpos
  exact ⟨start, stop, place?_eq_some_iff.2 hfirst, hle⟩

/-- The search finds nothing if there is nothing to find. -/
theorem place?_eq_none_iff :
    m.place? text pos = none ↔ ∀ s e, pos ≤ s → ¬m.AtNonEmpty text s e := by
  constructor
  · intro h s e hpos hmatch
    obtain ⟨start, stop, hplace, -⟩ := exists_place? hpos hmatch
    rw [h] at hplace
    cases hplace
  · intro h
    cases hplace : m.place? text pos with
    | none => rfl
    | some place =>
        have hfirst := place?_eq_some_iff.1 hplace
        exact absurd hfirst.holds (h _ _ hfirst.pos_le)

/-- Begun later, but not behind where it found a match, the search finds
it again. -/
theorem place?_later {later s e : Nat}
    (h : m.place? text pos = some (s, e)) (hpos : pos ≤ later)
    (hstart : later ≤ s) : m.place? text later = some (s, e) :=
  place?_eq_some_iff.2 ((place?_eq_some_iff.1 h).later hpos hstart)

/-- Whatever is searched for and wherever, the search goes on behind
empty matches only so often. It finds the leftmost match that takes up a
character, and nothing only if there is none; an empty match hides none
that starts later. From anywhere up to the start of what it found it
finds the same. -/
theorem finds_first_nonempty (m : Matcher) (text : Array Char)
    (pos : Nat) :
    (∃ count place, m.Attempts text count pos place)
      ∧ (∀ count place, m.Attempts text count pos place →
        m.place? text pos = place ∧ count ≤ text.size + 1 - pos)
      ∧ (∀ s e, m.place? text pos = some (s, e)
        ↔ Leftmost (m.AtNonEmpty text) pos s e)
      ∧ (m.place? text pos = none
        ↔ ∀ s e, pos ≤ s → ¬m.AtNonEmpty text s e)
      ∧ (∀ s e, pos ≤ s → m.AtNonEmpty text s e →
        ∃ start stop, m.place? text pos = some (start, stop) ∧ start ≤ s)
      ∧ ∀ s e later, m.place? text pos = some (s, e) → pos ≤ later →
        later ≤ s → m.place? text later = some (s, e) :=
  ⟨exists_attempts m text pos, fun _ _ h => ⟨h.place?_eq, h.count_le⟩,
    fun _ _ => place?_eq_some_iff, place?_eq_none_iff,
    fun _ _ => exists_place?, fun _ _ _ => place?_later⟩

/-- Any number of a letter. -/
def letters : Node := .loop 0 none true (.set (.single 'x'.toNat))

/-- Two of the letter among others. -/
def amongOthers : Array Char := #['a', 'b', 'x', 'x', 'c']

/-- The pattern matches nothing twice before it matches two letters, and
the match of the second of these alone is not the first. -/
theorem finds_first_nonempty_letters :
    (Pattern.read "x*".toList).toOption = some letters
      ∧ letters.matcher.At amongOthers 0 0
      ∧ letters.matcher.Attempts amongOthers 3 0 (some (2, 4))
      ∧ letters.matcher.place? amongOthers 0 = some (2, 4)
      ∧ letters.matcher.AtNonEmpty amongOthers 3 4
      ∧ (∃ start stop, letters.matcher.place? amongOthers 0
        = some (start, stop) ∧ start ≤ 3)
      ∧ letters.matcher.place? amongOthers 1 = some (2, 4) := by
  have hnone : letters.matcher.search amongOthers 0
      = some ⟨0, 0, by decide, by decide, by decide⟩ := by decide +kernel
  have hagain : letters.matcher.search amongOthers 1
      = some ⟨1, 1, by decide, by decide, by decide⟩ := by decide +kernel
  have htwo : letters.matcher.search amongOthers 2
      = some ⟨2, 4, by decide, by decide, by decide⟩ := by decide +kernel
  have hattempts :
      letters.matcher.Attempts amongOthers 3 0 (some (2, 4)) :=
    .skipped hnone rfl (.skipped hagain rfl (.taken htwo (by decide)))
  have hsecond : letters.matcher.AtNonEmpty amongOthers 3 4 :=
    ⟨⟨by decide, by decide, by decide +kernel⟩, by decide⟩
  obtain ⟨-, hcome, -, -, hhides, hlater⟩ :=
    finds_first_nonempty letters.matcher amongOthers 0
  obtain ⟨hplace, -⟩ := hcome 3 (some (2, 4)) hattempts
  exact ⟨by decide +kernel, ⟨by decide, by decide, by decide +kernel⟩,
    hattempts, hplace, hsecond, hhides 3 4 (by decide) hsecond,
    hlater 2 4 1 hplace (by decide) (by decide)⟩

end Matcher

end Relex.Pattern
