/-
Realigning as a shift.

A cache shows a state for some lines, and for all others none, however far
its entries reach. Seen so, realigning moves what is shown of the old end
line, and of all lines behind it, by as many lines as the document gains,
and shows nothing of the lines in between (`get?_realign_int`).

A batch is a stack of such shifts. A line keeps its entry if no change
replaces its end (`Range.SparesEndOf`); the entry moves by what the changes
gain whose ranges end on the line or further up (`Change.lineAfter`). That
is counted on the lines as they were before the batch, although the cache
is realigned change by change: what lies further down than a change is
moved before, but stays behind it. So no entry is lost, and since every
entry that is left has moved so, none is doubled
(`get?_realignedBy`, `exists_of_get?_realignedBy`). A line outside of all
replaced ranges is found where its entry went (`line?_spliceAll`).
-/
import Mathlib
import Relex.Proofs.Realigning

namespace Relex

-- ============================================================== a shift

namespace StateCache

variable (k : StateCache)

theorem get?_of_neg {i : Int} (h : i < 0) : k.get? i = none := if_pos h

/-- A line is entered in the state of the line above, if that is known. -/
theorem entering_eq (i : Int) :
    k.entering i = (k.get? (i - 1)).getD .none := by
  unfold entering
  split
  · rw [k.get?_of_neg (by omega)]
    rfl
  · rfl

/-- Realigning leaves the lines in front of the start as they were, shows
nothing of those from there to the new end, and of each further one what
was shown of the line it comes from. -/
theorem get?_realign_int {start stop newStop : Int} (hstart : 0 ≤ start)
    (hstop : start ≤ stop) (hnew : start ≤ newStop) (i : Int) :
    (k.realign start stop newStop).get? i
      = if i < start then k.get? i
        else if i < newStop then none
        else k.get? (i - newStop + stop) := by
  obtain ⟨a, rfl⟩ := Int.eq_ofNat_of_zero_le hstart
  obtain ⟨b, rfl⟩ := Int.eq_ofNat_of_zero_le (Int.le_trans hstart hstop)
  obtain ⟨n, rfl⟩ := Int.eq_ofNat_of_zero_le (Int.le_trans hstart hnew)
  by_cases hi : i < 0
  · rw [get?_of_neg _ hi, if_pos (by omega), get?_of_neg _ hi]
  · obtain ⟨j, rfl⟩ := Int.eq_ofNat_of_zero_le (Int.not_lt.1 hi)
    rw [k.get?_realign (Int.ofNat_le.1 hstop) (Int.ofNat_le.1 hnew)]
    simp only [Int.ofNat_lt]
    by_cases hgap : j < n
    · rw [if_pos hgap, if_pos hgap]
    · rw [if_neg hgap, if_neg hgap,
        show ((j - n + b : Nat) : Int) = j - n + b by omega]

end StateCache

-- ====================================================== lines of a range

/-- The line is not one of the range's. -/
def Range.Misses (r : Range) (i : Int) : Prop :=
  i < r.start.line ∨ r.stop.line < i

/-- The end of the line, where its entry belongs, is not in the range. -/
def Range.SparesEndOf (r : Range) (i : Int) : Prop :=
  i < r.start.line ∨ r.stop.line ≤ i

theorem Range.Misses.sparesEndOf {r : Range} {i : Int} (h : r.Misses i) :
    r.SparesEndOf i :=
  h.imp_right Int.le_of_lt

/-- The line above one that the range misses has its end outside, too. -/
theorem Range.Misses.sparesEndOf_above {r : Range} {i : Int}
    (h : r.Misses i) : r.SparesEndOf (i - 1) := by
  rcases h with h | h
  · exact .inl (by omega)
  · exact .inr (by omega)

namespace Change

/-- How many lines the document gains by the change. -/
def gain (change : Change) : Int :=
  Text.breakCount change.text
    - (change.range.stop.line - change.range.start.line)

/-- The line that the end of a line is on after the change. -/
def moves (change : Change) (i : Int) : Int :=
  if i < change.range.start.line then i else i + change.gain

/-- The line that the end of a line is on after a batch: it moves by what
the changes gain whose ranges end on that line or further up. -/
def lineAfter (changes : List Change) (i : Int) : Int :=
  i + ((changes.filter (·.range.stop.line ≤ i)).map gain).sum

variable {change : Change} {changes changes' : List Change} {i : Int}

theorem lineAfter_perm (h : changes.Perm changes') (i : Int) :
    lineAfter changes i = lineAfter changes' i := by
  unfold lineAfter
  rw [((h.filter _).map gain).sum_eq]

theorem lineAfter_cons_of_lt (h : i < change.range.stop.line) :
    lineAfter (change :: changes) i = lineAfter changes i := by
  unfold lineAfter
  rw [List.filter_cons_of_neg (by simpa using h)]

/-- Behind all changes every gain counts. -/
theorem lineAfter_of_le (h : ∀ u ∈ changes, u.range.stop.line ≤ i) :
    lineAfter changes i = i + (changes.map gain).sum := by
  unfold lineAfter
  rw [List.filter_eq_self.2 fun u hu => decide_eq_true (h u hu)]

/-- Behind a change, a line stays behind its start. -/
theorem start_le_add_gain (h : change.range.stop.line ≤ i) :
    change.range.start.line ≤ i + change.gain := by
  unfold gain
  omega

/-- Changes further up spare a line just when they spare it where a change
has moved it. -/
theorem sparesEndOf_moves_iff {u : Change}
    (hle : change.range.start.line ≤ change.range.stop.line)
    (habove : u.range.stop.line ≤ change.range.start.line)
    (h : change.range.SparesEndOf i) :
    u.range.SparesEndOf (change.moves i) ↔ u.range.SparesEndOf i := by
  unfold moves
  split
  · exact Iff.rfl
  · next hi =>
    have hi := h.resolve_left hi
    have hnew := start_le_add_gain hi
    exact iff_of_true (.inr (Int.le_trans habove hnew))
      (.inr (Int.le_trans habove (Int.le_trans hle hi)))

theorem misses_moves {u : Change}
    (habove : u.range.stop.line ≤ change.range.start.line)
    (hc : change.range.Misses i) (h : u.range.Misses i) :
    u.range.Misses (change.moves i) := by
  unfold moves
  split
  · exact h
  · next hi =>
    have hlt := hc.resolve_left hi
    refine .inr ?_
    unfold gain
    omega

/-- In stacked changes the lines of the others are above the lowest. -/
theorem Stacked.lines {c : Content} (h : Stacked c (change :: changes)) :
    change.range.start.line ≤ change.range.stop.line
      ∧ ∀ u ∈ changes, u.range.stop.line ≤ change.range.start.line :=
  ⟨Position.line_le h.head.2.2, fun u hu => Position.line_le (h.above u hu)⟩

/-- What the lowest change of a batch does to a line comes first, and what
the others do after that. -/
theorem lineAfter_cons
    (hle : change.range.start.line ≤ change.range.stop.line)
    (habove : ∀ u ∈ changes,
      u.range.stop.line ≤ change.range.start.line)
    (h : change.range.SparesEndOf i) :
    lineAfter (change :: changes) i
      = lineAfter changes (change.moves i) := by
  unfold moves
  split
  · next hi => exact lineAfter_cons_of_lt (by omega)
  · next hi =>
    have hi := h.resolve_left hi
    have hnew := start_le_add_gain hi
    rw [lineAfter_of_le, lineAfter_of_le, List.map_cons, List.sum_cons]
    · omega
    · intro u hu
      have := habove u hu
      omega
    · refine List.forall_mem_cons.2 ⟨hi, fun u hu => ?_⟩
      have := habove u hu
      omega

/-- On a line that every change misses no replaced range ends, so the line
above moves along with it. -/
theorem lineAfter_above
    (hle : ∀ u ∈ changes, u.range.start.line ≤ u.range.stop.line)
    (h : ∀ u ∈ changes, u.range.Misses i) :
    lineAfter changes (i - 1) = lineAfter changes i - 1 := by
  have hsame : changes.filter (·.range.stop.line ≤ i - 1)
      = changes.filter (·.range.stop.line ≤ i) := by
    refine List.filter_congr fun u hu => ?_
    have hu' := hle u hu
    refine decide_eq_decide.2 ?_
    rcases h u hu with h | h <;> omega
  unfold lineAfter
  rw [hsame]
  omega

end Change

-- ============================================================ one change

namespace Reparse

open Change Text

variable {c : Content} {k : StateCache} {change : Change} {d : Delta}
  {i : Int}

section

variable (hd : d.Describes change.range change.text)
  (hstart : 0 ≤ change.range.start.line)
  (hle : change.range.start.line ≤ change.range.stop.line)

include hd hstart hle

/-- The cache realigned for a change, in terms of the change. -/
theorem get?_realign_change (j : Int) :
    (k.realign d.start.line d.stop.line d.endLine).get? j
      = if j < change.range.start.line then k.get? j
        else if j < change.range.stop.line + change.gain then none
        else k.get? (j - change.gain) := by
  have hend : d.endLine = change.range.stop.line + change.gain := by
    rw [hd.endLine_eq]
    unfold gain
    omega
  have hnew := start_le_add_gain (Int.le_refl change.range.stop.line)
  rw [hend, hd.start, hd.stop, k.get?_realign_int hstart hle hnew]
  congr 3
  omega

/-- A line that the change spares takes its entry along. -/
theorem get?_realign_moves (h : change.range.SparesEndOf i) :
    (k.realign d.start.line d.stop.line d.endLine).get? (change.moves i)
      = k.get? i := by
  rw [get?_realign_change hd hstart hle]
  unfold moves
  by_cases hi : i < change.range.start.line
  · rw [if_pos hi, if_pos hi]
  · have hi' := h.resolve_left hi
    have hnew := start_le_add_gain hi'
    rw [if_neg hi, if_neg (by omega), if_neg (by omega),
      Int.add_sub_cancel]

/-- Each entry there is then was some line's before. -/
theorem exists_of_get?_realign {j : Int} {s : TokenState}
    (h : (k.realign d.start.line d.stop.line d.endLine).get? j = some s) :
    ∃ i, change.range.SparesEndOf i ∧ change.moves i = j
      ∧ k.get? i = some s := by
  rw [get?_realign_change hd hstart hle] at h
  split at h
  · next hj => exact ⟨j, .inl hj, if_pos hj, h⟩
  · split at h
    · cases h
    · next hj =>
      have hi : change.range.stop.line ≤ j - change.gain := by omega
      refine ⟨_, .inr hi, ?_, h⟩
      unfold moves
      rw [if_neg (by omega), Int.sub_add_cancel]

end

/-- A line that the change misses is found where it has gone. -/
theorem line?_splice_moves (hstart : c.InBounds change.range.start)
    (hle : change.range.start.line ≤ change.range.stop.line)
    (h : change.range.Misses i) :
    (c.splice change.range change.text).line? (change.moves i)
      = c.line? i := by
  obtain ⟨first, hfirst⟩ := Int.eq_ofNat_of_zero_le hstart.line_nonneg
  obtain ⟨last, hlast⟩ := Int.eq_ofNat_of_zero_le
    (Int.le_trans hstart.line_nonneg hle)
  have hlt : first < c.lineCount := by
    have := hstart.line_lt
    omega
  have hline := c.getElem?_splice change.text hfirst hlast hlt
  unfold moves Content.line?
  by_cases hi : i < change.range.start.line
  · rw [if_pos hi]
    by_cases hneg : i < 0
    · rw [if_pos hneg, if_pos hneg]
    · rw [if_neg hneg, if_neg hneg, hline _ (.inl (by omega)),
        if_pos (by omega)]
  · have hbehind := h.resolve_left hi
    have hgain : change.gain
        = breakCount change.text - ((last : Int) - first) := by
      unfold gain
      rw [hfirst, hlast]
    rw [if_neg hi, if_neg (by omega), if_neg (by omega),
      hline _ (.inr (by omega)), if_neg (by omega)]
    congr 1
    omega

-- ========================================================= whole batches

variable {pairs : List (Change × Delta)}

/-- Realigned for a whole batch, the cache shows of each line whose end no
change replaces what it showed before. -/
theorem get?_realignedBy (hd : Described pairs)
    (hs : Stacked c (pairs.map (·.1)))
    (h : ∀ u ∈ pairs.map (·.1), u.range.SparesEndOf i) :
    (realignedBy k (pairs.map (·.2))).get?
        (lineAfter (pairs.map (·.1)) i) = k.get? i := by
  induction pairs generalizing c k i with
  | nil => exact congrArg k.get? (Int.add_zero i)
  | cons pair upper ih =>
      obtain ⟨hle, habove⟩ := hs.lines
      obtain ⟨hself, hrest⟩ := List.forall_mem_cons.1 h
      rw [List.map_cons, List.map_cons, lineAfter_cons hle habove hself]
      refine (ih (fun p hp => hd p (by simp [hp])) hs.tail fun u hu =>
        (sparesEndOf_moves_iff hle (habove u hu) hself).2
          (hrest u hu)).trans ?_
      exact get?_realign_moves (hd pair (by simp)).2 hs.head.1.line_nonneg
        hle hself

/-- And it shows nothing else. -/
theorem exists_of_get?_realignedBy (hd : Described pairs)
    (hs : Stacked c (pairs.map (·.1))) {j : Int} {s : TokenState}
    (h : (realignedBy k (pairs.map (·.2))).get? j = some s) :
    ∃ i, (∀ u ∈ pairs.map (·.1), u.range.SparesEndOf i)
      ∧ lineAfter (pairs.map (·.1)) i = j ∧ k.get? i = some s := by
  induction pairs generalizing c k with
  | nil => exact ⟨j, by simp, Int.add_zero j, h⟩
  | cons pair upper ih =>
      obtain ⟨hle, habove⟩ := hs.lines
      obtain ⟨i₁, hrest, rfl, hget⟩ :=
        ih (fun p hp => hd p (by simp [hp])) hs.tail h
      obtain ⟨i, hself, rfl, hi⟩ := exists_of_get?_realign
        (hd pair (by simp)).2 hs.head.1.line_nonneg hle hget
      refine ⟨i, List.forall_mem_cons.2 ⟨hself, fun u hu => ?_⟩,
        lineAfter_cons hle habove hself, hi⟩
      exact (sparesEndOf_moves_iff hle (habove u hu) hself).1 (hrest u hu)

/-- A line that every change misses is found where its entry went. -/
theorem line?_spliceAll {changes : List Change} (hs : Stacked c changes)
    (h : ∀ u ∈ changes, u.range.Misses i) :
    (Document.spliceAll c changes).line? (lineAfter changes i)
      = c.line? i := by
  induction changes generalizing c i with
  | nil => exact congrArg c.line? (Int.add_zero i)
  | cons change upper ih =>
      obtain ⟨hle, habove⟩ := hs.lines
      obtain ⟨hself, hrest⟩ := List.forall_mem_cons.1 h
      rw [lineAfter_cons hle habove hself.sparesEndOf]
      refine (ih hs.tail fun u hu =>
        misses_moves (habove u hu) hself (hrest u hu)).trans ?_
      exact line?_splice_moves hs.head.1 hle hself

/-- Realigning for changes that have deltas goes through, and does nothing
but realign. -/
theorem realignAll_on (d : Document) (e : Engine) (strict : Bool)
    (b : Bench) (hd : Described pairs) :
    (realignAll d e strict (pairs.map (·.1))).on b
      = (.ok pairs,
        { b with cache := realignedBy b.cache (pairs.map (·.2)) }) := by
  have hends : Ends (realignAll d e strict (pairs.map (·.1))) b
      (fun ps b' => ps = pairs
        ∧ b' = { b with cache := realignedBy b.cache (pairs.map (·.2)) })
      (fun _ _ => False) := ends_realignAll hd ⟨rfl, rfl⟩
  rcases hends.elim with ⟨_, _, hon, rfl, rfl⟩ | ⟨_, _, -, hnot⟩
  · exact hon
  · exact hnot.elim

-- ========================================================= the theorem

/-- Any cache. Realigned for the lines from `a` to `b`, the last of which
becomes line `n`, it shows of the lines in front of `a` what it showed
before, of those from `a` to `n` nothing, and of each further one what it
showed of the line that is as far behind `b` as that one is behind `n`.

Realigned for all changes of a batch that a document accepted, from the
bottom upwards, it shows of every line that is on none of the replaced
ranges what it showed before, of the line and of the one it is entered
from; and the line is found there. Lines on which replaced ranges end keep
their entries as well, unless another range starts there and goes on. And
there is no entry that was not some line's before. -/
theorem realigning_shifts (k : StateCache) :
    (∀ a b n : Int, 0 ≤ a → a ≤ b → a ≤ n → ∀ i : Int,
      (i < a → (k.realign a b n).isSet i = k.isSet i
        ∧ (k.realign a b n).leaving i = k.leaving i)
      ∧ (a ≤ i → i < n → (k.realign a b n).isSet i = false)
      ∧ (n ≤ i → (k.realign a b n).isSet i = k.isSet (i - n + b)
        ∧ (k.realign a b n).leaving i = k.leaving (i - n + b)))
    ∧ ∀ (d d' : Document) (changes applied : List Change) (e : Engine)
        (strict : Bool) (t : Trace), d.apply changes = .ok (d', applied) →
      ∃ pairs k', (realignAll d' e strict (bottomUp applied)).on ⟨k, t⟩
          = (.ok pairs, ⟨k', t⟩)
        ∧ (∀ i, (∀ u ∈ applied, u.range.Misses i) →
          d'.content.line? (lineAfter applied i) = d.content.line? i
            ∧ k'.get? (lineAfter applied i) = k.get? i
            ∧ k'.get? (lineAfter applied i - 1) = k.get? (i - 1)
            ∧ k'.entering (lineAfter applied i) = k.entering i)
        ∧ (∀ i, (∀ u ∈ applied, u.range.SparesEndOf i) →
          k'.get? (lineAfter applied i) = k.get? i)
        ∧ ∀ j s, k'.get? j = some s →
          ∃ i, (∀ u ∈ applied, u.range.SparesEndOf i)
            ∧ lineAfter applied i = j ∧ k.get? i = some s := by
  refine ⟨fun a b n ha hb hn i => ?_, ?_⟩
  · have hget := k.get?_realign_int ha hb hn i
    unfold StateCache.isSet StateCache.leaving
    refine ⟨fun hi => ?_, fun hi hi' => ?_, fun hi => ?_⟩
    · rw [hget, if_pos hi]
      exact ⟨rfl, rfl⟩
    · rw [hget, if_neg (by omega), if_pos hi']
      rfl
    · rw [hget, if_neg (by omega), if_neg (by omega)]
      exact ⟨rfl, rfl⟩
  · intro d d' changes applied e strict t happly
    obtain ⟨-, hs, -, hcontent⟩ := Document.apply_eq_ok happly
    obtain ⟨pairs, hpairs, hd⟩ := exists_described hs.isValid
    have hperm := bottomUp_perm applied
    -- what is said of the changes does not depend on their order
    have hmem : ∀ {P : Change → Prop}, (∀ u ∈ applied, P u) ↔
        ∀ u ∈ bottomUp applied, P u := by
      intro P
      simp only [hperm.mem_iff]
    rw [hcontent]
    simp only [hmem, ← lineAfter_perm hperm]
    rw [← hpairs] at hs ⊢
    refine ⟨pairs, _, realignAll_on d' e strict ⟨k, t⟩ hd, fun i hi => ?_,
      fun i => get?_realignedBy hd hs, fun j s =>
        exists_of_get?_realignedBy hd hs⟩
    -- the entry in front of the line moves along with it
    have habove : (realignedBy k (pairs.map (·.2))).get?
        (lineAfter (pairs.map (·.1)) i - 1) = k.get? (i - 1) := by
      rw [← lineAfter_above (fun u hu =>
        Position.line_le (hs.inside u hu).2.2) hi]
      exact get?_realignedBy hd hs fun u hu => (hi u hu).sparesEndOf_above
    refine ⟨line?_spliceAll hs hi, get?_realignedBy hd hs
      fun u hu => (hi u hu).sparesEndOf, habove, ?_⟩
    rw [StateCache.entering_eq, StateCache.entering_eq, habove]

/-- A cache that does not reach the last line and has a gap. -/
def patchy : StateCache :=
  ⟨[some (.number 0), none, some (.number 2), some (.number 3)]⟩

/-- Two changes that share a line: the upper one ends on it, and the lower
one starts on it. -/
def sharing : List Change :=
  [⟨⟨⟨0, 0⟩, ⟨1, 0⟩⟩, "p\nq\nr\n".toList⟩, ⟨⟨⟨1, 0⟩, ⟨2, 0⟩⟩, []⟩]

def shared : Document :=
  .new "untitled:document" "plaintext" "a\nb\nc\nd\ne".toList

def sharedAfter : Document :=
  ⟨"untitled:document", "plaintext", 1,
    .ofText "p\nq\nr\nc\nd\ne".toList⟩

theorem realigning_shifts_shared :
    (patchy.realign 1 2 4).leaving 5 = .number 3
      ∧ shared.apply sharing = .ok (sharedAfter, sharing)
      ∧ ∃ pairs k', (realignAll sharedAfter .depth false
          (bottomUp sharing)).on ⟨patchy, .blank⟩ = (.ok pairs, ⟨k', .blank⟩)
        ∧ k'.get? 3 = some (.number 2)
        ∧ k'.get? 4 = some (.number 3) ∧ k'.entering 4 = .number 2 := by
  have happly : shared.apply sharing = .ok (sharedAfter, sharing) := by cbv
  have hthree : lineAfter sharing 3 = 4 := by cbv
  have htwo : lineAfter sharing 2 = 3 := by cbv
  have hmisses : ∀ u ∈ sharing, u.range.Misses 3 := by
    simp [sharing, Range.Misses]
  have hspares : ∀ u ∈ sharing, u.range.SparesEndOf 2 := by
    simp [sharing, Range.SparesEndOf]
  obtain ⟨hsingle, hbatch⟩ := realigning_shifts patchy
  obtain ⟨pairs, k', hon, houtside, hends, -⟩ :=
    hbatch _ _ _ _ .depth false .blank happly
  obtain ⟨-, hown, -, hentering⟩ := houtside 3 hmisses
  have hend := hends 2 hspares
  rw [hthree] at hown hentering
  rw [htwo] at hend
  exact ⟨((hsingle 1 2 4 (by decide) (by decide) (by decide) 5).2.2
    (by decide)).2, happly, pairs, k', hon, hend, hown, hentering⟩

end Reparse

end Relex
