/-
What can be seen of a state cache after it was changed.

An entry is looked at through `get?`, which does not tell an unset entry
from one that is missing. Each way of changing a cache is described by
what `get?` then answers for every line.

- Storing changes what is seen of its own line only (`get?_insert`).
- Realigning leaves the lines in front of the start alone, unsets those
  up to the new end, and lets every line from there on see what its
  counterpart saw (`get?_realign`), however short the cache was.

`entered?` is the other way to look at a line: the state it is entered in,
which the first line always has.
-/
import Relex.StateCache

namespace Relex.StateCache

variable (c : StateCache)

-- ============================================================ looking

theorem get?_natCast (i : Nat) : c.get? i = (c.entries[i]?).join := by
  unfold get?
  rw [if_neg (by omega), Int.toNat_natCast]

/-- In a cache without unset entries, states are seen where they are. -/
theorem get?_of_entries {states : List TokenState}
    (h : c.entries = states.map some) (i : Nat) :
    c.get? i = states[i]? := by
  rw [get?_natCast, h, List.getElem?_map]
  cases states[i]? <;> rfl

@[simp] theorem get?_empty (i : Int) : empty.get? i = none := by
  simp [get?, empty]

theorem lt_size_of_get? {i : Nat} {s : TokenState}
    (h : c.get? i = some s) : i < c.size := by
  rw [get?_natCast] at h
  by_cases hi : i < c.entries.length
  · exact hi
  · rw [List.getElem?_eq_none (by omega)] at h
    cases h

/-- A cache that shows states for all its lines consists of them. -/
theorem entries_of_get? {states : List TokenState}
    (hsize : c.size ≤ states.length)
    (h : ∀ i, i < states.length → c.get? i = states[i]?) :
    c.entries = states.map some := by
  -- the last line has an entry, so there is one for each line
  have hlen : c.entries.length = states.length := by
    refine Nat.le_antisymm hsize ?_
    cases hn : states.length with
    | zero => exact Nat.zero_le _
    | succ n =>
        have hlast := h n (by omega)
        rw [List.getElem?_eq_getElem (by omega)] at hlast
        exact c.lt_size_of_get? hlast
  refine List.ext_getElem? fun i => ?_
  rw [List.getElem?_map]
  by_cases hi : i < states.length
  · have hget := h i hi
    rw [get?_natCast, List.getElem?_eq_getElem (by omega),
      List.getElem?_eq_getElem hi] at hget
    rw [List.getElem?_eq_getElem (by omega),
      List.getElem?_eq_getElem hi]
    exact congrArg some hget
  · rw [List.getElem?_eq_none (by omega),
      List.getElem?_eq_none (by omega)]
    rfl

/-- The state a line is entered in, if it is known. -/
def entered? : Nat → Option TokenState
  | 0 => some .none
  | i + 1 => c.get? i

theorem entered?_of_entries {states : List TokenState}
    (h : c.entries = states.map some) (i : Nat) :
    c.entered? i = (TokenState.none :: states)[i]? := by
  cases i with
  | zero => rfl
  | succ i => exact c.get?_of_entries h i

/-- A line is entered in the state that is known, or else in the initial
one. -/
theorem entering_natCast (i : Nat) :
    c.entering i = (c.entered? i).getD .none := by
  cases i with
  | zero => rfl
  | succ i =>
      unfold entering leaving entered?
      rw [if_neg (by omega)]
      congr 2
      omega

-- ============================================================ storing

theorem join_getElem?_pad (n i : Nat) :
    ((c.entries ++ List.replicate n none)[i]?).join = c.get? i := by
  rw [get?_natCast, List.getElem?_append]
  split
  · rfl
  · next h =>
    rw [List.getElem?_eq_none (l := c.entries) (by omega),
      List.getElem?_replicate]
    split <;> rfl

/-- After storing, the line has its new state, and any other line what
it had. -/
theorem get?_insert (line : Nat) (state : TokenState) (i : Nat) :
    (c.insert line state).2.get? i
      = if i = line then some state else c.get? i := by
  have hlen : line < (c.entries
      ++ List.replicate (line + 1 - c.size) none).length := by
    rw [List.length_append, List.length_replicate]
    unfold size
    omega
  rw [get?_natCast]
  show ((List.set _ line (some state))[i]?).join = _
  rw [List.getElem?_set, if_pos hlen]
  by_cases h : line = i
  · rw [if_pos h, if_pos h.symm]
    rfl
  · rw [if_neg h, if_neg (Ne.symm h)]
    exact c.join_getElem?_pad _ i

/-- Storing tells whether the entry was another one, or unset. -/
theorem insert_changed (line : Nat) (state : TokenState) :
    (c.insert line state).1 = decide (c.get? line ≠ some state) := by
  rw [← c.join_getElem?_pad (line + 1 - c.size) line]
  rfl

theorem size_insert (line : Nat) (state : TokenState) :
    (c.insert line state).2.size = max c.size (line + 1) := by
  show (List.set _ line (some state)).length = _
  rw [List.length_set, List.length_append, List.length_replicate]
  show c.size + (line + 1 - c.size) = _
  omega

/-- Storing for the line behind the last entry adds an entry. -/
theorem entries_insert_size (state : TokenState) :
    (c.insert c.size state).2.entries = c.entries ++ [some state] := by
  show List.set (c.entries ++ List.replicate (c.size + 1 - c.size) none)
    c.size (some state) = _
  rw [Nat.add_sub_cancel_left,
    List.set_append_right _ _ (Nat.le_refl c.size)]
  show _ ++ List.set [none] (c.size - c.size) (some state) = _
  rw [Nat.sub_self]
  rfl

/-- Storing lets every line but the next be entered as before. -/
theorem entered?_insert (line : Nat) (state : TokenState) {i : Nat}
    (h : i ≠ line + 1) :
    (c.insert line state).2.entered? i = c.entered? i := by
  cases i with
  | zero => rfl
  | succ i => exact (c.get?_insert ..).trans (if_neg (by omega))

/-- The line behind the one stored for is entered in the stored state. -/
theorem entering_insert_succ (line : Nat) (state : TokenState) :
    (c.insert line state).2.entering (line + 1 : Nat) = state := by
  rw [entering_natCast]
  show ((c.insert line state).2.get? line).getD .none = _
  rw [get?_insert, if_pos rfl, Option.getD_some]

-- ============================================================ cutting

theorem get?_take (n i : Nat) :
    (c.take n).get? i = if i < n then c.get? i else none := by
  rw [get?_natCast, get?_natCast]
  show ((c.entries.take (n : Int).toNat)[i]?).join = _
  rw [Int.toNat_natCast, List.getElem?_take]
  split <;> rfl

theorem size_take (n : Nat) : (c.take n).size = min n c.size := by
  show (c.entries.take (n : Int).toNat).length = _
  rw [Int.toNat_natCast, List.length_take]
  rfl

theorem entered?_take {n i : Nat} (h : i ≤ n) :
    (c.take n).entered? i = c.entered? i := by
  cases i with
  | zero => rfl
  | succ i => exact (c.get?_take n i).trans (if_pos h)

theorem take_of_size_le {n : Nat} (h : c.size ≤ n) : c.take n = c := by
  unfold take
  rw [Int.toNat_natCast, List.take_of_length_le h]

-- ========================================================= realigning

theorem cut_natCast (i : Nat) : c.cut i = min i c.size := by
  unfold cut
  rw [if_neg (by omega), Int.toNat_natCast]

/-- Realigning leaves the entries in front of the start as they were,
unsets those from there to the new end, and moves each further entry
along with its line. -/
theorem get?_realign {start stop newStop : Nat} (h : start ≤ stop)
    (h' : start ≤ newStop) (i : Nat) :
    (c.realign start stop newStop).get? i
      = if i < start then c.get? i
        else if i < newStop then none
        else c.get? (i - newStop + stop : Nat) := by
  unfold realign
  by_cases hsize : c.size ≤ start
  · -- the cache ends in front of the start: nothing is to be seen there
    have hnone : ∀ j : Nat, start ≤ j → c.get? j = none := fun j hj => by
      rw [get?_natCast, List.getElem?_eq_none (by unfold size at hsize; omega)]
      rfl
    rw [if_pos (by omega)]
    by_cases hi : i < start
    · rw [if_pos hi]
    · rw [if_neg hi, hnone i (by omega), hnone _ (by omega), ite_self]
  · have hfirst : c.cut start = start := by
      rw [cut_natCast]
      omega
    have hgap : ((newStop : Int) - start).toNat = newStop - start := by
      omega
    have hlen : (c.entries.take start).length = start := by
      rw [List.length_take]
      unfold size at hsize
      omega
    rw [if_neg (by omega), get?_natCast]
    dsimp only
    rw [hfirst, hgap, List.append_assoc, List.getElem?_append, hlen]
    by_cases hi : i < start
    · rw [if_pos hi, if_pos hi, get?_natCast, List.getElem?_take,
        if_pos hi]
    · rw [if_neg hi, if_neg hi, List.getElem?_append,
        List.length_replicate]
      -- between the two ends there are unset entries only
      by_cases hn : i < newStop
      · rw [if_pos hn, if_pos (by omega), List.getElem?_replicate,
          if_pos (by omega)]
        rfl
      · rw [if_neg hn, if_neg (by omega), List.getElem?_drop, get?_natCast,
          cut_natCast]
        by_cases hstop : stop ≤ c.size
        · congr 2
          omega
        · rw [List.getElem?_eq_none (by unfold size at *; omega),
            List.getElem?_eq_none (by unfold size at *; omega)]

/-- After realigning, the lines up to the start are entered as before,
those from there to the new end in an unknown state, and each further one
as the line was that it comes from. -/
theorem entered?_realign {start stop newStop : Nat} (h : start ≤ stop)
    (h' : start ≤ newStop) (i : Nat) :
    (c.realign start stop newStop).entered? i
      = if i ≤ start then c.entered? i
        else if i ≤ newStop then none
        else c.entered? (i - newStop + stop) := by
  cases i with
  | zero => rfl
  | succ i =>
      have hget := c.get?_realign h h' i
      by_cases hi : i + 1 ≤ start
      · rw [if_pos (by omega)] at hget
        rw [if_pos hi]
        exact hget
      · rw [if_neg (by omega)] at hget
        rw [if_neg hi]
        by_cases hn : i + 1 ≤ newStop
        · rw [if_pos (by omega)] at hget
          rw [if_pos hn]
          exact hget
        · rw [if_neg (by omega)] at hget
          rw [if_neg hn, show i + 1 - newStop + stop
            = (i - newStop + stop) + 1 by omega]
          exact hget

end Relex.StateCache
