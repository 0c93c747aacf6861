/-
Stopping early loses nothing.

Mending a range goes on past it only as long as stored states change.
What that is measured by is going on to the end of the document whatever
happens, which without a cascade, and without the engine failing, comes
to one change of the cache (`retold`).

The two agree if below the range every entry was current to begin with:
set, and what the engine answers for the state above it. Storing a state
leaves every other line current except the next one, and that one too
unless the entry changed (`Current.insert`). So where the cascade stops
all lines that are left are current, and telling a current line again
stores what is there already (`retold_of_current`).

Nothing is asked of the entries up to the end of the range, nor of those
past the end of the document.
-/
import Mathlib
import Relex.Proofs.Tally

namespace Relex

namespace StateCache

variable {c : StateCache} {e : Engine} {lines : List Line} {i j : Nat}

-- ======================================================== current lines

/-- The line's entry is set, and what the engine answers for the state the
line is entered in. -/
def Current (c : StateCache) (e : Engine) (lines : List Line) (i : Nat) :
    Prop :=
  ∃ line a, lines[i]? = some line ∧ e line (c.entering i) = .ok a
    ∧ c.get? i = some a.next

theorem entering_insert (line : Nat) (state : TokenState)
    (h : i ≠ line + 1) :
    (c.insert line state).2.entering i = c.entering i := by
  rw [entering_natCast, entering_natCast, entered?_insert _ _ _ h]

/-- Storing what stands there already does nothing. -/
theorem insert_of_get? {s : TokenState} (h : c.get? i = some s) :
    c.insert i s = (false, c) := by
  have hlt := c.lt_size_of_get? h
  have hgap : i + 1 - c.size = 0 := by omega
  have hat : c.entries[i]? = some (some s) := by
    rw [get?_natCast] at h
    exact Option.join_eq_some_iff.1 h
  refine Prod.ext ?_ ?_
  · rw [insert_changed, h]
    simp
  · unfold insert
    dsimp only
    rw [hgap, List.replicate_zero, List.append_nil]
    congr 1
    refine List.ext_getElem? fun n => ?_
    rw [List.getElem?_set]
    split
    · next hn =>
      rw [← hn, hat]
      exact if_pos hlt
    · rfl

/-- Storing leaves another line current, except the next one where the
entry has changed. -/
theorem Current.insert (h : c.Current e lines j) (hne : j ≠ i)
    (s : TokenState) : (c.insert i s).2.Current e lines j
      ∨ ((c.insert i s).1 = true ∧ j = i + 1) := by
  by_cases hsame : c.get? i = some s
  · rw [insert_of_get? hsame]
    exact .inl h
  · by_cases hnext : j = i + 1
    · refine .inr ⟨?_, hnext⟩
      rw [insert_changed]
      exact decide_eq_true hsame
    · obtain ⟨line, a, hl, ha, hget⟩ := h
      refine .inl ⟨line, a, hl, ?_, ?_⟩
      · rw [entering_insert _ _ hnext]
        exact ha
      · rw [get?_insert, if_neg hne]
        exact hget

/-- Every line from `first` on is current, except for line `next` if the
entry in front of it has changed. -/
def CurrentFrom (c : StateCache) (e : Engine) (lines : List Line)
    (first : Nat) (changed : Bool) (next : Nat) : Prop :=
  ∀ j, first ≤ j → j < lines.length →
    c.Current e lines j ∨ (changed = true ∧ j = next)

/-- Storing the state of a line further up moves the exception on to the
next line. -/
theorem CurrentFrom.insert {first : Nat} {changed : Bool}
    (h : c.CurrentFrom e lines first changed i) (hi : i < first)
    (s : TokenState) : (c.insert i s).2.CurrentFrom e lines first
      (c.insert i s).1 (i + 1) := by
  intro j hj hjl
  have hcurrent := (h j hj hjl).resolve_right (by omega)
  exact hcurrent.insert (by omega) s

theorem CurrentFrom.mono {first later next : Nat} {changed : Bool}
    (h : c.CurrentFrom e lines first changed next) (hle : first ≤ later) :
    c.CurrentFrom e lines later changed next :=
  fun j hj => h j (Nat.le_trans hle hj)

-- ================================================== telling lines again

/-- The cache after lines were told to the engine again, the first of them
being line `i`, and every state stored. On a line on which the engine
fails that ends. -/
def retold (c : StateCache) (e : Engine) (i : Nat) :
    List Line → StateCache
  | [] => c
  | line :: rest =>
    match e line (c.entering i) with
    | .ok a => retold (c.insert i a.next).2 e (i + 1) rest
    | .error _ => c

theorem retold_cons {line : Line} {a : LineResult}
    (ha : e line (c.entering i) = .ok a) :
    c.retold e i (line :: rest)
      = (c.insert i a.next).2.retold e (i + 1) rest := by
  rw [retold, ha]

theorem retold_append (he : e.Total) (xs ys : List Line) :
    c.retold e i (xs ++ ys)
      = (c.retold e i xs).retold e (i + xs.length) ys := by
  induction xs generalizing c i with
  | nil => rfl
  | cons line xs ih =>
      obtain ⟨a, ha⟩ := he line (c.entering i)
      rw [List.cons_append, retold_cons ha, retold_cons ha, ih,
        List.length_cons, show i + 1 + xs.length = i + (xs.length + 1)
          by omega]

/-- Entries in front of the lines told again stay as they were. -/
theorem get?_retold_of_lt {n : Int} (h : n < i) (lines : List Line) :
    (c.retold e i lines).get? n = c.get? n := by
  induction lines generalizing c i with
  | nil => rfl
  | cons line rest ih =>
      rw [retold]
      split
      · next a ha =>
        rw [ih (by omega)]
        by_cases hn : n < 0
        · simp only [get?, if_pos hn]
        · obtain ⟨m, rfl⟩ := Int.eq_ofNat_of_zero_le (Int.not_lt.1 hn)
          rw [get?_insert, if_neg (by omega)]
      · rfl

/-- Lines told again have the states of their full build. -/
theorem get?_retold {states : List TokenState}
    (h : e.fullBuild (c.entering i) lines = .ok states)
    (hj : j < lines.length) :
    (c.retold e i lines).get? (i + j : Nat) = states[j]? := by
  induction lines generalizing c i j states with
  | nil => cases hj
  | cons line rest ih =>
      obtain ⟨a, others, ha, hrest, rfl⟩ := Engine.fullBuild_cons h
      have hself : (c.insert i a.next).2.get? i = some a.next := by
        rw [get?_insert, if_pos rfl]
      rw [retold_cons ha]
      cases j with
      | zero =>
          rw [get?_retold_of_lt (by omega)]
          exact hself
      | succ j =>
          rw [← c.entering_insert_succ i a.next] at hrest
          rw [show i + (j + 1) = i + 1 + j by omega]
          exact ih hrest (Nat.lt_of_succ_lt_succ hj)

/-- Telling current lines again, up to the last, does nothing. -/
theorem retold_of_current
    (h : ∀ j, i ≤ j → j < lines.length → c.Current e lines j) :
    c.retold e i (lines.drop i) = c := by
  induction hleft : lines.length - i generalizing i with
  | zero =>
      rw [List.drop_eq_nil_of_le (by omega)]
      rfl
  | succ left ih =>
      have hi : i < lines.length := by omega
      obtain ⟨line, a, hl, ha, hget⟩ := h i (Nat.le_refl i) hi
      rw [List.getElem?_eq_getElem hi] at hl
      obtain rfl := Option.some.inj hl
      rw [List.drop_eq_getElem_cons hi, retold_cons ha,
        insert_of_get? hget]
      exact ih (fun j hj => h j (by omega)) (by omega)

end StateCache

namespace Reparse

open StateCache

variable {d : Document} {e : Engine} {b : Bench}

-- =========================================================== the work

/-- Tokenizing a line tells it again, and answers whether its entry
changed. -/
theorem ends_retokenize_retold (he : e.Total) {i : Nat}
    (hi : i < d.lines.length) :
    Ends (retokenize d e i) b
      (fun answer b' => ∃ a, e d.lines[i] (b.cache.entering i) = .ok a
        ∧ answer.2 = (b.cache.insert i a.next).1
        ∧ b'.cache = (b.cache.insert i a.next).2)
      (fun _ _ => False) := by
  refine ends_retokenize_of (List.getElem?_eq_getElem hi) ?_ ?_
  · exact fun a ha => ⟨a, ha, rfl, rfl⟩
  · exact fun _ hf => not_total_of_fault hf he

/-- Tokenizing lines in a row tells them again. If all lines behind them
were current, all still are but for the first, should the entry of the
last line have changed. -/
theorem ends_retokenizeAll_retold (he : e.Total) {i count : Nat}
    {changed : Bool} (hi : i + count ≤ d.lines.length)
    (h : b.cache.CurrentFrom e d.lines (i + count) changed i) :
    Ends (retokenizeAll d e i changed count) b
      (fun changed b' =>
        b'.cache = b.cache.retold e i ((d.lines.drop i).take count)
          ∧ b'.cache.CurrentFrom e d.lines (i + count) changed (i + count))
      (fun _ _ => False) := by
  induction count generalizing i b changed with
  | zero => exact .pure ⟨rfl, h⟩
  | succ count ih =>
      have hlt : i < d.lines.length := by omega
      rw [show i + (count + 1) = i + 1 + count by omega] at h hi ⊢
      refine .bind ((ends_retokenize_retold he hlt).mono ?_
        fun _ _ h => h)
      rintro ⟨_, changed'⟩ b' ⟨a, ha, rfl, hb'⟩
      have hrest := h.insert (by omega) a.next
      rw [← hb'] at hrest
      refine (ih (i := i + 1) hi hrest).mono ?_ fun _ _ h => h
      rintro changed'' b'' ⟨hb'', hcurrent⟩
      refine ⟨?_, hcurrent⟩
      rw [hb'', hb', List.drop_eq_getElem_cons hlt, List.take_succ_cons,
        retold_cons ha]

/-- The cascade comes to telling every line again from where it starts, if
all further ones are current, and that one too unless the line in front
of it has changed. -/
theorem ends_cascade_retold (he : e.Total) {i left : Nat} {changed : Bool}
    (hi : i + left = d.lines.length)
    (h : b.cache.CurrentFrom e d.lines i changed i) :
    Ends (cascade d e i changed left) b
      (fun _ b' => b'.cache = b.cache.retold e i (d.lines.drop i))
      (fun _ _ => False) := by
  induction left generalizing i b changed with
  | zero =>
      refine .pure ?_
      rw [List.drop_eq_nil_of_le (by omega)]
      rfl
  | succ left ih =>
      have hlt : i < d.lines.length := by omega
      unfold cascade
      split
      · refine .bind ((ends_retokenize_retold he hlt).mono ?_
          fun _ _ h => h)
        rintro ⟨_, changed'⟩ b' ⟨a, ha, rfl, hb'⟩
        have hrest := (h.mono (Nat.le_succ i)).insert
          (Nat.lt_succ_self i) a.next
        rw [← hb'] at hrest
        refine .bind ((ih (i := i + 1) (by omega) hrest).mono ?_
          fun _ _ h => h)
        intro _ b'' hb''
        refine .pure ?_
        rw [hb'', hb', List.drop_eq_getElem_cons hlt, retold_cons ha]
      · next hc =>
        refine .pure (retold_of_current fun j hj hjd => ?_).symm
        exact (h j hj hjd).resolve_right fun hch => hc hch.1

/-- Mending a range comes to telling every line again from the range's
first on, if all lines below the range are current. -/
theorem ends_mendRange_retold (he : e.Total) {r : Range}
    {first last : Nat}
    (hfirst : (d.content.clampRange r).start.line = first)
    (hlast : (d.content.clampRange r).stop.line = last)
    (hle : first ≤ last) (hlt : last < d.lineCount)
    (h : ∀ j, last < j → j < d.lineCount →
      b.cache.Current e d.lines j) :
    Ends (mendRange d e r) b
      (fun _ b' => b'.cache
        = b.cache.retold e first (d.lines.drop first))
      (fun _ _ => False) := by
  have hcount : d.lines.length = d.lineCount := rfl
  have hsplit : d.lines.drop first
      = (d.lines.drop first).take (last + 1 - first)
        ++ d.lines.drop (last + 1) := by
    conv_lhs => rw [← List.take_append_drop (last + 1 - first)
      (d.lines.drop first)]
    rw [List.drop_drop,
      show first + (last + 1 - first) = last + 1 by omega]
  have hlen : ((d.lines.drop first).take (last + 1 - first)).length
      = last + 1 - first := by
    rw [List.length_take, List.length_drop]
    omega
  have hend : first + (last + 1 - first) = last + 1 := by omega
  refine ends_mendRange_of hfirst hlast hle hlt
    ((ends_retokenizeAll_retold he (by omega)
      fun j hj hjd => .inl (h j (by omega) hjd)).mono ?_ fun _ _ h => h)
  rintro changed b₁ ⟨h₁, hcurrent⟩
  rw [hend] at hcurrent
  refine (ends_cascade_retold he (by omega) hcurrent).mono ?_
    fun _ _ h => h
  intro cascaded b₂ h₂
  rw [hsplit, retold_append he, hlen, hend, ← h₁]
  exact h₂

-- ========================================================= the theorem

/-- Mending a range while states keep changing leaves the cache that going
on to the end of the document leaves, if every entry below the range was
current. Entries above the range are not touched, those from its first
line on are the full build of these lines. The answer is how many lines
were handed to the engine; they follow each other from the range's first
on, and none is past the end of the document. -/
theorem mendRange_eq_retokenizeAll (he : e.Total) {r : Range}
    {first last : Nat}
    (hfirst : (d.content.clampRange r).start.line = first)
    (hlast : (d.content.clampRange r).stop.line = last)
    (h : ∀ j, last < j → j < d.lineCount →
      b.cache.Current e d.lines j) :
    ∃ (n : Nat) (b' : Bench), (mendRange d e r).on b = (.ok (n : Int), b')
      ∧ (∀ i : Int, i < first → b'.cache.get? i = b.cache.get? i)
      ∧ (∃ changed b'', (retokenizeAll d e first false
            (d.lineCount - first)).on b = (.ok changed, b'')
          ∧ b'.cache = b''.cache)
      ∧ (∃ states, e.fullBuild (b.cache.entering first)
            (d.lines.drop first) = .ok states
          ∧ ∀ j, first + j < d.lineCount →
            b'.cache.get? (first + j : Nat) = states[j]?)
      ∧ b'.trace.calls
        = b.trace.calls ++ (d.lines.drop first).take n
      ∧ n ≤ d.lineCount - first := by
  obtain ⟨first', last', hfirst', hlast', hle, hlt⟩ :=
    exists_lines_clampRange d r
  have hcount : d.lines.length = d.lineCount := rfl
  replace hle : first ≤ last := by omega
  replace hlt : last < d.lineCount := by omega
  -- the run that stops early: what it leaves, and what it counts
  obtain ⟨n, b', hrun, hcache, cascaded, entries, rfl, hend, -, htrace⟩ :=
    ((ends_mendRange_retold he hfirst hlast hle hlt h).and
      (tally_mendRange hfirst hlast hle hlt)).mono
        (fun _ _ h => h) (fun _ _ h => h.1) |>.exists_ok
  -- the run that does not
  obtain ⟨changed, b'', hall, hcache', -⟩ :=
    show ∃ changed b'', (retokenizeAll d e first false
          (d.lineCount - first)).on b = (.ok changed, b'')
        ∧ b''.cache = _ ∧ _ from
      (ends_retokenizeAll_retold he
        (show first + (d.lineCount - first) ≤ d.lines.length by omega)
        fun j hj hjd => absurd hjd (by omega)).exists_ok
  obtain ⟨states, hstates⟩ := he.exists_fullBuild (b.cache.entering first)
    (d.lines.drop first)
  refine ⟨_, b', hrun, fun i hi => ?_, ⟨changed, b'', hall, ?_⟩,
    ⟨states, hstates, fun j hj => ?_⟩, ?_, by omega⟩
  · rw [hcache, get?_retold_of_lt hi]
  · rw [hcache, hcache', List.take_of_length_le]
    rw [List.length_drop]
    omega
  · rw [hcache, get?_retold hstates]
    rw [List.length_drop]
    omega
  · rw [htrace]
    rfl

/-- A range below a gap, the first of its two lines with a state from
elsewhere: only the second line's state is as before, and there it
stops, two lines ahead of the end. -/
theorem mendRange_eq_retokenizeAll_two :
    ∃ d b b' b'', d = Document.new "untitled:document" "plaintext"
        "z\na\n\x7b\nb\n\x7d".toList
      ∧ b = (⟨⟨[none, some (.text "x"), some (.number 1),
          some (.number 1), some (.number 0), some (.number 7)]⟩,
          .blank⟩ : Bench)
      ∧ (mendRange d .depth ⟨⟨1, 0⟩, ⟨2, 0⟩⟩).on b = (.ok 2, b')
      ∧ (∃ changed,
        (retokenizeAll d .depth 1 false 4).on b = (.ok changed, b''))
      ∧ b'.cache = b''.cache
      ∧ b'.trace.calls = ["a".toList, "\x7b".toList] := by
  let d := Document.new "untitled:document" "plaintext"
    "z\na\n\x7b\nb\n\x7d".toList
  let b : Bench := ⟨⟨[none, some (.text "x"), some (.number 1),
    some (.number 1), some (.number 0), some (.number 7)]⟩, .blank⟩
  have hfirst : (d.content.clampRange ⟨⟨1, 0⟩, ⟨2, 0⟩⟩).start.line
      = (1 : Nat) := by cbv
  have hlast : (d.content.clampRange ⟨⟨1, 0⟩, ⟨2, 0⟩⟩).stop.line
      = (2 : Nat) := by cbv
  have hcurrent : ∀ j, 2 < j → j < d.lineCount →
      b.cache.Current .depth d.lines j := by
    intro j hj hjd
    have hcount : d.lineCount = 5 := by cbv
    obtain rfl | rfl : j = 3 ∨ j = 4 := by omega
    · exact ⟨"b".toList, _, by cbv, by cbv, by cbv⟩
    · exact ⟨"\x7d".toList, _, by cbv, by cbv, by cbv⟩
  obtain ⟨n, b', hrun, -, ⟨changed, b'', hall, hcache⟩, -, hcalls, -⟩ :=
    mendRange_eq_retokenizeAll Engine.total_depth hfirst hlast hcurrent
  have htwo : ((mendRange d .depth ⟨⟨1, 0⟩, ⟨2, 0⟩⟩).on b).1 = .ok 2 := by
    cbv
  rw [hrun] at htwo
  obtain rfl : n = 2 := Int.ofNat_inj.1 (Except.ok.inj htwo)
  have hlines : (d.lines.drop 1).take 2
      = ["a".toList, "\x7b".toList] := by cbv
  exact ⟨d, b, b', b'', rfl, rfl, hrun, ⟨changed, hall⟩, hcache,
    hcalls.trans hlines⟩

end Reparse

end Relex
