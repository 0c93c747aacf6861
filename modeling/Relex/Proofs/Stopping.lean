/-
Where the cascade stops.

Mending a range goes on past it for as long as the states that it stores
differ from those that it finds. Both sides of that comparison can be
told beforehand. What it stores is the full build, if the first line of
the range is entered as the full build enters it. What it finds is what
was there when mending began, for it never gets ahead of itself
(`Reached`). So it stops at the first line, from the last one of the
range on, whose entry is as the full build has it, or at the end of the
document (`FirstSame`), and at no other line.
-/
import Mathlib
import Relex.Proofs.Tally

namespace Relex

-- ===================================================== the first of many

/-- Of the lines from `start` on, up to `count` of them in all, `m` is the
first for which `same` holds, or, if it holds for none, the last. -/
structure FirstSame (same : Nat → Prop) (start count m : Nat) : Prop where
  start_le : start ≤ m
  lt_count : m < count
  before : ∀ j, start ≤ j → j < m → ¬same j
  stops : same m ∨ m + 1 = count

namespace FirstSame

variable {same same' : Nat → Prop} {start count m m' : Nat}

theorem le_of_firstSame (h : FirstSame same start count m)
    (h' : FirstSame same start count m') : m ≤ m' := by
  by_contra hlt
  rcases h'.stops with hsame | hlast
  · exact h.before m' h'.start_le (by omega) hsame
  · have := h.lt_count
    omega

/-- There is only one. -/
theorem unique (h : FirstSame same start count m)
    (h' : FirstSame same start count m') : m = m' :=
  Nat.le_antisymm (h.le_of_firstSame h') (h'.le_of_firstSame h)

/-- There is one, if there are any lines. -/
theorem exists_of_lt (same : Nat → Prop) (h : start < count) :
    ∃ m, FirstSame same start count m := by
  classical
  have hlast : ∃ m, start ≤ m ∧ (same m ∨ m + 1 = count) :=
    ⟨count - 1, by omega, .inr (by omega)⟩
  have hle : Nat.find hlast ≤ count - 1 :=
    Nat.find_min' hlast ⟨by omega, .inr (by omega)⟩
  obtain ⟨hstart, hstops⟩ := Nat.find_spec hlast
  refine ⟨Nat.find hlast, hstart, by omega, fun j hj hlt hsame => ?_,
    hstops⟩
  exact Nat.find_min hlast hlt ⟨hj, .inl hsame⟩

theorem congr (h : FirstSame same start count m)
    (hsame : ∀ j, start ≤ j → j < count → (same j ↔ same' j)) :
    FirstSame same' start count m := by
  refine ⟨h.start_le, h.lt_count, fun j hj hlt => ?_, ?_⟩
  · rw [← hsame j hj (Nat.lt_trans hlt h.lt_count)]
    exact h.before j hj hlt
  · rw [← hsame m h.start_le h.lt_count]
    exact h.stops

/-- If the first line is not it, what is the first from the next one on
is the first from there on, too. -/
theorem of_succ (h : FirstSame same (start + 1) count m)
    (hnot : ¬same start) : FirstSame same start count m := by
  refine ⟨Nat.le_of_succ_le h.start_le, h.lt_count, fun j hj hlt => ?_,
    h.stops⟩
  rcases Nat.eq_or_lt_of_le hj with rfl | hj
  · exact hnot
  · exact h.before j hj hlt

end FirstSame

namespace Reparse

open StateCache

variable {d : Document} {e : Engine} {b : Bench} {old c : StateCache}
  {states : List TokenState} {i : Nat}

-- ============================================================ the lines

/-- Tokenizing has come to a line: it is entered as the full build enters
it, and from there on the entries are still the old ones. -/
structure Reached (d : Document) (e : Engine) (old : StateCache)
    (states : List TokenState) (c : StateCache) (i : Nat) : Prop where
  build : e.fullBuild (c.entering i) (d.lines.drop i)
    = .ok (states.drop i)
  kept : ∀ j : Nat, i ≤ j → c.get? j = old.get? j

/-- Tokenizing a line gets to the next one. It answers whether the old
entry was another than in the full build. -/
theorem Reached.ends_retokenize (h : Reached d e old states b.cache i)
    (hi : i < d.lineCount) :
    Ends (retokenize d e i) b
      (fun answer b' => Reached d e old states b'.cache (i + 1)
        ∧ (answer.2 = true ↔ old.get? i ≠ states[i]?))
      (fun _ _ => False) := by
  have hlt : i < d.lines.length := hi
  have hbuild := h.build
  rw [List.drop_eq_getElem_cons hlt] at hbuild
  obtain ⟨a, others, ha, hrest, hstates⟩ := Engine.fullBuild_cons hbuild
  have hstate : states[i]? = some a.next := by
    rw [← List.head?_drop, hstates]
    rfl
  have hothers : states.drop (i + 1) = others := by
    rw [← List.tail_drop, hstates]
    rfl
  refine ends_retokenize_of (List.getElem?_eq_getElem hlt) ?_ ?_
  · intro a' ha'
    obtain rfl := Except.ok.inj (ha.symm.trans ha')
    refine ⟨⟨?_, fun j hj => ?_⟩, ?_⟩
    · rw [hothers]
      dsimp only
      rw [entering_insert_succ]
      exact hrest
    · dsimp only
      rw [get?_insert, if_neg (by omega)]
      exact h.kept j (by omega)
    · dsimp only
      rw [insert_changed, decide_eq_true_iff, hstate,
        h.kept i (Nat.le_refl i)]
  · intro fault hf
    rw [ha] at hf
    cases hf

/-- Tokenizing lines in a row gets to the line behind them, and answers
whether the old entry of the last was another than in the full build. -/
theorem Reached.ends_retokenizeAll {count : Nat} {changed : Bool}
    (h : Reached d e old states b.cache i)
    (hi : i + count < d.lineCount) :
    Ends (retokenizeAll d e i changed (count + 1)) b
      (fun changed b' => Reached d e old states b'.cache (i + count + 1)
        ∧ (changed = true ↔ old.get? (i + count : Nat)
          ≠ states[i + count]?))
      (fun _ _ => False) := by
  induction count generalizing i b changed with
  | zero =>
      exact .bind ((h.ends_retokenize hi).mono
        (fun _ _ h => .pure h) fun _ _ h => h)
  | succ count ih =>
      refine .bind ((h.ends_retokenize (by omega)).mono ?_
        fun _ _ h => h)
      rintro ⟨_, changed'⟩ b' ⟨h', -⟩
      rw [show i + (count + 1) = i + 1 + count by omega] at hi ⊢
      exact ih (i := i + 1) h' hi

/-- The cascade starts behind a line, knowing whether the old entry of
that one was another than in the full build. It stops behind the first
line from there on for which it was not. -/
theorem Reached.ends_cascade {left : Nat} {changed : Bool}
    (h : Reached d e old states b.cache (i + 1))
    (hchanged : changed = true ↔ old.get? i ≠ states[i]?)
    (hi : i + 1 + left = d.lineCount) :
    Ends (cascade d e (i + 1 : Nat) changed left) b
      (fun cascaded _ => FirstSame (fun j => old.get? j = states[j]?) i
        d.lineCount (i + cascaded))
      (fun _ _ => False) := by
  induction left generalizing i b changed with
  | zero =>
      refine .pure ⟨Nat.le_refl i, by omega, fun j hj hlt => ?_,
        .inr (by omega)⟩
      omega
  | succ left ih =>
      unfold cascade
      split
      · next hc =>
        refine .bind ((h.ends_retokenize (by omega)).mono ?_
          fun _ _ h => h)
        rintro ⟨_, changed'⟩ b' ⟨h', hchanged'⟩
        refine .bind ((ih (i := i + 1) h' hchanged' (by omega)).mono ?_
          fun _ _ h => h)
        intro cascaded b'' hfirst
        rw [show i + 1 + cascaded = i + (cascaded + 1) by omega] at hfirst
        exact .pure (hfirst.of_succ (hchanged.1 hc))
      · next hc =>
        refine .pure ⟨Nat.le_refl i, by omega, fun j hj hlt => ?_,
          .inl ?_⟩
        · omega
        · by_contra hne
          exact hc (hchanged.2 hne)

-- ============================================================= the range

/-- Mending a range whose first line is entered as in the full build stops
at the first line, from the range's last one on, whose entry is as in the
full build. Up to that one the lines are handed over and counted, those
behind the range as the cascade's. -/
theorem Reached.ends_mendRange {r : Range} {first last m : Nat}
    (h : Reached d e b.cache states b.cache first)
    (hfirst : (d.content.clampRange r).start.line = first)
    (hlast : (d.content.clampRange r).stop.line = last)
    (hle : first ≤ last) (hlt : last < d.lineCount)
    (hm : FirstSame (fun j => b.cache.get? j = states[j]?) last
      d.lineCount m) :
    Ends (mendRange d e r) b
      (fun _ b' => ∃ entries, b'.trace
        = b.trace.plus (mended d first last (m - last) entries))
      (fun _ _ => False) := by
  have hruns : Ends (mendRange d e r) b
      (fun n _ => n = (last + 1 - first + (m - last) : Nat))
      (fun _ _ => False) := by
    have hcount : last + 1 - first = last - first + 1 := by omega
    refine ends_mendRange_of hfirst hlast hle hlt ?_
    rw [hcount]
    refine (h.ends_retokenizeAll (by omega)).mono ?_ fun _ _ h => h
    rintro changed b₁ ⟨h₁, hchanged⟩
    rw [show first + (last - first) = last by omega] at h₁ hchanged
    refine (h₁.ends_cascade hchanged (by omega)).mono ?_ fun _ _ h => h
    intro cascaded b₂ hstops
    have := hm.unique hstops
    rw [show m - last = cascaded by omega]
  refine (hruns.and (tally_mendRange hfirst hlast hle hlt)).mono ?_
    fun _ _ h => h.1
  rintro _ b' ⟨rfl, cascaded, entries, hn, -, -, htrace⟩
  have hcascaded : cascaded = m - last := by omega
  exact ⟨entries, hcascaded ▸ htrace⟩

end Reparse

end Relex
