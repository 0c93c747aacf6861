/-
Full builds, and what of one a cache holds.

The full build of some lines is what tokenizing them one after the other
comes to, the first in the initial state. It is said without a cache, so
that it can be what caches are measured by.

A line of a cache is sound if its entry is what the engine answers for
the state that stands above it. Nothing is asked of a line that is
entered in an unknown state, or on which the engine fails. So a cache may
be sound on every line and still be full of gaps, in particular below a
line on which the engine failed. But if the full build goes through, then
soundness of every line carries it from the first line to the last, and
the cache is the full build (`Sound.entries_eq`).

That is how mending recovers by itself: whatever fails half way has to
leave lines sound, not right.
-/
import Relex.Engine
import Relex.Proofs.StateCache

namespace Relex

namespace Engine

/-- The engine never fails. -/
def Total (e : Engine) : Prop := ∀ line s, ∃ a, e line s = .ok a

/-- The states in which lines are left that are tokenized one after the
other. -/
def fullBuild (e : Engine) (entering : TokenState) :
    List Line → Except Fault (List TokenState)
  | [] => .ok []
  | line :: rest =>
    match e line entering with
    | .error fault => .error fault
    | .ok a =>
      match fullBuild e a.next rest with
      | .error fault => .error fault
      | .ok states => .ok (a.next :: states)

variable {e : Engine}

theorem Total.exists_fullBuild (h : e.Total) (s : TokenState)
    (lines : List Line) : ∃ states, e.fullBuild s lines = .ok states := by
  induction lines generalizing s with
  | nil => exact ⟨[], rfl⟩
  | cons line rest ih =>
      obtain ⟨a, ha⟩ := h line s
      obtain ⟨states, hs⟩ := ih a.next
      exact ⟨a.next :: states, by simp only [fullBuild, ha, hs]⟩

/-- A full build that goes through made its first state from the state
the first line is entered in, and the others from that one. -/
theorem fullBuild_cons {s : TokenState} {line : Line} {rest : List Line}
    {states : List TokenState}
    (h : e.fullBuild s (line :: rest) = .ok states) :
    ∃ a others, e line s = .ok a ∧ e.fullBuild a.next rest = .ok others
      ∧ states = a.next :: others := by
  rw [fullBuild] at h
  cases ha : e line s with
  | error fault =>
      rw [ha] at h
      cases h
  | ok a =>
      rw [ha] at h
      dsimp only at h
      cases hs : e.fullBuild a.next rest with
      | error fault =>
          rw [hs] at h
          cases h
      | ok others =>
          rw [hs] at h
          exact ⟨a, others, rfl, hs, (Except.ok.inj h).symm⟩

theorem length_fullBuild {s : TokenState} {lines : List Line}
    {states : List TokenState} (h : e.fullBuild s lines = .ok states) :
    states.length = lines.length := by
  induction lines generalizing s states with
  | nil =>
      cases h
      rfl
  | cons line rest ih =>
      obtain ⟨a, others, -, hrest, rfl⟩ := fullBuild_cons h
      rw [List.length_cons, List.length_cons, ih hrest]

/-- Each state of a full build is the engine's answer for the state in
front of it. -/
theorem fullBuild_getElem? {s : TokenState} {lines : List Line}
    {states : List TokenState} (h : e.fullBuild s lines = .ok states)
    {i : Nat} {line : Line} (hl : lines[i]? = some line) :
    ∃ entering a, (s :: states)[i]? = some entering
      ∧ e line entering = .ok a ∧ states[i]? = some a.next := by
  induction lines generalizing s states i with
  | nil => cases hl
  | cons first rest ih =>
      obtain ⟨a, others, ha, hrest, rfl⟩ := fullBuild_cons h
      cases i with
      | zero =>
          obtain rfl := Option.some.inj hl
          exact ⟨s, a, rfl, ha, rfl⟩
      | succ i => exact ih hrest hl

/-- The full build of the first lines is the first part of the whole. -/
theorem fullBuild_take {s : TokenState} {lines : List Line}
    {states : List TokenState} (h : e.fullBuild s lines = .ok states)
    (i : Nat) :
    e.fullBuild s (lines.take i) = .ok (states.take i) := by
  induction lines generalizing s states i with
  | nil =>
      cases h
      rw [List.take_nil, List.take_nil]
      rfl
  | cons line rest ih =>
      obtain ⟨a, others, ha, hrest, rfl⟩ := fullBuild_cons h
      cases i with
      | zero => rfl
      | succ i =>
          rw [List.take_succ_cons, List.take_succ_cons]
          simp only [fullBuild, ha, ih hrest i]

/-- The full build of the lines from one on, entered in the state that is
left above it, is what is left of the whole. -/
theorem fullBuild_drop {s : TokenState} {lines : List Line}
    {states : List TokenState} (h : e.fullBuild s lines = .ok states)
    {i : Nat} (hi : i ≤ lines.length) :
    e.fullBuild (((s :: states)[i]?).getD .none) (lines.drop i)
      = .ok (states.drop i) := by
  induction lines generalizing s states i with
  | nil =>
      obtain rfl := Nat.le_zero.1 hi
      exact h
  | cons line rest ih =>
      cases i with
      | zero => exact h
      | succ i =>
          obtain ⟨a, others, -, hrest, rfl⟩ := fullBuild_cons h
          exact ih hrest (Nat.le_of_succ_le_succ hi)

-- ============================================== an engine that is total

theorem exists_answer {tokens : List Token}
    (h : Token.disorder? 0 tokens = none) (next : TokenState) :
    ∃ a, answer tokens next = .ok a := by
  have hcheck : ∃ a, LineResult.check tokens next = .ok a := by
    unfold LineResult.check
    split
    · exact ⟨_, rfl⟩
    · next h' =>
      rw [h] at h'
      cases h'
  obtain ⟨a, ha⟩ := hcheck
  unfold answer
  rw [ha]
  exact ⟨a, rfl⟩

theorem disorder?_depthTokens {least column : Int} (h : least ≤ column)
    (depth : Int) (line : Line) :
    Token.disorder? least (depthTokens column depth line).1 = none := by
  induction line generalizing least column depth with
  | nil => rfl
  | cons c rest ih =>
      rw [depthTokens]
      show Token.disorder? least (_ :: _) = none
      rw [Token.disorder?, if_neg (by dsimp only; omega)]
      exact ih (by dsimp only; omega) _

/-- Counting braces never fails. -/
theorem total_depth : depth.Total := by
  intro line s
  have hordered : ∀ start, Token.disorder? 0
      (depthTokens 0 start line).1 = none :=
    fun start => disorder?_depthTokens (Int.le_refl 0) start line
  unfold depth
  dsimp only
  generalize hresult : depthTokens 0 _ line = result
  split
  · exact exists_answer rfl _
  · exact exists_answer (hresult ▸ hordered _) _

end Engine

namespace StateCache

-- ========================================================== soundness

/-- The line's entry is what the engine answers for it, as far as the
state it is entered in is known and the engine does not fail. -/
def Sound (c : StateCache) (e : Engine) (lines : List Line) (i : Nat) :
    Prop :=
  ∀ s line a, c.entered? i = some s → lines[i]? = some line →
    e line s = .ok a → c.get? i = some a.next

/-- The cache is no longer than the lines are, and sound on every line
except those that are pending. -/
structure SoundBut (c : StateCache) (e : Engine) (lines : List Line)
    (pending : Nat → Prop) : Prop where
  size_le : c.size ≤ lines.length
  sound : ∀ i, pending i ∨ c.Sound e lines i

variable {c c' : StateCache} {e : Engine} {lines : List Line}
  {pending pending' : Nat → Prop}

/-- A line is as sound as another one, maybe of other lines and in
another cache, if the same is to be seen of both. -/
theorem Sound.congr {lines' : List Line} {i j : Nat}
    (h : c.Sound e lines j) (hentry : c'.entered? i = c.entered? j)
    (hline : lines'[i]? = lines[j]?) (hget : c'.get? i = c.get? j) :
    c'.Sound e lines' i := by
  intro s line a hs hl ha
  rw [hentry] at hs
  rw [hline] at hl
  rw [hget]
  exact h s line a hs hl ha

/-- A line that is entered in an unknown state is sound. -/
theorem sound_of_entered?_eq_none {i : Nat} (h : c.entered? i = none) :
    c.Sound e lines i := by
  intro s line a hs
  rw [h] at hs
  cases hs

/-- Past the last line there is nothing to be sound. -/
theorem sound_of_length_le {i : Nat} (h : lines.length ≤ i) :
    c.Sound e lines i := by
  intro s line a _ hl
  rw [List.getElem?_eq_none h] at hl
  cases hl

/-- Dropping the entries behind a line changes nothing about it. -/
theorem Sound.take {n i : Nat} (h : c.Sound e lines i) (hi : i < n) :
    (c.take n).Sound e lines i := by
  refine h.congr ?_ rfl (by rw [get?_take, if_pos hi])
  cases i with
  | zero => rfl
  | succ i =>
      show (c.take n).get? i = c.get? i
      rw [get?_take, if_pos (by omega)]

theorem SoundBut.mono (h : c.SoundBut e lines pending)
    (hp : ∀ i, i < lines.length → pending i → pending' i) :
    c.SoundBut e lines pending' := by
  refine ⟨h.size_le, ?_⟩
  intro i
  by_cases hi : i < lines.length
  · exact (h.sound i).imp_left (hp i hi)
  · exact .inr (sound_of_length_le (by omega))

/-- A cache without entries is sound but for the first line. -/
theorem soundBut_empty : empty.SoundBut e lines (· = 0) := by
  refine ⟨Nat.zero_le _, ?_⟩
  intro i
  cases i with
  | zero => exact .inl rfl
  | succ i => exact .inr (sound_of_entered?_eq_none (get?_empty i))

/-- Storing what the engine answers for a line makes the line sound, and
puts the next one in doubt if that changed the entry. -/
theorem SoundBut.insert (h : c.SoundBut e lines pending) {i : Nat}
    {line : Line} {a : LineResult} (hl : lines[i]? = some line)
    (ha : e line (c.entering i) = .ok a) :
    (c.insert i a.next).2.SoundBut e lines fun j =>
      (pending j ∧ j ≠ i)
        ∨ ((c.insert i a.next).1 = true ∧ j = i + 1) := by
  have hi : i < lines.length := (List.getElem?_eq_some_iff.1 hl).1
  have hsize := h.size_le
  refine ⟨by rw [size_insert]; omega, ?_⟩
  intro j
  by_cases hj : j = i
  · -- the line itself, entered in the state that was handed to the engine
    subst hj
    right
    intro s line' a' hs hl' ha'
    rw [entered?_insert _ _ _ (by omega)] at hs
    rw [entering_natCast, hs, Option.getD_some] at ha
    rw [hl] at hl'
    obtain rfl := Option.some.inj hl'
    rw [ha] at ha'
    obtain rfl := Except.ok.inj ha'
    rw [get?_insert, if_pos rfl]
  · have hget : (c.insert i a.next).2.get? j = c.get? j := by
      rw [get?_insert, if_neg hj]
    by_cases hnext : j = i + 1
    · rw [insert_changed]
      by_cases hsame : c.get? i = some a.next
      · -- nothing changed, so the next line is entered as before
        refine (h.sound j).imp (fun hp => .inl ⟨hp, hj⟩) ?_
        intro hs
        refine hs.congr ?_ rfl hget
        subst hnext
        show (c.insert i a.next).2.get? i = c.get? i
        rw [get?_insert, if_pos rfl, hsame]
      · exact .inl (.inr ⟨decide_eq_true hsame, hnext⟩)
    · exact (h.sound j).imp (fun hp => .inl ⟨hp, hj⟩)
        fun hs => hs.congr (entered?_insert _ _ _ hnext) rfl hget

/-- Where the engine fails on a line, the line is sound. -/
theorem SoundBut.of_fault (h : c.SoundBut e lines pending) {i : Nat}
    {line : Line} {fault : Fault} (hl : lines[i]? = some line)
    (hf : e line (c.entering i) = .error fault) :
    c.SoundBut e lines fun j => pending j ∧ j ≠ i := by
  refine ⟨h.size_le, ?_⟩
  intro j
  by_cases hj : j = i
  · subst hj
    right
    intro s line' a hs hl' ha
    rw [entering_natCast, hs, Option.getD_some] at hf
    rw [hl] at hl'
    obtain rfl := Option.some.inj hl'
    rw [hf] at ha
    cases ha
  · exact (h.sound j).imp_left fun hp => ⟨hp, hj⟩

-- ============================================== what soundness comes to

/-- A cache that is sound on every line shows the full build, if that
goes through. -/
theorem SoundBut.get?_eq (h : c.SoundBut e lines fun _ => False)
    {states : List TokenState}
    (hb : e.fullBuild .none lines = .ok states) {i : Nat}
    (hi : i < lines.length) : c.get? i = states[i]? := by
  have hsound : ∀ j, c.Sound e lines j :=
    fun j => (h.sound j).resolve_left id
  -- on the line: it is entered in the state the full build has above it
  induction i with
  | zero =>
      obtain ⟨s, a, hs, ha, hnext⟩ := Engine.fullBuild_getElem? hb
        (List.getElem?_eq_getElem hi)
      rw [hnext]
      exact hsound 0 s _ a hs (List.getElem?_eq_getElem hi) ha
  | succ i ih =>
      obtain ⟨s, a, hs, ha, hnext⟩ := Engine.fullBuild_getElem? hb
        (List.getElem?_eq_getElem hi)
      rw [hnext]
      refine hsound (i + 1) s _ a ?_ (List.getElem?_eq_getElem hi) ha
      exact (ih (by omega)).trans hs

/-- A cache that is sound on every line is the full build, entry by
entry, if that goes through. -/
theorem SoundBut.entries_eq (h : c.SoundBut e lines fun _ => False)
    {states : List TokenState}
    (hb : e.fullBuild .none lines = .ok states) :
    c.entries = states.map some := by
  have hlen := Engine.length_fullBuild hb
  refine c.entries_of_get? (hlen ▸ h.size_le) fun i hi => ?_
  exact h.get?_eq hb (hlen ▸ hi)

/-- A cache that is the full build is sound on every line. -/
theorem soundBut_of_fullBuild {states : List TokenState}
    (hb : e.fullBuild .none lines = .ok states)
    (hc : c.entries = states.map some) :
    c.SoundBut e lines fun _ => False := by
  have hget := c.get?_of_entries hc
  refine ⟨?_, fun i => .inr ?_⟩
  · apply Nat.le_of_eq
    show c.entries.length = lines.length
    rw [hc, List.length_map, Engine.length_fullBuild hb]
  · intro s line a hs hl ha
    obtain ⟨s', a', hs', ha', hnext⟩ := Engine.fullBuild_getElem? hb hl
    have hsame : s' = s := by
      cases i with
      | zero =>
          cases hs
          cases hs'
          rfl
      | succ i =>
          have hs : c.get? i = some s := hs
          rw [hget] at hs
          exact Option.some.inj (hs'.symm.trans hs)
    rw [hsame, ha] at ha'
    rw [hget, hnext, Except.ok.inj ha']

end StateCache

end Relex
