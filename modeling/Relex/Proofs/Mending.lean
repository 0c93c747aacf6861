/-
Mending a cache, line by line and range by range.

Each kind of work is described by which lines it leaves in doubt,
starting from a cache that is sound but for some pending lines, and it
is described both for when it returns and for when it fails
(`Breaks`). Nothing is assumed of the engine.

- Tokenizing a line settles it, and puts the next one in doubt if the
  stored state changed (`ends_retokenize`).
- Tokenizing lines in a row settles them, and puts the line behind the
  last one in doubt, if that one's state changed
  (`ends_retokenizeAll`).
- The cascade starts at such a line, and leaves no line in doubt
  (`ends_cascade`): it ends where nothing changed, or at the end.

So mending a range settles its first line (`ends_mendRange`), and all
others of the range, and doubts no other line. A failure on the way is
no exception: a line on which the engine fails is sound as it stands.
-/
import Relex.Reparse
import Relex.Proofs.Content
import Relex.Proofs.Ends
import Relex.Proofs.FullBuild

namespace Relex.Reparse

variable {d : Document} {e : Engine} {b : Bench} {pending : Nat → Prop}

-- ========================================================== one line

/-- How work on a cache may fail: only for an engine that fails, and
leaving the cache sound but for the pending lines. -/
def Breaks (d : Document) (e : Engine) (pending : Nat → Prop) :
    Fault → Bench → Prop :=
  fun _ b => ¬e.Total ∧ b.cache.SoundBut e d.lines pending

theorem Breaks.mono {pending' : Nat → Prop} {fault : Fault}
    (h : Breaks d e pending fault b)
    (hp : ∀ i, i < d.lineCount → pending i → pending' i) :
    Breaks d e pending' fault b :=
  ⟨h.1, h.2.mono hp⟩

theorem line_of_getElem? {i : Nat} {line : Line}
    (h : d.lines[i]? = some line) : d.line i = .ok line := by
  have hline : d.content.line? i = some line := by
    unfold Content.line?
    rw [if_neg (by omega), Int.toNat_natCast]
    exact h
  unfold Document.line
  rw [hline]

/-- Tokenizing a line is handing it to the engine in the state it is
entered in, and storing the state that the engine answers. -/
theorem ends_retokenize_of {i : Nat} {line : Line}
    {returns : List Token × Bool → Bench → Prop}
    {fails : Fault → Bench → Prop} (hl : d.lines[i]? = some line)
    (hok : ∀ a, e line (b.cache.entering i) = .ok a →
      returns (a.tokens, (b.cache.insert i a.next).1)
        ⟨(b.cache.insert i a.next).2, b.trace.called line⟩)
    (hfault : ∀ fault, e line (b.cache.entering i) = .error fault →
      fails fault { b with trace := b.trace.called line }) :
    Ends (retokenize d e i) b returns fails := by
  unfold retokenize
  rw [line_of_getElem? hl]
  refine .bind (.pure (.bind (.entering (.bind (.ask ?_ ?_)))))
  · exact fun a ha => .bind (.store (.pure (hok a ha)))
  · exact hfault

/-- An engine that fails on a line is not total. -/
theorem not_total_of_fault {line : Line} {s : TokenState} {fault : Fault}
    (h : e line s = .error fault) : ¬e.Total := by
  intro htotal
  obtain ⟨a, ha⟩ := htotal line s
  rw [h] at ha
  cases ha

/-- Tokenizing a line settles it. -/
theorem ends_retokenize {i : Nat}
    (h : b.cache.SoundBut e d.lines pending) (hi : i < d.lineCount) :
    Ends (retokenize d e i) b
      (fun answer b' => b'.cache.SoundBut e d.lines fun j =>
        (pending j ∧ j ≠ i) ∨ (answer.2 = true ∧ j = i + 1))
      (Breaks d e fun j => pending j ∧ j ≠ i) := by
  have hl : d.lines[i]? = some d.lines[i] := List.getElem?_eq_getElem hi
  refine ends_retokenize_of hl ?_ ?_
  · exact fun a ha => h.insert hl ha
  · exact fun fault hf => ⟨not_total_of_fault hf, h.of_fault hl hf⟩

/-- Tokenizing lines in a row settles them. If the line in front of them
has changed, the first may be pending on that account; so may be the one
behind them, in the end. -/
theorem ends_retokenizeAll {i count : Nat} {changed : Bool}
    (h : b.cache.SoundBut e d.lines fun j =>
      pending j ∨ (changed = true ∧ j = i))
    (hi : i + count ≤ d.lineCount) :
    Ends (retokenizeAll d e i changed count) b
      (fun changed b' => b'.cache.SoundBut e d.lines fun j =>
        (pending j ∧ (j < i ∨ i + count ≤ j))
          ∨ (changed = true ∧ j = i + count))
      (Breaks d e fun j => pending j ∧ j ≠ i) := by
  induction count generalizing i b changed pending with
  | zero =>
      exact .pure (h.mono fun j _ hj => hj.imp_left fun hp =>
        ⟨hp, by omega⟩)
  | succ count ih =>
      refine .bind ((ends_retokenize h (by omega)).mono ?_ ?_)
      · rintro ⟨_, changed'⟩ b' h'
        have h' : b'.cache.SoundBut e d.lines fun j =>
            (pending j ∧ j ≠ i) ∨ (changed' = true ∧ j = i + 1) :=
          h'.mono fun j _ hj => by
            rcases hj with ⟨hp | hc, hne⟩ | hc
            · exact .inl ⟨hp, hne⟩
            · exact absurd hc.2 hne
            · exact .inr hc
        refine (ih h' (by omega)).mono ?_ ?_
        · intro changed'' b'' h''
          apply h''.mono
          intro j _ hj
          rcases hj with ⟨⟨hp, hne⟩, hj⟩ | ⟨hc, hj⟩
          · exact .inl ⟨hp, by omega⟩
          · exact .inr ⟨hc, by omega⟩
        · exact fun _ _ hb => hb.mono fun j _ hj => hj.1
      · refine fun _ _ hb => hb.mono fun j _ hj => ⟨?_, hj.2⟩
        exact hj.1.resolve_right fun hc => hj.2 hc.2

/-- The cascade settles the line it starts at and leaves none in
doubt. -/
theorem ends_cascade {i left : Nat} {changed : Bool}
    (h : b.cache.SoundBut e d.lines fun j =>
      pending j ∨ (changed = true ∧ j = i))
    (hi : i + left = d.lineCount) :
    Ends (cascade d e i changed left) b
      (fun _ b' => b'.cache.SoundBut e d.lines pending)
      (Breaks d e pending) := by
  induction left generalizing i b changed with
  | zero =>
      refine .pure (h.mono fun j hj hp => hp.resolve_right ?_)
      intro hc
      have : j < d.lineCount := hj
      omega
  | succ left ih =>
      unfold cascade
      split
      · refine .bind ((ends_retokenize h (by omega)).mono ?_ ?_)
        · rintro ⟨_, changed'⟩ b' h'
          have h' : b'.cache.SoundBut e d.lines fun j =>
              pending j ∨ (changed' = true ∧ j = i + 1) :=
            h'.mono fun j _ hj => by
              rcases hj with ⟨hp | hc, hne⟩ | hc
              · exact .inl hp
              · exact absurd hc.2 hne
              · exact .inr hc
          have hrest := ih h' (by omega)
          exact .bind (hrest.mono (fun _ _ h => .pure h) fun _ _ h => h)
        · intro _ _ hb
          apply hb.mono
          intro j _ hj
          exact hj.1.resolve_right fun hc => hj.2 hc.2
      · next hc =>
        exact .pure (h.mono fun j _ hp =>
          hp.resolve_right fun h => hc h.1)

-- ============================================================= ranges

/-- The lines of a clamped range are lines of the document. -/
theorem exists_lines_clampRange (d : Document) (r : Range) :
    ∃ first last : Nat, (d.content.clampRange r).start.line = first
      ∧ (d.content.clampRange r).stop.line = last
      ∧ first ≤ last ∧ last < d.lineCount := by
  obtain ⟨hstart, hstop, hle⟩ := d.content.clampRange_ordered r
  have hlines := Position.line_le hle
  have hend : (d.content.clampRange r).stop.line < d.lineCount :=
    hstop.line_lt
  obtain ⟨first, hfirst⟩ := Int.eq_ofNat_of_zero_le hstart.line_nonneg
  obtain ⟨last, hlast⟩ := Int.eq_ofNat_of_zero_le hstop.line_nonneg
  exact ⟨first, last, hfirst, hlast, by omega, by omega⟩

/-- The entry that tells how far a cascade went past a range. -/
def cascadeEntry (d : Document) (r : Range) (cascaded : Nat) : Entry :=
  .ofController .debug ("Cascaded " ++ toString cascaded
    ++ " line(s) past " ++ r.text ++ " in " ++ d.describe)

/-- The trace once a range was mended: how far the cascade went is noted
down, if it took any line, and the lines are counted. -/
def concluded (d : Document) (r : Range) (tokenized cascaded : Nat)
    (t : Trace) : Trace :=
  (if cascaded ≠ 0 then t.noted (cascadeEntry d r cascaded)
    else t).recorded (·.reparsed tokenized cascaded)

/-- Mending a range is tokenizing its lines, then the cascade, and then
nothing that a cache would show. -/
theorem ends_mendRange_of {r : Range} {first last : Nat}
    {returns : Int → Bench → Prop} {fails : Fault → Bench → Prop}
    (hfirst : (d.content.clampRange r).start.line = first)
    (hlast : (d.content.clampRange r).stop.line = last)
    (hle : first ≤ last) (hlt : last < d.lineCount)
    (h : Ends (retokenizeAll d e first false (last + 1 - first)) b
      (fun changed b' => Ends (cascade d e (last + 1 : Nat) changed
          (d.lineCount - (last + 1))) b'
        (fun cascaded b'' =>
          returns (last + 1 - first + cascaded : Nat) { b'' with
            trace := concluded d (d.content.clampRange r)
              (last + 1 - first + cascaded) cascaded b''.trace })
        fails)
      fails) :
    Ends (mendRange d e r) b returns fails := by
  have hrow : ((last : Int) + 1 - first).toNat = last + 1 - first := by
    omega
  have hleft : ((d.lineCount : Int) - (last + 1)).toNat
      = d.lineCount - (last + 1) := by
    omega
  unfold mendRange
  dsimp only
  rw [hfirst, hlast, hrow, hleft]
  refine .bind (h.mono ?_ fun _ _ h => h)
  intro changed b' h'
  refine .bind (h'.mono ?_ fun _ _ h => h)
  intro cascaded b'' h''
  have hn : (last : Int) - first + 1 + cascaded
      = (last + 1 - first + cascaded : Nat) := by
    omega
  rw [hn]
  unfold concluded at h''
  split at h''
  · next hc =>
    rw [if_pos hc]
    exact .bind (.onTrace (.bind (.onTrace (.pure h''))))
  · next hc =>
    rw [if_neg hc]
    exact .bind (.onTrace (.pure h''))

/-- Mending a range settles its first line, and leaves no other line in
doubt than before. -/
theorem ends_mendRange {r : Range}
    (h : b.cache.SoundBut e d.lines fun j =>
      pending j ∨ (d.content.clampRange r).start.line = j) :
    Ends (mendRange d e r) b
      (fun _ b' => b'.cache.SoundBut e d.lines pending)
      (Breaks d e pending) := by
  obtain ⟨first, last, hfirst, hlast, hle, hlt⟩ :=
    exists_lines_clampRange d r
  rw [hfirst] at h
  have hpre : b.cache.SoundBut e d.lines fun j =>
      (pending j ∨ (first : Int) = j) ∨ (false = true ∧ j = first) :=
    h.mono fun j _ hj => .inl hj
  refine ends_mendRange_of hfirst hlast hle hlt
    ((ends_retokenizeAll hpre (by omega)).mono ?_ ?_)
  · intro changed b' h'
    have h' : b'.cache.SoundBut e d.lines fun j =>
        pending j ∨ (changed = true ∧ j = last + 1) :=
      h'.mono fun j _ hj => by
        rcases hj with ⟨hp | hfirst, hj⟩ | ⟨hc, hj⟩
        · exact .inl hp
        · omega
        · exact .inr ⟨hc, by omega⟩
    exact ends_cascade h' (by omega)
  · intro _ _ hb
    apply hb.mono
    intro j _ hj
    rcases hj with ⟨hp | hfirst, hne⟩
    · exact hp
    · omega

-- ===================================================== whole documents

/-- Building settles every line. -/
theorem ends_build (h : b.cache.SoundBut e d.lines pending) :
    Ends (build d e) b
      (fun _ b' => b'.cache.SoundBut e d.lines fun _ => False)
      (Breaks d e fun j => pending j ∧ j ≠ 0) := by
  have hpre : b.cache.SoundBut e d.lines fun j =>
      pending j ∨ (false = true ∧ j = 0) := h.mono fun j _ hj => .inl hj
  refine .bind ((ends_retokenizeAll hpre (by omega)).mono ?_
    fun _ _ hb => hb)
  intro changed b' h'
  refine .bind (.onCache (.onTrace ?_))
  have hsize : b'.cache.size ≤ d.lineCount := h'.size_le
  show (b'.cache.take d.lineCount).SoundBut e d.lines fun _ => False
  rw [StateCache.take_of_size_le _ hsize]
  apply h'.mono
  intro j hj hp
  have : j < d.lineCount := hj
  omega

/-- Building from nothing settles every line, and leaves no line in doubt
when it fails. -/
theorem ends_rebuild :
    Ends (rebuild d e) b
      (fun _ b' => b'.cache.SoundBut e d.lines fun _ => False)
      (Breaks d e fun _ => False) := by
  refine .bind (.onCache ((ends_build StateCache.soundBut_empty).mono
    (fun _ _ h => h) fun _ _ hb => hb.mono fun j _ hj => hj.2 hj.1))

-- ============================================================ failures

/-- Skipping a change that the engine failed on leaves no further line in
doubt. The fault is passed on in strict mode only, and then no line is in
doubt at all. -/
theorem ends_skip {strict : Bool} {change : Change} {fault : Fault}
    (h : Breaks d e pending fault b) :
    Ends (skip d e strict change fault) b
      (fun _ b' => b'.cache.SoundBut e d.lines pending)
      (fun fault b' => strict = true
        ∧ Breaks d e (fun _ => False) fault b') := by
  unfold skip
  refine .bind (.onTrace ?_)
  split
  · next hs =>
    exact .bind (ends_rebuild.mono (fun _ _ hb => .throw ⟨hs, h.1, hb⟩)
      fun _ _ hb => ⟨hs, hb⟩)
  · exact .onTrace h.2

end Relex.Reparse
