/-
What mending leaves behind in the trace.

A tally is what some work adds to a trace: lines handed to an engine,
entries in the journal, counts. Tallies add up as the work does
(`Trace.plus_plus`), so that each kind of work is described by the tally
it comes to, whatever was in the trace before.

- Tokenizing lines in a row hands over just these lines, in order, once
  each (`tally_retokenizeAll`).
- The cascade goes on from there, as far as it goes (`tally_cascade`).
- So mending a range hands over the lines from its first on, and counts
  as many, those behind the range as the cascade's (`tally_mendRange`).
- Each change of a batch is counted once, as applied or as skipped
  (`tally_mendSpans`).

Nothing is assumed of the engine. Where it fails the lines up to the one
it failed on were handed over, and nothing is counted of them.
-/
import Relex.Proofs.Mending

namespace Relex

-- ============================================================= counts

namespace Metrics

/-- Counters add up one by one. -/
def plus (m m' : Metrics) : Metrics where
  linesTokenized := m.linesTokenized + m'.linesTokenized
  cascadeLines := m.cascadeLines + m'.cascadeLines
  changesApplied := m.changesApplied + m'.changesApplied
  changesSkipped := m.changesSkipped + m'.changesSkipped
  fullBuilds := m.fullBuilds + m'.fullBuilds

theorem plus_assoc (m m' m'' : Metrics) :
    (m.plus m').plus m'' = m.plus (m'.plus m'') := by
  simp only [plus, Int.add_assoc]

@[simp] theorem plus_zero (m : Metrics) : m.plus zero = m := by
  simp only [plus, zero, Int.add_zero]

@[simp] theorem zero_plus (m : Metrics) : zero.plus m = m := by
  simp only [plus, zero, Int.zero_add]

theorem reparsed_eq (m : Metrics) (lines cascade : Int) :
    m.reparsed lines cascade
      = m.plus { linesTokenized := lines, cascadeLines := cascade } := by
  simp only [reparsed, plus, Int.add_zero]

/-- The counters of a single change. -/
def ofChange (skipped : Bool) : Metrics := zero.changed skipped

theorem changed_eq (m : Metrics) (skipped : Bool) :
    m.changed skipped = m.plus (ofChange skipped) := by
  cases skipped <;> simp [changed, ofChange, plus, zero]

end Metrics

-- ============================================================ tallies

/-- What some work adds to a trace. -/
structure Tally where
  calls : List Line
  entries : List Entry
  counts : Metrics

namespace Tally

/-- One tally after the other. -/
def plus (x y : Tally) : Tally :=
  ⟨x.calls ++ y.calls, x.entries ++ y.entries, x.counts.plus y.counts⟩

/-- Nothing is added. -/
def nothing : Tally := ⟨[], [], .zero⟩

/-- Lines handed to an engine, and nothing else. -/
def asking (lines : List Line) : Tally := ⟨lines, [], .zero⟩

/-- An entry in the journal, and nothing else. -/
def noting (entry : Entry) : Tally := ⟨[], [entry], .zero⟩

/-- Counts, and nothing else. -/
def counting (m : Metrics) : Tally := ⟨[], [], m⟩

end Tally

namespace Trace

/-- The trace after work that comes to the tally. -/
def plus (t : Trace) (x : Tally) : Trace :=
  ⟨t.calls ++ x.calls, t.journal ++ x.entries,
    t.meters.record (·.plus x.counts)⟩

variable (t : Trace)

theorem plus_plus (x y : Tally) :
    (t.plus x).plus y = t.plus (x.plus y) := by
  have hmeters : (t.meters.record (·.plus x.counts)).record
      (·.plus y.counts) = t.meters.record
        (·.plus (x.counts.plus y.counts)) := by
    obtain ⟨_ | ⟨m, outer⟩⟩ := t.meters
    · rfl
    · show Meters.mk ((m.plus x.counts).plus y.counts :: outer) = _
      rw [Metrics.plus_assoc]
      rfl
  simp only [plus, Tally.plus, List.append_assoc, hmeters]

theorem record_zero (m : Meters) : m.record (·.plus .zero) = m := by
  obtain ⟨_ | ⟨m, outer⟩⟩ := m
  · rfl
  · show Meters.mk (m.plus .zero :: outer) = _
    rw [Metrics.plus_zero]

theorem plus_nothing : t.plus .nothing = t := by
  simp only [plus, Tally.nothing, List.append_nil, record_zero]

theorem called_eq (line : Line) :
    t.called line = t.plus (.asking [line]) := by
  simp only [plus, Tally.asking, List.append_nil, record_zero, called]

theorem noted_eq (entry : Entry) :
    t.noted entry = t.plus (.noting entry) := by
  simp only [plus, Tally.noting, List.append_nil, record_zero, noted]

theorem recorded_eq {count : Metrics → Metrics} {m : Metrics}
    (h : ∀ m', count m' = m'.plus m) :
    t.recorded count = t.plus (.counting m) := by
  simp only [plus, Tally.counting, List.append_nil, recorded,
    funext h]

/-- The innermost counters after work that comes to the tally. -/
theorem active?_plus (x : Tally) : (t.plus x).meters.active?
    = t.meters.active?.map (·.plus x.counts) := by
  obtain ⟨calls, journal, ⟨_ | ⟨m, outer⟩⟩⟩ := t <;> rfl

end Trace

namespace Reparse

variable {d : Document} {e : Engine} {b : Bench}

-- ========================================================== one line

/-- How work fails that has counted nothing: on an engine that does, and
only having handed lines to it. -/
def BreaksOff (e : Engine) (b : Bench) : Fault → Bench → Prop :=
  fun _ b' => ¬e.Total ∧ ∃ lines, b'.trace = b.trace.plus (.asking lines)

/-- Work that breaks off after lines were handed over has broken off, seen
from before these. -/
theorem BreaksOff.after {b' b'' : Bench} {fault : Fault}
    {lines : List Line}
    (h : BreaksOff e b' fault b'')
    (hb : b'.trace = b.trace.plus (.asking lines)) :
    BreaksOff e b fault b'' := by
  obtain ⟨hnot, more, hmore⟩ := h
  refine ⟨hnot, lines ++ more, ?_⟩
  rw [hmore, hb, Trace.plus_plus]
  rfl

theorem tally_retokenize {i : Nat} {line : Line}
    (hl : d.lines[i]? = some line) :
    Ends (retokenize d e i) b
      (fun _ b' => b'.trace = b.trace.plus (.asking [line]))
      (BreaksOff e b) := by
  have hcalled := b.trace.called_eq line
  refine ends_retokenize_of hl ?_ ?_
  · exact fun _ _ => hcalled
  · exact fun fault hf => ⟨not_total_of_fault hf, [line], hcalled⟩

/-- Tokenizing lines in a row hands them over, in order, once each. -/
theorem tally_retokenizeAll {i count : Nat} {changed : Bool}
    (hi : i + count ≤ d.lineCount) :
    Ends (retokenizeAll d e i changed count) b
      (fun _ b' => b'.trace
        = b.trace.plus (.asking ((d.lines.drop i).take count)))
      (BreaksOff e b) := by
  induction count generalizing i b changed with
  | zero => exact .pure b.trace.plus_nothing.symm
  | succ count ih =>
      have hlt : i < d.lines.length := by
        change i < d.lineCount
        omega
      refine .bind ((tally_retokenize
        (List.getElem?_eq_getElem hlt)).mono ?_ fun _ _ h => h)
      rintro ⟨_, changed'⟩ b' hb'
      refine (ih (i := i + 1) (by omega)).mono ?_ fun _ _ h => h.after hb'
      intro _ b'' hb''
      rw [hb'', hb', Trace.plus_plus, List.drop_eq_getElem_cons hlt,
        List.take_succ_cons]
      rfl

/-- The cascade hands over the lines from where it starts, in order, as
many as it answers. -/
theorem tally_cascade {i left : Nat} {changed : Bool}
    (hi : i + left ≤ d.lineCount) :
    Ends (cascade d e i changed left) b
      (fun n b' => n ≤ left ∧ b'.trace
        = b.trace.plus (.asking ((d.lines.drop i).take n)))
      (BreaksOff e b) := by
  induction left generalizing i b changed with
  | zero => exact .pure ⟨Nat.le_refl 0, b.trace.plus_nothing.symm⟩
  | succ left ih =>
      have hlt : i < d.lines.length := by
        change i < d.lineCount
        omega
      unfold cascade
      split
      · refine .bind ((tally_retokenize
          (List.getElem?_eq_getElem hlt)).mono ?_ fun _ _ h => h)
        rintro ⟨_, changed'⟩ b' hb'
        refine .bind ((ih (i := i + 1) (by omega)).mono ?_
          fun _ _ h => h.after hb')
        rintro n b'' ⟨hn, hb''⟩
        refine .pure ⟨by omega, ?_⟩
        rw [hb'', hb', Trace.plus_plus, List.drop_eq_getElem_cons hlt,
          List.take_succ_cons]
        rfl
      · exact .pure ⟨Nat.zero_le _, b.trace.plus_nothing.symm⟩

-- ============================================================= ranges

/-- What mending the lines from `first` to `last` comes to, if the cascade
takes so many more: these lines are handed over and counted. -/
def mended (d : Document) (first last cascaded : Nat)
    (entries : List Entry) : Tally where
  calls := (d.lines.drop first).take (last + 1 - first + cascaded)
  entries := entries
  counts :=
    { linesTokenized := (last + 1 - first + cascaded : Nat)
      cascadeLines := cascaded }

theorem concluded_eq (t : Trace) (d : Document) (r : Range)
    (tokenized cascaded : Nat) :
    ∃ entries : List Entry, (∀ entry ∈ entries, entry.level = .debug)
      ∧ concluded d r tokenized cascaded t = t.plus ⟨[], entries,
        { linesTokenized := tokenized, cascadeLines := cascaded }⟩ := by
  have hcount : ∀ t : Trace,
      t.recorded (·.reparsed tokenized cascaded) = _ :=
    fun t => t.recorded_eq fun m => m.reparsed_eq _ _
  unfold concluded
  split
  · refine ⟨[cascadeEntry d r cascaded],
      List.forall_mem_singleton.2 rfl, ?_⟩
    rw [hcount, Trace.noted_eq, Trace.plus_plus]
    simp only [Tally.plus, Tally.noting, Tally.counting, List.append_nil,
      Metrics.zero_plus]
  · exact ⟨[], List.forall_mem_nil _, hcount t⟩

/-- Mending a range hands over the lines from its first on, in order, once
each. It answers how many, and counts as many. -/
theorem tally_mendRange {r : Range} {first last : Nat}
    (hfirst : (d.content.clampRange r).start.line = first)
    (hlast : (d.content.clampRange r).stop.line = last)
    (hle : first ≤ last) (hlt : last < d.lineCount) :
    Ends (mendRange d e r) b
      (fun n b' => ∃ (cascaded : Nat) (entries : List Entry),
        n = (last + 1 - first + cascaded : Nat)
          ∧ last + 1 + cascaded ≤ d.lineCount
          ∧ (∀ entry ∈ entries, entry.level = .debug)
          ∧ b'.trace
            = b.trace.plus (mended d first last cascaded entries))
      (BreaksOff e b) := by
  refine ends_mendRange_of hfirst hlast hle hlt
    ((tally_retokenizeAll (by omega)).mono ?_ fun _ _ h => h)
  intro changed b₁ h₁
  refine (tally_cascade (by omega)).mono ?_ fun _ _ h => h.after h₁
  rintro cascaded b₂ ⟨hcascaded, h₂⟩
  obtain ⟨entries, hdebug, hconcluded⟩ := concluded_eq b₂.trace d
    (d.content.clampRange r) (last + 1 - first + cascaded) cascaded
  refine ⟨cascaded, entries, rfl, by omega, hdebug, ?_⟩
  have hlines : (d.lines.drop first).take (last + 1 - first)
      ++ (d.lines.drop (last + 1)).take cascaded
      = (d.lines.drop first).take (last + 1 - first + cascaded) := by
    rw [List.take_add, List.drop_drop,
      show first + (last + 1 - first) = last + 1 by omega]
  dsimp only
  rw [hconcluded, h₂, h₁, Trace.plus_plus, Trace.plus_plus]
  simp only [Tally.plus, Tally.asking, mended, hlines, List.append_nil,
    List.nil_append, Metrics.zero_plus]

-- ============================================================ batches

/-- The entry that tells of a skipped change. -/
def skipEntry (d : Document) (change : Change) (fault : Fault) : Entry :=
  .ofController .warning ("Skipping change " ++ change.range.text
    ++ " in " ++ d.describe ++ ": " ++ fault.message)

/-- What skipping a change comes to, if not in strict mode: it is told of,
and counted. -/
def skipping (d : Document) (change : Change) (fault : Fault) : Tally :=
  ⟨[], [skipEntry d change fault], .ofChange true⟩

theorem tally_skip {change : Change} {fault : Fault}
    {returns : Unit → Bench → Prop} {fails : Fault → Bench → Prop}
    (h : returns ()
      { b with trace := b.trace.plus (skipping d change fault) }) :
    Ends (skip d e false change fault) b returns fails := by
  have htrace : (b.trace.recorded (·.changed true)).noted
      (skipEntry d change fault)
        = b.trace.plus (skipping d change fault) := by
    rw [Trace.recorded_eq _ fun m => m.changed_eq true, Trace.noted_eq,
      Trace.plus_plus]
    simp [Tally.plus, Tally.noting, Tally.counting, skipping]
  rw [← htrace] at h
  unfold skip
  rw [if_neg (by decide)]
  exact .bind (.onTrace (.onTrace h))

/-- What mending the spans of changes comes to: each change is counted
once. If the engine does not fail, all of them as applied, and nothing is
noted down but details. -/
structure Spans (e : Engine) (count : Nat) (x : Tally) : Prop where
  changes : x.counts.changesApplied + x.counts.changesSkipped = count
  skipped : e.Total → x.counts.changesSkipped = 0
  quiet : e.Total → ∀ entry ∈ x.entries, entry.level = .debug

/-- Each change is counted once, as applied or, if the engine failed, as
skipped. -/
theorem tally_mendSpans {pairs : List (Change × Delta)} :
    Ends (mendSpans d e false pairs) b
      (fun _ b' => ∃ x, Spans e pairs.length x
        ∧ b'.trace = b.trace.plus x)
      (fun _ _ => False) := by
  induction pairs generalizing b with
  | nil =>
      refine .pure ⟨.nothing, ⟨rfl, fun _ => rfl, fun _ => ?_⟩,
        b.trace.plus_nothing.symm⟩
      exact List.forall_mem_nil _
  | cons pair upper ih =>
      obtain ⟨first, last, hfirst, hlast, hle, hlt⟩ :=
        exists_lines_clampRange d (settledRange pair.2 (upper.map (·.2)))
      -- whichever way the first change counts, it counts once
      have hrest : ∀ (b' : Bench) (x : Tally),
          x.counts.changesApplied + x.counts.changesSkipped = 1 →
          (e.Total → x.counts.changesSkipped = 0) →
          (e.Total → ∀ entry ∈ x.entries, entry.level = .debug) →
          b'.trace = b.trace.plus x →
          Ends (mendSpans d e false upper) b'
            (fun _ b' => ∃ x, Spans e (upper.length + 1) x
              ∧ b'.trace = b.trace.plus x)
            (fun _ _ => False) := by
        intro b' x hcount hskip hquiet hb'
        refine ih.mono ?_ fun _ _ h => h
        rintro _ b'' ⟨y, hy, hb''⟩
        refine ⟨x.plus y, ⟨?_, ?_, ?_⟩, ?_⟩
        · have := hy.changes
          show _ + _ + (_ + _) = _
          omega
        · intro he
          show _ + _ = _
          rw [hskip he, hy.skipped he]
          rfl
        · intro he entry hentry
          exact (List.mem_append.1 hentry).elim (hquiet he entry)
            (hy.quiet he entry)
        · rw [hb'', hb', Trace.plus_plus]
      refine .bind (.attempt ((tally_mendRange hfirst hlast hle hlt).mono
        ?_ ?_))
      · rintro _ b₁ ⟨cascaded, entries, -, -, hdebug, h₁⟩
        refine .bind (.onTrace (hrest _ ((mended d first last cascaded
          entries).plus (.counting (.ofChange false))) ?_ ?_ ?_ ?_))
        · rfl
        · exact fun _ => rfl
        · intro _ entry hentry
          rcases List.mem_append.1 hentry with h | h
          · exact hdebug entry h
          · cases h
        · show b₁.trace.recorded _ = _
          rw [Trace.recorded_eq _ fun m => m.changed_eq false, h₁,
            Trace.plus_plus]
      · rintro fault b₁ ⟨hnot, lines, h₁⟩
        refine .bind (tally_skip (hrest _ ((Tally.asking lines).plus
          (skipping d pair.1 fault)) ?_ ?_ ?_ ?_))
        · rfl
        · exact fun he => absurd he hnot
        · exact fun he => absurd he hnot
        · show b₁.trace.plus _ = _
          rw [h₁, Trace.plus_plus]

end Reparse

end Relex
