/-
Passes: what is tokenized in one go, and what is counted of it.

Work on a cache comes to an answer, another cache and a tally, whatever
was in the trace before (`Work.ComesTo`). So it can be said of some work
what it yields for a cache, without a trace (`Work.yield`).

Whatever states a controller stores after a build or an edit, it finds in
passes. A pass is the build of a whole document, or the mending of a
range. It hands lines in a row to the engine, each in the state that the
one before was left in, up to the first the engine fails on
(`Pass.Accounts`). It counts all of them at the end, if the engine did
not fail, and otherwise none.

What mending after a batch yields is the sum of what its passes yield
(`Costs`), together with the changes: outside of strict mode each change
is counted once, by the pass that was made for it, or when it was found
malformed (`comesTo_mendBatch`).
-/
import Mathlib
import Relex.Proofs.Batch
import Relex.Proofs.Tally

namespace Relex

-- ============================================================ fresh traces

namespace Trace

/-- Nothing has happened yet, and it is counted from now on. -/
def fresh : Trace := ⟨[], [], Meters.off.enter⟩

/-- All that a trace holds, as a tally. -/
def tally (t : Trace) : Tally :=
  ⟨t.calls, t.journal, (t.meters.active?).getD .zero⟩

theorem tally_fresh_plus (x : Tally) : (fresh.plus x).tally = x := by
  obtain ⟨calls, entries, counts⟩ := x
  show Tally.mk calls entries (Metrics.zero.plus counts) = _
  rw [Metrics.zero_plus]

end Trace

-- ================================================================= yields

/-- What work on a cache comes to: an answer, the cache it leaves, and what
it adds to the trace. -/
structure Yield (α : Type) where
  answer : Except Fault α
  cache : StateCache
  tally : Tally

namespace Work

variable {α β : Type} {w : Work α} {k : α → Work β}
  {c c' c'' : StateCache} {x y : Tally} {a : α}
  {answer : Except Fault β} {fault : Fault}

/-- What the work comes to, started on a cache. -/
def yield (w : Work α) (c : StateCache) : Yield α :=
  ⟨(w.on ⟨c, .fresh⟩).1, (w.on ⟨c, .fresh⟩).2.cache,
    (w.on ⟨c, .fresh⟩).2.trace.tally⟩

/-- Started on the cache, the work comes to that, whatever the trace
holds. -/
def ComesTo (w : Work α) (c : StateCache) (o : Yield α) : Prop :=
  ∀ t, w.on ⟨c, t⟩ = (o.answer, ⟨o.cache, t.plus o.tally⟩)

theorem ComesTo.yield_eq {o : Yield α} (h : w.ComesTo c o) :
    w.yield c = o := by
  unfold yield
  rw [h .fresh, Trace.tally_fresh_plus]

theorem comesTo_pure (a : α) (c : StateCache) :
    (pure a : Work α).ComesTo c ⟨.ok a, c, .nothing⟩ := by
  intro t
  rw [on_pure, Trace.plus_nothing]

theorem comesTo_throw (fault : Fault) (c : StateCache) :
    (throw fault : Work α).ComesTo c ⟨.error fault, c, .nothing⟩ := by
  intro t
  rw [on_throw, Trace.plus_nothing]

theorem comesTo_onCache (f : StateCache → StateCache) (c : StateCache) :
    (onCache f).ComesTo c ⟨.ok (), f c, .nothing⟩ := by
  intro t
  rw [on_onCache, Trace.plus_nothing]

theorem comesTo_onTrace {f : Trace → Trace} (h : ∀ t, f t = t.plus x)
    (c : StateCache) : (onTrace f).ComesTo c ⟨.ok (), c, x⟩ := by
  intro t
  rw [on_onTrace, h]

/-- One piece of work after another: what they add adds up. -/
theorem ComesTo.bind (hw : w.ComesTo c ⟨.ok a, c', x⟩)
    (hk : (k a).ComesTo c' ⟨answer, c'', y⟩) :
    (w >>= k).ComesTo c ⟨answer, c'', x.plus y⟩ := by
  intro t
  rw [on_bind, hw t]
  dsimp only
  rw [hk, Trace.plus_plus]

theorem ComesTo.bind_error (hw : w.ComesTo c ⟨.error fault, c', x⟩)
    (k : α → Work β) : (w >>= k).ComesTo c ⟨.error fault, c', x⟩ := by
  intro t
  rw [on_bind, hw t]

theorem ComesTo.attempt {o : Yield α} (hw : w.ComesTo c o) :
    (attempt w).ComesTo c ⟨.ok o.answer, o.cache, o.tally⟩ := by
  intro t
  rw [on_attempt, hw t]

/-- Work whose answer is of no interest. -/
theorem ComesTo.discard {o : Yield α} (hw : w.ComesTo c o) :
    (do let _ ← w : Work Unit).ComesTo c
      ⟨o.answer.map fun _ => (), o.cache, o.tally⟩ := by
  intro t
  rw [on_bind, hw t]
  cases o.answer <;> rfl

end Work

-- ============================================================ in a row

/-- The state in which the last of some lines is left that are tokenized
one after the other, or the fault of the first that the engine fails
on. -/
def Engine.throughout (e : Engine) (s : TokenState) (lines : List Line) :
    Except Fault TokenState :=
  lines.foldlM (fun s line => (e line s).map (·.next)) s

theorem Engine.throughout_append (e : Engine) {s s' : TokenState}
    {lines : List Line} (h : e.throughout s lines = .ok s')
    (more : List Line) :
    e.throughout s (lines ++ more) = e.throughout s' more := by
  unfold throughout at *
  rw [List.foldlM_append, h]
  rfl

namespace Reparse

open Work

variable {d : Document} {e : Engine} {c c' c'' : StateCache}

/-- From line `i` on the work hands `n` lines to the engine, each in the
state the one before was left in; and it fails just where the engine
does. -/
structure InRow {α : Type} (d : Document) (e : Engine) (i : Nat)
    (w : Work α) (c : StateCache) (n : Nat) (answer : Except Fault α)
    (c' : StateCache) : Prop where
  comesTo : w.ComesTo c
    ⟨answer, c', .asking ((d.lines.drop i).take n)⟩
  le : i + n ≤ d.lineCount
  states : e.throughout (c.entering i) ((d.lines.drop i).take n)
    = answer.map fun _ => c'.entering (i + n : Nat)

namespace InRow

variable {α β : Type} {w : Work α} {k : α → Work β} {i n m : Nat}
  {a : α} {answer : Except Fault β} {fault : Fault}

theorem pure (a : α) (c : StateCache) (hi : i ≤ d.lineCount) :
    InRow d e i (pure a) c 0 (.ok a) c :=
  ⟨comesTo_pure a c, hi, rfl⟩

theorem bind {j : Nat} (hw : InRow d e i w c n (.ok a) c')
    (hj : i + n = j) (hk : InRow d e j (k a) c' m answer c'') :
    InRow d e i (w >>= k) c (n + m) answer c'' := by
  subst hj
  have hlines : (d.lines.drop i).take (n + m) = (d.lines.drop i).take n
      ++ (d.lines.drop (i + n)).take m := by
    rw [List.take_add, List.drop_drop]
  refine ⟨?_, ?_, ?_⟩
  · rw [hlines]
    exact hw.comesTo.bind hk.comesTo
  · have := hk.le
    omega
  · rw [hlines, e.throughout_append hw.states, hk.states, Nat.add_assoc]

theorem bind_error (hw : InRow d e i w c n (.error fault) c')
    (k : α → Work β) : InRow d e i (w >>= k) c n (.error fault) c' :=
  ⟨hw.comesTo.bind_error k, hw.le, hw.states⟩

end InRow

/-- Tokenizing a line hands over that line. -/
theorem inRow_retokenize {i : Nat} (hi : i < d.lineCount)
    (c : StateCache) : ∃ answer c',
      InRow d e i (retokenize d e i) c 1 answer c' := by
  obtain ⟨line, hl⟩ : ∃ line, d.lines[i]? = some line :=
    ⟨_, List.getElem?_eq_getElem hi⟩
  have htake : (d.lines.drop i).take 1 = [line] := by
    rw [List.take_one, List.head?_drop, hl]
    rfl
  have hstart : ∀ t, (retokenize d e i).on ⟨c, t⟩
      = (do
          let answer ← ask e line (c.entering i)
          let changed ← store i answer.next
          pure (answer.tokens, changed) : Work (List Token × Bool)).on
        ⟨c, t⟩ := by
    intro t
    unfold retokenize
    rw [line_of_getElem? hl, on_bind, on_ofExcept]
    dsimp only
    rw [on_bind, on_entering]
    rfl
  -- the engine is called once, whether it fails or not
  cases ha : e line (c.entering i) with
  | error fault =>
      refine ⟨.error fault, c, ?_, hi, ?_⟩
      · intro t
        rw [hstart, on_bind, on_ask, ha, htake, ← Trace.called_eq]
      · rw [htake]
        show (e _ _).map _ >>= _ = _
        rw [ha]
        rfl
  | ok a =>
      refine ⟨.ok (a.tokens, (c.insert i a.next).1),
        (c.insert i a.next).2, ?_, hi, ?_⟩
      · intro t
        rw [hstart, on_bind, on_ask, ha, htake, ← Trace.called_eq]
        rfl
      · rw [htake]
        show (e _ _).map _ >>= _ = _
        rw [ha]
        exact congrArg Except.ok (c.entering_insert_succ i a.next).symm

/-- Tokenizing lines in a row hands over all of them, unless it fails. -/
theorem inRow_retokenizeAll {i count : Nat} (changed : Bool)
    (hi : i + count ≤ d.lineCount) (c : StateCache) : ∃ n answer c',
      InRow d e i (retokenizeAll d e i changed count) c n answer c'
        ∧ ∀ changed', answer = .ok changed' → n = count := by
  induction count generalizing i c changed with
  | zero => exact ⟨0, _, c, .pure changed c hi, fun _ _ => rfl⟩
  | succ count ih =>
      rw [retokenizeAll]
      obtain ⟨fault | ⟨_, changed'⟩, c', hfirst⟩ :=
        inRow_retokenize (e := e) (d := d) (i := i) (by omega) c
      · exact ⟨1, _, c', hfirst.bind_error _, fun _ h => by cases h⟩
      · obtain ⟨n, answer, c'', hrest, hn⟩ :=
          ih (i := i + 1) changed' (by omega) c'
        refine ⟨1 + n, answer, c'', hfirst.bind rfl hrest, fun _ h => ?_⟩
        rw [hn _ h, Nat.add_comm]

/-- The cascade hands over as many lines as it answers, unless it
fails. -/
theorem inRow_cascade {i left : Nat} (changed : Bool)
    (hi : i + left ≤ d.lineCount) (c : StateCache) : ∃ n answer c',
      InRow d e i (cascade d e i changed left) c n answer c'
        ∧ ∀ n', answer = .ok n' → n' = n := by
  induction left generalizing i c changed with
  | zero => exact ⟨0, _, c, .pure 0 c hi, fun _ h => by cases h; rfl⟩
  | succ left ih =>
      rw [cascade]
      split
      · obtain ⟨fault | ⟨_, changed'⟩, c', hfirst⟩ :=
          inRow_retokenize (e := e) (d := d) (i := i) (by omega) c
        · exact ⟨1, _, c', hfirst.bind_error _, fun _ h => by cases h⟩
        · obtain ⟨n, fault | more, c'', hrest, hn⟩ :=
            ih (i := i + 1) changed' (by omega) c'
          · exact ⟨1 + n, _, c'', hfirst.bind rfl (hrest.bind_error _),
              fun _ h => by cases h⟩
          · obtain rfl := hn more rfl
            refine ⟨1 + (more + 0), _, c'', hfirst.bind rfl (hrest.bind rfl
              (.pure (more + 1) c'' hrest.le)), fun n' h => ?_⟩
            cases h
            omega
      · exact ⟨0, _, c, .pure 0 c (by omega), fun _ h => by cases h; rfl⟩

end Reparse

-- ================================================================= passes

/-- One go of tokenizing and storing: the whole document, or a range of it
and what follows from that. It starts from the cache. -/
structure Pass where
  document : Document
  engine : Engine
  range : Option Range
  cache : StateCache

namespace Pass

open Work Reparse

variable (p : Pass)

/-- What is done. -/
def work : Work Unit :=
  match p.range with
  | none => build p.document p.engine
  | some r => do let _ ← mendRange p.document p.engine r

/-- What it comes to. -/
def yield : Yield Unit := p.work.yield p.cache

/-- The lines that are handed to the engine. -/
def calls : List Line := p.yield.tally.calls

/-- The line that is done first. -/
def first : Nat :=
  match p.range with
  | none => 0
  | some r => (p.document.content.clampRange r).start.line.toNat

/-- The line behind those that are to be done in any case: behind the last
line of the clamped range, or of the document. -/
def stop : Nat :=
  match p.range with
  | none => p.document.lineCount
  | some r => (p.document.content.clampRange r).stop.line.toNat + 1

/-- Which lines these are. -/
def lines : List Nat := List.range' p.first p.calls.length

/-- How many of them are past the end of the range. -/
def past : Nat := p.lines.countP (p.stop ≤ ·)

/-- Is the whole document built? -/
def isWhole : Bool := p.range.isNone

/-- Does it go through? -/
def succeeds : Bool := p.yield.answer.isOk

/-- The engine answers for each line it is handed. -/
def Answered : Prop :=
  ∃ s, p.engine.throughout (p.cache.entering p.first) p.calls = .ok s

variable {p}

/-- A pass hands over `n` lines in a row, and counts them if it does not
fail; it fails just where the engine does. -/
structure Accounts {α : Type} (p : Pass) (n : Nat) (o : Yield α) :
    Prop where
  calls : o.tally.calls = (p.document.lines.drop p.first).take n
  le : p.first + n ≤ p.document.lineCount
  states : ∃ s, p.engine.throughout (p.cache.entering p.first)
    o.tally.calls = o.answer.map fun _ => s
  counted : ∀ a, o.answer = .ok a → p.stop ≤ p.first + n
    ∧ o.tally.counts = {
      linesTokenized := n
      cascadeLines := (p.first + n - p.stop : Nat)
      fullBuilds := if p.isWhole then 1 else 0 }
  uncounted : ∀ fault, o.answer = .error fault → o.tally.counts = .zero

/-- Work that fails having handed over lines in a row has counted
none. -/
theorem accounts_of_error {α : Type} {w : Work α} {i n : Nat}
    {fault : Fault} {c' : StateCache} (hi : p.first = i)
    (h : InRow p.document p.engine i w p.cache n (.error fault) c') :
    ∃ n o, w.ComesTo p.cache o ∧ p.Accounts n o := by
  subst hi
  exact ⟨n, _, h.comesTo, {
    calls := rfl
    le := h.le
    states := ⟨default, h.states⟩
    counted := fun _ h => by cases h
    uncounted := fun _ _ => rfl }⟩

/-- Work that hands over lines in a row and then counts them. -/
theorem accounts_of_ok {α β : Type} {w : Work α} {k : α → Work β}
    {i n : Nat} {a : α} {c' : StateCache} (hi : p.first = i)
    (h : InRow p.document p.engine i w p.cache n (.ok a) c')
    (hstop : p.stop ≤ i + n)
    (hk : ∃ b c'' y, (k a).ComesTo c' ⟨.ok b, c'', y⟩ ∧ y.calls = []
      ∧ y.counts = {
        linesTokenized := n
        cascadeLines := (i + n - p.stop : Nat)
        fullBuilds := if p.isWhole then 1 else 0 }) :
    ∃ n o, (w >>= k).ComesTo p.cache o ∧ p.Accounts n o := by
  subst hi
  obtain ⟨b, c'', y, hk, hcalls, hcounts⟩ := hk
  have hlines : ((Tally.asking ((p.document.lines.drop p.first).take
      n)).plus y).calls = (p.document.lines.drop p.first).take n := by
    show _ ++ y.calls = _
    rw [hcalls, List.append_nil]
    rfl
  refine ⟨n, _, h.comesTo.bind hk, hlines, h.le,
    ⟨c'.entering (p.first + n : Nat), ?_⟩, fun _ _ => ⟨hstop, ?_⟩,
    fun _ h => by cases h⟩
  · exact (congrArg _ hlines).trans h.states
  · exact (Metrics.zero_plus _).trans hcounts

theorem accounts_build (d : Document) (e : Engine) (c : StateCache) :
    ∃ n o, (build d e).ComesTo c o ∧ Accounts ⟨d, e, none, c⟩ n o := by
  have hall : 0 + d.lineCount ≤ d.lineCount := by omega
  obtain ⟨n, fault | changed, c', hrow, hn⟩ :=
    inRow_retokenizeAll (e := e) false hall c
  · exact accounts_of_error (p := ⟨d, e, none, c⟩) rfl
      (hrow.bind_error _)
  obtain rfl := hn changed rfl
  have hcount : ∀ t : Trace, t.recorded (·.built.reparsed d.lineCount 0)
      = t.plus (.counting
        { linesTokenized := d.lineCount, fullBuilds := 1 }) :=
    fun t => t.recorded_eq fun m => by
      simp [Metrics.built, Metrics.reparsed, Metrics.plus]
  refine accounts_of_ok (p := ⟨d, e, none, c⟩) rfl hrow ?_
    ⟨_, _, _, (comesTo_onCache _ c').bind (comesTo_onTrace hcount _), rfl,
      (Metrics.zero_plus _).trans ?_⟩
  · show d.lineCount ≤ 0 + d.lineCount
    omega
  · simp [Tally.counting, first, stop, isWhole]

theorem accounts_mendRange (d : Document) (e : Engine) (r : Range)
    (c : StateCache) : ∃ n o, (mendRange d e r).ComesTo c o
      ∧ Accounts ⟨d, e, some r, c⟩ n o := by
  obtain ⟨first, last, hfirst, hlast, hle, hlt⟩ :=
    exists_lines_clampRange d r
  have hp : Pass.first ⟨d, e, some r, c⟩ = first := by
    show (d.content.clampRange r).start.line.toNat = first
    rw [hfirst, Int.toNat_natCast]
  have hstop : Pass.stop ⟨d, e, some r, c⟩ = last + 1 := by
    show (d.content.clampRange r).stop.line.toNat + 1 = last + 1
    rw [hlast, Int.toNat_natCast]
  unfold mendRange
  dsimp only
  rw [hfirst, hlast,
    show ((last : Int) + 1 - first).toNat = last + 1 - first by omega,
    show ((d.lineCount : Int) - (last + 1)).toNat
      = d.lineCount - (last + 1) by omega]
  have hmended : first + (last + 1 - first) ≤ d.lineCount := by omega
  obtain ⟨n, fault | changed, c', hrow, hn⟩ :=
    inRow_retokenizeAll (e := e) false hmended c
  · exact accounts_of_error hp (hrow.bind_error _)
  obtain rfl := hn changed rfl
  have hnext : first + (last + 1 - first) = last + 1 := by omega
  have hleft : last + 1 + (d.lineCount - (last + 1)) ≤ d.lineCount := by
    omega
  obtain ⟨m, fault | cascaded, c'', hcascade, hm⟩ :=
    inRow_cascade (e := e) changed hleft c'
  · exact accounts_of_error hp
      (hrow.bind hnext (hcascade.bind_error _))
  obtain rfl := hm cascaded rfl
  have hrows := hrow.bind (k := fun changed => cascade d e (last + 1)
    changed (d.lineCount - (last + 1))) hnext hcascade
  have hrecord : ∀ t : Trace, t.recorded
      (·.reparsed (last - first + 1 + cascaded) cascaded) = _ :=
    fun t => t.recorded_eq fun m => m.reparsed_eq _ _
  have hcounts : Metrics.mk (last - first + 1 + cascaded) cascaded 0 0 0
      = {
        linesTokenized := (last + 1 - first + cascaded : Nat)
        cascadeLines := (first + (last + 1 - first + cascaded)
          - Pass.stop ⟨d, e, some r, c⟩ : Nat)
        fullBuilds := if Pass.isWhole ⟨d, e, some r, c⟩ then 1 else 0 } := by
    rw [hstop]
    congr 1 <;> omega
  rw [← bind_assoc]
  refine accounts_of_ok hp hrows (by omega) ?_
  -- how far the cascade went is noted down only if it took any line
  split
  · exact ⟨_, _, _, (comesTo_onTrace (fun t => t.noted_eq _) _).bind
      ((comesTo_onTrace hrecord _).bind (comesTo_pure _ _)), rfl,
      (Metrics.zero_plus _).trans ((Metrics.plus_zero _).trans hcounts)⟩
  · exact ⟨_, _, _, (comesTo_onTrace hrecord _).bind (comesTo_pure _ _),
      rfl, (Metrics.plus_zero _).trans hcounts⟩

theorem Accounts.discard {α : Type} {n : Nat} {o : Yield α}
    (h : p.Accounts n o) :
    p.Accounts n ⟨o.answer.map fun _ => (), o.cache, o.tally⟩ := by
  obtain ⟨fault | a, c', x⟩ := o
  · exact ⟨h.calls, h.le, h.states, fun _ h => (by cases h),
      fun _ _ => h.uncounted fault rfl⟩
  · exact ⟨h.calls, h.le, h.states, fun _ _ => h.counted a rfl,
      fun _ h => by cases h⟩

/-- Mending a range comes to what the pass yields, and an answer. -/
theorem comesTo_mendRange (d : Document) (e : Engine) (r : Range)
    (c : StateCache) : ∃ o, (mendRange d e r).ComesTo c o
      ∧ Pass.yield ⟨d, e, some r, c⟩
        = ⟨o.answer.map fun _ => (), o.cache, o.tally⟩ := by
  obtain ⟨n, o, hw, -⟩ := accounts_mendRange d e r c
  exact ⟨o, hw, hw.discard.yield_eq⟩

theorem exists_yield (p : Pass) :
    ∃ n o, p.work.ComesTo p.cache o ∧ p.Accounts n o := by
  obtain ⟨d, e, range, c⟩ := p
  cases range with
  | none => exact accounts_build d e c
  | some r =>
      obtain ⟨n, o, hw, ho⟩ := accounts_mendRange d e r c
      exact ⟨n, _, hw.discard, ho.discard⟩

/-- What a pass does comes to what it yields. -/
theorem comesTo_work (p : Pass) : p.work.ComesTo p.cache p.yield := by
  obtain ⟨n, o, hw, -⟩ := p.exists_yield
  rw [show p.yield = o from hw.yield_eq]
  exact hw

/-- What a pass yields is accounted for. -/
theorem accounts_yield (p : Pass) : p.Accounts p.calls.length p.yield := by
  obtain ⟨n, o, hw, h⟩ := p.exists_yield
  obtain rfl : p.yield = o := hw.yield_eq
  have hn : p.calls.length = n := by
    have hle : p.first + n ≤ p.document.lines.length := h.le
    unfold calls
    rw [h.calls, List.length_take, List.length_drop]
    omega
  rw [hn]
  exact h

/-- The lines a pass hands over are those it is said to. -/
theorem map_lines (p : Pass) :
    p.lines.map (p.document.lines[·]?) = p.calls.map some := by
  have hcalls : p.calls = _ := p.accounts_yield.calls
  have hle : p.first + p.calls.length ≤ p.document.lines.length :=
    p.accounts_yield.le
  refine List.ext_getElem (by simp [lines]) fun i hi hi' => ?_
  have hi : i < p.calls.length := by simpa using hi'
  rw [List.getElem_map, List.getElem_map]
  simp only [lines, List.getElem_range', Nat.one_mul]
  have hget : p.calls[i]? = _ := congrArg (·[i]?) hcalls
  rw [List.getElem?_take_of_lt hi, List.getElem?_drop] at hget
  rw [← hget, List.getElem?_eq_getElem hi]

/-- A pass goes through just if its engine answers throughout. -/
theorem answered_iff (p : Pass) : p.Answered ↔ p.succeeds = true := by
  obtain ⟨s, hs⟩ := p.accounts_yield.states
  unfold Answered succeeds
  rw [show p.calls = p.yield.tally.calls from rfl, hs]
  cases p.yield.answer with
  | error fault => exact ⟨fun ⟨_, h⟩ => (by cases h), fun h => by cases h⟩
  | ok a => exact ⟨fun _ => rfl, fun _ => ⟨s, rfl⟩⟩

theorem first_le_stop (p : Pass) : p.first ≤ p.stop := by
  obtain ⟨d, e, range, c⟩ := p
  cases range with
  | none => exact Nat.zero_le _
  | some r =>
      obtain ⟨first, last, hfirst, hlast, hle, -⟩ :=
        exists_lines_clampRange d r
      show (d.content.clampRange r).start.line.toNat
        ≤ (d.content.clampRange r).stop.line.toNat + 1
      omega

theorem countP_range' {i k : Nat} (hi : i ≤ k) (n : Nat) :
    (List.range' i n).countP (k ≤ ·) = i + n - k := by
  induction n with
  | zero =>
      rw [List.range'_zero, List.countP_nil]
      omega
  | succ n ih =>
      rw [List.range'_concat, List.countP_append, ih,
        List.countP_singleton, Nat.one_mul]
      simp only [decide_eq_true_eq]
      split <;> omega

/-- A pass counts what it hands over, once it went through. -/
theorem counts_of_answered (h : p.Answered) : p.yield.tally.counts = {
    linesTokenized := p.calls.length
    cascadeLines := p.past
    fullBuilds := if p.isWhole then 1 else 0 } := by
  have hpast : p.past = p.first + p.calls.length - p.stop :=
    countP_range' p.first_le_stop _
  rw [hpast]
  have hok := p.answered_iff.1 h
  unfold succeeds at hok
  cases hanswer : p.yield.answer with
  | error fault =>
      rw [hanswer] at hok
      cases hok
  | ok a => exact (p.accounts_yield.counted a hanswer).2

/-- A pass does not count as a change. -/
theorem changes_yield (p : Pass) :
    p.yield.tally.counts.changesApplied = 0
      ∧ p.yield.tally.counts.changesSkipped = 0 := by
  cases hanswer : p.yield.answer with
  | error fault =>
      rw [p.accounts_yield.uncounted fault hanswer]
      exact ⟨rfl, rfl⟩
  | ok a =>
      rw [(p.accounts_yield.counted a hanswer).2]
      exact ⟨rfl, rfl⟩

end Pass

-- ================================================================== costs

/-- What the counters say of lines and builds, changes aside. -/
def Metrics.spent (m : Metrics) : Int × Int × Int :=
  (m.linesTokenized, m.cascadeLines, m.fullBuilds)

/-- What these passes hand over and count, and nothing else but
changes. -/
structure Costs (passes : List Pass) (x : Tally) : Prop where
  calls : x.calls = passes.flatMap (·.calls)
  spent : x.counts.spent
    = (passes.map (·.yield.tally.counts.spent)).sum

namespace Costs

variable {passes passes' : List Pass} {x y : Tally}

theorem nothing (hcalls : x.calls = []) (hspent : x.counts.spent = 0) :
    Costs [] x :=
  ⟨hcalls, hspent⟩

theorem single (p : Pass) : Costs [p] p.yield.tally := by
  refine ⟨?_, ?_⟩
  · rw [List.flatMap_singleton]
    rfl
  · rw [List.map_singleton, List.sum_singleton]

theorem plus (h : Costs passes x) (h' : Costs passes' y) :
    Costs (passes ++ passes') (x.plus y) := by
  refine ⟨?_, ?_⟩
  · rw [List.flatMap_append, ← h.calls, ← h'.calls]
    rfl
  · rw [List.map_append, List.sum_append, ← h.spent, ← h'.spent]
    rfl

/-- If the engine answers throughout all passes, then each line it was
handed is counted once, those past the end of a range are so also as
cascaded, and each build of a whole document is counted. -/
theorem of_answered (h : Costs passes x)
    (hanswered : ∀ p ∈ passes, p.Answered) :
    x.counts.linesTokenized = x.calls.length
      ∧ x.counts.cascadeLines = ((passes.map (·.past)).sum : Nat)
      ∧ x.counts.fullBuilds = (passes.countP (·.isWhole) : Nat) := by
  have hsum : (passes.map (·.yield.tally.counts.spent)).sum
      = (((passes.flatMap (·.calls)).length : Int),
        (((passes.map (·.past)).sum : Nat) : Int),
        ((passes.countP (·.isWhole) : Nat) : Int)) := by
    clear h
    induction passes with
    | nil => rfl
    | cons p passes ih =>
        rw [List.map_cons, List.sum_cons,
          ih fun q hq => hanswered q (.tail _ hq),
          Pass.counts_of_answered (hanswered p List.mem_cons_self)]
        simp [Metrics.spent, List.countP_cons, Int.add_comm]
  have hspent := h.spent.trans hsum
  rw [h.calls]
  exact ⟨congrArg (·.1) hspent, congrArg (·.2.1) hspent,
    congrArg (·.2.2) hspent⟩

end Costs

/-- Each pass is counted as a change, applied if it went through and
skipped otherwise. -/
structure Settles (passes : List Pass) (x : Tally) : Prop where
  applied : x.counts.changesApplied = passes.countP (·.succeeds)
  skipped : x.counts.changesSkipped = passes.countP (!·.succeeds)

theorem Settles.cons {p : Pass} {passes : List Pass} {x y : Tally}
    (h : Settles passes y) (hx : x.counts = .ofChange (!p.succeeds)) :
    Settles (p :: passes) (p.yield.tally.plus (x.plus y)) := by
  obtain ⟨happlied, hskipped⟩ := p.changes_yield
  refine ⟨?_, ?_⟩
  · show p.yield.tally.counts.changesApplied
      + (x.counts.changesApplied + y.counts.changesApplied) = _
    rw [happlied, h.applied, hx, List.countP_cons]
    cases p.succeeds <;> simp [Metrics.ofChange, Metrics.changed,
      Metrics.zero, Int.add_comm]
  · show p.yield.tally.counts.changesSkipped
      + (x.counts.changesSkipped + y.counts.changesSkipped) = _
    rw [hskipped, h.skipped, hx, List.countP_cons]
    cases p.succeeds <;> simp [Metrics.ofChange, Metrics.changed,
      Metrics.zero, Int.add_comm]

-- ================================================================ batches

namespace Reparse

open Work Change

variable {d : Document} {e : Engine} {c : StateCache}

/-- The passes of mending spans. In strict mode a pass that fails is the
last but one; the whole document is built after it. -/
def spanPasses (d : Document) (e : Engine) (strict : Bool) :
    List (Change × Delta) → StateCache → List Pass
  | [], _ => []
  | (_, delta) :: upper, c =>
    let p : Pass :=
      ⟨d, e, some (settledRange delta (upper.map (·.2))), c⟩
    if strict ∧ ¬p.succeeds then [p, ⟨d, e, none, .empty⟩]
    else p :: spanPasses d e strict upper p.yield.cache

/-- The passes of mending after a batch. If a change turns out to be
malformed in strict mode, there is only the build of the whole
document. -/
def batchPasses (d : Document) (e : Engine) (strict : Bool)
    (changes : List Change) (c : StateCache) : List Pass :=
  let realigned := (realignAll d e strict (bottomUp changes)).yield c
  match realigned.answer with
  | .error _ => [⟨d, e, none, .empty⟩]
  | .ok pairs =>
    spanPasses d e strict pairs (realigned.cache.take d.lineCount)

theorem comesTo_rebuild (d : Document) (e : Engine) (c : StateCache) :
    (rebuild d e).ComesTo c (Pass.yield ⟨d, e, none, .empty⟩) := by
  intro t
  unfold rebuild
  rw [on_bind, on_onCache]
  exact Pass.comesTo_work ⟨d, e, none, .empty⟩ t

theorem comesTo_counting (skipped : Bool) (c : StateCache) :
    (onTrace (·.recorded (·.changed skipped))).ComesTo c
      ⟨.ok (), c, .counting (.ofChange skipped)⟩ :=
  comesTo_onTrace
    (fun t => t.recorded_eq fun m => m.changed_eq skipped) c

theorem comesTo_skip_lenient (change : Change) (fault : Fault)
    (c : StateCache) : (skip d e false change fault).ComesTo c
      ⟨.ok (), c, skipping d change fault⟩ := by
  have htally : skipping d change fault
      = (Tally.counting (.ofChange true)).plus
        (.noting (skipEntry d change fault)) := rfl
  unfold skip
  rw [if_neg Bool.false_ne_true, htally]
  exact (comesTo_counting true c).bind
    (comesTo_onTrace (fun t => t.noted_eq (skipEntry d change fault)) c)

/-- In strict mode a change that is skipped costs a whole build. -/
theorem comesTo_skip_strict (change : Change) (fault : Fault)
    (c : StateCache) : ∃ fault' c' x,
      (skip d e true change fault).ComesTo c ⟨.error fault', c', x⟩
        ∧ Costs [⟨d, e, none, .empty⟩] x := by
  unfold skip
  rw [if_pos rfl]
  have hbuild := comesTo_rebuild d e c
  have hcosts := Costs.single ⟨d, e, none, .empty⟩
  generalize Pass.yield ⟨d, e, none, .empty⟩ = o at hbuild hcosts
  obtain ⟨fault' | _, c', x⟩ := o
  · exact ⟨_, _, _, (comesTo_counting true c).bind (hbuild.bind_error _),
      (Costs.nothing rfl rfl).plus hcosts⟩
  · exact ⟨_, _, _, (comesTo_counting true c).bind
      (hbuild.bind (comesTo_throw fault c')),
      (Costs.nothing rfl rfl).plus (hcosts.plus (.nothing rfl rfl))⟩

/-- Mending spans costs what its passes do. Outside of strict mode it goes
through, and settles one change with each pass. -/
theorem comesTo_mendSpans (strict : Bool) (pairs : List (Change × Delta))
    (c : StateCache) : ∃ answer c' x,
      (mendSpans d e strict pairs).ComesTo c ⟨answer, c', x⟩
        ∧ Costs (spanPasses d e strict pairs c) x
        ∧ (strict = false → answer = .ok ()
          ∧ (spanPasses d e strict pairs c).length = pairs.length
          ∧ Settles (spanPasses d e strict pairs c) x) := by
  induction pairs generalizing c with
  | nil =>
      exact ⟨_, _, _, comesTo_pure () c, .nothing rfl rfl,
        fun _ => ⟨rfl, rfl, rfl, rfl⟩⟩
  | cons pair upper ih =>
      rw [mendSpans, spanPasses]
      dsimp only
      -- the first pass is over the span of the first change
      generalize settledRange pair.2 (upper.map (·.2)) = r
      generalize hp : Pass.mk d e (some r) c = p
      obtain ⟨o, hmend, hyield⟩ := Pass.comesTo_mendRange d e r c
      rw [hp] at hyield
      have hcache : o.cache = p.yield.cache := by rw [hyield]
      have htally : o.tally = p.yield.tally := by rw [hyield]
      have hanswer : p.succeeds = o.answer.isOk := by
        unfold Pass.succeeds
        rw [hyield]
        cases o.answer <;> rfl
      have hmend := hmend.attempt
      rw [hcache, htally] at hmend
      obtain ⟨answer, c', x, hrest, hcosts, hsettles⟩ := ih p.yield.cache
      cases ho : o.answer with
      | ok n =>
          rw [ho] at hanswer hmend
          rw [if_neg (by simp [hanswer, Except.isOk, Except.toBool])]
          refine ⟨_, _, _, hmend.bind ((comesTo_counting false _).bind
            hrest), (Costs.single p).plus ((Costs.nothing rfl rfl).plus
              hcosts), fun hlenient => ?_⟩
          obtain ⟨hok, hlength, hsettles⟩ := hsettles hlenient
          exact ⟨hok, congrArg (· + 1) hlength,
            hsettles.cons (by rw [hanswer]; rfl)⟩
      | error fault =>
          rw [ho] at hanswer hmend
          cases strict with
          | false =>
              rw [if_neg (by simp)]
              refine ⟨_, _, _, hmend.bind ((comesTo_skip_lenient pair.1
                fault _).bind hrest), (Costs.single p).plus
                ((Costs.nothing rfl rfl).plus hcosts), fun _ => ?_⟩
              obtain ⟨hok, hlength, hsettles⟩ := hsettles rfl
              exact ⟨hok, congrArg (· + 1) hlength,
                hsettles.cons (by rw [hanswer]; rfl)⟩
          | true =>
              rw [if_pos (by simp [hanswer, Except.isOk, Except.toBool])]
              obtain ⟨fault', c'', y, hskip, hbuild⟩ :=
                comesTo_skip_strict (d := d) (e := e) pair.1 fault
                  p.yield.cache
              exact ⟨_, _, _, hmend.bind (hskip.bind_error _),
                (Costs.single p).plus hbuild, fun h => by cases h⟩

/-- How many of the changes have malformed ranges. -/
def malformed (changes : List Change) : Nat :=
  changes.countP fun change => ¬change.range.IsValid

theorem isValid_iff_exists_delta (change : Change) :
    change.range.IsValid ↔ ∃ delta,
      Delta.ofReplacement change.range change.text = .ok delta := by
  unfold Delta.ofReplacement
  split
  · next h => exact ⟨fun _ => ⟨_, rfl⟩, fun _ => h⟩
  · next h => exact ⟨fun hv => absurd hv h, fun ⟨_, hd⟩ => by cases hd⟩

/-- Realigning costs nothing, unless a malformed change makes it give up
in strict mode. Otherwise it counts the malformed changes as skipped, and
answers the others. -/
theorem comesTo_realignAll (strict : Bool) (changes : List Change)
    (c : StateCache) :
    (∃ fault c' x, (realignAll d e strict changes).ComesTo c
        ⟨.error fault, c', x⟩ ∧ strict = true
          ∧ Costs [⟨d, e, none, .empty⟩] x)
      ∨ ∃ pairs c' x, (realignAll d e strict changes).ComesTo c
        ⟨.ok pairs, c', x⟩ ∧ Costs [] x ∧ x.counts.changesApplied = 0
          ∧ x.counts.changesSkipped = malformed changes
          ∧ pairs.length + malformed changes = changes.length := by
  induction changes generalizing c with
  | nil =>
      exact .inr ⟨[], c, _, comesTo_pure [] c, .nothing rfl rfl, rfl, rfl,
        rfl⟩
  | cons change rest ih =>
      rw [realignAll]
      cases hdelta : Delta.ofReplacement change.range change.text with
      | ok delta =>
          have hvalid := (isValid_iff_exists_delta change).2 ⟨_, hdelta⟩
          have hcount : malformed (change :: rest) = malformed rest :=
            List.countP_cons_of_neg (by simp [hvalid])
          dsimp only
          -- a malformed change further up may still make it give up
          rcases ih (c.realign delta.start.line delta.stop.line
            delta.endLine) with ⟨fault, c', x, hrest, hstrict, hcosts⟩
            | ⟨pairs, c', x, hrest, hcosts, happlied, hskipped, hlength⟩
          · exact .inl ⟨fault, c', _, (comesTo_onCache _ c).bind
              (hrest.bind_error _), hstrict,
              (Costs.nothing rfl rfl).plus hcosts⟩
          · refine .inr ⟨(change, delta) :: pairs, c', _,
              (comesTo_onCache _ c).bind (hrest.bind (comesTo_pure _ c')),
              (Costs.nothing rfl rfl).plus (hcosts.plus
                (.nothing rfl rfl)), ?_, ?_, ?_⟩
            · show 0 + (x.counts.changesApplied + 0) = 0
              omega
            · show 0 + (x.counts.changesSkipped + 0) = _
              omega
            · rw [hcount, List.length_cons, List.length_cons]
              omega
      | error fault =>
          have hvalid : ¬change.range.IsValid := by
            intro hvalid
            obtain ⟨delta, hok⟩ :=
              (isValid_iff_exists_delta change).1 hvalid
            rw [hdelta] at hok
            cases hok
          have hcount : malformed (change :: rest) = malformed rest + 1 :=
            List.countP_cons_of_pos (by simp [hvalid])
          dsimp only
          cases strict with
          | true =>
              -- giving up builds the cache anew, in one pass of its own
              obtain ⟨fault', c', x, hskip, hcosts⟩ := comesTo_skip_strict
                (d := d) (e := e) change (.edit fault) c
              exact .inl ⟨fault', c', x, hskip.bind_error _, rfl, hcosts⟩
          | false =>
              rcases ih c with ⟨_, _, _, -, hstrict, -⟩
                | ⟨pairs, c', x, hrest, hcosts, happlied, hskipped, hlength⟩
              · cases hstrict
              -- the change is passed over, and the cache not realigned
              refine .inr ⟨pairs, c', _, (comesTo_skip_lenient change _
                c).bind hrest, (Costs.nothing rfl rfl).plus hcosts,
                ?_, ?_, ?_⟩
              · show 0 + x.counts.changesApplied = 0
                omega
              · show 1 + x.counts.changesSkipped = _
                omega
              · rw [hcount, List.length_cons]
                omega

/-- Mending after a batch costs what its passes do. Outside of strict mode
it goes through, whatever the engine does; each change that is well-formed
gets a pass, and is counted as applied if that goes through, and each
other change is counted as skipped. -/
theorem comesTo_mendBatch (strict : Bool) (changes : List Change)
    (c : StateCache) : ∃ answer c' x,
      (mendBatch d e strict changes).ComesTo c ⟨answer, c', x⟩
        ∧ Costs (batchPasses d e strict changes c) x
        ∧ (strict = false → answer = .ok ()
          ∧ (batchPasses d e strict changes c).length + malformed changes
            = changes.length
          ∧ x.counts.changesApplied
            = (batchPasses d e strict changes c).countP (·.succeeds)
          ∧ x.counts.changesSkipped = malformed changes
            + (batchPasses d e strict changes c).countP (!·.succeeds))
      := by
  have hsorted : malformed (bottomUp changes) = malformed changes :=
    (bottomUp_perm changes).countP_eq _
  unfold mendBatch batchPasses
  rcases comesTo_realignAll (d := d) (e := e) strict (bottomUp changes) c
    with ⟨fault, c', x, hrealign, hstrict, hcosts⟩
      | ⟨pairs, c', x, hrealign, hcosts, happlied, hskipped, hlength⟩
  · rw [hrealign.yield_eq]
    exact ⟨_, _, _, hrealign.bind_error _, hcosts,
      fun h => by rw [hstrict] at h; cases h⟩
  · obtain ⟨answer, c'', y, hspans, hcosts', hsettles⟩ :=
      comesTo_mendSpans (d := d) (e := e) strict pairs
        (c'.take d.lineCount)
    rw [hrealign.yield_eq]
    refine ⟨_, _, _, hrealign.bind ((comesTo_onCache _ c').bind hspans),
      hcosts.plus ((Costs.nothing rfl rfl).plus hcosts'),
      fun hlenient => ?_⟩
    obtain ⟨hok, hpasses, hsettles⟩ := hsettles hlenient
    have happlied' := hsettles.applied
    have hskipped' := hsettles.skipped
    have hlength' := bottomUp_perm changes |>.length_eq
    refine ⟨hok, ?_, ?_, ?_⟩
    · dsimp only
      omega
    · show x.counts.changesApplied + (0 + y.counts.changesApplied) = _
      dsimp only
      omega
    · show x.counts.changesSkipped + (0 + y.counts.changesSkipped) = _
      dsimp only
      omega

end Reparse

end Relex
