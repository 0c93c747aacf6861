/-
What an edit costs.

A controller that holds the full build of a document is told of a batch
of one change. What it then hands to its engine is a matter of two full
builds only, that of the old text and that of the new one. Mending starts
on the line on which the change starts, which both builds enter alike. It
does the lines the new text is on, and goes on as long as the new build
leaves a line in another state than the old build left the line it comes
from: the cache is realigned so that these stand next to each other
(`get?_realigned`), and the entry of the line on which the replaced range
ended is the first that is looked at.
-/
import Mathlib
import Relex.Proofs.Stopping
import Relex.Proofs.Workspace.Equivalence
import Relex.Proofs.Workspace.Rounds

namespace Relex

open Text Change

namespace Reparse

variable {d d' : Document} {e : Engine} {b : Bench} {change : Change}
  {old new : List TokenState} {c : StateCache} {first last m : Nat}

-- ================================================== the realigned cache

/-- A cache that was the full build, realigned for a change: behind the
new text every line has the state of the line it comes from. -/
theorem get?_realigned (hc : c.entries = old.map some) (hle : first ≤ last)
    {stop count j : Nat} (hfirst : first ≤ stop) (hj : stop ≤ j)
    (hcount : j < count) :
    ((c.realign first last stop).take count).get? j
      = old[j - stop + last]? := by
  rw [StateCache.get?_take, if_pos hcount,
    StateCache.get?_realign _ hle hfirst, if_neg (by omega),
    if_neg (by omega), StateCache.get?_of_entries _ hc]

/-- The line on which a change starts is entered as before. -/
theorem entering_realigned (hc : c.entries = old.map some)
    (hle : first ≤ last) {stop count : Nat} (hfirst : first ≤ stop)
    (hcount : first ≤ count) :
    ((c.realign first last stop).take count).entering first
      = ((TokenState.none :: old)[first]?).getD .none := by
  rw [StateCache.entering_natCast, StateCache.entered?_take _ hcount,
    StateCache.entered?_realign _ hle hfirst, if_pos (Nat.le_refl first),
    StateCache.entered?_of_entries _ hc]

/-- What is looked at and what is stored differ where the full builds
do. -/
theorem firstSame_realigned (hc : c.entries = old.map some)
    (hle : first ≤ last) {stop count : Nat} (hfirst : first ≤ stop)
    (hm : FirstSame (fun j => new[j]? = old[j - stop + last]?) stop count
      m) :
    FirstSame (fun j => ((c.realign first last stop).take count).get? j
      = new[j]?) stop count m := by
  refine hm.congr fun j hj hcount => ?_
  rw [get?_realigned hc hle hfirst hj hcount]
  exact eq_comm

theorem getElem?_cons_of_take {α : Type} {xs ys : List α} (x : α) {i : Nat}
    (h : xs.take i = ys.take i) : (x :: xs)[i]? = (x :: ys)[i]? := by
  cases i with
  | zero => rfl
  | succ i =>
      have hat := congrArg (·[i]?) h
      simpa [List.getElem?_take] using hat

/-- Above a change the full builds of both texts are the same, so the line
on which it starts is entered as the new build enters it. -/
theorem reached_realigned (hold : e.fullBuild .none d.lines = .ok old)
    (hnew : e.fullBuild .none d'.lines = .ok new)
    (hlines : d'.lines.take first = d.lines.take first)
    (hc : c.entries = old.map some) (hle : first ≤ last) {stop : Nat}
    (hfirst : first ≤ stop) (hcount : first ≤ d'.lineCount) :
    Reached d' e ((c.realign first last stop).take d'.lineCount) new
      ((c.realign first last stop).take d'.lineCount) first := by
  have htake := Engine.fullBuild_take hnew first
  rw [hlines, Engine.fullBuild_take hold first] at htake
  refine ⟨?_, fun _ _ => rfl⟩
  rw [entering_realigned hc hle hfirst hcount,
    getElem?_cons_of_take _ (Except.ok.inj htake)]
  exact Engine.fullBuild_drop hnew hcount

-- ============================================================ the change

/-- Above a change the lines are the same. -/
theorem take_splice {content : Content} {r : Range} (text : List Char)
    (hfirst : r.start.line = first) (hlast : r.stop.line = last)
    (hlt : first < content.lineCount) :
    (content.splice r text).lines.take first
      = content.lines.take first := by
  refine List.ext_getElem? fun i => ?_
  rw [List.getElem?_take, List.getElem?_take]
  split
  · next hi =>
    rw [content.getElem?_splice text hfirst hlast hlt i (.inl hi),
      if_pos hi]
  · rfl

/-- The replacement of a change is a range of the new content. It starts
on the line on which the change does, and ends as many lines further down
as the text has terminators. -/
theorem lines_replacement {content : Content} {delta : Delta}
    (hdelta : delta.Describes change.range change.text)
    (hstart : content.InBounds change.range.start)
    (hle : change.range.start ≤ change.range.stop)
    (hfirst : change.range.start.line = first) :
    let content' := content.splice change.range change.text
    (content'.clampRange delta.replacement).start.line = first
      ∧ (content'.clampRange delta.replacement).stop.line
        = (first + breakCount change.text : Nat)
      ∧ first + breakCount change.text < content'.lineCount := by
  have hholds := Content.holds_replacement hdelta hstart hle
  have hend : delta.replacement.stop.line
      = (first + breakCount change.text : Nat) := by
    show delta.endLine = _
    rw [hdelta.endLine_eq, hfirst]
    rfl
  dsimp only
  rw [hholds.textIn_eq.1]
  refine ⟨(congrArg _ hdelta.start).trans hfirst, hend, ?_⟩
  have := hholds.ordered.2.1.line_lt
  omega

/-- The new content reaches to where the new text ends. -/
theorem lt_lineCount_splice {content : Content} (change : Change)
    (hstart : content.InBounds change.range.start)
    (hstop : content.InBounds change.range.stop)
    (hle : change.range.start ≤ change.range.stop)
    (hfirst : change.range.start.line = first) :
    first + breakCount change.text
      < (content.splice change.range change.text).lineCount := by
  obtain ⟨delta, -, hdelta⟩ := Delta.exists_ofReplacement
    (show change.range.IsValid from ⟨hle, hstart.line_nonneg,
      hstart.column_nonneg, hstop.column_nonneg⟩) change.text
  exact (lines_replacement hdelta hstart hle hfirst).2.2

/-- What comes of a document that takes a single change. -/
theorem apply_singleton_eq_ok {applied : List Change}
    (h : d.apply [change] = .ok (d', applied)) :
    applied = [⟨d.content.clampRange change.range, change.text⟩]
      ∧ d'.content = d.content.splice
        (d.content.clampRange change.range) change.text := by
  obtain ⟨rfl, -, -, hcontent⟩ := Document.apply_eq_ok h
  refine ⟨rfl, ?_⟩
  unfold Document.clampBatch at hcontent
  rw [List.map_singleton, bottomUp_singleton] at hcontent
  exact hcontent

-- ============================================================== the cost

/-- What the trace has more after mending for one change: the lines from
`first` to `m` were handed over, in order, once each, and are counted,
those behind `stop` as the cascade's, as is the change. -/
structure Spent (d : Document) (first stop m : Nat) (t t' : Trace) :
    Prop where
  calls : t'.calls = t.calls ++ (d.lines.drop first).take (m - first + 1)
  counts : t'.meters.active? = t.meters.active?.map (·.plus
    { linesTokenized := (m - first + 1 : Nat)
      cascadeLines := (m - stop : Nat)
      changesApplied := 1 })

theorem spent_of_mended {t : Trace} {stop : Nat} {entries : List Entry}
    (hle : first ≤ stop) (hm : stop ≤ m) :
    Spent d first stop m t
      ((t.plus (mended d first stop (m - stop) entries)).recorded
        (·.changed false)) := by
  have hcount : stop + 1 - first + (m - stop) = m - first + 1 := by omega
  rw [Trace.recorded_eq _ fun m => m.changed_eq false, Trace.plus_plus]
  refine ⟨?_, ?_⟩
  · show _ ++ (_ ++ []) = _
    rw [List.append_nil]
    show _ ++ (d.lines.drop first).take _ = _
    rw [hcount]
  · rw [Trace.active?_plus]
    unfold mended
    rw [hcount]
    rfl

/-- Mending for a change that was applied, with a cache that was the full
build, goes on to the first line, from the last one of the new text on,
that is left as the line it comes from was left before. -/
theorem ends_mendBatch_single {strict : Bool}
    (hstart : d.content.InBounds change.range.start)
    (hstop : d.content.InBounds change.range.stop)
    (hordered : change.range.start ≤ change.range.stop)
    (hcontent : d'.content = d.content.splice change.range change.text)
    (hfirst : change.range.start.line = first)
    (hlast : change.range.stop.line = last)
    (hold : e.fullBuild .none d.lines = .ok old)
    (hnew : e.fullBuild .none d'.lines = .ok new)
    (hc : b.cache.entries = old.map some)
    (hm : FirstSame
      (fun j => new[j]? = old[j - (first + breakCount change.text) + last]?)
      (first + breakCount change.text) d'.lineCount m) :
    Ends (mendBatch d' e strict [change]) b
      (fun _ b' => Spent d' first (first + breakCount change.text) m
        b.trace b'.trace)
      (fun _ _ => False) := by
  have hle : first ≤ last := by
    have := Position.line_le hordered
    omega
  have hlt : first < d.content.lineCount := by
    have := hstart.line_lt
    omega
  have hstops := hm.lt_count
  have hreach := hm.start_le
  have hnext := Nat.le_add_right first (breakCount change.text)
  obtain ⟨delta, hdelta, hdesc⟩ := Delta.exists_ofReplacement
    (show change.range.IsValid from ⟨hordered, hstart.line_nonneg,
      hstart.column_nonneg, hstop.column_nonneg⟩) change.text
  have hd : Described [(change, delta)] :=
    List.forall_mem_singleton.2 ⟨hdelta, hdesc⟩
  -- the range that is mended is that of the new text
  obtain ⟨hrange₁, hrange₂, -⟩ :=
    lines_replacement hdesc hstart hordered hfirst
  have hlines := take_splice change.text hfirst hlast hlt
  rw [← hcontent] at hrange₁ hrange₂ hlines
  have hend : delta.endLine
      = ((first + breakCount change.text : Nat) : Int) := by
    rw [hdesc.endLine_eq, hfirst]
    rfl
  -- and the cache it starts with is the old build, realigned
  have hcache : realignedBy b.cache [delta] = b.cache.realign first last
      (first + breakCount change.text : Nat) := by
    show b.cache.realign delta.start.line delta.stop.line delta.endLine = _
    rw [hdesc.start, hdesc.stop, hend, hfirst, hlast]
  have hreached := reached_realigned hold hnew hlines hc hle hnext
    (show first ≤ d'.lineCount by omega)
  have hm' := firstSame_realigned hc hle hnext hm
  rw [← hcache] at hreached hm'
  unfold mendBatch
  rw [bottomUp_singleton]
  refine .bind (ends_realignAll hd (.bind (.onCache (.bind (.attempt
    ((Reached.ends_mendRange hreached hrange₁ hrange₂ hnext ?_ hm').mono
      ?_ fun _ _ h => h.elim))))))
  · omega
  · rintro _ b' ⟨entries, htrace⟩
    refine .bind (.onTrace (.pure ?_))
    rw [htrace]
    exact spent_of_mended hnext hreach

end Reparse

namespace Workspace

open Reparse

-- ======================================================== the theorem

/-- A controller is at work in a buffer, with these states in its cache.
They need not be those of the buffer's document. -/
structure Retains (ws : Workspace) (buffer controller : Nat)
    (k : Controller) (d : Document) (t : Engine.Tokenizer)
    (states : List TokenState) : Prop where
  seated : ws.controllers[controller]? = some k
  stationed : k.buffer = buffer
  live : k.disposed = false
  tokenizer : k.tokenizer = some t
  document : ws.document? buffer = some d
  entries : k.cache.entries = states.map some

variable {ws : Workspace} {buffer controller : Nat} {k : Controller}
  {d d' : Document} {t : Engine.Tokenizer} {old : List TokenState}
  {change : Change} {applied : List Change}

/-- In a calm round of notifications the call for the controller comes
while it still retains what it did. -/
theorem Retains.arrives {p : Place} {b : Buffer}
    (h : Retains ws p.buffer p.controller k d t old)
    (hb : ws.buffers[p.buffer]? = some b) (hcalm : ws.Calm p)
    (hplans : ∀ plan ∈ ws.plans, Harmless plan p.buffer)
    {changes : List Change}
    (happly : d.apply changes = .ok (d', applied)) :
    ∃ left back ws₁, (edit p.buffer changes).on ws
        = ((deliverAll left (⟨.controller p.controller, p.buffer, applied⟩
              :: back) ws₁).1.map fun _ => applied,
          (deliverAll left (⟨.controller p.controller, p.buffer, applied⟩
              :: back) ws₁).2)
      ∧ Retains ws₁ p.buffer p.controller k d' t old := by
  have hdoc : b.document = d := by
    simpa [document?, hb] using h.document
  obtain ⟨front, back, hlisted, hfront, -⟩ :=
    exists_split (hcalm.listed b hb)
  have hforeign : ∀ e ∈ front.map (fun l =>
      (⟨l, p.buffer, applied⟩ : Delivery)), e.Foreign p :=
    foreign_map (Document.isValid_of_apply happly) hfront
  obtain ⟨left, ws₁, hbefore, -, heq⟩ := deliverAll_foreign
    (hcalm.set hb d') hplans hforeign
    (⟨.controller p.controller, p.buffer, applied⟩
      :: back.map (⟨·, p.buffer, applied⟩))
  refine ⟨left, back.map (⟨·, p.buffer, applied⟩), ws₁, ?_,
    hbefore.controller.trans h.seated, h.stationed, h.live, h.tokenizer,
    hbefore.document.trans ?_, h.entries⟩
  · rw [edit_on, applyBatch_of_some hb, hdoc, happly]
    show (Except.map _ (deliverAll ws.plans (b.listeners.map _) _).1,
      (deliverAll ws.plans (b.listeners.map _) _).2) = _
    rw [hlisted, List.map_append, List.map_cons, ← heq, hlisted]
  · rw [document?_set hb, if_pos rfl]

/-- Being called with a single change that its document has taken, a
controller that holds the full build of the old text spends what the
builds of both texts say. -/
theorem Retains.called {first last m : Nat} {new : List TokenState}
    (h : Retains ws buffer controller k d' t old)
    (happly : d.apply [change] = .ok (d', applied))
    (hold : t.engine.fullBuild .none d.lines = .ok old)
    (hnew : t.engine.fullBuild .none d'.lines = .ok new)
    (hfirst : (d.content.clampRange change.range).start.line = first)
    (hlast : (d.content.clampRange change.range).stop.line = last)
    (hm : FirstSame
      (fun j => new[j]? = old[j - (first + breakCount change.text) + last]?)
      (first + breakCount change.text) d'.lineCount m) :
    ∃ ws', (deliver ⟨.controller controller, buffer, applied⟩).on ws
        = (.ok (), ws')
      ∧ Spent d' first (first + breakCount change.text) m ws.trace
        ws'.trace := by
  obtain ⟨rfl, hcontent⟩ := apply_singleton_eq_ok happly
  let clamped : Change :=
    ⟨d.content.clampRange change.range, change.text⟩
  obtain ⟨hstart, hstop, hle⟩ :=
    d.content.clampRange_ordered change.range
  have hseat : ws.seat? controller = some (k, d') :=
    seat?_eq_some.2 ⟨h.seated, h.stationed ▸ h.document⟩
  have hends : Ends (Reparse.mendBatch d' t.engine
      ws.config.active.isStrict [clamped]) ⟨k.cache, ws.trace⟩ _ _ :=
    ends_mendBatch_single hstart hstop hle hcontent hfirst hlast hold hnew
      h.entries hm
  obtain ⟨_, bench, hrun, hspent⟩ := hends.exists_ok
  refine ⟨ws.leave controller bench, ?_, hspent⟩
  rw [← h.stationed, deliver_controller h.seated h.live, mendBatch_on,
    whenReady_of_ready hseat h.tokenizer,
    show (Reparse.mendBatch d' t.engine _ _).on _ = _ from hrun]

/-- What an edit costs a controller that holds the full build `old` of a
document, which takes a batch of one change. Let the replaced range, once
clamped, reach from line `first` to line `last`, let the new text end on
line `stop`, and let `m` be the first line from there on that the new full
build leaves as the old one left the line it comes from; or the last line,
if there is none. Wherever the controller is called with the batch, it
hands the lines from `first` to `m` to its engine, once each and in order,
and counts them, those behind `stop` as cascaded, and the change. Unless
other listeners fail or edit the document, the edit makes it be called so,
and if there are none, that is all that the edit costs. -/
theorem edit_costs (h : Retains ws buffer controller k d t old)
    (htotal : t.engine.Total)
    (hold : t.engine.fullBuild .none d.lines = .ok old)
    (happly : d.apply [change] = .ok (d', applied)) :
    ∃ (new : List TokenState) (first last stop m : Nat),
      t.engine.fullBuild .none d'.lines = .ok new
      ∧ (d.content.clampRange change.range).start.line = first
      ∧ (d.content.clampRange change.range).stop.line = last
      ∧ stop = first + breakCount change.text
      ∧ FirstSame (fun j => new[j]? = old[j - stop + last]?) stop
        d'.lineCount m
      ∧ (∀ ws₁ k₁, Retains ws₁ buffer controller k₁ d' t old →
        ∃ ws₂, (deliver ⟨.controller controller, buffer, applied⟩).on ws₁
            = (.ok (), ws₂)
          ∧ Spent d' first stop m ws₁.trace ws₂.trace)
      ∧ (∀ (p : Place) (b : Buffer), p.buffer = buffer →
        p.controller = controller → ws.buffers[buffer]? = some b →
        ws.Calm p → (∀ plan ∈ ws.plans, Harmless plan buffer) →
        ∃ left back ws₁, (edit buffer [change]).on ws
            = ((deliverAll left (⟨.controller controller, buffer, applied⟩
                :: back) ws₁).1.map fun _ => applied,
              (deliverAll left (⟨.controller controller, buffer, applied⟩
                :: back) ws₁).2)
          ∧ Retains ws₁ buffer controller k d' t old)
      ∧ (ws.buffers[buffer]? = some ⟨d, [.controller controller]⟩ →
        ∃ ws', (edit buffer [change]).on ws = (.ok applied, ws')
          ∧ Spent d' first stop m ws.trace ws'.trace) := by
  obtain ⟨new, hnew⟩ := htotal.exists_fullBuild .none d'.lines
  obtain ⟨first, last, hfirst, hlast, -, -⟩ :=
    exists_lines_clampRange d change.range
  obtain ⟨-, hcontent⟩ := apply_singleton_eq_ok happly
  have hstop : first + breakCount change.text < d'.lineCount := by
    obtain ⟨hstart, hstop, hle⟩ :=
      d.content.clampRange_ordered change.range
    show _ < d'.content.lineCount
    rw [hcontent]
    exact lt_lineCount_splice ⟨d.content.clampRange change.range,
      change.text⟩ hstart hstop hle hfirst
  -- `m` is read off the two full builds, before any controller is called
  obtain ⟨m, hm⟩ := FirstSame.exists_of_lt (fun j => new[j]?
    = old[j - (first + breakCount change.text) + last]?) hstop
  -- what the call costs, wherever it takes place
  have hcalled := fun ws₁ k₁
    (h₁ : Retains ws₁ buffer controller k₁ d' t old) =>
      h₁.called happly hold hnew hfirst hlast hm
  refine ⟨new, first, last, _, m, hnew, hfirst, hlast, rfl, hm, hcalled,
    ?_, fun hb => ?_⟩
  · -- listeners that leave the document alone let the call take place
    rintro p b rfl rfl hb hcalm hplans
    exact h.arrives hb hcalm hplans happly
  · -- where nobody else listens, the call is all there is to the round
    obtain ⟨ws', hon, hspent⟩ := hcalled { ws with
        buffers := ws.buffers.set buffer ⟨d', [.controller controller]⟩ } k
      ⟨h.seated, h.stationed, h.live, h.tokenizer, by
        rw [document?_set hb, if_pos rfl], h.entries⟩
    refine ⟨{ ws' with plans := ws.plans }, ?_, hspent⟩
    rw [edit_on, applyBatch_of_some hb, happly]
    show (Except.map _ (deliverAll ws.plans [_] _).1,
      (deliverAll ws.plans [_] _).2) = _
    rw [deliverAll_of_none [] hon rfl, deliverAll]
    rfl

/-- Three lines set the state, all others pass it on. -/
def steps : Engine.Tokenizer :=
  ⟨0, .table [⟨"a".toList, none, .answers [] (.number 1)⟩,
    ⟨"x".toList, none, .answers [] (.number 5)⟩,
    ⟨"r".toList, none, .answers [] (.number 0)⟩]⟩

theorem total_steps : steps.engine.Total := by
  intro line s
  show ∃ a, Engine.table _ line s = .ok a
  unfold Engine.table
  split
  · refine Engine.exists_answer ?_ s
    simp [Token.disorder?]
  · next row hrow =>
    have hmem := List.mem_of_find?_eq_some hrow
    simp only [List.mem_cons, List.not_mem_nil, or_false] at hmem
    rcases hmem with rfl | rfl | rfl <;> exact Engine.exists_answer rfl _

/-- A controller by itself, with the full build of its document. Counting
has begun. -/
def counted : Workspace :=
  { empty with
    buffers := [⟨.new "untitled:document" "plaintext"
      "a\nb\nr\nc".toList, [.controller 0]⟩]
    controllers := [⟨0, some steps, ⟨[some (.number 1), some (.number 1),
      some (.number 0), some (.number 0)]⟩, some 0, false⟩]
    registrations := [⟨0, .controller 0, true⟩]
    trace := ⟨[], [], .enter .off⟩ }

/-- Two lines for the first: the new state goes on to the line that sets
another, which is two lines behind the new text. -/
theorem edit_costs_four :
    ∃ applied ws', (edit 0 [⟨⟨⟨0, 0⟩, ⟨0, 1⟩⟩, "x\ny".toList⟩]).on counted
        = (.ok applied, ws')
      ∧ ws'.trace.calls
        = ["x".toList, "y".toList, "b".toList, "r".toList]
      ∧ ws'.trace.meters.active? = some { linesTokenized := 4
                                          cascadeLines := 2
                                          changesApplied := 1 } := by
  have happly : (Document.new "untitled:document" "plaintext"
        "a\nb\nr\nc".toList).apply [⟨⟨⟨0, 0⟩, ⟨0, 1⟩⟩, "x\ny".toList⟩]
      = .ok (⟨"untitled:document", "plaintext", 1,
          .ofText "x\ny\nb\nr\nc".toList⟩,
        [⟨⟨⟨0, 0⟩, ⟨0, 1⟩⟩, "x\ny".toList⟩]) := by cbv
  have hold : steps.engine.fullBuild .none (Document.new
        "untitled:document" "plaintext" "a\nb\nr\nc".toList).lines
      = .ok [.number 1, .number 1, .number 0, .number 0] := by cbv
  have hnew : steps.engine.fullBuild .none
        (Content.ofText "x\ny\nb\nr\nc".toList).lines
      = .ok [.number 5, .number 5, .number 5, .number 0, .number 0] := by
    cbv
  have hretains : Retains counted 0 0 _ _ steps
      [.number 1, .number 1, .number 0, .number 0] :=
    ⟨rfl, rfl, rfl, rfl, rfl, rfl⟩
  obtain ⟨new, first, last, stop, m, hbuild, hfirst, hlast, hstop, hm, -,
    -, halone⟩ := edit_costs hretains total_steps hold happly
  obtain rfl := Except.ok.inj (hnew.symm.trans hbuild)
  obtain rfl : first = 0 := Int.ofNat_inj.1 (hfirst.symm.trans (by cbv))
  obtain rfl : last = 0 := Int.ofNat_inj.1 (hlast.symm.trans (by cbv))
  obtain rfl : stop = 1 := hstop.trans (by cbv)
  obtain rfl : m = 3 := by
    refine hm.unique ⟨by decide, by cbv, fun j hj hlt => ?_, .inl ?_⟩
    · obtain rfl | rfl : j = 1 ∨ j = 2 := by omega
      · decide
      · decide
    · decide
  obtain ⟨ws', hon, hspent⟩ := halone rfl
  refine ⟨_, ws', hon, hspent.calls.trans ?_, hspent.counts.trans ?_⟩
  · cbv
  · cbv

end Workspace

end Relex
