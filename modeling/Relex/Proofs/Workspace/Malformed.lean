/-
Malformed changes among the good ones.

A listener may be handed a batch that its document did not apply as it
stands: the changes that were applied, with malformed ones mixed in at
any places. Malformed ranges take part in the sorting, and a change is
found malformed only when it is its turn; by then the cache was realigned
for some of the others.

That does no harm. Sorting keeps the good changes in the order they have
by themselves (`filter_bottomUp`), and skipping a change leaves the cache
as it is. So outside of strict mode realigning comes to realigning for
the good changes, and a complaint about each other one
(`ends_realignAll_lenient`). In strict mode the first malformed change
that is met makes the cache be built anew, from nothing and from the
document as it is now, whatever was realigned before
(`ends_realignAll_strict`).
-/
import Mathlib
import Relex.Proofs.Tally
import Relex.Proofs.Workspace.Equivalence

namespace Relex

-- ============================================================= mixing

/-- The third list is made of the first two, mixed in any way that keeps
each of them in order. -/
inductive Mixed {α : Type} : List α → List α → List α → Prop where
  | nil : Mixed [] [] []
  | left {x : α} {xs ys zs : List α} :
    Mixed xs ys zs → Mixed (x :: xs) ys (x :: zs)
  | right {y : α} {xs ys zs : List α} :
    Mixed xs ys zs → Mixed xs (y :: ys) (y :: zs)

/-- A test that tells two lists apart takes their mixture apart again. -/
theorem Mixed.filter_eq {α : Type} {xs ys zs : List α}
    (h : Mixed xs ys zs) (p : α → Bool) (hx : ∀ x ∈ xs, p x = true)
    (hy : ∀ y ∈ ys, p y = false) :
    zs.filter p = xs ∧ (zs.filter fun z => !p z) = ys := by
  induction h with
  | nil => exact ⟨rfl, rfl⟩
  | left _ ih =>
      have hhead := hx _ List.mem_cons_self
      obtain ⟨hxs, hys⟩ := ih (fun x h => hx x (.tail _ h)) hy
      rw [List.filter_cons_of_pos hhead, List.filter_cons_of_neg
        (by simp [hhead]), hxs, hys]
      exact ⟨rfl, rfl⟩
  | right _ ih =>
      have hhead := hy _ List.mem_cons_self
      obtain ⟨hxs, hys⟩ := ih hx fun y h => hy y (.tail _ h)
      rw [List.filter_cons_of_neg (by simp [hhead]),
        List.filter_cons_of_pos (by simp [hhead]), hxs, hys]
      exact ⟨rfl, rfl⟩

theorem Mixed.mem_right {α : Type} {xs ys zs : List α}
    (h : Mixed xs ys zs) (p : α → Bool) (hx : ∀ x ∈ xs, p x = true)
    (hy : ∀ y ∈ ys, p y = false) (z : α) :
    z ∈ ys ↔ z ∈ zs ∧ p z = false := by
  rw [← (h.filter_eq p hx hy).2, List.mem_filter, Bool.not_eq_true']

namespace Reparse

open Change

variable {d : Document} {e : Engine} {b : Bench}
  {pairs : List (Change × Delta)} {changes : List Change}

-- ========================================================= realigning

/-- The fault of a change with a malformed range. -/
def refusal (change : Change) : Fault :=
  .edit (.located (.unappliable change.range) change.range.start)

theorem ofReplacement_of_not_isValid {change : Change}
    (h : ¬change.range.IsValid) :
    Delta.ofReplacement change.range change.text
      = .error (.located (.unappliable change.range)
        change.range.start) := by
  unfold Delta.ofReplacement
  rw [if_neg h]

/-- What skipping malformed changes comes to, if not in strict mode: each
is told of, in order, and counted. -/
def refusing (d : Document) (malformed : List Change) : Tally where
  calls := []
  entries := malformed.map fun change =>
    skipEntry d change (refusal change)
  counts := { changesSkipped := malformed.length }

theorem refusing_cons (change : Change) (rest : List Change) :
    (skipping d change (refusal change)).plus (refusing d rest)
      = refusing d (change :: rest) := by
  simp [skipping, refusing, Tally.plus, Metrics.plus, Metrics.ofChange,
    Metrics.changed, Metrics.zero, Int.add_comm]

/-- Outside of strict mode realigning for a batch comes to realigning for
its well-formed changes, and a complaint about each malformed one. -/
theorem ends_realignAll_lenient (hd : Described pairs)
    (hpairs : pairs.map (·.1) = changes.filter (·.range.IsValid)) :
    Ends (realignAll d e false changes) b
      (fun answer b' => answer = pairs
        ∧ b'.cache = realignedBy b.cache (pairs.map (·.2))
        ∧ b'.trace = b.trace.plus
          (refusing d (changes.filter fun c => !c.range.IsValid)))
      (fun _ _ => False) := by
  induction changes generalizing pairs b with
  | nil =>
      obtain rfl : pairs = [] := List.map_eq_nil_iff.1 hpairs
      exact .pure ⟨rfl, rfl, b.trace.plus_nothing.symm⟩
  | cons change rest ih =>
      by_cases hvalid : change.range.IsValid
      · rw [List.filter_cons_of_pos (by simp [hvalid])] at hpairs
        rw [List.filter_cons_of_neg (by simp [hvalid])]
        obtain ⟨pair, upper, rfl, rfl, hupper⟩ :=
          List.map_eq_cons_iff.1 hpairs
        rw [realignAll, (hd pair (by simp)).1]
        refine .bind (.onCache (.bind ((ih (fun p hp => hd p
          (by simp [hp])) hupper).mono ?_ fun _ _ h => h)))
        rintro _ b' ⟨rfl, hcache, htrace⟩
        exact .pure ⟨rfl, hcache, htrace⟩
      · rw [List.filter_cons_of_neg (by simp [hvalid])] at hpairs
        rw [List.filter_cons_of_pos (by simp [hvalid])]
        rw [realignAll, ofReplacement_of_not_isValid hvalid]
        refine .bind (tally_skip ((ih hd hpairs).mono ?_ fun _ _ h => h))
        rintro _ b' ⟨rfl, hcache, htrace⟩
        refine ⟨rfl, hcache, ?_⟩
        rw [htrace, Trace.plus_plus]
        exact congrArg _ (refusing_cons change _)

/-- In strict mode realigning for a batch with a malformed change fails
because of such a change, and leaves the cache sound on every line,
whatever it was. -/
theorem ends_realignAll_strict (he : e.Total)
    (h : ∃ change ∈ changes, ¬change.range.IsValid) :
    Ends (realignAll d e true changes) b (fun _ _ => False)
      (fun fault b' => (∃ change ∈ changes, ¬change.range.IsValid
          ∧ fault = refusal change)
        ∧ b'.cache.SoundBut e d.lines fun _ => False) := by
  induction changes generalizing b with
  | nil =>
      obtain ⟨_, hc, -⟩ := h
      cases hc
  | cons change rest ih =>
      by_cases hvalid : change.range.IsValid
      · obtain ⟨bad, hbad, hmalformed⟩ := h
        have hrest : ∃ change ∈ rest, ¬change.range.IsValid := by
          rcases List.mem_cons.1 hbad with rfl | hbad
          · exact absurd hvalid hmalformed
          · exact ⟨bad, hbad, hmalformed⟩
        obtain ⟨delta, hdelta, -⟩ :=
          Delta.exists_ofReplacement hvalid change.text
        rw [realignAll, hdelta]
        refine .bind (.onCache (.bind ((ih hrest).mono
          (fun _ _ h => h.elim) ?_)))
        rintro _ _ ⟨⟨bad, hbad, hfault⟩, hsound⟩
        exact ⟨⟨bad, .tail _ hbad, hfault⟩, hsound⟩
      · rw [realignAll, ofReplacement_of_not_isValid hvalid]
        refine .bind ?_
        unfold skip
        rw [if_pos rfl]
        refine .bind (.onTrace (.bind (ends_rebuild.mono ?_ ?_)))
        · exact fun _ _ hb => .throw
            ⟨⟨change, List.mem_cons_self, hvalid, rfl⟩, hb⟩
        · exact fun _ _ hb => absurd he hb.1

-- ======================================================== whole batches

/-- What mending around malformed changes comes to: a complaint about
each of these, everything else a detail, and every change counted. -/
structure MendsAround (d : Document) (applied malformed : List Change)
    (x : Tally) : Prop where
  complaints : x.entries.filter (·.level = .warning)
    = (bottomUp malformed).map fun change =>
        skipEntry d change (refusal change)
  skipped : x.counts.changesSkipped = malformed.length
  applied : x.counts.changesApplied = applied.length

/-- Outside of strict mode, and with an engine that does not fail, mending
after a batch goes through with malformed changes mixed in, and leaves the
cache sound on every line. -/
theorem ends_mendBatch_mixed (he : e.Total) {d' : Document}
    {batch applied malformed : List Change}
    (happly : d.apply batch = .ok (d', applied))
    (hm : ∀ change ∈ malformed, ¬change.range.IsValid)
    (hmixed : Mixed applied malformed changes)
    (h : b.cache.SoundBut e d.lines fun _ => False) :
    Ends (mendBatch d' e false changes) b
      (fun _ b' => b'.cache.SoundBut e d'.lines (fun _ => False)
        ∧ ∃ x, MendsAround d' applied malformed x
          ∧ b'.trace = b.trace.plus x)
      (fun _ _ => False) := by
  have hvalid := Document.isValid_of_apply happly
  -- the changes that are valid are those of the batch, in its order
  obtain ⟨hgood, hbad⟩ := hmixed.filter_eq (·.range.IsValid)
    (fun c hc => decide_eq_true (hvalid c hc))
    (fun c hc => decide_eq_false (hm c hc))
  have hgood' := filter_bottomUp (·.range.IsValid) changes
  have hbad' := filter_bottomUp (fun c => !c.range.IsValid) changes
  rw [hgood] at hgood'
  rw [hbad] at hbad'
  obtain ⟨-, hstacked, -, -⟩ := Document.apply_eq_ok happly
  obtain ⟨pairs, hpairs, hd⟩ := exists_described hstacked.isValid
  have hsound := sound_realignedBy_of_apply happly hpairs hd h
  unfold mendBatch
  refine .bind ((ends_realignAll_lenient hd
    (hpairs.trans hgood'.symm)).mono ?_ fun _ _ h => h)
  rintro _ b₁ ⟨rfl, hcache, htrace⟩
  rw [← hcache] at hsound
  refine .bind (.onCache (((ends_mendSpans (soundBut_take fun i _ =>
    hsound i)).and tally_mendSpans).mono ?_ fun _ _ h => h.2))
  rintro _ b₂ ⟨h₂, x, hx, hx'⟩
  refine ⟨h₂, (refusing d' (bottomUp malformed)).plus x, ⟨?_, ?_, ?_⟩, ?_⟩
  · -- an engine that does not fail gives no cause for a warning
    have hquiet : x.entries.filter (·.level = .warning) = [] := by
      refine List.filter_eq_nil_iff.2 fun entry hentry => ?_
      rw [hx.quiet he entry hentry]
      decide
    show ((refusing d' _).entries ++ x.entries).filter _ = _
    rw [List.filter_append, hquiet, List.append_nil]
    refine List.filter_eq_self.2 fun entry hentry => ?_
    obtain ⟨change, -, rfl⟩ := List.mem_map.1 hentry
    rfl
  · show ((bottomUp malformed).length : Int) + x.counts.changesSkipped = _
    rw [hx.skipped he, (bottomUp_perm malformed).length_eq]
    rfl
  · have hcount := hx.changes
    have hlen := congrArg List.length hpairs
    rw [List.length_map, (bottomUp_perm applied).length_eq] at hlen
    rw [hx.skipped he, hlen] at hcount
    show (0 : Int) + x.counts.changesApplied = _
    omega
  · rw [hx', ← Trace.plus_plus, ← hbad', ← htrace]

/-- In strict mode mending after a batch with a malformed change fails
because of such a change, and leaves the cache sound on every line. -/
theorem ends_mendBatch_strict (he : e.Total)
    (h : ∃ change ∈ changes, ¬change.range.IsValid) :
    Ends (mendBatch d e true changes) b (fun _ _ => False)
      (fun fault b' => (∃ change ∈ changes, ¬change.range.IsValid
          ∧ fault = refusal change)
        ∧ b'.cache.SoundBut e d.lines fun _ => False) := by
  obtain ⟨bad, hbad, hmalformed⟩ := h
  refine .bind ((ends_realignAll_strict he ⟨bad,
    (bottomUp_perm changes).mem_iff.2 hbad, hmalformed⟩).mono
      (fun _ _ h => h.elim) ?_)
  rintro _ _ ⟨⟨change, hc, hfault⟩, hsound⟩
  exact ⟨⟨change, (bottomUp_perm changes).mem_iff.1 hc, hfault⟩, hsound⟩

end Reparse

namespace Workspace

open Change Reparse

-- ========================================================= the theorem

variable {ws : Workspace} {controller : Nat} {k : Controller}
  {d d' : Document} {t : Engine.Tokenizer} {states : List TokenState}
  {batch applied malformed changes : List Change}

/-- A controller of which a sound cache is left holds the full build. -/
theorem holdsBuild_leave {b : Bench}
    (hseat : ws.seat? controller = some (k, d))
    (ht : k.tokenizer = some t)
    (hb : t.engine.fullBuild .none d.lines = .ok states)
    (h : b.cache.SoundBut t.engine d.lines fun _ => False) :
    HoldsBuild (ws.leave controller b) controller d t states := by
  refine KeepsUp.holdsBuild ?_ (seat?_leave hseat b) ht hb
  intro t' ht'
  obtain rfl := Option.some.inj (ht.symm.trans ht')
  exact h

/-- A controller that holds the full build of a document is handed the
changes of a batch that the document has accepted, with malformed changes
mixed in. It ends up with the full build of the new text. Outside of
strict mode it goes through; there is a warning for each malformed change,
in the order in which they are come to, and these are counted as skipped
and the others as applied. In strict mode it fails with the fault of a
malformed change, if there is any. -/
theorem mendBatch_mixed (happly : d.apply batch = .ok (d', applied))
    (hseat : ws.seat? controller = some (k, d'))
    (ht : k.tokenizer = some t) (htotal : t.engine.Total)
    (hb : t.engine.fullBuild .none d.lines = .ok states)
    (hk : k.cache.entries = states.map some)
    (hm : ∀ change ∈ malformed, ¬change.range.IsValid)
    (hmixed : Mixed applied malformed changes) :
    ∃ ws' states', t.engine.fullBuild .none d'.lines = .ok states'
      ∧ (ws.config.active.isStrict = false →
        (mendBatch controller changes).on ws = (.ok (), ws')
          ∧ HoldsBuild ws' controller d' t states'
          ∧ (∃ entries, ws'.trace.journal = ws.trace.journal ++ entries
            ∧ entries.filter (·.level = .warning)
              = (bottomUp malformed).map fun change =>
                  skipEntry d' change (refusal change))
          ∧ ∀ m, ws.trace.meters.active? = some m →
            ∃ m', ws'.trace.meters.active? = some m'
              ∧ m'.changesSkipped = m.changesSkipped + malformed.length
              ∧ m'.changesApplied = m.changesApplied + applied.length)
      ∧ (ws.config.active.isStrict = true → malformed ≠ [] →
        ∃ change ∈ malformed, (mendBatch controller changes).on ws
            = (.error (refusal change), ws')
          ∧ HoldsBuild ws' controller d' t states') := by
  have hsound := StateCache.soundBut_of_fullBuild hb hk
  obtain ⟨states', hb'⟩ := htotal.exists_fullBuild .none d'.lines
  have hrun : ∀ result b, (Reparse.mendBatch d' t.engine
      ws.config.active.isStrict changes).on ⟨k.cache, ws.trace⟩
        = (result, b) →
      (mendBatch controller changes).on ws
        = (result, ws.leave controller b) := by
    intro result b hwork
    rw [mendBatch_on, whenReady_of_ready hseat ht, hwork]
  cases hstrict : ws.config.active.isStrict with
  | false =>
      rw [hstrict] at hrun
      -- the malformed changes are passed over with a warning each
      obtain ⟨_, b, hwork, hcache, x, hx, htrace⟩ :=
        (ends_mendBatch_mixed (b := ⟨k.cache, ws.trace⟩) htotal happly hm
          hmixed hsound).exists_ok
      refine ⟨_, states', hb', fun _ => ⟨hrun _ b hwork,
        holdsBuild_leave hseat ht hb' hcache,
        ⟨x.entries, ?_, hx.complaints⟩, fun m hm => ?_⟩, nofun⟩
      · show b.trace.journal = _
        rw [htrace]
        rfl
      · refine ⟨m.plus x.counts, ?_, ?_, ?_⟩
        · show b.trace.meters.active? = _
          rw [htrace, Trace.active?_plus, hm]
          rfl
        · rw [← hx.skipped]
          rfl
        · rw [← hx.applied]
          rfl
  | true =>
      rw [hstrict] at hrun
      by_cases hnone : malformed = []
      · exact ⟨ws, states', hb', nofun, fun _ h => absurd hnone h⟩
      have hmem : ∀ change, change ∈ malformed
          ↔ change ∈ changes ∧ ¬change.range.IsValid := by
        have hvalid := Document.isValid_of_apply happly
        simpa using hmixed.mem_right (·.range.IsValid)
          (fun c hc => decide_eq_true (hvalid c hc))
          (fun c hc => decide_eq_false (hm c hc))
      -- one malformed change is enough to give up and build anew
      obtain ⟨bad, hbad⟩ := List.exists_mem_of_ne_nil malformed hnone
      rcases (ends_mendBatch_strict (d := d') (b := ⟨k.cache, ws.trace⟩)
        htotal ⟨bad, (hmem bad).1 hbad⟩).elim with ⟨_, _, _, hfalse⟩
          | ⟨_, b, hwork, ⟨change, hc, hc', rfl⟩, hcache⟩
      · exact hfalse.elim
      · exact ⟨_, states', hb', nofun, fun _ _ => ⟨change,
          (hmem change).2 ⟨hc, hc'⟩, hrun _ b hwork,
          holdsBuild_leave hseat ht hb' hcache⟩⟩

/-- A controller that does not listen is one batch behind. Counting has
begun, in strict mode or not. -/
def behind (strict : Bool) : Workspace :=
  let ws := ((attach 0 (some ⟨0, .depth⟩) false).on
    (watched "a\nb\nc")).2
  let ws := ((edit 0 [⟨⟨⟨0, 0⟩, ⟨0, 1⟩⟩, "\x7b".toList⟩,
    ⟨⟨⟨2, 0⟩, ⟨2, 0⟩⟩, "\x7d".toList⟩]).on ws).2
  { ws with
    config := ⟨{ strictEdits := .flag strict }, []⟩
    trace := ⟨[], [], .enter .off⟩ }

/-- The batch it is behind with. An inverted range further down comes
first, and a negative column in between. -/
def muddled : List Change :=
  [⟨⟨⟨7, 0⟩, ⟨6, 0⟩⟩, []⟩, ⟨⟨⟨0, 0⟩, ⟨0, 1⟩⟩, "\x7b".toList⟩,
    ⟨⟨⟨1, -1⟩, ⟨1, 1⟩⟩, []⟩, ⟨⟨⟨2, 0⟩, ⟨2, 0⟩⟩, "\x7d".toList⟩]

theorem seat?_behind (strict : Bool) : (behind strict).seat? 0
    = some (⟨0, some ⟨0, .depth⟩,
        ⟨[some (.number 0), some (.number 0), some (.number 0)]⟩,
        none, false⟩, ⟨"untitled:document", "plaintext", 1,
        .ofText "\x7b\nb\n\x7dc".toList⟩) := by
  cbv

theorem mendBatch_mixed_muddled :
    (∃ ws', (mendBatch 0 muddled).on (behind false) = (.ok (), ws')
      ∧ HoldsBuild ws' 0 ⟨"untitled:document", "plaintext", 1,
          .ofText "\x7b\nb\n\x7dc".toList⟩ ⟨0, .depth⟩
          [.number 1, .number 1, .number 0]
      ∧ ∃ m, ws'.trace.meters.active? = some m
        ∧ m.changesSkipped = 2 ∧ m.changesApplied = 2)
    ∧ ∃ ws' change, (mendBatch 0 muddled).on (behind true)
        = (.error (refusal change), ws')
      ∧ HoldsBuild ws' 0 ⟨"untitled:document", "plaintext", 1,
          .ofText "\x7b\nb\n\x7dc".toList⟩ ⟨0, .depth⟩
          [.number 1, .number 1, .number 0] := by
  have happly : (Document.new "untitled:document" "plaintext"
        "a\nb\nc".toList).apply [⟨⟨⟨0, 0⟩, ⟨0, 1⟩⟩, "\x7b".toList⟩,
          ⟨⟨⟨2, 0⟩, ⟨2, 0⟩⟩, "\x7d".toList⟩]
      = .ok (⟨"untitled:document", "plaintext", 1,
          .ofText "\x7b\nb\n\x7dc".toList⟩,
        [⟨⟨⟨0, 0⟩, ⟨0, 1⟩⟩, "\x7b".toList⟩,
          ⟨⟨⟨2, 0⟩, ⟨2, 0⟩⟩, "\x7d".toList⟩]) := by cbv
  have hmixed : Mixed [⟨⟨⟨0, 0⟩, ⟨0, 1⟩⟩, "\x7b".toList⟩,
        ⟨⟨⟨2, 0⟩, ⟨2, 0⟩⟩, "\x7d".toList⟩]
      [⟨⟨⟨7, 0⟩, ⟨6, 0⟩⟩, []⟩, ⟨⟨⟨1, -1⟩, ⟨1, 1⟩⟩, []⟩] muddled :=
    .right (.left (.right (.left .nil)))
  have hm : ∀ change ∈ ([⟨⟨⟨7, 0⟩, ⟨6, 0⟩⟩, []⟩,
      ⟨⟨⟨1, -1⟩, ⟨1, 1⟩⟩, []⟩] : List Change), ¬change.range.IsValid := by
    decide
  have hbuild : Engine.depth.fullBuild .none
      (Content.ofText "\x7b\nb\n\x7dc".toList).lines
      = .ok [.number 1, .number 1, .number 0] := by cbv
  have hbefore : Engine.depth.fullBuild .none
      (Document.new "untitled:document" "plaintext" "a\nb\nc".toList).lines
      = .ok [.number 0, .number 0, .number 0] := by cbv
  have hmends := fun strict => mendBatch_mixed happly (seat?_behind strict)
    rfl Engine.total_depth hbefore rfl hm hmixed
  constructor
  · obtain ⟨ws', states', hb, hlenient, -⟩ := hmends false
    obtain rfl := Except.ok.inj (hbuild.symm.trans hb)
    obtain ⟨hrun, hholds, -, hmeters⟩ := hlenient rfl
    obtain ⟨m, hm, hskipped, happlied⟩ := hmeters .zero rfl
    exact ⟨ws', hrun, hholds, m, hm, hskipped, happlied⟩
  · obtain ⟨ws', states', hb, -, hstrict⟩ := hmends true
    obtain rfl := Except.ok.inj (hbuild.symm.trans hb)
    obtain ⟨change, -, hrun, hholds⟩ := hstrict rfl (by simp)
    exact ⟨ws', change, hrun, hholds⟩

end Workspace

end Relex
