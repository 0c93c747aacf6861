/-
Giving up on a batch.

In strict mode a change that fails makes its controller build the cache
anew and pass the fault on. Building anew starts from no entries at all,
so the cache it leaves is a matter of the document and the engine alone:
each line is stored right behind the ones before it, entered in the state
stored last (`ends_retokenizeAll_next`). If the engine fails there, too,
the states up to that line stay (`builtUpTo`), and the engine's fault
takes the place of the one to be passed on (`Recovered`).

What a failing change fails with by itself is said by running the batch
without any of that: `outright` stops at the first change that fails and
answers it with its own fault. Strict mending returns if and only if
nothing fails outright, and then comes to the same
(`ends_mendBatch_outright`).
-/
import Mathlib
import Relex.Proofs.Workspace.Malformed

namespace Relex

-- =============================================== building from nothing

namespace Engine

/-- The states in which lines are left that are tokenized one after the
other, up to the first line on which the engine fails. -/
def builtUpTo (e : Engine) (entering : TokenState) :
    List Line → List TokenState
  | [] => []
  | line :: rest =>
    match e line entering with
    | .error _ => []
    | .ok a => a.next :: builtUpTo e a.next rest

variable {e : Engine} {s : TokenState} {lines : List Line}

/-- If the full build goes through, it is all that is built. -/
theorem builtUpTo_of_fullBuild {states : List TokenState}
    (h : e.fullBuild s lines = .ok states) :
    e.builtUpTo s lines = states := by
  induction lines generalizing s states with
  | nil => exact Except.ok.inj h
  | cons line rest ih =>
      obtain ⟨a, others, ha, hrest, rfl⟩ := fullBuild_cons h
      rw [builtUpTo, ha]
      dsimp only
      rw [ih hrest]

theorem length_builtUpTo_le :
    (e.builtUpTo s lines).length ≤ lines.length := by
  induction lines generalizing s with
  | nil => exact Nat.le_refl 0
  | cons line rest ih =>
      rw [builtUpTo]
      split
      · exact Nat.zero_le _
      · exact Nat.succ_le_succ ih

/-- The states are those of the full build, cut at the first line on which
it fails: it goes through up to there and not on one line more, unless
there is none. -/
structure CutShort (e : Engine) (s : TokenState) (lines : List Line)
    (states : List TokenState) : Prop where
  built : e.fullBuild s (lines.take states.length) = .ok states
  stops : states.length = lines.length
    ∨ ∃ fault, e.fullBuild s (lines.take (states.length + 1))
        = .error fault
      ∧ e.fullBuild s lines = .error fault

/-- What is built is the full build of the lines it reaches. If there are
more, the engine fails on the next one, and the full build with it. -/
theorem builtUpTo_cut (e : Engine) (s : TokenState) (lines : List Line) :
    e.CutShort s lines (e.builtUpTo s lines) := by
  induction lines generalizing s with
  | nil => exact ⟨rfl, .inl rfl⟩
  | cons line rest ih =>
      rw [builtUpTo]
      cases ha : e line s with
      | error fault =>
          refine ⟨rfl, .inr ⟨fault, ?_, ?_⟩⟩ <;> simp [fullBuild, ha]
      | ok a =>
          obtain ⟨hbuilt, hstops⟩ := ih a.next
          refine ⟨by simp [fullBuild, ha, hbuilt], ?_⟩
          refine hstops.imp (congrArg (· + 1)) ?_
          rintro ⟨fault, hstop, hfault⟩
          refine ⟨fault, ?_, ?_⟩ <;>
            simp [fullBuild, ha, hstop, hfault]

end Engine

namespace Reparse

open Change

variable {d : Document} {e : Engine} {b : Bench}
  {pairs : List (Change × Delta)} {changes : List Change}

/-- Tokenizing the lines behind the last entry adds an entry for each, up
to the first line on which the engine fails. -/
theorem ends_retokenizeAll_next {i count : Nat} {changed : Bool}
    {s : TokenState} (hsize : b.cache.size = i)
    (hs : b.cache.entered? i = some s) (hi : i + count = d.lineCount) :
    Ends (retokenizeAll d e i changed count) b
      (fun _ b' => (∃ states, e.fullBuild s (d.lines.drop i) = .ok states)
        ∧ b'.cache.entries = b.cache.entries
          ++ (e.builtUpTo s (d.lines.drop i)).map some)
      (fun fault b' => e.fullBuild s (d.lines.drop i) = .error fault
        ∧ b'.cache.entries = b.cache.entries
          ++ (e.builtUpTo s (d.lines.drop i)).map some) := by
  induction count generalizing i b changed s with
  | zero =>
      rw [List.drop_eq_nil_of_le (by change d.lineCount ≤ i; omega)]
      exact .pure ⟨⟨[], rfl⟩, (List.append_nil _).symm⟩
  | succ count ih =>
      have hlt : i < d.lines.length := by
        change i < d.lineCount
        omega
      have hentering : b.cache.entering i = s := by
        rw [StateCache.entering_natCast, hs, Option.getD_some]
      rw [List.drop_eq_getElem_cons hlt]
      refine .bind (ends_retokenize_of (List.getElem?_eq_getElem hlt)
        ?_ ?_)
      · intro a ha
        rw [hentering] at ha
        have hentries := b.cache.entries_insert_size a.next
        rw [hsize] at hentries
        have hmore : b.cache.entries ++ (e.builtUpTo s
              (d.lines[i] :: d.lines.drop (i + 1))).map some
            = (b.cache.insert i a.next).2.entries
              ++ (e.builtUpTo a.next (d.lines.drop (i + 1))).map some := by
          rw [hentries, Engine.builtUpTo, ha]
          simp
        rw [hmore]
        refine (ih (i := i + 1) (s := a.next) ?_ ?_ (by omega)).mono ?_ ?_
        · show (b.cache.insert i a.next).2.size = i + 1
          rw [StateCache.size_insert, hsize]
          omega
        · show (b.cache.insert i a.next).2.get? i = some a.next
          rw [StateCache.get?_insert, if_pos rfl]
        · rintro _ b' ⟨⟨states, hb⟩, hcache⟩
          exact ⟨⟨a.next :: states, by
            simp only [Engine.fullBuild, ha, hb]⟩, hcache⟩
        · rintro fault b' ⟨hb, hcache⟩
          exact ⟨by simp only [Engine.fullBuild, ha, hb], hcache⟩
      · intro fault hf
        rw [hentering] at hf
        refine ⟨by simp only [Engine.fullBuild, hf], ?_⟩
        rw [Engine.builtUpTo, hf]
        exact (List.append_nil _).symm

/-- Building from nothing leaves what is built from nothing, whatever the
cache was. It fails if and only if the full build does, and then alike. -/
theorem ends_rebuild_anew :
    Ends (rebuild d e) b
      (fun _ b' => (∃ states, e.fullBuild .none d.lines = .ok states)
        ∧ b'.cache.entries = (e.builtUpTo .none d.lines).map some)
      (fun fault b' => e.fullBuild .none d.lines = .error fault
        ∧ b'.cache.entries = (e.builtUpTo .none d.lines).map some) := by
  refine .bind (.onCache (.bind ((ends_retokenizeAll_next (i := 0)
    rfl rfl (Nat.zero_add _)).mono ?_ fun _ _ h => h)))
  rintro _ b' ⟨hb, hcache⟩
  refine .bind (.onCache (.onTrace ⟨hb, ?_⟩))
  have hsize : b'.cache.size ≤ d.lineCount := by
    show b'.cache.entries.length ≤ d.lines.length
    rw [hcache]
    simpa [StateCache.empty] using Engine.length_builtUpTo_le
  rw [StateCache.take_of_size_le _ hsize]
  exact hcache

-- ========================================================== giving up

/-- What is left when a batch was given up because of a change that
failed: what is built from nothing. The change's own fault is passed on,
unless the engine failed again. -/
structure Recovered (d : Document) (e : Engine) (own fault : Fault)
    (b : Bench) : Prop where
  entries : b.cache.entries = (e.builtUpTo .none d.lines).map some
  own : ∀ states, e.fullBuild .none d.lines = .ok states → fault = own
  again : ∀ fault', e.fullBuild .none d.lines = .error fault' →
    fault = fault'

theorem ends_skip_strict {change : Change} {own : Fault} :
    Ends (skip d e true change own) b (fun _ _ => False)
      (Recovered d e own) := by
  unfold skip
  rw [if_pos rfl]
  refine .bind (.onTrace (.bind (ends_rebuild_anew.mono ?_ ?_)))
  · rintro _ b' ⟨⟨states, hb⟩, hcache⟩
    refine .throw ⟨hcache, fun _ _ => rfl, fun fault' hf => ?_⟩
    rw [hb] at hf
    cases hf
  · rintro fault b' ⟨hb, hcache⟩
    refine ⟨hcache, fun states hok => ?_, fun fault' hf => ?_⟩
    · rw [hb] at hok
      cases hok
    · exact Except.error.inj (hb.symm.trans hf)

-- =========================================================== outright

/-- Changes with their deltas, or the first that has none, with its
fault. -/
def deltas : List Change →
    Except (Change × Fault) (List (Change × Delta))
  | [] => .ok []
  | change :: rest =>
    match Delta.ofReplacement change.range change.text with
    | .error fault => .error (change, .edit fault)
    | .ok delta => (deltas rest).map ((change, delta) :: ·)

/-- The bench once the span of each change was tokenized again, or the
first change for which that fails, with its fault. -/
def spans (d : Document) (e : Engine) : List (Change × Delta) → Bench →
    Except (Change × Fault) Bench
  | [], b => .ok b
  | (change, delta) :: upper, b =>
    match (mendRange d e
        (settledRange delta (upper.map (·.2)))).on b with
    | (.error fault, _) => .error (change, fault)
    | (.ok _, b) => spans d e upper
      { b with trace := b.trace.recorded (·.changed false) }

/-- What mending after a batch comes to if nothing is done about a change
that fails: the bench that is left in the end, or the first change that
fails, with its own fault. -/
def outright (d : Document) (e : Engine) (changes : List Change)
    (b : Bench) : Except (Change × Fault) Bench :=
  match deltas (bottomUp changes) with
  | .error failure => .error failure
  | .ok pairs => spans d e pairs
    ⟨(realignedBy b.cache (pairs.map (·.2))).take d.lineCount, b.trace⟩

/-- Strict realigning goes as far as the changes have deltas. -/
theorem ends_realignAll_outright :
    Ends (realignAll d e true changes) b
      (fun pairs b' => deltas changes = .ok pairs
        ∧ b' = { b with cache := realignedBy b.cache (pairs.map (·.2)) })
      (fun fault b' => ∃ change own,
        deltas changes = .error (change, own)
          ∧ Recovered d e own fault b') := by
  induction changes generalizing b with
  | nil => exact .pure ⟨rfl, rfl⟩
  | cons change rest ih =>
      rw [realignAll, deltas]
      cases hdelta : Delta.ofReplacement change.range change.text with
      | error fault =>
          exact .bind (ends_skip_strict.mono (fun _ _ h => h.elim)
            fun _ _ h => ⟨change, _, rfl, h⟩)
      | ok delta =>
          refine .bind (.onCache (.bind (ih.mono ?_ ?_)))
          · rintro pairs b' ⟨hpairs, rfl⟩
            refine .pure ⟨?_, rfl⟩
            rw [hpairs]
            rfl
          · rintro fault b' ⟨bad, own, hbad, h⟩
            refine ⟨bad, own, ?_, h⟩
            rw [hbad]
            rfl

/-- Strict mending of spans goes as far as tokenizing them goes. -/
theorem ends_mendSpans_outright :
    Ends (mendSpans d e true pairs) b
      (fun _ b' => spans d e pairs b = .ok b')
      (fun fault b' => ∃ change own,
        spans d e pairs b = .error (change, own)
          ∧ Recovered d e own fault b') := by
  induction pairs generalizing b with
  | nil => exact .pure rfl
  | cons pair upper ih =>
      rw [mendSpans, spans]
      cases hrun : (mendRange d e
          (settledRange pair.2 (upper.map (·.2)))).on b with
      | mk result b' =>
          cases result with
          | error own =>
              refine .bind (.attempt (.of_error hrun (.bind
                (ends_skip_strict.mono (fun _ _ h => h.elim) ?_))))
              exact fun _ _ h => ⟨pair.1, own, rfl, h⟩
          | ok n =>
              exact .bind (.attempt (.of_ok hrun (.bind (.onTrace ih))))

/-- Strict mending after a batch comes to what the batch comes to
outright, if nothing fails then. Otherwise it gives up because of the
first change that fails. -/
theorem ends_mendBatch_outright :
    Ends (mendBatch d e true changes) b
      (fun _ b' => outright d e changes b = .ok b')
      (fun fault b' => ∃ change own,
        outright d e changes b = .error (change, own)
          ∧ Recovered d e own fault b') := by
  unfold mendBatch outright
  refine .bind (ends_realignAll_outright.mono ?_ ?_)
  · rintro pairs b₁ ⟨hpairs, rfl⟩
    rw [hpairs]
    exact .bind (.onCache ends_mendSpans_outright)
  · rintro fault b₁ ⟨change, own, hbad, h⟩
    rw [hbad]
    exact ⟨change, own, rfl, h⟩

-- ===================================================== their own faults

/-- The engine fails so on a line of the document. -/
def Stumbles (d : Document) (e : Engine) (fault : Fault) : Prop :=
  ∃ line ∈ d.lines, ∃ s, e line s = .error fault

theorem ends_retokenize_stumbles {i : Nat} (hi : i < d.lineCount) :
    Ends (retokenize d e i) b (fun _ _ => True)
      (fun fault _ => Stumbles d e fault) := by
  have hl : d.lines[i]? = some d.lines[i] := List.getElem?_eq_getElem hi
  exact ends_retokenize_of hl (fun _ _ => trivial)
    fun fault hf => ⟨_, List.mem_of_getElem? hl, _, hf⟩

theorem ends_retokenizeAll_stumbles {i count : Nat} {changed : Bool}
    (hi : i + count ≤ d.lineCount) :
    Ends (retokenizeAll d e i changed count) b (fun _ _ => True)
      (fun fault _ => Stumbles d e fault) := by
  induction count generalizing i b changed with
  | zero => exact .pure trivial
  | succ count ih =>
      exact .bind ((ends_retokenize_stumbles (by omega)).mono
        (fun _ _ _ => ih (i := i + 1) (by omega)) fun _ _ h => h)

theorem ends_cascade_stumbles {i left : Nat} {changed : Bool}
    (hi : i + left ≤ d.lineCount) :
    Ends (cascade d e i changed left) b (fun _ _ => True)
      (fun fault _ => Stumbles d e fault) := by
  induction left generalizing i b changed with
  | zero => exact .pure trivial
  | succ left ih =>
      unfold cascade
      split
      · refine .bind ((ends_retokenize_stumbles (by omega)).mono ?_
          fun _ _ h => h)
        exact fun _ _ _ => .bind ((ih (i := i + 1) (by omega)).mono
          (fun _ _ _ => .pure trivial) fun _ _ h => h)
      · exact .pure trivial

/-- Mending a range fails only as the engine does. -/
theorem ends_mendRange_stumbles {r : Range} :
    Ends (mendRange d e r) b (fun _ _ => True)
      (fun fault _ => Stumbles d e fault) := by
  obtain ⟨first, last, hfirst, hlast, hle, hlt⟩ :=
    exists_lines_clampRange d r
  exact ends_mendRange_of hfirst hlast hle hlt
    ((ends_retokenizeAll_stumbles (by omega)).mono (fun _ _ _ =>
      ends_cascade_stumbles (by omega)) fun _ _ h => h)

theorem deltas_eq_ok (h : deltas changes = .ok pairs) :
    pairs.map (·.1) = changes
      ∧ ∀ change ∈ changes, change.range.IsValid := by
  induction changes generalizing pairs with
  | nil =>
      cases h
      exact ⟨rfl, fun _ hc => absurd hc List.not_mem_nil⟩
  | cons change rest ih =>
      rw [deltas] at h
      by_cases hvalid : change.range.IsValid
      · obtain ⟨delta, hdelta, -⟩ :=
          Delta.exists_ofReplacement hvalid change.text
        rw [hdelta] at h
        cases hrest : deltas rest with
        | error failure =>
            rw [hrest] at h
            cases h
        | ok others =>
            rw [hrest] at h
            cases h
            obtain ⟨hmap, hall⟩ := ih hrest
            exact ⟨congrArg _ hmap, List.forall_mem_cons.2 ⟨hvalid, hall⟩⟩
      · rw [ofReplacement_of_not_isValid hvalid] at h
        cases h

theorem deltas_eq_error {change : Change} {own : Fault}
    (h : deltas changes = .error (change, own)) :
    change ∈ changes ∧ ¬change.range.IsValid ∧ own = refusal change := by
  induction changes with
  | nil => cases h
  | cons first rest ih =>
      rw [deltas] at h
      by_cases hvalid : first.range.IsValid
      · obtain ⟨delta, hdelta, -⟩ :=
          Delta.exists_ofReplacement hvalid first.text
        rw [hdelta] at h
        cases hrest : deltas rest with
        | error failure =>
            rw [hrest] at h
            cases h
            obtain ⟨hmem, hbad⟩ := ih hrest
            exact ⟨List.mem_cons_of_mem _ hmem, hbad⟩
        | ok others =>
            rw [hrest] at h
            cases h
      · rw [ofReplacement_of_not_isValid hvalid] at h
        cases h
        exact ⟨List.mem_cons_self, hvalid, rfl⟩

theorem spans_eq_error {change : Change} {own : Fault}
    (h : spans d e pairs b = .error (change, own)) :
    change ∈ pairs.map (·.1) ∧ Stumbles d e own := by
  induction pairs generalizing b with
  | nil => cases h
  | cons pair upper ih =>
      rw [spans] at h
      have hrange := ends_mendRange_stumbles (d := d) (e := e) (b := b)
        (r := settledRange pair.2 (upper.map (·.2)))
      rcases hrange.elim with ⟨n, b', hrun, -⟩ | ⟨fault, b', hrun, hf⟩
      · rw [show (mendRange d e _).on b = _ from hrun] at h
        obtain ⟨hmem, hown⟩ := ih h
        exact ⟨List.mem_cons_of_mem _ hmem, hown⟩
      · rw [show (mendRange d e _).on b = _ from hrun] at h
        cases h
        exact ⟨List.mem_cons_self, hf⟩

/-- A change fails because it is malformed, or, if none of the batch is,
because the engine fails on a line. -/
theorem outright_eq_error {change : Change} {own : Fault}
    (h : outright d e changes b = .error (change, own)) :
    change ∈ changes
      ∧ (¬change.range.IsValid ∧ own = refusal change
        ∨ (∀ change ∈ changes, change.range.IsValid)
          ∧ Stumbles d e own) := by
  have hmem : ∀ change, change ∈ bottomUp changes ↔ change ∈ changes :=
    fun _ => (bottomUp_perm changes).mem_iff
  unfold outright at h
  cases hdeltas : deltas (bottomUp changes) with
  | error failure =>
      rw [hdeltas] at h
      cases h
      obtain ⟨hc, hbad⟩ := deltas_eq_error hdeltas
      exact ⟨(hmem _).1 hc, .inl hbad⟩
  | ok pairs =>
      rw [hdeltas] at h
      obtain ⟨hpairs, hvalid⟩ := deltas_eq_ok hdeltas
      obtain ⟨hc, hown⟩ := spans_eq_error h
      rw [hpairs] at hc
      exact ⟨(hmem _).1 hc, .inr ⟨fun c hc => hvalid c ((hmem c).2 hc),
        hown⟩⟩

end Reparse

namespace Workspace

open Reparse

-- ========================================================= the theorem

/-- In strict mode, a controller mends its cache after any changes, well
formed or not, whatever the cache holds and whatever the document. Either
it returns, and no change has failed; or one has, and then the cache is
what is built from nothing for the document as it stands. That is the
full build, cut at the first line on which the engine fails. The fault
passed on is the change's own, or that of the full build, if it
fails. -/
theorem strict_leaves_canonical {ws : Workspace} {controller : Nat}
    {k : Controller} {d : Document} {t : Engine.Tokenizer}
    (hseat : ws.seat? controller = some (k, d))
    (ht : k.tokenizer = some t)
    (hstrict : ws.config.active.isStrict = true)
    (changes : List Change) :
    (∃ b, outright d t.engine changes ⟨k.cache, ws.trace⟩ = .ok b
        ∧ (mendBatch controller changes).on ws
          = (.ok (), ws.leave controller b))
      ∨ ∃ change own fault ws',
        outright d t.engine changes ⟨k.cache, ws.trace⟩
            = .error (change, own)
          ∧ change ∈ changes
          ∧ (¬change.range.IsValid ∧ own = refusal change
            ∨ (∀ change ∈ changes, change.range.IsValid)
              ∧ Stumbles d t.engine own)
          ∧ (mendBatch controller changes).on ws = (.error fault, ws')
          ∧ ws'.seat? controller = some ({ k with
              cache := ⟨(t.engine.builtUpTo .none d.lines).map some⟩ }, d)
          ∧ (∀ states, t.engine.fullBuild .none d.lines = .ok states →
            fault = own)
          ∧ (∀ fault', t.engine.fullBuild .none d.lines = .error fault' →
            fault = fault')
          ∧ t.engine.CutShort .none d.lines
            (t.engine.builtUpTo .none d.lines) := by
  have hends : Ends (Reparse.mendBatch d t.engine true changes)
    ⟨k.cache, ws.trace⟩ _ _ := ends_mendBatch_outright
  rw [mendBatch_on, whenReady_of_ready hseat ht, hstrict]
  -- nothing failed, or the first that did decides
  rcases hends.elim with
    ⟨_, b, hrun, hok⟩ | ⟨fault, b, hrun, change, own, hbad, h⟩
  · refine .inl ⟨b, hok, ?_⟩
    rw [show (Reparse.mendBatch d t.engine true changes).on _ = _
      from hrun]
  · obtain ⟨hmem, hown⟩ := outright_eq_error hbad
    refine .inr ⟨change, own, fault, ws.leave controller b, hbad, hmem,
      hown, ?_, ?_, h.own, h.again, t.engine.builtUpTo_cut ..⟩
    · rw [show (Reparse.mendBatch d t.engine true changes).on _ = _
        from hrun]
    · rw [seat?_leave hseat, ← h.entries]

/-- A controller in strict mode that keeps the states of other lines than
its document has. -/
def misled (text : String) : Workspace :=
  { empty with
    buffers := [⟨.new "untitled:document" "plaintext" text.toList, []⟩]
    controllers := [⟨0, some choosy,
      ⟨[some (.number 1), some (.number 1)]⟩, none, false⟩]
    config := ⟨{ strictEdits := .flag true }, []⟩ }

/-- The lower of two changes fails in the state that is kept of the line
above it, and the full build goes through; a malformed change fails, and
the full build fails on the second line. -/
theorem strict_leaves_canonical_misled :
    (∃ ws', (mendBatch 0 [⟨⟨⟨1, 0⟩, ⟨1, 1⟩⟩, "c".toList⟩,
          ⟨⟨⟨0, 0⟩, ⟨0, 1⟩⟩, "z".toList⟩]).on (misled "z\nc")
        = (.error (.failed "not there"), ws')
      ∧ (ws'.seat? 0).map (·.1.cache.entries)
        = some [some (.number 2), some (.number 2)])
    ∧ ∃ ws', (mendBatch 0 [⟨⟨⟨1, 0⟩, ⟨0, 0⟩⟩, []⟩]).on (misled "a\nc")
        = (.error (.failed "not there"), ws')
      ∧ (ws'.seat? 0).map (·.1.cache.entries) = some [some (.number 1)] := by
  have hseat : ∀ text, (misled text).seat? 0 = some (⟨0, some choosy,
        ⟨[some (.number 1), some (.number 1)]⟩, none, false⟩,
      .new "untitled:document" "plaintext" text.toList) := fun _ => rfl
  constructor
  · have hfails : outright (.new "untitled:document" "plaintext"
          "z\nc".toList) choosy.engine [⟨⟨⟨1, 0⟩, ⟨1, 1⟩⟩, "c".toList⟩,
            ⟨⟨⟨0, 0⟩, ⟨0, 1⟩⟩, "z".toList⟩]
          ⟨⟨[some (.number 1), some (.number 1)]⟩, (misled "z\nc").trace⟩
        = .error (⟨⟨⟨1, 0⟩, ⟨1, 1⟩⟩, "c".toList⟩,
          .failed "not there") := by cbv
    have hbuild : choosy.engine.fullBuild .none
        (Document.new "untitled:document" "plaintext" "z\nc".toList).lines
        = .ok [.number 2, .number 2] := by cbv
    rcases strict_leaves_canonical (hseat "z\nc") rfl rfl _ with
      ⟨b, hok, -⟩ | ⟨change, own, fault, ws', hbad, -, -, hrun, hleft,
        hown, -⟩
    · cases hfails.symm.trans hok
    · cases hfails.symm.trans hbad
      -- the full build goes through, so the fault is the change's own
      rw [hown _ hbuild] at hrun
      rw [Engine.builtUpTo_of_fullBuild hbuild] at hleft
      exact ⟨ws', hrun, by rw [hleft]; rfl⟩
  · have hfails : outright (.new "untitled:document" "plaintext"
          "a\nc".toList) choosy.engine [⟨⟨⟨1, 0⟩, ⟨0, 0⟩⟩, []⟩]
          ⟨⟨[some (.number 1), some (.number 1)]⟩, (misled "a\nc").trace⟩
        = .error (⟨⟨⟨1, 0⟩, ⟨0, 0⟩⟩, []⟩,
          refusal ⟨⟨⟨1, 0⟩, ⟨0, 0⟩⟩, []⟩) := by cbv
    have hbuild : choosy.engine.fullBuild .none
        (Document.new "untitled:document" "plaintext" "a\nc".toList).lines
        = .error (.failed "not there") := by cbv
    have hpart : choosy.engine.builtUpTo .none
        (Document.new "untitled:document" "plaintext" "a\nc".toList).lines
        = [.number 1] := by cbv
    rcases strict_leaves_canonical (hseat "a\nc") rfl rfl _ with
      ⟨b, hok, -⟩ | ⟨change, own, fault, ws', hbad, -, -, hrun, hleft,
        -, hagain, -⟩
    · cases hfails.symm.trans hok
    · -- the full build fails, so the fault is the engine's
      rw [hagain _ hbuild] at hrun
      rw [hpart] at hleft
      exact ⟨ws', hrun, by rw [hleft]; rfl⟩

end Workspace

end Relex
