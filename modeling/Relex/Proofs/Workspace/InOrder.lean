/-
In which order batches are heard of.

A listener that is listed once hears of every batch its document takes
exactly once, if nobody fails; in the order in which the document takes
them, if nobody in front of it edits or fails. A controller that stands
so, with an engine that never fails, holds the full build of its
document after the edits (`hears_in_order`).

Order is lost behind a listener that edits: the batch it applies is
delivered to all before the batch it was called with goes on. A
controller there splices its cache for a document that its cache has not
caught up with, and holds states that no later edit need mend
(`overtaken`).
-/
import Relex.Proofs.Workspace.Informed
import Relex.Proofs.Workspace.Sightings

namespace Relex.Workspace

variable {ws : Workspace} {c b : Nat} {k : Controller} {d : Document}
  {t : Engine.Tokenizer} {states : List TokenState}

/-- A controller that holds the full build owes nothing. -/
theorem HoldsBuild.informed (h : HoldsBuild ws c d t states)
    (hb : t.engine.fullBuild .none d.lines = .ok states)
    (hk : ws.controllers[c]? = some k) (hlive : k.disposed = false) :
    Informed ws c k.buffer (some t) none k d := by
  obtain ⟨k', hseat, ht, -, hentries⟩ := h
  obtain ⟨hk', hd⟩ := seat?_eq_some.1 hseat
  obtain rfl := Option.some.inj (hk.symm.trans hk')
  refine ⟨hk, rfl, hlive, ht, hd, ?_⟩
  intro u hu
  obtain rfl := Option.some.inj (ht.symm.trans hu)
  exact StateCache.soundBut_of_fullBuild hb hentries

theorem Informed.holdsBuild (h : Informed ws c b (some t) none k d)
    (hb : t.engine.fullBuild .none d.lines = .ok states) :
    HoldsBuild ws c d t states :=
  KeepsUp.holdsBuild h.keepsUp h.seat? h.tokenizer hb

/-- Over a run of edits, nested edits included: a document goes through
the batches it takes, and a listener that is listed once hears of each of
them once, if nobody fails, and of all of them in order, if nobody in
front of it edits or fails. What a watcher hears it notes; a controller
that hears so keeps the full build. -/
theorem hears_in_order (edits : List (Nat × List Change))
    {l : Listener} (hd : ws.document? b = some d)
    (hl : ListedOnce l b (history edits ws)) :
    ∃ d', (editAll edits ws).document? b = some d'
      ∧ Replays d (accepted b (history edits ws)) d'
      ∧ (Smooth (history edits ws) → (heard l b (history edits ws)).Perm
          (accepted b (history edits ws)))
      ∧ (∀ w, l = .watcher w → (ws.watchers[w]?).isSome →
          noticed w b (editAll edits ws)
            = noticed w b ws ++ heard l b (history edits ws))
      ∧ (Unhindered l b ws.plans (history edits ws) →
          heard l b (history edits ws) = accepted b (history edits ws)
            ∧ ∀ c k t states, l = .controller c →
              ws.controllers[c]? = some k → k.buffer = b →
              k.disposed = false → t.engine.Total →
              t.engine.fullBuild .none d.lines = .ok states →
              HoldsBuild ws c d t states →
              ∃ states', t.engine.fullBuild .none d'.lines = .ok states'
                ∧ HoldsBuild (editAll edits ws) c d' t states') := by
  have hrun := edits_history edits ws
  obtain ⟨d', hd', hreplays⟩ := hrun.replays hd
  refine ⟨d', hd', hreplays, hrun.heard_perm hl, ?_, ?_⟩
  · rintro w rfl hw
    exact hrun.noticed hw (by rw [hd]; rfl)
  · intro hu
    have hprompt := hrun.prompt hl hu
    refine ⟨hprompt.heard, ?_⟩
    rintro c k t states rfl hk rfl hlive htotal hb hbuild
    -- the controller was called with what the document took, in order
    obtain ⟨k', d'', hi⟩ :=
      hrun.informed hprompt (hbuild.informed hb hk hlive)
    obtain rfl := Option.some.inj (hd'.symm.trans hi.document)
    obtain ⟨states', hb'⟩ := htotal.exists_fullBuild .none d'.lines
    exact ⟨states', hb', hi.holdsBuild hb'⟩

-- ============================================================ a crowd

/-- A line is put in at the top. -/
def above : List Change := [⟨⟨⟨0, 0⟩, ⟨0, 0⟩⟩, "a\n".toList⟩]

/-- The third line is taken out. -/
def below : List Change := [⟨⟨⟨2, 0⟩, ⟨3, 0⟩⟩, []⟩]

/-- A document that is watched twice, and in front of that or behind it a
controller. The first watcher takes out a line when it is called. -/
def crowded (inFront : Bool) : Workspace :=
  let attached := fun ws : Workspace =>
    ((attach 0 (some ⟨0, .depth⟩) true).on ws).2
  let watched := fun ws : Workspace =>
    ((ws.subscribe 0 (.watcher 0)).2.subscribe 0 (.watcher 1)).2
  let ws := (empty.addBuffer
    (.new "untitled:document" "plaintext" "\x7b\n\x7d\nb".toList)).2
  let ws := (ws.addWatcher ⟨"eager", []⟩).2
  let ws := (ws.addWatcher ⟨"patient", []⟩).2
  let ws := { ws with plans := [⟨0, 0, below⟩] }
  if inFront then watched (attached ws) else attached (watched ws)

/-- The crowd's document: as it is at first, and after both batches. -/
def short : Document :=
  .new "untitled:document" "plaintext" "\x7b\n\x7d\nb".toList

def changed : Document :=
  ⟨"untitled:document", "plaintext", 2, .ofText "a\n\x7b\nb".toList⟩

theorem history_crowded (inFront : Bool) :
    history [(0, above)] (crowded inFront)
      = (match inFront with
        | true => [.applied 0 above [.controller 0, .watcher 0, .watcher 1],
          .called ⟨.controller 0, 0, above⟩,
          .called ⟨.watcher 0, 0, above⟩,
          .applied 0 below [.controller 0, .watcher 0, .watcher 1],
          .called ⟨.controller 0, 0, below⟩,
          .called ⟨.watcher 0, 0, below⟩, .called ⟨.watcher 1, 0, below⟩,
          .called ⟨.watcher 1, 0, above⟩]
        | false => [
          .applied 0 above [.watcher 0, .watcher 1, .controller 0],
          .called ⟨.watcher 0, 0, above⟩,
          .applied 0 below [.watcher 0, .watcher 1, .controller 0],
          .called ⟨.watcher 0, 0, below⟩, .called ⟨.watcher 1, 0, below⟩,
          .called ⟨.controller 0, 0, below⟩,
          .called ⟨.watcher 1, 0, above⟩,
          .called ⟨.controller 0, 0, above⟩]) := by
  cases inFront <;> cbv

theorem smooth_crowded (inFront : Bool) :
    Smooth (history [(0, above)] (crowded inFront)) := by
  rw [history_crowded]
  cases inFront <;> simp [Smooth]

theorem listedOnce_crowded (inFront : Bool) {l : Listener}
    (hl : l ∈ [Listener.controller 0, .watcher 0, .watcher 1]) :
    ListedOnce l 0 (history [(0, above)] (crowded inFront)) := by
  have hcount : [Listener.controller 0, .watcher 0, .watcher 1].count l = 1
      ∧ [Listener.watcher 0, .watcher 1, .controller 0].count l = 1 := by
    simp only [List.mem_cons, List.not_mem_nil, or_false] at hl
    rcases hl with rfl | rfl | rfl <;> decide
  rw [history_crowded]
  intro changes listeners hmem
  cases inFront with
  | true =>
      simp only [List.mem_cons, Happening.applied.injEq, reduceCtorEq,
        List.not_mem_nil, true_and, false_or, or_false] at hmem
      rcases hmem with ⟨-, rfl⟩ | ⟨-, rfl⟩ <;> exact hcount.1
  | false =>
      simp only [List.mem_cons, Happening.applied.injEq, reduceCtorEq,
        List.not_mem_nil, true_and, false_or, or_false] at hmem
      rcases hmem with ⟨-, rfl⟩ | ⟨-, rfl⟩ <;> exact hcount.2

theorem document?_crowded (inFront : Bool) :
    (crowded inFront).document? 0 = some short := by
  cases inFront <;> cbv

theorem holdsBuild_crowded (inFront : Bool) :
    HoldsBuild (crowded inFront) 0 short ⟨0, .depth⟩
      [.number 1, .number 0, .number 0] := by
  have hseat : (crowded inFront).seat? 0
      = some (⟨0, some ⟨0, .depth⟩,
          ⟨[some (.number 1), some (.number 0), some (.number 0)]⟩,
          some (if inFront then 0 else 2), false⟩, short) := by
    cases inFront <;> cbv
  exact ⟨_, hseat, rfl, by cbv, rfl⟩

/-- In front of the watcher that edits, the controller hears of both
batches in order and holds the full build. Behind it, the other watcher
hears of both. -/
theorem hears_in_order_crowded :
    heard (.controller 0) 0 (history [(0, above)] (crowded true))
        = [above, below]
      ∧ HoldsBuild (editAll [(0, above)] (crowded true)) 0 changed
        ⟨0, .depth⟩ [.number 0, .number 1, .number 1]
      ∧ (noticed 1 0 (editAll [(0, above)] (crowded true))).Perm
        [above, below] := by
  have hlisted := fun l hl => listedOnce_crowded true (l := l) hl
  -- nobody is in front of the controller
  have hfirst : Unhindered (.controller 0) 0 (crowded true).plans
      (history [(0, above)] (crowded true)) := by
    refine unhindered_of_head? (hlisted _ (by simp)) ?_
    intro changes listeners hmem
    rw [history_crowded] at hmem
    simp only [List.mem_cons, Happening.applied.injEq, reduceCtorEq,
      List.not_mem_nil, true_and, false_or, or_false] at hmem
    rcases hmem with ⟨-, rfl⟩ | ⟨-, rfl⟩ <;> rfl
  have htaken : accepted 0 (history [(0, above)] (crowded true))
      = [above, below] := by
    rw [history_crowded]
    rfl
  have hchanged : (editAll [(0, above)] (crowded true)).document? 0
      = some changed := by cbv
  have hnoticed : noticed 1 0 (crowded true) = [] := by cbv
  obtain ⟨d', hd', -, -, -, hinOrder⟩ := hears_in_order [(0, above)]
    (document?_crowded true) (hlisted (.controller 0) (by simp))
  obtain ⟨-, -, -, honce, hnotes, -⟩ := hears_in_order [(0, above)]
    (document?_crowded true) (hlisted (.watcher 1) (by simp))
  obtain rfl := Option.some.inj (hchanged.symm.trans hd')
  obtain ⟨hheard, hholds⟩ := hinOrder hfirst
  obtain ⟨states, hb, hbuild⟩ := hholds 0 _ ⟨0, .depth⟩ _ rfl
    (by cbv) rfl rfl Engine.total_depth (by cbv)
    (holdsBuild_crowded true)
  have hstates : Engine.depth.fullBuild .none changed.lines
      = .ok [.number 0, .number 1, .number 1] := by cbv
  obtain rfl := Except.ok.inj (hstates.symm.trans hb)
  refine ⟨hheard.trans htaken, hbuild, ?_⟩
  rw [hnotes 1 rfl (by cbv), hnoticed, ← htaken]
  exact honce (smooth_crowded true)

/-- Behind the watcher that edits, both the other watcher and the
controller hear of the later batch first, and the controller is left with
states that are not those of the document. -/
theorem overtaken :
    Smooth (history [(0, above)] (crowded false))
      ∧ (∀ l ∈ [Listener.controller 0, .watcher 0, .watcher 1],
        ListedOnce l 0 (history [(0, above)] (crowded false)))
      ∧ accepted 0 (history [(0, above)] (crowded false))
        = [above, below]
      ∧ noticed 1 0 (editAll [(0, above)] (crowded false))
        = [below, above]
      ∧ heard (.controller 0) 0 (history [(0, above)] (crowded false))
        = [below, above]
      ∧ HoldsBuild (crowded false) 0 short ⟨0, .depth⟩
        [.number 1, .number 0, .number 0]
      ∧ ¬∃ d states, Engine.depth.fullBuild .none d.lines = .ok states
        ∧ HoldsBuild (editAll [(0, above)] (crowded false)) 0 d
          ⟨0, .depth⟩ states := by
  have hseat : (editAll [(0, above)] (crowded false)).seat? 0
      = some (⟨0, some ⟨0, .depth⟩,
          ⟨[some (.number 0), some (.number 1), some (.number 0)]⟩,
          some 2, false⟩, changed) := by cbv
  have hstates : Engine.depth.fullBuild .none changed.lines
      = .ok [.number 0, .number 1, .number 1] := by cbv
  refine ⟨smooth_crowded false, fun l hl => listedOnce_crowded false hl,
    by rw [history_crowded]; rfl, by cbv, by rw [history_crowded]; rfl,
    holdsBuild_crowded false, ?_⟩
  rintro ⟨d, states, hb, k, hseat', -, -, hentries⟩
  -- the two differ in the entry of the last line
  cases hseat.symm.trans hseat'
  cases hstates.symm.trans hb
  cases hentries

end Relex.Workspace
