/-
Profiling adds up.

What a host does to documents and controllers makes controllers tokenize
in passes. Which passes these are is said along with what is done:
`callPasses` for a call, `tellings` for the calls of a round, nested
rounds included, `Deed.passes` for a deed, and `passes` for a run.

What one deed adds to the trace is what its passes cost
(`accrued_after`), so what a run adds is what all its passes cost
(`accrued_afterDeeds`). If no engine fails, that is one line for each
call, one cascaded line for each call past the end of a range, and one
build for each pass over a whole document.
-/
import Mathlib
import Relex.Proofs.Passes
import Relex.Proofs.Workspace.Deeds

namespace Relex.Workspace

open Reparse

-- ================================================================= passes

/-- The passes of work for a controller. Without a tokenizer there are
none. -/
def readyPasses (ws : Workspace) (controller : Nat)
    (f : Document → Engine → StateCache → List Pass) : List Pass :=
  match ws.seat? controller with
  | none => []
  | some (k, d) =>
    match k.engine? with
    | none => []
    | some e => f d e k.cache

/-- The passes of building a controller's cache. -/
def buildPasses (ws : Workspace) (controller : Nat) : List Pass :=
  ws.readyPasses controller fun d e c => [⟨d, e, none, c⟩]

/-- The passes of building it anew. -/
def rebuildPasses (ws : Workspace) (controller : Nat) : List Pass :=
  (ws.modifyController controller fun k =>
    { k with cache := .empty }).buildPasses controller

/-- The passes of mending it after a batch. -/
def mendPasses (ws : Workspace) (controller : Nat)
    (changes : List Change) : List Pass :=
  ws.readyPasses controller fun d e c =>
    batchPasses d e ws.config.active.isStrict changes c

/-- The passes of a call. -/
def callPasses (ws : Workspace) (d : Delivery) : List Pass :=
  match d.listener with
  | .watcher _ => []
  | .controller id =>
    match ws.controllers[id]? with
    | none => []
    | some k =>
      if k.disposed ∨ k.buffer ≠ d.buffer then []
      else ws.mendPasses id d.changes

/-- The deliveries that are made in a round, each with the workspace in
which it is made. -/
def tellings (plans : List Plan) :
    List Delivery → Workspace → List (Delivery × Workspace)
  | [], _ => []
  | d :: rest, ws =>
    match (deliver d).on ws with
    | (.error _, _) => [(d, ws)]
    | (.ok (), ws') =>
      match _h : d.plan? plans with
      | none => (d, ws) :: tellings plans rest ws'
      | some (plan, left) =>
        match ws'.applyBatch plan.buffer plan.changes with
        | .error _ => [(d, ws)]
        | .ok (_, nested, ws') =>
          (d, ws) :: tellings left (nested ++ rest) ws'
termination_by agenda => (plans.length, agenda.length)
decreasing_by
  · exact .right _ (Nat.lt_succ_self _)
  · refine .left _ _ ?_
    obtain ⟨listener, buffer, changes⟩ := d
    cases listener with
    | controller id => cases _h
    | watcher id =>
        have := Plan.length_of_take? _h
        omega

/-- The passes of a round. -/
def roundPasses (plans : List Plan) (agenda : List Delivery)
    (ws : Workspace) : List Pass :=
  (tellings plans agenda ws).flatMap fun (d, ws) => ws.callPasses d

/-- The passes of a deed. -/
def Deed.passes (ws : Workspace) : Deed → List Pass
  | attach buffer t listens =>
    (ws.withNew buffer t listens).buildPasses ws.controllers.length
  | build i => ws.buildPasses i
  | rebuild i => ws.rebuildPasses i
  | equip i t =>
    match ws.controllers[i]? with
    | none => []
    | some k =>
      if k.disposed then []
      else (ws.modifyController i fun k =>
        { k with tokenizer := t }).rebuildPasses i
  | mendRange i range =>
    ws.readyPasses i fun d e c => [⟨d, e, some range, c⟩]
  | mendBatch i changes => ws.mendPasses i changes
  | edit buffer changes =>
    match ws.applyBatch buffer changes with
    | .error _ => []
    | .ok (_, deliveries, ws') => roundPasses ws'.plans deliveries ws'
  | tell agenda => roundPasses ws.plans agenda ws
  | _ => []

/-- The deed does not change which counters are active, and asks no engine
but in order to store what it answers for a document or a range. -/
def Deed.IsProfiled : Deed → Prop
  | retokenize _ _ | lookup _ _ | lookupLine _ _ | count _ => False
  | _ => True

/-- The passes of a run. -/
def passes : List Deed → Workspace → List Pass
  | [], _ => []
  | deed :: deeds, ws => deed.passes ws ++ passes deeds (deed.after ws)

-- =============================================================== accruing

/-- From one workspace to the other the trace has grown by what the passes
cost. -/
def Accrued (passes : List Pass) (ws ws' : Workspace) : Prop :=
  ∃ x, ws'.trace = ws.trace.plus x ∧ Costs passes x

variable {ws ws' ws'' : Workspace} {i : Nat}

theorem Accrued.of_trace (h : ws'.trace = ws.trace) : Accrued [] ws ws' :=
  ⟨.nothing, h.trans ws.trace.plus_nothing.symm, .nothing rfl rfl⟩

theorem Accrued.trans {ps ps' : List Pass} (h : Accrued ps ws ws')
    (h' : Accrued ps' ws' ws'') : Accrued (ps ++ ps') ws ws'' := by
  obtain ⟨x, hx, hcosts⟩ := h
  obtain ⟨y, hy, hcosts'⟩ := h'
  exact ⟨x.plus y, by rw [hy, hx, Trace.plus_plus], hcosts.plus hcosts'⟩

theorem Accrued.congr {ps : List Pass} {v v' : Workspace}
    (h : Accrued ps ws ws') (hv : v.trace = ws.trace)
    (hv' : v'.trace = ws'.trace) : Accrued ps v v' := by
  unfold Accrued
  rw [hv, hv']
  exact h

-- ============================================================ controllers

/-- Work for a controller costs what its work on a cache costs. -/
theorem accrued_whenReady {α : Type} {answer : α}
    {work : Document → Engine → Work α}
    {f : Document → Engine → StateCache → List Pass}
    (hwork : ∀ d e c, ∃ o, (work d e).ComesTo c o ∧ Costs (f d e c) o.tally) :
    Accrued (ws.readyPasses i f) ws ((whenReady i answer work).on ws).2 := by
  unfold readyPasses Controller.engine?
  cases hseat : ws.seat? i with
  | none =>
      rw [whenReady_of_no_seat hseat]
      exact .of_trace rfl
  | some seat =>
      obtain ⟨k, d⟩ := seat
      dsimp only
      cases ht : k.tokenizer with
      | none =>
          rw [whenReady_of_inert hseat ht]
          exact .of_trace rfl
      | some t =>
          obtain ⟨o, hon, hcosts⟩ := hwork d t.engine k.cache
          rw [whenReady_of_ready hseat ht, hon]
          exact ⟨o.tally, rfl, hcosts⟩

theorem accrued_build (ws : Workspace) (i : Nat) :
    Accrued (ws.buildPasses i) ws ((build i).on ws).2 :=
  accrued_whenReady fun d e c =>
    ⟨_, Pass.comesTo_work ⟨d, e, none, c⟩, .single _⟩

theorem accrued_rebuild (ws : Workspace) (i : Nat) :
    Accrued (ws.rebuildPasses i) ws ((rebuild i).on ws).2 := by
  unfold rebuild
  rw [Act.on_bind, Act.on_modify]
  exact (accrued_build _ i).congr rfl rfl

theorem accrued_mendRange (ws : Workspace) (i : Nat) (range : Range) :
    Accrued (ws.readyPasses i fun d e c => [⟨d, e, some range, c⟩]) ws
      ((mendRange i range).on ws).2 := by
  refine accrued_whenReady fun d e c => ?_
  obtain ⟨o, hon, hyield⟩ := Pass.comesTo_mendRange d e range c
  have hcosts := Costs.single ⟨d, e, some range, c⟩
  rw [hyield] at hcosts
  exact ⟨o, hon, hcosts⟩

theorem accrued_mendBatch (ws : Workspace) (i : Nat)
    (changes : List Change) :
    Accrued (ws.mendPasses i changes) ws
      ((mendBatch i changes).on ws).2 := by
  unfold mendBatch
  rw [Act.on_bind, Act.on_get]
  refine accrued_whenReady fun d e c => ?_
  obtain ⟨answer, c', x, hon, hcosts, -⟩ := comesTo_mendBatch (d := d)
    (e := e) ws.config.active.isStrict changes c
  exact ⟨_, hon, hcosts⟩

-- ================================================================= rounds

theorem trace_unsubscribe (ws : Workspace) (r : Nat) :
    (ws.unsubscribe r).trace = ws.trace := by
  unfold unsubscribe
  split
  · rfl
  · split <;> rfl

/-- Calling a watcher costs nothing, calling a controller what mending
does. -/
theorem accrued_deliver (ws : Workspace) (d : Delivery) :
    Accrued (ws.callPasses d) ws ((deliver d).on ws).2 := by
  obtain ⟨listener, buffer, changes⟩ := d
  cases listener with
  | watcher w =>
      refine .of_trace (deliver_keeps (P := fun ws' => ws'.trace = ws.trace)
        (d := ⟨.watcher w, buffer, changes⟩) (fun _ _ _ _ h => h) ?_
        (fun _ _ _ h => h) (fun _ _ _ _ _ h => by cases h) ws rfl)
      exact fun ws' r h => (trace_unsubscribe ws' r).trans h
  | controller c =>
      unfold callPasses deliver callController
      dsimp only
      rw [Act.on_bind, Act.on_get]
      dsimp only
      cases ws.controllers[c]? with
      | none => exact .of_trace rfl
      | some k =>
          dsimp only
          split
          · exact .of_trace rfl
          · exact accrued_mendBatch ws c changes

theorem trace_applyBatch {buffer : Nat} {changes applied : List Change}
    {nested : List Delivery}
    (happly : ws.applyBatch buffer changes = .ok (applied, nested, ws')) :
    ws'.trace = ws.trace := by
  have hbatch := batch_taking happly
  generalize ws.taking buffer applied = taking at hbatch
  cases hbatch <;> rfl

/-- A round costs what its calls cost. -/
theorem accrued_deliverAll (plans : List Plan) (agenda : List Delivery)
    (ws : Workspace) :
    Accrued (roundPasses plans agenda ws) ws
      (deliverAll plans agenda ws).2 := by
  unfold roundPasses
  have hcall : ∀ {d : Delivery} {ws ws' : Workspace}
      {result : Except Fault Unit}, (deliver d).on ws = (result, ws') →
      Accrued (ws.callPasses d) ws ws' := by
    intro d ws ws' result hon
    have h := accrued_deliver ws d
    rw [hon] at h
    exact h
  -- a nested round makes its calls before the rest is called
  induction plans, agenda, ws using deliverAll.induct with
  | case1 plans ws =>
      rw [deliverAll, tellings]
      exact .of_trace rfl
  | case2 plans d rest ws fault ws' hon =>
      rw [deliverAll_of_error rest hon, tellings, hon]
      dsimp only
      rw [List.flatMap_singleton]
      exact (hcall hon).congr rfl rfl
  | case3 plans d rest ws ws' hon hplan ih =>
      rw [deliverAll_of_none rest hon hplan, tellings, hon]
      dsimp only
      split
      · rw [List.flatMap_cons]
        exact (hcall hon).trans ih
      · next h => cases hplan.symm.trans h
  | case4 plans d rest ws ws' hon plan left hplan e happly =>
      rw [deliverAll_of_some rest hon hplan, tellings, hon, happly]
      dsimp only
      split
      · next h => cases hplan.symm.trans h
      · next h =>
        cases hplan.symm.trans h
        rw [happly]
        dsimp only
        rw [List.flatMap_singleton]
        exact (hcall hon).congr rfl rfl
  | case5 plans d rest ws ws' hon plan left hplan applied nested ws''
      happly ih =>
      rw [deliverAll_of_some rest hon hplan, tellings, hon, happly]
      dsimp only
      split
      · next h => cases hplan.symm.trans h
      · next h =>
        cases hplan.symm.trans h
        rw [happly]
        dsimp only
        rw [List.flatMap_cons]
        exact (hcall hon).trans
          (ih.congr (trace_applyBatch happly).symm rfl)

-- ================================================================== deeds

theorem accrued_edit (ws : Workspace) (buffer : Nat)
    (changes : List Change) :
    Accrued ((Deed.edit buffer changes).passes ws) ws
      ((edit buffer changes).on ws).2 := by
  rw [edit_on, Deed.passes]
  cases happly : ws.applyBatch buffer changes with
  | error e => exact .of_trace rfl
  | ok taken =>
      exact (accrued_deliverAll _ _ _).congr
        (trace_applyBatch happly).symm rfl

theorem accrued_equip (ws : Workspace) (i : Nat)
    (t : Option Engine.Tokenizer) :
    Accrued ((Deed.equip i t).passes ws) ws ((equip i t).on ws).2 := by
  unfold Deed.passes equip
  rw [Act.on_bind, Act.on_get]
  dsimp only
  cases ws.controllers[i]? with
  | none => exact .of_trace rfl
  | some k =>
      dsimp only
      split
      · exact .of_trace rfl
      · rw [Act.on_bind, Act.on_modify]
        exact (accrued_rebuild _ i).congr rfl rfl

theorem accrued_attach (ws : Workspace) (buffer : Nat)
    (t : Option Engine.Tokenizer) (listens : Bool) :
    Accrued ((Deed.attach buffer t listens).passes ws) ws
      ((attach buffer t listens).on ws).2 := by
  have hnew : (ws.withNew buffer t listens).trace = ws.trace := by
    cases listens <;> rfl
  rw [attach_on, on_bind_pure_snd]
  exact (accrued_build _ _).congr hnew.symm rfl

/-- A deed costs what its passes cost, whether it goes through or
fails. -/
theorem accrued_after {deed : Deed} (h : deed.IsProfiled) (ws : Workspace) :
    Accrued (deed.passes ws) ws (deed.after ws) := by
  cases deed with
  | addBuffer d => exact .of_trace rfl
  | addWatcher w => exact .of_trace rfl
  | subscribe buffer w => exact .of_trace rfl
  | unsubscribe r => exact .of_trace (trace_unsubscribe ws r)
  | attach buffer t listens => exact accrued_attach ws buffer t listens
  | build i => exact accrued_build ws i
  | rebuild i => exact accrued_rebuild ws i
  | equip i t => exact accrued_equip ws i t
  | retokenize i line => exact h.elim
  | mendRange i range => exact accrued_mendRange ws i range
  | mendBatch i changes => exact accrued_mendBatch ws i changes
  | lookup i p => exact h.elim
  | lookupLine i line => exact h.elim
  | retire i =>
      refine .of_trace (retire_keeps (P := fun ws' => ws'.trace = ws.trace)
        rfl (fun _ r _ _ => trace_unsubscribe ws r) fun _ h => h)
  | edit buffer changes => exact accrued_edit ws buffer changes
  | take buffer changes =>
      exact .of_trace (take_keeps (P := fun ws' => ws'.trace = ws.trace)
        rfl fun _ _ _ => trace_applyBatch)
  | tell agenda => exact accrued_deliverAll ws.plans agenda ws
  | plan plans => exact .of_trace rfl
  | configure config => exact .of_trace rfl
  | count f => exact h.elim

/-- A run costs what all its passes cost. -/
theorem accrued_afterDeeds {deeds : List Deed}
    (h : ∀ deed ∈ deeds, deed.IsProfiled) (ws : Workspace) :
    Accrued (passes deeds ws) ws (afterDeeds deeds ws) := by
  induction deeds generalizing ws with
  | nil => exact .of_trace rfl
  | cons deed deeds ih =>
      exact (accrued_after (h deed List.mem_cons_self) ws).trans
        (ih (fun later hl => h later (.tail _ hl)) (deed.after ws))

-- ============================================================== counters

/-- The innermost counters have grown by what was accrued. -/
theorem Accrued.active? {ps : List Pass} {m : Metrics}
    (h : Accrued ps ws ws') (hm : ws.trace.meters.active? = some m) :
    ∃ x, ws'.trace = ws.trace.plus x ∧ Costs ps x
      ∧ ws'.trace.meters.active? = some (m.plus x.counts) := by
  obtain ⟨x, hx, hcosts⟩ := h
  refine ⟨x, hx, hcosts, ?_⟩
  rw [hx, Trace.active?_plus, hm]
  rfl

/-- Outside of strict mode mending after a batch goes through, and counts
every change, with its pass or as malformed. -/
theorem mendBatch_counts {k : Controller} {d : Document} {e : Engine}
    {m : Metrics} (hseat : ws.seat? i = some (k, d))
    (he : k.engine? = some e) (hstrict : ws.config.active.isStrict = false)
    (hm : ws.trace.meters.active? = some m) (changes : List Change) :
    ∃ ws' m', (mendBatch i changes).on ws = (.ok (), ws')
      ∧ ws'.trace.meters.active? = some m'
      ∧ (ws.mendPasses i changes).length + malformed changes
        = changes.length
      ∧ m'.changesApplied = m.changesApplied
        + (ws.mendPasses i changes).countP (·.succeeds)
      ∧ m'.changesSkipped = m.changesSkipped + malformed changes
        + (ws.mendPasses i changes).countP (!·.succeeds) := by
  obtain ⟨t, ht, rfl⟩ := Option.map_eq_some_iff.1 he
  obtain ⟨answer, c', x, hon, -, hcounts⟩ := comesTo_mendBatch (d := d)
    (e := t.engine) false changes k.cache
  obtain ⟨rfl, hlength, happlied, hskipped⟩ := hcounts rfl
  have hpasses : ws.mendPasses i changes
      = batchPasses d t.engine false changes k.cache := by
    unfold mendPasses readyPasses
    rw [hseat]
    dsimp only
    rw [he, hstrict]
  rw [hpasses, mendBatch_on, whenReady_of_ready hseat ht, hstrict, hon]
  refine ⟨_, m.plus x.counts, rfl, ?_, hlength, ?_, ?_⟩
  · show (ws.trace.plus x).meters.active? = _
    rw [Trace.active?_plus, hm]
    rfl
  · show m.changesApplied + x.counts.changesApplied = _
    rw [happlied]
  · show m.changesSkipped + x.counts.changesSkipped = _
    rw [hskipped, Int.add_assoc]

-- ====================================================== without tokenizers

/-- The controller has no tokenizer, and the trace is this one. -/
def Inert (i : Nat) (t : Trace) (ws : Workspace) : Prop :=
  (∀ k, ws.controllers[i]? = some k → k.tokenizer = none) ∧ ws.trace = t

namespace Inert

variable {t : Trace}

theorem modify (h : Inert i t ws) {f : Controller → Controller}
    (hf : ∀ k : Controller, k.tokenizer = none →
      (f k).tokenizer = none) : Inert i t (ws.modifyController i f) := by
  refine ⟨fun k hk => ?_, h.2⟩
  rw [modifyController, List.getElem?_modify_eq] at hk
  obtain ⟨k', hk', rfl⟩ := Option.map_eq_some_iff.1 hk
  exact hf k' (h.1 k' hk')

/-- What work on its cache would leave is of no interest: it does none. -/
theorem leave (h : Inert i t ws) {k : Controller} {u : Engine.Tokenizer}
    (bench : Bench) (hk : ws.controllers[i]? = some k)
    (hu : k.tokenizer = some u) : Inert i t (ws.leave i bench) := by
  rw [h.1 k hk] at hu
  cases hu

theorem whenReady {α : Type} (answer : α)
    (work : Document → Engine → Work α) :
    (whenReady i answer work).Keeps (Inert i t) :=
  whenReady_keeps (fun _ _ _ bench hk hu h => h.leave bench hk hu) answer
    work

theorem rebuild : (Workspace.rebuild i).Keeps (Inert i t) :=
  rebuild_keeps (fun _ h => h.modify fun _ hk => hk)
    fun _ _ _ bench hk hu h => h.leave bench hk hu

theorem equip : (Workspace.equip i none).Keeps (Inert i t) :=
  equip_keeps (fun _ h => h.modify fun _ hk => hk)
    (fun _ _ _ bench hk hu h => h.leave bench hk hu)
    fun _ _ _ _ h => h.modify fun _ _ => rfl

theorem mendBatch (changes : List Change) :
    (Workspace.mendBatch i changes).Keeps (Inert i t) :=
  Act.keeps_get.bind fun _ => whenReady _ _

theorem deliver (buffer : Nat) (changes : List Change) :
    (deliver ⟨.controller i, buffer, changes⟩).Keeps (Inert i t) := by
  refine Act.keeps_get.bind fun ws => ?_
  split
  · exact Act.keeps_pure _
  · split
    · exact Act.keeps_pure _
    · exact mendBatch changes

theorem tell (h : Inert i t ws) (plans : List Plan) (buffer : Nat)
    (changes : List Change) :
    (deliverAll plans [⟨.controller i, buffer, changes⟩] ws).2.trace
      = t := by
  rcases hon : (Workspace.deliver ⟨.controller i, buffer, changes⟩).on ws
    with ⟨fault | _, ws'⟩
  · rw [deliverAll_of_error [] hon]
    exact ((deliver buffer changes).left h hon).2
  · rw [deliverAll_of_none [] hon rfl, deliverAll]
    exact ((deliver buffer changes).left h hon).2

theorem attach (ws : Workspace) (buffer : Nat) (listens : Bool) :
    ((Workspace.attach buffer none listens).on ws).2.trace = ws.trace := by
  have hnew : Inert ws.controllers.length ws.trace
      (ws.withNew buffer none listens) := by
    refine ⟨fun k hk => ?_, ?_⟩
    · cases listens <;>
        exact (Option.some.inj
          (List.getElem?_concat_length.symm.trans hk)) ▸ rfl
    · cases listens <;> rfl
  rw [attach_on, on_bind_pure_snd]
  exact (whenReady () Reparse.build _ hnew).2

end Inert

/-- What may be done with a controller, and told it, that gives it no
tokenizer. -/
def attendings (i buffer : Nat) (line : Int) (range : Range)
    (changes : List Change) : List Deed :=
  [.build i, .rebuild i, .equip i none, .retokenize i line,
    .mendRange i range, .mendBatch i changes,
    .tell [⟨.controller i, buffer, changes⟩]]

/-- A controller without a tokenizer leaves no trace of what it does. -/
theorem trace_of_inert {deed : Deed} {buffer : Nat} {line : Int}
    {range : Range} {changes : List Change}
    (h : ∀ k, ws.controllers[i]? = some k → k.tokenizer = none)
    (hdeed : deed ∈ attendings i buffer line range changes) :
    (deed.after ws).trace = ws.trace := by
  have hws : Inert i ws.trace ws := ⟨h, rfl⟩
  simp only [attendings, List.mem_cons, List.not_mem_nil, or_false]
    at hdeed
  rcases hdeed with rfl | rfl | rfl | rfl | rfl | rfl | rfl
  · exact (Inert.whenReady () Reparse.build ws hws).2
  · exact (Inert.rebuild ws hws).2
  · exact (Inert.equip ws hws).2
  · exact (Inert.whenReady _ _ ws hws).2
  · exact (Inert.whenReady _ _ ws hws).2
  · exact (Inert.mendBatch changes ws hws).2
  · exact hws.tell ws.plans buffer changes

-- ============================================================ the theorem

/-- Somebody counts. Then outside of strict mode a controller with a
tokenizer counts each change of a batch once, whatever the changes and
whatever its engine does: those that are malformed and those whose pass
fails as skipped, all others as applied. In any run in which every engine
answers for every line it is handed, the lines counted are as many as were
handed over, the cascaded ones as many of them as were past the end of the
clamped range being mended, and the builds as many as whole documents were
built. And a controller without a tokenizer counts nothing. -/
theorem profiling_adds_up (ws : Workspace) {m : Metrics}
    (hm : ws.trace.meters.active? = some m) :
    (∀ i k d e changes, ws.seat? i = some (k, d) → k.engine? = some e →
        ws.config.active.isStrict = false →
        ∃ ws' m', (mendBatch i changes).on ws = (.ok (), ws')
          ∧ ws'.trace.meters.active? = some m'
          ∧ (ws.mendPasses i changes).length + malformed changes
            = changes.length
          ∧ m'.changesApplied = m.changesApplied
            + (ws.mendPasses i changes).countP (·.succeeds)
          ∧ m'.changesSkipped = m.changesSkipped + malformed changes
            + (ws.mendPasses i changes).countP (!·.succeeds)
          ∧ m'.changesApplied + m'.changesSkipped
            = m.changesApplied + m.changesSkipped + changes.length)
      ∧ (∀ deeds, (∀ deed ∈ deeds, deed.IsProfiled) →
        (∀ p ∈ passes deeds ws, p.Answered) →
        ∃ calls m', (afterDeeds deeds ws).trace.calls
            = ws.trace.calls ++ calls
          ∧ (afterDeeds deeds ws).trace.meters.active? = some m'
          ∧ m'.linesTokenized = m.linesTokenized + calls.length
          ∧ calls = (passes deeds ws).flatMap (·.calls)
          ∧ (∀ p ∈ passes deeds ws,
            p.lines.map (p.document.lines[·]?) = p.calls.map some)
          ∧ m'.cascadeLines = m.cascadeLines
            + ((passes deeds ws).map (·.past)).sum
          ∧ m'.fullBuilds = m.fullBuilds
            + (passes deeds ws).countP (·.isWhole))
      ∧ (∀ i buffer line range changes,
        (∀ k, ws.controllers[i]? = some k → k.tokenizer = none) →
        ∀ deed ∈ attendings i buffer line range changes,
          (deed.after ws).trace = ws.trace)
      ∧ ∀ buffer listens,
        ((Deed.attach buffer none listens).after ws).trace = ws.trace := by
  refine ⟨?_, ?_, ?_, ?_⟩
  · intro i k d e changes hseat he hstrict
    obtain ⟨ws', m', hon, hm', hlength, happlied, hskipped⟩ :=
      mendBatch_counts hseat he hstrict hm changes
    have hparts := List.length_eq_countP_add_countP (·.succeeds)
      (l := ws.mendPasses i changes)
    simp only [Bool.not_eq_true, Bool.decide_eq_false] at hparts
    exact ⟨ws', m', hon, hm', hlength, happlied, hskipped, by omega⟩
  · intro deeds hdeeds hanswered
    -- all that the deeds cost is the cost of their passes
    obtain ⟨x, hx, hcosts, hm'⟩ :=
      (accrued_afterDeeds hdeeds ws).active? hm
    obtain ⟨hlines, hcascade, hbuilds⟩ := hcosts.of_answered hanswered
    refine ⟨x.calls, _, by rw [hx]; rfl, hm', ?_, hcosts.calls,
      fun p _ => p.map_lines, ?_, ?_⟩
    · exact congrArg (m.linesTokenized + ·) hlines
    · exact congrArg (m.cascadeLines + ·) hcascade
    · exact congrArg (m.fullBuilds + ·) hbuilds
  · exact fun i buffer line range changes h deed => trace_of_inert h
  · exact Inert.attach ws

/-- Knows parentheses, and gets stuck on one line. -/
def stumbling : Engine.Tokenizer := ⟨0, .table [
  ⟨"(".toList, none, .answers [] (.number 1)⟩,
  ⟨")".toList, none, .answers [] (.number 0)⟩,
  ⟨"x".toList, none, .fails "stuck"⟩]⟩

/-- Two controllers of a document, one of which has a tokenizer and holds
the states of another text. Somebody counts. -/
def profiled (text : String) : Workspace :=
  { empty with
    buffers := [⟨.new "untitled:document" "plaintext" text.toList, []⟩]
    controllers := [
      ⟨0, some stumbling,
        ⟨[some (.number 1), some (.number 1), some (.number 0)]⟩, none,
        false⟩,
      ⟨0, none, .empty, none, false⟩]
    trace := .fresh }

/-- A malformed change, one on a line that the engine gets stuck on, and a
good one. -/
def ragged : List Change := [
  ⟨⟨⟨0, 1⟩, ⟨0, 0⟩⟩, []⟩, ⟨⟨⟨1, 0⟩, ⟨1, 1⟩⟩, "x".toList⟩,
  ⟨⟨⟨0, 0⟩, ⟨0, 1⟩⟩, "(".toList⟩]

/-- The second line is mended, which changes how the third is entered, and
then everything is tokenized again. -/
def mendings : List Deed := [.mendRange 0 ⟨⟨1, 0⟩, ⟨1, 1⟩⟩, .rebuild 0]

/-- Of the ragged changes two get passes, and all three are counted. The
mendings take two lines, one of which cascades, and three. -/
theorem profiling_adds_up_ragged :
    (∃ m', ((mendBatch 0 ragged).on
          (profiled "(\nx\n)")).2.trace.meters.active? = some m'
        ∧ m'.changesApplied + m'.changesSkipped = 3
        ∧ ((profiled "(\nx\n)").mendPasses 0 ragged).length = 2)
      ∧ (∃ m', (afterDeeds mendings
          (profiled "(\n)\n)")).trace.meters.active? = some m'
        ∧ m'.linesTokenized = 5 ∧ m'.cascadeLines = 1 ∧ m'.fullBuilds = 1)
      ∧ ((Deed.rebuild 1).after (profiled "")).trace
        = (profiled "").trace := by
  refine ⟨?_, ?_, ?_⟩
  · obtain ⟨ws', m', hon, hm', hlength, -, -, hsum⟩ :=
      (profiling_adds_up (profiled "(\nx\n)") rfl).1 0 _ _ _ ragged rfl rfl
        rfl
    have hone : malformed ragged = 1 := by decide
    rw [hon]
    refine ⟨m', hm', hsum, ?_⟩
    rw [hone] at hlength
    exact Nat.succ.inj hlength
  · have hsucceed : (passes mendings (profiled "(\n)\n)")).all
        (·.succeeds) = true := by decide +kernel
    have hcalls : ((passes mendings (profiled "(\n)\n)")).flatMap
        (·.calls)).length = 5 := by decide +kernel
    have hpast : ((passes mendings (profiled "(\n)\n)")).map
        (·.past)).sum = 1 := by decide +kernel
    have hwhole : (passes mendings (profiled "(\n)\n)")).countP
        (·.isWhole) = 1 := by decide +kernel
    obtain ⟨calls, m', -, hm', hlines, rfl, -, hcascade, hbuilds⟩ :=
      (profiling_adds_up (profiled "(\n)\n)") rfl).2.1 mendings
        (by simp [mendings, Deed.IsProfiled])
        fun p hp => p.answered_iff.2 (List.all_eq_true.1 hsucceed p hp)
    rw [hcalls] at hlines
    rw [hpast] at hcascade
    rw [hwhole] at hbuilds
    exact ⟨m', hm', hlines, hcascade, hbuilds⟩
  · refine (profiling_adds_up (profiled "") rfl).2.2.1 1 0 0
      ⟨⟨0, 0⟩, ⟨0, 0⟩⟩ [] ?_ (.rebuild 1) (by simp [attendings])
    intro k hk
    obtain rfl := Option.some.inj
      ((rfl : (profiled "").controllers[1]? = _).symm.trans hk)
    rfl

end Relex.Workspace
