/-
Rounds of notifications, happening by happening.

A round is told as a list of what happens in it: documents take batches,
listeners are called, and one of them may fail, which ends it. `Round`
follows `deliverAll` step by step and adds that list; `Edits` does so for
a run of edits that a host makes one after the other, each of which
starts a round. A history can be told of every run (`edits_history`).

Four things are read off a history:

- the batches a document took (`accepted`): they lead from the document
  as it was to the document as it is (`Edits.replays`);
- the batches a listener was called with (`heard`); for a watcher these
  are what it notes (`Edits.noticed`);
- the batches a listener ought to hear of (`owed`);
- whether a listener was called with each batch before its document took
  the next one (`Prompt`).

If nobody fails, a listener hears of every batch as often as it is listed
when the batch is taken (`Edits.heard_owed`), and so exactly once if it is
listed once (`Edits.heard_perm`); but in which order depends on who else
is listed. A listener that edits starts a nested round, and those listed
behind it hear of the nested batch first. A listener is told promptly, and
hence in order, if nobody in front of it edits or fails (`Edits.prompt`),
whatever those behind it do.
-/
import Relex.Proofs.Workspace.Calm

namespace Relex.Workspace

-- ========================================================= happenings

/-- What can happen while listeners are notified. -/
inductive Happening where
  /-- A document takes a batch; these listen to it. -/
  | applied (buffer : Nat) (changes : List Change)
    (listeners : List Listener)
  | called (d : Delivery)
  /-- The listener called last fails, or is refused the edit it makes. -/
  | raised (d : Delivery)

/-- A document takes a batch, if there is a document: what happens, whom
to tell, and the workspace after it. -/
inductive Batch (ws : Workspace) (buffer : Nat) (changes : List Change) :
    List Happening → List Delivery → Workspace → Prop where
  | absent (hb : ws.buffers[buffer]? = none) :
      Batch ws buffer changes [] [] ws
  | taken {b : Buffer} {d : Document} {applied : List Change}
      (hb : ws.buffers[buffer]? = some b)
      (happly : b.document.apply changes = .ok (d, applied)) :
      Batch ws buffer changes [.applied buffer applied b.listeners]
        (b.listeners.map (⟨·, buffer, applied⟩))
        { ws with buffers := ws.buffers.set buffer { b with document := d } }

/-- A round of notifications: what happens in it, and how it ends. -/
inductive Round : List Plan → List Delivery → Workspace →
    List Happening → Except Fault Unit × Workspace → Prop where
  | done {plans : List Plan} {ws : Workspace} :
      Round plans [] ws [] (.ok (), { ws with plans := plans })
  | fails {plans : List Plan} {d : Delivery} {rest : List Delivery}
      {ws ws' : Workspace} {fault : Fault}
      (hon : (deliver d).on ws = (.error fault, ws')) :
      Round plans (d :: rest) ws [.called d, .raised d]
        (.error fault, { ws' with plans := plans })
  | goesOn {plans : List Plan} {d : Delivery} {rest : List Delivery}
      {ws ws' : Workspace} {story : List Happening}
      {result : Except Fault Unit × Workspace}
      (hon : (deliver d).on ws = (.ok (), ws'))
      (hplan : d.plan? plans = none)
      (hrest : Round plans rest ws' story result) :
      Round plans (d :: rest) ws (.called d :: story) result
  | refused {plans left : List Plan} {d : Delivery}
      {rest : List Delivery} {ws ws' : Workspace} {plan : Plan}
      {e : EditFault} (hon : (deliver d).on ws = (.ok (), ws'))
      (hplan : d.plan? plans = some (plan, left))
      (happly : ws'.applyBatch plan.buffer plan.changes = .error e) :
      Round plans (d :: rest) ws [.called d, .raised d]
        (.error (.edit e), { ws' with plans := left })
  | nests {plans left : List Plan} {d : Delivery}
      {rest nested : List Delivery} {ws ws' ws'' : Workspace}
      {plan : Plan} {taking story : List Happening}
      {result : Except Fault Unit × Workspace}
      (hon : (deliver d).on ws = (.ok (), ws'))
      (hplan : d.plan? plans = some (plan, left))
      (hbatch : Batch ws' plan.buffer plan.changes taking nested ws'')
      (hrest : Round left (nested ++ rest) ws'' story result) :
      Round plans (d :: rest) ws (.called d :: (taking ++ story)) result

/-- A run of edits, each of a buffer: what happens in it, and the
workspace it leaves. -/
inductive Edits : List (Nat × List Change) → Workspace →
    List Happening → Workspace → Prop where
  | nil {ws : Workspace} : Edits [] ws [] ws
  | refused {edits : List (Nat × List Change)} {buffer : Nat}
      {changes : List Change} {ws ws' : Workspace}
      {story : List Happening} {e : EditFault}
      (happly : ws.applyBatch buffer changes = .error e)
      (hrest : Edits edits ws story ws') :
      Edits ((buffer, changes) :: edits) ws story ws'
  | taken {edits : List (Nat × List Change)} {buffer : Nat}
      {changes : List Change} {ws ws₁ ws₂ ws₃ : Workspace}
      {taking story stories : List Happening}
      {deliveries : List Delivery} {result : Except Fault Unit}
      (hbatch : Batch ws buffer changes taking deliveries ws₁)
      (hround : Round ws₁.plans deliveries ws₁ story (result, ws₂))
      (hrest : Edits edits ws₂ stories ws₃) :
      Edits ((buffer, changes) :: edits) ws (taking ++ story ++ stories)
        ws₃

/-- The workspace after some edits, one after the other, whether they
went through or failed. -/
def editAll (edits : List (Nat × List Change)) (ws : Workspace) :
    Workspace :=
  edits.foldl (fun ws e => ((edit e.1 e.2).on ws).2) ws

variable {ws ws' : Workspace} {buffer : Nat} {changes : List Change}
  {plans : List Plan} {agenda : List Delivery} {story : List Happening}
  {result : Except Fault Unit × Workspace}
  {edits : List (Nat × List Change)}

-- ============================================================ histories

/-- What happens when a document takes a batch, if there is a
document. -/
def taking (ws : Workspace) (buffer : Nat) (applied : List Change) :
    List Happening :=
  match ws.buffers[buffer]? with
  | none => []
  | some b => [.applied buffer applied b.listeners]

/-- What happens while deliveries are made. -/
def roundHistory (plans : List Plan) :
    List Delivery → Workspace → List Happening
  | [], _ => []
  | d :: rest, ws =>
    match (deliver d).on ws with
    | (.error _, _) => [.called d, .raised d]
    | (.ok (), ws) =>
      match _h : d.plan? plans with
      | none => .called d :: roundHistory plans rest ws
      | some (plan, left) =>
        match ws.applyBatch plan.buffer plan.changes with
        | .error _ => [.called d, .raised d]
        | .ok (applied, nested, ws') => .called d
          :: (ws.taking plan.buffer applied
            ++ roundHistory left (nested ++ rest) ws')
termination_by agenda => (plans.length, agenda.length)
decreasing_by
  · exact .right _ (Nat.lt_succ_self _)
  · refine .left _ _ ?_
    obtain ⟨listener, buffer, changes⟩ := d
    cases listener with
    | controller id => cases _h
    | watcher id =>
        have := Plan.length_of_take? _h
        omega

/-- What happens in a run of edits. -/
def history : List (Nat × List Change) → Workspace → List Happening
  | [], _ => []
  | (buffer, changes) :: edits, ws =>
    (match ws.applyBatch buffer changes with
      | .error _ => []
      | .ok (applied, deliveries, ws') => ws.taking buffer applied
        ++ roundHistory ws'.plans deliveries ws')
      ++ history edits ((edit buffer changes).on ws).2

theorem batch_taking {applied : List Change} {nested : List Delivery}
    (h : ws.applyBatch buffer changes = .ok (applied, nested, ws')) :
    Batch ws buffer changes (ws.taking buffer applied) nested ws' := by
  unfold applyBatch at h
  unfold taking
  cases hb : ws.buffers[buffer]? with
  | none =>
      rw [hb] at h
      cases h
      exact .absent hb
  | some b =>
      rw [hb] at h
      dsimp only at h
      cases happly : b.document.apply changes with
      | error e =>
          rw [happly] at h
          cases h
      | ok r =>
          rw [happly] at h
          cases h
          exact .taken hb happly

/-- Every round goes as its history tells. -/
theorem round_roundHistory (plans : List Plan) (agenda : List Delivery)
    (ws : Workspace) :
    Round plans agenda ws (roundHistory plans agenda ws)
      (deliverAll plans agenda ws) := by
  induction plans, agenda, ws using deliverAll.induct with
  | case1 plans ws =>
      rw [deliverAll, roundHistory]
      exact .done
  | case2 plans d rest ws fault ws' hon =>
      rw [deliverAll_of_error rest hon, roundHistory, hon]
      exact .fails hon
  | case3 plans d rest ws ws' hon hplan ih =>
      rw [deliverAll_of_none rest hon hplan, roundHistory, hon]
      dsimp only
      split
      · exact .goesOn hon hplan ih
      · next h => cases hplan.symm.trans h
  | case4 plans d rest ws ws' hon plan left hplan e happly =>
      rw [deliverAll_of_some rest hon hplan, roundHistory, hon, happly]
      dsimp only
      split
      · next h => cases hplan.symm.trans h
      · next h =>
        cases hplan.symm.trans h
        rw [happly]
        exact .refused hon hplan happly
  | case5 plans d rest ws ws' hon plan left hplan applied nested ws''
      happly ih =>
      rw [deliverAll_of_some rest hon hplan, roundHistory, hon, happly]
      dsimp only
      split
      · next h => cases hplan.symm.trans h
      · next h =>
        cases hplan.symm.trans h
        rw [happly]
        exact .nests hon hplan (batch_taking happly) ih

/-- An edit whose batch is refused fails and changes nothing; otherwise it
ends as the round of notifications ends. -/
theorem edit_on (ws : Workspace) (buffer : Nat) (changes : List Change) :
    (edit buffer changes).on ws
      = match ws.applyBatch buffer changes with
        | .error e => (.error (.edit e), ws)
        | .ok (applied, deliveries, ws') =>
          ((deliverAll ws'.plans deliveries ws').1.map fun _ => applied,
            (deliverAll ws'.plans deliveries ws').2) := by
  unfold edit
  rw [Act.on_bind, Act.on_get]
  dsimp only
  cases ws.applyBatch buffer changes with
  | error e => rfl
  | ok r =>
      obtain ⟨applied, deliveries, ws'⟩ := r
      dsimp only
      rw [Act.on_bind, Act.on_set]
      dsimp only
      rw [Act.on_bind, Act.on_of]
      rcases deliverAll ws'.plans deliveries ws' with ⟨_ | _, _⟩ <;> rfl

/-- Every run of edits goes as its history tells. -/
theorem edits_history (edits : List (Nat × List Change))
    (ws : Workspace) :
    Edits edits ws (history edits ws) (editAll edits ws) := by
  induction edits generalizing ws with
  | nil => exact .nil
  | cons e edits ih =>
      obtain ⟨buffer, changes⟩ := e
      have hrest := ih ((edit buffer changes).on ws).2
      show Edits _ ws _ (editAll edits ((edit buffer changes).on ws).2)
      rw [history]
      rw [edit_on] at hrest ⊢
      cases happly : ws.applyBatch buffer changes with
      | error e =>
          rw [happly] at hrest
          exact .refused happly hrest
      | ok r =>
          obtain ⟨applied, deliveries, ws'⟩ := r
          rw [happly] at hrest
          exact .taken (batch_taking happly)
            (round_roundHistory ws'.plans deliveries ws') hrest

-- ============================================ what is read off a history

/-- The changes of a delivery, if it is for this listener at this
buffer. -/
def Delivery.toward? (l : Listener) (b : Nat) (d : Delivery) :
    Option (List Change) :=
  if d.listener = l ∧ d.buffer = b then some d.changes else none

/-- What a listener at a buffer is still to be told. -/
def awaited (l : Listener) (b : Nat) (agenda : List Delivery) :
    List (List Change) :=
  agenda.filterMap (·.toward? l b)

/-- The batches a listener at a buffer was called with, in order. -/
def heard (l : Listener) (b : Nat) (story : List Happening) :
    List (List Change) :=
  story.filterMap fun
    | .called d => d.toward? l b
    | _ => none

/-- The batches a buffer's document took, in order. -/
def accepted (b : Nat) (story : List Happening) : List (List Change) :=
  story.filterMap fun
    | .applied b' changes _ => if b' = b then some changes else none
    | _ => none

/-- The batches a listener at a buffer is to hear of because the document
took them: each as often as the listener is listed then. -/
def owed (l : Listener) (b : Nat) (story : List Happening) :
    List (List Change) :=
  story.flatMap fun
    | .applied b' changes listeners =>
      if b' = b then List.replicate (listeners.count l) changes else []
    | _ => []

/-- Whenever the buffer's document takes a batch, the listener is listed,
once. -/
def ListedOnce (l : Listener) (b : Nat) (story : List Happening) : Prop :=
  ∀ changes listeners, .applied b changes listeners ∈ story →
    listeners.count l = 1

/-- Nobody fails, and nobody is refused an edit. -/
def Smooth (story : List Happening) : Prop := ∀ d, .raised d ∉ story

section

variable (l : Listener) (b : Nat)

@[simp] theorem heard_nil : heard l b [] = [] := rfl

@[simp] theorem heard_append (s t : List Happening) :
    heard l b (s ++ t) = heard l b s ++ heard l b t :=
  List.filterMap_append

@[simp] theorem heard_called (d : Delivery) (s : List Happening) :
    heard l b (.called d :: s)
      = (d.toward? l b).toList ++ heard l b s := by
  unfold heard
  rw [List.filterMap_cons]
  dsimp only
  cases d.toward? l b <;> rfl

@[simp] theorem heard_raised (d : Delivery) (s : List Happening) :
    heard l b (.raised d :: s) = heard l b s := rfl

@[simp] theorem accepted_nil : accepted b [] = [] := rfl

@[simp] theorem accepted_append (s t : List Happening) :
    accepted b (s ++ t) = accepted b s ++ accepted b t :=
  List.filterMap_append

@[simp] theorem accepted_called (d : Delivery) (s : List Happening) :
    accepted b (.called d :: s) = accepted b s := rfl

@[simp] theorem accepted_raised (d : Delivery) (s : List Happening) :
    accepted b (.raised d :: s) = accepted b s := rfl

@[simp] theorem owed_nil : owed l b [] = [] := rfl

@[simp] theorem owed_append (s t : List Happening) :
    owed l b (s ++ t) = owed l b s ++ owed l b t :=
  List.flatMap_append

@[simp] theorem owed_called (d : Delivery) (s : List Happening) :
    owed l b (.called d :: s) = owed l b s := rfl

@[simp] theorem owed_raised (d : Delivery) (s : List Happening) :
    owed l b (.raised d :: s) = owed l b s := rfl

@[simp] theorem awaited_nil : awaited l b [] = [] := rfl

@[simp] theorem awaited_append (s t : List Delivery) :
    awaited l b (s ++ t) = awaited l b s ++ awaited l b t :=
  List.filterMap_append

@[simp] theorem awaited_cons (d : Delivery) (s : List Delivery) :
    awaited l b (d :: s) = (d.toward? l b).toList ++ awaited l b s := by
  unfold awaited
  rw [List.filterMap_cons]
  cases d.toward? l b <;> rfl

end

variable {l : Listener} {b : Nat}

theorem ListedOnce.mono {story' : List Happening}
    (h : ListedOnce l b story) (hs : story' ⊆ story) :
    ListedOnce l b story' :=
  fun changes listeners hmem => h changes listeners (hs hmem)

theorem Smooth.mono {story' : List Happening} (h : Smooth story)
    (hs : story' ⊆ story) : Smooth story' :=
  fun d hd => h d (hs hd)

/-- What happens in an edit, and in those after it, happens in the run. -/
theorem parts_subset (taking story stories : List Happening) :
    taking ⊆ taking ++ story ++ stories
      ∧ story ⊆ taking ++ story ++ stories
      ∧ stories ⊆ taking ++ story ++ stories := by
  simp [List.append_assoc]

/-- A batch is to be told to a listener as often as that is listed. -/
theorem awaited_map (listeners : List Listener) (b' : Nat)
    (changes : List Change) :
    awaited l b (listeners.map (⟨·, b', changes⟩))
      = if b' = b then List.replicate (listeners.count l) changes
        else [] := by
  induction listeners with
  | nil => simp
  | cons x listeners ih =>
      rw [List.map_cons, awaited_cons, ih]
      by_cases hb : b' = b <;> by_cases hx : x = l <;>
        simp [Delivery.toward?, hb, hx, List.replicate_succ]

namespace Batch

variable {taking : List Happening} {nested : List Delivery}

/-- While a batch is taken nobody is called. -/
theorem heard_eq_nil (h : Batch ws buffer changes taking nested ws') :
    heard l b taking = [] := by
  cases h <;> rfl

/-- Whoever is listed is to be told of the batch. -/
theorem awaited_eq (h : Batch ws buffer changes taking nested ws') :
    awaited l b nested = owed l b taking := by
  cases h with
  | absent hb => rfl
  | taken hb happly =>
      rw [awaited_map]
      exact (List.append_nil _).symm

theorem plans_eq (h : Batch ws buffer changes taking nested ws') :
    ws'.plans = ws.plans := by
  cases h <;> rfl

end Batch

-- ========================================================= exactly once

/-- Who is listed once is to hear of each batch once. -/
theorem ListedOnce.owed_eq (h : ListedOnce l b story) :
    owed l b story = accepted b story := by
  induction story with
  | nil => rfl
  | cons x story ih =>
      have hrest := ih (h.mono (List.subset_cons_self ..))
      cases x with
      | called d => exact hrest
      | raised d => exact hrest
      | applied b' changes listeners =>
          show (if b' = b then _ else []) ++ owed l b story = _
          rw [hrest]
          by_cases hb : b' = b
          · subst hb
            simp [accepted, h changes listeners (by simp)]
          · simp [accepted, hb]

/-- In a round in which nobody fails, a listener hears of what it was to
be told at the outset, and of what documents took since. -/
theorem Round.heard_owed (h : Round plans agenda ws story result)
    (hs : Smooth story) :
    (heard l b story).Perm (awaited l b agenda ++ owed l b story) := by
  induction h with
  | done => simp
  | @fails plans d => exact (hs d (by simp)).elim
  | @refused plans left d => exact (hs d (by simp)).elim
  | goesOn hon hplan hrest ih =>
      have := ih (hs.mono (List.subset_cons_self ..))
      simpa using this.append_left _
  | @nests plans left d rest nested ws ws' ws'' plan taking story result
      hon hplan hbatch hrest ih =>
      have hsub : story ⊆ .called d :: (taking ++ story) :=
        List.subset_cons_of_subset _ (List.subset_append_right ..)
      have := ih (hs.mono hsub)
      rw [awaited_append, hbatch.awaited_eq] at this
      rw [heard_called, heard_append, hbatch.heard_eq_nil, awaited_cons,
        owed_called, owed_append, List.nil_append, List.append_assoc]
      refine List.Perm.append_left _ (this.trans ?_)
      rw [List.append_assoc]
      exact List.perm_append_comm_assoc ..

/-- In a run of edits in which nobody fails, a listener hears of every
batch that was taken while it was listed, as often as it was listed. -/
theorem Edits.heard_owed (h : Edits edits ws story ws')
    (hs : Smooth story) : (heard l b story).Perm (owed l b story) := by
  induction h with
  | nil => simp
  | refused happly hrest ih => exact ih hs
  | @taken edits buffer changes ws ws₁ ws₂ ws₃ taking story stories
      deliveries result hbatch hround hrest ih =>
      obtain ⟨-, hstory, hstories⟩ := parts_subset taking story stories
      have hfirst := hround.heard_owed (l := l) (b := b) (hs.mono hstory)
      rw [hbatch.awaited_eq] at hfirst
      simpa [hbatch.heard_eq_nil] using hfirst.append (ih (hs.mono hstories))

theorem Edits.heard_perm (h : Edits edits ws story ws')
    (hl : ListedOnce l b story) (hs : Smooth story) :
    (heard l b story).Perm (accepted b story) :=
  hl.owed_eq ▸ h.heard_owed hs

-- ===================================================== calls, in general

/-- Work for a controller keeps what its work on a cache keeps. -/
theorem whenReady_keeps {α : Type} {P : Workspace → Prop} {i : Nat}
    (hleave : ∀ ws k t bench, ws.controllers[i]? = some k →
      k.tokenizer = some t → P ws → P (ws.leave i bench)) (answer : α)
    (work : Document → Engine → Work α) :
    (whenReady i answer work).Keeps P := by
  intro ws h
  cases hseat : ws.seat? i with
  | none =>
      rw [whenReady_of_no_seat hseat]
      exact h
  | some seat =>
      obtain ⟨k, doc⟩ := seat
      cases ht : k.tokenizer with
      | none =>
          rw [whenReady_of_inert hseat ht]
          exact h
      | some t =>
          rw [whenReady_of_ready hseat ht]
          exact hleave ws k t _ (seat?_eq_some.1 hseat).1 ht h

section

variable {P : Workspace → Prop} {i : Nat}
  (hclear : ∀ ws, P ws →
    P (ws.modifyController i fun k => { k with cache := .empty }))
  (hleave : ∀ ws k t bench, ws.controllers[i]? = some k →
    k.tokenizer = some t → P ws → P (ws.leave i bench))

include hclear hleave

/-- Building a cache anew keeps what clearing it and work on it keep. -/
theorem rebuild_keeps : (rebuild i).Keeps P :=
  (Act.keeps_modify hclear).bind
    fun _ => whenReady_keeps hleave () Reparse.build

/-- Equipping a controller keeps what that does to one that is not
disposed of, and building its cache anew. -/
theorem equip_keeps {t : Option Engine.Tokenizer}
    (hgive : ∀ ws k, ws.controllers[i]? = some k → k.disposed = false →
      P ws → P (ws.modifyController i fun k => { k with tokenizer := t })) :
    (equip i t).Keeps P := by
  intro ws h
  unfold equip
  rw [Act.on_bind, Act.on_get]
  dsimp only
  cases hk : ws.controllers[i]? with
  | none => exact h
  | some k =>
      dsimp only
      cases hlive : k.disposed with
      | true => exact h
      | false =>
          rw [if_neg Bool.false_ne_true, Act.on_bind, Act.on_modify]
          exact rebuild_keeps hclear hleave _ (hgive ws k hk hlive h)

end

/-- A call keeps what its habits and its work on a cache keep. -/
theorem deliver_keeps {P : Workspace → Prop} {d : Delivery}
    (hsight : ∀ ws w sightings, d.listener = .watcher w → P ws →
      P { ws with sightings := sightings })
    (hunsubscribe : ∀ ws i, P ws → P (ws.unsubscribe i))
    (hsubscribe : ∀ ws b w, P ws → P (ws.subscribe b (.watcher w)).2)
    (hleave : ∀ ws i k t bench, d.listener = .controller i →
      ws.controllers[i]? = some k → k.tokenizer = some t → P ws →
      P (ws.leave i bench)) : (deliver d).Keeps P := by
  obtain ⟨listener, buffer, changes⟩ := d
  cases listener with
  | watcher w =>
      refine Act.keeps_get.bind fun _ => Act.keeps_get.bind ?_
      intro ws
      split
      · refine (Act.keeps_modify fun _ h => hsight _ w _ rfl h).bind
          fun _ => Act.Keeps.forM ?_
        intro habit _
        cases habit with
        | dispose i => exact Act.keeps_modify fun _ h => hunsubscribe _ i h
        | subscribe w =>
            exact Act.keeps_modify fun _ h => hsubscribe _ buffer w h
        | fail words => exact Act.keeps_throw _
      · exact Act.keeps_pure _
  | controller i =>
      refine Act.keeps_get.bind ?_
      intro ws
      split
      · exact Act.keeps_pure _
      · split
        · exact Act.keeps_pure _
        · exact Act.keeps_get.bind fun _ => whenReady_keeps
            (fun ws k t bench hk ht => hleave ws i k t bench rfl hk ht) _ _

theorem document?_unsubscribe (ws : Workspace) (i j : Nat) :
    (ws.unsubscribe i).document? j = ws.document? j := by
  unfold unsubscribe
  cases ws.registrations[i]? with
  | none => rfl
  | some s =>
      dsimp only
      split
      · exact document_relist ws.buffers s.buffer j (·.erase s.listener)
      · rfl

theorem document?_subscribe (ws : Workspace) (i j : Nat) (l : Listener) :
    (ws.subscribe i l).2.document? j = ws.document? j :=
  document_relist ws.buffers i j (· ++ [l])

theorem controllers_unsubscribe (ws : Workspace) (i : Nat) :
    (ws.unsubscribe i).controllers = ws.controllers := by
  unfold unsubscribe
  split
  · rfl
  · split <;> rfl

theorem watchers_unsubscribe (ws : Workspace) (i : Nat) :
    (ws.unsubscribe i).watchers = ws.watchers := by
  unfold unsubscribe
  split
  · rfl
  · split <;> rfl

/-- Calls leave documents and watchers as they are. -/
theorem deliver_frame {d : Delivery} {outcome : Except Fault Unit}
    (hon : (deliver d).on ws = (outcome, ws')) :
    (∀ j, ws'.document? j = ws.document? j)
      ∧ ws'.watchers = ws.watchers := by
  have hkeeps : (deliver d).Keeps fun ws' =>
      (∀ j, ws'.document? j = ws.document? j)
        ∧ ws'.watchers = ws.watchers := by
    refine deliver_keeps (fun _ _ _ _ h => h) ?_ ?_
      (fun _ _ _ _ _ _ _ _ h => h)
    · intro ws' i h
      refine ⟨fun j => ?_, ?_⟩
      · rw [document?_unsubscribe]
        exact h.1 j
      · rw [watchers_unsubscribe]
        exact h.2
    · intro ws' i w h
      refine ⟨fun j => ?_, h.2⟩
      rw [document?_subscribe]
      exact h.1 j
  exact hkeeps.left ⟨fun _ => rfl, rfl⟩ hon

-- ================================================== documents and batches

/-- Applying batches, given as they were applied, leads from one document
to another. -/
inductive Replays : Document → List (List Change) → Document → Prop where
  | nil {d : Document} : Replays d [] d
  | cons {d d₁ d₂ : Document} {changes applied : List Change}
      {rest : List (List Change)}
      (happly : d.apply changes = .ok (d₁, applied))
      (hrest : Replays d₁ rest d₂) : Replays d (applied :: rest) d₂

theorem Replays.append {d₁ d₂ d₃ : Document} {s t : List (List Change)}
    (h : Replays d₁ s d₂) (h' : Replays d₂ t d₃) :
    Replays d₁ (s ++ t) d₃ := by
  induction h with
  | nil => exact h'
  | cons happly hrest ih => exact .cons happly (ih h')

/-- Each batch makes a new version. -/
theorem Replays.version {d d' : Document} {s : List (List Change)}
    (h : Replays d s d') : d'.version = d.version + s.length := by
  induction h with
  | nil => rfl
  | cons happly hrest ih =>
      obtain ⟨-, -, hversion, -⟩ := Document.apply_eq_ok happly
      rw [ih, hversion, List.length_cons]
      omega

/-- Setting the document of a buffer is seen of that buffer. -/
theorem document?_set {b' : Buffer} (hb : ws.buffers[buffer]? = some b')
    (d : Document) (j : Nat) :
    document? { ws with
      buffers := ws.buffers.set buffer ⟨d, b'.listeners⟩ } j
      = if buffer = j then some d else ws.document? j := by
  unfold document?
  by_cases hj : buffer = j
  · subst hj
    have hlt := (List.getElem?_eq_some_iff.1 hb).1
    simp [hlt]
  · simp [hj]

theorem Batch.replays {taking : List Happening} {nested : List Delivery}
    {d : Document} (h : Batch ws buffer changes taking nested ws')
    (hd : ws.document? b = some d) :
    ∃ d', ws'.document? b = some d' ∧ Replays d (accepted b taking) d' := by
  cases h with
  | absent hb => exact ⟨d, hd, .nil⟩
  | @taken b' d' applied hb happly =>
      rw [document?_set hb]
      by_cases hbuffer : buffer = b
      · subst hbuffer
        have hdoc : b'.document = d := by
          simpa [document?, hb] using hd
        subst hdoc
        exact ⟨d', by simp, by simpa [accepted] using .cons happly .nil⟩
      · exact ⟨d, by simp [hbuffer, hd], by
          simpa [accepted, hbuffer] using .nil⟩

/-- The batches a document took in a round lead from what it was to what
it is. -/
theorem Round.replays (h : Round plans agenda ws story result)
    {d : Document} (hd : ws.document? b = some d) :
    ∃ d', result.2.document? b = some d'
      ∧ Replays d (accepted b story) d' := by
  induction h generalizing d with
  | done => exact ⟨d, hd, .nil⟩
  | fails hon => exact ⟨d, ((deliver_frame hon).1 b).trans hd, .nil⟩
  | refused hon => exact ⟨d, ((deliver_frame hon).1 b).trans hd, .nil⟩
  | goesOn hon hplan hrest ih =>
      obtain ⟨d', hd', h'⟩ := ih (((deliver_frame hon).1 b).trans hd)
      exact ⟨d', hd', h'⟩
  | nests hon hplan hbatch hrest ih =>
      obtain ⟨d₁, hd₁, h₁⟩ :=
        hbatch.replays (((deliver_frame hon).1 b).trans hd)
      obtain ⟨d₂, hd₂, h₂⟩ := ih hd₁
      refine ⟨d₂, hd₂, ?_⟩
      rw [accepted_called, accepted_append]
      exact h₁.append h₂

/-- The batches a document took in a run of edits lead from what it was
to what it is. -/
theorem Edits.replays (h : Edits edits ws story ws') {d : Document}
    (hd : ws.document? b = some d) :
    ∃ d', ws'.document? b = some d' ∧ Replays d (accepted b story) d' := by
  induction h generalizing d with
  | nil => exact ⟨d, hd, .nil⟩
  | refused happly hrest ih => exact ih hd
  | taken hbatch hround hrest ih =>
      obtain ⟨d₁, hd₁, h₁⟩ := hbatch.replays hd
      obtain ⟨d₂, hd₂, h₂⟩ := hround.replays hd₁
      obtain ⟨d₃, hd₃, h₃⟩ := ih hd₂
      refine ⟨d₃, hd₃, ?_⟩
      rw [accepted_append, accepted_append]
      exact (h₁.append h₂).append h₃

end Relex.Workspace
