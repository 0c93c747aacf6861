/-
Disposing of a controller is final.

What is left of a controller that was disposed of has no tokenizer and no
cache, and is not registered. Nothing a host does later gives it anything
back, since each way of changing a controller either asks for a tokenizer,
or refuses the disposed, or takes away what is gone already
(`stable_dropped`). And as long as that is so, nothing that is asked of
the controller has any effect, or any answer (`Unresponsive`).

It can still be called: the deliveries of a round are settled when the
round starts, and so one may be on its way to a controller that a listener
in front of it has disposed of. Such a call does nothing either, so the
round goes on as if it were not there (`deliverAll_filter`), and the
others hear of what they are to hear of.

Nor is any other listener taken off a list when a controller is disposed
of. That depends on whose registration it is that the controller has. In a
workspace that was empty once it is the controller's own, if there is one
(`stable_enrolled`).
-/
import Mathlib
import Relex.Proofs.Workspace.Deeds
import Relex.Proofs.Workspace.Standing

namespace Relex.Workspace

variable {ws ws' : Workspace} {c b : Nat} {k : Controller}
  {plans : List Plan} {agenda : List Delivery}

-- ====================================================== staying disposed

theorem applyBatch_frame {changes applied : List Change}
    {nested : List Delivery}
    (happly : ws.applyBatch b changes = .ok (applied, nested, ws')) :
    ws'.controllers = ws.controllers
      ∧ ws'.registrations = ws.registrations := by
  have hbatch := batch_taking happly
  generalize ws.taking b applied = taking at hbatch
  cases hbatch <;> exact ⟨rfl, rfl⟩

/-- What does not change the remains of a controller leaves them as they
are. -/
theorem dropped_modify {i : Nat} {f : Controller → Controller}
    (h : ws.controllers[c]? = some k.dropped)
    (hf : i = c → f k.dropped = k.dropped) :
    (ws.modifyController i f).controllers[c]? = some k.dropped := by
  show (ws.controllers.modify i f)[c]? = _
  rw [List.getElem?_modify, h]
  by_cases hi : i = c
  · simp [hi, hf hi]
  · simp [hi]

/-- Whatever hosts do, what was disposed of stays so. -/
theorem stable_dropped (c : Nat) (k : Controller) :
    Stable fun ws => ws.controllers[c]? = some k.dropped where
  notes := fun ws ws' _ hc _ h => hc ▸ h
  addBuffer := fun ws d h => h
  applyBatch := fun ws b changes applied nested ws' h happly =>
    (applyBatch_frame happly).1 ▸ h
  subscribe := fun ws b w h => h
  unsubscribe := fun ws i h => (controllers_unsubscribe ws i).symm ▸ h
  withNew := by
    intro ws buffer t listens h
    have hlt := (List.getElem?_eq_some_iff.1 h).1
    cases listens <;> exact (List.getElem?_append_left hlt).trans h
  leave := by
    intro ws i k' t bench hk ht h
    refine dropped_modify h fun hi => ?_
    -- it has no tokenizer to work with
    subst hi
    obtain rfl := Option.some.inj (hk.symm.trans h)
    cases ht
  clear := fun ws i h => dropped_modify h fun _ => rfl
  give := by
    intro ws i k' t hk hlive h
    refine dropped_modify h fun hi => ?_
    subst hi
    obtain rfl := Option.some.inj (hk.symm.trans h)
    cases hlive
  drop := fun ws i h => dropped_modify h fun _ => rfl

theorem controllers_retire_self (hk : ws.controllers[c]? = some k) :
    (ws.retire c).controllers[c]? = some k.dropped := by
  rw [controllers_retire, hk, Option.map_some, if_pos rfl]

-- ========================================================= no response

/-- Whatever is asked of the controller has no effect and no answer. -/
structure Unresponsive (ws : Workspace) (c : Nat) : Prop where
  build : (Workspace.build c).on ws = (.ok (), ws)
  rebuild : (Workspace.rebuild c).on ws = (.ok (), ws)
  equip : ∀ t, (Workspace.equip c t).on ws = (.ok (), ws)
  retokenize : ∀ line,
    (Workspace.retokenize c line).on ws = (.ok ([], false), ws)
  mendRange : ∀ r, (Workspace.mendRange c r).on ws = (.ok 0, ws)
  mendBatch : ∀ changes,
    (Workspace.mendBatch c changes).on ws = (.ok (), ws)
  lookup : ∀ p, (Workspace.lookup c p).on ws = (.ok none, ws)
  lookupLine : ∀ line,
    (Workspace.lookupLine c line).on ws = (.ok none, ws)
  retire : ws.retire c = ws
  deliver : ∀ b changes,
    (Workspace.deliver ⟨.controller c, b, changes⟩).on ws = (.ok (), ws)

theorem whenReady_of_dropped {α : Type}
    (h : ws.controllers[c]? = some k.dropped) (answer : α)
    (work : Document → Engine → Work α) :
    (whenReady c answer work).on ws = (.ok answer, ws) := by
  cases hseat : ws.seat? c with
  | none => exact whenReady_of_no_seat hseat
  | some seat =>
      obtain ⟨k', d⟩ := seat
      obtain rfl :=
        Option.some.inj (h.symm.trans (seat?_eq_some.1 hseat).1)
      exact whenReady_of_inert hseat rfl

/-- Work that needs an engine to do anything does nothing. -/
theorem whenAttached_of_dropped {α : Type}
    (h : ws.controllers[c]? = some k.dropped) {answer : α}
    {work : Document → Option Engine → Work α}
    (hwork : ∀ d b, (work d none).on b = (.ok answer, b)) :
    (whenAttached c answer work).on ws = (.ok answer, ws) := by
  unfold whenAttached
  rw [Act.on_bind, Act.on_get]
  dsimp only
  cases hseat : ws.seat? c with
  | none => rfl
  | some seat =>
      obtain ⟨k', d⟩ := seat
      obtain rfl :=
        Option.some.inj (h.symm.trans (seat?_eq_some.1 hseat).1)
      show (((work d none).on ⟨k.dropped.cache, ws.trace⟩).1,
        ws.leave c ((work d none).on ⟨k.dropped.cache, ws.trace⟩).2) = _
      rw [hwork, leave_self h]

/-- What was disposed of does not respond. -/
theorem unresponsive_of_dropped
    (h : ws.controllers[c]? = some k.dropped) : ws.Unresponsive c where
  build := whenReady_of_dropped h () Reparse.build
  rebuild := by
    unfold Workspace.rebuild
    rw [Act.on_bind, Act.on_modify, modifyController_self h rfl]
    exact whenReady_of_dropped h () Reparse.build
  equip := by
    intro t
    unfold Workspace.equip
    rw [Act.on_bind, Act.on_get]
    dsimp only
    rw [h]
    rfl
  retokenize := fun line => whenReady_of_dropped h _ _
  mendRange := fun r => whenReady_of_dropped h _ _
  mendBatch := by
    intro changes
    unfold Workspace.mendBatch
    rw [Act.on_bind, Act.on_get]
    exact whenReady_of_dropped h _ _
  lookup := by
    intro p
    unfold Workspace.lookup
    rw [Act.on_bind, Act.on_get]
    exact whenAttached_of_dropped h fun d b => rfl
  lookupLine := fun line => whenAttached_of_dropped h fun d b => rfl
  retire := by
    unfold Workspace.retire
    rw [h]
    exact modifyController_self h rfl
  deliver := by
    intro b changes
    show (callController c b changes).on ws = _
    unfold callController
    rw [Act.on_bind, Act.on_get]
    dsimp only
    rw [h]
    rfl

-- ====================================================== rounds under way

/-- Is the delivery for somebody else? -/
def Delivery.passes (c : Nat) (d : Delivery) : Bool :=
  d.listener ≠ .controller c

theorem Delivery.length_of_plan? {d : Delivery} {plan : Plan}
    {left : List Plan} (h : d.plan? plans = some (plan, left)) :
    plans.length = left.length + 1 := by
  obtain ⟨listener, buffer, changes⟩ := d
  cases listener with
  | controller i => cases h
  | watcher w => exact Plan.length_of_take? h

/-- A call of a controller that was disposed of may be left out. -/
theorem deliverAll_skip (h : ws.controllers[c]? = some k.dropped)
    {d : Delivery} (hd : ¬d.passes c) :
    deliverAll plans (d :: agenda) ws = deliverAll plans agenda ws := by
  obtain ⟨listener, buffer, changes⟩ := d
  obtain rfl : listener = .controller c := by
    simpa [Delivery.passes] using hd
  exact deliverAll_of_none _
    ((unresponsive_of_dropped h).deliver buffer changes) rfl

/-- A round goes on as if a controller that was disposed of were not to be
called. -/
theorem deliverAll_filter (h : ws.controllers[c]? = some k.dropped) :
    deliverAll plans agenda ws
      = deliverAll plans (agenda.filter (·.passes c)) ws := by
  have hstable := stable_dropped c k
  -- a nested round puts new calls in front, but leaves fewer plans
  induction hn : plans.length using Nat.strong_induction_on
    generalizing plans agenda ws with
  | h n ihn =>
  induction agenda generalizing ws with
  | nil => rfl
  | cons d rest ih =>
      by_cases hd : d.passes c
      · have hkept := hstable.deliver d ws h
        rw [List.filter_cons_of_pos hd]
        rcases hon : (deliver d).on ws with ⟨fault | ⟨⟩, ws'⟩
        · rw [deliverAll_of_error _ hon, deliverAll_of_error _ hon]
        · rw [hon] at hkept
          cases hplan : d.plan? plans with
          | none =>
              rw [deliverAll_of_none _ hon hplan,
                deliverAll_of_none _ hon hplan]
              exact ih hkept
          | some taken =>
              obtain ⟨plan, left⟩ := taken
              have hfewer : left.length < n := by
                have := Delivery.length_of_plan? hplan
                omega
              rw [deliverAll_of_some _ hon hplan,
                deliverAll_of_some _ hon hplan]
              cases happly : ws'.applyBatch plan.buffer plan.changes with
              | error e => rfl
              | ok taken =>
                  obtain ⟨applied, nested, ws''⟩ := taken
                  have hkept' :=
                    hstable.applyBatch ws' _ _ _ _ _ hkept happly
                  have hnested : ∀ agenda, deliverAll left agenda ws''
                      = deliverAll left (agenda.filter (·.passes c)) ws'' :=
                    fun agenda => ihn _ hfewer hkept' rfl
                  dsimp only
                  rw [hnested, hnested (nested ++ _), List.filter_append,
                    List.filter_append, List.filter_filter]
                  simp only [Bool.and_self]
      · rw [List.filter_cons_of_neg hd, deliverAll_skip h hd]
        exact ih h

-- ========================================================== the others

/-- A controller's registration, if it has one, is its own. -/
def Enrolled (ws : Workspace) : Prop :=
  ∀ (c : Nat) (k : Controller) (r : Nat), ws.controllers[c]? = some k →
    k.registration = some r →
    (ws.registrations[r]?).map (·.listener) = some (.controller c)

theorem enrolled_empty : Workspace.empty.Enrolled :=
  fun _ _ _ hk => by cases hk

/-- Disposing of a registration does not change whose it was. -/
theorem listener_unsubscribe (ws : Workspace) (i j : Nat) :
    ((ws.unsubscribe i).registrations[j]?).map (·.listener)
      = (ws.registrations[j]?).map (·.listener) := by
  unfold unsubscribe
  cases hs : ws.registrations[i]? with
  | none => rfl
  | some s =>
      dsimp only
      split
      · show ((ws.registrations.set i _)[j]?).map _ = _
        by_cases hij : i = j
        · subst hij
          have hlt := (List.getElem?_eq_some_iff.1 hs).1
          rw [List.getElem?_set_self hlt, hs]
          rfl
        · rw [List.getElem?_set_ne hij]
      · rfl

theorem Enrolled.modify (h : ws.Enrolled) (i : Nat)
    {f : Controller → Controller}
    (hf : ∀ k r, (f k).registration = some r → k.registration = some r) :
    (ws.modifyController i f).Enrolled := by
  intro c k' r hk' hr
  have hk' : (ws.controllers.modify i f)[c]? = some k' := hk'
  rw [List.getElem?_modify] at hk'
  obtain ⟨k, hk, rfl⟩ := Option.map_eq_some_iff.1 hk'
  split at hr
  · exact h c k r hk (hf k r hr)
  · exact h c k r hk hr

/-- The registrations that are there keep their listeners when another is
added. -/
theorem Enrolled.concat (h : ws.Enrolled) {c r : Nat} {k : Controller}
    (hk : ws.controllers[c]? = some k) (hr : k.registration = some r)
    (s : Registration) :
    ((ws.registrations ++ [s])[r]?).map (·.listener)
      = some (.controller c) := by
  have hown := h c k r hk hr
  obtain ⟨s', hs', -⟩ := Option.map_eq_some_iff.1 hown
  rw [List.getElem?_append_left (List.getElem?_eq_some_iff.1 hs').1]
  exact hown

theorem stable_enrolled : Stable Enrolled where
  notes := fun ws ws' _ hc hr h => by
    unfold Enrolled
    rw [hc, hr]
    exact h
  addBuffer := fun ws d h => h
  applyBatch := fun ws b changes applied nested ws' h happly => by
    obtain ⟨hc, hr⟩ := applyBatch_frame happly
    unfold Enrolled
    rw [hc, hr]
    exact h
  subscribe := fun ws b w h c k r hk hr => h.concat hk hr _
  unsubscribe := fun ws i h c k r hk hr => by
    rw [controllers_unsubscribe] at hk
    rw [listener_unsubscribe]
    exact h c k r hk hr
  withNew := by
    intro ws buffer t listens h c k r hk hr
    cases listens with
    | false =>
        rcases getElem?_concat_eq_some hk with hk | ⟨-, rfl⟩
        · exact h c k r hk hr
        · cases hr
    | true =>
        rcases getElem?_concat_eq_some hk with hk | ⟨rfl, rfl⟩
        · exact h.concat hk hr _
        · obtain rfl := Option.some.inj hr
          exact congrArg (Option.map _) List.getElem?_concat_length
  leave := fun ws i k t bench _ _ h => by
    have hcache : (ws.modifyController i fun k =>
        { k with cache := bench.cache }).Enrolled :=
      h.modify i fun _ _ hr => hr
    exact hcache
  clear := fun ws i h => h.modify i fun _ _ hr => hr
  give := fun ws i k t _ _ h => h.modify i fun _ _ hr => hr
  drop := fun ws i h => h.modify i fun _ _ hr => by cases hr

/-- Who else listens to a buffer, in order. -/
def others (ws : Workspace) (c b : Nat) : Option (List Listener) :=
  (ws.buffers[b]?).map fun buffer =>
    buffer.listeners.filter (· ≠ .controller c)

/-- Disposing of a controller's own registration takes nobody else off a
list. -/
theorem others_unsubscribe {r : Nat} (b : Nat)
    (hown : (ws.registrations[r]?).map (·.listener)
      = some (.controller c)) :
    (ws.unsubscribe r).others c b = ws.others c b := by
  obtain ⟨s, hs, hl⟩ := Option.map_eq_some_iff.1 hown
  unfold unsubscribe others
  rw [hs]
  dsimp only
  split
  · rw [List.getElem?_modify]
    cases ws.buffers[b]? with
    | none => rfl
    | some buffer =>
        by_cases hb : s.buffer = b
        · simp [hb, hl, ← List.erase_filter]
        · simp [hb]
  · rfl

theorem others_retire (h : ws.Enrolled) (c b : Nat) :
    (ws.retire c).others c b = ws.others c b := by
  refine retire_keeps (P := fun ws' => ws'.others c b = ws.others c b) rfl
    ?_ fun _ h => h
  intro k' r hk' hr
  exact others_unsubscribe b (h c k' r hk' hr)

-- ========================================================= the theorem

/-- A controller of a workspace in which any deeds were done, possibly
with a round of notifications under way. When it is disposed of, no other
listener is taken off a list. From then on, whatever deeds are done, among
them what is left of that round, it has no tokenizer and an empty cache,
and whatever is asked of it has no effect and no answer: in particular no
engine is called. Rounds go on as if it were not to be called. And unless
somebody fails, every listener hears of what was on its way to it, and of
each batch that a document takes while the listener is listed. -/
theorem disposal_is_final (before deeds : List Deed)
    (hws : afterDeeds before empty = ws)
    (hk : ws.controllers[c]? = some k)
    (hws' : afterDeeds deeds (ws.retire c) = ws') :
    (∀ b, (ws.retire c).others c b = ws.others c b)
      ∧ ws'.controllers[c]? = some k.dropped
      ∧ ws'.Unresponsive c
      ∧ (∀ plans agenda,
        deliverAll plans agenda ws'
            = deliverAll plans (agenda.filter (·.passes c)) ws'
          ∧ (Smooth (roundHistory plans agenda ws') → ∀ l b,
            (heard l b (roundHistory plans agenda ws')).Perm
              (awaited l b agenda
                ++ owed l b (roundHistory plans agenda ws'))))
      ∧ ∀ edits, Smooth (history edits ws') → ∀ l b,
        (heard l b (history edits ws')).Perm
          (owed l b (history edits ws')) := by
  have henrolled : ws.Enrolled :=
    hws ▸ stable_enrolled.afterDeeds enrolled_empty before
  have hdropped : ws'.controllers[c]? = some k.dropped :=
    hws' ▸ (stable_dropped c k).afterDeeds (controllers_retire_self hk)
      deeds
  refine ⟨others_retire henrolled c, hdropped,
    unresponsive_of_dropped hdropped, fun plans agenda =>
      ⟨deliverAll_filter hdropped, fun hs l b => ?_⟩, fun edits hs l b => ?_⟩
  · exact (round_roundHistory plans agenda ws').heard_owed hs
  · exact (edits_history edits ws').heard_owed hs

/-- A batch that takes the first character out, and one that puts one
in. -/
def removed : List Change := [⟨⟨⟨0, 0⟩, ⟨0, 1⟩⟩, []⟩]

def inserted : List Change := [⟨⟨⟨0, 0⟩, ⟨0, 0⟩⟩, "x".toList⟩]

/-- What is told of the batch in the round that tells of it. -/
def told (listener : Listener) : Delivery := ⟨listener, 0, removed⟩

/-- Two watchers listen to a document, with a controller between them. -/
def seating : List Deed := [
  .addBuffer (.new "untitled:document" "plaintext" "\x7b\na".toList),
  .addWatcher ⟨"first", []⟩, .addWatcher ⟨"last", []⟩,
  .subscribe 0 0, .attach 0 (some ⟨0, .depth⟩) true, .subscribe 0 1]

/-- The first of the three has just been told of a batch. -/
def interrupted : Workspace :=
  afterDeeds (seating ++ [.take 0 removed, .tell [told (.watcher 0)]]) empty

/-- What happens once the controller is disposed of: it is called all the
same, and it is offered a tokenizer. -/
def aftermath : Workspace :=
  afterDeeds [.tell [told (.controller 0)],
    .equip 0 (some ⟨1, .depth⟩)] (interrupted.retire 0)

theorem disposal_is_final_interrupted :
    (Deed.edit 0 removed).after (afterDeeds seating empty)
        = (Deed.tell [told (.controller 0), told (.watcher 1)]).after
          interrupted
      ∧ (interrupted.retire 0).others 0 0 = interrupted.others 0 0
      ∧ (lookup 0 ⟨0, 0⟩).on aftermath = (.ok none, aftermath)
      ∧ heard (.watcher 1) 0 (roundHistory [] [told (.watcher 1)] aftermath)
        = [removed]
      ∧ heard (.watcher 1) 0 (history [(0, inserted)] aftermath)
        = [inserted] := by
  have hk : interrupted.controllers[0]? = some ⟨0, some ⟨0, .depth⟩,
      ⟨[some (.number 1), some (.number 1)]⟩, some 1, false⟩ := by cbv
  obtain ⟨hothers, -, hnothing, hround, hedits⟩ :=
    disposal_is_final _ _ rfl hk (rfl : _ = aftermath)
  have hagenda : ((afterDeeds seating empty).applyBatch 0 removed).map
      (·.2.1) = .ok ([told (.watcher 0)]
        ++ [told (.controller 0), told (.watcher 1)]) := by cbv
  have hrest : roundHistory [] [told (.watcher 1)] aftermath
      = [.called (told (.watcher 1))] := by cbv
  have hlater : history [(0, inserted)] aftermath
      = [.applied 0 inserted [.watcher 0, .watcher 1],
        .called ⟨.watcher 0, 0, inserted⟩,
        .called ⟨.watcher 1, 0, inserted⟩] := by cbv
  have htold := (hround [] [told (.watcher 1)]).2
    (by simp [hrest, Smooth]) (.watcher 1) 0
  have hheard := hedits [(0, inserted)] (by simp [hlater, Smooth])
    (.watcher 1) 0
  refine ⟨?_, hothers 0, hnothing.lookup ⟨0, 0⟩, ?_, ?_⟩
  · exact after_edit hagenda (by cbv)
  · rw [hrest] at htold ⊢
    exact List.perm_singleton.1 htold
  · rw [hlater] at hheard ⊢
    exact List.perm_singleton.1 hheard

end Relex.Workspace
