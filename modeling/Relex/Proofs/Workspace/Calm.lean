/-
What may go on around a controller without its noticing.

A controller stands at a place: in a buffer, under its own number, with
one registration. It is calm around it (`Calm`) as long as it is
registered, nobody disposes of that registration, and no other listener
fails. Other listeners may do what they like otherwise: note what they
see, register others, dispose of other registrations, mend caches of
their own.

`Undisturbed` says of two workspaces that nothing the controller goes by
has changed from one to the other: its document, the controller itself
with its cache and tokenizer, and the configuration; and that calm has
lasted. Calls of other listeners leave the controller undisturbed
(`deliver_foreign`), and so do rounds of notifications with no call for
it, nested ones included (`deliverAll_foreign`).
-/
import Relex.Proofs.Realigning
import Relex.Proofs.Workspace.Keeping

namespace Relex.Workspace

-- =============================================================== calm

/-- Where a controller stands: its buffer, its number, and the number of
its registration; and whether there may be strict mode. -/
structure Place where
  buffer : Nat
  controller : Nat
  registration : Nat
  strict : Bool

/-- Nothing comes between a controller and the batches of its document:
it is registered once, and no other listener fails or unregisters it.
Other controllers do not fail unless their engines do, in strict mode. -/
structure Calm (ws : Workspace) (p : Place) : Prop where
  listed : ∀ b, ws.buffers[p.buffer]? = some b →
    b.listeners.count (.controller p.controller) = 1
  registered : ∀ i s, ws.registrations[i]? = some s →
    s.listener = .controller p.controller → i = p.registration
  seated : ∀ k, ws.controllers[p.controller]? = some k →
    k.buffer = p.buffer ∧ k.disposed = false
  habits : ∀ w ∈ ws.watchers, ∀ habit ∈ w.habits,
    habit ≠ .dispose p.registration ∧ ∀ words, habit ≠ .fail words
  total : p.strict = true → ∀ i k t, ws.controllers[i]? = some k →
    i ≠ p.controller → k.tokenizer = some t → t.engine.Total
  lenient : ws.config.active.isStrict = true → p.strict = true

/-- What a controller goes by is the same in both workspaces, and it is
calm around it in the second if it was in the first. -/
structure Undisturbed (p : Place) (ws ws' : Workspace) : Prop where
  document : ws'.document? p.buffer = ws.document? p.buffer
  controller : ws'.controllers[p.controller]?
    = ws.controllers[p.controller]?
  config : ws'.config = ws.config
  calm : ws.Calm p → ws'.Calm p

variable {ws ws' ws'' : Workspace} {p : Place}

namespace Undisturbed

theorem refl (p : Place) (ws : Workspace) : Undisturbed p ws ws :=
  ⟨rfl, rfl, rfl, id⟩

theorem trans (h : Undisturbed p ws ws') (h' : Undisturbed p ws' ws'') :
    Undisturbed p ws ws'' :=
  ⟨h'.document.trans h.document, h'.controller.trans h.controller,
    h'.config.trans h.config, h'.calm ∘ h.calm⟩

/-- What is noted down, and which plans are left, disturbs nobody. -/
theorem of_notes (p : Place) (ws : Workspace) (plans : List Plan)
    (trace : Trace) (sightings : List Sighting) :
    Undisturbed p ws { ws with plans, trace, sightings } :=
  ⟨rfl, rfl, rfl, fun h =>
    ⟨h.listed, h.registered, h.seated, h.habits, h.total, h.lenient⟩⟩

end Undisturbed

-- ====================================================== registrations

/-- The buffer with its listeners changed. -/
def relist (f : List Listener → List Listener) (b : Buffer) : Buffer :=
  { b with listeners := f b.listeners }

theorem document_relist (buffers : List Buffer) (i j : Nat)
    (f : List Listener → List Listener) :
    ((buffers.modify i (relist f))[j]?).map (·.document)
      = (buffers[j]?).map (·.document) := by
  rw [List.getElem?_modify]
  cases buffers[j]? with
  | none => rfl
  | some b =>
      show some (if i = j then relist f b else b).document = _
      split <;> rfl

/-- Changing a buffer's listeners disturbs no controller that stays
listed as often as it was. -/
theorem Undisturbed.of_relist (ws : Workspace) (i : Nat)
    {f : List Listener → List Listener}
    {registrations : List Registration}
    (hf : ∀ ls : List Listener, (f ls).count (.controller p.controller)
      = ls.count (.controller p.controller))
    (hr : ∀ (i : Nat) (s : Registration), registrations[i]? = some s →
      s.listener = .controller p.controller →
      ∃ s', ws.registrations[i]? = some s' ∧ s'.listener = s.listener) :
    Undisturbed p ws { ws with
      buffers := ws.buffers.modify i (relist f), registrations } := by
  refine ⟨document_relist ws.buffers i p.buffer f, rfl, rfl, fun h =>
    ⟨?_, ?_, h.seated, h.habits, h.total,
      h.lenient⟩⟩
  · intro b hb
    dsimp only at hb
    rw [List.getElem?_modify] at hb
    obtain ⟨b', hb', rfl⟩ := Option.map_eq_some_iff.1 hb
    split
    · exact (hf b'.listeners).trans (h.listed b' hb')
    · exact h.listed b' hb'
  · intro i s hs hl
    obtain ⟨s', hs', hl'⟩ := hr i s hs hl
    exact h.registered i s' hs' (hl'.trans hl)

/-- What is in a list that was added to was in it before, or is what was
added. -/
theorem getElem?_concat_eq_some {α : Type} {l : List α} {a b : α} {i : Nat}
    (h : (l ++ [a])[i]? = some b) :
    l[i]? = some b ∨ i = l.length ∧ b = a := by
  rw [List.getElem?_append] at h
  by_cases hi : i < l.length
  · rw [if_pos hi] at h
    exact .inl h
  · rw [if_neg hi] at h
    obtain ⟨hlt, hb⟩ := List.getElem?_eq_some_iff.1 h
    rw [List.length_singleton] at hlt
    rw [List.getElem_singleton] at hb
    exact .inr ⟨by omega, hb.symm⟩

/-- Registering a watcher disturbs no controller. -/
theorem undisturbed_subscribe (ws : Workspace) (buffer watcher : Nat) :
    Undisturbed p ws (ws.subscribe buffer (.watcher watcher)).2 := by
  refine Undisturbed.of_relist ws buffer (f := (· ++ [.watcher watcher]))
    ?_ ?_
  · intro ls
    have hnone : [Listener.watcher watcher].count
        (.controller p.controller) = 0 :=
      List.count_eq_zero_of_not_mem (by simp)
    rw [List.count_append, hnone, Nat.add_zero]
  · intro i s hs hl
    rcases getElem?_concat_eq_some hs with hs | ⟨-, rfl⟩
    · exact ⟨s, hs, rfl⟩
    · cases hl

/-- Disposing of another registration disturbs no controller. -/
theorem undisturbed_unsubscribe (h : ws.Calm p) {i : Nat}
    (hi : i ≠ p.registration) : Undisturbed p ws (ws.unsubscribe i) := by
  unfold unsubscribe
  cases hs : ws.registrations[i]? with
  | none => exact .refl p ws
  | some s =>
      dsimp only
      have hother : s.listener ≠ .controller p.controller :=
        fun hl => hi (h.registered i s hs hl)
      split
      · refine Undisturbed.of_relist ws s.buffer (f := (·.erase s.listener))
          (fun ls => List.count_erase_of_ne hother.symm) ?_
        intro j s' hs' _
        rw [List.getElem?_set] at hs'
        split at hs'
        · next hij =>
          split at hs'
          · obtain rfl := Option.some.inj hs'
            exact ⟨s, hij ▸ hs, rfl⟩
          · cases hs'
        · exact ⟨s', hs', rfl⟩
      · exact .refl p ws

-- ============================================================== caches

/-- The workspace with a controller's cache, and the trace, as a bench
holds them. -/
def leave (ws : Workspace) (controller : Nat) (bench : Bench) :
    Workspace :=
  { ws.modifyController controller
      fun k => { k with cache := bench.cache } with trace := bench.trace }

theorem seat?_eq {controller : Nat} {k : Controller}
    (hk : ws.controllers[controller]? = some k) :
    ws.seat? controller
      = (ws.document? k.buffer).map fun d => (k, d) := by
  unfold seat?
  rw [hk]
  show (ws.document? k.buffer >>= _) = _
  cases ws.document? k.buffer <;> rfl

theorem seat?_eq_some {controller : Nat} {k : Controller}
    {d : Document} :
    ws.seat? controller = some (k, d)
      ↔ ws.controllers[controller]? = some k
        ∧ ws.document? k.buffer = some d := by
  cases hk : ws.controllers[controller]? with
  | none =>
      have hnone : ws.seat? controller = none := by
        unfold seat?
        rw [hk]
        rfl
      rw [hnone]
      simp
  | some k' =>
      rw [seat?_eq hk]
      cases hd : ws.document? k'.buffer with
      | none =>
          simp only [Option.map_none, Option.some.injEq, reduceCtorEq,
            false_iff, not_and]
          rintro rfl
          rw [hd]
          simp
      | some d' =>
          simp only [Option.map_some, Option.some.injEq, Prod.mk.injEq]
          constructor
          · rintro ⟨rfl, rfl⟩
            exact ⟨rfl, hd⟩
          · rintro ⟨rfl, h⟩
            rw [hd] at h
            exact ⟨rfl, Option.some.inj h⟩

theorem seat?_leave {controller : Nat} {k : Controller} {d : Document}
    (h : ws.seat? controller = some (k, d)) (bench : Bench) :
    (ws.leave controller bench).seat? controller
      = some ({ k with cache := bench.cache }, d) := by
  obtain ⟨hk, hd⟩ := seat?_eq_some.1 h
  refine seat?_eq_some.2 ⟨?_, hd⟩
  show (ws.controllers.modify controller _)[controller]? = _
  rw [List.getElem?_modify_eq, hk]
  rfl

section

variable {α : Type} {controller : Nat} {answer : α}
  {work : Document → Engine → Work α}

theorem whenReady_of_no_seat (h : ws.seat? controller = none) :
    (whenReady controller answer work).on ws = (.ok answer, ws) := by
  unfold whenReady
  rw [Act.on_bind, Act.on_get]
  dsimp only
  rw [h]
  rfl

/-- Without a tokenizer a controller does no work. -/
theorem whenReady_of_inert {k : Controller} {d : Document}
    (h : ws.seat? controller = some (k, d)) (ht : k.tokenizer = none) :
    (whenReady controller answer work).on ws = (.ok answer, ws) := by
  unfold whenReady Controller.engine?
  rw [Act.on_bind, Act.on_get]
  dsimp only
  rw [h]
  dsimp only
  rw [ht]
  rfl

/-- With a tokenizer a controller works on its cache. -/
theorem whenReady_of_ready {k : Controller} {d : Document}
    {t : Engine.Tokenizer} (h : ws.seat? controller = some (k, d))
    (ht : k.tokenizer = some t) :
    (whenReady controller answer work).on ws
      = (((work d t.engine).on ⟨k.cache, ws.trace⟩).1,
        ws.leave controller ((work d t.engine).on ⟨k.cache, ws.trace⟩).2)
    := by
  unfold whenReady Controller.engine?
  rw [Act.on_bind, Act.on_get]
  dsimp only
  rw [h]
  dsimp only
  rw [ht]
  rfl

end

/-- Whether mending after a batch is strict is up to the active
configuration. -/
theorem mendBatch_on (ws : Workspace) (controller : Nat)
    (changes : List Change) :
    (mendBatch controller changes).on ws
      = (whenReady controller () fun d engine => Reparse.mendBatch d engine
          ws.config.active.isStrict changes).on ws := by
  unfold mendBatch
  rw [Act.on_bind, Act.on_get]

/-- A controller that is called for its own buffer mends its cache. -/
theorem deliver_controller {controller : Nat} {k : Controller}
    (hk : ws.controllers[controller]? = some k)
    (hlive : k.disposed = false) (changes : List Change) :
    (deliver ⟨.controller controller, k.buffer, changes⟩).on ws
      = (mendBatch controller changes).on ws := by
  show (callController controller k.buffer changes).on ws = _
  unfold callController
  rw [Act.on_bind, Act.on_get]
  dsimp only
  rw [hk]
  dsimp only
  rw [if_neg (by simp [hlive])]

/-- Changing another controller disturbs no controller, unless the other
one gets an engine that may fail. -/
theorem undisturbed_modify (ws : Workspace) {i : Nat}
    (hi : i ≠ p.controller) {f : Controller → Controller}
    (hf : ∀ k t, (f k).tokenizer = some t →
      k.tokenizer = some t ∨ t.engine.Total) :
    Undisturbed p ws (ws.modifyController i f) := by
  have hget : ∀ j : Nat, (ws.modifyController i f).controllers[j]?
      = (ws.controllers[j]?).map fun k => if i = j then f k else k :=
    fun j => List.getElem?_modify ..
  have hself : (ws.modifyController i f).controllers[p.controller]?
      = ws.controllers[p.controller]? := by
    rw [hget]
    simp [hi]
  refine ⟨rfl, hself, rfl, fun h => ⟨h.listed, h.registered,
    fun k hk => h.seated k (hself ▸ hk), h.habits, ?_, h.lenient⟩⟩
  intro hs j k t hk hj ht
  rw [hget] at hk
  obtain ⟨k', hk', rfl⟩ := Option.map_eq_some_iff.1 hk
  split at ht
  · rcases hf k' t ht with ht | ht
    · exact h.total hs j k' t hk' hj ht
    · exact ht
  · exact h.total hs j k' t hk' hj ht

/-- Work on another controller's cache disturbs no controller. -/
theorem undisturbed_leave (ws : Workspace) {i : Nat}
    (hi : i ≠ p.controller) (bench : Bench) :
    Undisturbed p ws (ws.leave i bench) := by
  have hcache := undisturbed_modify ws hi
    (f := fun k => { k with cache := bench.cache }) fun _ _ ht => .inl ht
  exact hcache.trans (.of_notes p _ ws.plans bench.trace ws.sightings)

-- =============================================================== calls

/-- A delivery that is not for the controller at a place, of changes that
are not malformed. -/
structure Delivery.Foreign (d : Delivery) (p : Place) : Prop where
  other : d.listener = .controller p.controller → d.buffer ≠ p.buffer
  isValid : ∀ change ∈ d.changes, change.range.IsValid

/-- A watcher follows its habits without disturbing the controller. -/
theorem follow_calm (h : ws.Calm p) (buffer : Nat) {habits : List Habit}
    (hh : ∀ habit ∈ habits, habit ≠ .dispose p.registration
      ∧ ∀ words, habit ≠ .fail words) :
    ∃ ws', (habits.forM (follow buffer)).on ws = (.ok (), ws')
      ∧ Undisturbed p ws ws' := by
  induction habits generalizing ws with
  | nil => exact ⟨ws, rfl, .refl p ws⟩
  | cons habit rest ih =>
      obtain ⟨hdispose, hfail⟩ := hh habit (by simp)
      have hfirst : ∃ ws', (follow buffer habit).on ws = (.ok (), ws')
          ∧ Undisturbed p ws ws' := by
        cases habit with
        | dispose i =>
            exact ⟨_, rfl, undisturbed_unsubscribe h fun hi =>
              hdispose (congrArg Habit.dispose hi)⟩
        | subscribe watcher =>
            exact ⟨_, rfl, undisturbed_subscribe ws buffer watcher⟩
        | fail words => exact absurd rfl (hfail words)
      obtain ⟨ws', hon, hfirst⟩ := hfirst
      obtain ⟨ws'', hon', hrest⟩ := ih (hfirst.calm h)
        fun habit hmem => hh habit (by simp [hmem])
      refine ⟨ws'', ?_, hfirst.trans hrest⟩
      rw [List.forM_eq_forM, List.forM_cons, Act.on_bind, hon]
      exact hon'

theorem callWatcher_calm (h : ws.Calm p) (watcher buffer : Nat)
    (changes : List Change) :
    ∃ ws', (callWatcher watcher buffer changes).on ws = (.ok (), ws')
      ∧ Undisturbed p ws ws' := by
  unfold callWatcher
  rw [Act.on_bind, Act.on_get]
  dsimp only
  rw [Act.on_bind, Act.on_get]
  dsimp only
  split
  · next w d hw _ =>
    rw [Act.on_bind, Act.on_modify]
    dsimp only
    have hnoted := Undisturbed.of_notes p ws ws.plans ws.trace
      (ws.sightings ++
        [⟨watcher, buffer, d.version, d.content.text, changes⟩])
    obtain ⟨ws', hon, hhabits⟩ := follow_calm (hnoted.calm h) buffer
      (h.habits w (List.mem_of_getElem? hw))
    exact ⟨ws', hon, hnoted.trans hhabits⟩
  · exact ⟨ws, rfl, .refl p ws⟩

/-- Another controller mends its cache without failing and without
disturbing the one at the place. -/
theorem callController_calm (h : ws.Calm p) {i buffer : Nat}
    {changes : List Change}
    (hd : Delivery.Foreign ⟨.controller i, buffer, changes⟩ p) :
    ∃ ws', (callController i buffer changes).on ws = (.ok (), ws')
      ∧ Undisturbed p ws ws' := by
  unfold callController
  rw [Act.on_bind, Act.on_get]
  dsimp only
  split
  · exact ⟨ws, rfl, .refl p ws⟩
  · next k hk =>
    split
    · exact ⟨ws, rfl, .refl p ws⟩
    · next hcalled =>
      have hi : i ≠ p.controller := by
        rintro rfl
        refine hcalled (.inr ?_)
        intro hbuffer
        exact hd.other rfl (hbuffer.symm.trans (h.seated k hk).1)
      rw [mendBatch_on]
      have hseat := seat?_eq hk
      cases hdoc : ws.document? k.buffer with
      | none =>
          rw [hdoc] at hseat
          exact ⟨ws, whenReady_of_no_seat hseat, .refl p ws⟩
      | some d =>
          rw [hdoc] at hseat
          cases ht : k.tokenizer with
          | none =>
              exact ⟨ws, whenReady_of_inert hseat ht, .refl p ws⟩
          | some t =>
              refine ⟨_, ?_, undisturbed_leave ws hi
                ((Reparse.mendBatch d t.engine ws.config.active.isStrict
                  changes).on ⟨k.cache, ws.trace⟩).2⟩
              rw [whenReady_of_ready hseat ht,
                Reparse.mendBatch_ok (fun hs => h.total (h.lenient hs) i k t
                  hk hi ht) hd.isValid]

/-- Telling others of well-formed changes is not for the controller. -/
theorem foreign_map {listeners : List Listener} {buffer : Nat}
    {changes : List Change}
    (hvalid : ∀ change ∈ changes, change.range.IsValid)
    (hl : .controller p.controller ∉ listeners) :
    ∀ d ∈ listeners.map (fun l =>
      (⟨l, buffer, changes⟩ : Delivery)), d.Foreign p := by
  intro d hd
  obtain ⟨l, hmem, rfl⟩ := List.mem_map.1 hd
  exact ⟨fun he => absurd (he ▸ hmem) hl, hvalid⟩

/-- Calls that are not for a controller do not fail, and leave it
undisturbed. -/
theorem deliver_foreign (h : ws.Calm p) {d : Delivery}
    (hd : d.Foreign p) :
    ∃ ws', (deliver d).on ws = (.ok (), ws') ∧ Undisturbed p ws ws' := by
  obtain ⟨listener, buffer, changes⟩ := d
  cases listener with
  | controller i => exact callController_calm h hd
  | watcher i => exact callWatcher_calm h i buffer changes

-- ============================================================= rounds

/-- A plan for another buffer, of a batch that no document refuses. -/
structure Harmless (plan : Plan) (buffer : Nat) : Prop where
  other : plan.buffer ≠ buffer
  accepted : ∀ d : Document, ∃ r, d.apply plan.changes = .ok r

theorem mem_of_take? {watcher : Nat} {plans left : List Plan}
    {plan : Plan} (h : Plan.take? watcher plans = some (plan, left)) :
    plan ∈ plans ∧ ∀ q ∈ left, q ∈ plans := by
  induction plans generalizing left with
  | nil => cases h
  | cons first rest ih =>
      rw [Plan.take?] at h
      split at h
      · cases h
        exact ⟨List.mem_cons_self .., fun q hq => List.mem_cons_of_mem _ hq⟩
      · obtain ⟨⟨next, left'⟩, htake, he⟩ := Option.map_eq_some_iff.1 h
        cases he
        obtain ⟨hplan, hleft⟩ := ih htake
        refine ⟨List.mem_cons_of_mem _ hplan, ?_⟩
        intro q hq
        rcases List.mem_cons.1 hq with rfl | hq
        · exact List.mem_cons_self ..
        · exact List.mem_cons_of_mem _ (hleft q hq)

theorem mem_of_plan? {d : Delivery} {plans left : List Plan}
    {plan : Plan} (h : d.plan? plans = some (plan, left)) :
    left.length < plans.length ∧ plan ∈ plans ∧ ∀ q ∈ left, q ∈ plans := by
  obtain ⟨listener, buffer, changes⟩ := d
  cases listener with
  | controller i => cases h
  | watcher i =>
      have := Plan.length_of_take? h
      exact ⟨by omega, mem_of_take? h⟩

/-- Another document in the controller's own buffer, with the same
listeners, leaves it calm. -/
theorem Calm.set (h : ws.Calm p) {b : Buffer}
    (hb : ws.buffers[p.buffer]? = some b) (d : Document) :
    Calm { ws with
      buffers := ws.buffers.set p.buffer ⟨d, b.listeners⟩ } p := by
  refine ⟨fun b' hb' => ?_, h.registered, h.seated, h.habits, h.total,
    h.lenient⟩
  have hself : (ws.buffers.set p.buffer ⟨d, b.listeners⟩)[p.buffer]?
      = some ⟨d, b.listeners⟩ :=
    List.getElem?_set_self (List.getElem?_eq_some_iff.1 hb).1
  obtain rfl := Option.some.inj (hself.symm.trans hb')
  exact h.listed b hb

/-- Putting another document into another buffer disturbs no
controller. -/
theorem undisturbed_set (ws : Workspace) {i : Nat} (hi : i ≠ p.buffer)
    (b : Buffer) :
    Undisturbed p ws { ws with buffers := ws.buffers.set i b } := by
  have hget : (ws.buffers.set i b)[p.buffer]? = ws.buffers[p.buffer]? :=
    List.getElem?_set_ne hi
  refine ⟨?_, rfl, rfl, fun h => ⟨?_, h.registered,
    h.seated, h.habits, h.total, h.lenient⟩⟩
  · exact congrArg (Option.map _) hget
  · intro b' hb'
    exact h.listed b' (hget ▸ hb')

/-- A harmless plan is carried out without disturbing the controller, and
the round it starts has no call for it. -/
theorem applyBatch_harmless (ws : Workspace) {plan : Plan}
    (h : Harmless plan p.buffer) :
    ∃ applied nested ws',
      ws.applyBatch plan.buffer plan.changes = .ok (applied, nested, ws')
        ∧ (∀ d ∈ nested, d.Foreign p) ∧ Undisturbed p ws ws' := by
  unfold applyBatch
  cases hb : ws.buffers[plan.buffer]? with
  | none => exact ⟨_, _, _, rfl, by simp, .refl p ws⟩
  | some b =>
      obtain ⟨⟨d, applied⟩, hd⟩ := h.accepted b.document
      dsimp only
      rw [hd]
      refine ⟨_, _, _, rfl, ?_,
        undisturbed_set ws h.other _⟩
      intro delivery hmem
      obtain ⟨listener, -, rfl⟩ := List.mem_map.1 hmem
      exact ⟨fun _ => h.other, Document.isValid_of_apply hd⟩

/-- Deliveries that are not for the controller are made without failing
and without disturbing it, with all rounds they start, before the rest of
the list comes to its turn. -/
theorem deliverAll_foreign {plans : List Plan} {front : List Delivery}
    (h : ws.Calm p) (hplans : ∀ plan ∈ plans, Harmless plan p.buffer)
    (hfront : ∀ d ∈ front, d.Foreign p) (rest : List Delivery) :
    ∃ left ws', Undisturbed p ws ws'
      ∧ (∀ plan ∈ left, Harmless plan p.buffer)
      ∧ deliverAll plans (front ++ rest) ws
        = deliverAll left rest ws' := by
  -- on how many plans are left, and then on the deliveries in front
  induction hn : plans.length using Nat.strongRecOn
    generalizing plans front ws with
  | ind n ihn =>
    induction front generalizing ws with
    | nil => exact ⟨plans, ws, .refl p ws, hplans, rfl⟩
    | cons d front ih =>
        obtain ⟨ws₁, hon, hcall⟩ := deliver_foreign h (hfront d (by simp))
        have hcalm := hcall.calm h
        have hfront := fun d hd => hfront d (List.mem_cons_of_mem _ hd)
        rw [List.cons_append]
        cases hplan : d.plan? plans with
        | none =>
            obtain ⟨left, ws', hcalls, hleft, heq⟩ := ih hcalm hfront
            refine ⟨left, ws', hcall.trans hcalls, hleft, ?_⟩
            rw [deliverAll_of_none _ hon hplan]
            exact heq
        | some found =>
            obtain ⟨plan, left⟩ := found
            obtain ⟨hlt, hmem, hleft⟩ := mem_of_plan? hplan
            obtain ⟨applied, nested, ws₂, happly, hnested, hset⟩ :=
              applyBatch_harmless ws₁ (hplans plan hmem)
            obtain ⟨left', ws', hcalls, hleft', heq⟩ :=
              ihn left.length (hn ▸ hlt) (hset.calm hcalm)
                (fun q hq => hplans q (hleft q hq))
                (fun d hd => (List.mem_append.1 hd).elim (hnested d)
                  (hfront d)) rfl
            refine ⟨left', ws', hcall.trans (hset.trans hcalls), hleft', ?_⟩
            rw [deliverAll_of_some _ hon hplan, happly]
            dsimp only
            rw [← List.append_assoc]
            exact heq

end Relex.Workspace
