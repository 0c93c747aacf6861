/-
All that a host can do.

A deed is one thing a host can do in a workspace, to any buffer and any
controller. It may be refused or fail half way; `Deed.after` is the
workspace as it was left. Hosts do one thing after another
(`afterDeeds`), starting from the empty workspace.

An edit is two things in one: a document takes a batch, and then a round
of notifications tells the listeners. These are deeds of their own, too
(`take`, `tell`), and the deliveries that are told may be any. So a host
may be about to do something while rounds are under way, for what is left
of these is a list of deliveries, which is told later. In pieces an edit
comes to the same, wherever its round is cut in two (`after_edit`).

Properties of workspaces are not proved of each deed again. There are few
ways in which buffers, controllers and registrations are changed at all,
and what is kept by these is kept by every deed (`Stable.after`) and
hence by any run of them (`Stable.afterDeeds`).
-/
import Relex.Proofs.Workspace.Unfailing

namespace Relex.Workspace

-- =============================================================== deeds

/-- One thing a host does in a workspace. -/
inductive Deed where
  /-- A document is put into a new buffer. -/
  | addBuffer (d : Document)
  /-- A new watcher is there. -/
  | addWatcher (w : Watcher)
  /-- A watcher is registered with a buffer. -/
  | subscribe (buffer watcher : Nat)
  /-- A registration is disposed of. -/
  | unsubscribe (registration : Nat)
  /-- A new controller is attached to a buffer. -/
  | attach (buffer : Nat) (t : Option Engine.Tokenizer) (listens : Bool)
  /-- All lines are tokenized. -/
  | build (controller : Nat)
  /-- The cache is forgotten and built anew. -/
  | rebuild (controller : Nat)
  /-- The controller gets another tokenizer, or none. -/
  | equip (controller : Nat) (t : Option Engine.Tokenizer)
  /-- A line is tokenized. -/
  | retokenize (controller : Nat) (line : Int)
  /-- A range is tokenized, and what follows from it. -/
  | mendRange (controller : Nat) (range : Range)
  /-- The cache is mended after a batch. -/
  | mendBatch (controller : Nat) (changes : List Change)
  /-- The token at a position is asked for. -/
  | lookup (controller : Nat) (p : Position)
  /-- The tokens of a line are asked for. -/
  | lookupLine (controller : Nat) (line : Int)
  /-- The controller is disposed of. -/
  | retire (controller : Nat)
  /-- A batch is applied to a document, and the listeners are told. -/
  | edit (buffer : Nat) (changes : List Change)
  /-- A document takes a batch; nobody is told of it yet. -/
  | take (buffer : Nat) (changes : List Change)
  /-- Deliveries are made that are still to be made. -/
  | tell (agenda : List Delivery)
  /-- Watchers mean to make these edits. -/
  | plan (plans : List Plan)
  /-- Another configuration gets active. -/
  | configure (config : Ambient)
  /-- Other counters get active. -/
  | count (f : Meters → Meters)

/-- The workspace after a deed, whether it went through or failed. -/
def Deed.after (ws : Workspace) : Deed → Workspace
  | addBuffer d => (ws.addBuffer d).2
  | addWatcher w => (ws.addWatcher w).2
  | subscribe buffer watcher => (ws.subscribe buffer (.watcher watcher)).2
  | unsubscribe registration => ws.unsubscribe registration
  | attach buffer t listens => ((Workspace.attach buffer t listens).on ws).2
  | build c => ((Workspace.build c).on ws).2
  | rebuild c => ((Workspace.rebuild c).on ws).2
  | equip c t => ((Workspace.equip c t).on ws).2
  | retokenize c line => ((Workspace.retokenize c line).on ws).2
  | mendRange c range => ((Workspace.mendRange c range).on ws).2
  | mendBatch c changes => ((Workspace.mendBatch c changes).on ws).2
  | lookup c p => ((Workspace.lookup c p).on ws).2
  | lookupLine c line => ((Workspace.lookupLine c line).on ws).2
  | retire c => ws.retire c
  | edit buffer changes => ((Workspace.edit buffer changes).on ws).2
  | take buffer changes =>
    match ws.applyBatch buffer changes with
    | .ok (_, _, ws') => ws'
    | .error _ => ws
  | tell agenda => (deliverAll ws.plans agenda ws).2
  | plan plans => { ws with plans }
  | configure config => { ws with config }
  | count f => ws.onMeters f

/-- A document that is handed a batch takes it, or nothing happens. -/
theorem take_keeps {P : Workspace → Prop} {ws : Workspace} {buffer : Nat}
    {changes : List Change} (h : P ws)
    (htaken : ∀ applied nested ws',
      ws.applyBatch buffer changes = .ok (applied, nested, ws') → P ws') :
    P ((Deed.take buffer changes).after ws) := by
  show P (match ws.applyBatch buffer changes with
    | .ok (_, _, ws') => ws'
    | .error _ => ws)
  cases happly : ws.applyBatch buffer changes with
  | error e => exact h
  | ok taken => exact htaken _ _ _ happly

/-- The workspace after some deeds, one after the other. -/
def afterDeeds (deeds : List Deed) (ws : Workspace) : Workspace :=
  deeds.foldl Deed.after ws

-- ==================================================== rounds in pieces

/-- The plans that are noted down in the workspace are no matter to the
work, and it leaves them as they are. -/
def Blind {α : Type} (w : Act α) : Prop :=
  ∀ (ws : Workspace) (plans : List Plan), w.on { ws with plans }
    = ((w.on ws).1, { (w.on ws).2 with plans })

section

variable {α β : Type}

theorem blind_pure (a : α) : Blind (pure a : Act α) := fun _ _ => rfl

theorem blind_throw (fault : Fault) : Blind (throw fault : Act α) :=
  fun _ _ => rfl

theorem blind_modify {f : Workspace → Workspace}
    (hf : ∀ ws plans, f { ws with plans } = { f ws with plans }) :
    Blind (modify f : Act PUnit) :=
  fun ws plans => congrArg (Prod.mk _) (hf ws plans)

/-- One piece of work after another sees no more than each. -/
theorem Blind.bind {w : Act α} {k : α → Act β} (hw : Blind w)
    (hk : ∀ a, Blind (k a)) : Blind (w >>= k) := by
  intro ws plans
  rw [Act.on_bind, Act.on_bind, hw]
  rcases w.on ws with ⟨fault | a, ws'⟩
  · rfl
  · exact hk a ws' plans

/-- Work may look at the workspace first, but not at the plans. -/
theorem blind_get {k : Workspace → Act β}
    (hk : ∀ ws, Blind (k ws))
    (hsame : ∀ ws plans, k { ws with plans } = k ws) :
    Blind (get >>= k) := by
  intro ws plans
  rw [Act.on_bind, Act.on_bind, Act.on_get, Act.on_get]
  dsimp only
  rw [hsame]
  exact hk ws ws plans

theorem Blind.forM {l : List α} {f : α → Act PUnit}
    (hf : ∀ a, Blind (f a)) : Blind (l.forM f) := by
  induction l with
  | nil => exact blind_pure _
  | cons a l ih =>
      rw [List.forM_eq_forM, List.forM_cons]
      exact (hf a).bind fun _ => ih

/-- Work on a cache looks at the configuration, the controller and the
document only. -/
theorem blind_whenReady (c : Nat) (answer : α)
    (work : Document → Engine → Work α) :
    Blind (whenReady c answer work) := by
  refine blind_get (fun ws => ?_) fun ws plans => rfl
  split
  · exact blind_pure _
  · split
    · exact blind_pure _
    · exact fun ws plans => rfl

end

/-- Habits neither see nor change what watchers mean to do. -/
theorem blind_follow (buffer : Nat) (habit : Habit) :
    Blind (follow buffer habit) := by
  cases habit with
  | dispose r =>
      refine blind_modify fun ws plans => ?_
      unfold Workspace.unsubscribe
      dsimp only
      split
      · rfl
      · split <;> rfl
  | subscribe w => exact blind_modify fun ws plans => rfl
  | fail words => exact blind_throw _

/-- What is planned is taken up after the call, not in it. -/
theorem blind_deliver (d : Delivery) : Blind (deliver d) := by
  obtain ⟨listener, buffer, changes⟩ := d
  cases listener with
  | watcher w =>
      refine blind_get (fun ws => blind_get (fun ws' => ?_)
        fun ws plans => rfl) fun ws plans => rfl
      split
      · exact (blind_modify fun _ _ => rfl).bind
          fun _ => .forM (blind_follow buffer)
      · exact blind_pure _
  | controller c =>
      refine blind_get (fun ws => ?_) fun ws plans => rfl
      split
      · exact blind_pure _
      · split
        · exact blind_pure _
        · exact blind_get (fun ws => blind_whenReady c _ _)
            fun ws plans => rfl

/-- A document takes a batch whatever is planned. -/
theorem applyBatch_plans (ws : Workspace) (plans : List Plan)
    (buffer : Nat) (changes : List Change) :
    ({ ws with plans } : Workspace).applyBatch buffer changes
      = (ws.applyBatch buffer changes).map
        fun (applied, nested, ws') => (applied, nested, { ws' with plans })
    := by
  unfold applyBatch
  dsimp only
  cases ws.buffers[buffer]? with
  | none => rfl
  | some b =>
      dsimp only
      cases b.document.apply changes <;> rfl

/-- What comes of a round depends on the plans that it has left, not on
those noted down. -/
theorem deliverAll_plans (noted plans : List Plan)
    (agenda : List Delivery) (ws : Workspace) :
    deliverAll plans agenda { ws with plans := noted }
      = deliverAll plans agenda ws := by
  have hdeliver : ∀ {d : Delivery} {ws ws' : Workspace}
      {result : Except Fault Unit}, (deliver d).on ws = (result, ws') →
      (deliver d).on { ws with plans := noted }
        = (result, { ws' with plans := noted }) := by
    intro d ws ws' result hon
    rw [blind_deliver d ws noted, hon]
  induction plans, agenda, ws using deliverAll.induct with
  | case1 plans ws => rw [deliverAll, deliverAll]
  | case2 plans d rest ws fault ws' hon =>
      rw [deliverAll_of_error rest hon,
        deliverAll_of_error rest (hdeliver hon)]
  | case3 plans d rest ws ws' hon hplan ih =>
      rw [deliverAll_of_none rest hon hplan,
        deliverAll_of_none rest (hdeliver hon) hplan]
      exact ih
  | case4 plans d rest ws ws' hon plan left hplan e happly =>
      rw [deliverAll_of_some rest hon hplan,
        deliverAll_of_some rest (hdeliver hon) hplan, applyBatch_plans,
        happly]
      rfl
  | case5 plans d rest ws ws' hon plan left hplan applied nested ws''
      happly ih =>
      rw [deliverAll_of_some rest hon hplan,
        deliverAll_of_some rest (hdeliver hon) hplan, applyBatch_plans,
        happly]
      exact ih

/-- A round is the telling of its first deliveries, and then what is left
of it, with the plans that are left. -/
theorem deliverAll_append (plans : List Plan)
    (front rest : List Delivery) (ws : Workspace) :
    deliverAll plans (front ++ rest) ws
      = match deliverAll plans front ws with
        | (.error fault, ws') => (.error fault, ws')
        | (.ok (), ws') => deliverAll ws'.plans rest ws' := by
  induction plans, front, ws using deliverAll.induct with
  | case1 plans ws =>
      rw [deliverAll]
      exact (deliverAll_plans plans plans rest ws).symm
  | case2 plans d front ws fault ws' hon =>
      rw [List.cons_append, deliverAll_of_error _ hon,
        deliverAll_of_error _ hon]
  | case3 plans d front ws ws' hon hplan ih =>
      rw [List.cons_append, deliverAll_of_none _ hon hplan,
        deliverAll_of_none _ hon hplan]
      exact ih
  | case4 plans d front ws ws' hon plan left hplan e happly =>
      rw [List.cons_append, deliverAll_of_some _ hon hplan,
        deliverAll_of_some _ hon hplan, happly]
  | case5 plans d front ws ws' hon plan left hplan applied nested ws''
      happly ih =>
      rw [List.cons_append, deliverAll_of_some _ hon hplan,
        deliverAll_of_some _ hon hplan, happly]
      dsimp only
      rw [← List.append_assoc]
      exact ih

/-- An edit is the document's taking the batch, and then the telling of
its deliveries in two goes, wherever the round is cut in two, if the first
of them goes through. -/
theorem after_edit {ws : Workspace} {buffer : Nat} {changes : List Change}
    {front rest : List Delivery}
    (hagenda : (ws.applyBatch buffer changes).map (·.2.1)
      = .ok (front ++ rest))
    (hfront : (deliverAll ((Deed.take buffer changes).after ws).plans front
      ((Deed.take buffer changes).after ws)).1 = .ok ()) :
    (Deed.edit buffer changes).after ws
      = afterDeeds [.take buffer changes, .tell front, .tell rest] ws := by
  show ((Workspace.edit buffer changes).on ws).2
    = ((Deed.tell rest).after ((Deed.tell front).after
      ((Deed.take buffer changes).after ws)))
  cases happly : ws.applyBatch buffer changes with
  | error e =>
      rw [happly] at hagenda
      cases hagenda
  | ok taken =>
      obtain ⟨applied, agenda, ws'⟩ := taken
      have htake : (Deed.take buffer changes).after ws = ws' := by
        show (match ws.applyBatch buffer changes with
          | .ok (_, _, ws') => ws'
          | .error _ => ws) = ws'
        rw [happly]
      rw [happly] at hagenda
      obtain rfl : agenda = front ++ rest := Except.ok.inj hagenda
      rw [htake] at hfront ⊢
      rw [edit_on, happly]
      dsimp only
      rw [deliverAll_append]
      show _ = (deliverAll (deliverAll ws'.plans front ws').2.plans rest
        (deliverAll ws'.plans front ws').2).2
      generalize deliverAll ws'.plans front ws' = told at hfront
      obtain ⟨result, ws''⟩ := told
      obtain rfl : result = .ok () := hfront
      rfl

-- ======================================================= what deeds keep

/-- The property is kept by everything that changes buffers, controllers
or registrations, and does not depend on anything else. -/
structure Stable (P : Workspace → Prop) : Prop where
  notes : ∀ ws ws' : Workspace, ws'.buffers = ws.buffers →
    ws'.controllers = ws.controllers →
    ws'.registrations = ws.registrations → P ws → P ws'
  addBuffer : ∀ (ws : Workspace) d, P ws → P (ws.addBuffer d).2
  applyBatch : ∀ (ws : Workspace) buffer changes applied nested ws',
    P ws → ws.applyBatch buffer changes = .ok (applied, nested, ws') →
    P ws'
  subscribe : ∀ (ws : Workspace) buffer watcher, P ws →
    P (ws.subscribe buffer (.watcher watcher)).2
  unsubscribe : ∀ (ws : Workspace) i, P ws → P (ws.unsubscribe i)
  withNew : ∀ (ws : Workspace) buffer t listens, P ws →
    P (ws.withNew buffer t listens)
  leave : ∀ (ws : Workspace) i k t bench, ws.controllers[i]? = some k →
    k.tokenizer = some t → P ws → P (ws.leave i bench)
  clear : ∀ (ws : Workspace) i, P ws →
    P (ws.modifyController i fun k => { k with cache := .empty })
  give : ∀ (ws : Workspace) i k t, ws.controllers[i]? = some k →
    k.disposed = false → P ws →
    P (ws.modifyController i fun k => { k with tokenizer := t })
  drop : ∀ (ws : Workspace) i, P ws →
    P (ws.modifyController i (·.dropped))

namespace Stable

variable {P : Workspace → Prop} {ws : Workspace}

theorem whenReady (h : Stable P) {α : Type} (c : Nat) (answer : α)
    (work : Document → Engine → Work α) :
    (whenReady c answer work).Keeps P :=
  whenReady_keeps (fun ws => h.leave ws c) answer work

theorem rebuild (h : Stable P) (c : Nat) :
    (Workspace.rebuild c).Keeps P :=
  rebuild_keeps (fun ws => h.clear ws c) fun ws => h.leave ws c

theorem equip (h : Stable P) (c : Nat) (t : Option Engine.Tokenizer) :
    (Workspace.equip c t).Keeps P :=
  equip_keeps (fun ws => h.clear ws c) (fun ws => h.leave ws c)
    fun ws k => h.give ws c k t

theorem attach (h : Stable P) (buffer : Nat)
    (t : Option Engine.Tokenizer) (listens : Bool) :
    (Workspace.attach buffer t listens).Keeps P := by
  intro ws hp
  rw [attach_on]
  exact (h.whenReady _ () Reparse.build).bind
    (fun _ => Act.keeps_pure _) _ (h.withNew ws buffer t listens hp)

/-- Queries change nothing but the trace. -/
theorem whenAttached (h : Stable P) {α : Type} (c : Nat) (answer : α)
    {work : Document → Option Engine → Work α}
    (hcache : ∀ d e b, ((work d e).on b).2.cache = b.cache) :
    (whenAttached c answer work).Keeps P := by
  intro ws hp
  cases hseat : ws.seat? c with
  | none =>
      unfold Workspace.whenAttached
      rw [Act.on_bind, Act.on_get]
      dsimp only
      rw [hseat]
      exact hp
  | some seat =>
      obtain ⟨k, d⟩ := seat
      obtain ⟨result, trace, hon⟩ :
          ∃ result trace, (Workspace.whenAttached c answer work).on ws
            = (result, ws.leave c ⟨k.cache, trace⟩) :=
        whenAttached_left hseat (hcache d k.engine?)
      rw [hon, leave_cache (seat?_eq_some.1 hseat).1]
      exact h.notes ws _ rfl rfl rfl hp

/-- A call leads to work on a cache, or to what the watcher is in the habit
of doing. -/
theorem deliver (h : Stable P) (d : Delivery) :
    (Workspace.deliver d).Keeps P :=
  deliver_keeps (fun ws _ _ _ => h.notes ws _ rfl rfl rfl) h.unsubscribe
    h.subscribe fun ws i k t bench _ => h.leave ws i k t bench

theorem deliverAll (h : Stable P) (plans : List Plan)
    (agenda : List Delivery) (hp : P ws) :
    P (Workspace.deliverAll plans agenda ws).2 :=
  deliverAll_keeps (fun ws _ => h.notes ws _ rfl rfl rfl) h.deliver
    h.applyBatch plans agenda hp

theorem edit (h : Stable P) (buffer : Nat) (changes : List Change) :
    (Workspace.edit buffer changes).Keeps P :=
  edit_keeps (fun ws _ => h.notes ws _ rfl rfl rfl) h.deliver
    h.applyBatch buffer changes

/-- What is kept by all that changes anything is kept by every deed. -/
theorem after (h : Stable P) (hp : P ws) (deed : Deed) :
    P (deed.after ws) := by
  cases deed with
  | addBuffer d => exact h.addBuffer ws d hp
  | addWatcher w => exact h.notes ws _ rfl rfl rfl hp
  | subscribe buffer watcher => exact h.subscribe ws buffer watcher hp
  | unsubscribe registration => exact h.unsubscribe ws registration hp
  | attach buffer t listens => exact h.attach buffer t listens ws hp
  | build c => exact h.whenReady c () Reparse.build ws hp
  | rebuild c => exact h.rebuild c ws hp
  | equip c t => exact h.equip c t ws hp
  | retokenize c line => exact h.whenReady c _ _ ws hp
  | mendRange c range => exact h.whenReady c _ _ ws hp
  | mendBatch c changes =>
      exact (Act.keeps_get.bind fun _ => h.whenReady c _ _) ws hp
  | lookup c p =>
      exact (Act.keeps_get.bind fun _ => h.whenAttached c _
        fun d e b => Lookup.token_cache d b e _ p) ws hp
  | lookupLine c line =>
      exact h.whenAttached c _
        (fun d e b => Lookup.line_cache d b e line) ws hp
  | retire c =>
      exact retire_keeps hp (fun _ r _ _ => h.unsubscribe ws r hp)
        fun ws => h.drop ws c
  | edit buffer changes => exact h.edit buffer changes ws hp
  | take buffer changes =>
      exact take_keeps hp fun _ _ _ => h.applyBatch ws _ _ _ _ _ hp
  | tell agenda => exact h.deliverAll ws.plans agenda hp
  | plan plans => exact h.notes ws _ rfl rfl rfl hp
  | configure config => exact h.notes ws _ rfl rfl rfl hp
  | count f => exact h.notes ws _ rfl rfl rfl hp

/-- And so it is after any run of deeds. -/
theorem afterDeeds (h : Stable P) (hp : P ws) (deeds : List Deed) :
    P (Workspace.afterDeeds deeds ws) := by
  induction deeds generalizing ws with
  | nil => exact hp
  | cons deed deeds ih => exact ih (h.after hp deed)

end Stable

/-- Whatever hosts do, listeners and registrations name controllers that
are there. -/
theorem stable_grounded : Stable Grounded where
  notes := fun _ _ hb hc hr h => h.of_notes hb hr (hc ▸ le_rfl)
  addBuffer := fun _ d h => h.addBuffer d
  applyBatch := fun _ _ _ _ _ _ h happly => h.applyBatch happly
  subscribe := fun _ b _ h => h.subscribe b trivial
  unsubscribe := fun _ i h => h.unsubscribe i
  withNew := fun _ b t listens h => h.withNew b t listens
  leave := fun _ _ _ _ _ _ _ h =>
    h.of_notes rfl rfl (List.length_modify ..).ge
  clear := fun _ i h => h.modifyController i _
  give := fun _ i _ _ _ _ h => h.modifyController i _
  drop := fun _ i h => h.modifyController i _

end Relex.Workspace
