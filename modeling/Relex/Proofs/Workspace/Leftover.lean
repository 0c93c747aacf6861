/-
What an attempt to attach a controller leaves behind if it fails.

A controller is registered first, if it is to listen, and then builds its
cache, and that fails when the engine does. Nothing is taken back
(`attach_of_error`). Since the host is not given the controller, nobody
asks it for anything any more. But it is told of each batch.

The workspace that is left has one controller more than the one before, in
the sense of `Besides`. What that comes to is said by what happens in edits
under some configurations (`chronicle`): the same but for the calls of the
one controller, as long as it does not fail in strict mode
(`Besides.errands`). If it is on no list, there are no such calls to leave
out, and nobody can tell that it is there (`Unnoticed`).

A registration of the controller has taken a number, so what a watcher
later disposes of has to be counted past it (`past`).
-/
import Mathlib
import Relex.Proofs.Workspace.Besides

namespace Relex.Workspace

variable {ws ws' v w : Workspace} {c b : Nat} {ρ : Nat → Nat}
  {plans : List Plan} {agenda : List Delivery} {story : List Happening}
  {result : Except Fault Unit × Workspace} {changes : List Change}

-- ============================================================== one edit

/-- A round goes in one way. -/
theorem Round.unique (h : Round plans agenda ws story result) :
    story = roundHistory plans agenda ws
      ∧ result = deliverAll plans agenda ws := by
  induction h with
  | done => exact ⟨by rw [roundHistory], by rw [deliverAll]⟩
  | fails hon =>
      exact ⟨by rw [roundHistory, hon], (deliverAll_of_error _ hon).symm⟩
  | goesOn hon hplan hrest ih =>
      obtain ⟨rfl, rfl⟩ := ih
      refine ⟨?_, (deliverAll_of_none _ hon hplan).symm⟩
      rw [roundHistory, hon]
      dsimp only
      split
      · rfl
      · next h => cases hplan.symm.trans h
  | refused hon hplan happly =>
      refine ⟨?_, by rw [deliverAll_of_some _ hon hplan, happly]⟩
      rw [roundHistory, hon]
      dsimp only
      split
      · next h => cases hplan.symm.trans h
      · next h =>
        cases hplan.symm.trans h
        rw [happly]
  | nests hon hplan hbatch hrest ih =>
      obtain ⟨rfl, rfl⟩ := ih
      obtain ⟨applied, happly, rfl⟩ := hbatch.exists_applied
      refine ⟨?_, by rw [deliverAll_of_some _ hon hplan, happly]⟩
      rw [roundHistory, hon]
      dsimp only
      split
      · next h => cases hplan.symm.trans h
      · next h =>
        cases hplan.symm.trans h
        rw [happly]

/-- What happens in one edit. -/
theorem history_single (ws : Workspace) (b : Nat)
    (changes : List Change) :
    history [(b, changes)] ws = match ws.applyBatch b changes with
      | .error _ => []
      | .ok (applied, deliveries, ws') => ws.taking b applied
        ++ roundHistory ws'.plans deliveries ws' := by
  rw [history, history]
  exact List.append_nil _

/-- An edit with a controller besides that does not fail is the edit
without it, with its calls put in. -/
theorem Besides.edit (h : Besides c ρ v w)
    (hspared : Spared c (history [(b, changes)] w)) :
    ((edit b changes).on v).1 = ((edit b changes).on w).1
      ∧ history [(b, changes)] v
        = (history [(b, changes)] w).filterMap (·.without c)
      ∧ Besides c ρ ((edit b changes).on v).2 ((edit b changes).on w).2
      ∧ Grown (Uncalled c (history [(b, changes)] w))
        v ((edit b changes).on v).2 w ((edit b changes).on w).2 := by
  rw [edit_on, edit_on, history_single, history_single] at *
  cases happly : w.applyBatch b changes with
  | error e =>
      rw [h.refused happly]
      exact ⟨rfl, rfl, h, .refl v w⟩
  | ok taken =>
      obtain ⟨applied, nested, w₁⟩ := taken
      rw [happly] at hspared
      dsimp only at hspared
      obtain ⟨v₁, happly', htaking, h₁, hv, hw⟩ := h.taken happly
      obtain ⟨v₂, hround, h₂, hgrown⟩ := h₁.round
        (round_roundHistory w₁.plans nested w₁)
        fun d hd => hspared d (by simp [hd])
      obtain ⟨hstory, hresult⟩ := hround.unique
      rw [happly']
      dsimp only
      rw [h₁.plans, ← hresult, ← hstory, htaking]
      have htaken : Grown True v v₁ w w₁ := (Grown.refl v w).congr hv hw
      refine ⟨rfl, List.filterMap_append.symm, h₂,
        (htaken.trans hgrown).mono fun hcalled => ⟨trivial, ?_⟩⟩
      exact fun d hd => hcalled d (by simp [hd])

/-- In an edit there is nothing to leave out of a controller that is on no
list. -/
theorem Unlisted.edit (h : Unlisted c ws) (b : Nat)
    (changes : List Change) :
    (∀ x ∈ history [(b, changes)] ws, x.without c = some x)
      ∧ Unlisted c ((Workspace.edit b changes).on ws).2 := by
  rw [edit_on, history_single]
  cases happly : ws.applyBatch b changes with
  | error e => exact ⟨by simp, h⟩
  | ok taken =>
      obtain ⟨applied, nested, ws₁⟩ := taken
      obtain ⟨htaking, hnested, h₁⟩ := h.batch (batch_taking happly)
      obtain ⟨hstory, h₂⟩ := (round_roundHistory ws₁.plans nested
        ws₁).nothing_without hnested h₁
      exact ⟨List.forall_mem_append.2 ⟨htaking, hstory⟩, h₂⟩

/-- Outside of strict mode no controller fails in an edit. -/
theorem spared_of_lenient (hlenient : ws.config.active.isStrict = false)
    (c b : Nat) (changes : List Change) :
    Spared c (history [(b, changes)] ws) := by
  rw [history_single]
  cases happly : ws.applyBatch b changes with
  | error e =>
      intro d hd
      cases hd
  | ok taken =>
      obtain ⟨applied, nested, ws₁⟩ := taken
      dsimp only
      have hbatch := batch_taking happly
      generalize ws.taking b applied = taking at hbatch ⊢
      have hconfig : ws₁.config = ws.config := by cases hbatch <;> rfl
      have hnone : ∀ d, .raised d ∉ taking := by cases hbatch <;> simp
      have hspared := (round_roundHistory ws₁.plans nested ws₁).spared
        (hconfig ▸ hlenient) c
      intro d hd
      rcases List.mem_append.1 hd with hd | hd
      · exact absurd hd (hnone d)
      · exact hspared d hd

-- ============================================================== errands

/-- An edit to be made under some configuration. -/
structure Errand where
  config : Ambient
  buffer : Nat
  changes : List Change

/-- An errand that was done: what came of it, and what happened. -/
structure Chapter where
  errand : Errand
  answer : Except Fault (List Change)
  story : List Happening

/-- The chapter, with a controller left out. -/
def Chapter.without (c : Nat) (chapter : Chapter) : Chapter :=
  { chapter with story := chapter.story.filterMap (·.without c) }

namespace Errand

/-- The workspace with the configuration of the errand. -/
def ready (e : Errand) (ws : Workspace) : Workspace :=
  { ws with config := e.config }

/-- What happens, and what comes of it. -/
def chapter (e : Errand) (ws : Workspace) : Chapter where
  errand := e
  answer := ((edit e.buffer e.changes).on (e.ready ws)).1
  story := history [(e.buffer, e.changes)] (e.ready ws)

/-- The workspace afterwards. -/
def after (e : Errand) (ws : Workspace) : Workspace :=
  ((edit e.buffer e.changes).on (e.ready ws)).2

end Errand

/-- What happens in some errands, one after the other. -/
def chronicle : List Errand → Workspace → List Chapter
  | [], _ => []
  | e :: errands, ws => e.chapter ws :: chronicle errands (e.after ws)

/-- The workspace after some errands. -/
def afterErrands (errands : List Errand) (ws : Workspace) : Workspace :=
  errands.foldl (fun ws e => e.after ws) ws

/-- Errands with a controller besides that does not fail in strict mode
are the errands without it, with its calls put in. -/
theorem Besides.errands (h : Besides c ρ v w) (errands : List Errand)
    (hspared : ∀ chapter ∈ chronicle errands w,
      chapter.errand.config.active.isStrict = true →
      Spared c chapter.story) :
    chronicle errands v = (chronicle errands w).map (·.without c)
      ∧ Besides c ρ (afterErrands errands v) (afterErrands errands w)
      ∧ Grown (∀ chapter ∈ chronicle errands w, Uncalled c chapter.story)
        v (afterErrands errands v) w (afterErrands errands w) := by
  induction errands generalizing v w with
  | nil => exact ⟨rfl, h, .refl v w⟩
  | cons e errands ih =>
      obtain ⟨hfirst, hlater⟩ := List.forall_mem_cons.1 hspared
      have hready : Besides c ρ (e.ready v) (e.ready w) :=
        h.configured e.config
      have hspared : Spared c (e.chapter w).story := by
        cases hstrict : e.config.active.isStrict with
        | true => exact hfirst hstrict
        | false =>
            have hlenient : (e.ready w).config.active.isStrict = false :=
              hstrict
            exact spared_of_lenient hlenient c _ _
      obtain ⟨hanswer, hstory, h₁, hgrown⟩ := hready.edit hspared
      obtain ⟨hchronicle, h₂, hgrown'⟩ := ih h₁ hlater
      have hchapter : e.chapter v = (e.chapter w).without c := by
        unfold Errand.chapter Chapter.without
        rw [hanswer, hstory]
      refine ⟨?_, h₂, (hgrown.trans hgrown').mono ?_⟩
      · rw [chronicle, chronicle, List.map_cons, hchapter]
        exact congrArg _ hchronicle
      · intro hcalled
        exact List.forall_mem_cons.1 hcalled

/-- In errands there is nothing to leave out of a controller that is on no
list. -/
theorem Unlisted.errands (h : Unlisted c ws) (errands : List Errand) :
    ∀ chapter ∈ chronicle errands ws, ∀ x ∈ chapter.story,
      x.without c = some x := by
  induction errands generalizing ws with
  | nil =>
      intro chapter hchapter
      cases hchapter
  | cons e errands ih =>
      have hready : Unlisted c (e.ready ws) := h
      obtain ⟨hstory, h₁⟩ := hready.edit e.buffer e.changes
      exact List.forall_mem_cons.2 ⟨hstory, ih h₁⟩

-- ========================================================= the attempt

/-- The numbers from one on go up by one. -/
def past (r n : Nat) : Nat := if n < r then n else n + 1

/-- When a registration was made besides, those made later have the next
numbers. -/
theorem renumbers_past (rs : List Registration) (s : Registration) :
    Renumbers (past rs.length) rs (rs ++ [s]) := by
  refine ⟨fun n => ?_, fun n => ?_, fun m n h => ?_⟩
  · unfold past
    split
    · next hn => exact List.getElem?_append_left hn
    · next hn =>
      rw [List.getElem?_eq_none (Nat.le_of_not_lt hn),
        List.getElem?_eq_none]
      rw [List.length_append, List.length_singleton]
      omega
  · rw [past, if_neg (by omega), List.length_append,
      List.length_singleton]
    omega
  · unfold past at h
    split at h <;> split at h <;> omega

theorem renumbers_id (rs : List Registration) : Renumbers id rs rs :=
  ⟨fun _ => rfl, fun _ => rfl, fun _ _ h => h⟩

/-- The workspace with other numbers for the registrations that watchers
dispose of. -/
def renumbered (ρ : Nat → Nat) (ws : Workspace) : Workspace :=
  { ws with watchers := ws.watchers.map (·.renumbered ρ) }

theorem map_renumbered_id (watchers : List Watcher) :
    watchers.map (·.renumbered id) = watchers := by
  have hhabit : ∀ habit : Habit, habit.renumbered id = habit := by
    intro habit
    cases habit <;> rfl
  have hwatcher : ∀ x : Watcher, x.renumbered id = x := by
    intro x
    unfold Watcher.renumbered
    rw [List.map_congr_left fun habit _ => hhabit habit, List.map_id']
  rw [List.map_congr_left fun x _ => hwatcher x, List.map_id']

/-- What fails in a controller's work leaves its cache and the trace as
they were then. -/
theorem whenReady_of_error {α : Type} {answer : α}
    {work : Document → Engine → Work α} {fault : Fault}
    (hon : (whenReady c answer work).on ws = (.error fault, ws')) :
    ∃ k d bench, ws.seat? c = some (k, d) ∧ ws' = ws.leave c bench := by
  cases hseat : ws.seat? c with
  | none =>
      rw [whenReady_of_no_seat hseat] at hon
      cases hon
  | some seat =>
      obtain ⟨k, d⟩ := seat
      cases ht : k.tokenizer with
      | none =>
          rw [whenReady_of_inert hseat ht] at hon
          cases hon
      | some u =>
          rw [whenReady_of_ready hseat ht] at hon
          exact ⟨k, d, _, rfl, (congrArg Prod.snd hon).symm⟩

section

variable {buffer : Nat} {t : Option Engine.Tokenizer} {listens : Bool}
  {fault : Fault}

theorem withNew_controllers : (ws.withNew buffer t listens).controllers
    = ws.controllers ++ [⟨buffer, t, .empty,
      if listens then some ws.registrations.length else none, false⟩] := by
  cases listens <;> rfl

theorem withNew_document? (i : Nat) :
    (ws.withNew buffer t listens).document? i = ws.document? i := by
  cases listens with
  | false => rfl
  | true => exact document_relist ws.buffers buffer i _

/-- What is left when attaching failed: the controller with what it has
built, and its registration if it was to listen. -/
theorem attach_of_error
    (hon : (attach buffer t listens).on ws = (.error fault, ws')) :
    (ws.buffers[buffer]?).isSome
      ∧ ∃ cache trace, ws' = { ws.withNew buffer t listens with
        controllers := ws.controllers ++ [⟨buffer, t, cache,
          if listens then some ws.registrations.length else none, false⟩]
        trace := trace } := by
  rw [attach_on, Act.on_bind] at hon
  have hbuild : (build ws.controllers.length).on
      (ws.withNew buffer t listens) = (.error fault, ws') := by
    generalize (build ws.controllers.length).on _ = built at hon ⊢
    obtain ⟨fault' | _, left⟩ := built
    · cases hon
      rfl
    · cases hon
  obtain ⟨k, d, bench, hseat, rfl⟩ := whenReady_of_error hbuild
  obtain ⟨hk, hd⟩ := seat?_eq_some.1 hseat
  rw [withNew_controllers, List.getElem?_concat_length] at hk
  obtain rfl := Option.some.inj hk
  rw [withNew_document?] at hd
  obtain ⟨b, hb, -⟩ := Option.map_eq_some_iff.1 hd
  refine ⟨by rw [hb]; rfl, bench.cache, bench.trace, ?_⟩
  unfold leave modifyController
  rw [withNew_controllers, modify_append_length]

theorem Grounded.unlistedAll (h : ws.Grounded) :
    Unlisted ws.controllers.length ws :=
  fun _ hb => h.unlisted hb

/-- A list that the controller was put on is the old one without it. -/
theorem Unlisted.map_without_modify (h : Unlisted c ws) (b : Nat)
    {f : List Listener → List Listener}
    (hf : ∀ ls : List Listener, .controller c ∉ ls →
      (f ls).filter (· ≠ .controller c) = ls) :
    (ws.buffers.modify b (relist f)).map (·.without c) = ws.buffers := by
  refine List.ext_getElem? fun i => ?_
  rw [List.getElem?_map, List.getElem?_modify]
  cases hi : ws.buffers[i]? with
  | none => rfl
  | some buffer =>
      have hnot := h buffer (List.mem_of_getElem? hi)
      have hchanged : (relist f buffer).without c = buffer :=
        congrArg (Buffer.mk buffer.document) (hf _ hnot)
      by_cases hb : b = i
      · simp [hb, hchanged]
      · simp [hb, Buffer.without_eq hnot]

/-- A controller that is taken off the list it was put on leaves the list
as it was. -/
theorem Unlisted.modify_modify (h : Unlisted c ws) (b : Nat) :
    (ws.buffers.modify b (relist (· ++ [.controller c]))).modify b
        (relist (·.erase (.controller c))) = ws.buffers := by
  refine List.ext_getElem? fun i => ?_
  rw [List.modify_modify_eq, List.getElem?_modify]
  cases hi : ws.buffers[i]? with
  | none => rfl
  | some buffer =>
      have hnot := h buffer (List.mem_of_getElem? hi)
      have hback : (buffer.listeners ++ [Listener.controller c]).erase
          (.controller c) = buffer.listeners := by
        rw [List.erase_append_right _ hnot, List.erase_cons_head,
          List.append_nil]
      have hsame : relist (·.erase (.controller c))
          (relist (· ++ [.controller c]) buffer) = buffer :=
        congrArg (Buffer.mk buffer.document) hback
      by_cases hb : b = i
      · simp [hb, hsame]
      · simp [hb]

/-- Nobody notices the controller besides: nobody is on another list, and
in errands the same happens, with the same answers, and the traces grow by
the same. -/
structure Unnoticed (c : Nat) (ρ : Nat → Nat) (v w : Workspace) :
    Prop where
  lists : w.buffers = v.buffers
  chronicle : ∀ errands, chronicle errands w = chronicle errands v
  after : ∀ errands,
    Besides c ρ (afterErrands errands v) (afterErrands errands w)
  trace : ∀ errands, ∃ x,
    (afterErrands errands v).trace = v.trace.plus x
      ∧ (afterErrands errands w).trace = w.trace.plus x

/-- The controller besides is noticed at most by its own calls, unless it
fails in strict mode: in errands the same happens otherwise, with the same
answers, and the traces grow by the same, with what it does itself mixed
in. -/
structure Tolerated (c : Nat) (ρ : Nat → Nat) (errands : List Errand)
    (v w : Workspace) : Prop where
  chronicle : chronicle errands v
    = (Workspace.chronicle errands w).map (·.without c)
  after : Besides c ρ (afterErrands errands v) (afterErrands errands w)
  trace : Grown
    (∀ chapter ∈ Workspace.chronicle errands w, Uncalled c chapter.story)
    v (afterErrands errands v) w (afterErrands errands w)

/-- A controller besides that is on no list is not noticed. -/
theorem Besides.unnoticed (h : Besides c ρ v w) (hw : Unlisted c w) :
    Unnoticed c ρ v w := by
  have hall : ∀ errands, ∀ chapter ∈ chronicle errands w,
      chapter.without c = chapter ∧ Uncalled c chapter.story
        ∧ Spared c chapter.story := by
    intro errands chapter hchapter
    have hstory := hw.errands errands chapter hchapter
    refine ⟨?_, fun d hd => ?_, fun d hd => ?_⟩
    · unfold Chapter.without
      rw [List.filterMap_congr hstory, List.filterMap_some]
    · simpa [Happening.without] using hstory _ hd
    · simpa [Happening.without] using hstory _ hd
  have herrands := fun errands => h.errands errands
    fun chapter hchapter _ => (hall errands chapter hchapter).2.2
  refine ⟨h.buffers.symm ▸ hw.map_without.symm, fun errands => ?_,
    fun errands => (herrands errands).2.1, fun errands => ?_⟩
  · rw [(herrands errands).1, List.map_congr_left fun chapter hchapter =>
      (hall errands chapter hchapter).1, List.map_id']
  · obtain ⟨own, x, y, hmix, hx, hy, hown⟩ := (herrands errands).2.2
    have hnone := hown fun chapter hchapter =>
      (hall errands chapter hchapter).2.1
    obtain rfl := (hnone ▸ hmix).eq_others
    exact ⟨y, hx, hy⟩

-- ========================================================= the theorem

/-- A controller that was not to listen is there besides, and on no
list. -/
theorem besides_unregistered (h : ws.Grounded)
    (hon : (attach buffer t false).on ws = (.error fault, ws')) :
    Besides ws.controllers.length id ws ws'
      ∧ Unlisted ws.controllers.length ws' := by
  obtain ⟨-, cache, trace, rfl⟩ := attach_of_error hon
  exact ⟨⟨h.unlistedAll.map_without.symm, ⟨_, rfl⟩, rfl,
    renumbers_id _, fun _ => h.unregistered,
    (map_renumbered_id ws.watchers).symm, rfl, rfl, rfl⟩, h.unlistedAll⟩

/-- A controller that was to listen is there besides. -/
theorem besides_registered (h : ws.Grounded)
    (hon : (attach buffer t true).on ws = (.error fault, ws')) :
    Besides ws.controllers.length (past ws.registrations.length) ws
      (ws'.renumbered (past ws.registrations.length)) := by
  obtain ⟨-, cache, trace, rfl⟩ := attach_of_error hon
  refine ⟨(h.unlistedAll.map_without_modify buffer ?_).symm, ⟨_, rfl⟩, rfl,
    renumbers_past _ _, fun _ => h.unregistered, rfl, rfl, rfl, rfl⟩
  intro ls hls
  rw [List.filter_append, filter_of_not_mem hls]
  simp

/-- Once its registration is disposed of, it is there besides, and on no
list. -/
theorem besides_disposed (h : ws.Grounded)
    (hon : (attach buffer t true).on ws = (.error fault, ws')) :
    Besides ws.controllers.length (past ws.registrations.length) ws
        ((ws'.renumbered (past ws.registrations.length)).unsubscribe
          ws.registrations.length)
      ∧ Unlisted ws.controllers.length
        ((ws'.renumbered (past ws.registrations.length)).unsubscribe
          ws.registrations.length) := by
  obtain ⟨-, cache, trace, rfl⟩ := attach_of_error hon
  have hlists := h.unlistedAll.modify_modify buffer
  have hget : (ws.registrations
      ++ [⟨buffer, .controller ws.controllers.length, true⟩])[
        ws.registrations.length]? = some _ := List.getElem?_concat_length
  unfold unsubscribe
  split
  · next hs => cases hget.symm.trans hs
  next s hs =>
  obtain rfl := Option.some.inj (hget.symm.trans hs)
  rw [if_pos rfl]
  refine ⟨⟨?_, ⟨_, rfl⟩, rfl, ?_, fun _ => h.unregistered, rfl, rfl, rfl,
    rfl⟩, ?_⟩
  · exact (congrArg (List.map _) hlists).trans
      h.unlistedAll.map_without |>.symm
  · have hset : ∀ s s' : Registration,
        (ws.registrations ++ [s]).set ws.registrations.length s'
          = ws.registrations ++ [s'] := by simp
    exact hset _ _ ▸ renumbers_past ws.registrations _
  · intro b hb
    exact h.unlistedAll b (hlists ▸ hb)

/-- An attempt to attach a controller, in a workspace that was empty once,
that fails because the engine does. The controller is there all the same,
with its engine and what it has built. If it was to listen it is listed
with the buffer, behind everybody else, and registered. Whoever else is
listed anywhere is so as before, and documents are what they were.

If it was not to listen, nobody notices it from then on, whatever errands
are done, in strict mode or not. If it was, it is called for each batch:
it calls its engine, and notes down what goes wrong. Otherwise everything
goes as if nobody had made the attempt, up to the first errand in strict
mode in which it fails. And once its registration is disposed of, nobody
notices it. In all this registrations made later have the next numbers, as
the attempt has taken one. -/
theorem failed_attach_listens_on (before : List Deed)
    (hws : afterDeeds before empty = ws)
    (hon : (attach buffer t listens).on ws = (.error fault, ws')) :
    (∃ b cache trace, ws.buffers[buffer]? = some b
      ∧ ws' = { ws with
        buffers := if listens then ws.buffers.set buffer
          { b with listeners :=
              b.listeners ++ [.controller ws.controllers.length] }
          else ws.buffers
        controllers := ws.controllers ++ [⟨buffer, t, cache,
          if listens then some ws.registrations.length else none, false⟩]
        registrations := if listens then ws.registrations
          ++ [⟨buffer, .controller ws.controllers.length, true⟩]
          else ws.registrations
        trace := trace })
      ∧ (listens = false → Unnoticed ws.controllers.length id ws ws')
      ∧ (listens = true →
        (∀ errands,
          (∀ chapter ∈ chronicle errands
              (ws'.renumbered (past ws.registrations.length)),
            chapter.errand.config.active.isStrict = true →
            Spared ws.controllers.length chapter.story) →
          Tolerated ws.controllers.length (past ws.registrations.length)
            errands ws (ws'.renumbered (past ws.registrations.length)))
        ∧ Unnoticed ws.controllers.length (past ws.registrations.length) ws
          ((ws'.renumbered (past ws.registrations.length)).unsubscribe
            ws.registrations.length)) := by
  have hgrounded : ws.Grounded :=
    hws ▸ stable_grounded.afterDeeds .empty before
  refine ⟨?_, ?_, ?_⟩
  · -- what the attempt leaves
    obtain ⟨hsome, cache, trace, hleft⟩ := attach_of_error hon
    obtain ⟨b, hb⟩ := Option.isSome_iff_exists.1 hsome
    refine ⟨b, cache, trace, hb, hleft.trans ?_⟩
    cases listens with
    | false => rfl
    | true =>
        have hset : ws.buffers.modify buffer
            (relist (· ++ [.controller ws.controllers.length]))
            = ws.buffers.set buffer { b with listeners :=
                b.listeners ++ [.controller ws.controllers.length] } := by
          rw [List.modify_eq_set_getElem?, hb]
          rfl
        simp only [withNew, hset, if_true]
  · -- nobody calls a controller that is on no list
    rintro rfl
    obtain ⟨hbesides, hunlisted⟩ := besides_unregistered hgrounded hon
    exact hbesides.unnoticed hunlisted
  · -- listed it is called like everybody, until it is struck off
    rintro rfl
    obtain ⟨hdisposed, hunlisted⟩ := besides_disposed hgrounded hon
    refine ⟨fun errands hspared => ?_, hdisposed.unnoticed hunlisted⟩
    obtain ⟨hchronicle, hafter, htrace⟩ :=
      (besides_registered hgrounded hon).errands errands hspared
    exact ⟨hchronicle, hafter, htrace⟩

end

/-- An engine that fails on one text and takes any other. -/
def picky : Engine.Tokenizer :=
  ⟨0, .table [⟨"x".toList, none, .fails "not this"⟩]⟩

/-- In strict mode, a document of that text that somebody listens to. -/
def wary : Workspace := afterDeeds [
  .addBuffer (.new "untitled:document" "plaintext" "x".toList),
  .addWatcher ⟨"watcher", []⟩, .subscribe 0 0,
  .configure ⟨{ strictEdits := .flag true }, []⟩] empty

/-- What an attempt leaves of it. -/
def haunted : Workspace := ((attach 0 (some picky) true).on wary).2

/-- The first character is replaced by another. -/
def replaced (text : String) : List Change :=
  [⟨⟨⟨0, 0⟩, ⟨0, 1⟩⟩, text.toList⟩]

/-- That is done, in strict mode or not. -/
def errand (strict : Bool) (text : String) : Errand :=
  ⟨⟨{ strictEdits := .flag strict }, []⟩, 0, replaced text⟩

/-- The engine of what was left fails only out of strict mode. -/
theorem failed_attach_listens_on_haunted :
    haunted.buffers.map (·.listeners) = [[.watcher 0, .controller 0]]
      ∧ Tolerated 0 (past 1) [errand true "y", errand false "x"] wary
        (haunted.renumbered (past 1))
      ∧ Unnoticed 0 (past 1) wary
        ((haunted.renumbered (past 1)).unsubscribe 1) := by
  have hfails : ((attach 0 (some picky) true).on wary).1
      = .error (.failed "not this") := by cbv
  have hcontrollers : wary.controllers.length = 0 := by cbv
  have hregistrations : wary.registrations.length = 1 := by cbv
  have hwary : wary.buffers = [⟨.new "untitled:document" "plaintext"
      "x".toList, [.watcher 0]⟩] := by cbv
  have hon : (attach 0 (some picky) true).on wary
      = (.error (.failed "not this"), haunted) := Prod.ext hfails rfl
  obtain ⟨⟨b, cache, trace, hb, hleft⟩, -, hlistens⟩ :=
    failed_attach_listens_on _ (rfl : _ = wary) hon
  rw [hcontrollers, hregistrations] at hlistens
  obtain ⟨htolerated, hunnoticed⟩ := hlistens rfl
  refine ⟨?_, htolerated _ ?_, hunnoticed⟩
  · rw [hwary] at hb hleft
    cases hb
    rw [hleft, hcontrollers]
    rfl
  · have hstory : ((errand true "y").chapter
        (haunted.renumbered (past 1))).story
        = [.applied 0 (replaced "y") [.watcher 0, .controller 0],
          .called ⟨.watcher 0, 0, replaced "y"⟩,
          .called ⟨.controller 0, 0, replaced "y"⟩] := by cbv
    intro chapter hchapter hstrict
    rcases hchapter with _ | ⟨_, _ | ⟨_, h⟩⟩
    · rw [Spared, hstory]
      simp
    · cases hstrict
    · cases h

/-- Once an attempt has failed, an edit fails that does not otherwise. -/
theorem failed_attach_noticed :
    ((attach 0 (some picky) true).on wary).1
        = .error (.failed "not this")
      ∧ wary.buffers.map (·.listeners) = [[.watcher 0]]
      ∧ haunted.buffers.map (·.listeners)
        = [[.watcher 0, .controller 0]]
      ∧ ((edit 0 (replaced "x")).on wary).1 = .ok (replaced "x")
      ∧ ((edit 0 (replaced "x")).on haunted).1
        = .error (.failed "not this") := by
  refine ⟨?_, ?_, ?_, ?_, ?_⟩ <;> cbv

end Relex.Workspace
