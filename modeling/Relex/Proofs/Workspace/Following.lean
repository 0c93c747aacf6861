/-
How a controller follows its document.

The moves of a controller are the ways in which a host can change it or
its document: edits, building and rebuilding, mending a range, another
tokenizer or none, another configuration. Any of them may fail, in
particular when an engine fails half way; a move that fails stands as far
as it got (`Move.after`). What the moves are meant to come to is said by
`Situation.after`: the document, the tokenizer and the configuration.

A controller follows a situation (`Follows`) if it has its document, its
tokenizer and its configuration, and its cache is sound on every line. It
does so after each move, however the move ended (`Follows.after`), and
hence after any run of moves (`Follows.afterAll`).
-/
import Relex.Proofs.Workspace.Calm

namespace Relex.Workspace

-- =============================================================== moves

/-- A way in which a host changes a controller or its document. -/
inductive Move where
  /-- A batch is applied to the document, or refused. -/
  | edit (changes : List Change)
  /-- All lines are tokenized. -/
  | build
  /-- The cache is forgotten and built anew. -/
  | rebuild
  /-- A range is tokenized, and what follows from it. -/
  | mendRange (range : Range)
  /-- The controller gets another tokenizer, or none. -/
  | equip (t : Option Engine.Tokenizer)
  /-- Another configuration gets active. -/
  | configure (config : Ambient)

/-- The workspace after a move, whether it went through or failed. -/
def Move.after (buffer controller : Nat) (ws : Workspace) :
    Move → Workspace
  | edit changes => ((Workspace.edit buffer changes).on ws).2
  | build => ((Workspace.build controller).on ws).2
  | rebuild => ((Workspace.rebuild controller).on ws).2
  | mendRange range => ((Workspace.mendRange controller range).on ws).2
  | equip t => ((Workspace.equip controller t).on ws).2
  | configure config => { ws with config }

/-- The workspace after some moves, one after the other. -/
def afterAll (buffer controller : Nat) (moves : List Move)
    (ws : Workspace) : Workspace :=
  moves.foldl (Move.after buffer controller) ws

/-- What a controller goes by: its document, its tokenizer, and the
configuration. -/
structure Situation where
  document : Document
  tokenizer : Option Engine.Tokenizer
  config : Ambient

/-- The situation after a move. A batch that is refused changes
nothing. -/
def Situation.after (s : Situation) : Move → Situation
  | .edit changes =>
    match s.document.apply changes with
    | .ok (d, _) => { s with document := d }
    | .error _ => s
  | .equip t => { s with tokenizer := t }
  | .configure config => { s with config }
  | _ => s

variable {ws ws' : Workspace} {p : Place} {s : Situation} {k : Controller}

-- ============================================================= seating

/-- A controller sits at its place, undisturbed, in a situation. -/
structure Seated (ws : Workspace) (p : Place) (s : Situation)
    (k : Controller) : Prop where
  calm : ws.Calm p
  document : ws.document? p.buffer = some s.document
  config : ws.config = s.config
  controller : ws.controllers[p.controller]? = some k
  tokenizer : k.tokenizer = s.tokenizer

namespace Seated

theorem seat?_eq (h : Seated ws p s k) :
    ws.seat? p.controller = some (k, s.document) := by
  rw [Workspace.seat?_eq h.controller,
    (h.calm.seated k h.controller).1, h.document]
  rfl

theorem undisturbed (h : Seated ws p s k) (hu : Undisturbed p ws ws') :
    Seated ws' p s k :=
  ⟨hu.calm h.calm, hu.document.trans h.document,
    hu.config.trans h.config, hu.controller.trans h.controller,
    h.tokenizer⟩

/-- A controller that is changed stays seated, unless it changes buffers
or is disposed of. -/
theorem modify (h : Seated ws p s k) {f : Controller → Controller}
    {t : Option Engine.Tokenizer}
    (hf : ∀ k, (f k).buffer = k.buffer ∧ (f k).disposed = k.disposed)
    (ht : (f k).tokenizer = t) :
    Seated (ws.modifyController p.controller f) p
      { s with tokenizer := t } (f k) := by
  have hget : ∀ i : Nat,
      (ws.modifyController p.controller f).controllers[i]?
        = (ws.controllers[i]?).map fun k =>
          if p.controller = i then f k else k :=
    fun i => List.getElem?_modify ..
  have hself : (ws.modifyController p.controller f).controllers[
      p.controller]? = some (f k) := by
    rw [hget, h.controller, Option.map_some, if_pos rfl]
  refine ⟨⟨h.calm.listed, h.calm.registered, ?_,
    h.calm.habits, ?_, h.calm.lenient⟩,
    h.document, h.config, hself, ht⟩
  · intro k' hk'
    rw [hself] at hk'
    obtain rfl := Option.some.inj hk'
    rw [(hf k).1, (hf k).2]
    exact h.calm.seated k h.controller
  · intro hs i k' u hk' hi hu
    rw [hget] at hk'
    obtain ⟨k'', hk'', rfl⟩ := Option.map_eq_some_iff.1 hk'
    rw [if_neg (Ne.symm hi)] at hu
    exact h.calm.total hs i k'' u hk'' hi hu

theorem leave (h : Seated ws p s k) (bench : Bench) :
    Seated (ws.leave p.controller bench) p s
      { k with cache := bench.cache } :=
  (h.modify (f := fun k => { k with cache := bench.cache })
    (fun _ => ⟨rfl, rfl⟩) h.tokenizer).undisturbed
    (.of_notes p _ ws.plans bench.trace ws.sightings)

end Seated

-- =========================================================== following

/-- The controller's cache is sound on every line, if it has a
tokenizer. -/
def KeepsUp (k : Controller) (lines : List Line) : Prop :=
  ∀ t, k.tokenizer = some t →
    k.cache.SoundBut t.engine lines fun _ => False

/-- The controller at a place follows a situation. -/
structure Follows (ws : Workspace) (p : Place) (s : Situation) :
    Prop where
  plans : ∀ plan ∈ ws.plans, Harmless plan p.buffer
  seated : ∃ k, Seated ws p s k ∧ KeepsUp k s.document.lines

theorem Follows.config (h : Follows ws p s) : ws.config = s.config := by
  obtain ⟨k, hk, -⟩ := h.seated
  exact hk.config

/-- Work on a seated controller's cache that leaves it sound, however it
ends, lets the controller keep up. -/
theorem Seated.whenReady {α : Type} (h : Seated ws p s k) (answer : α)
    (work : Document → Engine → Work α)
    (hwork : ∀ u, k.tokenizer = some u → Ends (work s.document u.engine)
      ⟨k.cache, ws.trace⟩
      (fun _ b =>
        b.cache.SoundBut u.engine s.document.lines fun _ => False)
      (Reparse.Breaks s.document u.engine fun _ => False)) :
    ∃ k', Seated ((whenReady p.controller answer work).on ws).2 p s k'
      ∧ KeepsUp k' s.document.lines
      ∧ ((whenReady p.controller answer work).on ws).2.plans
        = ws.plans := by
  cases ht : k.tokenizer with
  | none =>
      rw [whenReady_of_inert h.seat?_eq ht]
      refine ⟨k, h, ?_, rfl⟩
      intro u hu
      rw [ht] at hu
      cases hu
  | some u =>
      rw [whenReady_of_ready h.seat?_eq ht]
      refine ⟨_, h.leave _, ?_, rfl⟩
      intro u' hu'
      obtain rfl := Option.some.inj (ht.symm.trans hu')
      exact (hwork u ht).left (fun _ _ hb => hb) fun _ _ hb => hb.2

-- ============================================================= caches

/-- Building lets a controller follow, if only the first line is in
doubt. -/
theorem Seated.build (h : Seated ws p s k)
    (hplans : ∀ plan ∈ ws.plans, Harmless plan p.buffer)
    (hcache : ∀ u, k.tokenizer = some u →
      k.cache.SoundBut u.engine s.document.lines (· = 0)) :
    Follows ((build p.controller).on ws).2 p s := by
  obtain ⟨k', hk', hkeeps, hleft⟩ := h.whenReady ()
    Reparse.build fun u hu =>
      (Reparse.ends_build (hcache u hu)).mono (fun _ _ hb => hb)
        fun _ _ hb => hb.mono fun _ _ hj => hj.2 hj.1
  exact ⟨fun plan hp => hplans plan (hleft ▸ hp), k', hk', hkeeps⟩

/-- Rebuilding lets a seated controller follow, whatever its cache. -/
theorem Seated.rebuild (h : Seated ws p s k)
    (hplans : ∀ plan ∈ ws.plans, Harmless plan p.buffer) :
    Follows ((rebuild p.controller).on ws).2 p s := by
  unfold Workspace.rebuild
  rw [Act.on_bind, Act.on_modify]
  exact (h.modify (f := fun k => { k with cache := .empty })
    (fun _ => ⟨rfl, rfl⟩) h.tokenizer).build hplans
    fun _ _ => StateCache.soundBut_empty

theorem Follows.build (h : Follows ws p s) :
    Follows ((build p.controller).on ws).2 p s := by
  obtain ⟨k, hk, hkeeps⟩ := h.seated
  exact hk.build h.plans fun u hu =>
    (hkeeps u hu).mono fun _ _ hj => hj.elim

theorem Follows.rebuild (h : Follows ws p s) :
    Follows ((rebuild p.controller).on ws).2 p s := by
  obtain ⟨k, hk, -⟩ := h.seated
  exact hk.rebuild h.plans

theorem Follows.equip (h : Follows ws p s)
    (t : Option Engine.Tokenizer) :
    Follows ((equip p.controller t).on ws).2 p
      { s with tokenizer := t } := by
  obtain ⟨k, hk, -⟩ := h.seated
  have hlive := (hk.calm.seated k hk.controller).2
  unfold Workspace.equip
  rw [Act.on_bind, Act.on_get]
  dsimp only
  rw [hk.controller]
  dsimp only
  rw [hlive, if_neg Bool.false_ne_true, Act.on_bind, Act.on_modify]
  exact (hk.modify (f := fun k => { k with tokenizer := t })
    (fun _ => ⟨rfl, rfl⟩) rfl).rebuild h.plans

theorem Follows.mendRange (h : Follows ws p s) (r : Range) :
    Follows ((mendRange p.controller r).on ws).2 p s := by
  obtain ⟨k, hk, hkeeps⟩ := h.seated
  obtain ⟨k', hk', hkeeps', hleft⟩ := hk.whenReady 0
    (fun d e => Reparse.mendRange d e r) fun u hu =>
      Reparse.ends_mendRange
        ((hkeeps u hu).mono fun _ _ hj => hj.elim)
  exact ⟨fun plan hp => h.plans plan (hleft ▸ hp), k', hk', hkeeps'⟩

theorem Follows.configure (h : Follows ws p s) {config : Ambient}
    (hstrict : config.active.isStrict = true → p.strict = true) :
    Follows { ws with config } p { s with config } := by
  obtain ⟨k, hk, hkeeps⟩ := h.seated
  have hcalm := hk.calm
  exact ⟨h.plans, k, ⟨⟨hcalm.listed, hcalm.registered, hcalm.seated,
    hcalm.habits, hcalm.total, hstrict⟩, hk.document, rfl, hk.controller,
    hk.tokenizer⟩, hkeeps⟩

-- ============================================================== edits

/-- A list in which an element occurs once, split there. -/
theorem exists_split {listeners : List Listener} {l : Listener}
    (h : listeners.count l = 1) :
    ∃ front back, listeners = front ++ l :: back ∧ l ∉ front ∧ l ∉ back := by
  obtain ⟨front, back, rfl⟩ := List.append_of_mem
    (List.count_pos_iff.1 (by omega : 0 < listeners.count l))
  rw [List.count_append, List.count_cons_self] at h
  exact ⟨front, back, rfl, List.count_eq_zero.1 (by omega),
    List.count_eq_zero.1 (by omega)⟩

/-- The controller is called: it mends its cache for the new document. -/
theorem Seated.called {d : Document} {changes applied : List Change}
    (h : Seated ws p s k)
    (happly : d.apply changes = .ok (s.document, applied))
    (hkeeps : KeepsUp k d.lines) :
    ∃ k', Seated ((deliver ⟨.controller p.controller, p.buffer,
        applied⟩).on ws).2 p s k'
      ∧ KeepsUp k' s.document.lines := by
  obtain ⟨hbuffer, hlive⟩ := h.calm.seated k h.controller
  rw [← hbuffer, deliver_controller h.controller hlive, mendBatch_on]
  obtain ⟨k', hk', hkeeps', -⟩ := h.whenReady () (fun d e =>
    Reparse.mendBatch d e ws.config.active.isStrict applied)
    fun u hu => (Reparse.ends_mendBatch_of_apply happly
      (hkeeps u hu)).mono (fun _ _ hb => hb) fun _ _ hb => hb.2
  exact ⟨k', hk', hkeeps'⟩

/-- A round of notifications calls the controller once, and whatever the
others do and however the round ends, the controller follows. -/
theorem Seated.round {d : Document} {changes applied : List Change}
    {plans : List Plan} {listeners : List Listener}
    (h : Seated ws p s k)
    (happly : d.apply changes = .ok (s.document, applied))
    (hkeeps : KeepsUp k d.lines)
    (hplans : ∀ plan ∈ plans, Harmless plan p.buffer)
    (hlisted : listeners.count (.controller p.controller) = 1) :
    Follows (deliverAll plans
      (listeners.map (⟨·, p.buffer, applied⟩)) ws).2 p s := by
  obtain ⟨front, back, rfl, hfront, hback⟩ := exists_split hlisted
  have hvalid := Document.isValid_of_apply happly
  rw [List.map_append, List.map_cons]
  obtain ⟨left, ws₁, hbefore, hleft, heq⟩ := deliverAll_foreign h.calm
    hplans (foreign_map hvalid hfront) (⟨.controller p.controller, p.buffer,
      applied⟩ :: back.map (⟨·, p.buffer, applied⟩))
  obtain ⟨k', hk', hkeeps'⟩ :=
    (h.undisturbed hbefore).called happly hkeeps
  rw [heq]
  rcases hcall : (deliver ⟨.controller p.controller, p.buffer,
    applied⟩).on ws₁ with ⟨fault | _, ws₂⟩
  · rw [hcall] at hk'
    rw [deliverAll_of_error _ hcall]
    exact ⟨hleft, k', hk'.undisturbed
      (.of_notes p ws₂ left ws₂.trace ws₂.sightings), hkeeps'⟩
  · rw [hcall] at hk'
    obtain ⟨left', ws₃, hafter, hleft', heq'⟩ :=
      deliverAll_foreign hk'.calm hleft (foreign_map hvalid hback) []
    rw [List.append_nil] at heq'
    rw [deliverAll_of_none _ hcall rfl, heq', deliverAll]
    exact ⟨hleft', k', (hk'.undisturbed hafter).undisturbed
      (.of_notes p ws₃ left' ws₃.trace ws₃.sightings), hkeeps'⟩

/-- What work is made to answer does not change what it leaves. -/
theorem on_bind_pure_snd {α β : Type} (w : Act α) (answer : β)
    (ws : Workspace) :
    ((w >>= fun _ => pure answer).on ws).2 = (w.on ws).2 := by
  rw [Act.on_bind]
  rcases w.on ws with ⟨_ | _, _⟩ <;> rfl

theorem Follows.edit (h : Follows ws p s) (changes : List Change) :
    Follows ((Workspace.edit p.buffer changes).on ws).2 p
      (s.after (.edit changes)) := by
  obtain ⟨k, hk, hkeeps⟩ := h.seated
  obtain ⟨b, hb, hdoc⟩ := Option.map_eq_some_iff.1 hk.document
  unfold Workspace.edit applyBatch Situation.after
  rw [Act.on_bind, Act.on_get]
  dsimp only
  rw [hb, ← hdoc]
  dsimp only
  cases happly : b.document.apply changes with
  | error fault => exact h
  | ok result =>
      obtain ⟨d, applied⟩ := result
      have hbuffers : (ws.buffers.set p.buffer ⟨d, b.listeners⟩)[
          p.buffer]? = some ⟨d, b.listeners⟩ :=
        List.getElem?_set_self (List.getElem?_eq_some_iff.1 hb).1
      have hseated : Seated { ws with
          buffers := ws.buffers.set p.buffer ⟨d, b.listeners⟩ } p
          { s with document := d } k := by
        refine ⟨hk.calm.set hb d, ?_, hk.config, hk.controller,
          hk.tokenizer⟩
        exact congrArg (Option.map (·.document)) hbuffers
      have hround := hseated.round happly (hdoc ▸ hkeeps) h.plans
        (hk.calm.listed b hb)
      dsimp only
      rw [Act.on_bind, Act.on_set]
      dsimp only
      rw [on_bind_pure_snd]
      exact hround

-- ================================================================ runs

/-- A controller that follows still does so after any move, also after
one that failed. -/
theorem Follows.after (h : Follows ws p s) (m : Move)
    (hstrict : ∀ config, m = .configure config →
      config.active.isStrict = true → p.strict = true) :
    Follows (m.after p.buffer p.controller ws) p (s.after m) := by
  cases m with
  | edit changes => exact h.edit changes
  | build => exact h.build
  | rebuild => exact h.rebuild
  | mendRange range => exact h.mendRange range
  | equip t => exact h.equip t
  | configure config => exact h.configure (hstrict config rfl)

theorem Follows.afterAll (h : Follows ws p s) {moves : List Move}
    (hstrict : ∀ config, .configure config ∈ moves →
      config.active.isStrict = true → p.strict = true) :
    Follows (afterAll p.buffer p.controller moves ws) p
      (moves.foldl Situation.after s) := by
  induction moves generalizing ws s with
  | nil => exact h
  | cons m moves ih =>
      refine ih (h.after m fun config hm => hstrict config ?_)
        fun config hm => hstrict config (List.mem_cons_of_mem _ hm)
      rw [hm]
      exact List.mem_cons_self ..

end Relex.Workspace
