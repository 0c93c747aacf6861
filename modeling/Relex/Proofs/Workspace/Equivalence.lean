/-
Keeping up is rebuilding.

A controller that was attached to a document follows it through any run
of moves. What that comes to:

- With engines that never fail, the cache is the full build of the
  document's lines after every move, and the controller answers every
  query as one would that was attached to the same text just now
  (`attached_equals_fresh`).
- With engines that may fail on any line in any state, in strict mode or
  not, the cache is the full build whenever the full build goes through
  (`recovers`). Nothing is left behind by failures on the way.

Both assume that no other listener fails, edits the document, or takes
the controller off it: that it is quiet around the document (`Quiet`),
and that other controllers' engines do not fail either, or are forgiven
if they do (`Lenient`). A listener that fails ends the round, and those
behind it are never told of the batch; so little can be said without.
-/
import Mathlib
import Relex.Proofs.Workspace.Unfailing

namespace Relex.Workspace

variable {ws : Workspace} {d : Document} {k : Controller}

-- ========================================================== attaching

/-- Nothing will come between the next controller that is attached to a
buffer and the batches of its document. No list names that controller
already, and no watcher fails, edits the document, or disposes of the
registration to come. -/
structure Quiet (ws : Workspace) (buffer : Nat) : Prop where
  unlisted : ∀ b, ws.buffers[buffer]? = some b →
    .controller ws.controllers.length ∉ b.listeners
  unregistered : ∀ s ∈ ws.registrations,
    s.listener ≠ .controller ws.controllers.length
  habits : ∀ w ∈ ws.watchers, ∀ habit ∈ w.habits,
    habit ≠ .dispose ws.registrations.length
      ∧ ∀ words, habit ≠ .fail words
  plans : ∀ plan ∈ ws.plans, Harmless plan buffer

/-- The controllers there are do not fail during some moves: their engines
never do, or strict mode is never on. -/
def Lenient (ws : Workspace) (moves : List Move) : Prop :=
  (∀ k ∈ ws.controllers, ∀ t, k.tokenizer = some t → t.engine.Total)
    ∨ (ws.config.active.isStrict = false
      ∧ ∀ config, .configure config ∈ moves →
        config.active.isStrict = false)

/-- Where listeners behave, it is quiet around every buffer: a workspace
that came about as workspaces do names no controller before it is
made. -/
theorem Grounded.quiet (h : ws.Grounded) {buffer : Nat}
    (hhabits : ∀ w ∈ ws.watchers, ∀ habit ∈ w.habits,
      habit ≠ .dispose ws.registrations.length
        ∧ ∀ words, habit ≠ .fail words)
    (hplans : ∀ plan ∈ ws.plans, Harmless plan buffer) :
    ws.Quiet buffer :=
  ⟨fun _ hb => h.unlisted (List.mem_of_getElem? hb),
    fun _ hs => h.unregistered hs, hhabits, hplans⟩

/-- A workspace of one document. A watcher is told of its batches first,
and unregisters itself when it is called. -/
def watched (text : String) : Workspace :=
  let ws := (empty.addBuffer
    (.new "untitled:document" "plaintext" text.toList)).2
  let ws := (ws.addWatcher ⟨"watcher", [.dispose 0]⟩).2
  (ws.subscribe 0 (.watcher 0)).2

theorem grounded_watched (text : String) : (watched text).Grounded :=
  ((Grounded.empty.addBuffer _).addWatcher _).subscribe 0 trivial

theorem quiet_watched (text : String) : (watched text).Quiet 0 := by
  refine (grounded_watched text).quiet ?_ ?_
  · intro w hw habit hh
    obtain rfl := List.mem_singleton.1 hw
    obtain rfl := List.mem_singleton.1 hh
    refine ⟨?_, ?_⟩
    · intro he
      cases Habit.dispose.inj he
    · intro words hf
      cases hf
  · intro plan hp
    cases hp

theorem lenient_watched (text : String) (moves : List Move) :
    (watched text).Lenient moves :=
  .inl fun _ hk => absurd hk List.not_mem_nil

/-- A new controller sits down where it is quiet. -/
theorem Quiet.seated {buffer : Nat} (h : ws.Quiet buffer)
    (hd : ws.document? buffer = some d) (t : Option Engine.Tokenizer)
    {strict : Bool}
    (htotal : strict = true → ∀ k ∈ ws.controllers, ∀ t,
      k.tokenizer = some t → t.engine.Total)
    (hlenient : ws.config.active.isStrict = true → strict = true) :
    Seated (ws.withNew buffer t true)
      ⟨buffer, ws.controllers.length, ws.registrations.length, strict⟩
      ⟨d, t, ws.config⟩
      ⟨buffer, t, .empty, some ws.registrations.length, false⟩ := by
  have hself : (ws.withNew buffer t true).controllers[
      ws.controllers.length]?
      = some ⟨buffer, t, .empty, some ws.registrations.length, false⟩ :=
    List.getElem?_concat_length
  refine ⟨⟨?_, ?_, ?_, h.habits, ?_, hlenient⟩, ?_, rfl, hself, rfl⟩
  · intro b hb
    have hb : (ws.buffers.modify buffer (relist
        (· ++ [.controller ws.controllers.length])))[buffer]? = some b := hb
    rw [List.getElem?_modify_eq] at hb
    obtain ⟨b', hb', rfl⟩ := Option.map_eq_some_iff.1 hb
    show (b'.listeners ++ [_]).count _ = 1
    rw [List.count_append,
      List.count_eq_zero_of_not_mem (h.unlisted b' hb'),
      List.count_singleton_self]
  · intro i s hs hl
    rcases getElem?_concat_eq_some hs with hs | ⟨hi, -⟩
    · exact absurd hl (h.unregistered s (List.mem_of_getElem? hs))
    · exact hi
  · intro k hk
    obtain rfl := Option.some.inj (hself.symm.trans hk)
    exact ⟨rfl, rfl⟩
  · intro hs i k u hk hi hu
    rcases getElem?_concat_eq_some hk with hk | ⟨hnew, -⟩
    · exact htotal hs k (List.mem_of_getElem? hk) u hu
    · exact absurd hnew hi
  · exact (document_relist ..).trans hd

/-- A controller that is attached where it is quiet follows its document
through all moves, also if its engine fails while it builds. -/
theorem Quiet.follows {buffer : Nat} (h : ws.Quiet buffer)
    (hd : ws.document? buffer = some d) (t : Option Engine.Tokenizer)
    {moves : List Move} (hlenient : ws.Lenient moves) :
    ∃ strict, Follows (afterAll buffer ws.controllers.length moves
        ((attach buffer t true).on ws).2)
      ⟨buffer, ws.controllers.length, ws.registrations.length, strict⟩
      (moves.foldl Situation.after ⟨d, t, ws.config⟩) := by
  have hbuilt : ∀ strict : Bool, (strict = true → ∀ k ∈ ws.controllers,
        ∀ t, k.tokenizer = some t → t.engine.Total) →
      (ws.config.active.isStrict = true → strict = true) →
      Follows ((attach buffer t true).on ws).2
        ⟨buffer, ws.controllers.length, ws.registrations.length, strict⟩
        ⟨d, t, ws.config⟩ := by
    intro strict htotal hstrict
    rw [attach_on, on_bind_pure_snd]
    exact (h.seated hd t htotal hstrict).build h.plans
      fun _ _ => StateCache.soundBut_empty
  rcases hlenient with htotal | ⟨hws, hmoves⟩
  · exact ⟨true, (hbuilt true (fun _ => htotal) fun _ => rfl).afterAll
      fun _ _ _ => rfl⟩
  · refine ⟨false, (hbuilt false (fun hf => by cases hf) ?_).afterAll ?_⟩
    · intro hs
      exact hws.symm.trans hs
    · intro config hm hs
      exact (hmoves config hm).symm.trans hs

-- ============================================================ queries

/-- A controller with an engine that never fails is attached without
failing, anywhere, and keeps up. -/
theorem attach_ready {buffer : Nat} {u : Engine.Tokenizer}
    (hd : ws.document? buffer = some d) (hu : u.engine.Total)
    (listens : Bool) :
    ∃ ws' k, (attach buffer (some u) listens).on ws
        = (.ok ws.controllers.length, ws')
      ∧ ws'.config = ws.config
      ∧ ws'.seat? ws.controllers.length = some (k, d)
      ∧ k.tokenizer = some u ∧ KeepsUp k d.lines := by
  have hnew : ∃ k, (ws.withNew buffer (some u) listens).seat?
        ws.controllers.length = some (k, d)
      ∧ k.tokenizer = some u ∧ k.cache = .empty
      ∧ (ws.withNew buffer (some u) listens).config = ws.config := by
    cases listens with
    | false =>
        exact ⟨_, seat?_eq_some.2 ⟨List.getElem?_concat_length, hd⟩,
          rfl, rfl, rfl⟩
    | true =>
        exact ⟨_, seat?_eq_some.2 ⟨List.getElem?_concat_length,
          (document_relist ..).trans hd⟩, rfl, rfl, rfl⟩
  obtain ⟨k, hseat, ht, hcache, hconfig⟩ := hnew
  have htotal : ∀ t, k.tokenizer = some t → t.engine.Total := by
    intro t hk
    obtain rfl := Option.some.inj (ht.symm.trans hk)
    exact hu
  obtain ⟨b, hon, hkeeps, -⟩ := build_on hseat htotal hcache
  refine ⟨(ws.withNew buffer (some u) listens).leave
    ws.controllers.length b, _, ?_, hconfig, seat?_leave hseat b, ht,
    hkeeps⟩
  rw [attach_on, Act.on_bind, hon]
  rfl

/-- Two controllers, maybe in different workspaces, answer every query,
and both in the same way. -/
structure SameAnswers (ws : Workspace) (controller : Nat)
    (vs : Workspace) (other : Nat) : Prop where
  lookup : ∀ p, ∃ answer,
    ((lookup controller p).on ws).1 = .ok answer
      ∧ ((Workspace.lookup other p).on vs).1 = .ok answer
  lookupLine : ∀ i, ∃ answer,
    ((lookupLine controller i).on ws).1 = .ok answer
      ∧ ((Workspace.lookupLine other i).on vs).1 = .ok answer

theorem whenAttached_on {α : Type} {controller : Nat} (answer : α)
    (work : Document → Option Engine → Work α)
    (h : ws.seat? controller = some (k, d)) :
    ((whenAttached controller answer work).on ws).1
      = ((work d k.engine?).on ⟨k.cache, ws.trace⟩).1 := by
  unfold whenAttached
  rw [Act.on_bind, Act.on_get]
  dsimp only
  rw [h]
  rfl

theorem lookup_on {controller : Nat}
    (h : ws.seat? controller = some (k, d)) (p : Position) :
    ((lookup controller p).on ws).1
      = ((Lookup.token d k.engine? ws.config.active.fallsBack p).on
        ⟨k.cache, ws.trace⟩).1 := by
  unfold lookup
  rw [Act.on_bind, Act.on_get]
  exact whenAttached_on _ _ h

/-- Controllers of the same text, with one engine and the same cache,
give the same answers. -/
theorem sameAnswers {vs : Workspace} {controller other : Nat}
    {d' : Document} {k' : Controller} {t t' : Engine.Tokenizer}
    (hs : ws.seat? controller = some (k, d))
    (hs' : vs.seat? other = some (k', d'))
    (ht : k.tokenizer = some t) (ht' : k'.tokenizer = some t')
    (he : t'.engine = t.engine) (htotal : t.engine.Total)
    (hd : d'.content = d.content) (hk : k'.cache = k.cache)
    (hconfig : vs.config.active.fallsBack = ws.config.active.fallsBack) :
    SameAnswers ws controller vs other := by
  have hengine : k.engine? = some t.engine := congrArg (Option.map _) ht
  have hengine' : k'.engine? = some t.engine := by
    rw [← he]
    exact congrArg (Option.map _) ht'
  refine ⟨?_, ?_⟩
  · intro p
    rw [lookup_on hs, lookup_on hs', hengine, hengine', hconfig]
    exact Lookup.token_congr htotal hd hk _ p
  · intro i
    unfold lookupLine
    rw [whenAttached_on _ _ hs, whenAttached_on _ _ hs', hengine,
      hengine']
    exact Lookup.line_congr htotal hd hk i

-- ======================================================== the theorems

/-- The controller has the document and the tokenizer, and its cache
consists of these states, one for each line. -/
def HoldsBuild (ws : Workspace) (controller : Nat) (d : Document)
    (t : Engine.Tokenizer) (states : List TokenState) : Prop :=
  ∃ k, ws.seat? controller = some (k, d) ∧ k.tokenizer = some t
    ∧ k.cache.size = d.lineCount ∧ k.cache.entries = states.map some

/-- The cache of a controller that keeps up is the full build, if that
goes through. -/
theorem KeepsUp.holdsBuild {controller : Nat} {t : Engine.Tokenizer}
    {states : List TokenState} (h : KeepsUp k d.lines)
    (hseat : ws.seat? controller = some (k, d))
    (ht : k.tokenizer = some t)
    (hb : t.engine.fullBuild .none d.lines = .ok states) :
    HoldsBuild ws controller d t states := by
  have hentries := (h t ht).entries_eq hb
  refine ⟨k, hseat, ht, ?_, hentries⟩
  show k.cache.entries.length = d.lines.length
  rw [hentries, List.length_map, Engine.length_fullBuild hb]

theorem Follows.holdsBuild {p : Place} {s : Situation}
    {t : Engine.Tokenizer} {states : List TokenState}
    (h : Follows ws p s) (ht : s.tokenizer = some t)
    (hb : t.engine.fullBuild .none s.document.lines = .ok states) :
    HoldsBuild ws p.controller s.document t states := by
  obtain ⟨k, hk, hkeeps⟩ := h.seated
  exact hkeeps.holdsBuild hk.seat?_eq (hk.tokenizer.trans ht) hb

/-- Controllers of the same text that hold the same build give the same
answers. -/
theorem HoldsBuild.sameAnswers {vs : Workspace} {controller other : Nat}
    {d' : Document} {t t' : Engine.Tokenizer} {states : List TokenState}
    (h : HoldsBuild ws controller d t states)
    (h' : HoldsBuild vs other d' t' states)
    (he : t'.engine = t.engine) (htotal : t.engine.Total)
    (hd : d'.content = d.content)
    (hconfig : vs.config.active.fallsBack = ws.config.active.fallsBack) :
    SameAnswers ws controller vs other := by
  obtain ⟨k, hseat, ht, -, hentries⟩ := h
  obtain ⟨k', hseat', ht', -, hentries'⟩ := h'
  have hcache : k'.cache = k.cache :=
    congrArg StateCache.mk (hentries'.trans hentries.symm)
  exact Workspace.sameAnswers hseat hseat' ht ht' he htotal hd hcache
    hconfig

/-- A move that gives the controller no engine that may fail. -/
def Move.Sure : Move → Prop
  | equip t => ∃ u, t = some u ∧ u.engine.Total
  | _ => True

theorem exists_tokenizer {s : Situation} {t : Engine.Tokenizer}
    (hs : s.tokenizer = some t) (ht : t.engine.Total)
    {moves : List Move} (h : ∀ m ∈ moves, m.Sure) :
    ∃ u, (moves.foldl Situation.after s).tokenizer = some u
      ∧ u.engine.Total := by
  induction moves generalizing s t with
  | nil => exact ⟨t, hs, ht⟩
  | cons m moves ih =>
      have hnext : ∃ u, (s.after m).tokenizer = some u
          ∧ u.engine.Total := by
        cases m with
        | edit changes =>
            refine ⟨t, ?_, ht⟩
            unfold Situation.after
            dsimp only
            split <;> exact hs
        | equip t' => exact h _ (List.mem_cons_self ..)
        | _ => exact ⟨t, hs, ht⟩
      obtain ⟨u, hu, htotal⟩ := hnext
      exact ih hu htotal fun m hm => h m (List.mem_cons_of_mem _ hm)

/-- A controller with engines that never fail, after any run of moves:
its cache is the full build of the document's lines, and it answers all
queries as a controller that is attached to the same text now. -/
theorem attached_equals_fresh {buffer : Nat} {t : Engine.Tokenizer}
    (hd : ws.document? buffer = some d) (hquiet : ws.Quiet buffer)
    (ht : t.engine.Total) :
    ∃ ws₀, (attach buffer (some t) true).on ws
        = (.ok ws.controllers.length, ws₀)
      ∧ ∀ moves : List Move, (∀ m ∈ moves, m.Sure) → ws.Lenient moves →
        ∃ s u states ws',
          s = moves.foldl Situation.after ⟨d, some t, ws.config⟩
          ∧ ws' = afterAll buffer ws.controllers.length moves ws₀
          ∧ s.tokenizer = some u
          ∧ u.engine.fullBuild .none s.document.lines = .ok states
          ∧ HoldsBuild ws' ws.controllers.length s.document u states
          ∧ ∀ (vs : Workspace) (b : Nat) (d' : Document)
              (v : Engine.Tokenizer) (listens : Bool),
            vs.document? b = some d' →
            d'.content.text = s.document.content.text →
            v.engine = u.engine →
            vs.config.active.fallsBack = s.config.active.fallsBack →
            ∃ vs', (attach b (some v) listens).on vs
                = (.ok vs.controllers.length, vs')
              ∧ SameAnswers ws' ws.controllers.length
                vs' vs.controllers.length := by
  obtain ⟨ws₀, -, hattach, -, -, -, -⟩ := attach_ready hd ht true
  refine ⟨ws₀, hattach, ?_⟩
  intro moves hmoves hlenient
  obtain ⟨strict, hafter⟩ := hquiet.follows hd (some t) hlenient
  rw [hattach] at hafter
  obtain ⟨u, hu, htotal⟩ := exists_tokenizer
    (show (⟨d, some t, ws.config⟩ : Situation).tokenizer = some t from rfl)
    ht hmoves
  -- only where the moves have led matters from here on
  generalize moves.foldl Situation.after ⟨d, some t, ws.config⟩ = s
    at hafter hu ⊢
  obtain ⟨states, hb⟩ := htotal.exists_fullBuild .none s.document.lines
  have hbuild := hafter.holdsBuild hu hb
  refine ⟨s, u, states, _, rfl, rfl, hu, hb, hbuild, ?_⟩
  intro vs b d' v listens hd' htext hv hconfig
  -- the fresh controller builds from nothing, on the same lines
  obtain ⟨vs', k', hattach', hconfig', hseat', hk', hkeeps'⟩ :=
    attach_ready hd' (hv ▸ htotal) listens
  have hcontent := Content.text_injective htext
  have hb' : v.engine.fullBuild .none d'.lines = .ok states := by
    rw [hv, show d'.lines = _ from congrArg Content.lines hcontent]
    exact hb
  refine ⟨vs', hattach', hbuild.sameAnswers
    (hkeeps'.holdsBuild hseat' hk' hb') hv htotal hcontent ?_⟩
  rw [hconfig', hconfig, ← hafter.config]

/-- Lines are joined and one is put in above them in one batch, another
batch is refused, and the tokenizer is replaced. -/
theorem attached_equals_fresh_braces :
    ∃ ws₀ ws' vs',
      (attach 0 (some ⟨0, .depth⟩) true).on (watched "\x7b\na\n\x7d")
        = (.ok 0, ws₀)
      ∧ ws' = afterAll 0 0
        [.edit [⟨⟨⟨1, 1⟩, ⟨2, 0⟩⟩, []⟩,
            ⟨⟨⟨0, 0⟩, ⟨0, 0⟩⟩, "\x7b\n".toList⟩],
          .edit [⟨⟨⟨1, 0⟩, ⟨0, 0⟩⟩, []⟩], .equip (some ⟨1, .depth⟩)] ws₀
      ∧ HoldsBuild ws' 0
        ⟨"untitled:document", "plaintext", 1,
          .ofText "\x7b\n\x7b\na\x7d".toList⟩
        ⟨1, .depth⟩ [.number 1, .number 2, .number 1]
      ∧ (attach 0 (some ⟨2, .depth⟩) false).on
          (watched "\x7b\n\x7b\na\x7d") = (.ok 0, vs')
      ∧ SameAnswers ws' 0 vs' 0 := by
  have hdoc : (watched "\x7b\na\n\x7d").document? 0 = some (.new
      "untitled:document" "plaintext" "\x7b\na\n\x7d".toList) := rfl
  have ht : (⟨0, .depth⟩ : Engine.Tokenizer).engine.Total :=
    Engine.total_depth
  obtain ⟨ws₀, hattach, hmoves⟩ :=
    attached_equals_fresh hdoc (quiet_watched _) ht
  obtain ⟨s, u, states, ws', hs, hws', hu, hb, hbuild, hfresh⟩ := hmoves
    [.edit [⟨⟨⟨1, 1⟩, ⟨2, 0⟩⟩, []⟩, ⟨⟨⟨0, 0⟩, ⟨0, 0⟩⟩, "\x7b\n".toList⟩],
      .edit [⟨⟨⟨1, 0⟩, ⟨0, 0⟩⟩, []⟩], .equip (some ⟨1, .depth⟩)]
    (by simp [Move.Sure, Engine.total_depth]) (lenient_watched _ _)
  have hs' : s = ⟨⟨"untitled:document", "plaintext", 1,
      .ofText "\x7b\n\x7b\na\x7d".toList⟩, some ⟨1, .depth⟩, .fresh⟩ := by
    rw [hs]
    cbv
  rw [hs'] at hu hb hbuild hfresh
  obtain rfl := Option.some.inj hu
  have hstates : Engine.depth.fullBuild .none
      (Content.ofText "\x7b\n\x7b\na\x7d".toList).lines
      = .ok [.number 1, .number 2, .number 1] := by cbv
  obtain rfl := Except.ok.inj (hstates.symm.trans hb)
  obtain ⟨vs', hattach', hsame⟩ := hfresh (watched "\x7b\n\x7b\na\x7d") 0
    _ ⟨2, .depth⟩ false rfl rfl rfl rfl
  exact ⟨ws₀, ws', vs', hattach, hws', hbuild, hattach', hsame⟩

/-- A controller with engines that may fail, after any run of moves,
whichever of them failed: if the full build of the document's lines goes
through, the cache is that full build. -/
theorem recovers {buffer controller : Nat}
    {t : Option Engine.Tokenizer} {ws₀ : Workspace}
    (hd : ws.document? buffer = some d) (hquiet : ws.Quiet buffer)
    (hattach : (attach buffer t true).on ws = (.ok controller, ws₀))
    {moves : List Move} (hlenient : ws.Lenient moves) {s : Situation}
    (hs : s = moves.foldl Situation.after ⟨d, t, ws.config⟩)
    {u : Engine.Tokenizer} (hu : s.tokenizer = some u)
    {states : List TokenState}
    (hb : u.engine.fullBuild .none s.document.lines = .ok states) :
    HoldsBuild (afterAll buffer controller moves ws₀) controller
      s.document u states := by
  have hcontroller : controller = ws.controllers.length := by
    rw [attach_on, Act.on_bind] at hattach
    split at hattach
    · exact (Except.ok.inj (Prod.mk.inj hattach).1).symm
    · cases hattach
  obtain ⟨strict, hafter⟩ := hquiet.follows hd t hlenient
  rw [hattach, ← hs] at hafter
  rw [hcontroller]
  exact hafter.holdsBuild hu hb

/-- An engine that fails on a line `c` below a line `a`. -/
def choosy : Engine.Tokenizer :=
  ⟨0, .table [⟨"c".toList, some (.number 1), .fails "not there"⟩,
    ⟨"a".toList, none, .answers [] (.number 1)⟩,
    ⟨"z".toList, none, .answers [] (.number 2)⟩]⟩

/-- The lower of two changes is tokenized first, in the state the line
above it has no longer, and fails; the cascade makes up for it. -/
theorem recovers_skipped :
    ∃ ws₀, (attach 0 (some choosy) true).on (watched "a\nb")
        = (.ok 0, ws₀)
      ∧ HoldsBuild (afterAll 0 0
          [.edit [⟨⟨⟨1, 0⟩, ⟨1, 1⟩⟩, "c".toList⟩,
            ⟨⟨⟨0, 0⟩, ⟨0, 1⟩⟩, "z".toList⟩]] ws₀) 0
        ⟨"untitled:document", "plaintext", 1, .ofText "z\nc".toList⟩
        choosy [.number 2, .number 2] := by
  have hdoc : (watched "a\nb").document? 0 = some (.new
      "untitled:document" "plaintext" "a\nb".toList) := rfl
  have hattach : (attach 0 (some choosy) true).on (watched "a\nb")
      = (.ok 0, ((attach 0 (some choosy) true).on (watched "a\nb")).2) :=
    Prod.ext (by cbv) rfl
  have hs : (⟨⟨"untitled:document", "plaintext", 1,
        .ofText "z\nc".toList⟩, some choosy, .fresh⟩ : Situation)
      = [Move.edit [⟨⟨⟨1, 0⟩, ⟨1, 1⟩⟩, "c".toList⟩,
          ⟨⟨⟨0, 0⟩, ⟨0, 1⟩⟩, "z".toList⟩]].foldl Situation.after
        ⟨.new "untitled:document" "plaintext" "a\nb".toList, some choosy,
          (watched "a\nb").config⟩ := by cbv
  have hb : choosy.engine.fullBuild .none
      (Content.ofText "z\nc".toList).lines
      = .ok [.number 2, .number 2] := by cbv
  exact ⟨_, hattach, recovers hdoc (quiet_watched _) hattach
    (lenient_watched _ _) hs rfl hb⟩

end Relex.Workspace
