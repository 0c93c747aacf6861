/-
Where controllers stand.

A controller either serves its document (`Serves`): it is registered with
it once, keeps up with it, and as long as it has no tokenizer its cache is
empty. Or it is gone (`Gone`): it was disposed of, and has no tokenizer,
no cache and no live registration.

`standing` tells the two apart, and says whose document it is. Attaching
a controller and disposing of it change its own standing only
(`standing_withNew`, `standing_retire`), and an edit changes nobody's
(`Frame.standing`): all it does to controllers is change their caches.
-/
import Relex.Proofs.Workspace.Booked
import Relex.Proofs.Workspace.Neighbours

namespace Relex.Workspace

-- ============================================================= standing

/-- The controller's document has it on its list once, it keeps up, and
without a tokenizer it stores nothing. -/
structure Serves (ws : Workspace) (c r : Nat) (k : Controller)
    (d : Document) : Prop where
  seated : Seated ws ⟨k.buffer, c, r, true⟩ ⟨d, k.tokenizer, ws.config⟩ k
  keepsUp : KeepsUp k d.lines
  registration : k.registration = some r
  bare : k.tokenizer = none → k.cache = .empty

/-- The controller has no live registration. -/
def Silent (ws : Workspace) (c : Nat) : Prop :=
  ∀ s ∈ ws.registrations, s.listener = .controller c → s.live = false

/-- The controller was disposed of, and nothing is left of it. -/
structure Gone (ws : Workspace) (c : Nat) (k : Controller) : Prop where
  disposed : k.disposed = true
  tokenizer : k.tokenizer = none
  cache : k.cache = .empty
  registration : k.registration = none
  silent : ws.Silent c

/-- The URI of a buffer's document. -/
def uri? (ws : Workspace) (buffer : Nat) : Option String :=
  (ws.document? buffer).map (·.uri)

/-- Whether a controller was disposed of, and the URI of its
document. -/
def standing (ws : Workspace) (c : Nat) :
    Option (Bool × Option String) :=
  (ws.controllers[c]?).map fun k => (k.disposed, ws.uri? k.buffer)

variable {ws ws' : Workspace} {c r b : Nat} {k : Controller}
  {d : Document}

/-- The standing of a controller is read off its seat. -/
theorem standing_of_seat? (h : ws.seat? c = some (k, d)) :
    ws.standing c = some (k.disposed, some d.uri) := by
  obtain ⟨hk, hd⟩ := seat?_eq_some.1 h
  unfold standing uri?
  rw [hk, Option.map_some, hd]
  rfl

theorem lt_of_standing {x : Bool × Option String}
    (h : ws.standing c = some x) : c < ws.controllers.length := by
  obtain ⟨k, hk, -⟩ := Option.map_eq_some_iff.1 h
  exact (List.getElem?_eq_some_iff.1 hk).1

/-- Where a controller stands depends on where it sits, on whether it was
disposed of, and on the URIs. -/
theorem standing_congr
    (hk : (ws'.controllers[c]?).map (fun k => (k.buffer, k.disposed))
      = (ws.controllers[c]?).map fun k => (k.buffer, k.disposed))
    (hd : ∀ b, ws'.uri? b = ws.uri? b) :
    ws'.standing c = ws.standing c := by
  have hview : ∀ ws : Workspace, ws.standing c
      = ((ws.controllers[c]?).map fun k => (k.buffer, k.disposed)).map
        fun x => (x.2, ws.uri? x.1) := by
    intro ws
    rw [Option.map_map]
    rfl
  rw [hview ws', hview ws, hk]
  simp only [hd]

namespace Serves

theorem seat?_eq (h : Serves ws c r k d) :
    ws.seat? c = some (k, d) :=
  h.seated.seat?_eq

theorem live (h : Serves ws c r k d) : k.disposed = false :=
  (h.seated.calm.seated k h.seated.controller).2

/-- A controller that is not disturbed goes on to serve. -/
theorem undisturbed (h : Serves ws c r k d)
    (hu : Undisturbed ⟨k.buffer, c, r, true⟩ ws ws') :
    Serves ws' c r k d := by
  refine ⟨?_, h.keepsUp, h.registration, h.bare⟩
  rw [hu.config]
  exact h.seated.undisturbed hu

/-- Another configuration is no matter, since no engine fails. -/
theorem configure (h : Serves ws c r k d) (config : Ambient) :
    Serves { ws with config } c r k d := by
  have hcalm := h.seated.calm
  exact ⟨⟨⟨hcalm.listed, hcalm.registered, hcalm.seated, hcalm.habits,
    hcalm.total, fun _ => rfl⟩, h.seated.document, rfl,
    h.seated.controller, rfl⟩, h.keepsUp, h.registration, h.bare⟩

/-- The registration of a controller that serves is live. -/
theorem subscribed (h : Serves ws c r k d) (hb : ws.Booked) :
    ws.registrations[r]? = some ⟨k.buffer, .controller c, true⟩ := by
  obtain ⟨buffer, hbuffer, -⟩ := Option.map_eq_some_iff.1 h.seated.document
  have hone := h.seated.calm.listed buffer hbuffer
  have hlisted : .controller c ∈ buffer.listeners :=
    List.count_pos_iff.1 (by rw [hone]; exact Nat.one_pos)
  obtain ⟨i, hi⟩ := hb.exists_live hbuffer hlisted
  obtain rfl := h.seated.calm.registered i _ hi rfl
  exact hi

end Serves

-- =========================================================== attaching

/-- What is gone stays gone when a controller is attached. -/
theorem Gone.withNew (h : Gone ws c k) (hc : c < ws.controllers.length)
    (b : Nat) : Gone (ws.withNew b none true) c k := by
  refine ⟨h.1, h.2, h.3, h.4, ?_⟩
  intro s hs hl
  rcases List.mem_append.1 hs with hs | hs
  · exact h.silent s hs hl
  · obtain rfl := List.mem_singleton.1 hs
    have := Listener.controller.inj hl
    omega

/-- The new controller stands first with its document; the others stand
where they stood. -/
theorem standing_withNew (hd : ws.document? b = some d) (c : Nat) :
    (ws.withNew b none true).standing c
      = if c = ws.controllers.length then some (false, some d.uri)
        else ws.standing c := by
  have huri : ∀ b', (ws.withNew b none true).uri? b' = ws.uri? b' :=
    fun _ => congrArg (Option.map _) (document_relist ..)
  have hget : (ws.withNew b none true).controllers[c]?
      = (ws.controllers ++ [⟨b, none, .empty,
          some ws.registrations.length, false⟩])[c]? := rfl
  by_cases hc : c = ws.controllers.length
  · subst hc
    rw [if_pos rfl]
    unfold standing
    rw [hget, List.getElem?_concat_length, Option.map_some, huri]
    simp [uri?, hd]
  · rw [if_neg hc]
    refine standing_congr ?_ huri
    rw [hget, List.getElem?_append]
    split
    · rfl
    · rw [List.getElem?_eq_none (by rw [List.length_singleton]; omega),
        List.getElem?_eq_none (by omega)]

-- =========================================================== disposing

/-- What disposing of a controller leaves as it is. -/
theorem retire_frame (ws : Workspace) (c : Nat) :
    (ws.retire c).plans = ws.plans
      ∧ (ws.retire c).watchers = ws.watchers
      ∧ (ws.retire c).registrations.length = ws.registrations.length
      ∧ (ws.retire c).controllers.length = ws.controllers.length := by
  refine retire_keeps (P := fun ws' => ws'.plans = ws.plans
    ∧ ws'.watchers = ws.watchers
    ∧ ws'.registrations.length = ws.registrations.length
    ∧ ws'.controllers.length = ws.controllers.length)
    ⟨rfl, rfl, rfl, rfl⟩ ?_ ?_
  · intro k r _ _
    unfold unsubscribe
    split
    · exact ⟨rfl, rfl, rfl, rfl⟩
    · split
      · exact ⟨rfl, rfl, List.length_set .., rfl⟩
      · exact ⟨rfl, rfl, rfl, rfl⟩
  · intro ws' h
    exact ⟨h.1, h.2.1, h.2.2.1, (List.length_modify ..).trans h.2.2.2⟩

/-- Disposing of a registration leaves the others as they are, and makes
none live. -/
theorem registrations_unsubscribe {i j : Nat} {s' : Registration}
    (h : (ws.unsubscribe i).registrations[j]? = some s') :
    ∃ s, ws.registrations[j]? = some s ∧ s'.listener = s.listener
      ∧ (s'.live = true → s.live = true ∧ i ≠ j) := by
  unfold unsubscribe at h
  cases hs : ws.registrations[i]? with
  | none =>
      rw [hs] at h
      have hne : i ≠ j := by
        rintro rfl
        cases hs.symm.trans h
      exact ⟨s', h, rfl, fun hlive => ⟨hlive, hne⟩⟩
  | some s =>
      rw [hs] at h
      dsimp only at h
      by_cases hlive : s.live
      · rw [if_pos hlive] at h
        have h : (ws.registrations.set i { s with live := false })[j]?
            = some s' := h
        rw [List.getElem?_set] at h
        by_cases hij : i = j
        · subst hij
          rw [if_pos rfl] at h
          split at h
          · obtain rfl := Option.some.inj h
            exact ⟨s, hs, rfl, fun hon => by cases hon⟩
          · cases h
        · rw [if_neg hij] at h
          exact ⟨s', h, rfl, fun hon => ⟨hon, hij⟩⟩
      · rw [if_neg hlive] at h
        refine ⟨s', h, rfl, fun hon => ⟨hon, ?_⟩⟩
        rintro rfl
        obtain rfl := Option.some.inj (hs.symm.trans h)
        exact hlive hon

/-- Who is silent stays so when a registration is disposed of. -/
theorem Silent.unsubscribe (h : ws.Silent c) (i : Nat) :
    (ws.unsubscribe i).Silent c := by
  intro s' hs' hl
  obtain ⟨j, hj⟩ := List.mem_iff_getElem?.1 hs'
  obtain ⟨s, hs, hlistener, hlive⟩ := registrations_unsubscribe hj
  have hdead := h s (List.mem_of_getElem? hs) (hlistener ▸ hl)
  by_contra hon
  have := (hlive (by simpa using hon)).1
  rw [hdead] at this
  cases this

theorem Silent.retire (h : ws.Silent c) (i : Nat) :
    (ws.retire i).Silent c :=
  retire_keeps (P := (Silent · c)) h (fun _ r _ _ => h.unsubscribe r)
    fun _ h => h

/-- A controller whose registration is disposed of has none left. -/
theorem Serves.silent (h : Serves ws c r k d) :
    (ws.unsubscribe r).Silent c := by
  intro s' hs' hl
  obtain ⟨j, hj⟩ := List.mem_iff_getElem?.1 hs'
  obtain ⟨s, hs, hlistener, hlive⟩ := registrations_unsubscribe hj
  have hr : j = r := h.seated.calm.registered j s hs (hlistener ▸ hl)
  by_contra hon
  exact (hlive (by simpa using hon)).2 hr.symm

/-- Of the controllers, only the one that is disposed of changes. -/
theorem controllers_retire (ws : Workspace) (i j : Nat) :
    (ws.retire i).controllers[j]? = (ws.controllers[j]?).map fun k =>
      if i = j then k.dropped else k := by
  cases hi : ws.controllers[i]? with
  | none =>
      unfold Workspace.retire
      rw [hi]
      by_cases hij : i = j
      · subst hij
        rw [hi]
        rfl
      · simp [hij]
  | some k =>
      have hretire : (ws.retire i).controllers
          = ws.controllers.modify i (·.dropped) := by
        unfold Workspace.retire
        rw [hi]
        dsimp only
        cases k.registration with
        | none => rfl
        | some r =>
            show (ws.unsubscribe r).controllers.modify i _ = _
            rw [controllers_unsubscribe]
            rfl
      rw [hretire]
      exact List.getElem?_modify ..

theorem document?_retire (ws : Workspace) (i j : Nat) :
    (ws.retire i).document? j = ws.document? j :=
  retire_keeps (P := fun ws' => ws'.document? j = ws.document? j) rfl
    (fun _ r _ _ => document?_unsubscribe ws r j) fun _ h => h

theorem uri?_retire (ws : Workspace) (i j : Nat) :
    (ws.retire i).uri? j = ws.uri? j :=
  congrArg (Option.map _) (document?_retire ws i j)

/-- Disposing of a controller changes its standing, and no other's. -/
theorem standing_retire (ws : Workspace) (i j : Nat) :
    (ws.retire i).standing j = if i = j
      then (ws.standing j).map fun s => (true, s.2)
      else ws.standing j := by
  unfold standing
  simp only [uri?_retire, controllers_retire]
  by_cases hij : i = j
  · subst hij
    simp [Controller.dropped, Function.comp_def]
  · simp [hij]

/-- Of two controllers that serve, neither has the other's
registration. -/
theorem Serves.ne {c' r' : Nat} {k' : Controller} {d' : Document}
    (h : Serves ws c r k d) (h' : Serves ws c' r' k' d')
    (hb : ws.Booked) (hne : c ≠ c') : r ≠ r' := by
  rintro rfl
  have hsame := (h.subscribed hb).symm.trans (h'.subscribed hb)
  simp only [Option.some.injEq, Registration.mk.injEq,
    Listener.controller.injEq] at hsame
  exact hne hsame.2.1

-- ============================================================== edits

/-- The controller is the same but for its cache, and its cache too if it
has no tokenizer. -/
structure Alike (k k' : Controller) : Prop where
  buffer : k'.buffer = k.buffer
  tokenizer : k'.tokenizer = k.tokenizer
  registration : k'.registration = k.registration
  disposed : k'.disposed = k.disposed
  cache : k.tokenizer = none → k'.cache = k.cache

/-- What an edit leaves as it is. -/
structure Frame (ws ws' : Workspace) : Prop where
  watchers : ws'.watchers = ws.watchers
  registrations : ws.registrations.length ≤ ws'.registrations.length
  controllers : ws'.controllers.length = ws.controllers.length
  alike : ∀ (c : Nat) (k' : Controller), ws'.controllers[c]? = some k' →
    ∃ k, ws.controllers[c]? = some k ∧ Alike k k'
  uri : ∀ b, ws'.uri? b = ws.uri? b
  silent : ∀ c, ws.Silent c → ws'.Silent c

namespace Frame

theorem refl (ws : Workspace) : Frame ws ws :=
  ⟨rfl, le_rfl, rfl, fun _ k hk => ⟨k, hk, rfl, rfl, rfl, rfl,
    fun _ => rfl⟩, fun _ => rfl, fun _ h => h⟩

variable {ws₀ : Workspace}

theorem unsubscribe (h : Frame ws₀ ws) (i : Nat) :
    Frame ws₀ (ws.unsubscribe i) := by
  have hlength : (ws.unsubscribe i).registrations.length
      = ws.registrations.length := by
    unfold Workspace.unsubscribe
    split
    · rfl
    · split
      · exact List.length_set ..
      · rfl
  refine ⟨?_, ?_, ?_, ?_, ?_, fun c hc => (h.silent c hc).unsubscribe i⟩
  · rw [watchers_unsubscribe]
    exact h.watchers
  · rw [hlength]
    exact h.registrations
  · rw [controllers_unsubscribe]
    exact h.controllers
  · rw [controllers_unsubscribe]
    exact h.alike
  · intro b
    unfold uri?
    rw [document?_unsubscribe]
    exact h.uri b

theorem subscribe (h : Frame ws₀ ws) (b w : Nat) :
    Frame ws₀ (ws.subscribe b (.watcher w)).2 := by
  refine ⟨h.watchers, ?_, h.controllers, h.alike, ?_, ?_⟩
  · have hregistrations := h.registrations
    show _ ≤ (ws.registrations ++ [_]).length
    rw [List.length_append]
    omega
  · intro b'
    unfold uri?
    rw [document?_subscribe]
    exact h.uri b'
  · intro c hc s hs hl
    rcases List.mem_append.1 hs with hs | hs
    · exact h.silent c hc s hs hl
    · obtain rfl := List.mem_singleton.1 hs
      cases hl

/-- A cache may change if there is a tokenizer to change it. -/
theorem leave (h : Frame ws₀ ws) {t : Engine.Tokenizer}
    (hk : ws.controllers[c]? = some k) (ht : k.tokenizer = some t)
    (bench : Bench) : Frame ws₀ (ws.leave c bench) := by
  refine ⟨h.watchers, h.registrations,
    (List.length_modify ..).trans h.controllers, ?_, h.uri, h.silent⟩
  intro j k' hk'
  have hk' : (ws.controllers.modify c _)[j]? = some k' := hk'
  rw [List.getElem?_modify] at hk'
  obtain ⟨k₁, hk₁, rfl⟩ := Option.map_eq_some_iff.1 hk'
  obtain ⟨k₀, hk₀, halike⟩ := h.alike j k₁ hk₁
  refine ⟨k₀, hk₀, ?_⟩
  by_cases hj : c = j
  · subst hj
    obtain rfl := Option.some.inj (hk.symm.trans hk₁)
    rw [if_pos rfl]
    refine ⟨halike.1, halike.2, halike.3, halike.4, ?_⟩
    intro hnone
    rw [halike.tokenizer, hnone] at ht
    cases ht
  · rw [if_neg hj]
    exact halike

/-- A document that takes a batch keeps its URI. -/
theorem applyBatch (h : Frame ws₀ ws) {changes applied : List Change}
    {nested : List Delivery}
    (happly : ws.applyBatch b changes = .ok (applied, nested, ws')) :
    Frame ws₀ ws' := by
  have hbatch := batch_taking happly
  generalize ws.taking b applied = taking at hbatch
  clear happly
  cases hbatch with
  | absent hb => exact h
  | @taken old d applied hb happly =>
      refine ⟨h.watchers, h.registrations, h.controllers, h.alike, ?_,
        h.silent⟩
      intro j
      rw [← h.uri j]
      unfold uri?
      rw [document?_set hb]
      by_cases hj : b = j
      · subst hj
        simp [document?, hb, Document.uri_of_apply happly]
      · simp [hj]

end Frame

/-- An edit leaves so much as it is, whatever the listeners do. -/
theorem frame_edit (ws : Workspace) (b : Nat) (changes : List Change) :
    Frame ws ((edit b changes).on ws).2 := by
  refine edit_keeps ?_ ?_ (fun _ _ _ _ _ _ h happly =>
    h.applyBatch happly) b changes ws (.refl ws)
  · intro ws' plans h
    exact ⟨h.1, h.2, h.3, h.4, h.5, h.6⟩
  · intro e
    refine deliver_keeps ?_ (fun _ i h => h.unsubscribe i)
      (fun _ b w h => h.subscribe b w)
      fun _ i k t bench _ hk ht h => h.leave hk ht bench
    intro ws' w sightings _ h
    exact ⟨h.1, h.2, h.3, h.4, h.5, h.6⟩

/-- What is gone stays gone through an edit. -/
theorem Frame.gone {k' : Controller} (h : Frame ws ws')
    (hgone : Gone ws c k) (halike : Alike k k') : Gone ws' c k' :=
  ⟨halike.disposed.trans hgone.disposed,
    halike.tokenizer.trans hgone.tokenizer,
    (halike.cache hgone.tokenizer).trans hgone.cache,
    halike.registration.trans hgone.registration,
    h.silent c hgone.silent⟩

theorem Frame.standing (h : Frame ws ws') (c : Nat) :
    ws'.standing c = ws.standing c := by
  refine standing_congr ?_ h.uri
  cases hk' : ws'.controllers[c]? with
  | none =>
      have hlength := h.controllers
      have := List.getElem?_eq_none_iff.1 hk'
      rw [List.getElem?_eq_none (by omega)]
  | some k' =>
      obtain ⟨k, hk, halike⟩ := h.alike c k' hk'
      rw [hk]
      simp [halike.buffer, halike.disposed]

end Relex.Workspace
