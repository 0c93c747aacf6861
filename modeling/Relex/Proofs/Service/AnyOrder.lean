/-
Whatever happens in whichever order.

A service is made in a workspace where nothing is in the way of its
controllers, and anything is done to it and its documents then, in any
order: documents opened, closed, edited and queried, caches rebuilt, loads
begun and finished, jobs resumed, put off or cancelled, the configuration
and the registry changed, all reloaded, the service disposed of. At all
times (`serves_in_any_order`)

- a controller in the map is registered with the document whose URI it is
  stored under, and is up to date: inert and empty, or its cache is the
  full build of the document as it is (`AtWork`);
- any other controller that the service made is out of use, and will be
  for good (`OutOfUse`);
- once the service was disposed of, the map is empty.
-/
import Relex.Proofs.Service.Tended

namespace Relex

-- =========================================================== controllers

namespace Workspace

/-- The controller has no tokenizer and stores nothing, or its cache is
the full build of its document. -/
def UpToDate (ws : Workspace) (c : Nat) (k : Controller)
    (d : Document) : Prop :=
  (k.tokenizer = none ∧ k.cache = .empty)
    ∨ ∃ t states, t.engine.fullBuild .none d.lines = .ok states
      ∧ HoldsBuild ws c d t states

/-- The controller listens to its document, and is up to date. -/
structure AtWork (ws : Workspace) (c : Nat) (k : Controller)
    (d : Document) : Prop where
  seat : ws.seat? c = some (k, d)
  live : k.disposed = false
  subscribed : ∃ r, k.registration = some r
    ∧ ws.registrations[r]? = some ⟨k.buffer, .controller c, true⟩
  listed : ∀ b, ws.buffers[k.buffer]? = some b →
    b.listeners.count (.controller c) = 1
  upToDate : UpToDate ws c k d

/-- The controller was disposed of, listens to nothing, and has no
tokenizer and takes none. -/
structure OutOfUse (ws : Workspace) (c : Nat) (k : Controller) :
    Prop where
  controller : ws.controllers[c]? = some k
  disposed : k.disposed = true
  inert : k.isReady = false
  refuses : ∀ t, (equip c t).on ws = (.ok (), ws)
  silent : ws.Silent c
  unlisted : ∀ b ∈ ws.buffers, .controller c ∉ b.listeners

variable {ws : Workspace} {n c r : Nat} {k : Controller} {d : Document}

theorem Serves.atWork (h : Serves ws c r k d) (hws : ws.Tended n) :
    AtWork ws c k d := by
  refine ⟨h.seat?_eq, h.live, ⟨r, h.registration,
    h.subscribed hws.booked⟩, h.seated.calm.listed, ?_⟩
  cases ht : k.tokenizer with
  | none => exact .inl ⟨ht, h.bare ht⟩
  | some t =>
      have htotal := hws.total k
        (List.mem_of_getElem? h.seated.controller) t ht
      obtain ⟨states, hb⟩ := htotal.exists_fullBuild .none d.lines
      exact .inr ⟨t, states, hb, h.keepsUp.holdsBuild h.seat?_eq ht hb⟩

theorem Gone.outOfUse (h : Gone ws c k) (hws : ws.Tended n)
    (hk : ws.controllers[c]? = some k) : OutOfUse ws c k := by
  refine ⟨hk, h.disposed, ?_, ?_, h.silent, ?_⟩
  · unfold Controller.isReady
    rw [h.tokenizer]
    rfl
  · intro t
    unfold equip
    rw [Act.on_bind, Act.on_get]
    dsimp only
    rw [hk]
    dsimp only
    rw [if_pos h.disposed]
    rfl
  · intro b hb
    obtain ⟨i, hi⟩ := List.mem_iff_getElem?.1 hb
    exact hws.booked.unlisted hi h.silent

end Workspace

-- ============================================================== services

namespace Service

open Workspace (AtWork OutOfUse)

variable {s s' : Service} {n c : Nat}

/-- A new service has no controllers to look after yet. -/
theorem tended_new {ws : Workspace} (hws : ws.Clear)
    {registry : Registry} (hregistry : registry.Built)
    (loader : Option Loader) (config : Option Config) :
    (new ws registry loader config).Tended ws.controllers.length := by
  refine ⟨hws.tended, ?_, ?_, hregistry, fun _ => rfl⟩
  · intro uri c hc
    cases hc
  · intro uri c hn hc
    have := Workspace.lt_of_standing hc
    change c < ws.controllers.length at this
    omega

/-- A controller of the service is in the map, or out of use. -/
theorem Tended.cases (h : s.Tended n) (hn : n ≤ c)
    (hc : c < s.ws.controllers.length) :
    (∃ uri, s.controllers.get? uri = some c)
      ∨ ∃ k, OutOfUse s.ws c k := by
  have hk := List.getElem?_eq_getElem hc
  rcases h.ws.each c _ hn hk with hgone | ⟨r, d, hserves⟩
  · exact .inr ⟨_, hgone.outOfUse h.ws hk⟩
  · have hstands := Workspace.standing_of_seat? hserves.seat?_eq
    rw [hserves.live] at hstands
    exact .inl ⟨_, h.complete _ c hn hstands⟩

/-- A controller that is out of use stays out of use. -/
theorem Leads.outOfUse (h : Leads n s s') (hn : n ≤ c)
    (hc : ∃ k, OutOfUse s.ws c k) :
    (∃ k, OutOfUse s'.ws c k) ∧ ∀ uri, s'.controllers.get? uri ≠ some c
    := by
  obtain ⟨k, hk⟩ := hc
  have hstands : s.ws.standing c = some (true, s.ws.uri? k.buffer) := by
    unfold Workspace.standing
    rw [hk.controller, Option.map_some, hk.disposed]
  obtain ⟨gone, hstands', hgone⟩ := h.lasting _ _ _ hstands
  have hunmapped : ∀ uri, s'.controllers.get? uri ≠ some c := by
    intro uri huri
    have hlive := (h.tended.standing huri).2
    rw [hgone rfl, hlive] at hstands'
    cases hstands'
  refine ⟨?_, hunmapped⟩
  rcases h.tended.cases hn (Workspace.lt_of_standing hstands')
    with ⟨uri, huri⟩ | hout
  · exact absurd huri (hunmapped uri)
  · exact hout

theorem disposed_afterAll (h : s.Tended n) {moves : List Move}
    (hm : .dispose ∈ moves) : (afterAll moves s).disposed = true := by
  induction moves generalizing s with
  | nil => cases hm
  | cons m moves ih =>
      have hfirst := Move.leads h m
      rcases List.mem_cons.1 hm with rfl | hm
      · exact (hfirst.tended.afterAll moves).disposed rfl
      · exact ih hfirst.tended hm

/-- Whatever is done to a service in whichever order: the controllers in
the map are at work for the documents whose URIs they are stored under,
all others it made are out of use and stay so, and from its disposal on
there are none in the map. -/
theorem serves_in_any_order {ws : Workspace} (hws : ws.Clear)
    {registry : Registry} (hregistry : registry.Built)
    {loader : Option Loader} {config : Option Config}
    {moves more : List Move} {s s' : Service}
    (hs : s = afterAll moves (new ws registry loader config))
    (hs' : s' = afterAll more s) :
    (∀ uri c, s.controllers.get? uri = some c →
      ∃ k d, AtWork s.ws c k d ∧ d.uri = uri)
    ∧ (∀ c, ws.controllers.length ≤ c →
      c < s.ws.controllers.length →
      (∃ uri, s'.controllers.get? uri = some c)
        ∨ ∃ k, OutOfUse s'.ws c k)
    ∧ (∀ c, ws.controllers.length ≤ c → (∃ k, OutOfUse s.ws c k) →
      (∃ k, OutOfUse s'.ws c k)
        ∧ ∀ uri, s'.controllers.get? uri ≠ some c)
    ∧ (.dispose ∈ moves → s'.controllers = .empty) := by
  have hnew := tended_new hws hregistry loader config
  have hleads := hnew.afterAll moves
  rw [← hs] at hleads
  -- the later moves start from a service that looks after its map
  have hmore := hleads.tended.afterAll more
  rw [← hs'] at hmore
  refine ⟨?_, ?_, ?_, ?_⟩
  · intro uri c hc
    obtain ⟨hn, hstands⟩ := hleads.tended.standing hc
    obtain ⟨r, k, d, hserves, huri⟩ :=
      hleads.tended.ws.serves_of_standing hn hstands
    exact ⟨k, d, hserves.atWork hleads.tended.ws, huri⟩
  · intro c hn hc
    have hthere : s.ws.standing c = some _ :=
      congrArg (Option.map _) (List.getElem?_eq_getElem hc)
    obtain ⟨_, hstands, -⟩ := hmore.lasting _ _ _ hthere
    exact hmore.tended.cases hn (Workspace.lt_of_standing hstands)
  · intro c hn hc
    exact hmore.outOfUse hn hc
  · intro hdispose
    have hdisposed := disposed_afterAll hnew hdispose
    rw [← hs] at hdisposed
    exact hmore.tended.ended (hmore.disposed hdisposed)

-- ======================================================== an instance

/-- A grammar without rules. -/
def plain : Grammar := ⟨"source.plain", [], [], ""⟩

/-- A loader that is waited for, and then comes with a grammar. -/
def slowLoader : Loader := fun _ _ => ⟨.grammar plain, true⟩

/-- Two documents to which nobody listens. -/
def twoDocuments : Workspace :=
  let ws := (Workspace.empty.addBuffer
    (.new "untitled:a" "plain" ['a'])).2
  (ws.addBuffer (.new "untitled:b" "plain" [])).2

theorem clear_twoDocuments : twoDocuments.Clear := by
  refine ⟨(Workspace.Grounded.empty.addBuffer _).addBuffer _,
    (Workspace.Booked.empty.addBuffer _ fun _ => rfl).addBuffer _
      fun _ => rfl, rfl, ?_, ?_⟩
  · intro w hw
    cases hw
  · intro k hk
    cases hk

/-- A document is opened, edited, closed, opened again and edited again
before the loader comes back; then both that wait are told. -/
def reopened : List Move :=
  [.start ⟨0, .openBuffer 0⟩, .turn, .turn,
    .edit 0 [⟨⟨⟨0, 0⟩, ⟨0, 1⟩⟩, ['<', '\n']⟩], .close 0,
    .start ⟨1, .openBuffer 0⟩, .turn,
    .edit 0 [⟨⟨⟨1, 0⟩, ⟨1, 0⟩⟩, ['>']⟩], .comeBack 0, .turn, .turn, .turn,
    .turn, .turn, .turn]

theorem controllers_reopened (s : Service)
    (hs : s = afterAll reopened (new twoDocuments
      (Registry.empty.mapLanguage "plain" "source.plain")
      (some slowLoader) none)) :
    s.controllers = ⟨[("untitled:a", 1)]⟩
      ∧ s.ws.controllers.length = 2
      ∧ (s.ws.seat? 1).map (fun seat => (seat.1.isReady, seat.2.content))
        = some (true, .ofText ['<', '\n', '>']) := by
  subst hs
  refine ⟨?_, ?_, ?_⟩ <;> cbv

/-- The tokenizer goes to the controller of the second opening. Then the
service is disposed of, and both controllers are out of use. -/
theorem serves_in_any_order_reopened :
    ∃ s s' k d, s = afterAll reopened (new twoDocuments
        (Registry.empty.mapLanguage "plain" "source.plain")
        (some slowLoader) none)
      ∧ s' = afterAll [.dispose] s
      ∧ AtWork s.ws 1 k d ∧ k.isReady = true
      ∧ d.uri = "untitled:a" ∧ d.content = .ofText ['<', '\n', '>']
      ∧ (∃ k, OutOfUse s'.ws 0 k) ∧ (∃ k, OutOfUse s'.ws 1 k)
      ∧ s'.controllers = .empty := by
  have hregistry : (Registry.empty.mapLanguage "plain"
      "source.plain").Built := Registry.From.empty.mapLanguage ..
  obtain ⟨s, hs⟩ : ∃ s, s = afterAll reopened (new twoDocuments
    (Registry.empty.mapLanguage "plain" "source.plain")
    (some slowLoader) none) := ⟨_, rfl⟩
  obtain ⟨s', hs'⟩ : ∃ s', s' = afterAll [.dispose] s := ⟨_, rfl⟩
  obtain ⟨hmap, hlength, hseat⟩ := controllers_reopened s hs
  obtain ⟨hstored, hmade, -, -⟩ :=
    serves_in_any_order clear_twoDocuments hregistry hs hs'
  have hdisposed : s' = afterAll (reopened ++ [.dispose])
      (new twoDocuments (Registry.empty.mapLanguage "plain" "source.plain")
        (some slowLoader) none) := by
    rw [hs', hs]
    rfl
  have hsame : s' = afterAll [] s' := rfl
  obtain ⟨-, -, -, hempty⟩ :=
    serves_in_any_order clear_twoDocuments hregistry hdisposed hsame
  have hempty := hempty (by simp)
  -- the map is empty, so nobody is at work any more
  have hout : ∀ c, c < 2 → ∃ k, OutOfUse s'.ws c k := by
    intro c hc
    refine (hmade c (Nat.zero_le c) (by omega)).resolve_left ?_
    rintro ⟨uri, h⟩
    rw [hempty] at h
    cases h
  obtain ⟨k, d, hwork, huri⟩ := hstored "untitled:a" 1 (by rw [hmap]; rfl)
  rw [hwork.seat] at hseat
  have hseat := Option.some.inj hseat
  exact ⟨s, s', k, d, hs, hs', hwork, congrArg Prod.fst hseat, huri,
    congrArg Prod.snd hseat, hout 0 (by omega), hout 1 (by omega), hempty⟩

end Service

end Relex
