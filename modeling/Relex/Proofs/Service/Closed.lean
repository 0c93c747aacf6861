/-
What a closing outlasts.

A document that was closed stays closed, whatever happens to the service,
as long as nobody means to open it: its URI is not in the map, the
controllers it had are out of use, and no query of it has an answer
(`stays_closed`).

An opening that is under way when the document is closed does not open it
again: it has its controller already, and installs the tokenizer only if
that is still the one of the URI. But there may be jobs that have the
document ahead (`Task.ahead`): one that was started to open it and did not
begin yet, or a reload that closed all documents, remembers which they
were, and has not come to this one. They open it when their turn comes,
without looking whether it was closed meanwhile (`reopens_closed`).
-/
import Relex.Proofs.Service.AnyOrder
import Relex.Proofs.Service.Upkeep

namespace Relex

/-- The buffers whose documents a task is still to open. A reload that did
not begin yet has none: it opens those that are open then. -/
def Task.ahead : Task → List Nat
  | .openBuffer buffer => [buffer]
  | .install _ _ _ (some ⟨left, _⟩) => left
  | _ => []

namespace Service

open Workspace (OutOfUse)

/-- The job is not to open documents of this URI. -/
def Elsewhere (s : Service) (uri : String) (job : Job) : Prop :=
  ∀ b ∈ job.task.ahead, s.ws.uri? b ≠ some uri

theorem elsewhere_of_ahead (s : Service) (uri : String) {job : Job}
    (h : job.task.ahead = []) : s.Elsewhere uri job := by
  intro b hb
  rw [h] at hb
  cases hb

-- ================================================== what openings change

variable {first s s' : Service} {n buffer : Nat} {uri : String}

/-- Beginning to open a document may ask for its tokenizer, and may put a
controller in the map, for this document only. -/
theorem beginOpening_frame (s : Service) (buffer : Nat) :
    ((s.beginOpening buffer).2.loads = s.loads
      ∨ ∃ scope, (s.beginOpening buffer).2.loads
        = { (s.loads.askTokenizer scope).2 with journal := [] })
    ∧ ((s.beginOpening buffer).2.controllers = s.controllers
      ∨ ∃ d c, s.ws.document? buffer = some d
        ∧ (s.beginOpening buffer).2.controllers
          = s.controllers.insert d.uri c) := by
  unfold beginOpening
  split
  · exact ⟨.inl rfl, .inl rfl⟩
  · next d hd =>
    split
    · exact ⟨.inl rfl, .inl rfl⟩
    · split
      · next c hc =>
        unfold act
        dsimp only
        rcases (Workspace.underConfig? s.config
          (Workspace.rebuild c)).on s.ws with ⟨_ | _, _⟩
        · exact ⟨.inl rfl, .inl rfl⟩
        · exact ⟨.inl rfl, .inl rfl⟩
      · split
        · exact ⟨.inl rfl, .inl rfl⟩
        · next scope hscope =>
          unfold act
          dsimp only
          rcases (Workspace.attach buffer none true).on s.ws
            with ⟨_ | c, ws⟩
          · exact ⟨.inl rfl, .inl rfl⟩
          · unfold withLoads
            dsimp only
            rcases hask : s.loads.askTokenizer scope with ⟨t | id, l⟩
            · dsimp only
              rw [(install_frame ..).1, (install_frame ..).2.2]
              exact ⟨.inr ⟨scope, by rw [hask]⟩, .inr ⟨d, c, hd, rfl⟩⟩
            · exact ⟨.inr ⟨scope, by rw [hask]⟩, .inr ⟨d, c, hd, rfl⟩⟩

-- ================================================================= shut

/-- Since some moment no document of this URI is open, and no job that is
left is to open one. -/
structure Shut (n : Nat) (first : Service) (uri : String) (s : Service) :
    Prop where
  leads : Leads n first s
  unmapped : s.controllers.get? uri = none
  jobs : s.loads.Carries (first.Elsewhere uri)

namespace Shut

theorem tended (h : Shut n first uri s) : s.Tended n := h.leads.tended

theorem moved (h : Shut n first uri s) (hl : Leads n s s')
    (hc : s'.controllers = s.controllers)
    (hjobs : s'.loads.Carries (first.Elsewhere uri)) :
    Shut n first uri s' :=
  ⟨h.leads.trans hl, hc ▸ h.unmapped, hjobs⟩

theorem finish (h : Shut n first uri s) (number : Nat)
    (outcome : Outcome) : Shut n first uri (s.finish number outcome) :=
  h.moved (h.tended.finish ..) rfl h.jobs

theorem suspend (h : Shut n first uri s) (fetch : Nat) {job : Job}
    (hjob : first.Elsewhere uri job) :
    Shut n first uri (s.suspend fetch job) :=
  h.moved (h.tended.suspend ..) rfl (h.jobs.join fetch hjob)

theorem withLoads (h : Shut n first uri s) {α : Type}
    {f : Loads Job → α × Loads Job} (hl : Leads n s (s.withLoads f).2)
    (hf : (f s.loads).2.Carries (first.Elsewhere uri)) :
    Shut n first uri (s.withLoads f).2 :=
  h.moved hl rfl ⟨hf.ready, hf.waiting⟩

theorem install (h : Shut n first uri s) (scope other : String) (c : Nat)
    {t : Option GrammarTokenizer}
    (ht : ∀ u, t = some u → u.toTokenizer.engine.Total) :
    Shut n first uri (s.install scope other c t).2 := by
  obtain ⟨hloads, -, hcontrollers⟩ := install_frame s scope other c t
  refine h.moved (h.tended.install scope other c ht) hcontrollers ?_
  rw [hloads]
  exact h.jobs

theorem beginOpening (h : Shut n first uri s)
    (hb : first.ws.uri? buffer ≠ some uri) :
    Shut n first uri (s.beginOpening buffer).2 := by
  obtain ⟨hloads, hcontrollers⟩ := beginOpening_frame s buffer
  refine ⟨h.leads.trans (h.tended.beginOpening buffer), ?_, ?_⟩
  · rcases hcontrollers with hsame | ⟨d, c, hd, hnew⟩
    · rw [hsame]
      exact h.unmapped
    · rw [hnew, Table.get?_insert, if_neg, h.unmapped]
      rintro rfl
      apply hb
      rw [← h.leads.uri]
      exact congrArg (Option.map _) hd
  · rcases hloads with hsame | ⟨scope, hnew⟩
    · rw [hsame]
      exact h.jobs
    · have hasked := h.jobs.askTokenizer scope
      rw [hnew]
      exact ⟨hasked.ready, hasked.waiting⟩

theorem openBuffer (h : Shut n first uri s) (number : Nat)
    (hb : first.ws.uri? buffer ≠ some uri) :
    Shut n first uri (s.openBuffer number buffer) := by
  have hbegun := h.beginOpening hb
  unfold Service.openBuffer
  split
  · next hopen =>
    rw [hopen] at hbegun
    exact hbegun.finish ..
  · next hopen =>
    rw [hopen] at hbegun
    exact hbegun.finish ..
  · next hopen =>
    rw [hopen] at hbegun
    exact hbegun.suspend _ (elsewhere_of_ahead _ _ rfl)

theorem reopen (h : Shut n first uri s) (number total : Nat)
    {buffers : List Nat}
    (hb : ∀ b ∈ buffers, first.ws.uri? b ≠ some uri) :
    Shut n first uri (Service.reopen number total buffers s) := by
  induction buffers generalizing s with
  | nil =>
      have hnoted := h.moved (h.tended.noted (.ofService .info
        ("Reloaded " ++ toString total ++ " document(s)"))) rfl h.jobs
      exact hnoted.finish ..
  | cons buffer left ih =>
      have hleft : ∀ b ∈ left, first.ws.uri? b ≠ some uri :=
        fun b hmem => hb b (List.mem_cons_of_mem _ hmem)
      have hbegun := h.beginOpening (hb buffer (List.mem_cons_self ..))
      unfold Service.reopen
      split
      · next hopen =>
        rw [hopen] at hbegun
        exact ih hbegun hleft
      · next hopen =>
        rw [hopen] at hbegun
        exact hbegun.finish ..
      · next hopen =>
        rw [hopen] at hbegun
        exact hbegun.suspend _ hleft

/-- A reload opens the documents that were open, so not this one. -/
theorem reload (h : Shut n first uri s) (number : Nat) :
    Shut n first uri (s.reload number) := by
  have hclosed := h.tended.closeAll
  have hforgot : Shut n first uri
      { s.closeAll with loads := s.loads.forgetLoaded } := by
    refine ⟨h.leads.trans (hclosed.trans (hclosed.tended.inLoads _
      h.tended.built.forgetLoaded)), rfl, ?_⟩
    exact ⟨h.jobs.ready, h.jobs.waiting⟩
  apply hforgot.reopen
  intro b hb
  obtain ⟨c, hc, hbuffer⟩ := List.mem_filterMap.1 hb
  obtain ⟨k, hk, rfl⟩ := Option.map_eq_some_iff.1 hbuffer
  obtain ⟨⟨other, c⟩, hmem, rfl⟩ := List.mem_map.1 hc
  obtain ⟨-, hstands⟩ := h.tended.stored other c hmem
  have hhere : s.ws.standing c = some (k.disposed, s.ws.uri? k.buffer) :=
    congrArg (Option.map _) hk
  obtain ⟨-, huri⟩ := Prod.mk.inj
    (Option.some.inj (hhere.symm.trans hstands))
  rw [← h.leads.uri, huri]
  rintro ⟨⟩
  exact Table.not_mem_of_get? h.unmapped c hmem

theorem begin (h : Shut n first uri s) {job : Job}
    (hjob : first.Elsewhere uri job) :
    Shut n first uri (s.begin job) := by
  obtain ⟨number, task⟩ := job
  unfold Service.begin
  cases task with
  | grammar scope =>
      have hl := h.tended.withLoads (f := (·.askGrammar scope))
        (Loads.stable_built.ask s.loads scope h.tended.built)
      have hasked := h.withLoads hl (h.jobs.askGrammar scope)
      dsimp only
      unfold Service.getGrammar
      rcases hask : s.withLoads (·.askGrammar scope)
        with ⟨grammar | id, s'⟩
      · rw [hask] at hasked
        exact hasked.finish ..
      · rw [hask] at hasked
        exact hasked.suspend _ (elsewhere_of_ahead _ _ rfl)
  | tokenizer scope =>
      have hl := h.tended.withLoads (f := (·.askTokenizer scope))
        (Loads.stable_built.askTokenizer h.tended.built scope)
      have hasked := h.withLoads hl (h.jobs.askTokenizer scope)
      dsimp only
      unfold Service.getTokenizer
      rcases hask : s.withLoads (·.askTokenizer scope) with ⟨t | id, s'⟩
      · rw [hask] at hasked
        exact hasked.finish ..
      · rw [hask] at hasked
        exact hasked.suspend _ (elsewhere_of_ahead _ _ rfl)
  | openBuffer buffer =>
      exact h.openBuffer number (hjob buffer (List.mem_singleton.2 rfl))
  | reload => exact h.reload number
  | install => exact h

theorem resume (h : Shut n first uri s) {job : Job}
    (hjob : first.Elsewhere uri job) (grammar : Option Grammar) :
    Shut n first uri (s.resume job grammar) := by
  obtain ⟨number, task⟩ := job
  have hdone : ∀ scope, Shut n first uri
      (s.withLoads (·.finishTokenizer scope grammar)).2 := by
    intro scope
    exact h.withLoads (h.tended.withLoads
      (Loads.stable_built.finishTokenizer h.tended.built scope
        fun _ _ => trivial)) (h.jobs.finishTokenizer scope grammar)
  unfold Service.resume
  cases task with
  | grammar scope => exact h.finish ..
  | tokenizer scope => exact (hdone scope).finish ..
  | install scope other c after =>
      have hbuilt := hdone scope
      rcases hfinish : s.loads.finishTokenizer scope grammar with ⟨t, l⟩
      dsimp only
      rw [withLoads_eq (f := (·.finishTokenizer scope grammar)) hfinish]
        at hbuilt ⊢
      -- a tokenizer that is installed is one of a grammar
      have htotal : ∀ u, t = some u → u.toTokenizer.engine.Total := by
        rintro u rfl
        have hstored := Loads.get?_of_finishTokenizer hfinish
        exact hbuilt.tended.built.total hstored
      have hinstalled := hbuilt.install scope other c htotal
      dsimp only at hinstalled ⊢
      rcases hi : Service.install _ scope other c t
        with ⟨fault | answer, s'⟩
      · rw [hi] at hinstalled
        exact hinstalled.finish ..
      · rw [hi] at hinstalled
        cases after with
        | none => exact hinstalled.finish ..
        | some rest => exact hinstalled.reopen _ _ hjob
  | openBuffer buffer => exact h
  | reload => exact h

theorem turn? (h : Shut n first uri s) (hturn : s.turn? = some s') :
    Shut n first uri s' := by
  unfold Service.turn? at hturn
  cases ht : s.loads.turn with
  | none =>
      rw [ht] at hturn
      cases hturn
  | some result =>
      obtain ⟨event, l⟩ := result
      rw [ht] at hturn
      obtain rfl := Option.some.inj hturn
      obtain ⟨hjobs, hstarted, hresumed⟩ := h.jobs.turn ht
      have hnoted := h.tended.notedAll l.journal
      have hl := hnoted.trans (hnoted.tended.inLoads
        { l with journal := [] }
        (Loads.stable_built.turn s.loads event l h.tended.built ht))
      have htaken := h.moved hl rfl ⟨hjobs.ready, hjobs.waiting⟩
      cases event with
      | quiet => exact htaken
      | started job => exact htaken.begin (hstarted job rfl)
      | resumed job grammar =>
          exact htaken.resume (hresumed job grammar rfl) grammar
      | cancelled job => exact htaken.finish ..

/-- A document that is not open stays so when another is closed. -/
theorem close (h : Shut n first uri s) (buffer : Nat) :
    Shut n first uri (s.close buffer) := by
  refine ⟨h.leads.trans (h.tended.close buffer), ?_, ?_⟩
  · unfold Service.close
    split
    · exact h.unmapped
    · show (s.controllers.erase _).get? uri = none
      rw [Table.get?_erase, h.unmapped, ite_self]
  · unfold Service.close
    split
    · exact h.jobs
    · exact h.jobs

theorem after (h : Shut n first uri s) (m : Move)
    (hstart : ∀ job, m = .start job → first.Elsewhere uri job) :
    Shut n first uri (m.after s) := by
  have hl := Move.leads h.tended m
  cases m with
  | start job => exact h.moved hl rfl (h.jobs.start (hstart job rfl))
  | turn =>
      unfold Move.after
      cases hturn : s.turn? with
      | none => exact h
      | some s' => exact h.turn? hturn
  | defer => exact h.moved hl rfl h.jobs.defer
  | comeBack fetch => exact h.moved hl rfl (h.jobs.comeBack fetch)
  | cancel number =>
      unfold Move.after Service.cancel at hl ⊢
      dsimp only at hl ⊢
      split
      · exact h
      · next waiter _ hw =>
        rw [hw] at hl
        exact h.moved hl rfl (h.jobs.cancel waiter)
  | edit buffer changes => exact h.moved hl rfl h.jobs
  | close buffer => exact h.close buffer
  | lookup buffer p =>
      obtain ⟨hloads, -, hcontrollers⟩ := lookup_frame s buffer p
      refine h.moved hl hcontrollers ?_
      unfold Move.after
      rw [hloads]
      exact h.jobs
  | refresh => exact h.moved hl rfl h.jobs
  | dispose => exact ⟨h.leads.trans hl, rfl, h.jobs⟩
  | configure config => exact h.moved hl rfl h.jobs
  | register g => exact h.moved hl rfl ⟨h.jobs.ready, h.jobs.waiting⟩
  | mapLanguage language scope =>
      exact h.moved hl rfl ⟨h.jobs.ready, h.jobs.waiting⟩
  | forgetLoaded =>
      exact h.moved hl rfl ⟨h.jobs.ready, h.jobs.waiting⟩

theorem afterAll (h : Shut n first uri s) {moves : List Move}
    (hstart : ∀ job, .start job ∈ moves → first.Elsewhere uri job) :
    Shut n first uri (afterAll moves s) := by
  induction moves generalizing s with
  | nil => exact h
  | cons m moves ih =>
      refine ih (h.after m ?_)
        fun job hjob => hstart job (List.mem_cons_of_mem _ hjob)
      rintro job rfl
      exact hstart job (List.mem_cons_self ..)

end Shut

/-- A document was closed, and no job is left that is to open it. -/
theorem shut_close {d : Document} (h : s.Tended n)
    (hd : s.ws.document? buffer = some d)
    (hjobs : s.loads.Carries (s.Elsewhere d.uri)) :
    Shut n s d.uri (s.close buffer) := by
  have huri : s.uri buffer = d.uri := by
    unfold Service.uri
    rw [hd]
    rfl
  refine ⟨h.close buffer, ?_, ?_⟩
  · unfold Service.close Service.controllerFor?
    rw [huri]
    split
    · next hnone => exact hnone
    · show (s.controllers.erase _).get? d.uri = none
      rw [Table.get?_erase, if_pos rfl]
  · unfold Service.close
    split
    · exact hjobs
    · exact hjobs

/-- A document that is closed stays closed, whatever is done then, as long
as no job is started to open one of its URI, if none was left that is to
do so: its URI is not in the map, the service's controllers of that URI
are out of use, and its queries have no answer and change nothing. -/
theorem stays_closed {ws : Workspace} (hws : ws.Clear)
    {registry : Registry} (hregistry : registry.Built)
    {loader : Option Loader} {config : Option Config}
    {before after : List Move} {buffer : Nat} {d : Document}
    {s s' : Service}
    (hs : s = afterAll before (new ws registry loader config))
    (hd : s.ws.document? buffer = some d)
    (hleft : s.loads.Carries (s.Elsewhere d.uri))
    (hs' : s' = afterAll (.close buffer :: after) s)
    (hstart : ∀ job, .start job ∈ after → s.Elsewhere d.uri job) :
    d.uri ∉ s'.uris
    ∧ (∀ c k, ws.controllers.length ≤ c →
      s'.ws.controllers[c]? = some k →
      s'.ws.uri? k.buffer = some d.uri → OutOfUse s'.ws c k)
    ∧ ∀ p, s'.lookup buffer p = (none, s') := by
  have htended := ((tended_new hws hregistry loader config).afterAll
    before).tended
  rw [← hs] at htended
  have hshut : Shut ws.controllers.length s d.uri s' := by
    subst hs'
    exact (shut_close htended hd hleft).afterAll hstart
  refine ⟨Table.get?_eq_none_iff.1 hshut.unmapped, ?_, ?_⟩
  · intro c k hn hk huri
    have hlt := (List.getElem?_eq_some_iff.1 hk).1
    -- a controller at work is in the map, where the URI is not
    rcases hshut.tended.cases hn hlt with ⟨other, hc⟩ | ⟨k', hout⟩
    · obtain ⟨-, hstands⟩ := hshut.tended.standing hc
      have hhere : s'.ws.standing c = some (k.disposed, some d.uri) := by
        unfold Workspace.standing
        rw [hk, Option.map_some, huri]
      obtain ⟨-, hsame⟩ := Prod.mk.inj
        (Option.some.inj (hhere.symm.trans hstands))
      obtain rfl := Option.some.inj hsame
      cases hshut.unmapped.symm.trans hc
    · obtain rfl := Option.some.inj (hk.symm.trans hout.controller)
      exact hout
  · intro p
    have huri : s'.uri buffer = d.uri := by
      show (s'.ws.uri? buffer).getD "" = d.uri
      rw [hshut.leads.uri]
      unfold Workspace.uri?
      rw [hd]
      rfl
    unfold Service.lookup Service.controllerFor?
    rw [huri, hshut.unmapped]

-- ======================================================== two instances

/-- A service for two documents, in a language whose grammar comes from a
slow loader. -/
def slowly : Service :=
  new twoDocuments (Registry.empty.mapLanguage "plain" "source.plain")
    (some slowLoader) none

/-- Both documents are being opened, and wait for the same fetch. -/
def bothOpening : List Move :=
  [.start ⟨0, .openBuffer 0⟩, .turn, .turn, .start ⟨1, .openBuffer 1⟩,
    .turn]

/-- The loader comes back, and all are told. -/
def bothTold : List Move :=
  [.comeBack 0, .turn, .turn, .turn, .turn, .turn, .turn]

/-- A document is closed while it is being opened. It stays closed when
the loader comes back, when all is reloaded, and when it is edited. -/
theorem stays_closed_opening :
    ∃ s s' k, s = afterAll bothOpening slowly
      ∧ s' = afterAll (.close 1 :: bothTold ++ [.start ⟨2, .reload⟩, .turn,
        .edit 1 [⟨⟨⟨0, 0⟩, ⟨0, 0⟩⟩, ['b']⟩]]) s
      ∧ s.uris = ["untitled:a", "untitled:b"]
      ∧ "untitled:b" ∉ s'.uris ∧ OutOfUse s'.ws 1 k
      ∧ ∀ p, s'.lookup 1 p = (none, s') := by
  have hregistry : (Registry.empty.mapLanguage "plain"
      "source.plain").Built := Registry.From.empty.mapLanguage ..
  obtain ⟨s, hs⟩ : ∃ s, s = afterAll bothOpening slowly := ⟨_, rfl⟩
  obtain ⟨s', hs'⟩ : ∃ s', s' = afterAll (.close 1 :: bothTold
    ++ [.start ⟨2, .reload⟩, .turn,
      .edit 1 [⟨⟨⟨0, 0⟩, ⟨0, 0⟩⟩, ['b']⟩]]) s := ⟨_, rfl⟩
  have hdocument : s.ws.uri? 1 = some "untitled:b" := by
    rw [hs]
    cbv
  obtain ⟨d, hd, huri⟩ := Option.map_eq_some_iff.1 hdocument
  have hready : s.loads.ready = [] := by
    rw [hs]
    cbv
  have hwaiters : s.loads.waiters
      = [(0, ⟨0, none, ⟨0, .install "source.plain" "untitled:a" 0 none⟩⟩),
        (1, ⟨0, none, ⟨1, .install "source.plain" "untitled:b" 1 none⟩⟩)]
      := by
    rw [hs]
    cbv
  -- neither of the jobs that wait has the document ahead of it
  have hleft : s.loads.Carries (s.Elsewhere d.uri) := by
    refine ⟨?_, ?_⟩
    · intro job hjob
      rw [hready] at hjob
      cases hjob
    · intro n w hw
      rw [hwaiters] at hw
      rcases List.mem_pair.1 hw with hw | hw
      · cases hw
        exact elsewhere_of_ahead _ _ rfl
      · cases hw
        exact elsewhere_of_ahead _ _ rfl
  have hstart : ∀ job, .start job ∈ bothTold ++ [.start ⟨2, .reload⟩,
      .turn, .edit 1 [⟨⟨⟨0, 0⟩, ⟨0, 0⟩⟩, ['b']⟩]] →
      s.Elsewhere d.uri job := by
    intro job hjob
    obtain rfl : job = ⟨2, .reload⟩ := by simpa [bothTold] using hjob
    exact elsewhere_of_ahead _ _ rfl
  have hopen : s.uris = ["untitled:a", "untitled:b"] := by
    rw [hs]
    cbv
  have hcontroller : (s'.ws.seat? 1).map (·.2.uri)
      = some "untitled:b" := by
    rw [hs', hs]
    cbv
  obtain ⟨⟨k, d'⟩, hseat, hbuffer⟩ :=
    Option.map_eq_some_iff.1 hcontroller
  obtain ⟨hk, hd'⟩ := Workspace.seat?_eq_some.1 hseat
  obtain ⟨hunmapped, hout, hqueries⟩ :=
    stays_closed clear_twoDocuments hregistry hs hd hleft hs' hstart
  rw [huri] at hunmapped
  refine ⟨s, s', k, hs, hs', hopen, hunmapped,
    hout 1 k (Nat.zero_le 1) hk ?_,
    hqueries⟩
  rw [huri, ← hbuffer]
  exact congrArg (Option.map _) hd'

/-- Two documents in different languages. -/
def twoLanguages : Workspace :=
  let ws := (Workspace.empty.addBuffer
    (.new "untitled:a" "plain" [])).2
  (ws.addBuffer (.new "untitled:b" "other" [])).2

/-- Both documents were being opened when a reload closed them. The reload
opens the first again and waits for its grammar, with the second ahead. -/
def reloading : List Move :=
  [.start ⟨0, .openBuffer 0⟩, .start ⟨1, .openBuffer 1⟩,
    .start ⟨2, .reload⟩, .turn, .turn, .turn]

/-- The second document is closed then. The reload opens it again when the
loader comes back, although nobody asked for it. -/
theorem reopens_closed :
    ∃ s s' after, s = afterAll (reloading ++ [.close 1])
        (new twoLanguages ((Registry.empty.mapLanguage "plain"
          "source.plain").mapLanguage "other" "source.other")
          (some slowLoader) none)
      ∧ s' = afterAll after s ∧ (∀ job, .start job ∉ after)
      ∧ s.uris = ["untitled:a"]
      ∧ s'.uris = ["untitled:a", "untitled:b"]
      ∧ s'.ws.standing 3 = some (false, some "untitled:b") := by
  refine ⟨_, _, [.turn, .turn, .turn, .comeBack 2, .turn, .turn, .turn,
    .turn], rfl, rfl, by simp, ?_, ?_, ?_⟩ <;> cbv

end Service

end Relex
