/-
The service looks after its controllers.

At all times, whatever was done in which order, the controllers in the
service's map are those that serve their documents, each under the URI of
its own document, and all others that the service ever made are gone
(`Service.Tended`). Each step of a job keeps this, and so do all other
moves (`Move.leads`).

Between the two steps of opening a document anything may happen to the
controller that waits for its tokenizer. The tokenizer is installed only
if the controller is still in the map, and then it serves; so what the
jobs that wait remember need not be right, and nothing is asked of it.
-/
import Relex.Proofs.Registry
import Relex.Proofs.Workspace.Tended

namespace Relex.Service

/-- The controllers in the map, and only they, serve their documents.
`n` is the number of controllers there were before the service. -/
structure Tended (s : Service) (n : Nat) : Prop where
  ws : s.ws.Tended n
  stored : ∀ uri c, (uri, c) ∈ s.controllers.entries →
    n ≤ c ∧ s.ws.standing c = some (false, some uri)
  complete : ∀ uri c, n ≤ c → s.ws.standing c = some (false, some uri) →
    s.controllers.get? uri = some c
  built : s.loads.registry.Built
  ended : s.disposed = true → s.controllers = .empty

/-- A service leads to another: that looks after its controllers, too;
all controllers are still there, with their documents, what was disposed
of stays so, and the documents have the URIs they had. -/
structure Leads (n : Nat) (s s' : Service) : Prop where
  tended : s'.Tended n
  lasting : ∀ c gone uri, s.ws.standing c = some (gone, uri) →
    ∃ gone', s'.ws.standing c = some (gone', uri)
      ∧ (gone = true → gone' = true)
  disposed : s.disposed = true → s'.disposed = true
  uri : ∀ b, s'.ws.uri? b = s.ws.uri? b

variable {s s' s'' : Service} {n buffer c : Nat} {uri : String}

theorem Leads.trans (h : Leads n s s') (h' : Leads n s' s'') :
    Leads n s s'' := by
  refine ⟨h'.tended, ?_, h'.disposed ∘ h.disposed,
    fun b => (h'.uri b).trans (h.uri b)⟩
  intro c gone uri hc
  obtain ⟨gone₁, hc₁, hgone₁⟩ := h.lasting c gone uri hc
  obtain ⟨gone₂, hc₂, hgone₂⟩ := h'.lasting c gone₁ uri hc₁
  exact ⟨gone₂, hc₂, hgone₂ ∘ hgone₁⟩

namespace Tended

theorem refl (h : s.Tended n) : Leads n s s :=
  ⟨h, fun _ gone _ hc => ⟨gone, hc, id⟩, id, fun _ => rfl⟩

/-- The controller under a URI is one that serves. -/
theorem standing (h : s.Tended n)
    (hc : s.controllers.get? uri = some c) :
    n ≤ c ∧ s.ws.standing c = some (false, some uri) :=
  h.stored uri c (Table.mem_of_get? hc)

-- ============================================================ effects

/-- What is done in the workspace, if no controller's standing changes. -/
theorem inWorkspace (h : s.Tended n) {ws : Workspace} (hws : ws.Tended n)
    (hsame : ws.standing = s.ws.standing)
    (huri : ∀ b, ws.uri? b = s.ws.uri? b) : Leads n s { s with ws } := by
  refine ⟨⟨hws, ?_, ?_, h.built, h.ended⟩, ?_, id, huri⟩
  · intro uri c hc
    show n ≤ c ∧ ws.standing c = _
    rw [hsame]
    exact h.stored uri c hc
  · intro uri c hn hc
    have hc : ws.standing c = some (false, some uri) := hc
    rw [hsame] at hc
    exact h.complete uri c hn hc
  · intro c gone uri hc
    refine ⟨gone, ?_, id⟩
    show ws.standing c = _
    rw [hsame]
    exact hc

/-- What is done with the loads, if tokenizers are built. -/
theorem inLoads (h : s.Tended n) (loads : Loads Job)
    (hb : loads.registry.Built) : Leads n s { s with loads } :=
  ⟨⟨h.ws, h.stored, h.complete, hb, h.ended⟩, h.refl.lasting, id,
    fun _ => rfl⟩

/-- The end of a job concerns no controller. -/
theorem finish (h : s.Tended n) (number : Nat) (outcome : Outcome) :
    Leads n s (s.finish number outcome) :=
  ⟨⟨h.ws, h.stored, h.complete, h.built, h.ended⟩, h.refl.lasting, id,
    fun _ => rfl⟩

theorem suspend (h : s.Tended n) (fetch : Nat) (job : Job) :
    Leads n s (s.suspend fetch job) :=
  h.inLoads _ h.built

theorem noted (h : s.Tended n) (e : Entry) : Leads n s (s.noted e) :=
  h.inWorkspace (h.ws.traced _) rfl fun _ => rfl

theorem notedAll (h : s.Tended n) (journal : List Entry) :
    Leads n s { s with ws := journal.foldl Workspace.noted s.ws } := by
  induction journal generalizing s with
  | nil => exact h.refl
  | cons e journal ih =>
      have hfirst := h.noted e
      exact hfirst.trans (ih hfirst.tended)

theorem withLoads (h : s.Tended n) {α : Type}
    {f : Loads Job → α × Loads Job}
    (hf : (f s.loads).2.registry.Built) :
    Leads n s (s.withLoads f).2 := by
  have hnoted := h.notedAll (f s.loads).2.journal
  exact hnoted.trans (hnoted.tended.inLoads
    { (f s.loads).2 with journal := [] } hf)

-- ============================================================ opening

/-- A tokenizer that never fails may be given to any controller. -/
theorem install (h : s.Tended n) (scope uri : String) (c : Nat)
    {t : Option GrammarTokenizer}
    (ht : ∀ u, t = some u → u.toTokenizer.engine.Total) :
    Leads n s (s.install scope uri c t).2 := by
  unfold Service.install
  cases t with
  | none => exact h.noted _
  | some u =>
      dsimp only
      split
      · next hc =>
        obtain ⟨hn, hs⟩ := h.standing hc
        obtain ⟨ws', hon, hstays⟩ :=
          h.ws.equip hn hs (ht u rfl) s.config
        unfold act
        dsimp only
        rw [hon]
        exact h.inWorkspace hstays.tended hstays.standing hstays.uri
      · exact h.refl

/-- A document that is not open gets a controller. -/
theorem attached (h : s.Tended n) {d : Document}
    (hlive : ¬s.disposed = true) (hd : s.ws.document? buffer = some d)
    (hnone : s.controllers.get? d.uri = none) :
    Leads n s { s with
      ws := s.ws.withNew buffer none true
      controllers :=
        s.controllers.insert d.uri s.ws.controllers.length } := by
  have hws := h.ws.attach hd
  have hstanding := Workspace.standing_withNew hd
  refine ⟨⟨hws, ?_, ?_, h.built, fun hdisposed => absurd hdisposed hlive⟩,
    ?_, id, fun _ => congrArg (Option.map _) (Workspace.document_relist ..)⟩
  · intro uri c hc
    show n ≤ c ∧ (s.ws.withNew buffer none true).standing c = _
    rw [hstanding]
    rcases Table.mem_insert hc with ⟨rfl, rfl⟩ | hc
    · rw [if_pos rfl]
      exact ⟨h.ws.made, rfl⟩
    · obtain ⟨hn, hs⟩ := h.stored uri c hc
      rw [if_neg (Workspace.lt_of_standing hs).ne]
      exact ⟨hn, hs⟩
  · intro uri c hn hc
    change (s.ws.withNew buffer none true).standing c
      = some (false, some uri) at hc
    rw [hstanding] at hc
    show (s.controllers.insert _ _).get? uri = _
    rw [Table.get?_insert]
    split at hc
    · next hnew =>
      subst hnew
      have huri := congrArg Prod.snd (Option.some.inj hc)
      rw [if_pos (Option.some.inj huri)]
    · have hold := h.complete uri c hn hc
      rw [if_neg, hold]
      rintro rfl
      cases hnone.symm.trans hold
  · intro c gone uri hc
    refine ⟨gone, ?_, id⟩
    show (s.ws.withNew buffer none true).standing c = _
    rw [hstanding, if_neg (Workspace.lt_of_standing hc).ne, hc]

/-- To begin to open a document is to build its cache anew, or to attach a
controller and perhaps to equip it at once. -/
theorem beginOpening (h : s.Tended n) (buffer : Nat) :
    Leads n s (s.beginOpening buffer).2 := by
  unfold Service.beginOpening
  split
  · exact h.refl
  · next d hd =>
    split
    · exact h.refl
    · next hlive =>
      split
      · next c hc =>
        obtain ⟨hn, hs⟩ := h.standing hc
        obtain ⟨ws', hon, hstays⟩ := h.ws.rebuild hn hs s.config
        unfold act
        dsimp only
        rw [hon]
        exact h.inWorkspace hstays.tended hstays.standing hstays.uri
      · next hnone =>
        split
        · exact h.noted _
        · next scope hscope =>
          -- the controller is attached without a tokenizer, which cannot
          -- fail
          have hattached := h.attached hlive hd hnone
          unfold act
          dsimp only
          rw [Workspace.attach_inert]
          dsimp only
          have hasked := hattached.tended.withLoads
            (f := (·.askTokenizer scope))
            (Loads.stable_built.askTokenizer h.built scope)
          rcases hask : s.loads.askTokenizer scope with ⟨t | fetch, l⟩
          · -- a tokenizer that is known at once was built from a grammar
            have hknown : ∀ u, t = some u →
                u.toTokenizer.engine.Total := by
              rintro u rfl
              have hb := Loads.stable_built.askTokenizer h.built scope
              rw [hask] at hb
              exact hb.total (Loads.get?_of_askTokenizer hask)
            unfold Service.withLoads at hasked ⊢
            dsimp only at hasked ⊢
            rw [hask] at hasked ⊢
            exact hattached.trans (hasked.trans
              (hasked.tended.install scope d.uri _ hknown))
          · unfold Service.withLoads at hasked ⊢
            dsimp only at hasked ⊢
            rw [hask] at hasked ⊢
            exact hattached.trans hasked

theorem openBuffer (h : s.Tended n) (number buffer : Nat) :
    Leads n s (s.openBuffer number buffer) := by
  have hbegun := h.beginOpening buffer
  unfold Service.openBuffer
  split
  · next hopen =>
    rw [hopen] at hbegun
    exact hbegun.trans (hbegun.tended.finish ..)
  · next hopen =>
    rw [hopen] at hbegun
    exact hbegun.trans (hbegun.tended.finish ..)
  · next hopen =>
    rw [hopen] at hbegun
    exact hbegun.trans (hbegun.tended.suspend ..)

/-- Documents that are opened one after the other get a controller each. -/
theorem reopen (h : s.Tended n) (number total : Nat)
    (buffers : List Nat) :
    Leads n s (Service.reopen number total buffers s) := by
  induction buffers generalizing s with
  | nil =>
      have hnoted := h.noted (.ofService .info
        ("Reloaded " ++ toString total ++ " document(s)"))
      exact hnoted.trans (hnoted.tended.finish ..)
  | cons buffer left ih =>
      have hbegun := h.beginOpening buffer
      unfold Service.reopen
      split
      · next hopen =>
        rw [hopen] at hbegun
        exact hbegun.trans (ih hbegun.tended)
      · next hopen =>
        rw [hopen] at hbegun
        exact hbegun.trans (hbegun.tended.finish ..)
      · next hopen =>
        rw [hopen] at hbegun
        exact hbegun.trans (hbegun.tended.suspend ..)

-- ============================================================ closing

/-- A document that is open is closed. -/
theorem closed (h : s.Tended n) (hc : s.controllers.get? uri = some c) :
    Leads n s { s with
      controllers := s.controllers.erase uri
      ws := s.ws.retire c } := by
  obtain ⟨hn, hs⟩ := h.standing hc
  refine ⟨⟨h.ws.retire hn, ?_, ?_, h.built, ?_⟩, ?_, id,
    Workspace.uri?_retire s.ws c⟩
  · intro uri' c' hc'
    obtain ⟨hmem, hne⟩ := Table.mem_erase.1 hc'
    obtain ⟨hn', hs'⟩ := h.stored uri' c' hmem
    refine ⟨hn', ?_⟩
    show (s.ws.retire c).standing c' = _
    rw [Workspace.standing_retire, if_neg, hs']
    -- one controller does not stand under two URIs
    rintro rfl
    have huri := congrArg Prod.snd (Option.some.inj (hs'.symm.trans hs))
    exact hne (Option.some.inj huri)
  · intro uri' c' hn' hc'
    change (s.ws.retire c).standing c' = some (false, some uri') at hc'
    rw [Workspace.standing_retire] at hc'
    show (s.controllers.erase uri).get? uri' = _
    rw [Table.get?_erase]
    split at hc'
    · next hcc =>
      subst hcc
      rw [hs] at hc'
      cases hc'
    · next hne =>
      have hold := h.complete uri' c' hn' hc'
      rw [if_neg, hold]
      rintro rfl
      exact hne (Option.some.inj (hc.symm.trans hold))
  · intro hdisposed
    show s.controllers.erase uri = _
    rw [h.ended hdisposed]
    rfl
  · intro c' gone uri' hc'
    refine ⟨if c = c' then true else gone, ?_, fun hg => by simp [hg]⟩
    show (s.ws.retire c).standing c' = _
    rw [Workspace.standing_retire, hc']
    split <;> rfl

/-- A document that is not open has no controller to be disposed of. -/
theorem close (h : s.Tended n) (buffer : Nat) :
    Leads n s (s.close buffer) := by
  unfold Service.close
  split
  · exact h.refl
  · next c hc => exact h.closed hc

end Tended

/-- Controllers that are disposed of one after the other. -/
theorem retireAll {ws : Workspace} (h : ws.Tended n) {cs : List Nat}
    (hcs : ∀ c ∈ cs, n ≤ c) :
    (cs.foldl Workspace.retire ws).Tended n
      ∧ ∀ c, (cs.foldl Workspace.retire ws).standing c = if c ∈ cs
        then (ws.standing c).map fun s => (true, s.2)
        else ws.standing c := by
  induction cs generalizing ws with
  | nil => exact ⟨h, fun c => (if_neg List.not_mem_nil).symm⟩
  | cons c cs ih =>
      have hc := hcs c (by simp)
      obtain ⟨hws, hstanding⟩ := ih (h.retire hc)
        fun c hc => hcs c (List.mem_cons_of_mem _ hc)
      refine ⟨hws, fun c' => ?_⟩
      show (cs.foldl Workspace.retire (ws.retire c)).standing c' = _
      rw [hstanding, Workspace.standing_retire]
      by_cases hcc : c = c'
      · subst hcc
        by_cases hmem : c ∈ cs <;> simp [hmem, Function.comp_def]
      · by_cases hmem : c' ∈ cs <;> simp [hmem, hcc, Ne.symm hcc]

/-- Documents keep their URIs when controllers are disposed of. -/
theorem uri?_retireAll (ws : Workspace) (cs : List Nat) (b : Nat) :
    (cs.foldl Workspace.retire ws).uri? b = ws.uri? b := by
  induction cs generalizing ws with
  | nil => rfl
  | cons c cs ih => exact (ih _).trans (Workspace.uri?_retire ws c b)

namespace Tended

/-- When all documents are closed, all controllers in the map are disposed
of, and the map is empty. -/
theorem closeAll (h : s.Tended n) : Leads n s s.closeAll := by
  have hvalues : ∀ c ∈ s.controllers.values, n ≤ c := by
    intro c hc
    obtain ⟨⟨uri, c⟩, hmem, rfl⟩ := List.mem_map.1 hc
    exact (h.stored uri c hmem).1
  -- those that stood before were all in the map, and are disposed of
  obtain ⟨hws, hstanding⟩ := retireAll h.ws hvalues
  refine ⟨⟨hws, ?_, ?_, h.built, fun _ => rfl⟩, ?_, id,
    uri?_retireAll s.ws s.controllers.values⟩
  · intro uri c hc
    cases hc
  · intro uri c hn hc
    change (s.controllers.values.foldl Workspace.retire s.ws).standing c
      = _ at hc
    rw [hstanding] at hc
    split at hc
    · cases hold : s.ws.standing c with
      | none =>
          rw [hold] at hc
          cases hc
      | some x =>
          rw [hold] at hc
          cases hc
    · next hmem =>
      have hget := Table.mem_of_get? (h.complete uri c hn hc)
      exact absurd (List.mem_map_of_mem hget) hmem
  · intro c gone uri hc
    refine ⟨if c ∈ s.controllers.values then true else gone, ?_,
      fun hg => by simp [hg]⟩
    show (s.controllers.values.foldl Workspace.retire s.ws).standing c = _
    rw [hstanding, hc]
    split <;> rfl

theorem dispose (h : s.Tended n) : Leads n s s.dispose := by
  have hclosed := h.closeAll
  exact ⟨⟨hclosed.tended.ws, hclosed.tended.stored,
    hclosed.tended.complete, hclosed.tended.built, fun _ => rfl⟩,
    hclosed.lasting, fun _ => rfl, hclosed.uri⟩

-- ============================================================== jobs

theorem getGrammar (h : s.Tended n) (number : Nat) (scope : String) :
    Leads n s (s.getGrammar number scope) := by
  have hasked := h.withLoads (f := (·.askGrammar scope))
    (Loads.stable_built.ask s.loads scope h.built)
  unfold Service.getGrammar
  rcases hask : s.withLoads (·.askGrammar scope) with ⟨grammar | id, s'⟩
  · rw [hask] at hasked
    exact hasked.trans (hasked.tended.finish ..)
  · rw [hask] at hasked
    exact hasked.trans (hasked.tended.suspend ..)

theorem getTokenizer (h : s.Tended n) (number : Nat) (scope : String) :
    Leads n s (s.getTokenizer number scope) := by
  have hasked := h.withLoads (f := (·.askTokenizer scope))
    (Loads.stable_built.askTokenizer h.built scope)
  unfold Service.getTokenizer
  rcases hask : s.withLoads (·.askTokenizer scope) with ⟨t | id, s'⟩
  · rw [hask] at hasked
    exact hasked.trans (hasked.tended.finish ..)
  · rw [hask] at hasked
    exact hasked.trans (hasked.tended.suspend ..)

/-- A reload closes all documents and opens them again. -/
theorem reload (h : s.Tended n) (number : Nat) :
    Leads n s (s.reload number) := by
  have hclosed := h.closeAll
  have hforgot := hclosed.tended.inLoads s.loads.forgetLoaded
    h.built.forgetLoaded
  exact hclosed.trans (hforgot.trans (hforgot.tended.reopen ..))

/-- Whatever a job begins with, the map is looked after. -/
theorem begin (h : s.Tended n) (job : Job) :
    Leads n s (s.begin job) := by
  unfold Service.begin
  cases job.task with
  | grammar scope => exact h.getGrammar ..
  | tokenizer scope => exact h.getTokenizer ..
  | openBuffer buffer => exact h.openBuffer ..
  | reload => exact h.reload ..
  | install => exact h.refl

/-- And so it is when a job goes on. -/
theorem resume (h : s.Tended n) (job : Job) (grammar : Option Grammar) :
    Leads n s (s.resume job grammar) := by
  unfold Service.resume
  cases job.task with
  | grammar scope => exact h.finish ..
  | tokenizer scope =>
      have hdone := h.withLoads (f := (·.finishTokenizer scope grammar))
        (Loads.stable_built.finishTokenizer h.built scope
          fun _ _ => trivial)
      exact hdone.trans (hdone.tended.finish ..)
  | install scope uri c after =>
      have hb : (s.loads.finishTokenizer scope grammar).2.registry.Built :=
        Loads.stable_built.finishTokenizer h.built scope
          fun _ _ => trivial
      have hdone := h.withLoads (f := (·.finishTokenizer scope grammar)) hb
      rcases hask : s.loads.finishTokenizer scope grammar with ⟨t, l⟩
      -- what is installed was built from a grammar
      have hknown : ∀ u, t = some u → u.toTokenizer.engine.Total := by
        rintro u rfl
        rw [hask] at hb
        exact hb.total (Loads.get?_of_finishTokenizer hask)
      dsimp only
      rw [withLoads_eq (f := (·.finishTokenizer scope grammar)) hask]
        at hdone ⊢
      have hinstall := hdone.trans
        (hdone.tended.install scope uri c hknown)
      dsimp only at hinstall ⊢
      rcases hi : Service.install _ scope uri c t
        with ⟨fault | answer, s'⟩
      · rw [hi] at hinstall
        exact hinstall.trans (hinstall.tended.finish ..)
      · rw [hi] at hinstall
        cases after with
        | none => exact hinstall.trans (hinstall.tended.finish ..)
        | some reload => exact hinstall.trans (hinstall.tended.reopen ..)
  | openBuffer buffer => exact h.refl
  | reload => exact h.refl

/-- Whatever becomes of a turn, the map is looked after. -/
theorem turn (h : s.Tended n) (hturn : s.turn? = some s') :
    Leads n s s' := by
  unfold turn? at hturn
  cases ht : s.loads.turn with
  | none =>
      rw [ht] at hturn
      cases hturn
  | some result =>
      obtain ⟨event, l⟩ := result
      rw [ht] at hturn
      obtain rfl := Option.some.inj hturn
      have hnoted := h.notedAll l.journal
      have htaken := hnoted.trans (hnoted.tended.inLoads
        { l with journal := [] }
        (Loads.stable_built.turn s.loads event l h.built ht))
      cases event with
      | quiet => exact htaken
      | started job => exact htaken.trans (htaken.tended.begin job)
      | resumed job grammar =>
          exact htaken.trans (htaken.tended.resume job grammar)
      | cancelled job => exact htaken.trans (htaken.tended.finish ..)

-- ============================================================== moves

/-- A query changes no controller's standing, whether it is answered or
fails. -/
theorem lookup (h : s.Tended n) (buffer : Nat) (p : Position) :
    Leads n s (s.lookup buffer p).2 := by
  unfold Service.lookup
  split
  · exact h.refl
  · next c hc =>
    obtain ⟨hn, hs⟩ := h.standing hc
    obtain ⟨result, ws', hon, hstays⟩ := h.ws.lookup hn hs p s.config
    have hlooked := h.inWorkspace hstays.tended hstays.standing hstays.uri
    unfold act
    dsimp only
    rw [hon]
    cases result with
    | ok answer => exact hlooked
    | error fault => exact hlooked.trans (hlooked.tended.noted _)

/-- The caches of all open documents are built anew. -/
theorem rebuildAll (h : s.Tended n) : Leads n s s.rebuildAll.2 := by
  have hwork : ∀ a : Ambient, ∃ result, ∃ ws' : Workspace,
      (s.controllers.values.forM Workspace.rebuild).on
          { s.ws with config := a } = (result, { ws' with config := a })
        ∧ ws'.Tended n ∧ ws'.standing = s.ws.standing
        ∧ ∀ b, ws'.uri? b = s.ws.uri? b := by
    intro a
    have hcs : ∀ c ∈ s.controllers.values, n ≤ c
        ∧ ∃ uri, s.ws.standing c = some (false, some uri) := by
      intro c hc
      obtain ⟨⟨uri, c⟩, hmem, rfl⟩ := List.mem_map.1 hc
      obtain ⟨hn, hs⟩ := h.stored uri c hmem
      exact ⟨hn, uri, hs⟩
    obtain ⟨ws', hon, hstays⟩ := (h.ws.configure a).rebuildAll hcs
    refine ⟨.ok (), ws', ?_, hstays.tended, hstays.standing, hstays.uri⟩
    have hconfig : a = ws'.config := hstays.config.symm
    subst hconfig
    exact hon
  obtain ⟨result, ws', hon, hws, hsame, huri⟩ :=
    Workspace.underConfig?_on hwork s.config
  unfold Service.rebuildAll act
  dsimp only
  rw [hon]
  exact h.inWorkspace (hws.configure s.ws.config) hsame huri

theorem cancel (h : s.Tended n) (number : Nat) :
    Leads n s (s.cancel number) := by
  unfold Service.cancel
  split
  · exact h.refl
  · exact h.inLoads _ (Loads.stable_built.cancel _ _ h.built)

end Tended

/-- Every move of the host and every turn leads on. -/
theorem Move.leads (h : s.Tended n) (m : Move) :
    Leads n s (m.after s) := by
  cases m with
  | start job => exact h.inLoads _ h.built
  | turn =>
      unfold Move.after
      cases hturn : s.turn? with
      | none => exact h.refl
      | some s' => exact h.turn hturn
  | defer => exact h.inLoads _ h.built
  | comeBack fetch =>
      exact h.inLoads _ (Loads.stable_built.comeBack _ fetch h.built)
  | cancel number => exact h.cancel number
  | edit buffer changes =>
      have hframe := Workspace.frame_edit s.ws buffer changes
      exact h.inWorkspace (h.ws.edit buffer changes)
        (funext hframe.standing) hframe.uri
  | close buffer => exact h.close buffer
  | lookup buffer p => exact h.lookup buffer p
  | refresh => exact h.rebuildAll
  | dispose => exact h.dispose
  | configure config =>
      exact h.inWorkspace (h.ws.configure config) rfl fun _ => rfl
  | register g => exact h.inLoads _ (h.built.register trivial)
  | mapLanguage language scope =>
      exact h.inLoads _ (h.built.mapLanguage language scope)
  | forgetLoaded => exact h.inLoads _ h.built.forgetLoaded

/-- And so do any moves, one after the other. -/
theorem Tended.afterAll (h : s.Tended n) (moves : List Move) :
    Leads n s (afterAll moves s) := by
  induction moves generalizing s with
  | nil => exact h.refl
  | cons m moves ih =>
      have hfirst := Move.leads h m
      exact hfirst.trans (ih hfirst.tended)

end Relex.Service
