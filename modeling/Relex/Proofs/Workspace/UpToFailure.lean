/-
Who is told of a batch if somebody fails.

If nobody edits while a batch is told, the listeners are called one after
the other, and the first to fail is the last to be called. So a failure
splits them: those up to it were told and are as well off as if nobody
had failed, those behind it are never told (`told_up_to_failure`). The
document has taken the batch, and a controller that was not told keeps
the states of the document as it was (`stranded`).
-/
import Relex.Proofs.Workspace.InOrder

namespace Relex.Workspace

variable {ws ws' : Workspace} {c b : Nat} {l : Listener}
  {plans : List Plan} {agenda : List Delivery} {story : List Happening}
  {result : Except Fault Unit × Workspace}

-- ============================================================ the round

/-- A round without plans is over when its deliveries are made, or when
one of them fails. -/
theorem Round.stops (h : Round plans agenda ws story result)
    (hplans : plans = []) :
    ∃ told untold tail, agenda = told ++ untold
      ∧ story = told.map .called ++ tail
      ∧ ((untold = [] ∧ tail = [] ∧ result.1 = .ok ())
        ∨ ∃ front d fault vs, told = front ++ [d] ∧ tail = [.raised d]
          ∧ ((deliver d).on vs).1 = .error fault
          ∧ result.1 = .error fault) := by
  induction h with
  | done => exact ⟨[], [], [], rfl, rfl, .inl ⟨rfl, rfl, rfl⟩⟩
  | @fails plans d rest ws ws' fault hon =>
      exact ⟨[d], rest, [.raised d], rfl, rfl,
        .inr ⟨[], d, fault, ws, rfl, rfl, by rw [hon], rfl⟩⟩
  | @goesOn plans d rest ws ws' story result hon hplan hrest ih =>
      obtain ⟨told, untold, tail, rfl, rfl, hend⟩ := ih hplans
      refine ⟨d :: told, untold, tail, rfl, rfl, hend.imp_right ?_⟩
      rintro ⟨front, d', fault, vs, rfl, hfault⟩
      exact ⟨d :: front, d', fault, vs, rfl, hfault⟩
  | refused hon hplan happly =>
      have := (mem_of_plan? hplan).2.1
      rw [hplans] at this
      cases this
  | nests hon hplan hbatch hrest ih =>
      have := (mem_of_plan? hplan).2.1
      rw [hplans] at this
      cases this

/-- A controller that is never called stays as it is. -/
theorem Round.untold (h : Round plans agenda ws story result)
    (hc : ∀ d, .called d ∈ story → d.listener ≠ .controller c) :
    result.2.controllers[c]? = ws.controllers[c]? := by
  induction h with
  | done => rfl
  | fails hon =>
      exact (controller_deliver (hc _ List.mem_cons_self) hon :)
  | refused hon =>
      exact (controller_deliver (hc _ List.mem_cons_self) hon :)
  | goesOn hon hplan hrest ih =>
      rw [ih fun d hd => hc d (List.mem_cons_of_mem _ hd)]
      exact controller_deliver (hc _ List.mem_cons_self) hon
  | nests hon hplan hbatch hrest ih =>
      rw [ih fun d hd => hc d (by simp [hd])]
      cases hbatch <;>
        exact (controller_deliver (hc _ List.mem_cons_self) hon :)

-- ========================================================== the account

/-- Calls are heard by those they are for. -/
theorem heard_map_called (deliveries : List Delivery) :
    heard l b (deliveries.map .called) = awaited l b deliveries :=
  List.filterMap_map

theorem accepted_map_called (deliveries : List Delivery) :
    accepted b (deliveries.map .called) = [] := by
  induction deliveries with
  | nil => rfl
  | cons d deliveries ih => simpa using ih

/-- Calls for others change nothing about what a listener is owed. -/
theorem told_of_awaited {deliveries : List Delivery}
    {owed : Option (List Change)} (h : awaited l b deliveries = []) :
    Told l b owed (deliveries.map .called) owed := by
  induction deliveries with
  | nil => rfl
  | cons d deliveries ih =>
      rw [awaited_cons, List.append_eq_nil_iff] at h
      obtain ⟨hd, hrest⟩ := h
      have hd : d.toward? l b = none := by simpa using hd
      simpa [Told, hd] using ih hrest

/-- Of listeners that are called one after the other, one that is there
once is told what it is owed. -/
theorem told_once {listeners : List Listener} {changes : List Change}
    (h : listeners.count l = 1) :
    Told l b (some changes)
      ((listeners.map (⟨·, b, changes⟩)).map .called) none := by
  obtain ⟨front, back, rfl, hfront, hback⟩ := exists_split h
  have haside : ∀ ls : List Listener, l ∉ ls →
      awaited l b (ls.map (⟨·, b, changes⟩)) = [] := by
    intro ls hls
    simp [awaited_map, List.count_eq_zero_of_not_mem hls]
  rw [List.map_append, List.map_append, List.map_cons, List.map_cons]
  refine (told_of_awaited (haside front hfront)).append ?_
  simpa [Told, Delivery.toward?] using told_of_awaited (haside back hback)

/-- Listeners of a batch are called one after the other, until one fails.
`told` are those that are called, `untold` those that are not. -/
structure Telling (b : Nat) (changes : List Change)
    (told untold : List Listener) (story : List Happening)
    (outcome : Except Fault Unit) : Prop where
  accepted : accepted b story = []
  heard : ∀ l, heard l b story = List.replicate (told.count l) changes
  once : ∀ l, told.count l = 1 → Told l b (some changes) story none
  called : ∀ e, .called e ∈ story → e.listener ∈ told
  outcome : untold = [] ∧ outcome = .ok ()
    ∨ ∃ fault front l vs, outcome = .error fault ∧ told = front ++ [l]
      ∧ ((deliver ⟨l, b, changes⟩).on vs).1 = .error fault

theorem Round.telling {listeners : List Listener} {changes : List Change}
    (h : Round plans (listeners.map (⟨·, b, changes⟩)) ws story result)
    (hplans : plans = []) :
    ∃ told untold, listeners = told ++ untold
      ∧ Telling b changes told untold story result.1 := by
  obtain ⟨told, untold, tail, hagenda, rfl, hend⟩ := h.stops hplans
  obtain ⟨told, untold, rfl, rfl, rfl⟩ := List.map_eq_append_iff.1 hagenda
  -- the failure itself is nothing that is heard
  have htail : tail = [] ∨ ∃ d, tail = [.raised d] := by
    rcases hend with ⟨-, rfl, -⟩ | ⟨-, d, -, -, -, rfl, -⟩
    · exact .inl rfl
    · exact .inr ⟨d, rfl⟩
  refine ⟨told, untold, rfl, ?_, ?_, ?_, ?_, ?_⟩
  · rw [accepted_append, accepted_map_called]
    rcases htail with rfl | ⟨e, rfl⟩ <;> rfl
  · intro l
    rw [heard_append, heard_map_called, awaited_map, if_pos rfl]
    rcases htail with rfl | ⟨e, rfl⟩ <;> simp
  · intro l hl
    refine (told_once hl).append ?_
    rcases htail with rfl | ⟨e, rfl⟩ <;> rfl
  · intro e he
    have he : e ∈ told.map (⟨·, b, changes⟩) := by
      rcases htail with rfl | ⟨x, rfl⟩ <;> simpa using he
    obtain ⟨l, hl, rfl⟩ := List.mem_map.1 he
    exact hl
  · rcases hend with ⟨hnone, -, hok⟩ | ⟨front, e, fault, vs, htold, -, he, hf⟩
    · exact .inl ⟨List.map_eq_nil_iff.1 hnone, hok⟩
    · obtain ⟨front, last, rfl, rfl, hlast⟩ :=
        List.map_eq_append_iff.1 htold
      obtain ⟨l, rfl, rfl⟩ := List.map_eq_singleton_iff.1 hlast
      exact .inr ⟨fault, front, l, vs, hf, rfl, he⟩

-- ========================================================= the theorem

/-- An edit that a document accepts, while nobody else edits: the listeners
up to the first that fails are told, and if none fails, all. Each watcher
among them notes the batch, and each controller that is listed there once
holds the full build of the new document if it held that of the old one,
whatever its engine, as long as both go through. A controller that is not
told stays as it is. -/
theorem told_up_to_failure {buffer : Buffer} {d : Document}
    {changes applied : List Change} (hplans : ws.plans = [])
    (hb : ws.buffers[b]? = some buffer)
    (happly : buffer.document.apply changes = .ok (d, applied)) :
    ∃ answer ws' told untold, (edit b changes).on ws = (answer, ws')
      ∧ ws'.document? b = some d
      ∧ buffer.listeners = told ++ untold
      ∧ (untold = [] ∧ answer = .ok applied
        ∨ ∃ fault front l vs, answer = .error fault ∧ told = front ++ [l]
          ∧ ((deliver ⟨l, b, applied⟩).on vs).1 = .error fault)
      ∧ (∀ w, (ws.watchers[w]?).isSome → noticed w b ws' = noticed w b ws
        ++ List.replicate (told.count (.watcher w)) applied)
      ∧ (∀ c k t states states', told.count (.controller c) = 1 →
        ws.controllers[c]? = some k → k.buffer = b →
        k.disposed = false →
        t.engine.fullBuild .none buffer.document.lines = .ok states →
        t.engine.fullBuild .none d.lines = .ok states' →
        HoldsBuild ws c buffer.document t states →
        HoldsBuild ws' c d t states')
      ∧ ∀ c, .controller c ∉ told →
        ws'.controllers[c]? = ws.controllers[c]? := by
  have hbatch := Batch.taken hb happly
  have hround := round_roundHistory ws.plans
    (buffer.listeners.map (⟨·, b, applied⟩))
    { ws with buffers := ws.buffers.set b { buffer with document := d } }
  have hedit := edit_on ws b changes
  unfold applyBatch at hedit
  rw [hb] at hedit
  dsimp only at hedit
  rw [happly] at hedit
  dsimp only at hedit
  generalize roundHistory _ _ _ = story at hround
  generalize deliverAll _ _ _ = result at hround hedit
  -- the list falls into those who are told and those who are not
  obtain ⟨told, untold, hlisteners, htelling⟩ := hround.telling hplans
  have hnew : document? { ws with
      buffers := ws.buffers.set b { buffer with document := d } } b
      = some d := by
    rw [document?_set hb, if_pos rfl]
  have hdoc : result.2.document? b = some d := by
    obtain ⟨d', hd', hreplays⟩ := hround.replays hnew
    rw [htelling.accepted] at hreplays
    cases hreplays
    exact hd'
  refine ⟨_, _, told, untold, hedit, hdoc, hlisteners, ?_, ?_, ?_, ?_⟩
  · rcases htelling.outcome with ⟨hnone, hok⟩ | ⟨fault, front, l, vs, hf, hl⟩
    · rw [hok]
      exact .inl ⟨hnone, rfl⟩
    · rw [hf]
      exact .inr ⟨fault, front, l, vs, rfl, hl⟩
  · intro w hw
    rw [(hround.noticed (b := b) hw (by rw [hnew]; rfl)).2, htelling.heard]
    rfl
  · rintro c k t states states' hcount hk rfl hlive hb' hb'' hbuild
    obtain ⟨d', hi⟩ := (hbuild.informed hb' hk hlive).batch hbatch
      (show Told _ _ _ [_] (some applied) by simp [Told])
    obtain ⟨k', d'', hi'⟩ := hround.informed (htelling.once _ hcount) hi
    obtain rfl := Option.some.inj (hdoc.symm.trans hi'.document)
    exact hi'.holdsBuild hb''
  · intro c hc
    refine hround.untold fun e he hce => hc ?_
    rw [← hce]
    exact htelling.called e he

-- ========================================================= two failures

/-- A brace becomes an `x`. -/
def crossed : List Change := [⟨⟨⟨0, 0⟩, ⟨0, 1⟩⟩, "x".toList⟩]

/-- A document, and what becomes of it. -/
def braced : Document :=
  .new "untitled:document" "plaintext" "\x7b".toList

def unbraced : Document :=
  ⟨"untitled:document", "plaintext", 1, .ofText "x".toList⟩

/-- The document with a controller, and a watcher behind it that fails. -/
def failing : Workspace :=
  let ws := (empty.addBuffer braced).2
  let ws := (ws.addWatcher ⟨"watcher", [.fail "not this"]⟩).2
  let ws := ((attach 0 (some ⟨0, .depth⟩) true).on ws).2
  (ws.subscribe 0 (.watcher 0)).2

/-- The document in strict mode with two controllers, the first of which
cannot tokenize an `x`. -/
def strictly : Workspace :=
  let ws := (empty.addBuffer braced).2
  let ws := { ws with
    config := ws.config.enter { strictEdits := .flag true } }
  let ws := ((attach 0 (some ⟨0, .table
    [⟨"x".toList, none, .fails "not this"⟩]⟩) true).on ws).2
  ((attach 0 (some ⟨1, .depth⟩) true).on ws).2

/-- The watcher fails, and the controller in front of it holds the full
build all the same. -/
theorem told_up_to_failure_in_front :
    ∃ fault ws', (edit 0 crossed).on failing = (.error fault, ws')
      ∧ HoldsBuild ws' 0 unbraced ⟨0, .depth⟩
        [.number 0] := by
  have hbuffer : failing.buffers[0]?
      = some ⟨braced, [.controller 0, .watcher 0]⟩ := by cbv
  have hseat : failing.seat? 0 = some (⟨0, some ⟨0, .depth⟩,
      ⟨[some (.number 1)]⟩, some 0, false⟩, braced) := by
    cbv
  have hbuild : HoldsBuild failing 0 braced ⟨0, .depth⟩
      [.number 1] := ⟨_, hseat, rfl, by cbv, rfl⟩
  have happly : braced.apply crossed = .ok (unbraced, crossed) := by cbv
  obtain ⟨answer, ws', told, untold, hedit, -, hlisteners, hend, -,
    hbuilds, -⟩ := told_up_to_failure (show failing.plans = [] by cbv) hbuffer
      happly
  have hanswer : ((edit 0 crossed).on failing).1
      = .error (.failed "not this") := by cbv
  rw [hedit] at hanswer
  obtain rfl : answer = _ := hanswer
  have htold : told.count (.controller 0) = 1 := by
    rcases hend with ⟨-, hok⟩ | ⟨_, front, l, _, -, rfl, -⟩
    · cases hok
    · -- whoever failed, the first listener was called
      rcases front with _ | ⟨x, _ | ⟨y, front⟩⟩
      · obtain ⟨rfl, -⟩ := List.cons.inj hlisteners
        decide
      · obtain ⟨rfl, hrest⟩ := List.cons.inj hlisteners
        obtain ⟨rfl, -⟩ := List.cons.inj hrest
        decide
      · simp at hlisteners
  exact ⟨_, ws', hedit, hbuilds 0 _ ⟨0, .depth⟩ _ _ htold (by cbv) rfl rfl
    (by cbv) (by cbv) hbuild⟩

/-- The strict controller fails, and the one behind it is not told: the
document has changed, and it holds the states of the old one. -/
theorem stranded :
    ((edit 0 crossed).on strictly).1 = .error (.failed "not this")
      ∧ strictly.buffers[0]?
        = some ⟨braced, [.controller 0, .controller 1]⟩
      ∧ HoldsBuild strictly 1 braced ⟨1, .depth⟩ [.number 1]
      ∧ ((edit 0 crossed).on strictly).2.document? 0 = some unbraced
      ∧ ¬∃ states, Engine.depth.fullBuild .none unbraced.lines = .ok states
        ∧ HoldsBuild ((edit 0 crossed).on strictly).2 1 unbraced
          ⟨1, .depth⟩ states := by
  have hseat : strictly.seat? 1 = some (⟨0, some ⟨1, .depth⟩,
      ⟨[some (.number 1)]⟩, some 1, false⟩, braced) := by
    cbv
  have hseat' : ((edit 0 crossed).on strictly).2.seat? 1
      = some (⟨0, some ⟨1, .depth⟩,
        ⟨[some (.number 1)]⟩, some 1, false⟩,
        unbraced) := by cbv
  have hstates : Engine.depth.fullBuild .none unbraced.lines
      = .ok [.number 0] := by cbv
  refine ⟨by cbv, by cbv, ⟨_, hseat, rfl, by cbv, rfl⟩,
    (seat?_eq_some.1 hseat').2, ?_⟩
  rintro ⟨states, hb, k, hk, -, -, hentries⟩
  cases hseat'.symm.trans hk
  cases hstates.symm.trans hb
  cases hentries

end Relex.Workspace
