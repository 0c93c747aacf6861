/-
Who is told what.

Those who wait have numbers. A fetch lists the numbers of those waiting for
it; when it is over a turn comes up for each of them to be told, and it is
forgotten. At all times a number that is listed, or is to be told the
outcome of a fetch, belongs to someone who waits for that fetch, or to
nobody any more; and whoever was told an outcome was told that of the fetch
waited for (`Addressed`). Numbers are not given twice, so it stays so when
someone new begins to wait.

What someone waits for has a scope. It is the scope of the fetch.
-/
import Relex.Proofs.Arrivals

namespace Relex.Loads

variable {κ : Type} {about : κ → Option String} {l l' : Loads κ}
  {id : Nat} {f : Fetch} {scope : String} {stage : Stage}

/-- Those who wait are told the outcome of the fetch that they wait for,
which is for the scope that they go on about; and only a fetch that is over
is forgotten. -/
structure Addressed (about : κ → Option String) (l : Loads κ) :
    Prop where
  waits : ∀ n w, (n, w) ∈ l.waiters → n < l.admitted
    ∧ ∃ scope stage, about w.goesOn = some scope
      ∧ l.progress? w.fetch = some (scope, stage)
  told : ∀ n w grammar, (n, w) ∈ l.waiters →
    w.signal = some (.outcome grammar) →
    l.outcome? w.fetch = some grammar
  listed : ∀ (id : Nat) f n, l.fetches[id]? = some f → n ∈ f.waiters →
    n < l.admitted ∧ ∀ w, (n, w) ∈ l.waiters → w.fetch = id
  relays : ∀ id n, .relay id n ∈ l.ready →
    n < l.admitted ∧ ∀ w, (n, w) ∈ l.waiters → w.fetch = id
  forgets : ∀ id, .forget id ∈ l.ready →
    ∃ grammar, l.outcome? id = some grammar

theorem addressed_new (registry : Registry) (loader : Option Loader) :
    Addressed about (new registry loader) :=
  ⟨nofun, nofun, nofun, nofun, nofun⟩

-- ===================================================== what leaves it so

/-- Nobody new waits or is listed, and what is told or forgotten is due. -/
theorem Addressed.later (h : Addressed about l) (hl : Later l l')
    (hadmitted : l'.admitted = l.admitted)
    (hwaiters : ∀ n w, (n, w) ∈ l'.waiters →
      ∃ w', (n, w') ∈ l.waiters ∧ w'.fetch = w.fetch
        ∧ w'.goesOn = w.goesOn
        ∧ ∀ grammar, w.signal = some (.outcome grammar) →
          w'.signal = some (.outcome grammar)
            ∨ l.outcome? w.fetch = some grammar)
    (hlisted : ∀ (id : Nat) f' n, l'.fetches[id]? = some f' →
      n ∈ f'.waiters → ∃ f, l.fetches[id]? = some f ∧ n ∈ f.waiters)
    (hrelays : ∀ id n, .relay id n ∈ l'.ready → .relay id n ∈ l.ready
      ∨ ∃ f, l.fetches[id]? = some f ∧ n ∈ f.waiters)
    (hforgets : ∀ id, .forget id ∈ l'.ready → .forget id ∈ l.ready
      ∨ ∃ grammar, l'.outcome? id = some grammar) :
    Addressed about l' := by
  -- a number stays with the fetch that it is listed with
  have hkept : ∀ id n, (n < l.admitted
      ∧ ∀ w, (n, w) ∈ l.waiters → w.fetch = id) →
      n < l'.admitted ∧ ∀ w, (n, w) ∈ l'.waiters → w.fetch = id := by
    rintro id n ⟨hn, hid⟩
    refine ⟨hadmitted ▸ hn, fun w hw => ?_⟩
    obtain ⟨w', hw', hfetch, -⟩ := hwaiters n w hw
    rw [← hfetch]
    exact hid w' hw'
  refine ⟨?_, ?_, ?_, ?_, ?_⟩
  · intro n w hw
    obtain ⟨w', hw', hfetch, hgoes, -⟩ := hwaiters n w hw
    obtain ⟨hn, scope, stage, habout, hp⟩ := h.waits n w' hw'
    rw [hfetch] at hp
    rw [hgoes] at habout
    obtain ⟨stage', hp', -⟩ := hl _ _ _ hp
    exact ⟨hadmitted ▸ hn, scope, stage', habout, hp'⟩
  · intro n w grammar hw hsignal
    obtain ⟨w', hw', hfetch, -, htold⟩ := hwaiters n w hw
    rcases htold grammar hsignal with hsignal' | hout
    · exact hl.outcome? (hfetch ▸ h.told n w' grammar hw' hsignal')
    · exact hl.outcome? hout
  · intro id f' n hf' hn
    obtain ⟨f, hf, hn⟩ := hlisted id f' n hf' hn
    exact hkept id n (h.listed id f n hf hn)
  · intro id n hready
    rcases hrelays id n hready with hready | ⟨f, hf, hn⟩
    · exact hkept id n (h.relays id n hready)
    · exact hkept id n (h.listed id f n hf hn)
  · intro id hready
    rcases hforgets id hready with hready | hout
    · obtain ⟨grammar, hout⟩ := h.forgets id hready
      exact ⟨grammar, hl.outcome? hout⟩
    · exact hout

/-- The same if those who wait, and the lists, are the same. -/
theorem Addressed.of_waiters (h : Addressed about l) (hl : Later l l')
    (hadmitted : l'.admitted = l.admitted)
    (hwaiters : l'.waiters = l.waiters)
    (hlisted : ∀ (id : Nat) f' n, l'.fetches[id]? = some f' →
      n ∈ f'.waiters → ∃ f, l.fetches[id]? = some f ∧ n ∈ f.waiters)
    (hrelays : ∀ id n, .relay id n ∈ l'.ready → .relay id n ∈ l.ready
      ∨ ∃ f, l.fetches[id]? = some f ∧ n ∈ f.waiters)
    (hforgets : ∀ id, .forget id ∈ l'.ready → .forget id ∈ l.ready
      ∨ ∃ grammar, l'.outcome? id = some grammar) :
    Addressed about l' := by
  refine h.later hl hadmitted ?_ hlisted hrelays hforgets
  intro n w hw
  rw [hwaiters] at hw
  exact ⟨w, hw, rfl, rfl, fun _ hsignal => .inl hsignal⟩

/-- Neither the fetches nor those who wait nor the turns changed. -/
theorem Addressed.steady (h : Addressed about l)
    (hfetches : l'.fetches = l.fetches) (hwaiters : l'.waiters = l.waiters)
    (hadmitted : l'.admitted = l.admitted) (hready : l'.ready = l.ready) :
    Addressed about l' := by
  have hlater : Later l l' := by
    apply Later.of_progress
    intro id
    unfold progress?
    rw [hfetches]
  refine h.of_waiters hlater hadmitted hwaiters ?_ ?_ ?_
  · rw [hfetches]
    exact fun _ f _ hf hn => ⟨f, hf, hn⟩
  · rw [hready]
    exact fun _ _ hmem => .inl hmem
  · rw [hready]
    exact fun _ hmem => .inl hmem

/-- Turns come up that tell nobody and forget nothing. -/
theorem Addressed.enqueue (h : Addressed about l) {t : Turn κ}
    (hrelay : ∀ id n, t ≠ .relay id n) (hforget : ∀ id, t ≠ .forget id) :
    Addressed about (l.enqueue t) := by
  refine h.of_waiters (.refl l) rfl rfl (fun _ f _ hf hn => ⟨f, hf, hn⟩)
    ?_ ?_
  · intro id n hready
    rcases List.mem_append.1 hready with hready | hready
    · exact .inl hready
    · exact absurd (List.mem_singleton.1 hready).symm (hrelay id n)
  · intro id hready
    rcases List.mem_append.1 hready with hready | hready
    · exact .inl hready
    · exact absurd (List.mem_singleton.1 hready).symm (hforget id)

/-- Other turns, of those there were. -/
theorem Addressed.of_ready (h : Addressed about l)
    {ready : List (Turn κ)} (hready : ∀ t ∈ ready, t ∈ l.ready) :
    Addressed about { l with ready } :=
  h.of_waiters (.refl l) rfl rfl (fun _ f _ hf hn => ⟨f, hf, hn⟩)
    (fun _ _ hmem => .inl (hready _ hmem))
    fun _ hmem => .inl (hready _ hmem)

/-- The lists are as they were if a fetch only goes on. -/
theorem listed_set (hf : l.fetches[id]? = some f) (stage : Stage)
    (i : Nat) (f' : Fetch) (n : Nat)
    (hf' : (l.fetches.set id { f with stage })[i]? = some f')
    (hn : n ∈ f'.waiters) :
    ∃ f, l.fetches[i]? = some f ∧ n ∈ f.waiters := by
  rw [List.getElem?_set] at hf'
  split at hf'
  · next heq =>
    subst heq
    split at hf'
    · cases hf'
      exact ⟨f, hf, hn⟩
    · cases hf'
  · exact ⟨f', hf', hn⟩

theorem Addressed.set (h : Addressed about l)
    (hf : l.fetches[id]? = some f) (hopen : f.stage.isOver = false)
    (stage : Stage) :
    Addressed about
      { l with fetches := l.fetches.set id { f with stage } } :=
  h.of_waiters (later_set hf hopen stage) rfl rfl (listed_set hf stage)
    (fun _ _ hmem => .inl hmem) fun _ hmem => .inl hmem

-- ============================================================ operations

theorem Addressed.askGrammar (h : Addressed about l) (scope : String) :
    Addressed about (l.askGrammar scope).2 := by
  unfold Loads.askGrammar
  split
  · exact h
  · split
    · exact h
    · split
      · split
        · exact h
        · exact h
      · have hbegun : Addressed about { l with
            fetches := l.fetches ++ [⟨scope, .created, []⟩]
            pending := l.pending.insert scope l.fetches.length } := by
          refine h.of_waiters ?_ rfl rfl ?_ (fun _ _ hmem => .inl hmem)
            fun _ hmem => .inl hmem
          · intro id other stage hp
            exact ⟨stage, progress?_append l _ hp, fun _ => rfl⟩
          · intro id f' n hf' hn
            rw [List.getElem?_append] at hf'
            split at hf'
            · exact ⟨f', hf', hn⟩
            · obtain rfl :=
                List.mem_singleton.1 (List.mem_of_getElem? hf')
              cases hn
        exact hbegun.enqueue nofun nofun

theorem Addressed.finishTokenizer (h : Addressed about l)
    (scope : String) (grammar : Option Grammar) :
    Addressed about (l.finishTokenizer scope grammar).2 := by
  unfold Loads.finishTokenizer
  cases grammar with
  | none => exact h
  | some g =>
      dsimp only
      split
      · exact h.steady rfl rfl rfl rfl
      · exact h.steady rfl rfl rfl rfl

/-- Someone new waits, with a number that nobody had. -/
theorem Addressed.join (h : Addressed about l) {k : κ}
    (habout : about k = some scope)
    (hp : l.progress? id = some (scope, stage)) :
    Addressed about (l.join id k) := by
  have hprogress := progress?_join l id k
  have hwaiters : ∀ n w, (n, w) ∈ (l.join id k).waiters →
      (n, w) ∈ l.waiters ∨ n = l.admitted ∧ w = ⟨id, none, k⟩ := by
    intro n w hw
    rcases List.mem_append.1 hw with hw | hw
    · exact .inl hw
    · cases List.mem_singleton.1 hw
      exact .inr ⟨rfl, rfl⟩
  -- numbers given out before belong to whom they belonged to
  have hkept : ∀ i n, (n < l.admitted
      ∧ ∀ w, (n, w) ∈ l.waiters → w.fetch = i) → n < l.admitted + 1
      ∧ ∀ w, (n, w) ∈ (l.join id k).waiters → w.fetch = i := by
    rintro i n ⟨hn, hi⟩
    refine ⟨Nat.lt_succ_of_lt hn, fun w hw => ?_⟩
    rcases hwaiters n w hw with hw | ⟨rfl, -⟩
    · exact hi w hw
    · exact absurd hn (Nat.lt_irrefl _)
  refine ⟨?_, ?_, ?_, fun i n hmem => hkept i n (h.relays i n hmem), ?_⟩
  · intro n w hw
    rcases hwaiters n w hw with hw | ⟨rfl, rfl⟩
    · obtain ⟨hn, other, stage, hgoes, hp⟩ := h.waits n w hw
      exact ⟨Nat.lt_succ_of_lt hn, other, stage, hgoes,
        (hprogress _).trans hp⟩
    · exact ⟨Nat.lt_succ_self _, scope, stage, habout,
        (hprogress _).trans hp⟩
  · intro n w grammar hw hsignal
    rcases hwaiters n w hw with hw | ⟨rfl, rfl⟩
    · have hlater : Later l (l.join id k) := .of_progress hprogress
      exact hlater.outcome? (h.told n w grammar hw hsignal)
    · cases hsignal
  · intro i f' n hf' hn
    have hf' : (l.fetches.modify id _)[i]? = some f' := hf'
    rw [List.getElem?_modify] at hf'
    obtain ⟨f, hf, rfl⟩ := Option.map_eq_some_iff.1 hf'
    split at hn
    · next heq =>
      rcases List.mem_append.1 hn with hn | hn
      · exact hkept i n (h.listed i f n hf hn)
      · -- the number is new, so it belongs to nobody else
        obtain rfl := List.mem_singleton.1 hn
        refine ⟨Nat.lt_succ_self _, fun w hw => ?_⟩
        rcases hwaiters _ w hw with hw | ⟨-, rfl⟩
        · exact absurd (h.waits _ w hw).1 (Nat.lt_irrefl _)
        · exact heq
    · exact hkept i n (h.listed i f n hf hn)
  · intro i hmem
    obtain ⟨grammar, hout⟩ := h.forgets i hmem
    have hlater : Later l (l.join id k) := .of_progress hprogress
    exact ⟨grammar, hlater.outcome? hout⟩

/-- Someone who waits is told something true. -/
theorem Addressed.tell (h : Addressed about l) (waiter : Nat)
    (signal : Signal)
    (htrue : ∀ w grammar, (waiter, w) ∈ l.waiters →
      signal = .outcome grammar → l.outcome? w.fetch = some grammar) :
    Addressed about (l.tell waiter signal) := by
  refine h.later (.refl l) rfl ?_ (fun _ f _ hf hn => ⟨f, hf, hn⟩)
    (fun _ _ hmem => .inl hmem) fun _ hmem => .inl hmem
  intro n w hw
  obtain ⟨⟨n', w'⟩, hw', heq⟩ := List.mem_map.1 hw
  dsimp only at heq
  split at heq
  · next hn =>
    cases heq
    refine ⟨w', hw', rfl, rfl, fun grammar hsignal => .inr ?_⟩
    exact htrue w' grammar (hn ▸ hw') (Option.some.inj hsignal)
  · cases heq
    exact ⟨w, hw', rfl, rfl, fun _ hsignal => .inl hsignal⟩

theorem Addressed.cancel (h : Addressed about l) (waiter : Nat) :
    Addressed about (l.cancel waiter) := by
  have htold := h.tell waiter .cancelled nofun
  unfold Loads.cancel
  split
  · exact h
  · next w hw =>
    dsimp only
    split
    · exact htold
    · refine Addressed.enqueue (t := .wake waiter) ?_ nofun nofun
      refine htold.of_waiters (.of_progress (progress?_modify _ w.fetch
        (·.erase waiter))) rfl rfl ?_ (fun _ _ hmem => .inl hmem)
        fun _ hmem => .inl hmem
      intro i f' n hf' hn
      have hf' : (l.fetches.modify w.fetch _)[i]? = some f' := hf'
      rw [List.getElem?_modify] at hf'
      obtain ⟨f, hf, rfl⟩ := Option.map_eq_some_iff.1 hf'
      refine ⟨f, hf, ?_⟩
      split at hn
      · exact List.mem_of_mem_erase hn
      · exact hn

theorem Addressed.comeBack (h : Addressed about l) (id : Nat) :
    Addressed about (l.comeBack id) := by
  unfold Loads.comeBack
  split
  · next scope loaded waiters hf =>
    exact (h.set hf rfl (.returned loaded)).enqueue nofun nofun
  · exact h

theorem Addressed.defer (h : Addressed about l) :
    Addressed about l.defer := by
  apply h.of_ready
  intro t hmem
  cases hl : l.ready with
  | nil =>
      rw [hl] at hmem
      cases hmem
  | cons t' rest =>
      rw [hl] at hmem
      rcases List.mem_append.1 hmem with hmem | hmem
      · exact List.mem_cons_of_mem _ hmem
      · rw [List.mem_singleton.1 hmem]
        exact List.mem_cons_self ..

-- =============================================================== turns

/-- A fetch is over. Those on its list are to be told, and it is to be
forgotten. -/
theorem Addressed.complete (h : Addressed about l)
    (hf : l.fetches[id]? = some f) (hopen : f.stage.isOver = false)
    (loaded : Loaded) : Addressed about (l.complete id f loaded) := by
  have hwaiters : (l.complete id f loaded).waiters = l.waiters := by
    cases loaded <;> rfl
  have hadmitted : (l.complete id f loaded).admitted = l.admitted := by
    cases loaded <;> rfl
  have hready : (l.complete id f loaded).ready
      = l.ready ++ .forget id :: f.waiters.map (.relay id) := by
    cases loaded <;> rfl
  have hfetches : ∃ stage, (l.complete id f loaded).fetches
      = l.fetches.set id { f with stage } := by
    cases loaded <;> exact ⟨_, rfl⟩
  refine h.of_waiters (later_complete hf hopen loaded) hadmitted hwaiters
    ?_ ?_ ?_
  · obtain ⟨stage, hfetches⟩ := hfetches
    rw [hfetches]
    exact listed_set hf stage
  · intro i n hmem
    rw [hready] at hmem
    rcases List.mem_append.1 hmem with hmem | hmem
    · exact .inl hmem
    rcases List.mem_cons.1 hmem with hmem | hmem
    · cases hmem
    -- the relays that come up are for those on its list
    obtain ⟨n, hn, hrelay⟩ := List.mem_map.1 hmem
    cases hrelay
    exact .inr ⟨f, hf, hn⟩
  · intro i hmem
    rw [hready] at hmem
    rcases List.mem_append.1 hmem with hmem | hmem
    · exact .inl hmem
    rcases List.mem_cons.1 hmem with hmem | hmem
    · cases hmem
      exact .inr ⟨_, outcome?_complete hf loaded⟩
    · obtain ⟨_, -, hrelay⟩ := List.mem_map.1 hmem
      cases hrelay

theorem Addressed.runFetch (h : Addressed about l) (id : Nat) :
    Addressed about (l.runFetch id) := by
  unfold Loads.runFetch
  split
  · next f load hf hload =>
    split
    · next hcreated =>
      have hopen : f.stage.isOver = false := by rw [hcreated]; rfl
      have hcalled : Addressed about
          { l with calls := l.calls ++ [f.scope] } :=
        h.steady rfl rfl rfl rfl
      dsimp only
      split
      · exact hcalled.set hf hopen _
      · exact hcalled.complete hf hopen _
    · next loaded hstage =>
      exact h.complete hf (by rw [hstage]; rfl) loaded
    · exact h
  · exact h

theorem Addressed.forget (h : Addressed about l) (id : Nat) :
    Addressed about (l.forget id) := by
  unfold Loads.forget
  split
  · exact h
  · split
    · exact h.steady rfl rfl rfl rfl
    · exact h

/-- The outcome of a fetch is handed to one who waits for it. -/
theorem Addressed.relay (h : Addressed about l) {id waiter : Nat}
    (hfetch : ∀ w, (waiter, w) ∈ l.waiters → w.fetch = id) :
    Addressed about (l.relay id waiter) := by
  unfold Loads.relay
  split
  · next grammar _ _ hout hw =>
    refine (h.tell waiter (.outcome grammar) ?_).enqueue nofun nofun
    rintro w _ hmem ⟨⟩
    rw [hfetch w hmem]
    exact hout
  · exact h

theorem Addressed.rest (h : Addressed about l) {t : Turn κ}
    {rest : List (Turn κ)} (hready : l.ready = t :: rest) :
    Addressed about { l with ready := rest } := by
  apply h.of_ready
  intro t' hmem
  rw [hready]
  exact List.mem_cons_of_mem _ hmem

theorem Addressed.leave (h : Addressed about l) (waiter : Nat) :
    Addressed about { l with
      waiters := l.waiters.filter (·.1 ≠ waiter) } := by
  refine h.later (.refl l) rfl ?_ (fun _ f _ hf hn => ⟨f, hf, hn⟩)
    (fun _ _ hmem => .inl hmem) fun _ hmem => .inl hmem
  intro n w hw
  exact ⟨w, (List.mem_filter.1 hw).1, rfl, rfl,
    fun _ hsignal => .inl hsignal⟩

theorem Addressed.turn (h : Addressed about l) {event : Event κ}
    (ht : l.turn = some (event, l')) : Addressed about l' := by
  cases taken ht with
  | start hready => exact h.rest hready
  | fetch hready => exact (h.rest hready).runFetch _
  | forget hready => exact (h.rest hready).forget _
  | @relay id waiter rest hready =>
      have hrelay := h.relays id waiter (by rw [hready]; simp)
      exact (h.rest hready).relay hrelay.2
  | idle hready => exact h.rest hready
  | resume hready => exact (h.rest hready).leave _
  | cancelled hready => exact (h.rest hready).leave _

/-- Who goes on waited for a fetch that is over and goes on with its
outcome, about its scope. -/
theorem Addressed.resumed (h : Addressed about l) {k : κ}
    {grammar : Option Grammar}
    (ht : l.turn = some (.resumed k grammar, l')) :
    l'.registry = l.registry ∧ ∃ n w scope, (n, w) ∈ l.waiters
      ∧ w.goesOn = k ∧ about k = some scope
      ∧ l.progress? w.fetch = some (scope, .done grammar) := by
  cases taken ht with
  | resume hready hw =>
      obtain ⟨-, scope, stage, habout, hp⟩ := h.waits _ _ hw
      obtain ⟨other, hdone⟩ := outcome?_eq_some.1 (h.told _ _ _ hw rfl)
      cases hp.symm.trans hdone
      exact ⟨rfl, _, _, scope, hw, rfl, habout, hp⟩

end Relex.Loads
