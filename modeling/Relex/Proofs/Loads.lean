/-
How the loads change.

A fetch goes on in few operations; in all others its scope and stage stay
what they were (`progress?`), although those who wait for it come and go.
`Quiet` says of an operation that no grammar comes up in it: no fetch gets
any further, nobody is told an outcome. What is left are the turns in
which a fetch goes on or its outcome is handed over, the loader's coming
back, and what changes the registry.
-/
import Relex.Proofs.Registry

namespace Relex

-- =============================================================== stages

/-- The loader has given this grammar for the fetch. -/
inductive Stage.Holds (g : Grammar) : Stage → Prop where
  | waiting : Holds g (.waiting (.grammar g))
  | returned : Holds g (.returned (.grammar g))
  | done : Holds g (.done (some g))

theorem Stage.loaded_of_holds {loaded : Loaded} {g : Grammar}
    (h : (Stage.waiting loaded).Holds g) : loaded = .grammar g := by
  cases h
  rfl

/-- Is the fetch over? -/
def Stage.isOver : Stage → Bool
  | .done _ => true
  | _ => false

namespace Loads

variable {κ : Type} {l l' : Loads κ} {id : Nat} {f : Fetch} {g : Grammar}

-- ============================================================== fetches

/-- The scope of a fetch, and how far it has come. -/
def progress? (l : Loads κ) (id : Nat) : Option (String × Stage) :=
  (l.fetches[id]?).map fun f => (f.scope, f.stage)

theorem progress?_eq_some (hf : l.fetches[id]? = some f) :
    l.progress? id = some (f.scope, f.stage) := by
  unfold progress?
  rw [hf]
  rfl

/-- A fetch has an outcome if and only if it is over. -/
theorem outcome?_eq_some {grammar : Option Grammar} :
    l.outcome? id = some grammar
      ↔ ∃ scope, l.progress? id = some (scope, .done grammar) := by
  unfold outcome? progress?
  constructor
  · intro h
    split at h
    · next scope grammar' waiters hf =>
      cases h
      exact ⟨scope, by rw [hf]; rfl⟩
    · cases h
  · rintro ⟨scope, h⟩
    obtain ⟨f, hf, hp⟩ := Option.map_eq_some_iff.1 h
    obtain ⟨scope', stage, waiters⟩ := f
    cases hp
    rw [hf]

theorem progress?_eq_none (h : l.fetches.length ≤ id) :
    l.progress? id = none := by
  unfold progress?
  rw [List.getElem?_eq_none h]
  rfl

/-- Who waits for a fetch makes no difference to it. -/
theorem progress?_modify (l : Loads κ) (i : Nat)
    (change : List Nat → List Nat) (id : Nat) :
    progress? { l with fetches := l.fetches.modify i fun f =>
        { f with waiters := change f.waiters } } id = l.progress? id := by
  unfold progress?
  rw [List.getElem?_modify]
  cases l.fetches[id]? with
  | none => rfl
  | some f => split <;> rfl

/-- How far one fetch has come is no matter to the others. -/
theorem progress?_set (hf : l.fetches[id]? = some f) (stage : Stage)
    (i : Nat) :
    progress? { l with fetches := l.fetches.set id { f with stage } } i
      = if id = i then some (f.scope, stage) else l.progress? i := by
  obtain ⟨hlt, -⟩ := List.getElem?_eq_some_iff.1 hf
  unfold progress?
  dsimp only
  by_cases hi : id = i
  · subst hi
    rw [List.getElem?_set_self hlt, if_pos rfl]
    rfl
  · rw [List.getElem?_set_ne hi, if_neg hi]

-- ============================================================== telling

/-- Those who were told an outcome are those who had been told it, and the
one who is told now. -/
theorem told_tell {waiter n : Nat} {signal : Signal} {w : Waiter κ}
    (hw : (n, w) ∈ (l.tell waiter signal).waiters)
    (hsignal : w.signal = some (.outcome (some g))) :
    signal = .outcome (some g)
      ∨ ∃ w', (n, w') ∈ l.waiters
        ∧ w'.signal = some (.outcome (some g)) := by
  obtain ⟨⟨n', w'⟩, hw', heq⟩ := List.mem_map.1 hw
  dsimp only at heq
  split at heq
  · cases heq
    exact .inl (Option.some.inj hsignal)
  · cases heq
    exact .inr ⟨w, hw', hsignal⟩

-- ====================================================== nothing comes in

/-- From one moment to another no grammar came up that was not there: no
fetch went on, nobody was told one. -/
structure Quiet (l l' : Loads κ) : Prop where
  loader : l'.loader = l.loader
  calls : l'.calls = l.calls
  begun : l.fetches.length ≤ l'.fetches.length
  pending : ∀ scope id, l'.pending.get? scope = some id →
    l.pending.get? scope = some id ∨ l.fetches.length ≤ id
  progress : ∀ id p, l'.progress? id = some p →
    l.progress? id = some p ∨ p.2 = .created
  relays : ∀ id waiter, .relay id waiter ∈ l'.ready →
    .relay id waiter ∈ l.ready
  told : ∀ n w g, (n, w) ∈ l'.waiters →
    w.signal = some (.outcome (some g)) →
    ∃ w', (n, w') ∈ l.waiters ∧ w'.signal = some (.outcome (some g))
  registry : ∀ G, l.registry.From G → l'.registry.From G

theorem Quiet.refl (l : Loads κ) : Quiet l l where
  loader := rfl
  calls := rfl
  begun := Nat.le_refl _
  pending _ _ h := .inl h
  progress _ _ h := .inl h
  relays _ _ h := h
  told _ w _ h hsignal := ⟨w, h, hsignal⟩
  registry _ h := h

/-- Calls of the loader are never taken back. -/
theorem Quiet.count_le (hq : Quiet l l') (scope : String) :
    l.calls.count scope ≤ l'.calls.count scope :=
  Nat.le_of_eq (by rw [hq.calls])

/-- A grammar that a fetch has was there before. -/
theorem Quiet.held (hq : Quiet l l') {scope : String} {stage : Stage}
    (hp : l'.progress? id = some (scope, stage)) (hg : stage.Holds g) :
    l.progress? id = some (scope, stage) := by
  rcases hq.progress id _ hp with hp | rfl
  · exact hp
  · cases hg

/-- A turn that comes up hands no grammar over, if it is no relay. -/
theorem quiet_enqueue (l : Loads κ) {t : Turn κ}
    (ht : ∀ id waiter, t ≠ .relay id waiter) :
    Quiet l (l.enqueue t) := by
  refine { Quiet.refl l with relays := ?_ }
  intro id waiter hready
  rcases List.mem_append.1 hready with hready | hready
  · exact hready
  · exact absurd (List.mem_singleton.1 hready).symm (ht id waiter)

/-- Asking begins a fetch at most, which has no grammar yet. -/
theorem quiet_askGrammar (l : Loads κ) (scope : String) :
    Quiet l (l.askGrammar scope).2 := by
  unfold askGrammar
  split
  · exact .refl l
  · split
    · exact .refl l
    · split
      · split
        · exact .refl l
        · exact .refl l
      · -- a new fetch: it is the only one that was not there before
        refine { Quiet.refl l with
          begun := ?_
          pending := ?_
          progress := ?_
          relays := ?_ }
        · show l.fetches.length ≤ (l.fetches ++ [_]).length
          rw [List.length_append]
          exact Nat.le_add_right ..
        · intro other id hid
          have hid : (l.pending.insert scope _).get? other = some id := hid
          rw [Table.get?_insert] at hid
          split at hid
          · cases hid
            exact .inr (Nat.le_refl _)
          · exact .inl hid
        · intro id p hp
          rcases Nat.lt_or_ge id l.fetches.length with hlt | hge
          · unfold progress? at hp ⊢
            dsimp only [enqueue] at hp
            rw [List.getElem?_append_left hlt] at hp
            exact .inl hp
          · unfold progress? at hp
            dsimp only [enqueue] at hp
            rw [List.getElem?_append_right hge] at hp
            obtain ⟨f, hf, rfl⟩ := Option.map_eq_some_iff.1 hp
            have hf := List.mem_of_getElem? hf
            obtain rfl := List.mem_singleton.1 hf
            exact .inr rfl
        · intro id waiter hready
          rcases List.mem_append.1 hready with hready | hready
          · exact hready
          · cases List.mem_singleton.1 hready

/-- Who begins to wait is not told anything. -/
theorem quiet_join (l : Loads κ) (fetch : Nat) (k : κ) :
    Quiet l (l.join fetch k) := by
  refine { Quiet.refl l with
    begun := ?_
    progress := ?_
    told := ?_ }
  · exact Nat.le_of_eq (List.length_modify ..).symm
  · intro id p hp
    rw [← progress?_modify l fetch (· ++ [l.admitted]) id]
    exact .inl hp
  · intro n w g hw hsignal
    rcases List.mem_append.1 hw with hw | hw
    · exact ⟨w, hw, hsignal⟩
    · cases List.mem_singleton.1 hw
      cases hsignal

/-- Who is not to go on is told so, and no grammar. -/
theorem quiet_cancel (l : Loads κ) (waiter : Nat) :
    Quiet l (l.cancel waiter) := by
  have htold : ∀ n w g, (n, w) ∈ (l.tell waiter .cancelled).waiters →
      w.signal = some (.outcome (some g)) →
      ∃ w', (n, w') ∈ l.waiters
        ∧ w'.signal = some (.outcome (some g)) := by
    intro n w g hw hsignal
    exact (told_tell hw hsignal).resolve_left nofun
  unfold cancel
  split
  · exact .refl l
  · next w hw =>
    dsimp only
    split
    · exact { Quiet.refl l with told := htold }
    · refine { Quiet.refl l with
        begun := ?_
        progress := ?_
        relays := ?_
        told := htold }
      · exact Nat.le_of_eq (List.length_modify ..).symm
      · intro id p hp
        rw [← progress?_modify l w.fetch (·.erase waiter) id]
        exact .inl hp
      · intro id other hready
        rcases List.mem_append.1 hready with hready | hready
        · exact hready
        · cases List.mem_singleton.1 hready

theorem quiet_defer (l : Loads κ) : Quiet l l.defer := by
  refine { Quiet.refl l with relays := ?_ }
  intro id waiter hready
  unfold defer at hready
  cases hl : l.ready with
  | nil =>
      rw [hl] at hready
      cases hready
  | cons t rest =>
      rw [hl] at hready
      rcases List.mem_append.1 hready with hready | hready
      · exact List.mem_cons_of_mem _ hready
      · rw [← List.mem_singleton.1 hready]
        exact List.mem_cons_self ..

theorem quiet_forgetLoaded (l : Loads κ) : Quiet l l.forgetLoaded := by
  refine { Quiet.refl l with
    pending := ?_
    registry := ?_ }
  · intro scope id hid
    cases hid
  · intro G h
    exact h.forgetLoaded

theorem quiet_rest {t : Turn κ} {rest : List (Turn κ)}
    (h : l.ready = t :: rest) : Quiet l { l with ready := rest } := by
  refine { Quiet.refl l with relays := ?_ }
  intro id waiter hready
  rw [h]
  exact List.mem_cons_of_mem _ hready

/-- Dropping a fetch leaves it to those who wait for it. -/
theorem quiet_forget (l : Loads κ) (id : Nat) :
    Quiet l (l.forget id) := by
  unfold forget
  split
  · exact .refl l
  · next f hf =>
    split
    · refine { Quiet.refl l with pending := ?_ }
      intro scope id' hid
      have hid : (l.pending.erase f.scope).get? scope = some id' := hid
      rw [Table.get?_erase] at hid
      split at hid
      · cases hid
      · exact .inl hid
    · exact .refl l

/-- Those who go on take with them what they were told. -/
theorem quiet_leave (l : Loads κ) (waiter : Nat) :
    Quiet l { l with waiters := l.waiters.filter (·.1 ≠ waiter) } := by
  refine { Quiet.refl l with told := ?_ }
  intro n w g hw hsignal
  exact ⟨w, (List.mem_filter.1 hw).1, hsignal⟩

end Loads

end Relex
