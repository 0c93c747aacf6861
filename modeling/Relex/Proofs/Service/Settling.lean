/-
A service that takes its turns comes to rest.

A turn uses up one of those that are ready, and may bring up others: when
a fetch is over there is one to drop it and one for each of those waiting,
who is told goes on in one more, and a job that begins or goes on may ask
for something and wait. So a service comes to rest only because less and
less is left to be asked for.

# The measure

`turnBound = toCome + 4 · (toOpen + toStart · mayBeOpen)`. Work that is
under way is priced by the turns it leads to (`Loads.toCome`), and work
that is not, by how often it may come to wait, four turns each time.

- In a quiet turn nobody asks for anything: one turn is used up, and those
  it brings up were priced already (`Loads.toCome_turn`).
- A job that goes on opens the documents that it has left, until it waits
  again with fewer (`Affords`).
- A job that begins is one less to begin. A reload is paid for by the
  documents it closes, any other job by the one place it had itself in
  `mayBeOpen`.

Documents only come to be open for jobs that begin, or that have them
left, so `mayBeOpen` never grows; a reload opens those it closed.
-/
import Relex.Proofs.Service.Upkeep

namespace Relex

/-- How many jobs begin in what became of a turn. -/
def Event.begun {κ : Type} : Event κ → Nat
  | .started _ => 1
  | _ => 0

/-- What is counted of the one who goes on, if there is one. -/
def Event.gone {κ : Type} (count : κ → Nat) : Event κ → Nat
  | .resumed k _ => count k
  | .cancelled k => count k
  | _ => 0

/-- How many turns come up for an answer: for one that has to be waited
for one in which a fetch begins, and one to drop it. -/
def Asked.brought {α : Type} : Asked α → Nat
  | .known _ => 0
  | .wait _ => 2

namespace Loads

-- ============================================================== totals

section

variable {α : Type} {f : α → Nat} {l : List α} {a : α}

theorem total_append (f : α → Nat) (l l' : List α) :
    total f (l ++ l') = total f l + total f l' := by
  induction l with
  | nil => exact (Nat.zero_add _).symm
  | cons c l ih =>
      simp only [List.cons_append, total]
      omega

theorem total_map (f : α → Nat) (g : α → α) (l : List α) :
    total f (l.map g) = total (fun a => f (g a)) l := by
  induction l with
  | nil => rfl
  | cons c l ih => simp only [List.map_cons, total, ih]

theorem total_set {i : Nat} (h : l[i]? = some a) (b : α) :
    total f (l.set i b) + f a = total f l + f b := by
  induction l generalizing i with
  | nil => cases h
  | cons c l ih =>
      cases i with
      | zero =>
          obtain rfl : c = a := Option.some.inj h
          simp only [List.set_cons_zero, total]
          omega
      | succ i =>
          have := ih h
          simp only [List.set_cons_succ, total]
          omega

theorem total_modify_le {g : α → α} (h : ∀ a, f (g a) ≤ f a + 1)
    (i : Nat) : total f (l.modify i g) ≤ total f l + 1 := by
  induction l generalizing i with
  | nil => simp [total]
  | cons c l ih =>
      cases i with
      | zero =>
          have := h c
          simp only [List.modify_zero_cons, total]
          omega
      | succ i =>
          have := ih i
          simp only [List.modify_succ_cons, total]
          omega

/-- What is left out was part of the total. -/
theorem total_filter_add_le {p : α → Bool} (h : a ∈ l)
    (hp : p a = false) : total f (l.filter p) + f a ≤ total f l := by
  have hless : ∀ l, total f (l.filter p) ≤ total f l := by
    intro l
    induction l with
    | nil => exact Nat.le_refl _
    | cons c l ih =>
        rw [List.filter_cons]
        split
        · simp only [total]
          omega
        · simp only [total]
          omega
  induction l with
  | nil => cases h
  | cons c l ih =>
      rw [List.filter_cons]
      rcases List.mem_cons.1 h with rfl | h
      · have := hless l
        simp only [hp, Bool.false_eq_true, if_false, total]
        omega
      · have := ih h
        split
        · simp only [total]
          omega
        · simp only [total]
          omega

/-- Where something counted before does not count any more, and nothing
new counts, the count goes down. -/
theorem countP_lt_of_map {p : α → Bool} {g : α → α}
    (hg : ∀ a, p (g a) = true → p a = true) (h : a ∈ l) (ha : p a = true)
    (hlast : p (g a) = false) : (l.map g).countP p < l.countP p := by
  rw [List.countP_map]
  induction l with
  | nil => cases h
  | cons c l ih =>
      rw [List.countP_cons, List.countP_cons, Function.comp_apply]
      rcases List.mem_cons.1 h with rfl | h
      · have : l.countP (p ∘ g) ≤ l.countP p :=
          List.countP_mono_left fun b _ hb => hg b hb
        simp only [ha, hlast, if_pos, Bool.false_eq_true, if_false]
        omega
      · have := ih h
        have := hg c
        split
        · next hc =>
          rw [if_pos (hg c hc)]
          omega
        · omega

end

-- =============================================================== turns

variable {κ : Type} {l l' : Loads κ} {f : Fetch} {id waiter : Nat}

/-- A turn that comes up is one more to come. -/
theorem toCome_enqueue (l : Loads κ) (t : Turn κ) :
    (l.enqueue t).toCome = l.toCome + 1 := by
  simp only [enqueue, toCome, List.length_append, List.length_singleton]
  omega

/-- A turn that is taken is one less to come. -/
theorem toCome_rest {t : Turn κ} {rest : List (Turn κ)}
    (hready : l.ready = t :: rest) :
    toCome { l with ready := rest } + 1 = l.toCome := by
  simp only [toCome, hready, List.length_cons]
  omega

/-- The turns that a fetch brings up when it is over are those it was to
lead to. -/
theorem toCome_complete (hf : l.fetches[id]? = some f)
    (hcomes : f.toCome = f.waiters.length + 1) (loaded : Loaded) :
    (l.complete id f loaded).toCome = l.toCome := by
  have hover : ∀ grammar, total (·.toCome)
        (l.fetches.set id { f with stage := .done grammar })
      + (f.waiters.length + 1) = total (·.toCome) l.fetches := by
    intro grammar
    rw [← hcomes, total_set (f := (·.toCome)) hf]
    rfl
  unfold toCome complete
  cases loaded with
  | grammar g =>
      have := hover (some g)
      simp only [List.length_append, List.length_cons, List.length_map]
      omega
  | nothing =>
      have := hover none
      simp only [List.length_append, List.length_cons, List.length_map]
      omega
  | failed =>
      have := hover none
      simp only [noted, List.length_append, List.length_cons,
        List.length_map]
      omega

theorem toCome_runFetch (l : Loads κ) (id : Nat) :
    (l.runFetch id).toCome ≤ l.toCome := by
  unfold runFetch
  split
  · next f load hf hload =>
    split
    · next hstage =>
      have hcomes : f.toCome = f.waiters.length + 1 := by
        unfold Fetch.toCome
        rw [hstage]
      dsimp only
      split
      · -- the loader is waited for: nothing more comes of the fetch now
        generalize (load f.scope (l.calls.count f.scope)).loaded = loaded
        have hset := total_set (f := (·.toCome)) hf
          { f with stage := .waiting loaded }
        have hwaits : Fetch.toCome { f with stage := .waiting loaded } = 0 :=
          rfl
        dsimp only [toCome] at hset ⊢
        omega
      · exact Nat.le_of_eq (toCome_complete
          (l := { l with calls := l.calls ++ [f.scope] }) hf hcomes _)
    · next loaded hstage =>
      have hcomes : f.toCome = f.waiters.length + 1 := by
        unfold Fetch.toCome
        rw [hstage]
      exact Nat.le_of_eq (toCome_complete hf hcomes loaded)
    · exact Nat.le_refl _
  · exact Nat.le_refl _

theorem toCome_forget (l : Loads κ) (id : Nat) :
    (l.forget id).toCome = l.toCome := by
  unfold forget
  split
  · rfl
  · split
    · rfl
    · rfl

/-- Someone who is told something for the first time is one less of those
to be told. -/
theorem toCome_tell {w : Waiter κ}
    (hw : l.waiters.lookup waiter = some w) (hnone : w.signal = none)
    (signal : Signal) : (l.tell waiter signal).toCome < l.toCome := by
  refine Nat.add_lt_add_left (countP_lt_of_map ?_ (Table.mem_of_lookup hw)
    ?_ ?_) _
  · intro e h
    by_cases he : e.1 = waiter
    · simp [he] at h
    · simpa [he] using h
  · simp [hnone]
  · simp

theorem toCome_relay (l : Loads κ) (id waiter : Nat) :
    (l.relay id waiter).toCome ≤ l.toCome := by
  unfold relay
  split
  · next grammar fetch k hout hw =>
    have := toCome_tell hw rfl (.outcome grammar)
    rw [toCome_enqueue]
    omega
  · exact Nat.le_refl _

/-- Who goes on is waiting no more. -/
theorem toCome_leave (l : Loads κ) (waiter : Nat) :
    toCome { l with waiters := l.waiters.filter (·.1 ≠ waiter) }
      ≤ l.toCome := by
  have : (l.waiters.filter (·.1 ≠ waiter)).countP (·.2.signal.isNone)
      ≤ l.waiters.countP (·.2.signal.isNone) :=
    List.Sublist.countP_le List.filter_sublist
  unfold toCome
  dsimp only
  omega

/-- A turn takes one off those to come, at least. -/
theorem toCome_turn {event : Event κ} (h : l.turn = some (event, l')) :
    l'.toCome < l.toCome := by
  cases taken h with
  | start hready =>
      have := toCome_rest hready
      omega
  | @fetch id rest hready =>
      have := toCome_rest hready
      have := toCome_runFetch { l with ready := rest } id
      omega
  | @forget id rest hready =>
      have := toCome_rest hready
      have := toCome_forget { l with ready := rest } id
      omega
  | @relay id waiter rest hready =>
      have := toCome_rest hready
      have := toCome_relay { l with ready := rest } id waiter
      omega
  | idle hready =>
      have := toCome_rest hready
      omega
  | @resume waiter fetch rest grammar k hready hw =>
      have := toCome_rest hready
      have := toCome_leave { l with ready := rest } waiter
      dsimp only at this
      omega
  | @cancelled waiter fetch rest k hready hw =>
      have := toCome_rest hready
      have := toCome_leave { l with ready := rest } waiter
      dsimp only at this
      omega

-- ============================================= who begins and who waits

/-- Nobody else is to begin, and nobody waits for more or for less. -/
structure Unmoved (count : κ → Nat) (l l' : Loads κ) : Prop where
  toStart : l'.toStart = l.toStart
  inWait : l'.inWait count = l.inWait count

variable (count : κ → Nat)

theorem Unmoved.refl (l : Loads κ) : Unmoved count l l := ⟨rfl, rfl⟩

theorem toStart_enqueue {t : Turn κ} (h : t.isStart = false) :
    (l.enqueue t).toStart = l.toStart := by
  simp [enqueue, toStart, List.countP_append, h]

/-- A fetch that is over brings up turns in which nobody begins. -/
theorem unmoved_complete (l : Loads κ) (id : Nat) (f : Fetch)
    (loaded : Loaded) : Unmoved count l (l.complete id f loaded) := by
  refine ⟨?_, ?_⟩
  · cases loaded <;>
      simp [complete, noted, toStart, List.countP_append, Turn.isStart]
  · cases loaded <;> rfl

theorem unmoved_runFetch (l : Loads κ) (id : Nat) :
    Unmoved count l (l.runFetch id) := by
  unfold runFetch
  split
  · next f load hf hload =>
    split
    · dsimp only
      split
      · exact ⟨rfl, rfl⟩
      · obtain ⟨hstart, hwaits⟩ := unmoved_complete count
          { l with calls := l.calls ++ [f.scope] } id f
          (load f.scope (l.calls.count f.scope)).loaded
        exact ⟨hstart, hwaits⟩
    · exact unmoved_complete ..
    · exact .refl ..
  · exact .refl ..

theorem unmoved_forget (l : Loads κ) (id : Nat) :
    Unmoved count l (l.forget id) := by
  unfold forget
  split
  · exact .refl ..
  · split
    · exact ⟨rfl, rfl⟩
    · exact .refl ..

/-- Who is told something goes on the same way. -/
theorem unmoved_relay (l : Loads κ) (id waiter : Nat) :
    Unmoved count l (l.relay id waiter) := by
  unfold relay
  split
  · refine ⟨toStart_enqueue rfl, (total_map ..).trans ?_⟩
    unfold inWait
    congr 1
    funext e
    dsimp only
    split <;> rfl
  · exact .refl ..

/-- In a turn nobody else is to begin, who goes on waits no longer, and
nobody waits for more. -/
theorem begun_gone_turn {event : Event κ} (h : l.turn = some (event, l')) :
    l'.toStart + event.begun = l.toStart
      ∧ l'.inWait count + event.gone count ≤ l.inWait count := by
  have htaken : ∀ {t : Turn κ} {rest : List (Turn κ)},
      l.ready = t :: rest → t.isStart = false →
      toStart { l with ready := rest } = l.toStart := by
    intro t rest hready ht
    simp [toStart, hready, ht]
  have hquiet : ∀ {t : Turn κ} {rest : List (Turn κ)} {l' : Loads κ},
      l.ready = t :: rest → t.isStart = false →
      Unmoved count { l with ready := rest } l' →
      l'.toStart + 0 = l.toStart ∧ l'.inWait count + 0 ≤ l.inWait count :=
    fun hready ht hunmoved => ⟨hunmoved.toStart.trans (htaken hready ht),
      Nat.le_of_eq hunmoved.inWait⟩
  have hleft : ∀ {waiter : Nat} {w : Waiter κ}, (waiter, w) ∈ l.waiters →
      total (fun w => count w.2.goesOn)
          (l.waiters.filter (·.1 ≠ waiter)) + count w.goesOn
        ≤ l.inWait count := by
    intro waiter w hw
    refine total_filter_add_le (f := fun w => count w.2.goesOn) hw ?_
    simp
  cases taken h with
  | start hready =>
      refine ⟨?_, Nat.le_refl _⟩
      simp [toStart, hready, Turn.isStart, Event.begun]
  | fetch hready => exact hquiet hready rfl (unmoved_runFetch ..)
  | forget hready => exact hquiet hready rfl (unmoved_forget ..)
  | relay hready => exact hquiet hready rfl (unmoved_relay ..)
  | idle hready => exact hquiet hready rfl (.refl ..)
  | resume hready hw => exact ⟨htaken hready rfl, hleft hw⟩
  | cancelled hready hw => exact ⟨htaken hready rfl, hleft hw⟩

-- =============================================================== asking

/-- At most so many turns came up, and nobody new begins or waits. -/
structure Brings (n : Nat) (l l' : Loads κ) : Prop where
  toCome : l'.toCome ≤ l.toCome + n
  toStart : l'.toStart = l.toStart
  waiters : l'.waiters = l.waiters

theorem Brings.refl (l : Loads κ) : Brings 0 l l :=
  ⟨Nat.le_refl _, rfl, rfl⟩

theorem brings_finishTokenizer (l : Loads κ) (scope : String)
    (grammar : Option Grammar) :
    Brings 0 l (l.finishTokenizer scope grammar).2 := by
  unfold finishTokenizer
  cases grammar with
  | none => exact .refl l
  | some g =>
      dsimp only
      split
      · exact ⟨Nat.le_refl _, rfl, rfl⟩
      · exact ⟨Nat.le_refl _, rfl, rfl⟩

/-- Who has to wait for a grammar may have brought up the turn of a fetch
and the one to drop it. -/
theorem brings_askGrammar (l : Loads κ) (scope : String) :
    Brings (l.askGrammar scope).1.brought l (l.askGrammar scope).2 := by
  unfold askGrammar
  split
  · exact .refl l
  · split
    · exact .refl l
    · split
      · split
        · exact .refl l
        · exact ⟨Nat.le_add_right _ _, rfl, rfl⟩
      · refine ⟨?_, toStart_enqueue rfl, rfl⟩
        rw [toCome_enqueue]
        simp only [toCome, total_append, total, Fetch.toCome, Asked.brought,
          List.length_nil]
        omega

theorem brings_askTokenizer (l : Loads κ) (scope : String) :
    Brings (l.askTokenizer scope).1.brought l (l.askTokenizer scope).2 := by
  unfold askTokenizer
  have hasked := brings_askGrammar l scope
  cases l.registry.tokenizers.get? scope with
  | some t => exact .refl l
  | none =>
      dsimp only
      rcases hask : l.askGrammar scope with ⟨grammar | id, l'⟩
      · rw [hask] at hasked
        have hdone := brings_finishTokenizer l' scope grammar
        exact ⟨Nat.le_trans hdone.toCome hasked.toCome,
          hdone.toStart.trans hasked.toStart,
          hdone.waiters.trans hasked.waiters⟩
      · rw [hask] at hasked
        exact hasked

/-- Who begins to wait is to be told, and to go on then. -/
theorem toCome_join (l : Loads κ) (id : Nat) (k : κ) :
    (l.join id k).toCome ≤ l.toCome + 2 := by
  have hfetches := total_modify_le (l := l.fetches) (f := (·.toCome))
    (g := fun f => { f with waiters := f.waiters ++ [l.admitted] })
    (fun f => by
      unfold Fetch.toCome
      dsimp only
      split <;> simp) id
  simp only [toCome, join, List.countP_append, List.countP_singleton,
    Option.isNone_none, if_pos]
  omega

theorem inWait_join (count : κ → Nat) (l : Loads κ) (id : Nat) (k : κ) :
    (l.join id k).inWait count = l.inWait count + count k := by
  simp [inWait, join, total_append, total]

end Loads

namespace Service

variable {s s' s'' : Service} {n m number : Nat}

-- ============================================================= documents

/-- What happened is paid for by `n` documents that were left to be opened:
each may be open now, and four turns may have come up for it. -/
structure Affords (n : Nat) (s s' : Service) : Prop where
  toStart : s'.loads.toStart = s.loads.toStart
  turns : s'.loads.toCome + 4 * s'.toOpen
    ≤ s.loads.toCome + 4 * s.toOpen + 4 * n
  documents : s'.controllers.size + s'.toOpen
    ≤ s.controllers.size + s.toOpen + n

theorem Affords.refl (s : Service) : Affords 0 s s :=
  ⟨rfl, Nat.le_refl _, Nat.le_refl _⟩

theorem Affords.trans (h : Affords n s s') (h' : Affords m s' s'') :
    Affords (n + m) s s'' := by
  have := h.turns
  have := h.documents
  have := h'.turns
  have := h'.documents
  exact ⟨h'.toStart.trans h.toStart, by omega, by omega⟩

theorem Affords.mono (h : Affords n s s') (hle : n ≤ m) :
    Affords m s s' := by
  have := h.turns
  have := h.documents
  exact ⟨h.toStart, by omega, by omega⟩

/-- Nobody began to wait, and at most `n` documents were opened. -/
theorem Affords.of_brings (h : s.loads.Brings 0 s'.loads)
    (hsize : s'.controllers.size ≤ s.controllers.size + n) :
    Affords n s s' := by
  have hopen : s'.toOpen = s.toOpen := by
    unfold toOpen Loads.inWait
    rw [h.waiters]
  have := h.toCome
  exact ⟨h.toStart, by omega, by omega⟩

/-- A job is about to wait: a fetch may have been begun for it, and a
document opened. -/
structure Pends (s s' : Service) : Prop where
  brings : s.loads.Brings 2 s'.loads
  size : s'.controllers.size ≤ s.controllers.size + 1

/-- A job that waits took one document, and keeps those it has left. -/
theorem Pends.suspend (h : Pends s s') (fetch : Nat) (job : Job) :
    Affords (1 + job.task.left) s (s'.suspend fetch job) := by
  obtain ⟨⟨hcome, hstart, hwaiters⟩, hsize⟩ := h
  have hjoin := s'.loads.toCome_join fetch job
  have hopen : (s'.suspend fetch job).toOpen
      = s.toOpen + job.task.left := by
    refine (Loads.inWait_join _ s'.loads fetch job).trans ?_
    unfold toOpen Loads.inWait
    rw [hwaiters]
  refine ⟨hstart, ?_, ?_⟩
  · rw [hopen]
    show (s'.loads.join fetch job).toCome + _ ≤ _
    omega
  · rw [hopen]
    show s'.controllers.size + _ ≤ _
    omega

-- ================================================================== jobs

/-- What is noted down about loads is no more to be done. -/
theorem brings_withLoads {α : Type} {f : Loads Job → α × Loads Job}
    {n : Nat} (h : s.loads.Brings n (f s.loads).2) :
    s.loads.Brings n (s.withLoads f).2.loads :=
  ⟨h.toCome, h.toStart, h.waiters⟩

theorem affords_getGrammar (s : Service) (number : Nat) (scope : String) :
    Affords 1 s (s.getGrammar number scope) := by
  have hasked := brings_withLoads (f := (·.askGrammar scope))
    (s.loads.brings_askGrammar scope)
  unfold getGrammar
  rcases hask : s.loads.askGrammar scope with ⟨grammar | id, l⟩
  · rw [withLoads_eq (f := (·.askGrammar scope)) hask] at hasked ⊢
    rw [hask] at hasked
    exact .of_brings hasked (Nat.le_succ _)
  · rw [withLoads_eq (f := (·.askGrammar scope)) hask] at hasked ⊢
    rw [hask] at hasked
    exact Pends.suspend ⟨hasked, Nat.le_succ _⟩ id
      ⟨number, .grammar scope⟩

theorem affords_getTokenizer (s : Service) (number : Nat)
    (scope : String) : Affords 1 s (s.getTokenizer number scope) := by
  have hasked := brings_withLoads (f := (·.askTokenizer scope))
    (s.loads.brings_askTokenizer scope)
  unfold getTokenizer
  rcases hask : s.loads.askTokenizer scope with ⟨t | id, l⟩
  · rw [withLoads_eq (f := (·.askTokenizer scope)) hask] at hasked ⊢
    rw [hask] at hasked
    exact .of_brings hasked (Nat.le_succ _)
  · rw [withLoads_eq (f := (·.askTokenizer scope)) hask] at hasked ⊢
    rw [hask] at hasked
    exact Pends.suspend ⟨hasked, Nat.le_succ _⟩ id
      ⟨number, .tokenizer scope⟩

/-- To begin to open a document takes one: it is over at once, or has to
wait. -/
inductive Begun (s : Service) : Opening × Service → Prop
  | atOnce {result s'} (affords : Affords 1 s s') :
    Begun s (.over result, s')
  | waits {fetch scope uri controller s'} (pends : Pends s s') :
    Begun s (.waits fetch scope uri controller, s')

theorem begun_beginOpening (s : Service) (buffer : Nat) :
    Begun s (s.beginOpening buffer) := by
  have hsame : ∀ ws, Affords 1 s { s with ws } := fun ws =>
    .of_brings (.refl _) (Nat.le_succ _)
  unfold beginOpening
  split
  · exact .atOnce (hsame s.ws)
  · next d hd =>
    split
    · exact .atOnce (hsame s.ws)
    · split
      · next c hc =>
        unfold act
        dsimp only
        rcases (Workspace.underConfig? s.config
          (Workspace.rebuild c)).on s.ws with ⟨_ | _, ws⟩
        · exact .atOnce (hsame ws)
        · exact .atOnce (hsame ws)
      · split
        · exact .atOnce (hsame _)
        · next scope hscope =>
          unfold act
          dsimp only
          rcases (Workspace.attach buffer none true).on s.ws
            with ⟨_ | c, ws⟩
          · exact .atOnce (hsame ws)
          · -- the controller is in place, and its tokenizer asked for
            dsimp only
            have hsize := s.controllers.size_insert_le d.uri c
            have hasked := s.loads.brings_askTokenizer scope
            unfold withLoads
            dsimp only
            rcases hask : s.loads.askTokenizer scope with ⟨t | id, l⟩
            · rw [hask] at hasked
              refine .atOnce (.of_brings ?_ ?_)
              · rw [(install_frame ..).1]
                exact ⟨hasked.toCome, hasked.toStart, hasked.waiters⟩
              · rw [(install_frame ..).2.2]
                exact hsize
            · rw [hask] at hasked
              exact .waits
                ⟨⟨hasked.toCome, hasked.toStart, hasked.waiters⟩, hsize⟩

theorem Affords.finish (h : Affords n s s') (number : Nat)
    (outcome : Outcome) : Affords n s (s'.finish number outcome) :=
  ⟨h.toStart, h.turns, h.documents⟩

theorem affords_openBuffer (s : Service) (number buffer : Nat) :
    Affords 1 s (s.openBuffer number buffer) := by
  have hbegun := s.begun_beginOpening buffer
  unfold openBuffer
  split
  · next hopen =>
    rw [hopen] at hbegun
    cases hbegun with
    | atOnce affords => exact affords.finish ..
  · next hopen =>
    rw [hopen] at hbegun
    cases hbegun with
    | atOnce affords => exact affords.finish ..
  · next fetch scope uri controller s' hopen =>
    rw [hopen] at hbegun
    cases hbegun with
    | waits pends =>
        exact pends.suspend fetch
          ⟨number, .install scope uri controller none⟩

/-- To open some documents, one after the other, takes as many as there
are. -/
theorem affords_reopen (number total : Nat) (buffers : List Nat)
    (s : Service) :
    Affords buffers.length s (reopen number total buffers s) := by
  induction buffers generalizing s with
  | nil => exact .of_brings (.refl _) (Nat.le_refl _)
  | cons buffer left ih =>
      have hbegun := s.begun_beginOpening buffer
      unfold reopen
      rw [List.length_cons, Nat.add_comm]
      split
      · next s' hopen =>
        rw [hopen] at hbegun
        cases hbegun with
        | atOnce affords => exact affords.trans (ih s')
      · next hopen =>
        rw [hopen] at hbegun
        cases hbegun with
        | atOnce affords =>
            exact (affords.finish ..).mono (Nat.le_add_right ..)
      · next fetch scope uri controller s' hopen =>
        rw [hopen] at hbegun
        cases hbegun with
        | waits pends =>
            exact pends.suspend fetch
              ⟨number, .install scope uri controller (some ⟨left, total⟩)⟩

/-- A job that goes on takes the documents that it has left. -/
theorem affords_resume (s : Service) (job : Job)
    (grammar : Option Grammar) :
    Affords job.task.left s (s.resume job grammar) := by
  obtain ⟨number, task⟩ := job
  unfold resume
  cases task with
  | grammar scope => exact (Affords.refl s).finish ..
  | tokenizer scope =>
      have hdone := brings_withLoads (s := s)
        (f := (·.finishTokenizer scope grammar))
        (s.loads.brings_finishTokenizer scope grammar)
      exact Affords.finish (.of_brings hdone (Nat.le_refl _)) ..
  | install scope uri c after =>
      have hdone := brings_withLoads (s := s)
        (f := (·.finishTokenizer scope grammar))
        (s.loads.brings_finishTokenizer scope grammar)
      dsimp only
      rcases hw : s.withLoads (·.finishTokenizer scope grammar)
        with ⟨t, s₁⟩
      have hsize : s₁.controllers = s.controllers :=
        (congrArg (·.2.controllers) hw).symm
      rw [hw] at hdone
      have hinstalled : Affords 0 s (s₁.install scope uri c t).2 := by
        refine .of_brings ?_ ?_
        · rw [(install_frame ..).1]
          exact hdone
        · rw [(install_frame ..).2.2, hsize]
          exact Nat.le_refl _
      dsimp only
      rcases hi : s₁.install scope uri c t with ⟨fault | answer, s₂⟩
      · rw [hi] at hinstalled
        exact (hinstalled.finish ..).mono (Nat.zero_le _)
      · rw [hi] at hinstalled
        cases after with
        | none => exact hinstalled.finish ..
        | some reload =>
            have := hinstalled.trans
              (affords_reopen number reload.total reload.left s₂)
            rwa [Nat.zero_add] at this
  | openBuffer buffer => exact .refl s
  | reload => exact .refl s

/-- A reload takes as many documents as it closes. -/
theorem affords_reload (s : Service) (number : Nat) :
    Affords s.controllers.size s.closeAll (s.reload number) := by
  have hforgot : Affords 0 s.closeAll
      { s.closeAll with loads := s.closeAll.loads.forgetLoaded } :=
    .of_brings ⟨Nat.le_refl _, rfl, rfl⟩ (Nat.le_refl _)
  refine (hforgot.trans (affords_reopen number _ _ _)).mono ?_
  have hcount := List.length_filterMap_le (fun controller =>
    (s.ws.controllers[controller]?).map (·.buffer)) s.controllers.values
  simpa [Table.values, Table.size] using hcount

/-- A job that begins takes one document, or as many as were open when it
is a reload, which closes them. -/
theorem begin_cases (s : Service) (job : Job) :
    Affords 1 s (s.begin job)
      ∨ Affords s.controllers.size s.closeAll (s.begin job) := by
  obtain ⟨number, task⟩ := job
  unfold begin
  cases task with
  | grammar scope => exact .inl (s.affords_getGrammar number scope)
  | tokenizer scope => exact .inl (s.affords_getTokenizer number scope)
  | openBuffer buffer => exact .inl (s.affords_openBuffer number buffer)
  | reload => exact .inr (s.affords_reload number)
  | install => exact .inl ((Affords.refl s).mono (Nat.zero_le _))

-- ================================================================= turns

/-- Who goes on, or is not to, takes no more than the documents that the
job had left. -/
theorem affords_handle (s : Service) {event : Event Job}
    (h : event.begun = 0) :
    Affords (event.gone (·.task.left)) s (s.handle event) := by
  cases event with
  | quiet => exact .refl s
  | started job => cases h
  | resumed job grammar => exact s.affords_resume job grammar
  | cancelled job =>
      exact ((Affords.refl s).finish ..).mono (Nat.zero_le _)

/-- The bound goes down if what is to be done does: `n` jobs began, and
took as many documents as may be open each. -/
theorem turnBound_lt (hstart : s'.loads.toStart + n = s.loads.toStart)
    (hopen : s'.mayBeOpen ≤ s.mayBeOpen)
    (hturns : s'.loads.toCome + 4 * s'.toOpen
      < s.loads.toCome + 4 * s.toOpen + 4 * (n * s.mayBeOpen)) :
    s'.turnBound < s.turnBound := by
  have hless := Nat.mul_le_mul_left s'.loads.toStart hopen
  unfold turnBound
  rw [← hstart, Nat.add_mul]
  omega

section

-- a turn was taken from `s`, and in `s'` what became of it is still to be
-- acted upon

variable (hcome : s'.loads.toCome < s.loads.toCome)
  (hsize : s'.controllers.size = s.controllers.size)

include hcome hsize

/-- A job that begins had a place of its own among the documents that may
be open, and pays with it or with those that are closed. -/
theorem turnBound_begin (hstart : s'.loads.toStart + 1 = s.loads.toStart)
    (hopen : s'.toOpen ≤ s.toOpen) (job : Job) :
    (s'.begin job).turnBound < s.turnBound := by
  obtain ⟨hstart', hturns, hdocuments⟩
    | ⟨hstart', hturns, hdocuments⟩ := s'.begin_cases job
  · refine turnBound_lt (n := 1) ?_ ?_ ?_
    · omega
    · unfold mayBeOpen
      omega
    · unfold mayBeOpen
      omega
  · have hloads : s'.closeAll.loads = s'.loads := rfl
    have hleft : s'.closeAll.toOpen = s'.toOpen := rfl
    have hnone : s'.closeAll.controllers.size = 0 := rfl
    rw [hloads] at hstart' hturns
    refine turnBound_lt (n := 1) ?_ ?_ ?_
    · omega
    · unfold mayBeOpen
      omega
    · unfold mayBeOpen
      omega

theorem turnBound_handle {event : Event Job}
    (hstart : s'.loads.toStart + event.begun = s.loads.toStart)
    (hgone : s'.toOpen + event.gone (·.task.left) ≤ s.toOpen) :
    (s'.handle event).turnBound < s.turnBound := by
  by_cases hbegun : event.begun = 0
  · obtain ⟨hstart', hturns, hdocuments⟩ := s'.affords_handle hbegun
    refine turnBound_lt (n := 0) ?_ ?_ ?_
    · omega
    · unfold mayBeOpen
      omega
    · omega
  · cases event with
    | started job => exact turnBound_begin hcome hsize hstart hgone job
    | quiet => exact absurd rfl hbegun
    | resumed => exact absurd rfl hbegun
    | cancelled => exact absurd rfl hbegun

end

/-- A turn brings a service nearer to rest. -/
theorem turnBound_turn? (h : s.turn? = some s') :
    s'.turnBound < s.turnBound := by
  unfold turn? at h
  cases hturn : s.loads.turn with
  | none =>
      rw [hturn] at h
      cases h
  | some taken =>
      obtain ⟨event, loads⟩ := taken
      rw [hturn] at h
      obtain rfl := Option.some.inj h
      have hcome := Loads.toCome_turn hturn
      obtain ⟨hstart, hgone⟩ := Loads.begun_gone_turn (·.task.left) hturn
      apply turnBound_handle
      · exact hcome
      · rfl
      · exact hstart
      · exact hgone

/-- Who takes as many turns as may follow comes to rest. -/
theorem turn?_turns (h : s.turnBound ≤ n) : (turns n s).turn? = none := by
  induction n generalizing s with
  | zero =>
      cases hturn : s.turn? with
      | none => exact hturn
      | some s' =>
          have := turnBound_turn? hturn
          omega
  | succ n ih =>
      rw [turns]
      cases hturn : s.turn? with
      | none => exact hturn
      | some s' =>
          have := turnBound_turn? hturn
          exact ih (by omega)

/-- Turns that are taken one after the other are moves. -/
theorem turns_eq_afterAll (n : Nat) (s : Service) :
    turns n s = afterAll (List.replicate n .turn) s := by
  induction n generalizing s with
  | zero => rfl
  | succ n ih =>
      rw [List.replicate_succ, afterAll, List.foldl_cons, ← afterAll, ← ih,
        turns, Move.after]
      cases hturn : s.turn? with
      | none =>
          -- a service at rest stays as it is
          cases n with
          | zero => rfl
          | succ n =>
              rw [Option.getD_none, turns, hturn]
      | some s' => rfl

/-- A service that settles takes turns until none is left. It makes no
other moves, so what all moves keep is kept. -/
theorem settle_rests (s : Service) :
    s.settle = afterAll (List.replicate s.turnBound .turn) s
      ∧ s.settle.turn? = none :=
  ⟨turns_eq_afterAll .., turn?_turns (Nat.le_refl _)⟩

end Service

end Relex
