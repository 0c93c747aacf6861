/-
A workspace with one more controller in it.

Two workspaces are compared that are the same, except that in one of them
there is a controller besides (`Besides`). It may be listed with buffers,
and it may have taken the number of a registration, so that those made
later have other numbers.

While deliveries are made, the two go along. What is for others is done
in both, with the same result (`Act.Alike`): nothing a controller or a
watcher does depends on who else is listed, or on what was done before it
for somebody else. What is for the controller besides is done in the one
only, and changes nothing there but that controller and the trace. So a
round in the one is the round in the other, with the calls of that
controller put in (`Besides.round`), as long as it does not fail: a
failure ends the round for everybody.

What either trace grows by is kept apart: the lines, the entries and the
counts of the others are the same, and those of the controller besides are
mixed in (`Grown`).
-/
import Relex.Proofs.Workspace.Disposed
import Relex.Proofs.Workspace.Malformed
import Relex.Proofs.Workspace.Profiling

namespace Relex

-- ============================================================= mixing

namespace Mixed

variable {α : Type} {xs ys zs xs' ys' zs' : List α}

theorem onlyLeft (xs : List α) : Mixed xs [] xs := by
  induction xs with
  | nil => exact .nil
  | cons x xs ih => exact .left ih

theorem onlyRight (ys : List α) : Mixed [] ys ys := by
  induction ys with
  | nil => exact .nil
  | cons y ys ih => exact .right ih

theorem append (h : Mixed xs ys zs) (h' : Mixed xs' ys' zs') :
    Mixed (xs ++ xs') (ys ++ ys') (zs ++ zs') := by
  induction h with
  | nil => exact h'
  | left _ ih => exact .left ih
  | right _ ih => exact .right ih

theorem eq_right {xs ys zs : List α} (h : Mixed xs ys zs)
    (hxs : xs = []) : zs = ys := by
  induction h with
  | nil => rfl
  | left _ ih => cases hxs
  | right _ ih => rw [ih hxs]

end Mixed

/-- A tally is made of two others, with what they hold mixed. -/
structure Tally.Mixes (own others all : Tally) : Prop where
  calls : Mixed own.calls others.calls all.calls
  entries : Mixed own.entries others.entries all.entries
  counts : all.counts = own.counts.plus others.counts

namespace Tally.Mixes

variable {own others all own' others' all' : Tally}

theorem onlyOwn (x : Tally) : Mixes x .nothing x :=
  ⟨.onlyLeft _, .onlyLeft _, (Metrics.plus_zero _).symm⟩

theorem onlyOthers (x : Tally) : Mixes .nothing x x :=
  ⟨.onlyRight _, .onlyRight _, (Metrics.zero_plus _).symm⟩

/-- With nothing mixed in, what was there is left. -/
theorem eq_others (h : Mixes .nothing others all) : all = others := by
  obtain ⟨calls, entries, counts⟩ := all
  have hcounts := h.counts
  rw [Tally.nothing, Metrics.zero_plus] at hcounts
  rw [Tally.mk.injEq]
  exact ⟨h.calls.eq_right rfl, h.entries.eq_right rfl, hcounts⟩

theorem plus (h : Mixes own others all) (h' : Mixes own' others' all') :
    Mixes (own.plus own') (others.plus others') (all.plus all') := by
  refine ⟨h.calls.append h'.calls, h.entries.append h'.entries, ?_⟩
  show all.counts.plus all'.counts = _
  rw [h.counts, h'.counts]
  simp only [Tally.plus, Metrics.plus, Metrics.mk.injEq]
  omega

end Tally.Mixes

namespace Workspace

-- ============================================================ numbers

/-- Registrations are numbered anew: each is found at its new number, and
those still to be made go on behind the last. -/
structure Renumbers (ρ : Nat → Nat) (rs rs' : List Registration) :
    Prop where
  same : ∀ n, rs'[ρ n]? = rs[n]?
  next : ∀ n, ρ (rs.length + n) = rs'.length + n
  injective : ∀ m n, ρ m = ρ n → m = n

namespace Renumbers

variable {ρ : Nat → Nat} {rs rs' : List Registration}

theorem lt_iff (h : Renumbers ρ rs rs') (n : Nat) :
    ρ n < rs'.length ↔ n < rs.length := by
  rw [← Nat.not_le, ← Nat.not_le, ← List.getElem?_eq_none_iff,
    ← List.getElem?_eq_none_iff, h.same]

/-- The next registration is the next under both numberings. -/
theorem concat (h : Renumbers ρ rs rs') (s : Registration) :
    Renumbers ρ (rs ++ [s]) (rs' ++ [s]) := by
  refine ⟨fun n => ?_, fun n => ?_, h.injective⟩
  · by_cases hn : n < rs.length
    · rw [List.getElem?_append_left hn,
        List.getElem?_append_left ((h.lt_iff n).2 hn), h.same]
    · obtain ⟨m, rfl⟩ := Nat.exists_eq_add_of_le (Nat.le_of_not_lt hn)
      rw [h.next, List.getElem?_append_right (Nat.le_add_right ..),
        List.getElem?_append_right (Nat.le_add_right ..)]
      simp
  · rw [List.length_append, List.length_append, List.length_singleton,
      Nat.add_assoc, h.next, Nat.add_assoc]

theorem set (h : Renumbers ρ rs rs') (n : Nat) (s : Registration) :
    Renumbers ρ (rs.set n s) (rs'.set (ρ n) s) := by
  refine ⟨fun m => ?_, fun m => ?_, h.injective⟩
  · have heq : ρ n = ρ m ↔ n = m := ⟨h.injective n m, congrArg ρ⟩
    have hlt := h.lt_iff n
    rw [List.getElem?_set, List.getElem?_set, h.same]
    simp only [heq, hlt]
  · rw [List.length_set, List.length_set, h.next]

end Renumbers

end Workspace

/-- The habit, with another number for the registration it disposes of. -/
def Habit.renumbered (ρ : Nat → Nat) : Habit → Habit
  | .dispose registration => .dispose (ρ registration)
  | habit => habit

/-- The watcher, with other numbers for the registrations it disposes
of. -/
def Watcher.renumbered (ρ : Nat → Nat) (w : Watcher) : Watcher :=
  { w with habits := w.habits.map (·.renumbered ρ) }

/-- The buffer without the controller among its listeners. -/
def Buffer.without (c : Nat) (b : Buffer) : Buffer :=
  { b with listeners := b.listeners.filter (· ≠ .controller c) }

/-- Nobody is taken off a list that the controller is not on. -/
theorem filter_of_not_mem {c : Nat} {listeners : List Listener}
    (h : .controller c ∉ listeners) :
    listeners.filter (· ≠ .controller c) = listeners :=
  List.filter_eq_self.2 fun _ hl => decide_eq_true fun he => h (he ▸ hl)

theorem Buffer.without_eq {c : Nat} {b : Buffer}
    (h : .controller c ∉ b.listeners) : b.without c = b := by
  rw [Buffer.without, filter_of_not_mem h]

namespace Workspace

/-- The first workspace is the second without the controller of this
number, which is the last in the second. -/
structure Besides (c : Nat) (ρ : Nat → Nat) (v w : Workspace) : Prop where
  buffers : v.buffers = w.buffers.map (·.without c)
  controllers : ∃ k, w.controllers = v.controllers ++ [k]
  number : v.controllers.length = c
  registrations : Renumbers ρ v.registrations w.registrations
  owners : ∀ s ∈ v.registrations, s.listener ≠ .controller c
  watchers : w.watchers = v.watchers.map (·.renumbered ρ)
  plans : v.plans = w.plans
  config : v.config = w.config
  sightings : v.sightings = w.sightings

namespace Besides

variable {c : Nat} {ρ : Nat → Nat} {v w v' w' : Workspace}

theorem buffer? (h : Besides c ρ v w) (b : Nat) :
    v.buffers[b]? = (w.buffers[b]?).map (·.without c) := by
  rw [h.buffers, List.getElem?_map]

theorem document?_eq (h : Besides c ρ v w) (b : Nat) :
    v.document? b = w.document? b := by
  unfold document?
  rw [h.buffer?, Option.map_map]
  rfl

/-- The other controllers are the same. -/
theorem controller? (h : Besides c ρ v w) {i : Nat} (hi : i ≠ c) :
    v.controllers[i]? = w.controllers[i]? := by
  obtain ⟨k, hk⟩ := h.controllers
  have hlength := h.number
  rw [hk]
  by_cases hlt : i < v.controllers.length
  · rw [List.getElem?_append_left hlt]
  · rw [List.getElem?_eq_none (by omega), List.getElem?_eq_none]
    rw [List.length_append, List.length_singleton]
    omega

theorem seat?_eq (h : Besides c ρ v w) {i : Nat} (hi : i ≠ c) :
    v.seat? i = w.seat? i := by
  unfold seat?
  rw [h.controller? hi]
  cases w.controllers[i]? with
  | none => rfl
  | some k =>
      show v.document? k.buffer >>= _ = w.document? k.buffer >>= _
      rw [h.document?_eq]

-- ============================================================ changes

/-- What becomes of the trace is no matter. -/
theorem traced (h : Besides c ρ v w) (s t : Trace) :
    Besides c ρ { v with trace := s } { w with trace := t } :=
  ⟨h.buffers, h.controllers, h.number, h.registrations, h.owners,
    h.watchers, h.plans, h.config, h.sightings⟩

theorem planned (h : Besides c ρ v w) (plans : List Plan) :
    Besides c ρ { v with plans } { w with plans } :=
  ⟨h.buffers, h.controllers, h.number, h.registrations, h.owners,
    h.watchers, rfl, h.config, h.sightings⟩

theorem configured (h : Besides c ρ v w) (config : Ambient) :
    Besides c ρ { v with config } { w with config } :=
  ⟨h.buffers, h.controllers, h.number, h.registrations, h.owners,
    h.watchers, h.plans, rfl, h.sightings⟩

theorem sighted (h : Besides c ρ v w) (s : Sighting) :
    Besides c ρ { v with sightings := v.sightings ++ [s] }
      { w with sightings := w.sightings ++ [s] } :=
  ⟨h.buffers, h.controllers, h.number, h.registrations, h.owners,
    h.watchers, h.plans, h.config, congrArg (· ++ [s]) h.sightings⟩

/-- A change of another controller. -/
theorem modified (h : Besides c ρ v w) {i : Nat} (hi : i ≠ c)
    (f : Controller → Controller) :
    Besides c ρ (v.modifyController i f) (w.modifyController i f) := by
  refine ⟨h.buffers, ?_, ?_, h.registrations, h.owners, h.watchers,
    h.plans, h.config, h.sightings⟩
  · obtain ⟨k, hk⟩ := h.controllers
    have hlength := h.number
    refine ⟨k, List.ext_getElem? fun j => ?_⟩
    show (w.controllers.modify i f)[j]?
      = (v.controllers.modify i f ++ [k])[j]?
    rw [hk, List.getElem?_modify, List.getElem?_append,
      List.getElem?_append, List.length_modify]
    by_cases hj : j < v.controllers.length
    · rw [if_pos hj, if_pos hj, List.getElem?_modify]
    · rw [if_neg hj, if_neg hj]
      by_cases hij : i = j
      · rw [List.getElem?_eq_none]
        · rfl
        · rw [List.length_singleton]
          omega
      · simp [hij]
  · show (v.controllers.modify i f).length = c
    rw [List.length_modify, h.number]

/-- A change of the controller besides. -/
theorem modified_own (h : Besides c ρ v w) (f : Controller → Controller) :
    Besides c ρ v (w.modifyController c f) := by
  refine ⟨h.buffers, ?_, h.number, h.registrations, h.owners, h.watchers,
    h.plans, h.config, h.sightings⟩
  obtain ⟨k, hk⟩ := h.controllers
  refine ⟨f k, ?_⟩
  show w.controllers.modify c f = _
  rw [hk, ← h.number, modify_append_length]

/-- A change of a list, and the registrations after it. -/
theorem relisted (h : Besides c ρ v w) (b : Nat)
    {f : List Listener → List Listener} {rs rs' : List Registration}
    (hf : ∀ ls : List Listener, (f ls).filter (· ≠ .controller c)
      = f (ls.filter (· ≠ .controller c)))
    (hr : Renumbers ρ rs rs')
    (howners : ∀ s ∈ rs, s.listener ≠ .controller c) :
    Besides c ρ
      { v with
        buffers := v.buffers.modify b (relist f), registrations := rs }
      { w with
        buffers := w.buffers.modify b (relist f), registrations := rs' }
    := by
  refine ⟨?_, h.controllers, h.number, hr, howners, h.watchers, h.plans,
    h.config, h.sightings⟩
  refine List.ext_getElem? fun i => ?_
  show (v.buffers.modify b (relist f))[i]? = _
  rw [List.getElem?_modify, List.getElem?_map, List.getElem?_modify,
    h.buffer?]
  cases w.buffers[i]? with
  | none => rfl
  | some buffer =>
      have hsame : relist f (buffer.without c)
          = (relist f buffer).without c :=
        congrArg (Buffer.mk buffer.document) (hf buffer.listeners).symm
      by_cases hb : b = i
      · simp [hb, hsame]
      · simp [hb]

theorem subscribed (h : Besides c ρ v w) (b x : Nat) :
    Besides c ρ (v.subscribe b (.watcher x)).2
      (w.subscribe b (.watcher x)).2 := by
  refine h.relisted b (f := (· ++ [.watcher x])) (fun ls => ?_)
    (h.registrations.concat _) fun s hs => ?_
  · rw [List.filter_append]
    rfl
  · rcases List.mem_append.1 hs with hs | hs
    · exact h.owners s hs
    · obtain rfl := List.mem_singleton.1 hs
      exact fun he => by cases he

theorem unsubscribed (h : Besides c ρ v w) (n : Nat) :
    Besides c ρ (v.unsubscribe n) (w.unsubscribe (ρ n)) := by
  unfold unsubscribe
  rw [h.registrations.same]
  cases hs : v.registrations[n]? with
  | none => exact h
  | some s =>
      have hother := h.owners s (List.mem_of_getElem? hs)
      dsimp only
      split
      · refine h.relisted s.buffer (f := (·.erase s.listener))
          (fun ls => ?_) (h.registrations.set n _) fun s' hs' => ?_
        · rw [List.erase_filter]
        · rcases List.mem_or_eq_of_mem_set hs' with hs' | rfl
          · exact h.owners s' hs'
          · exact hother
      · exact h

end Besides

end Workspace

-- ========================================================= calls of others

namespace Act

open Workspace

variable {α β : Type} {c : Nat} {ρ : Nat → Nat}

/-- In two workspaces, one with a controller besides, the first work goes
as the second: it has the same result, adds the same to the trace, and the
workspaces stay alike. -/
def Alike (c : Nat) (ρ : Nat → Nat) (a b : Act α) : Prop :=
  ∀ v w, Besides c ρ v w → ∃ result v' w' x,
    a.on v = (result, v') ∧ b.on w = (result, w') ∧ Besides c ρ v' w'
      ∧ v'.trace = v.trace.plus x ∧ w'.trace = w.trace.plus x

theorem alike_pure (a : α) : Alike c ρ (pure a : Act α) (pure a) :=
  fun v w h => ⟨_, v, w, .nothing, rfl, rfl, h,
    v.trace.plus_nothing.symm, w.trace.plus_nothing.symm⟩

theorem alike_throw (fault : Fault) :
    Alike c ρ (throw fault : Act α) (throw fault) :=
  fun v w h => ⟨_, v, w, .nothing, rfl, rfl, h,
    v.trace.plus_nothing.symm, w.trace.plus_nothing.symm⟩

/-- A change that adds nothing to the trace. -/
theorem alike_modify {f g : Workspace → Workspace}
    (h : ∀ v w, Besides c ρ v w → Besides c ρ (f v) (g w)
      ∧ (f v).trace = v.trace ∧ (g w).trace = w.trace) :
    Alike c ρ (modify f : Act PUnit) (modify g) := by
  intro v w hvw
  obtain ⟨hafter, hv, hw⟩ := h v w hvw
  exact ⟨_, f v, g w, .nothing, rfl, rfl, hafter,
    hv.trans v.trace.plus_nothing.symm, hw.trans w.trace.plus_nothing.symm⟩

theorem Alike.bind {a b : Act α} {k l : α → Act β} (h : Alike c ρ a b)
    (hk : ∀ x, Alike c ρ (k x) (l x)) :
    Alike c ρ (a >>= k) (b >>= l) := by
  intro v w hvw
  obtain ⟨fault | r, v₁, w₁, x, hv, hw, hvw₁, hx, hx'⟩ := h v w hvw
  · exact ⟨_, v₁, w₁, x, by rw [on_bind, hv], by rw [on_bind, hw], hvw₁,
      hx, hx'⟩
  · obtain ⟨result, v₂, w₂, y, hv₂, hw₂, hvw₂, hy, hy'⟩ :=
      hk r v₁ w₁ hvw₁
    exact ⟨result, v₂, w₂, x.plus y, by rw [on_bind, hv]; exact hv₂,
      by rw [on_bind, hw]; exact hw₂, hvw₂,
      by rw [hy, hx, Trace.plus_plus], by rw [hy', hx', Trace.plus_plus]⟩

theorem Alike.forM {f g : α → Act PUnit} {q : α → α} {l : List α}
    (h : ∀ a ∈ l, Alike c ρ (f a) (g (q a))) :
    Alike c ρ (l.forM f) ((l.map q).forM g) := by
  induction l with
  | nil => exact alike_pure _
  | cons a l ih =>
      rw [List.map_cons, List.forM_eq_forM, List.forM_cons,
        List.forM_cons]
      exact (h a (by simp)).bind fun _ => ih fun b hb => h b (by simp [hb])

/-- Work may look at the workspace first, if what it goes on with is alike
where the workspaces are. -/
theorem alike_get {k l : Workspace → Act β}
    (h : ∀ v w, Besides c ρ v w → Alike c ρ (k v) (l w)) :
    Alike c ρ (get >>= k) (get >>= l) := by
  intro v w hvw
  rw [on_bind, on_bind, on_get, on_get]
  exact h v w hvw v w hvw

/-- What others do on their caches does not depend on the trace. -/
theorem alike_whenReady {i : Nat} (hi : i ≠ c) (answer : α)
    {work : Document → Engine → Work α}
    (hwork : ∀ d e k, ∃ o, (work d e).ComesTo k o) :
    Alike c ρ (whenReady i answer work) (whenReady i answer work) := by
  intro v w h
  have hseats := h.seat?_eq hi
  cases hseat : v.seat? i with
  | none =>
      rw [whenReady_of_no_seat hseat,
        whenReady_of_no_seat (hseats.symm.trans hseat)]
      exact alike_pure answer v w h
  | some seat =>
      obtain ⟨k, d⟩ := seat
      have hseat' := hseats.symm.trans hseat
      cases ht : k.tokenizer with
      | none =>
          rw [whenReady_of_inert hseat ht, whenReady_of_inert hseat' ht]
          exact alike_pure answer v w h
      | some t =>
          obtain ⟨o, ho⟩ := hwork d t.engine k.cache
          rw [whenReady_of_ready hseat ht, whenReady_of_ready hseat' ht,
            ho, ho]
          exact ⟨_, _, _, o.tally, rfl, rfl,
            (h.modified hi _).traced _ _, rfl, rfl⟩

end Act

namespace Workspace

variable {c : Nat} {ρ : Nat → Nat} {v w : Workspace}

theorem alike_follow (buffer : Nat) (habit : Habit) :
    Act.Alike c ρ (follow buffer habit)
      (follow buffer (habit.renumbered ρ)) := by
  cases habit with
  | dispose n =>
      exact Act.alike_modify fun v w h => ⟨h.unsubscribed n,
        trace_unsubscribe v n, trace_unsubscribe w (ρ n)⟩
  | subscribe x =>
      exact Act.alike_modify fun v w h => ⟨h.subscribed buffer x, rfl, rfl⟩
  | fail words => exact Act.alike_throw _

/-- Deliveries to others are made alike. -/
theorem alike_deliver {d : Delivery} (hd : d.passes c) :
    Act.Alike c ρ (deliver d) (deliver d) := by
  obtain ⟨listener, buffer, changes⟩ := d
  cases listener with
  | watcher x =>
      refine Act.alike_get fun v w h => Act.alike_get fun v' w' h' => ?_
      rw [h.watchers, List.getElem?_map, ← h'.document?_eq]
      cases v.watchers[x]? with
      | none => exact Act.alike_pure _
      | some watcher =>
          cases v'.document? buffer with
          | none => exact Act.alike_pure _
          | some d =>
              exact (Act.alike_modify fun v w h =>
                ⟨h.sighted _, rfl, rfl⟩).bind
                  fun _ => .forM fun habit _ => alike_follow buffer habit
  | controller i =>
      -- it is another controller, and so the same in both
      have hi : i ≠ c := by simpa [Delivery.passes] using hd
      refine Act.alike_get fun v w h => ?_
      rw [h.controller? hi]
      cases w.controllers[i]? with
      | none => exact Act.alike_pure _
      | some k =>
          dsimp only
          split
          · exact Act.alike_pure _
          · refine Act.alike_get fun v w h => ?_
            rw [h.config]
            refine Act.alike_whenReady hi () fun d e cache => ?_
            obtain ⟨answer, cache', x, hmend, -⟩ :=
              Reparse.comesTo_mendBatch (d := d) (e := e)
                w.config.active.isStrict changes cache
            exact ⟨_, hmend⟩

/-- A delivery to the controller besides changes that and the trace,
nothing else. -/
theorem Besides.deliver_own (h : Besides c ρ v w) {d : Delivery}
    (hd : ¬d.passes c) : ∃ result w' x, (deliver d).on w = (result, w')
      ∧ Besides c ρ v w' ∧ w'.trace = w.trace.plus x := by
  obtain ⟨listener, buffer, changes⟩ := d
  obtain rfl : listener = .controller c := by
    simpa [Delivery.passes] using hd
  -- what comes of a call that does nothing
  have hquiet : ∃ result w' x,
      ((pure () : Act Unit).on w) = (result, w')
        ∧ Besides c ρ v w' ∧ w'.trace = w.trace.plus x :=
    ⟨_, w, .nothing, rfl, h, w.trace.plus_nothing.symm⟩
  show ∃ result w' x, (callController c buffer changes).on w = (result, w')
    ∧ Besides c ρ v w' ∧ w'.trace = w.trace.plus x
  unfold callController
  rw [Act.on_bind, Act.on_get]
  dsimp only
  cases w.controllers[c]? with
  | none => exact hquiet
  | some k =>
      dsimp only
      split
      · exact hquiet
      · rw [mendBatch_on]
        cases hseat : w.seat? c with
        | none =>
            rw [whenReady_of_no_seat hseat]
            exact hquiet
        | some seat =>
            obtain ⟨k, d⟩ := seat
            cases ht : k.tokenizer with
            | none =>
                rw [whenReady_of_inert hseat ht]
                exact hquiet
            | some t =>
                obtain ⟨answer, cache', x, hmend, -⟩ :=
                  Reparse.comesTo_mendBatch (d := d) (e := t.engine)
                    w.config.active.isStrict changes k.cache
                rw [whenReady_of_ready hseat ht, hmend]
                exact ⟨answer, _, x, rfl,
                  (h.modified_own _).traced v.trace _, rfl⟩

-- ============================================================= rounds

/-- What happens, without a controller: nobody calls it, and it is on no
list. -/
def Happening.without (c : Nat) : Happening → Option Happening
  | .applied b changes listeners =>
    some (.applied b changes (listeners.filter (· ≠ .controller c)))
  | .called d => if d.passes c then some (.called d) else none
  | .raised d => if d.passes c then some (.raised d) else none

/-- From `v` to `v'` the trace grows by what the others do. From `w` to
`w'` it grows by the same, with what the controller besides does mixed in;
that is nothing if it is silent. -/
def Grown (silent : Prop) (v v' w w' : Workspace) : Prop :=
  ∃ own x y, Tally.Mixes own x y ∧ v'.trace = v.trace.plus x
    ∧ w'.trace = w.trace.plus y ∧ (silent → own = .nothing)

section

variable {v₁ v₂ w₁ w₂ : Workspace} {p q : Prop}

theorem Grown.same {x : Tally} (hv : v₁.trace = v.trace.plus x)
    (hw : w₁.trace = w.trace.plus x) : Grown p v v₁ w w₁ :=
  ⟨.nothing, x, x, .onlyOthers x, hv, hw, fun _ => rfl⟩

theorem Grown.refl (v w : Workspace) : Grown p v v w w :=
  .same v.trace.plus_nothing.symm w.trace.plus_nothing.symm

theorem Grown.own {x : Tally} (hw : w₁.trace = w.trace.plus x)
    (hp : ¬p) : Grown p v v w w₁ :=
  ⟨x, .nothing, x, .onlyOwn x, v.trace.plus_nothing.symm, hw,
    fun h => absurd h hp⟩

theorem Grown.trans (h : Grown p v v₁ w w₁) (h' : Grown q v₁ v₂ w₁ w₂) :
    Grown (p ∧ q) v v₂ w w₂ := by
  obtain ⟨own, x, y, hmix, hx, hy, hown⟩ := h
  obtain ⟨own', x', y', hmix', hx', hy', hown'⟩ := h'
  refine ⟨own.plus own', x.plus x', y.plus y', hmix.plus hmix', ?_, ?_, ?_⟩
  · rw [hx', hx, Trace.plus_plus]
  · rw [hy', hy, Trace.plus_plus]
  · rintro ⟨hp, hq⟩
    rw [hown hp, hown' hq]
    rfl

theorem Grown.mono (h : Grown p v v₁ w w₁) (hqp : q → p) :
    Grown q v v₁ w w₁ := by
  obtain ⟨own, x, y, hmix, hx, hy, hown⟩ := h
  exact ⟨own, x, y, hmix, hx, hy, fun hq => hown (hqp hq)⟩

theorem Grown.congr (h : Grown p v v₁ w w₁) (hv : v₂.trace = v₁.trace)
    (hw : w₂.trace = w₁.trace) : Grown p v v₂ w w₂ := by
  unfold Grown
  rw [hv, hw]
  exact h

end

variable {plans : List Plan} {agenda nested : List Delivery}
  {story taking : List Happening} {b : Nat} {changes : List Change}
  {result : Except Fault Unit × Workspace} {ws ws' w' : Workspace}

/-- The deliveries of a batch that are for others. -/
theorem filter_deliveries (c : Nat) (listeners : List Listener) (b : Nat)
    (changes : List Change) :
    (listeners.map (⟨·, b, changes⟩)).filter (Delivery.passes c)
      = (listeners.filter (· ≠ .controller c)).map (⟨·, b, changes⟩) := by
  rw [List.filter_map]
  rfl

/-- A batch that is refused in the one is refused in the other. -/
theorem Besides.refused (h : Besides c ρ v w) {e : EditFault}
    (happly : w.applyBatch b changes = .error e) :
    v.applyBatch b changes = .error e := by
  unfold applyBatch at happly ⊢
  rw [h.buffer?]
  cases hb : w.buffers[b]? with
  | none =>
      rw [hb] at happly
      cases happly
  | some buffer =>
      rw [hb] at happly
      dsimp only at happly
      dsimp only [Option.map_some, Buffer.without]
      cases hd : buffer.document.apply changes with
      | error e' =>
          rw [hd] at happly
          cases happly
          rfl
      | ok taken =>
          rw [hd] at happly
          cases happly

/-- A batch that is taken in the one is taken in the other. -/
theorem Besides.taken (h : Besides c ρ v w) {applied : List Change}
    (happly : w.applyBatch b changes = .ok (applied, nested, w')) :
    ∃ v', v.applyBatch b changes
        = .ok (applied, nested.filter (·.passes c), v')
      ∧ v.taking b applied
        = (w.taking b applied).filterMap (·.without c)
      ∧ Besides c ρ v' w' ∧ v'.trace = v.trace ∧ w'.trace = w.trace := by
  unfold applyBatch at happly
  unfold applyBatch taking
  rw [h.buffer?]
  cases hb : w.buffers[b]? with
  | none =>
      rw [hb] at happly
      cases happly
      exact ⟨v, rfl, rfl, h, rfl, rfl⟩
  | some buffer =>
      rw [hb] at happly
      dsimp only at happly
      dsimp only [Option.map_some, Buffer.without]
      cases hd : buffer.document.apply changes with
      | error e =>
          rw [hd] at happly
          cases happly
      | ok taken =>
          obtain ⟨d, applied'⟩ := taken
          rw [hd] at happly
          cases happly
          -- the deliveries differ by those to the controller alone
          have hlist := filter_deliveries c buffer.listeners b applied
          refine ⟨{ v with
            buffers := v.buffers.set b
              { buffer.without c with document := d } },
            by rw [hlist]; rfl, rfl, ?_, rfl, rfl⟩
          refine ⟨?_, h.controllers, h.number, h.registrations, h.owners,
            h.watchers, h.plans, h.config, h.sightings⟩
          show v.buffers.set b _ = (w.buffers.set b _).map _
          rw [List.map_set, h.buffers]
          rfl

/-- A batch that goes through is one that is applied. -/
theorem Batch.exists_applied
    (h : Batch ws b changes taking nested ws') :
    ∃ applied, ws.applyBatch b changes = .ok (applied, nested, ws')
      ∧ ws.taking b applied = taking := by
  unfold applyBatch Workspace.taking
  cases h with
  | absent hb => exact ⟨[], by rw [hb], by rw [hb]⟩
  | taken hb happly =>
      refine ⟨_, ?_, by rw [hb]⟩
      rw [hb]
      dsimp only
      rw [happly]

theorem Besides.batch (h : Besides c ρ v w)
    (hbatch : Batch w b changes taking nested w') :
    ∃ v', Batch v b changes (taking.filterMap (·.without c))
        (nested.filter (·.passes c)) v'
      ∧ Besides c ρ v' w' ∧ v'.trace = v.trace ∧ w'.trace = w.trace := by
  obtain ⟨applied, happly, rfl⟩ := hbatch.exists_applied
  obtain ⟨v', happly', htaking, h'⟩ := h.taken happly
  exact ⟨v', htaking ▸ batch_taking happly', h'⟩

/-- Nobody calls the controller. -/
def Uncalled (c : Nat) (story : List Happening) : Prop :=
  ∀ d, .called d ∈ story → d.passes c

/-- The controller does not fail. -/
def Spared (c : Nat) (story : List Happening) : Prop :=
  ∀ d, .raised d ∈ story → d.passes c

/-- A delivery to somebody else is made in both workspaces. -/
theorem Besides.deliver (h : Besides c ρ v w) {d : Delivery}
    (hd : d.passes c) {r : Except Fault Unit}
    (hon : (deliver d).on w = (r, w')) :
    ∃ v', (Workspace.deliver d).on v = (r, v') ∧ Besides c ρ v' w'
      ∧ ∀ p, Grown p v v' w w' := by
  obtain ⟨result, v', w'', x, hv, hw, h', hx, hy⟩ := alike_deliver hd v w h
  cases hon.symm.trans hw
  exact ⟨v', hv, h', fun _ => .same hx hy⟩

/-- A round with a controller besides that does not fail is the round
without it, with its calls put in. -/
theorem Besides.round (h : Besides c ρ v w)
    (hround : Round plans agenda w story result)
    (hspared : Spared c story) :
    ∃ v', Round plans (agenda.filter (·.passes c)) v
        (story.filterMap (·.without c)) (result.1, v')
      ∧ Besides c ρ v' result.2
      ∧ Grown (Uncalled c story) v v' w result.2 := by
  induction hround generalizing v with
  | done => exact ⟨_, .done, h.planned _, .same
      v.trace.plus_nothing.symm (Trace.plus_nothing _).symm⟩
  | @fails plans d rest w w' fault hon =>
      have hd := hspared d (by simp)
      obtain ⟨v', hv, h', hgrown⟩ := h.deliver hd hon
      refine ⟨_, ?_, h'.planned plans, (hgrown _).congr rfl rfl⟩
      simpa [hd, Happening.without] using Round.fails hv
  | @goesOn plans d rest w w' story result hon hplan hrest ih =>
      have hlater : Spared c story := fun d hd => hspared d (.tail _ hd)
      by_cases hd : d.passes c
      · obtain ⟨v₁, hv, h', hgrown⟩ := h.deliver hd hon
        obtain ⟨v', hround, hv', hgrown'⟩ := ih h' hlater
        refine ⟨v', ?_, hv', ((hgrown True).trans hgrown').mono ?_⟩
        · simpa [hd, Happening.without] using
            Round.goesOn hv hplan hround
        · exact fun hcalled => ⟨trivial, fun d hd =>
            hcalled d (.tail _ hd)⟩
      · -- the call is made in the one workspace only
        obtain ⟨r, w₁, x, hw, h', hx⟩ := h.deliver_own hd
        cases hon.symm.trans hw
        obtain ⟨v', hround, hv', hgrown'⟩ := ih h' hlater
        have hown : ¬Uncalled c (.called d :: story) :=
          fun hcalled => hd (hcalled d (by simp))
        refine ⟨v', ?_, hv', ((Grown.own hx hown).trans hgrown').mono ?_⟩
        · simpa [hd, Happening.without] using hround
        · exact fun hcalled => absurd hcalled hown
  | @refused plans left d rest w w' plan e hon hplan happly =>
      have hd := hspared d (by simp)
      obtain ⟨v', hv, h', hgrown⟩ := h.deliver hd hon
      refine ⟨_, ?_, h'.planned left, (hgrown _).congr rfl rfl⟩
      simpa [hd, Happening.without] using
        Round.refused hv hplan (h'.refused happly)
  | @nests plans left d rest nested w w' w'' plan taking story result hon
      hplan hbatch hrest ih =>
      have hd : d.passes c := by
        -- only watchers have plans
        obtain ⟨listener, buffer, changes⟩ := d
        cases listener with
        | controller i => cases hplan
        | watcher i => rfl
      have hlater : Spared c story := fun d hd => hspared d (by simp [hd])
      obtain ⟨v₁, hv, h', hgrown⟩ := h.deliver hd hon
      obtain ⟨v₂, hbatch', h'', htrace, htrace'⟩ := h'.batch hbatch
      obtain ⟨v', hround, hv', hgrown'⟩ := ih h'' hlater
      have htaken : Grown True v v₂ _ w'' :=
        (hgrown True).congr htrace htrace'
      refine ⟨v', ?_, hv', (htaken.trans hgrown').mono ?_⟩
      · rw [List.filter_append] at hround
        simpa [hd, Happening.without] using
          Round.nests hv hplan hbatch' hround
      · exact fun hcalled => ⟨trivial, fun d hd =>
          hcalled d (by simp [hd])⟩

-- ======================================================= nobody's calls

/-- The controller is on no list. -/
def Unlisted (c : Nat) (ws : Workspace) : Prop :=
  ∀ b ∈ ws.buffers, .controller c ∉ b.listeners

theorem Unlisted.map_without (h : Unlisted c ws) :
    ws.buffers.map (·.without c) = ws.buffers := by
  rw [List.map_congr_left fun b hb => Buffer.without_eq (h b hb),
    List.map_id']

theorem Unlisted.relisted (h : Unlisted c ws) (b : Nat)
    {f : List Listener → List Listener}
    (hf : ∀ ls : List Listener, .controller c ∉ ls →
      .controller c ∉ f ls) (rs : List Registration) :
    Unlisted c { ws with
      buffers := ws.buffers.modify b (relist f), registrations := rs } := by
  intro buffer hbuffer
  obtain ⟨i, hi⟩ := List.mem_iff_getElem?.1 hbuffer
  rw [List.getElem?_modify] at hi
  obtain ⟨old, hold, rfl⟩ := Option.map_eq_some_iff.1 hi
  have hold := h old (List.mem_of_getElem? hold)
  split
  · exact hf _ hold
  · exact hold

theorem keeps_unlisted (d : Delivery) : (deliver d).Keeps (Unlisted c) := by
  refine deliver_keeps (fun _ _ _ _ h => h) ?_ ?_
    fun _ _ _ _ _ _ _ _ h => h
  · intro ws i h
    unfold unsubscribe
    cases ws.registrations[i]? with
    | none => exact h
    | some s =>
        dsimp only
        split
        · exact h.relisted s.buffer (f := (·.erase s.listener))
            (fun ls hls hmem => hls (List.mem_of_mem_erase hmem)) _
        · exact h
  · intro ws b x h
    refine h.relisted b (f := (· ++ [.watcher x])) (fun ls hls => ?_) _
    simpa using hls

/-- Nothing has to be left out of a batch that is taken while the
controller is on no list. -/
theorem Unlisted.batch (h : Unlisted c ws)
    (hbatch : Batch ws b changes taking nested ws') :
    (∀ x ∈ taking, x.without c = some x) ∧ (∀ d ∈ nested, d.passes c)
      ∧ Unlisted c ws' := by
  cases hbatch with
  | absent hb => exact ⟨by simp, by simp, h⟩
  | @taken buffer d applied hb happly =>
      have hnot := h buffer (List.mem_of_getElem? hb)
      refine ⟨?_, ?_, ?_⟩
      · intro x hx
        obtain rfl := List.mem_singleton.1 hx
        rw [Happening.without, filter_of_not_mem hnot]
      · intro d hd
        obtain ⟨l, hl, rfl⟩ := List.mem_map.1 hd
        exact decide_eq_true fun he => hnot (he ▸ hl)
      · intro buffer' hbuffer'
        rcases List.mem_or_eq_of_mem_set hbuffer' with hold | rfl
        · exact h buffer' hold
        · exact hnot

/-- In a round that has no call for a controller on no list there is
nothing to leave out. -/
theorem Round.nothing_without (h : Round plans agenda ws story result)
    (hagenda : ∀ d ∈ agenda, d.passes c) (hws : Unlisted c ws) :
    (∀ x ∈ story, x.without c = some x) ∧ Unlisted c result.2 := by
  induction h with
  | done => exact ⟨by simp, hws⟩
  | @fails plans d rest ws ws' fault hon =>
      have hd := hagenda d (by simp)
      have hleft := (keeps_unlisted d).left hws hon
      exact ⟨by simp [Happening.without, hd], hleft⟩
  | @goesOn plans d rest ws ws' story result hon hplan hrest ih =>
      have hd := hagenda d (by simp)
      obtain ⟨hstory, hws'⟩ := ih (fun d hd => hagenda d (.tail _ hd))
        ((keeps_unlisted d).left hws hon)
      refine ⟨List.forall_mem_cons.2 ⟨?_, hstory⟩, hws'⟩
      simp [Happening.without, hd]
  | @refused plans left d rest ws ws' plan e hon hplan happly =>
      have hd := hagenda d (by simp)
      have hleft := (keeps_unlisted d).left hws hon
      exact ⟨by simp [Happening.without, hd], hleft⟩
  | @nests plans left d rest nested ws ws' ws'' plan taking story result
      hon hplan hbatch hrest ih =>
      have hd := hagenda d (by simp)
      obtain ⟨htaking, hnested, hws₂⟩ :=
        ((keeps_unlisted d).left hws hon).batch hbatch
      obtain ⟨hstory, hws'⟩ := ih (fun d hd => (List.mem_append.1 hd).elim
        (hnested d) fun hd => hagenda d (.tail _ hd)) hws₂
      refine ⟨List.forall_mem_cons.2 ⟨?_, List.forall_mem_append.2
        ⟨htaking, hstory⟩⟩, hws'⟩
      simp [Happening.without, hd]

-- ================================================== outside of strict mode

/-- Outside of strict mode a controller that is called does not fail. -/
theorem deliver_lenient (hlenient : ws.config.active.isStrict = false)
    (i b : Nat) (changes : List Change) :
    ((deliver ⟨.controller i, b, changes⟩).on ws).1 = .ok () := by
  show ((callController i b changes).on ws).1 = _
  unfold callController
  rw [Act.on_bind, Act.on_get]
  dsimp only
  cases ws.controllers[i]? with
  | none => rfl
  | some k =>
      dsimp only
      split
      · rfl
      · rw [mendBatch_on]
        cases hseat : ws.seat? i with
        | none => rw [whenReady_of_no_seat hseat]
        | some seat =>
            obtain ⟨k, d⟩ := seat
            cases ht : k.tokenizer with
            | none => rw [whenReady_of_inert hseat ht]
            | some t =>
                obtain ⟨answer, cache', x, hmend, -, hok⟩ :=
                  Reparse.comesTo_mendBatch (d := d) (e := t.engine)
                    ws.config.active.isStrict changes k.cache
                rw [whenReady_of_ready hseat ht, hmend]
                exact (hok hlenient).1

theorem config_deliver (d : Delivery) (config : Ambient) :
    (deliver d).Keeps fun ws => ws.config = config := by
  refine deliver_keeps (fun _ _ _ _ h => h) (fun ws i h => ?_)
    (fun _ _ _ h => h) fun _ _ _ _ _ _ _ _ h => h
  unfold unsubscribe
  split
  · exact h
  · split <;> exact h

/-- Outside of strict mode only watchers fail, or are refused an edit. -/
theorem Round.spared (h : Round plans agenda ws story result)
    (hlenient : ws.config.active.isStrict = false) (c : Nat) :
    Spared c story := by
  -- nobody who is called changes the configuration
  have hkept : ∀ {d : Delivery} {ws ws' : Workspace}
      {r : Except Fault Unit}, ws.config.active.isStrict = false →
      (deliver d).on ws = (r, ws') →
      ws'.config.active.isStrict = false := by
    intro d ws ws' r hlenient hon
    rw [(config_deliver d ws.config).left rfl hon]
    exact hlenient
  induction h with
  | done =>
      intro d hd
      cases hd
  | @fails plans d rest ws ws' fault hon =>
      intro d' hd'
      obtain rfl : d' = d := by simpa using hd'
      obtain ⟨listener, buffer, changes⟩ := d'
      cases listener with
      | watcher i => rfl
      | controller i =>
          -- a controller that is not strict does not fail
          have hok := deliver_lenient hlenient i buffer changes
          rw [hon] at hok
          cases hok
  | @goesOn plans d rest ws ws' story result hon hplan hrest ih =>
      intro d' hd'
      exact ih (hkept hlenient hon) d' (by simpa using hd')
  | @refused plans left d rest ws ws' plan e hon hplan happly =>
      intro d' hd'
      obtain rfl : d' = d := by simpa using hd'
      obtain ⟨listener, buffer, changes⟩ := d'
      cases listener with
      | watcher i => rfl
      -- only watchers have plans
      | controller i => cases hplan
  | @nests plans left d rest nested ws ws' ws'' plan taking story result
      hon hplan hbatch hrest ih =>
      have hconfig : ws''.config = ws'.config := by cases hbatch <;> rfl
      intro d' hd'
      refine ih (hconfig ▸ hkept hlenient hon) d' ?_
      cases hbatch <;> simpa using hd'

end Workspace

end Relex
