/-
Controllers that are told in time.

A controller whose cache is sound for its document is still so after the
document has taken a batch and the controller was called with it; what is
called in between does not reach it. So over a run of edits a controller
that is told promptly keeps up (`Edits.informed`), also if edits are
nested, and also if some of them fail.
-/
import Relex.Proofs.Workspace.Equivalence
import Relex.Proofs.Workspace.Prompt

namespace Relex.Workspace

/-- The controller is at work in a buffer with its tokenizer. If it is
owed nothing, its cache is sound for the document; if it is owed a batch,
for the document before that. -/
structure Informed (ws : Workspace) (c b : Nat)
    (t : Option Engine.Tokenizer) (owed : Option (List Change))
    (k : Controller) (d : Document) : Prop where
  controller : ws.controllers[c]? = some k
  buffer : k.buffer = b
  live : k.disposed = false
  tokenizer : k.tokenizer = t
  document : ws.document? b = some d
  keepsUp : match owed with
    | none => KeepsUp k d.lines
    | some applied => ∃ (before : Document) (changes : List Change),
      before.apply changes = .ok (d, applied) ∧ KeepsUp k before.lines

variable {ws ws' : Workspace} {c b buffer : Nat}
  {t : Option Engine.Tokenizer} {owed left : Option (List Change)}
  {k : Controller} {d : Document} {changes : List Change}
  {plans : List Plan} {agenda : List Delivery} {story : List Happening}
  {result : Except Fault Unit × Workspace}
  {edits : List (Nat × List Change)}

theorem Informed.seat? (h : Informed ws c b t owed k d) :
    ws.seat? c = some (k, d) :=
  seat?_eq_some.2 ⟨h.controller, h.buffer ▸ h.document⟩

theorem Informed.congr (h : Informed ws c b t owed k d)
    (hk : ws'.controllers[c]? = ws.controllers[c]?)
    (hd : ws'.document? b = ws.document? b) :
    Informed ws' c b t owed k d :=
  ⟨hk.trans h.controller, h.buffer, h.live, h.tokenizer,
    hd.trans h.document, h.keepsUp⟩

-- =============================================================== calls

theorem controllers_leave (ws : Workspace) {i : Nat} (hi : i ≠ c)
    (bench : Bench) :
    (ws.leave i bench).controllers[c]? = ws.controllers[c]? := by
  show (ws.controllers.modify i _)[c]? = _
  rw [List.getElem?_modify]
  simp [hi]

/-- Calls of others leave a controller alone. -/
theorem controller_deliver {e : Delivery} {outcome : Except Fault Unit}
    (he : e.listener ≠ .controller c)
    (hon : (deliver e).on ws = (outcome, ws')) :
    ws'.controllers[c]? = ws.controllers[c]? := by
  have hkeeps : (deliver e).Keeps
      (·.controllers[c]? = ws.controllers[c]?) := by
    refine deliver_keeps (fun _ _ _ _ h => h) ?_ (fun _ _ _ h => h) ?_
    · intro ws' i h
      rw [controllers_unsubscribe]
      exact h
    · intro ws' i k t bench hi _ _ h
      have hic : i ≠ c := by
        rintro rfl
        exact he hi
      rw [controllers_leave _ hic]
      exact h
  exact hkeeps.left rfl hon

/-- A call that is not for a controller in its buffer does not reach
it. -/
theorem Informed.aside (h : Informed ws c b t owed k d) {e : Delivery}
    (he : e.toward? (.controller c) b = none)
    {outcome : Except Fault Unit}
    (hon : (deliver e).on ws = (outcome, ws')) :
    Informed ws' c b t owed k d := by
  refine h.congr ?_ ((deliver_frame hon).1 b)
  by_cases hself : e.listener = .controller c
  · -- it is called for another buffer, and minds its own
    obtain ⟨listener, buffer, changes⟩ := e
    cases hself
    have hbuffer : buffer ≠ b := by
      intro hb
      simp [Delivery.toward?, hb] at he
    have hidle : (callController c buffer changes).on ws = (.ok (), ws) := by
      unfold callController
      rw [Act.on_bind, Act.on_get]
      dsimp only
      rw [h.controller]
      dsimp only
      rw [if_pos (.inr (h.buffer ▸ hbuffer.symm))]
      rfl
    cases hidle.symm.trans hon
    rfl
  · exact controller_deliver hself hon

/-- Being called with the batch it is owed, a controller catches up, also
if its engine fails on the way. -/
theorem Informed.called (h : Informed ws c b t (some changes) k d)
    {outcome : Except Fault Unit}
    (hon : (deliver ⟨.controller c, b, changes⟩).on ws
      = (outcome, ws')) :
    ∃ k', Informed ws' c b t none k' d := by
  have hmend : (deliver ⟨.controller c, b, changes⟩).on ws
      = (whenReady c () fun d engine => Reparse.mendBatch d engine
          ws.config.active.isStrict changes).on ws := by
    rw [← h.buffer, deliver_controller h.controller h.live]
    exact mendBatch_on ws c changes
  rw [hmend] at hon
  obtain ⟨before, batch, happly, hkeeps⟩ := h.keepsUp
  cases ht : k.tokenizer with
  | none =>
      rw [whenReady_of_inert h.seat? ht] at hon
      cases hon
      refine ⟨k, h.controller, h.buffer, h.live, h.tokenizer, h.document,
        ?_⟩
      intro u hu
      rw [ht] at hu
      cases hu
  | some u =>
      rw [whenReady_of_ready h.seat? ht] at hon
      cases hon
      have hends : Ends (Reparse.mendBatch d u.engine
          ws.config.active.isStrict changes) ⟨k.cache, ws.trace⟩ _ _ :=
        Reparse.ends_mendBatch_of_apply happly (hkeeps u ht)
      have hsound : StateCache.SoundBut _ u.engine d.lines fun _ => False :=
        hends.left (fun _ _ h => h) fun _ _ h => h.2.2
      refine ⟨_,
        ⟨(seat?_eq_some.1 (seat?_leave h.seat? _)).1, h.buffer, h.live,
          h.tokenizer, h.document, ?_⟩⟩
      intro u' hu'
      obtain rfl := Option.some.inj (ht.symm.trans hu')
      exact hsound

theorem Informed.batch (h : Informed ws c b t owed k d)
    {taking : List Happening} {nested : List Delivery}
    (hbatch : Batch ws buffer changes taking nested ws')
    (htold : Told (.controller c) b owed taking left) :
    ∃ d', Informed ws' c b t left k d' := by
  cases hbatch with
  | absent hb =>
      cases htold
      exact ⟨d, h⟩
  | @taken b' d' applied hb happly =>
      have hdoc := document?_set hb d' b
      by_cases hbuffer : buffer = b
      · subst hbuffer
        simp only [Told, if_true] at htold
        obtain ⟨rfl, rfl⟩ := htold
        have hd : b'.document = d := by
          simpa [document?, hb] using h.document
        rw [if_pos rfl] at hdoc
        exact ⟨d', h.controller, h.buffer, h.live, h.tokenizer, hdoc,
          d, changes, hd ▸ happly, h.keepsUp⟩
      · simp only [Told, if_neg hbuffer] at htold
        subst htold
        rw [if_neg hbuffer] at hdoc
        exact ⟨d, h.congr rfl hdoc⟩

-- ================================================================ runs

/-- A call, whether it is for the controller or not. -/
theorem Informed.call (h : Informed ws c b t owed k d) {e : Delivery}
    {outcome : Except Fault Unit}
    (hon : (deliver e).on ws = (outcome, ws'))
    (htold : Told (.controller c) b owed (.called e :: story) left) :
    ∃ k' owed', Informed ws' c b t owed' k' d
      ∧ Told (.controller c) b owed' story left := by
  cases he : e.toward? (.controller c) b with
  | none =>
      simp only [Told, he] at htold
      exact ⟨k, owed, h.aside he hon, htold⟩
  | some changes =>
      simp only [Told, he] at htold
      obtain ⟨rfl, htold⟩ := htold
      have hfor : e = ⟨.controller c, b, changes⟩ := by
        obtain ⟨listener, buffer, changes'⟩ := e
        simp only [Delivery.toward?, Option.ite_none_right_eq_some,
          Option.some.injEq] at he
        obtain ⟨⟨rfl, rfl⟩, rfl⟩ := he
        rfl
      obtain ⟨k', h'⟩ := h.called (hfor ▸ hon)
      exact ⟨k', none, h', htold⟩

theorem Round.informed (h : Round plans agenda ws story result)
    (htold : Told (.controller c) b owed story left)
    (hi : Informed ws c b t owed k d) :
    ∃ k' d', Informed result.2 c b t left k' d' := by
  induction h generalizing owed k d with
  | done =>
      cases htold
      exact ⟨k, d, hi.congr rfl rfl⟩
  | fails hon =>
      obtain ⟨k', owed', hi', rfl⟩ := hi.call hon htold
      exact ⟨k', d, hi'.congr rfl rfl⟩
  | refused hon =>
      obtain ⟨k', owed', hi', rfl⟩ := hi.call hon htold
      exact ⟨k', d, hi'.congr rfl rfl⟩
  | goesOn hon hplan hrest ih =>
      obtain ⟨k', owed', hi', htold'⟩ := hi.call hon htold
      exact ih htold' hi'
  | nests hon hplan hbatch hrest ih =>
      obtain ⟨k', owed', hi', htold'⟩ := hi.call hon htold
      obtain ⟨owed'', htaking, hstory⟩ := told_append.1 htold'
      obtain ⟨d', hi''⟩ := hi'.batch hbatch htaking
      exact ih hstory hi''

/-- A controller that is told promptly keeps up over a run of edits,
whether they go through or fail. -/
theorem Edits.informed (h : Edits edits ws story ws')
    (htold : Told (.controller c) b owed story left)
    (hi : Informed ws c b t owed k d) :
    ∃ k' d', Informed ws' c b t left k' d' := by
  induction h generalizing owed k d with
  | nil =>
      cases htold
      exact ⟨k, d, hi⟩
  | refused happly hrest ih => exact ih htold hi
  | taken hbatch hround hrest ih =>
      obtain ⟨owed₂, htold, hrest'⟩ := told_append.1 htold
      obtain ⟨owed₁, htaking, hstory⟩ := told_append.1 htold
      obtain ⟨d₁, hi₁⟩ := hi.batch hbatch htaking
      obtain ⟨k₂, d₂, hi₂⟩ := hround.informed hstory hi₁
      exact ih hrest' hi₂

end Relex.Workspace
