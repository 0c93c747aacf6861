/-
Being told in time.

Between the moment a document takes a batch and the moment a listener is
called with it, the listener is owed that batch. `Told` follows a history
and keeps account of this: it holds as long as a listener is never owed
two batches at once and is only called with the one it is owed. A history
that starts and ends with nothing owed is prompt (`Prompt`). Then what
the listener heard is what the document took, in the same order
(`Prompt.heard`).

In a round the account can be read off the deliveries still to be made
(`Due`). Whoever stands in front of a listener on the list is called
first. If nobody there edits, no nested round gets in between; if nobody
there fails, the call is made. So the listener is told promptly
(`Edits.prompt`), and whatever those behind it do comes too late to
matter.
-/
import Relex.Proofs.Workspace.Following
import Relex.Proofs.Workspace.Rounds

namespace Relex.Workspace

-- ========================================================== the account

/-- Along a history, from owing a listener what is given first to owing it
what is given last. -/
def Told (l : Listener) (b : Nat) :
    Option (List Change) → List Happening → Option (List Change) → Prop
  | owed, [], left => left = owed
  | owed, .applied b' changes _ :: story, left =>
    if b' = b then owed = none ∧ Told l b (some changes) story left
    else Told l b owed story left
  | owed, .called d :: story, left =>
    match d.toward? l b with
    | some changes => owed = some changes ∧ Told l b none story left
    | none => Told l b owed story left
  | owed, .raised _ :: story, left => Told l b owed story left

/-- The listener is called with each batch before its document takes the
next one. -/
def Prompt (l : Listener) (b : Nat) (story : List Happening) : Prop :=
  Told l b none story none

/-- Whenever the document takes a batch, nobody who stands in front of the
listener has plans, and nobody fails when called with that batch. -/
def Unhindered (l : Listener) (b : Nat) (plans : List Plan)
    (story : List Happening) : Prop :=
  ∀ changes front back, .applied b changes (front ++ l :: back) ∈ story →
    ∀ x ∈ front, (∀ plan ∈ plans, x ≠ .watcher plan.watcher)
      ∧ .raised ⟨x, b, changes⟩ ∉ story

variable {ws ws' : Workspace} {l : Listener} {b buffer : Nat}
  {changes : List Change} {plans left : List Plan}
  {agenda : List Delivery} {story story' : List Happening}
  {result : Except Fault Unit × Workspace}
  {edits : List (Nat × List Change)} {owed owed' : Option (List Change)}

/-- The account of a history in two parts. -/
theorem told_append {last : Option (List Change)} :
    Told l b owed (story ++ story') last
      ↔ ∃ mid, Told l b owed story mid ∧ Told l b mid story' last := by
  induction story generalizing owed with
  | nil => simp [Told]
  | cons x story ih =>
      cases x with
      | applied b' changes listeners =>
          by_cases hb : b' = b <;> simp [Told, hb, ih, and_assoc]
      | called d =>
          cases hd : d.toward? l b <;> simp [Told, hd, ih, and_assoc]
      | raised d => simp [Told, ih]

theorem Told.append (h : Told l b owed story owed')
    {last : Option (List Change)} (h' : Told l b owed' story' last) :
    Told l b owed (story ++ story') last :=
  told_append.2 ⟨owed', h, h'⟩

/-- What was owed at first and what was taken since is what was heard and
what is still owed. -/
theorem Told.heard (h : Told l b owed story owed') :
    heard l b story ++ owed'.toList = owed.toList ++ accepted b story := by
  induction story generalizing owed with
  | nil =>
      cases h
      simp
  | cons x story ih =>
      cases x with
      | applied b' changes listeners =>
          simp only [Told] at h
          split at h
          · next hb =>
            have := ih h.2
            simpa [Workspace.heard, accepted, h.1, hb] using this
          · next hb =>
            have := ih h
            simpa [Workspace.heard, accepted, hb] using this
      | called d =>
          simp only [Told] at h
          split at h
          · next changes hd =>
            have := ih h.2
            simp only [Option.toList_none, List.nil_append] at this
            simp [hd, h.1, this]
          · next hd => simpa [hd] using ih h
      | raised d => exact ih h

theorem Prompt.heard (h : Prompt l b story) :
    heard l b story = accepted b story := by
  simpa using Told.heard h

theorem Unhindered.mono (h : Unhindered l b plans story)
    (hplans : left ⊆ plans) (hstory : story' ⊆ story) :
    Unhindered l b left story' := by
  intro changes front back hmem x hx
  obtain ⟨hclear, hcalm⟩ := h changes front back (hstory hmem) x hx
  exact ⟨fun plan hp => hclear plan (hplans hp),
    fun hr => hcalm (hstory hr)⟩

/-- Nobody stands in the way of who is listed first. -/
theorem unhindered_of_head? (hl : ListedOnce l b story)
    (hfirst : ∀ changes listeners,
      .applied b changes listeners ∈ story → listeners.head? = some l) :
    Unhindered l b plans story := by
  intro changes front back hmem x hx
  cases front with
  | nil => cases hx
  | cons y front =>
      have hy : y = l := Option.some.inj (hfirst _ _ hmem)
      have honce := hl _ _ hmem
      simp [hy] at honce

-- ====================================================== what is due yet

/-- What a listener is owed is on the agenda: nothing, or one delivery, and
nobody in front of that has plans or is going to fail. -/
def Due (l : Listener) (b : Nat) (plans : List Plan)
    (story : List Happening) : Option (List Change) → List Delivery → Prop
  | none, agenda => awaited l b agenda = []
  | some changes, agenda => ∃ (front : List Listener) (back : List Delivery),
    agenda = front.map (⟨·, b, changes⟩) ++ ⟨l, b, changes⟩ :: back
      ∧ l ∉ front ∧ awaited l b back = []
      ∧ ∀ x ∈ front, (∀ plan ∈ plans, x ≠ .watcher plan.watcher)
        ∧ .raised ⟨x, b, changes⟩ ∉ story

theorem Due.mono (h : Due l b plans story owed agenda)
    (hplans : left ⊆ plans) (hstory : story' ⊆ story) :
    Due l b left story' owed agenda := by
  cases owed with
  | none => exact h
  | some changes =>
      obtain ⟨front, back, hagenda, hfront, hback, hclear⟩ := h
      refine ⟨front, back, hagenda, hfront, hback, ?_⟩
      intro x hx
      obtain ⟨hplan, hcalm⟩ := hclear x hx
      exact ⟨fun plan hp => hplan plan (hplans hp),
        fun hr => hcalm (hstory hr)⟩

/-- A call: what the listener is owed after it is due on the rest of the
agenda. If it is owed anything then, the call was of somebody in front of
it. -/
theorem Due.call {d : Delivery} {rest : List Delivery}
    (h : Due l b plans story owed (d :: rest)) :
    ∃ owed', Due l b plans story owed' rest
      ∧ Told l b owed [.called d] owed'
      ∧ (owed' = none ∨ (∀ plan ∈ plans, d.listener ≠ .watcher plan.watcher)
        ∧ .raised d ∉ story) := by
  cases owed with
  | none =>
      have hnone : d.toward? l b = none ∧ awaited l b rest = [] := by
        have : (d.toward? l b).toList ++ awaited l b rest = [] :=
          (awaited_cons l b d rest).symm.trans h
        simpa using this
      exact ⟨none, hnone.2, by simp [Told, hnone.1], .inl rfl⟩
  | some changes =>
      obtain ⟨front, back, hagenda, hfront, hback, hclear⟩ := h
      cases front with
      | nil =>
          obtain ⟨rfl, rfl⟩ := List.cons.inj hagenda
          exact ⟨none, hback, by simp [Told, Delivery.toward?], .inl rfl⟩
      | cons x front =>
          obtain ⟨rfl, rfl⟩ := List.cons.inj hagenda
          have hx : x ≠ l := fun hx => hfront (by simp [hx])
          refine ⟨some changes, ⟨front, back, rfl,
            fun hl => hfront (by simp [hl]), hback,
            fun y hy => hclear y (by simp [hy])⟩,
            by simp [Told, Delivery.toward?, hx], .inr ?_⟩
          exact hclear x (by simp)

/-- A batch that is taken while nothing is owed: it is due to the listener
before anything that was on the agenda. -/
theorem Batch.due {taking : List Happening}
    {nested rest : List Delivery}
    (h : Batch ws buffer changes taking nested ws')
    (hl : ListedOnce l b taking) (hu : Unhindered l b plans story)
    (hstory : taking ⊆ story) (hrest : awaited l b rest = []) :
    ∃ owed, Due l b plans story owed (nested ++ rest)
      ∧ Told l b none taking owed := by
  cases h with
  | absent hb => exact ⟨none, hrest, rfl⟩
  | @taken b' d applied hb happly =>
      by_cases hbuffer : buffer = b
      · subst hbuffer
        obtain ⟨front, back, heq, hfront, hback⟩ :=
          exists_split (hl _ _ (List.mem_singleton_self _))
        rw [heq] at hstory
        refine ⟨some applied, ⟨front,
          back.map (⟨·, buffer, applied⟩) ++ rest, ?_, hfront, ?_, ?_⟩, ?_⟩
        · simp [heq]
        · rw [awaited_append, awaited_map, hrest,
            List.count_eq_zero_of_not_mem hback]
          simp
        · exact hu applied front back (hstory (by simp))
        · simp [Told]
      · refine ⟨none, ?_, by simp [Told, hbuffer]⟩
        show awaited l b _ = []
        rw [awaited_append, awaited_map, if_neg hbuffer, hrest]
        rfl

-- ============================================================ the rounds

theorem watcher_of_plan? {d : Delivery} {plan : Plan}
    (h : d.plan? plans = some (plan, left)) :
    d.listener = .watcher plan.watcher := by
  obtain ⟨listener, buffer, changes⟩ := d
  cases listener with
  | controller i => cases h
  | watcher w =>
      have htake : Plan.take? w plans = some (plan, left) := h
      clear h
      induction plans generalizing left with
      | nil => cases htake
      | cons first plans ih =>
          rw [Plan.take?] at htake
          split at htake
          · next hw =>
            cases htake
            exact congrArg _ hw.symm
          · obtain ⟨⟨next, left'⟩, htake', he⟩ :=
              Option.map_eq_some_iff.1 htake
            cases he
            exact ih htake'

theorem Round.plans_subset (h : Round plans agenda ws story result) :
    result.2.plans ⊆ plans := by
  induction h with
  | done => exact List.Subset.refl _
  | fails hon => exact List.Subset.refl _
  | refused hon hplan => exact (mem_of_plan? hplan).2.2
  | goesOn hon hplan hrest ih => exact ih
  | nests hon hplan hbatch hrest ih =>
      exact fun q hq => (mem_of_plan? hplan).2.2 q (ih hq)

/-- A listener that is listed once, with nobody in its way, is told in a
round of what it is owed. -/
theorem Round.told (h : Round plans agenda ws story result)
    (hl : ListedOnce l b story) (hu : Unhindered l b plans story)
    (hdue : Due l b plans story owed agenda) :
    Told l b owed story none := by
  induction h generalizing owed with
  | done =>
      cases owed with
      | none => rfl
      | some changes =>
          obtain ⟨front, back, hagenda, -⟩ := hdue
          simp at hagenda
  | @fails plans d =>
      obtain ⟨owed', -, htold, hnone | ⟨-, hcalm⟩⟩ := hdue.call
      · subst hnone
        have hraised : Told l b none [.raised d] none := rfl
        exact htold.append hraised
      · exact absurd (by simp) hcalm
  | @refused plans left d =>
      obtain ⟨owed', -, htold, hnone | ⟨-, hcalm⟩⟩ := hdue.call
      · subst hnone
        have hraised : Told l b none [.raised d] none := rfl
        exact htold.append hraised
      · exact absurd (by simp) hcalm
  | goesOn hon hplan hrest ih =>
      obtain ⟨owed', hdue', htold, -⟩ := hdue.call
      exact htold.append (ih (hl.mono (List.subset_cons_self ..))
        (hu.mono (List.Subset.refl _) (List.subset_cons_self ..))
        (hdue'.mono (List.Subset.refl _) (List.subset_cons_self ..)))
  | @nests plans left d rest nested ws ws' ws'' plan taking story result
      hon hplan hbatch hrest ih =>
      obtain ⟨-, hmem, hleft⟩ := mem_of_plan? hplan
      obtain ⟨owed', hdue', htold, hnone | ⟨hclear, -⟩⟩ := hdue.call
      · subst hnone
        have htaking : taking ⊆ .called d :: (taking ++ story) :=
          List.subset_cons_of_subset _ (List.subset_append_left ..)
        have hstory : story ⊆ .called d :: (taking ++ story) :=
          List.subset_cons_of_subset _ (List.subset_append_right ..)
        -- the listener was told before the nested batch is taken, and is
        -- then owed that
        obtain ⟨owed'', hdue'', htold'⟩ :=
          hbatch.due (hl.mono htaking) hu htaking hdue'
        exact htold.append (htold'.append (ih (hl.mono hstory)
          (hu.mono hleft hstory) (hdue''.mono hleft hstory)))
      · exact absurd (watcher_of_plan? hplan) (hclear plan hmem)

/-- Over a run of edits, whether they go through or fail, a listener that
is listed once, with nobody in its way, is told promptly. -/
theorem Edits.prompt (h : Edits edits ws story ws')
    (hl : ListedOnce l b story) (hu : Unhindered l b ws.plans story) :
    Prompt l b story := by
  induction h with
  | nil => rfl
  | refused happly hrest ih => exact ih hl hu
  | @taken edits buffer changes ws ws₁ ws₂ ws₃ taking story stories
      deliveries result hbatch hround hrest ih =>
      obtain ⟨htaking, hstory, hstories⟩ := parts_subset taking story stories
      have hplans : ws₁.plans ⊆ ws.plans := by
        rw [hbatch.plans_eq]
        exact List.Subset.refl _
      obtain ⟨owed, hdue, htold⟩ :=
        hbatch.due (hl.mono htaking) hu htaking (awaited_nil l b)
      rw [List.append_nil] at hdue
      have hround' := hround.told (hl.mono hstory)
        (hu.mono hplans hstory) (hdue.mono hplans hstory)
      have hrest' := ih (hl.mono hstories)
        (hu.mono (fun q hq => hplans (hround.plans_subset hq)) hstories)
      exact (htold.append hround').append hrest'

end Relex.Workspace
