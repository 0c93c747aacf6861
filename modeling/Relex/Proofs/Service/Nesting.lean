/-
Blocks nest.

A program sets and resets the configuration, does things under a
configuration of their own, has their cost counted, queries and refreshes
services, and fails at any point; it is put together in any way
(`Program`).

While a program runs, the configuration may be any. What it cannot touch
is what lies around it: the configurations to come back to, and all
counters but the innermost (`Workspace.StaysInside`). That is kept by each
way of putting programs together (`Program.staysInside`), so a block finds
at its end what it put aside at its beginning (`on_underConfig`,
`on_metered`). Services do their work in such blocks, or else under the
configuration they find, and change nothing about it.
-/
import Mathlib
import Relex.Proofs.Workspace.Profiling
import Relex.Service.Basic

namespace Relex

-- =============================================================== programs

/-- What a host may do about configurations, counters and services. -/
inductive Program where
  | skip
  /-- Another configuration gets active. -/
  | set (config : Config)
  /-- The default configuration gets active. -/
  | reset
  | fail (fault : Fault)
  /-- A service is asked for the token at a position. -/
  | lookup (s : Service) (buffer : Nat) (p : Position)
  /-- A service builds the caches of its documents anew. -/
  | refresh (s : Service)
  | andThen (first second : Program)
  /-- Goes by what is there to see. -/
  | ifThenElse (test : Workspace → Bool) (yes no : Program)
  /-- Goes on where the body fails. -/
  | attempt (body : Program)
  /-- The body is done under a configuration of its own. -/
  | underConfig (config : Config) (body : Program)
  /-- The cost of the body is counted. -/
  | metered (body : Program)

namespace Program

/-- What a program does in a workspace. Its services work in that
workspace, too. -/
def work : Program → Act Unit
  | skip => pure ()
  | set config => modify fun ws => { ws with config := ws.config.set config }
  | reset => modify fun ws => { ws with config := ws.config.reset }
  | fail fault => throw fault
  | lookup s buffer p => modify fun ws =>
    (({ s with ws } : Service).lookup buffer p).2.ws
  | refresh s => Act.of fun ws =>
    let (result, s) := ({ s with ws } : Service).rebuildAll
    (result, s.ws)
  | andThen first second => do
    first.work
    second.work
  | ifThenElse test yes no => do
    if test (← get) then yes.work else no.work
  | attempt body => modify fun ws => (body.work.on ws).2
  | underConfig config body => Workspace.underConfig config body.work
  | metered body => do
    let (result, _) ← Workspace.metered body.work
    result

end Program

namespace Workspace

-- ================================================================= staying

/-- From one workspace to the other nothing has changed that is put aside:
the configurations to come back to are the same, and so are all counters
but the innermost, which have only gone on. -/
structure StaysInside (ws ws' : Workspace) : Prop where
  saved : ws'.config.saved = ws.config.saved
  trace : ∃ x, ws'.trace = ws.trace.plus x

/-- Nothing that is put aside has changed, nor has the active
configuration. -/
structure Untouched (ws ws' : Workspace) : Prop where
  config : ws'.config = ws.config
  trace : ∃ x, ws'.trace = ws.trace.plus x

variable {ws ws' ws'' : Workspace} {α : Type} {w : Act α}

theorem Untouched.staysInside (h : Untouched ws ws') : StaysInside ws ws' :=
  ⟨congrArg (·.saved) h.config, h.trace⟩

theorem Untouched.refl (ws : Workspace) : Untouched ws ws :=
  ⟨rfl, .nothing, ws.trace.plus_nothing.symm⟩

theorem StaysInside.trans (h : StaysInside ws ws')
    (h' : StaysInside ws' ws'') : StaysInside ws ws'' := by
  obtain ⟨x, hx⟩ := h.trace
  obtain ⟨y, hy⟩ := h'.trace
  exact ⟨h'.saved.trans h.saved, _, by rw [hy, hx, Trace.plus_plus]⟩

theorem Untouched.trans (h : Untouched ws ws') (h' : Untouched ws' ws'') :
    Untouched ws ws'' :=
  ⟨h'.config.trans h.config, (h.staysInside.trans h'.staysInside).trace⟩

/-- Work that leaves every workspace untouched can go on from any that
was. -/
theorem keeps_untouched (h : ∀ ws, Untouched ws (w.on ws).2) :
    w.Keeps (Untouched ws) :=
  fun ws' hws' => hws'.trans (h ws')

theorem Untouched.noted (ws : Workspace) (entry : Entry) :
    Untouched ws (ws.noted entry) :=
  ⟨rfl, _, ws.trace.noted_eq entry⟩

/-- Outer counters do not go on. -/
theorem StaysInside.outer (h : StaysInside ws ws') :
    ws'.trace.meters.blocks.tail = ws.trace.meters.blocks.tail := by
  obtain ⟨x, hx⟩ := h.trace
  rw [hx]
  exact List.tail_modifyHead

-- ================================================================== blocks

/-- The workspace in which a block under a configuration begins. -/
def under (ws : Workspace) (config : Config) : Workspace :=
  { ws with config := ws.config.enter config }

/-- The workspace in which a counting block begins. -/
def metering (ws : Workspace) : Workspace := ws.onMeters (·.enter)

/-- A block under a configuration ends in the configuration in which it
began, if its work stays within the block. -/
theorem on_underConfig {config : Config}
    (h : StaysInside (ws.under config) (w.on (ws.under config)).2) :
    (underConfig config w).on ws
      = ((w.on (ws.under config)).1,
        { (w.on (ws.under config)).2 with config := ws.config }) := by
  show ((w.on (ws.under config)).1,
    { (w.on (ws.under config)).2 with
      config := (w.on (ws.under config)).2.config.leave }) = _
  generalize w.on (ws.under config) = done at h ⊢
  have hleave : done.2.config.leave = ws.config := by
    unfold Ambient.leave
    rw [h.saved]
    rfl
  rw [hleave]

/-- A counting block ends with the counters with which it began, if its
work stays within the block. -/
theorem on_metered
    (h : StaysInside ws.metering (w.on ws.metering).2) :
    (metered w).on ws
      = (.ok ((w.on ws.metering).1,
          ((w.on ws.metering).2.trace.meters.active?).getD .zero),
        (w.on ws.metering).2.onMeters fun _ => ws.trace.meters) := by
  have hleave : (w.on ws.metering).2.trace.meters.leave = ws.trace.meters :=
    congrArg Meters.mk h.outer
  rw [← hleave]
  rfl

/-- Of what a counting block adds to the trace, the calls and the journal
are left. -/
theorem StaysInside.onMeters (h : StaysInside ws.metering ws') :
    StaysInside ws (ws'.onMeters fun _ => ws.trace.meters) := by
  obtain ⟨x, hx⟩ := h.trace
  refine ⟨h.saved, ⟨x.calls, x.entries, .zero⟩, ?_⟩
  show { ws'.trace with meters := ws.trace.meters } = _
  rw [hx]
  unfold Trace.plus
  rw [Trace.record_zero]
  rfl

theorem Untouched.underConfig {config : Config}
    (h : StaysInside (ws.under config) (w.on (ws.under config)).2) :
    Untouched ws ((underConfig config w).on ws).2 := by
  rw [on_underConfig h]
  exact ⟨rfl, h.trace⟩

-- ================================================================ services

theorem Untouched.rebuild (ws : Workspace) (i : Nat) :
    Untouched ws ((rebuild i).on ws).2 := by
  obtain ⟨x, hx, -⟩ := accrued_rebuild ws i
  have hconfig : (Workspace.rebuild i).Keeps (·.config = ws.config) :=
    rebuild_keeps (fun _ h => h) fun _ _ _ _ _ _ h => h
  exact ⟨hconfig ws rfl, x, hx⟩

/-- A query asks an engine once, or not at all. -/
theorem Untouched.lookup (ws : Workspace) (i : Nat) (p : Position) :
    Untouched ws ((lookup i p).on ws).2 := by
  unfold Workspace.lookup whenAttached
  rw [Act.on_bind, Act.on_get]
  dsimp only
  rw [Act.on_bind, Act.on_get]
  dsimp only
  cases ws.seat? i with
  | none => exact .refl ws
  | some seat =>
      obtain ⟨k, d⟩ := seat
      refine ⟨rfl, ?_⟩
      show ∃ x, ((Lookup.token d k.engine? _ p).on
        ⟨k.cache, ws.trace⟩).2.trace = ws.trace.plus x
      cases k.engine? with
      | none => exact ⟨_, ws.trace.plus_nothing.symm⟩
      | some e =>
          rw [Lookup.token_on]
          split
          · exact ⟨_, ws.trace.plus_nothing.symm⟩
          · exact ⟨_, ws.trace.called_eq _⟩

/-- Work under a service's configuration, if it has one. -/
theorem Untouched.underConfig? (config : Option Config)
    (h : ∀ ws, Untouched ws (w.on ws).2) (ws : Workspace) :
    Untouched ws ((underConfig? config w).on ws).2 := by
  cases config with
  | none => exact h ws
  | some config => exact .underConfig (h _).staysInside

end Workspace

namespace Service

open Workspace

/-- A query by a service that fails is noted down under the configuration
of its caller. -/
theorem untouched_lookup (s : Service) (buffer : Nat) (p : Position) :
    Untouched s.ws (s.lookup buffer p).2.ws := by
  unfold lookup
  cases s.controllerFor? buffer with
  | none => exact .refl s.ws
  | some i =>
      have hquery := Untouched.underConfig? s.config
        (Untouched.lookup · i p) s.ws
      dsimp only
      unfold act
      generalize (Workspace.underConfig? s.config
        (Workspace.lookup i p)).on s.ws = done at hquery ⊢
      obtain ⟨fault | answer, ws'⟩ := done
      · exact hquery.trans (.noted ws' _)
      · exact hquery

theorem untouched_rebuildAll (s : Service) :
    Untouched s.ws s.rebuildAll.2.ws :=
  .underConfig? s.config
    (fun ws => Act.Keeps.forM
      (fun i _ => keeps_untouched (Untouched.rebuild · i)) ws (.refl ws))
    s.ws

end Service

namespace Program

open Workspace

-- ============================================================ the theorem

/-- Whatever a program does, and wherever it fails, it stays within the
block that it runs in. -/
theorem staysInside (program : Program) (ws : Workspace) :
    StaysInside ws (program.work.on ws).2 := by
  induction program generalizing ws with
  | skip => exact (Untouched.refl ws).staysInside
  | set config => exact ⟨rfl, (Untouched.refl ws).trace⟩
  | reset => exact ⟨rfl, (Untouched.refl ws).trace⟩
  | fail fault => exact (Untouched.refl ws).staysInside
  | lookup s buffer p =>
      exact (({ s with ws } : Service).untouched_lookup buffer p).staysInside
  | refresh s =>
      exact (({ s with ws } : Service).untouched_rebuildAll).staysInside
  | andThen first second ihFirst ihSecond =>
      have hfirst := ihFirst ws
      unfold work
      rw [Act.on_bind]
      rcases hon : first.work.on ws with ⟨fault | _, ws'⟩
      · rw [hon] at hfirst
        exact hfirst
      · rw [hon] at hfirst
        exact hfirst.trans (ihSecond ws')
  | ifThenElse test yes no ihYes ihNo =>
      unfold work
      rw [Act.on_bind, Act.on_get]
      dsimp only
      cases test ws with
      | true => exact ihYes ws
      | false => exact ihNo ws
  | attempt body ih => exact ih ws
  | underConfig config body ih =>
      exact (Untouched.underConfig (ih (ws.under config))).staysInside
  | metered body ih =>
      have hbody := ih ws.metering
      unfold work
      rw [Act.on_bind, on_metered hbody]
      exact hbody.onMeters

/-- Blocks nest, whatever programs they are made of. A block under a
configuration comes to what its body comes to under that configuration, a
fault included, and ends in the configuration in which it began. A
counting block comes to what its body comes to, counted by itself, and
ends with the counters with which it began, the values of all of them
included. A service that answers a query or builds its caches anew, under
a configuration of its own or not, goes through or fails in the
configuration of its caller. -/
theorem blocks_nest :
    (∀ config body ws, (underConfig config body).work.on ws
        = ((body.work.on (ws.under config)).1,
          { (body.work.on (ws.under config)).2 with config := ws.config }))
      ∧ (∀ body ws, (metered body).work.on ws
        = ((body.work.on ws.metering).1,
          (body.work.on ws.metering).2.onMeters fun _ => ws.trace.meters))
      ∧ (∀ (s : Service) buffer p,
        (s.lookup buffer p).2.ws.config = s.ws.config)
      ∧ ∀ s : Service, s.rebuildAll.2.ws.config = s.ws.config := by
  refine ⟨?_, ?_, ?_, ?_⟩
  · intro config body ws
    exact on_underConfig (body.staysInside (ws.under config))
  · intro body ws
    show ((do
      let (result, _) ← Workspace.metered body.work
      result) : Act Unit).on ws = _
    rw [Act.on_bind, on_metered (body.staysInside ws.metering)]
    rfl
  · exact fun s buffer p => (s.untouched_lookup buffer p).config
  · exact fun s => s.untouched_rebuildAll.config

end Program

end Relex
