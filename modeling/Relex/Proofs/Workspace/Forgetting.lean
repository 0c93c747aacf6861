/-
A full build forgets the past.

Building does not clear the cache first: each line is entered in the
state that stands above it in the very cache that is being overwritten.
Nothing of what stood there can come through all the same. The first line
is entered in the initial state whatever the cache is, and after that
every line is entered in the state stored just before, so what is read is
always what was written (`get?_retold`, where the cache is an arbitrary
one). Entries past the last line are never read, and are cut off in the
end.

So building, rebuilding and taking a tokenizer come to the same cache,
and leave no trace of which of them it was or of how often it was done,
except in the trace of what the engine was told.
-/
import Mathlib
import Relex.Proofs.Convergence
import Relex.Proofs.Workspace.Equivalence
import Relex.Proofs.Workspace.Unfailing

namespace Relex

namespace Reparse

open StateCache

variable {d : Document} {e : Engine} {b : Bench}

/-- Building leaves the full build, whatever the cache was. -/
theorem ends_build_anew (he : e.Total) {states : List TokenState}
    (hb : e.fullBuild .none d.lines = .ok states) :
    Ends (build d e) b
      (fun _ b' => b'.cache = ⟨states.map some⟩) (fun _ _ => False) := by
  have hcount : d.lines.length = d.lineCount := rfl
  have hlen : states.length = d.lines.length := Engine.length_fullBuild hb
  refine .bind ((ends_retokenizeAll_retold he (i := 0) (by omega)
    fun j hj hjd => absurd hjd (by omega)).mono ?_ fun _ _ h => h)
  rintro _ b' ⟨hcache, -⟩
  rw [List.drop_zero, ← hcount, List.take_length] at hcache
  refine .bind (.onCache (.onTrace (congrArg StateCache.mk
    (entries_of_get? (b'.cache.take d.lineCount) ?_ fun i hi => ?_))))
  · rw [size_take, hlen]
    exact Nat.min_le_left _ _
  · have hget := get?_retold (c := b.cache) (i := 0) hb (j := i) (by omega)
    rw [Nat.zero_add] at hget
    rw [get?_take, if_pos (by omega), hcache, hget]

end Reparse

namespace Workspace

variable {ws : Workspace} {c : Nat} {k : Controller} {d : Document}
  {t : Engine.Tokenizer} {states : List TokenState}

/-- A controller that keeps up holds the full build and nothing else. -/
theorem KeepsUp.cache_eq (h : KeepsUp k d.lines)
    (ht : k.tokenizer = some t)
    (hb : t.engine.fullBuild .none d.lines = .ok states) :
    k.cache = ⟨states.map some⟩ :=
  congrArg StateCache.mk ((h t ht).entries_eq hb)

theorem build_anew (hseat : ws.seat? c = some (k, d))
    (ht : k.tokenizer = some t) (he : t.engine.Total)
    (hb : t.engine.fullBuild .none d.lines = .ok states) :
    ∃ trace, (build c).on ws
      = (.ok (), ws.leave c ⟨⟨states.map some⟩, trace⟩) := by
  have hends : Ends (Reparse.build d t.engine) ⟨k.cache, ws.trace⟩ _ _ :=
    Reparse.ends_build_anew he hb
  obtain ⟨_, ⟨cache, trace⟩, hon, hcache⟩ := hends.exists_ok
  obtain rfl : cache = ⟨states.map some⟩ := hcache
  refine ⟨trace, ?_⟩
  unfold build
  rw [whenReady_of_ready hseat ht,
    show (Reparse.build d t.engine).on _ = _ from hon]

theorem rebuild_anew (hseat : ws.seat? c = some (k, d))
    (ht : k.tokenizer = some t) (he : t.engine.Total)
    (hb : t.engine.fullBuild .none d.lines = .ok states) :
    ∃ trace, (rebuild c).on ws
      = (.ok (), ws.leave c ⟨⟨states.map some⟩, trace⟩) := by
  obtain ⟨⟨cache, trace⟩, hon, hkeeps, -⟩ := rebuild_on hseat fun u hu =>
    Option.some.inj (ht.symm.trans hu) ▸ he
  obtain rfl : cache = ⟨states.map some⟩ := hkeeps.cache_eq ht hb
  exact ⟨trace, hon⟩

-- ========================================================= the theorem

/-- A controller with an engine that never fails, and any cache at all:
of any length, with gaps in it, with states from anywhere. Building
leaves a set entry for each line, together the full build, and so does
rebuilding; nothing else is changed but the trace. Having built anew,
building anew changes only the trace, and so it is whenever the cache was
the full build already. A controller in use that is given a tokenizer
holds the full build of that. -/
theorem full_build_forgets (hseat : ws.seat? c = some (k, d)) :
    (∀ t, k.tokenizer = some t → t.engine.Total →
      ∃ states, t.engine.fullBuild .none d.lines = .ok states
        ∧ states.length = d.lineCount
        ∧ (∃ trace, (build c).on ws
          = (.ok (), ws.leave c ⟨⟨states.map some⟩, trace⟩))
        ∧ (∃ trace, (rebuild c).on ws
          = (.ok (), ws.leave c ⟨⟨states.map some⟩, trace⟩))
        ∧ (∀ trace, ∃ trace',
          (rebuild c).on (ws.leave c ⟨⟨states.map some⟩, trace⟩)
            = (.ok (), ws.leave c ⟨⟨states.map some⟩, trace'⟩))
        ∧ (k.cache = ⟨states.map some⟩ →
          ∃ trace, (rebuild c).on ws = (.ok (), { ws with trace })))
      ∧ (k.disposed = false → ∀ t : Engine.Tokenizer, t.engine.Total →
        ∃ states trace, t.engine.fullBuild .none d.lines = .ok states
          ∧ states.length = d.lineCount
          ∧ (equip c (some t)).on ws
            = (.ok (), { ws.modifyController c fun k => { k with
                tokenizer := some t, cache := ⟨states.map some⟩ } with
              trace })) := by
  refine ⟨fun t ht he => ?_, fun hlive t he => ?_⟩
  · obtain ⟨states, hb⟩ := he.exists_fullBuild .none d.lines
    refine ⟨states, hb, Engine.length_fullBuild hb,
      build_anew hseat ht he hb, rebuild_anew hseat ht he hb, ?_, ?_⟩
    · intro trace
      obtain ⟨trace', hon⟩ :=
        rebuild_anew (seat?_leave hseat ⟨⟨states.map some⟩, trace⟩)
          ht he hb
      rw [leave_leave] at hon
      exact ⟨trace', hon⟩
    · -- a second build finds what it is about to leave
      intro hcache
      obtain ⟨trace, hon⟩ := rebuild_anew hseat ht he hb
      rw [← hcache, leave_cache (seat?_eq_some.1 hseat).1] at hon
      exact ⟨trace, hon⟩
  · obtain ⟨states, hb⟩ := he.exists_fullBuild .none d.lines
    obtain ⟨⟨cache, trace⟩, hon, hkeeps⟩ := equip_on hseat hlive he
    obtain rfl : cache = ⟨states.map some⟩ := hkeeps.cache_eq rfl hb
    exact ⟨states, trace, hb, Engine.length_fullBuild hb, hon⟩

/-- A workspace with a controller of two lines, and a cache that is no
build of them: too long, with a gap, and with another engine's states. -/
def littered : Workspace :=
  { watched "\x7b\na" with
    controllers := [⟨0, some ⟨0, .depth⟩, ⟨[some (.text "x"), none,
      some (.number 7)]⟩, none, false⟩] }

theorem full_build_forgets_litter :
    (∃ trace, (build 0).on littered = (.ok (), littered.leave 0
        ⟨⟨[some (.number 1), some (.number 1)]⟩, trace⟩))
      ∧ (∃ trace, (equip 0 (some ⟨1, .blank⟩)).on littered
        = (.ok (), { littered.modifyController 0 fun k => { k with
            tokenizer := some ⟨1, .blank⟩
            cache := ⟨[some .none, some .none]⟩ } with trace })) := by
  have hseat : littered.seat? 0 = some (⟨0, some ⟨0, .depth⟩,
      ⟨[some (.text "x"), none, some (.number 7)]⟩, none, false⟩,
      .new "untitled:document" "plaintext" "\x7b\na".toList) := by cbv
  obtain ⟨hready, hequip⟩ := full_build_forgets hseat
  obtain ⟨states, hb, -, hbuild, -⟩ :=
    hready ⟨0, .depth⟩ rfl Engine.total_depth
  obtain ⟨states', trace', hb', -, hgiven⟩ :=
    hequip rfl ⟨1, .blank⟩ fun _ _ => ⟨_, rfl⟩
  have hdepth : Engine.depth.fullBuild .none ["\x7b".toList, "a".toList]
      = .ok [.number 1, .number 1] := by cbv
  have hblank : Engine.blank.fullBuild .none ["\x7b".toList, "a".toList]
      = .ok [.none, .none] := by cbv
  obtain rfl := Except.ok.inj (hb.symm.trans hdepth)
  obtain rfl := Except.ok.inj (hb'.symm.trans hblank)
  exact ⟨hbuild, trace', hgiven⟩

end Workspace

end Relex
