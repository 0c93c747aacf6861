/-
A grammar's own rules, included among themselves.

An inclusion may stand for the grammar's own rules, also where these are
written. There the rules are expanded once more, and the inclusion among
them adds nothing then; so outside of all blocks every rule is tried
twice, in an order that depends on where the inclusion is written. That
makes no difference:

- What is tried is the same, in the same order, if only first occurrences
  count (`eraseDups_resolve`). A rule in front of the inclusion comes
  first anyway, and one behind it comes where the expansion has it, which
  is behind what is in front.
- Only first occurrences count (`foldl_eraseDups`): of hits that start at
  one place the first one found is taken, so that a hit that has been
  looked at once is never taken later.

Inside a block an inclusion of the grammar's own rules adds them just as
they are without the one among themselves. So the grammar without that
inclusion (`withoutSelf`) has the same lexer, but for what is tried twice
(`self_among_own_rules`).
-/
import Mathlib
import Relex.Proofs.Grammar.Rounds

namespace Relex.Grammar

open Pattern (Compiler)

/-- The grammar without the inclusions of its own rules among them. -/
def withoutSelf (g : Grammar) : Grammar :=
  { g with rules := g.rules.filter (· ≠ .inclusion Rule.selfName) }

-- ================================================= first occurrences

section

variable {α β : Type} [BEq α] [LawfulBEq α] {as bs : List α}

/-- What has occurred adds no first occurrence. -/
theorem eraseDups_append_of_subset (h : bs ⊆ as) :
    (as ++ bs).eraseDups = as.eraseDups := by
  have hnone : bs.removeAll as = [] := by
    rw [List.removeAll, List.filter_eq_nil_iff]
    intro b hb
    simpa using h hb
  rw [List.eraseDups_append, hnone, List.eraseDups_nil, List.append_nil]

/-- Starting again adds no first occurrence. -/
theorem eraseDups_append_append :
    (as ++ (as ++ bs)).eraseDups = (as ++ bs).eraseDups := by
  have hsame : bs.removeAll (as ++ as) = bs.removeAll as := by
    simp [List.removeAll]
  rw [← List.append_assoc, List.eraseDups_append,
    eraseDups_append_of_subset (List.Subset.refl as), hsame,
    ← List.eraseDups_append]

variable {f : β → α → β} {b : β} {a : α} {l : List α}

/-- What changes nothing now, and nothing later, can be left out. -/
theorem foldl_filter_ne
    (hkeeps : ∀ b a c, f b a = b → f (f b c) a = f b c) (h : f b a = b) :
    (l.filter fun c => !c == a).foldl f b = l.foldl f b := by
  induction l generalizing b with
  | nil => rfl
  | cons c l ih =>
      by_cases hc : c = a
      · simpa [hc, h] using ih h
      · simpa [hc] using ih (hkeeps b a c h)

/-- Where something that has been gone through changes nothing any more,
only first occurrences count. -/
theorem foldl_eraseDups (hagain : ∀ b a, f (f b a) a = f b a)
    (hkeeps : ∀ b a c, f b a = b → f (f b c) a = f b c) :
    l.eraseDups.foldl f b = l.foldl f b := by
  induction hn : l.length using Nat.strong_induction_on
    generalizing l b with
  | _ n ih =>
    cases l with
    | nil => rfl
    | cons a l =>
        have hshort : (l.filter fun c => !c == a).length < n := by
          rw [← hn, List.length_cons]
          exact Nat.lt_succ_of_le (List.length_filter_le _ _)
        rw [List.eraseDups_cons, List.foldl_cons, List.foldl_cons,
          ih _ hshort rfl, foldl_filter_ne hkeeps (hagain b a)]

end

-- ============================================================== hits

section

variable {size pos depth : Nat} {x y z : Option (Hit size pos depth)}

/-- A hit is not taken the second time. -/
theorem Hit.earlier_again :
    earlier (earlier x y) y = earlier x y := by
  cases x with
  | none => cases y <;> simp [earlier]
  | some a =>
      cases y with
      | none => rfl
      | some b =>
          by_cases hlt : b.span.start < a.span.start
          · simp [earlier, hlt]
          · simp [earlier, hlt]

/-- A hit that was not taken is not taken later. -/
theorem Hit.earlier_keeps (h : earlier x y = x) :
    earlier (earlier x z) y = earlier x z := by
  cases y with
  | none => cases hxz : earlier x z <;> rfl
  | some b =>
      cases x with
      | none => cases h
      | some a =>
          have hle : ¬b.span.start < a.span.start := by
            intro hlt
            have hba : b = a := by simpa [earlier, hlt] using h
            rw [hba] at hlt
            exact Nat.lt_irrefl _ hlt
          cases z with
          | none => exact h
          | some c =>
              by_cases hlt : c.span.start < a.span.start
              · have hcb : ¬b.span.start < c.span.start := by omega
                simp [earlier, hlt, hcb]
              · simp [earlier, hlt, hle]

end

-- ======================================================== inclusions

variable {g : Grammar} {compiler : Compiler} {scope : String}
  {blocks : List Block} {rules : List Rule}

/-- An inclusion is of no block that is written. -/
theorem collectAll_withoutSelf {known : List Block} :
    collectAll scope known (rules.filter (· ≠ .inclusion Rule.selfName))
      = collectAll scope known rules := by
  induction rules generalizing known with
  | nil => rfl
  | cons r rest ih =>
      by_cases hr : r = .inclusion Rule.selfName
      · simpa [hr, collectAll, collect] using ih
      · rw [List.filter_cons_of_pos (by simpa using hr), collectAll,
          collectAll]
        cases collect scope known r with
        | error e => rfl
        | ok known' => exact ih

section

variable {self self' : Except GrammarFault (List (String × Action))}
  {r : Rule} {own found found' actions : List (String × Action)}

/-- What a rule stands for depends on the grammar's own rules only if it
is their inclusion. -/
theorem resolveOne_of_ne (h : r ≠ .inclusion Rule.selfName) :
    resolveOne scope blocks self r = resolveOne scope blocks self' r := by
  cases r with
  | inclusion name =>
      have hname : name ≠ Rule.selfName := by
        intro he
        exact h (by rw [he])
      rw [resolveOne, resolveOne, if_neg hname, if_neg hname]
  | _ => rfl

theorem resolveOne_self :
    resolveOne scope blocks self (.inclusion Rule.selfName) = self := by
  rw [resolveOne, if_pos rfl]

/-- Where the inclusions of the grammar's own rules are left out, they add
nothing. -/
theorem resolve_withoutSelf :
    resolve scope blocks self
        (rules.filter (· ≠ .inclusion Rule.selfName))
      = resolve scope blocks (.ok []) rules := by
  induction rules with
  | nil => rfl
  | cons r rest ih =>
      rw [resolve_cons]
      by_cases hr : r = .inclusion Rule.selfName
      · rw [List.filter_cons_of_neg (by simpa using hr), ih, hr,
          resolveOne_self]
        cases resolve scope blocks (.ok []) rest <;> rfl
      · rw [List.filter_cons_of_pos (by simpa using hr), resolve_cons, ih,
          resolveOne_of_ne hr]

/-- Rules that can be resolved can be so without the grammar's own. -/
theorem exists_resolve_nil
    (h : resolve scope blocks self rules = .ok found) :
    ∃ actions, resolve scope blocks (.ok []) rules = .ok actions := by
  induction rules generalizing found with
  | nil => exact ⟨[], rfl⟩
  | cons r rest ih =>
      rw [resolve_cons] at h
      obtain ⟨first, hfirst, h⟩ := bind_eq_ok h
      obtain ⟨others, hothers, -⟩ := bind_eq_ok h
      obtain ⟨actions, hactions⟩ := ih hothers
      rw [resolve_cons, hactions]
      by_cases hr : r = .inclusion Rule.selfName
      · rw [hr, resolveOne_self]
        exact ⟨_, rfl⟩
      · rw [resolveOne_of_ne hr, hfirst]
        exact ⟨_, rfl⟩

/-- Whatever the rules are resolved to is one of the grammar's own, or is
there without these. -/
theorem resolve_subset
    (hactions : resolve scope blocks (.ok []) rules = .ok actions)
    (hfound : resolve scope blocks (.ok own) rules = .ok found) :
    found ⊆ own ++ actions := by
  induction rules generalizing actions found with
  | nil =>
      cases hfound
      exact List.nil_subset _
  | cons r rest ih =>
      rw [resolve_cons] at hactions hfound
      obtain ⟨first, hfirst, hactions⟩ := bind_eq_ok hactions
      obtain ⟨others, hothers, hactions⟩ := bind_eq_ok hactions
      cases hactions
      obtain ⟨first', hfirst', hfound⟩ := bind_eq_ok hfound
      obtain ⟨others', hothers', hfound⟩ := bind_eq_ok hfound
      cases hfound
      have hlater := ih hothers hothers'
      by_cases hr : r = .inclusion Rule.selfName
      · rw [hr, resolveOne_self] at hfirst hfirst'
        cases hfirst
        cases hfirst'
        exact List.append_subset.2 ⟨List.subset_append_left _ _, hlater⟩
      · rw [resolveOne_of_ne hr, hfirst'] at hfirst
        cases hfirst
        intro a ha
        rcases List.mem_append.1 ha with ha | ha
        · simp [ha]
        · rcases List.mem_append.1 (hlater ha) with ha | ha <;> simp [ha]

/-- The grammar's own rules, expanded among themselves, have the first
occurrences that they have without. The induction is on the rules that
are left; those that were gone through resolved to `found` either way. -/
theorem eraseDups_resolve
    (hactions : resolve scope blocks (.ok []) rules = .ok actions)
    (hfound : resolve scope blocks (.ok (found ++ actions)) rules
      = .ok found') :
    (found ++ found').eraseDups = (found ++ actions).eraseDups := by
  induction rules generalizing found actions found' with
  | nil =>
      cases hactions
      cases hfound
      rfl
  | cons r rest ih =>
      rw [resolve_cons] at hactions hfound
      obtain ⟨first, hfirst, hactions⟩ := bind_eq_ok hactions
      obtain ⟨others, hothers, hactions⟩ := bind_eq_ok hactions
      cases hactions
      obtain ⟨first', hfirst', hfound⟩ := bind_eq_ok hfound
      obtain ⟨others', hothers', hfound⟩ := bind_eq_ok hfound
      cases hfound
      by_cases hr : r = .inclusion Rule.selfName
      · -- the rules start again, and nothing new comes after that
        rw [hr, resolveOne_self] at hfirst hfirst'
        cases hfirst
        cases hfirst'
        have hlater := resolve_subset hothers hothers'
        have hknown : others' ⊆ found ++ (found ++ ([] ++ others)) := by
          intro a ha
          have := hlater ha
          simp only [List.mem_append] at this ⊢
          tauto
        rw [← List.append_assoc, eraseDups_append_of_subset hknown,
          eraseDups_append_append]
      · rw [resolveOne_of_ne hr, hfirst'] at hfirst
        cases hfirst
        rw [← List.append_assoc] at hothers'
        rw [← List.append_assoc, ← List.append_assoc]
        exact ih hothers hothers'

end

namespace Lexer

-- ========================================================== candidates

/-- A pattern ready to be tried, with what happens where it matches. -/
def ready (g : Grammar) (compiler : Compiler) (t : String × Action) :
    Except GrammarFault Candidate := do
  return ⟨← compile g compiler t.1, t.2⟩

/-- Two lists of candidates have the same best hit, whatever the text, the
place and the hit there is already. -/
def Alike (made made' : List Candidate) : Prop :=
  ∀ (text : Array Char) (pos depth : Nat)
    (first : Option (Hit text.size pos depth)),
    made.foldl (fun found c => Hit.earlier found (c.hit? text pos _)) first
      = made'.foldl (fun found c => Hit.earlier found (c.hit? text pos _))
        first

/-- Where a pattern matches first; nowhere if it is refused. -/
def offer? (g : Grammar) (compiler : Compiler) (text : Array Char)
    (pos depth : Nat) (t : String × Action) :
    Option (Hit text.size pos depth) :=
  (ready g compiler t).toOption.bind (·.hit? text pos depth)

variable {lx lx' : Lexer} {actions found : List (String × Action)}
  {made made' : List Candidate} {text : Array Char} {pos depth : Nat}

theorem candidates_eq : candidates g compiler blocks rules = (do
    (← g.resolved blocks rules).mapM (ready g compiler)) := rfl

/-- The best of some candidates' hits is the best of what the patterns
have on offer, and only first occurrences of these count. -/
theorem foldl_hit? (h : actions.mapM (ready g compiler) = .ok made)
    (first : Option (Hit text.size pos depth)) :
    made.foldl (fun found c => Hit.earlier found (c.hit? text pos _)) first
      = actions.eraseDups.foldl
        (fun found t =>
          Hit.earlier found (offer? g compiler text pos depth t))
        first := by
  have hsame := map_of_mapM h (fun c => c.hit? text pos depth)
    (offer? g compiler text pos depth)
    fun t c htc => by rw [offer?, htc]; rfl
  calc made.foldl
        (fun found c => Hit.earlier found (c.hit? text pos _)) first
    _ = (made.map fun c => c.hit? text pos depth).foldl Hit.earlier
        first := List.foldl_map.symm
    _ = actions.foldl
        (fun found t =>
          Hit.earlier found (offer? g compiler text pos depth t))
        first := by rw [hsame, List.foldl_map]
    _ = _ := by
        refine (foldl_eraseDups ?_ ?_).symm
        · exact fun _ _ => Hit.earlier_again
        · exact fun _ _ _ => Hit.earlier_keeps

/-- If each of some patterns is among others that are not refused, none of
them is. -/
theorem exists_ready (h : found.mapM (ready g compiler) = .ok made)
    (hsubset : actions ⊆ found) :
    ∃ made', actions.mapM (ready g compiler) = .ok made' := by
  cases hmade : actions.mapM (ready g compiler) with
  | ok made' => exact ⟨made', rfl⟩
  | error e =>
      obtain ⟨t, ht, hrefused⟩ := exists_of_mapM_error hmade
      have hmem : ready g compiler t ∈ found.map (ready g compiler) :=
        List.mem_map_of_mem (hsubset ht)
      rw [map_eq_of_mapM h, hrefused] at hmem
      obtain ⟨c, -, hc⟩ := List.mem_map.1 hmem
      cases hc

-- ============================================================== lexers

/-- Two lexers take the same hits, and make the same of them. -/
structure Agree (lx lx' : Lexer) : Prop where
  scope : lx.grammar.scope = lx'.grammar.scope
  contexts : lx.contexts = lx'.contexts
  hit : ∀ (text : Array Char) (pos : Nat) (frames : List Context),
    lx.hit? text pos frames = lx'.hit? text pos frames

namespace Agree

variable {frames : List Context}

theorem scopes_eq (h : Agree lx lx') :
    lx.scopes frames = lx'.scopes frames := by
  rw [scopes, scopes, h.scope]

theorem context?_eq (h : Agree lx lx') (name : String) :
    lx.context? name = lx'.context? name := by
  rw [context?, context?, h.contexts]

/-- Lexers that agree on each hit agree on the rest of a line. -/
theorem run_eq (h : Agree lx lx') (text : Array Char) (pos : Nat)
    (frames : List Context) :
    lx.run text pos frames = lx'.run text pos frames := by
  induction pos, frames using Lexer.run.induct lx text with
  | case1 pos frames hhit =>
      have hhit' := h.hit text pos frames ▸ hhit
      rw [run.eq_def, run.eq_def lx', hhit, hhit', h.scopes_eq]
  | case2 pos frames span _ moves hhit ih =>
      have hhit' := h.hit text pos frames ▸ hhit
      rw [(Round.closes hhit).run_eq, (Round.closes hhit').run_eq, ih,
        h.scopes_eq]
  | case3 pos frames span scope _ moves hhit ih =>
      have hhit' := h.hit text pos frames ▸ hhit
      rw [(Round.classifies hhit).run_eq, (Round.classifies hhit').run_eq,
        ih, h.scopes_eq]
  | case4 pos frames span name _ hnone moves hhit =>
      have hhit' := h.hit text pos frames ▸ hhit
      have hnone' := h.context?_eq name ▸ hnone
      rw [run.eq_def, run.eq_def lx', hhit, hhit']
      dsimp only
      rw [hnone, hnone']
  | case5 pos frames span name _ c hc moves hhit ih =>
      have hhit' := h.hit text pos frames ▸ hhit
      have hc' := h.context?_eq name ▸ hc
      rw [(Round.enters hhit hc).run_eq, (Round.enters hhit' hc').run_eq,
        ih, h.scopes_eq, h.scopes_eq]

/-- Lexers that agree on each hit answer alike. -/
theorem engine_eq (h : Agree lx lx') (line : Line) (s : TokenState) :
    lx.engine line s = lx'.engine line s := by
  have hentered : lx.entered s = lx'.entered s := by
    cases s with
    | stack s =>
        have hlook : lx.context? = lx'.context? := funext h.context?_eq
        rw [entered, entered, hlook]
    | _ => rfl
  unfold engine
  rw [hentered, h.run_eq]
  simp only [h.scopes_eq]

end Agree

-- ============================================================ building

theorem blocks_withoutSelf : g.withoutSelf.blocks = g.blocks :=
  collectAll_withoutSelf

/-- What is tried where some rules are written does not depend on whether
the grammar's own include themselves. -/
theorem candidates_withoutSelf :
    candidates g.withoutSelf compiler blocks rules
      = candidates g compiler blocks rules := by
  have hown : g.withoutSelf.resolved blocks rules
      = g.resolved blocks rules := by
    unfold resolved
    rw [show g.withoutSelf.rules = g.rules.filter _ from rfl,
      resolve_withoutSelf]
    rfl
  rw [candidates_eq, candidates_eq, hown]
  rfl

/-- Outside of all blocks the same is tried without the inclusion, but
for what is tried twice. -/
theorem exists_root_withoutSelf
    (h : candidates g compiler blocks g.rules = .ok made) :
    ∃ made', candidates g compiler blocks g.withoutSelf.rules = .ok made'
      ∧ Alike made' made := by
  rw [candidates_eq] at h
  obtain ⟨found, hfound, hmade⟩ := bind_eq_ok h
  obtain ⟨actions, hactions⟩ := exists_resolve_nil hfound
  have hresolved : g.resolved blocks g.withoutSelf.rules = .ok actions :=
    resolve_withoutSelf.trans hactions
  rw [resolved, hactions] at hfound
  have hstart : resolve g.scope blocks (.ok ([] ++ actions)) g.rules
      = .ok found := hfound
  have hfirsts : found.eraseDups = actions.eraseDups :=
    eraseDups_resolve hactions hstart
  have hsubset : actions ⊆ found := by
    intro t ht
    rwa [← List.mem_eraseDups, hfirsts, List.mem_eraseDups]
  obtain ⟨made', hmade'⟩ := exists_ready hmade hsubset
  refine ⟨made', ?_, fun text pos depth first =>
    by rw [foldl_hit? hmade', foldl_hit? hmade, hfirsts]⟩
  rw [candidates_eq, hresolved]
  exact hmade'

/-- Without the inclusion there is a lexer as well. The contexts of its
blocks are the same. -/
theorem build_withoutSelf (h : build g compiler = .ok lx) :
    ∃ root, build g.withoutSelf compiler
        = .ok ⟨g.withoutSelf, root, lx.contexts⟩
      ∧ Alike root lx.root := by
  unfold build at h
  obtain ⟨blocks, hblocks, h⟩ := bind_eq_ok h
  obtain ⟨closings, hclosings, h⟩ := bind_eq_ok h
  obtain ⟨made, hmade, h⟩ := bind_eq_ok h
  obtain ⟨contexts, hcontexts, h⟩ := bind_eq_ok h
  cases h
  obtain ⟨root, hroot, hbest⟩ := exists_root_withoutSelf hmade
  refine ⟨root, ?_, hbest⟩
  have hcompile : compile g.withoutSelf compiler = compile g compiler := rfl
  unfold build
  simp only [blocks_withoutSelf, candidates_withoutSelf, hcompile, bind,
    Except.bind] at hcontexts ⊢
  rw [hblocks]
  dsimp only
  rw [hclosings]
  dsimp only
  rw [hroot]
  dsimp only
  rw [hcontexts]
  rfl

-- =========================================================== theorem

/-- Including the grammar's own rules among them makes no difference: the
grammar without that has a lexer that has the same contexts for blocks,
takes the same hit at every place of every text, whatever blocks are
open, and answers alike for every line and every state. -/
theorem self_among_own_rules (h : build g compiler = .ok lx) :
    ∃ lx', build g.withoutSelf compiler = .ok lx'
      ∧ lx'.contexts = lx.contexts
      ∧ (∀ (text : Array Char) (pos : Nat) (frames : List Context),
        lx'.hit? text pos frames = lx.hit? text pos frames)
      ∧ ∀ (line : Line) (s : TokenState),
        lx'.engine line s = lx.engine line s := by
  obtain ⟨root, hbuild, hbest⟩ := build_withoutSelf h
  have hgrammar := (parts_of_build h).1
  have hagree : Agree ⟨g.withoutSelf, root, lx.contexts⟩ lx := by
    refine ⟨by rw [hgrammar]; rfl, rfl, ?_⟩
    intro text pos frames
    cases frames with
    | nil => exact hbest text pos _ none
    | cons top below => rfl
  exact ⟨_, hbuild, rfl, hagree.hit, hagree.engine_eq⟩

/-- The grammar's own rules are included between two that match alike, and
once more inside a block, next to that block itself. -/
def echoing : Grammar :=
  ⟨"source", [.single "b" "front", .inclusion "$self",
    .single "[ab]" "behind",
    .block "nest" "<" ">" "nest" [.inclusion "nest", .inclusion "$self"]],
    [], "echoing"⟩

/-- Outside of all blocks six candidates become three. A `b` is taken by
the rule in front all the same, outside and inside. -/
theorem self_among_own_rules_echoing : ∃ lx lx',
    build echoing = .ok lx ∧ build echoing.withoutSelf = .ok lx'
      ∧ lx.root.length = 6 ∧ lx'.root.length = 3
      ∧ (lx'.engine "b<ab".toList .none).toOption.map (·.tokens)
        = some [⟨0, 1, ["source", "front"]⟩,
          ⟨1, 2, ["source", "nest"]⟩, ⟨2, 3, ["source", "nest", "behind"]⟩,
          ⟨3, 4, ["source", "nest", "front"]⟩]
      ∧ lx.engine "b<ab".toList .none = lx'.engine "b<ab".toList .none := by
  obtain ⟨lx, hlx⟩ : ∃ lx, build echoing = .ok lx :=
    exists_build (by decide +kernel)
  obtain ⟨lx', hlx', -, -, hengine⟩ := self_among_own_rules hlx
  have hroot : (build echoing).toOption.map (·.root.length) = some 6 := by
    decide +kernel
  have hroot' : (build echoing.withoutSelf).toOption.map (·.root.length)
      = some 3 := by
    decide +kernel
  have hrun : ((build echoing.withoutSelf).toOption.bind fun lx =>
      (lx.engine "b<ab".toList .none).toOption.map (·.tokens))
      = some [⟨0, 1, ["source", "front"]⟩,
          ⟨1, 2, ["source", "nest"]⟩, ⟨2, 3, ["source", "nest", "behind"]⟩,
          ⟨3, 4, ["source", "nest", "front"]⟩] := by
    decide +kernel
  rw [hlx] at hroot
  rw [hlx'] at hroot' hrun
  exact ⟨lx, lx', hlx, hlx', Option.some.inj hroot, Option.some.inj hroot',
    hrun, (hengine _ _).symm⟩

end Lexer

end Relex.Grammar
