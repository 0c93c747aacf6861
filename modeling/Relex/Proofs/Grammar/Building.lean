/-
What a lexer is built of.

Building compiles what the grammar writes, part by part: a context for
each block, and in each context, as outside of all, a candidate for each
rule in force (`Built`, `Tried`). What comes of it is said here once; who
needs to know what a lexer's part was made of never opens the building
again.
-/
import Relex.Grammar.Lexer
import Relex.Proofs.Grammar.Written

namespace Relex

/-- What a rule is tried by, and what happens where that matches; an
inclusion has neither. -/
def Rule.trigger? : Rule → Option (String × Grammar.Action)
  | .single pattern scope => some (pattern, .classify scope)
  | .block name opening _ _ _ => some (opening, .enter name)
  | .inclusion _ => none

namespace Grammar

open Pattern (Compiler)

-- ============================================================== passes

section

variable {ε α β : Type}

/-- What comes of one step after another went through comes of the second,
and of the first before it. -/
theorem bind_eq_ok {x : Except ε α} {f : α → Except ε β} {b : β}
    (h : x >>= f = .ok b) : ∃ a, x = .ok a ∧ f a = .ok b := by
  cases x with
  | error e => cases h
  | ok a => exact ⟨a, rfl, h⟩

/-- What fails of one step after another is the first, or else the second
after it. -/
theorem bind_eq_error {x : Except ε α} {f : α → Except ε β} {e : ε}
    (h : x >>= f = .error e) :
    x = .error e ∨ ∃ a, x = .ok a ∧ f a = .error e := by
  cases x with
  | error e' =>
      cases h
      exact .inl rfl
  | ok a => exact .inr ⟨a, rfl, h⟩

/-- A pass over a list that went through went through at each element. -/
theorem map_eq_of_mapM {f : α → Except ε β} {l : List α} {r : List β}
    (h : l.mapM f = .ok r) : l.map f = r.map .ok := by
  induction l generalizing r with
  | nil =>
      cases h
      rfl
  | cons a l ih =>
      rw [List.mapM_cons] at h
      obtain ⟨first, hfirst, h⟩ := bind_eq_ok h
      obtain ⟨rest, hrest, h⟩ := bind_eq_ok h
      cases h
      rw [List.map_cons, List.map_cons, hfirst, ih hrest]

/-- A pass over a list that failed failed at one of the elements. -/
theorem exists_of_mapM_error {f : α → Except ε β} {l : List α} {e : ε}
    (h : l.mapM f = .error e) : ∃ a ∈ l, f a = .error e := by
  induction l with
  | nil => cases h
  | cons a l ih =>
      rw [List.mapM_cons] at h
      rcases bind_eq_error h with hfirst | ⟨first, -, h⟩
      · exact ⟨a, by simp, hfirst⟩
      · rcases bind_eq_error h with hrest | ⟨rest, -, h⟩
        · obtain ⟨a', ha', hfail⟩ := ih hrest
          exact ⟨a', by simp [ha'], hfail⟩
        · cases h

/-- What is at the same place in two lists that look the same through
two functions. -/
theorem exists_of_map_eq {γ : Type} {f : α → γ} {g : β → γ} {l : List α}
    {r : List β} (h : l.map f = r.map g) {i : Nat} {a : α}
    (ha : l[i]? = some a) : ∃ b, r[i]? = some b ∧ f a = g b := by
  have hi : (l.map f)[i]? = (r.map g)[i]? := by rw [h]
  rw [List.getElem?_map, List.getElem?_map, ha] at hi
  obtain ⟨b, hb, hg⟩ := Option.map_eq_some_iff.1 hi.symm
  exact ⟨b, hb, hg.symm⟩

/-- What is seen of the answers of a pass over a list is what is seen of
the elements, if that is so of each. -/
theorem map_of_mapM {γ : Type} {f : α → Except ε β} {l : List α}
    {r : List β} (h : l.mapM f = .ok r) (seen : β → γ) (shown : α → γ)
    (hf : ∀ a b, f a = .ok b → seen b = shown a) :
    r.map seen = l.map shown := by
  have hmap := map_eq_of_mapM h
  apply List.ext_getElem?
  intro i
  rw [List.getElem?_map, List.getElem?_map]
  cases hr : r[i]? with
  | some b =>
      obtain ⟨a, ha, hfa⟩ := exists_of_map_eq hmap.symm hr
      simp [ha, hf a b hfa.symm]
  | none =>
      cases hl : l[i]? with
      | none => rfl
      | some a =>
          obtain ⟨b, hb, -⟩ := exists_of_map_eq hmap hl
          rw [hr] at hb
          cases hb

end

-- ========================================================== candidates

variable {g : Grammar} {compiler : Compiler} {blocks : List Block}
  {lx : Lexer}

/-- The candidate was made for the rule. -/
def Candidate.Tries (g : Grammar) (compiler : Compiler) (c : Candidate)
    (r : Rule) : Prop :=
  ∃ pattern, r.trigger? = some (pattern, c.action)
    ∧ Lexer.compile g compiler pattern = .ok c.matcher

/-- The candidates were made for the rules, one by one. -/
structure Tried (g : Grammar) (compiler : Compiler)
    (found : List Candidate) (rules : List Rule) : Prop where
  rule : ∀ (i : Nat) (c : Candidate), found[i]? = some c →
    ∃ r, rules[i]? = some r ∧ c.Tries g compiler r
  candidate : ∀ (i : Nat) (r : Rule), rules[i]? = some r →
    ∃ c : Candidate, found[i]? = some c ∧ c.Tries g compiler r

/-- One rule with its inclusion resolved. -/
def resolveOne (scope : String) (blocks : List Block)
    (self : Except GrammarFault (List (String × Action))) :
    Rule → Except GrammarFault (List (String × Action))
  | .single pattern scope => .ok [(pattern, .classify scope)]
  | .block name opening _ _ _ => .ok [(opening, .enter name)]
  | .inclusion name =>
    if name = Rule.selfName then self
    else match blocks.find? (·.name = name) with
      | some b => .ok [(b.opening, .enter name)]
      | none => .error ⟨scope, .unknownInclude name⟩

section

variable {scope : String} {rules rest : List Rule} {r : Rule}
  {self : Except GrammarFault (List (String × Action))}
  {actions : List (String × Action)}

/-- Inclusions are resolved rule by rule. -/
theorem resolve_cons :
    resolve scope blocks self (r :: rest) = (do
      let first ← resolveOne scope blocks self r
      let others ← resolve scope blocks self rest
      return first ++ others) := by
  rw [resolve.eq_def]
  cases r with
  | single pattern scope => rfl
  | block name opening closing scope rules => rfl
  | inclusion name =>
      unfold resolveOne
      dsimp only
      split
      · rfl
      · cases blocks.find? (·.name = name) <;> rfl

/-- Resolving a rule comes to the triggers of what it stands for. -/
theorem triggers_resolveOne (own : List Rule)
    (hblocks : g.blocks = .ok blocks)
    (hself : ∀ actions, self = .ok actions →
      own.map Rule.trigger? = actions.map some)
    (h : resolveOne scope blocks self r = .ok actions) :
    (g.expand own [r]).map Rule.trigger? = actions.map some := by
  unfold expand
  rw [List.flatMap_singleton]
  cases r with
  | single pattern scope =>
      cases h
      rfl
  | block name opening closing scope rules =>
      cases h
      rfl
  | inclusion name =>
      rw [resolveOne] at h
      by_cases hname : name = Rule.selfName
      · rw [if_pos hname] at h
        simpa [hname] using hself actions h
      · rw [if_neg hname, find?_blocks hblocks] at h
        cases hb : g.block? name with
        | none =>
            rw [hb] at h
            cases h
        | some b =>
            rw [hb] at h
            cases h
            simp [hname, hb, Block.rule, Rule.trigger?, name_of_block? hb]

/-- Resolving inclusions comes to the triggers of the expanded rules. -/
theorem triggers_resolve (own : List Rule)
    (hblocks : g.blocks = .ok blocks)
    (hself : ∀ actions, self = .ok actions →
      own.map Rule.trigger? = actions.map some)
    (h : resolve scope blocks self rules = .ok actions) :
    (g.expand own rules).map Rule.trigger? = actions.map some := by
  induction rules generalizing actions with
  | nil =>
      cases h
      rfl
  | cons r rest ih =>
      rw [resolve_cons] at h
      obtain ⟨first, hfirst, h⟩ := bind_eq_ok h
      obtain ⟨others, hothers, h⟩ := bind_eq_ok h
      cases h
      have hcons : g.expand own (r :: rest)
          = g.expand own [r] ++ g.expand own rest := by
        simp [expand]
      rw [hcons, List.map_append, List.map_append, ih hothers,
        triggers_resolveOne own hblocks hself hfirst]

end

/-- Candidates are made for the rules in force. -/
theorem tried_candidates (hblocks : g.blocks = .ok blocks)
    {rules : List Rule} {found : List Candidate}
    (h : Lexer.candidates g compiler blocks rules = .ok found) :
    Tried g compiler found (g.expanded rules) := by
  unfold Lexer.candidates at h
  obtain ⟨actions, hactions, h⟩ := bind_eq_ok h
  have htriggers := triggers_resolve _ hblocks
    (fun _ => triggers_resolve [] hblocks (by simp)) hactions
  have hmade := map_eq_of_mapM h
  have htries : ∀ (a : String × Action) (c : Candidate) (r : Rule),
      r.trigger? = some a → (do
        return (⟨← Lexer.compile g compiler a.1, a.2⟩ : Candidate))
          = .ok c →
      c.Tries g compiler r := by
    intro a c r hr hc
    obtain ⟨matcher, hmatcher, hc⟩ := bind_eq_ok hc
    cases hc
    exact ⟨a.1, hr, hmatcher⟩
  constructor
  · intro i c hc
    obtain ⟨a, ha, hmake⟩ := exists_of_map_eq hmade.symm hc
    obtain ⟨r, hr, htrigger⟩ := exists_of_map_eq htriggers.symm ha
    exact ⟨r, hr, htries a c r htrigger.symm hmake.symm⟩
  · intro i r hr
    obtain ⟨a, ha, htrigger⟩ := exists_of_map_eq htriggers hr
    obtain ⟨c, hc, hmake⟩ := exists_of_map_eq hmade ha
    exact ⟨c, hc, htries a c r htrigger hmake⟩

/-- The blocks of the grammar that a state tells of, the innermost
first. -/
def opened (g : Grammar) : TokenState → List Block
  | .stack s => (s.frames.filterMap g.block?).reverse
  | _ => []

-- ============================================================== lexers

namespace Lexer

/-- The lexer is what comes of building one for the grammar. -/
structure Built (g : Grammar) (compiler : Compiler) (lx : Lexer) :
    Prop where
  grammar : lx.grammar = g
  blocks : g.blocks = .ok (lx.contexts.map (·.block))
  root : Tried g compiler lx.root (g.expanded g.rules)
  closing : ∀ f ∈ lx.contexts,
    compile g compiler f.block.closing = .ok f.closing
  inside : ∀ f ∈ lx.contexts,
    Tried g compiler f.candidates (g.expanded f.block.rules)

theorem exists_build (h : (build g compiler).toOption.isSome = true) :
    ∃ lx, build g compiler = .ok lx := by
  cases hbuild : build g compiler with
  | error fault =>
      rw [hbuild] at h
      cases h
  | ok lx => exact ⟨lx, rfl⟩

/-- Each stage of building went through, with the blocks of the contexts
as the blocks. -/
theorem parts_of_build (h : build g compiler = .ok lx) :
    lx.grammar = g ∧ ∃ blocks, g.blocks = .ok blocks
      ∧ lx.contexts.map (·.block) = blocks
      ∧ candidates g compiler blocks g.rules = .ok lx.root
      ∧ ∀ f ∈ lx.contexts,
        compile g compiler f.block.closing = .ok f.closing
          ∧ candidates g compiler blocks f.block.rules
            = .ok f.candidates := by
  unfold build at h
  obtain ⟨blocks, hblocks, h⟩ := bind_eq_ok h
  obtain ⟨closings, hclosings, h⟩ := bind_eq_ok h
  obtain ⟨root, hroot, h⟩ := bind_eq_ok h
  obtain ⟨contexts, hcontexts, h⟩ := bind_eq_ok h
  cases h
  have hclosed := map_eq_of_mapM hclosings
  have hlength : blocks.length = closings.length := by
    simpa using congrArg List.length hclosed
  refine ⟨rfl, blocks, hblocks, ?_, hroot, ?_⟩
  · -- there is a context for each block
    rw [map_of_mapM hcontexts (·.block) (·.1) ?_]
    · exact List.map_fst_zip (Nat.le_of_eq hlength)
    · intro pair f hf
      obtain ⟨found, -, hf⟩ := bind_eq_ok hf
      cases hf
      rfl
  · intro f hf
    obtain ⟨i, hi⟩ := List.getElem?_of_mem hf
    obtain ⟨pair, hpair, hmade⟩ :=
      exists_of_map_eq (map_eq_of_mapM hcontexts).symm hi
    obtain ⟨found, hfound, hmade⟩ := bind_eq_ok hmade.symm
    cases hmade
    obtain ⟨hb, hclosing⟩ := List.getElem?_zip_eq_some.1 hpair
    obtain ⟨closing, hsame, hcompile⟩ := exists_of_map_eq hclosed hb
    rw [hclosing] at hsame
    cases hsame
    exact ⟨hcompile, hfound⟩

/-- A lexer that could be built was built of the grammar's parts. -/
theorem built_of_build (h : build g compiler = .ok lx) :
    lx.Built g compiler := by
  obtain ⟨hgrammar, blocks, hblocks, hcover, hroot, hparts⟩ :=
    parts_of_build h
  refine ⟨hgrammar, ?_, tried_candidates hblocks hroot,
    fun f hf => (hparts f hf).1,
    fun f hf => tried_candidates hblocks (hparts f hf).2⟩
  rw [hblocks, hcover]

variable {name : String} {f : Context}

/-- The context that a name is looked up to is that of its block. -/
theorem Built.map_context? (h : lx.Built g compiler) (name : String) :
    (lx.context? name).map (·.block) = g.block? name := by
  rw [← find?_blocks h.blocks, List.find?_map]
  rfl

/-- Contexts are those of blocks that are written. -/
theorem Built.mem_written (h : lx.Built g compiler) (hf : f ∈ lx.contexts) :
    f.block ∈ g.written :=
  (mem_blocks_iff h.blocks).1 (List.mem_map_of_mem hf)

/-- Blocks are entered only where there is a context for them. -/
theorem mem_contexts_of_entered {s : TokenState}
    (hf : f ∈ lx.entered s) : f ∈ lx.contexts := by
  cases s with
  | stack s =>
      obtain ⟨name, -, hname⟩ :=
        List.mem_filterMap.1 (List.mem_reverse.1 hf)
      exact List.mem_of_find?_eq_some hname
  | _ => cases hf

/-- The contexts a state is entered with are those of the blocks it tells
of. -/
theorem Built.map_entered (h : lx.Built g compiler) (s : TokenState) :
    (lx.entered s).map (·.block) = g.opened s := by
  cases s with
  | stack s =>
      unfold entered opened
      rw [List.map_reverse, List.map_filterMap]
      simp only [h.map_context?]
  | _ => rfl

/-- A block that is written has a context. -/
theorem Built.exists_context? (h : lx.Built g compiler) {b : Block}
    (hb : b ∈ g.written) :
    ∃ f, lx.context? b.name = some f ∧ f.block = b := by
  have hmap := h.map_context? b.name
  rw [block?_of_mem h.blocks hb] at hmap
  exact Option.map_eq_some_iff.1 hmap

end Lexer

end Grammar

end Relex
