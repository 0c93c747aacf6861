/-
What building a lexer refuses.

A rule occurs in a grammar if it is one of its own rules or stands inside
a block that occurs, at any depth (`Occurs`). Three things can be wrong
with a grammar, wherever they occur (`Flawed`): two different blocks have
one name, an inclusion names no block, or a pattern is refused.

Building does not walk over the tree of rules in this way. It collects
blocks and passes over those it has collected before; it compiles the
rules of each collected block, does not go on from an inclusion to what
it includes, and the grammar's own rules inside themselves are left out.
It still meets every rule that occurs:

- a rule inside a block stands in a block that is collected, since the
  collected blocks are those that occur (`mem_written_iff`), and a block
  that is passed over has the rules of the one that was collected;
- the rules in force in a context are made of the rules written there and
  of blocks, and each of these is written somewhere (`occurs_expanded`).

So what stops the building is a flaw (`founded_build`), and a grammar that
could be built has none (`not_flawed_of_build`).
-/
import Relex.Proofs.Grammar.Building

namespace Relex

open Rule (allBlocks)

/-- The patterns of a rule. -/
def Rule.patterns : Rule → List String
  | .single pattern _ => [pattern]
  | .block _ opening closing _ _ => [opening, closing]
  | .inclusion _ => []

namespace Grammar

open Pattern (Compiler)

-- ============================================================== the tree

/-- The rule is written somewhere in the grammar. -/
inductive Occurs (g : Grammar) : Rule → Prop
  | own {r} (mem : r ∈ g.rules) : Occurs g r
  | inside {name opening closing scope rules r}
      (block : Occurs g (.block name opening closing scope rules))
      (mem : r ∈ rules) : Occurs g r

/-- What can be wrong with a grammar. -/
inductive Flawed (g : Grammar) (compiler : Compiler) : GrammarCause → Prop
  /-- Two different blocks have one name. -/
  | duplicate {b b' : Block} (first : g.Occurs b.rule)
      (second : g.Occurs b'.rule) (name : b.name = b'.name)
      (differ : b ≠ b') : Flawed g compiler (.duplicateBlock b.name)
  /-- An inclusion stands neither for a block nor for the grammar's own
  rules. -/
  | unknown {name} (inclusion : g.Occurs (.inclusion name))
      (notSelf : name ≠ Rule.selfName)
      (noBlock : ∀ b : Block, g.Occurs b.rule → b.name ≠ name) :
      Flawed g compiler (.unknownInclude name)
  /-- A pattern is refused by the compiler. -/
  | refused {r pattern reason} (rule : g.Occurs r)
      (mem : pattern ∈ r.patterns)
      (refusal : compiler pattern = .error reason) :
      Flawed g compiler (.invalidPattern pattern reason)

/-- The fault names the grammar and a flaw of it. -/
structure Founded (g : Grammar) (compiler : Compiler)
    (fault : GrammarFault) : Prop where
  scope : fault.scope = g.scope
  flawed : g.Flawed compiler fault.cause

variable {g : Grammar} {compiler : Compiler} {lx : Lexer}
  {rules : List Rule} {r : Rule} {b : Block}
  {known all blocks : List Block} {fault : GrammarFault}
  {name pattern scope : String}

/-- The blocks written in one of some rules are written in these. -/
theorem blocks_subset_allBlocks (h : r ∈ rules) :
    r.blocks ⊆ allBlocks rules := by
  induction rules with
  | nil => cases h
  | cons first rest ih =>
      rw [allBlocks]
      rcases List.mem_cons.1 h with hfirst | hrest
      · rw [hfirst]
        exact List.subset_append_left _ _
      · exact List.subset_append_of_subset_right _ (ih hrest)

/-- The blocks in the tree of a rule that occurs are written. -/
theorem Occurs.blocks_subset (h : g.Occurs r) : r.blocks ⊆ g.written := by
  induction h with
  | own mem => exact blocks_subset_allBlocks mem
  | inside block mem ih =>
      intro b hb
      apply ih
      rw [Rule.blocks]
      exact List.mem_cons_of_mem _ (blocks_subset_allBlocks mem hb)

mutual

/-- The blocks in the tree of a rule that occurs occur. -/
theorem occurs_of_mem_blocks (r : Rule) (h : g.Occurs r)
    (hb : b ∈ r.blocks) : g.Occurs b.rule := by
  cases r with
  | single pattern scope => cases hb
  | inclusion name => cases hb
  | block name opening closing scope rules =>
      rw [Rule.blocks] at hb
      rcases List.mem_cons.1 hb with hself | hinside
      · rw [hself]
        exact h
      · exact occurs_of_mem_allBlocks rules (fun r hr => h.inside hr) hinside

theorem occurs_of_mem_allBlocks (rules : List Rule)
    (h : ∀ r ∈ rules, g.Occurs r) (hb : b ∈ allBlocks rules) :
    g.Occurs b.rule := by
  cases rules with
  | nil => cases hb
  | cons r rest =>
      rw [allBlocks] at hb
      rcases List.mem_append.1 hb with hfirst | hrest
      · exact occurs_of_mem_blocks r (h r (by simp)) hfirst
      · exact occurs_of_mem_allBlocks rest (fun r hr => h r (by simp [hr]))
          hrest

end

/-- The blocks that are written are those that occur. -/
theorem mem_written_iff : b ∈ g.written ↔ g.Occurs b.rule := by
  constructor
  · exact occurs_of_mem_allBlocks g.rules fun r hr => .own hr
  · intro h
    apply h.blocks_subset
    simp [Block.rule, Rule.blocks]

/-- A rule that occurs is one of the grammar's own, or stands directly in
a block. -/
theorem Occurs.cases_block (h : g.Occurs r) :
    r ∈ g.rules ∨ ∃ b ∈ g.written, r ∈ b.rules := by
  cases h with
  | own mem => exact .inl mem
  | @inside name opening closing scope rules _ block mem =>
      exact .inr ⟨⟨name, opening, closing, scope, rules⟩,
        mem_written_iff.2 block, mem⟩

theorem occurs_of_mem_block (hb : b ∈ g.written) (hr : r ∈ b.rules) :
    g.Occurs r :=
  (mem_written_iff.1 hb).inside hr

/-- The rules in force where rules occur occur themselves. -/
theorem occurs_expanded (h : ∀ r ∈ rules, g.Occurs r) :
    ∀ r ∈ g.expanded rules, g.Occurs r :=
  forall_expanded (fun _ => mem_written_iff.1) (fun _ => .own) h

-- ====================================================== what is refused

mutual

/-- Collecting stops at a block of the name of another one that is known
or written. -/
theorem duplicate_of_collect (r : Rule) {known : List Block}
    (h : collect scope known r = .error fault) :
    ∃ b ∈ r.blocks, ∃ b', (b' ∈ known ∨ b' ∈ r.blocks) ∧ b.name = b'.name
      ∧ b ≠ b' ∧ fault = ⟨scope, .duplicateBlock b.name⟩ := by
  cases r with
  | single pattern scope => cases h
  | inclusion name => cases h
  | block name opening closing blockScope rules =>
      rw [collect] at h
      rw [Rule.blocks]
      generalize hself :
        (⟨name, opening, closing, blockScope, rules⟩ : Block) = self at h
      have hname : self.name = name := by rw [← hself]
      split at h
      · -- the block is new, and the one that stops it is inside
        obtain ⟨b, hb, b', hb', hsame, hdiffer, hfault⟩ :=
          duplicate_of_collectAll rules h
        refine ⟨b, by simp [hb], b', ?_, hsame, hdiffer, hfault⟩
        rcases hb' with hknown | hinside
        · rcases List.mem_append.1 hknown with hknown | hlast
          · exact .inl hknown
          · exact .inr (by simp [List.mem_singleton.1 hlast])
        · exact .inr (by simp [hinside])
      · next other hother =>
        split at h
        · cases h
        · next hne =>
          cases h
          have hothername : other.name = name := by
            simpa using List.find?_some hother
          refine ⟨self, by simp, other,
            .inl (List.mem_of_find?_eq_some hother), ?_, Ne.symm hne, ?_⟩
          · rw [hname, hothername]
          · rw [hname]

theorem duplicate_of_collectAll (rules : List Rule) {known : List Block}
    (h : collectAll scope known rules = .error fault) :
    ∃ b ∈ allBlocks rules, ∃ b', (b' ∈ known ∨ b' ∈ allBlocks rules)
      ∧ b.name = b'.name ∧ b ≠ b'
      ∧ fault = ⟨scope, .duplicateBlock b.name⟩ := by
  cases rules with
  | nil => cases h
  | cons r rest =>
      rw [collectAll] at h
      rw [allBlocks]
      split at h
      · next hfirst =>
        cases h
        obtain ⟨b, hb, b', hb', h⟩ := duplicate_of_collect r hfirst
        exact ⟨b, by simp [hb], b', hb'.imp_right (by simp [·]), h⟩
      · next more hfirst =>
        obtain ⟨b, hb, b', hb', h⟩ := duplicate_of_collectAll rest h
        refine ⟨b, by simp [hb], b', ?_, h⟩
        rcases hb' with hmore | hrest
        · -- what is known by then was known before, or is in the rule
          have hwritten := (collect_ok hfirst).written b' hmore
          simp only [allBlocks, List.append_nil] at hwritten
          exact hwritten.imp_right (by simp [·])
        · exact .inr (by simp [hrest])

end

/-- What stops the collecting of blocks is a flaw. -/
theorem founded_blocks (h : g.blocks = .error fault) :
    g.Founded compiler fault := by
  obtain ⟨b, hb, b', hb', hname, hdiffer, hfault⟩ :=
    duplicate_of_collectAll g.rules h
  have hsecond : b' ∈ g.written := hb'.resolve_left (by simp)
  rw [hfault]
  exact ⟨rfl, .duplicate (mem_written_iff.1 hb)
    (mem_written_iff.1 hsecond) hname hdiffer⟩

/-- What stops a pattern of a rule that occurs from being compiled is a
flaw. -/
theorem founded_compile (hr : g.Occurs r) (hmem : pattern ∈ r.patterns)
    (h : Lexer.compile g compiler pattern = .error fault) :
    g.Founded compiler fault := by
  unfold Lexer.compile at h
  split at h
  · cases h
  · next reason refusal =>
    cases h
    exact ⟨rfl, .refused hr hmem refusal⟩

section

variable {self : Except GrammarFault (List (String × Action))}
  {actions : List (String × Action)}

/-- Resolving inclusions stops at one that names no block, or where the
grammar's own rules could not be resolved. -/
theorem unknown_of_resolve
    (h : resolve scope blocks self rules = .error fault) :
    (∃ name, .inclusion name ∈ rules ∧ name ≠ Rule.selfName
      ∧ blocks.find? (·.name = name) = none
      ∧ fault = ⟨scope, .unknownInclude name⟩) ∨ self = .error fault := by
  induction rules with
  | nil => cases h
  | cons r rest ih =>
      rw [resolve_cons] at h
      rcases bind_eq_error h with hfirst | ⟨first, -, h⟩
      · cases r with
        | single pattern scope => cases hfirst
        | block name opening closing scope inner => cases hfirst
        | inclusion name =>
            rw [resolveOne] at hfirst
            by_cases hname : name = Rule.selfName
            · rw [if_pos hname] at hfirst
              exact .inr hfirst
            · rw [if_neg hname] at hfirst
              split at hfirst
              · cases hfirst
              · next hnone =>
                cases hfirst
                exact .inl ⟨name, by simp, hname, hnone, rfl⟩
      · rcases bind_eq_error h with hrest | ⟨others, -, h⟩
        · apply (ih hrest).imp_left
          intro hincluded
          obtain ⟨name, hmem, hunknown⟩ := hincluded
          exact ⟨name, by simp [hmem], hunknown⟩
        · cases h

/-- An inclusion that was resolved names a block, unless it stands for the
grammar's own rules. -/
theorem exists_find?_of_resolve
    (h : resolve scope blocks self rules = .ok actions)
    (hmem : .inclusion name ∈ rules) (hname : name ≠ Rule.selfName) :
    ∃ b, blocks.find? (·.name = name) = some b := by
  induction rules generalizing actions with
  | nil => cases hmem
  | cons r rest ih =>
      rw [resolve_cons] at h
      obtain ⟨first, hfirst, h⟩ := bind_eq_ok h
      rcases List.mem_cons.1 hmem with hself | hlater
      · rw [← hself, resolveOne, if_neg hname] at hfirst
        split at hfirst
        · next b hb => exact ⟨b, hb⟩
        · cases hfirst
      · obtain ⟨others, hothers, -⟩ := bind_eq_ok h
        exact ih hothers hlater

end

theorem mem_patterns_of_trigger? {action : Action}
    (h : r.trigger? = some (pattern, action)) : pattern ∈ r.patterns := by
  cases r with
  | single pattern scope =>
      cases h
      simp [Rule.patterns]
  | block name opening closing scope rules =>
      cases h
      simp [Rule.patterns]
  | inclusion name => cases h

/-- An inclusion that occurs and names no collected block is a flaw. -/
theorem founded_unknown (hblocks : g.blocks = .ok blocks)
    (hincl : g.Occurs (.inclusion name)) (hname : name ≠ Rule.selfName)
    (hnone : blocks.find? (·.name = name) = none) :
    g.Founded compiler ⟨g.scope, .unknownInclude name⟩ := by
  refine ⟨rfl, .unknown hincl hname ?_⟩
  intro b hb heq
  have hmem := (mem_blocks_iff hblocks).2 (mem_written_iff.2 hb)
  simpa [heq] using List.find?_eq_none.1 hnone b hmem

/-- What stops the rules in force from being made ready to be tried is a
flaw. -/
theorem founded_candidates (hblocks : g.blocks = .ok blocks)
    (hrules : ∀ r ∈ rules, g.Occurs r)
    (h : Lexer.candidates g compiler blocks rules = .error fault) :
    g.Founded compiler fault := by
  unfold Lexer.candidates at h
  rcases bind_eq_error h with hresolve | ⟨actions, hactions, hcompile⟩
  · -- an inclusion, among the rules or among the grammar's own
    rcases unknown_of_resolve hresolve with
      ⟨name, hmem, hname, hnone, hfault⟩ | hself
    · rw [hfault]
      exact founded_unknown hblocks (hrules _ hmem) hname hnone
    · rcases unknown_of_resolve hself with
        ⟨name, hmem, hname, hnone, hfault⟩ | hnever
      · rw [hfault]
        exact founded_unknown hblocks (.own hmem) hname hnone
      · cases hnever
  · obtain ⟨⟨pattern, action⟩, haction, hfail⟩ :=
      exists_of_mapM_error hcompile
    have htriggers := triggers_resolve _ hblocks
      (fun _ => triggers_resolve [] hblocks (by simp)) hactions
    obtain ⟨i, hi⟩ := List.getElem?_of_mem haction
    obtain ⟨r, hr, htrigger⟩ := exists_of_map_eq htriggers.symm hi
    have hoccurs : g.Occurs r :=
      occurs_expanded hrules r (List.mem_of_getElem? hr)
    have hmem := mem_patterns_of_trigger? htrigger.symm
    rcases bind_eq_error hfail with hfail | ⟨matcher, -, hfail⟩
    · exact founded_compile hoccurs hmem hfail
    · cases hfail

/-- What stops the building of a lexer is a flaw. -/
theorem founded_build (h : Lexer.build g compiler = .error fault) :
    g.Founded compiler fault := by
  unfold Lexer.build at h
  rcases bind_eq_error h with h | ⟨blocks, hblocks, h⟩
  · exact founded_blocks h
  rcases bind_eq_error h with h | ⟨closings, hclosings, h⟩
  · obtain ⟨b, hb, hfail⟩ := exists_of_mapM_error h
    have hoccurs := mem_written_iff.1 ((mem_blocks_iff hblocks).1 hb)
    exact founded_compile hoccurs (by simp [Block.rule, Rule.patterns]) hfail
  rcases bind_eq_error h with h | ⟨root, hroot, h⟩
  · exact founded_candidates hblocks (fun _ => .own) h
  rcases bind_eq_error h with h | ⟨contexts, hcontexts, h⟩
  · obtain ⟨⟨b, closing⟩, hmem, hfail⟩ := exists_of_mapM_error h
    have hb := (mem_blocks_iff hblocks).1 (List.of_mem_zip hmem).1
    rcases bind_eq_error hfail with hfail | ⟨found, -, hfail⟩
    · exact founded_candidates hblocks (fun _ => occurs_of_mem_block hb)
        hfail
    · cases hfail
  · cases h

-- ==================================================== what is accepted

namespace Lexer

/-- A rule that occurs is among the rules of a context, or outside of all
blocks, for which candidates were made. -/
theorem candidates_of_occurs (h : build g compiler = .ok lx)
    (hblocks : g.blocks = .ok blocks) (hr : g.Occurs r) :
    ∃ rules found, r ∈ rules
      ∧ candidates g compiler blocks rules = .ok found := by
  obtain ⟨-, blocks', hsame, hcover, hroot, hparts⟩ := parts_of_build h
  rw [hblocks] at hsame
  cases hsame
  rcases hr.cases_block with hown | ⟨b, hb, hinside⟩
  · exact ⟨g.rules, lx.root, hown, hroot⟩
  · have hmem := (mem_blocks_iff hblocks).2 hb
    rw [← hcover] at hmem
    obtain ⟨f, hf, hblock⟩ := List.mem_map.1 hmem
    rw [← hblock] at hinside
    exact ⟨f.block.rules, f.candidates, hinside, (hparts f hf).2⟩

/-- An inclusion that occurs names a block, unless it stands for the
grammar's own rules. -/
theorem exists_block_of_occurs (h : build g compiler = .ok lx)
    (hincl : g.Occurs (.inclusion name)) (hname : name ≠ Rule.selfName) :
    ∃ b : Block, g.Occurs b.rule ∧ b.name = name := by
  have hblocks := (built_of_build h).blocks
  obtain ⟨rules, found, hmem, hfound⟩ :=
    candidates_of_occurs h hblocks hincl
  obtain ⟨actions, hactions, -⟩ := bind_eq_ok hfound
  obtain ⟨b, hb⟩ := exists_find?_of_resolve hactions hmem hname
  have hwritten := (mem_blocks_iff hblocks).1 (List.mem_of_find?_eq_some hb)
  exact ⟨b, mem_written_iff.1 hwritten, by simpa using List.find?_some hb⟩

/-- What a rule that occurs is tried by was compiled. -/
theorem exists_compile_of_trigger? (h : build g compiler = .ok lx)
    (hr : g.Occurs r) {action : Action}
    (htrigger : r.trigger? = some (pattern, action)) :
    ∃ matcher, compile g compiler pattern = .ok matcher := by
  have hblocks := (built_of_build h).blocks
  obtain ⟨rules, found, hrules, hfound⟩ := candidates_of_occurs h hblocks hr
  have hforce : r ∈ g.expanded rules := by
    refine List.mem_flatMap.2 ⟨r, hrules, ?_⟩
    cases r with
    | inclusion name => cases htrigger
    | _ => simp
  obtain ⟨i, hi⟩ := List.getElem?_of_mem hforce
  obtain ⟨c, -, pattern', hsame, hcompile⟩ :=
    (tried_candidates hblocks hfound).candidate i r hi
  rw [htrigger] at hsame
  cases hsame
  exact ⟨c.matcher, hcompile⟩

/-- A pattern of a rule that occurs was compiled. -/
theorem exists_compile_of_occurs (h : build g compiler = .ok lx)
    (hr : g.Occurs r) (hmem : pattern ∈ r.patterns) :
    ∃ matcher, compile g compiler pattern = .ok matcher := by
  cases r with
  | inclusion name => cases hmem
  | single pattern' scope =>
      rw [List.mem_singleton.1 hmem]
      exact exists_compile_of_trigger? h hr rfl
  | block name opening closing scope rules =>
      rcases List.mem_cons.1 hmem with hopening | hmem
      · rw [hopening]
        exact exists_compile_of_trigger? h hr rfl
      · -- the closing pattern is compiled for the block's context
        obtain rfl := List.mem_singleton.1 hmem
        have hbuilt := built_of_build h
        have hwritten : (⟨name, opening, pattern, scope, rules⟩ : Block)
            ∈ g.written := mem_written_iff.2 hr
        obtain ⟨f, hf, hblock⟩ := hbuilt.exists_context? hwritten
        have hclosing := hbuilt.closing f (List.mem_of_find?_eq_some hf)
        rw [hblock] at hclosing
        exact ⟨f.closing, hclosing⟩

/-- A grammar that could be built has no flaw. -/
theorem not_flawed_of_build (h : build g compiler = .ok lx)
    {cause : GrammarCause} :
    ¬g.Flawed compiler cause := by
  intro hflawed
  cases hflawed with
  | duplicate first second hname differ =>
      have hu := unambiguous_written (built_of_build h).blocks
      exact differ (hu _ (mem_written_iff.2 first) _
        (mem_written_iff.2 second) hname)
  | unknown inclusion notSelf noBlock =>
      obtain ⟨b, hb, hname⟩ := exists_block_of_occurs h inclusion notSelf
      exact noBlock b hb hname
  | refused rule mem refusal =>
      obtain ⟨matcher, hmatcher⟩ := exists_compile_of_occurs h rule mem
      unfold compile at hmatcher
      rw [refusal] at hmatcher
      cases hmatcher

/-- A name stands for the block of that name that occurs. -/
theorem context?_eq_some_iff (h : build g compiler = .ok lx) :
    (lx.context? name).map (·.block) = some b
      ↔ g.Occurs b.rule ∧ b.name = name := by
  have hbuilt := built_of_build h
  rw [hbuilt.map_context?, ← mem_written_iff]
  constructor
  · intro hb
    exact ⟨mem_written_of_block? hb, name_of_block? hb⟩
  · intro ⟨hb, hname⟩
    rw [← hname]
    exact block?_of_mem hbuilt.blocks hb

-- ============================================================== theorem

/-- Whatever the compiler refuses, a lexer is refused if something is wrong
with the grammar, anywhere in it, and then only: what is reported is wrong
with it. Otherwise there is a lexer, and it knows exactly the blocks that
occur, by their names. -/
theorem builds_unless_flawed (g : Grammar) (compiler : Compiler) :
    ((∃ fault, build g compiler = .error fault)
        ↔ ∃ cause, g.Flawed compiler cause)
      ∧ (∀ fault, build g compiler = .error fault →
        fault.scope = g.scope ∧ g.Flawed compiler fault.cause)
      ∧ ((∀ cause, ¬g.Flawed compiler cause) →
        ∃ lx, build g compiler = .ok lx
          ∧ ∀ name b, (lx.context? name).map (·.block) = some b
            ↔ g.Occurs b.rule ∧ b.name = name) := by
  -- a fault that is reported is founded on a flaw
  have hreported : ∀ fault, build g compiler = .error fault →
      fault.scope = g.scope ∧ g.Flawed compiler fault.cause := by
    intro fault h
    have hfounded := founded_build h
    exact ⟨hfounded.scope, hfounded.flawed⟩
  refine ⟨⟨?_, ?_⟩, hreported, ?_⟩
  · intro ⟨fault, h⟩
    exact ⟨fault.cause, (hreported fault h).2⟩
  · intro ⟨cause, hflawed⟩
    cases hbuild : build g compiler with
    | error fault => exact ⟨fault, rfl⟩
    | ok lx => exact absurd hflawed (not_flawed_of_build hbuild)
  · intro hsound
    cases hbuild : build g compiler with
    | error fault => exact absurd (hreported fault hbuild).2 (hsound _)
    | ok lx => exact ⟨lx, rfl, fun _ _ => context?_eq_some_iff hbuild⟩

/-- A block that is written inside another one, and again outside of it;
the rules include themselves, and the block what is around it. -/
def twice (pattern : String) : Grammar :=
  let inner := Rule.block "inner" "<" ">" "inner"
    [.single pattern "word", .inclusion "outer", .inclusion "$self"]
  ⟨"source", [.inclusion "$self",
    .block "outer" "begin" "end" "outer" [inner], inner], [], "twice"⟩

/-- A parenthesis that is not closed is found in the block that is written
twice; with a pattern in its place there is a lexer. -/
theorem builds_unless_flawed_twice :
    (∃ cause, (twice "(").Flawed Pattern.compile cause)
      ∧ (∃ fault, build (twice "(") = .error fault
        ∧ fault.scope = "source"
        ∧ (twice "(").Flawed Pattern.compile fault.cause)
      ∧ (∀ cause, ¬(twice "a+").Flawed Pattern.compile cause)
      ∧ ∃ lx, build (twice "a+") = .ok lx
        ∧ ∀ name b, (lx.context? name).map (·.block) = some b
          ↔ (twice "a+").Occurs b.rule ∧ b.name = name := by
  obtain ⟨hiff, hreported, -⟩ :=
    builds_unless_flawed (twice "(") Pattern.compile
  obtain ⟨-, -, hsound⟩ :=
    builds_unless_flawed (twice "a+") Pattern.compile
  have hflawed : ∃ cause, (twice "(").Flawed Pattern.compile cause := by
    have hblock : (twice "(").Occurs (.block "inner" "<" ">" "inner"
        [.single "(" "word", .inclusion "outer", .inclusion "$self"]) :=
      .own (by simp [twice])
    -- the flaw is inside of the block that is written twice
    have hrule : (twice "(").Occurs (.single "(" "word") :=
      hblock.inside (by simp)
    have hrefused : (Pattern.compile "(").toOption.isNone = true := by
      decide +kernel
    cases hcase : Pattern.compile "(" with
    | error reason =>
        exact ⟨_, .refused hrule (by simp [Rule.patterns]) hcase⟩
    | ok matcher =>
        rw [hcase] at hrefused
        cases hrefused
  have hunflawed : ∀ cause, ¬(twice "a+").Flawed Pattern.compile cause := by
    obtain ⟨lx, hlx⟩ : ∃ lx, build (twice "a+") = .ok lx :=
      exists_build (by decide +kernel)
    exact fun cause => not_flawed_of_build hlx
  obtain ⟨fault, hfault⟩ := hiff.2 hflawed
  exact ⟨hflawed, ⟨fault, hfault, hreported fault hfault⟩, hunflawed,
    hsound hunflawed⟩

end Lexer

end Grammar

end Relex
