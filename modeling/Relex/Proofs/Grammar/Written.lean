/-
The blocks written in a grammar.

A block may be written anywhere in the tree of a grammar's rules, inside
other blocks too (`Grammar.written`), and more than once. Collecting them
goes through the tree with what is known so far, and passes over what it
knows already, inner blocks and all. It still comes to exactly the blocks
that are written (`mem_blocks_iff`): a block that is passed over was
known, so that what is inside it was collected then.

It goes through only if blocks of one name are the same block
(`Unambiguous`). So a name stands for the one block of that name, and
which of the places where it is written is looked at first makes no
difference (`find?_blocks`).

With that the rules in force in a block, or outside of all, can be written
down without collecting anything (`Grammar.expanded`): an inclusion is the
block of its name, or the grammar's own rules.
-/
import Relex.Grammar.Basic

namespace Relex

-- ============================================================== the tree

/-- The rule that writes a block. -/
def Block.rule (b : Block) : Rule :=
  .block b.name b.opening b.closing b.scope b.rules

namespace Rule

mutual

/-- The blocks written in a rule, an outer one before those inside it. -/
def blocks : Rule → List Block
  | .single _ _ => []
  | .inclusion _ => []
  | .block name opening closing scope rules =>
    ⟨name, opening, closing, scope, rules⟩ :: allBlocks rules

/-- The blocks written in some rules. -/
def allBlocks : List Rule → List Block
  | [] => []
  | rule :: rest => rule.blocks ++ allBlocks rest

end

end Rule

namespace Grammar

open Rule (allBlocks)

/-- The blocks written in the rules of the grammar. -/
def written (g : Grammar) : List Block := allBlocks g.rules

/-- The block of a name. -/
def block? (g : Grammar) (name : String) : Option Block :=
  g.written.find? (·.name = name)

/-- Blocks of one name are the same block. -/
def Unambiguous (blocks : List Block) : Prop :=
  ∀ b ∈ blocks, ∀ b' ∈ blocks, b.name = b'.name → b = b'

/-- The rules with each inclusion replaced by what it stands for: `own`
for the grammar's own rules, and the block of its name otherwise. -/
def expand (g : Grammar) (own rules : List Rule) : List Rule :=
  rules.flatMap fun
    | .inclusion name =>
      if name = Rule.selfName then own
      else ((g.block? name).map Block.rule).toList
    | rule => [rule]

/-- The rules in force where the given ones are written. Where the
grammar's own rules include themselves, that adds nothing. -/
def expanded (g : Grammar) (rules : List Rule) : List Rule :=
  g.expand (g.expand [] g.rules) rules

/-- If the rule is a block, it is among these. -/
def Listed (blocks : List Block) : Rule → Prop
  | .block name opening closing scope rules =>
    ⟨name, opening, closing, scope, rules⟩ ∈ blocks
  | _ => True

variable {g : Grammar} {scope : String} {known more all blocks : List Block}
  {rules rest : List Rule} {r : Rule} {b : Block}

/-- A block of a name that is new can be added. -/
theorem Unambiguous.concat (h : Unambiguous known)
    (hnew : known.find? (·.name = b.name) = none) :
    Unambiguous (known ++ [b]) := by
  have hother : ∀ b' ∈ known, b'.name ≠ b.name := by
    intro b' hb'
    simpa using List.find?_eq_none.1 hnew b' hb'
  intro b₁ hb₁ b₂ hb₂ hname
  rcases List.mem_append.1 hb₁ with hb₁ | hb₁
  · rcases List.mem_append.1 hb₂ with hb₂ | hb₂
    · exact h b₁ hb₁ b₂ hb₂ hname
    · rw [List.mem_singleton.1 hb₂] at hname
      exact absurd hname (hother b₁ hb₁)
  · rw [List.mem_singleton.1 hb₁] at hname ⊢
    rcases List.mem_append.1 hb₂ with hb₂ | hb₂
    · exact absurd hname.symm (hother b₂ hb₂)
    · exact (List.mem_singleton.1 hb₂).symm

theorem Listed.mono (h : Listed known r) (hall : known ⊆ all) :
    Listed all r := by
  cases r with
  | block name opening closing scope rules => exact hall h
  | _ => trivial

mutual

/-- With what is written directly in each of the listed blocks listed,
all of a listed rule's tree is. -/
theorem blocks_subset (hcomplete : ∀ b ∈ all, ∀ r ∈ b.rules, Listed all r)
    (r : Rule) (h : Listed all r) : r.blocks ⊆ all := by
  cases r with
  | block name opening closing scope rules =>
      rw [Rule.blocks]
      apply List.cons_subset.2 ⟨h, ?_⟩
      exact allBlocks_subset hcomplete rules (hcomplete _ h)
  | _ => simp [Rule.blocks]

theorem allBlocks_subset
    (hcomplete : ∀ b ∈ all, ∀ r ∈ b.rules, Listed all r)
    (rules : List Rule) (h : ∀ r ∈ rules, Listed all r) :
    allBlocks rules ⊆ all := by
  cases rules with
  | nil => simp [allBlocks]
  | cons r rest =>
      rw [allBlocks]
      apply List.append_subset.2
      exact ⟨blocks_subset hcomplete r (h r (by simp)),
        allBlocks_subset hcomplete rest fun r hr => h r (by simp [hr])⟩

end

-- =========================================================== collecting

/-- What collecting the blocks of some rules comes to: nothing that was
known is lost, the blocks among the rules are there, what was not known
before is written in the rules and has the blocks directly inside it
there too, and no name gets a second block. -/
structure Collected (known all : List Block) (rules : List Rule) :
    Prop where
  known_subset : known ⊆ all
  listed : ∀ r ∈ rules, Listed all r
  complete : ∀ b ∈ all, b ∈ known ∨ ∀ r ∈ b.rules, Listed all r
  written : ∀ b ∈ all, b ∈ known ∨ b ∈ allBlocks rules
  unambiguous : Unambiguous known → Unambiguous all

namespace Collected

theorem nil (known : List Block) : Collected known known [] :=
  ⟨List.Subset.refl _, by simp, fun _ hb => .inl hb,
    fun _ hb => .inl hb, fun h => h⟩

/-- A rule that adds no block. -/
theorem same (h : Listed known r) : Collected known known [r] :=
  ⟨List.Subset.refl _, by simpa using h, fun _ hb => .inl hb,
    fun _ hb => .inl hb, fun h => h⟩

theorem cons (h : Collected known more [r]) (h' : Collected more all rest) :
    Collected known all (r :: rest) := by
  have hr : Listed more r := h.listed r (by simp)
  have hblocks : allBlocks [r] = r.blocks := by simp [allBlocks]
  refine ⟨fun b hb => h'.known_subset (h.known_subset hb), ?_, ?_, ?_,
    fun hu => h'.unambiguous (h.unambiguous hu)⟩
  · intro r' hr'
    rcases List.mem_cons.1 hr' with hself | hlater
    · rw [hself]
      exact hr.mono h'.known_subset
    · exact h'.listed r' hlater
  · intro b hb
    rcases h'.complete b hb with hmore | hnew
    · exact (h.complete b hmore).imp_right
        fun hrules r hr => (hrules r hr).mono h'.known_subset
    · exact .inr hnew
  · intro b hb
    rw [allBlocks, List.mem_append]
    rcases h'.written b hb with hmore | hlater
    · have hfirst := h.written b hmore
      rw [hblocks] at hfirst
      exact hfirst.imp_right .inl
    · exact .inr (.inr hlater)

/-- A block that was not known, with what is collected inside it. -/
theorem block (hnew : known.find? (·.name = b.name) = none)
    (h : Collected (known ++ [b]) all b.rules) :
    Collected known all [b.rule] := by
  have hself : b ∈ all := h.known_subset (by simp)
  have hblocks : allBlocks [b.rule] = b :: allBlocks b.rules := by
    simp [allBlocks, Rule.blocks, Block.rule]
  refine ⟨fun b' hb' => h.known_subset (by simp [hb']), ?_, ?_, ?_, ?_⟩
  · intro r hr
    rw [List.mem_singleton.1 hr]
    exact hself
  · intro b' hb'
    rcases h.complete b' hb' with hknown | hrules
    · rcases List.mem_append.1 hknown with hknown | hlast
      · exact .inl hknown
      · rw [List.mem_singleton.1 hlast]
        exact .inr h.listed
    · exact .inr hrules
  · intro b' hb'
    rw [hblocks, List.mem_cons]
    rcases h.written b' hb' with hknown | hinside
    · rcases List.mem_append.1 hknown with hknown | hlast
      · exact .inl hknown
      · exact .inr (.inl (List.mem_singleton.1 hlast))
    · exact .inr (.inr hinside)
  · exact fun hu => h.unambiguous (hu.concat hnew)

end Collected

mutual

theorem collect_ok {r : Rule} {known all : List Block}
    (h : collect scope known r = .ok all) : Collected known all [r] := by
  cases r with
  | single pattern scope =>
      cases h
      exact .same trivial
  | inclusion name =>
      cases h
      exact .same trivial
  | block name opening closing blockScope rules =>
      rw [collect] at h
      split at h
      · next hnew =>
        exact .block (b := ⟨name, opening, closing, blockScope, rules⟩)
          hnew (collectAll_ok h)
      · next same hsame =>
        split at h
        · next heq =>
          cases h
          rw [heq] at hsame
          exact .same (List.mem_of_find?_eq_some hsame)
        · cases h

theorem collectAll_ok {rules : List Rule} {known all : List Block}
    (h : collectAll scope known rules = .ok all) :
    Collected known all rules := by
  cases rules with
  | nil =>
      cases h
      exact .nil known
  | cons r rest =>
      rw [collectAll] at h
      split at h
      · cases h
      · next hfirst => exact (collect_ok hfirst).cons (collectAll_ok h)

end

-- ============================================================= grammars

/-- The collected blocks have the blocks inside them among them. -/
theorem listed_of_mem_blocks (h : g.blocks = .ok blocks) (hb : b ∈ blocks)
    (hr : r ∈ b.rules) : Listed blocks r :=
  ((collectAll_ok h).complete b hb).resolve_left (by simp) r hr

/-- The collected blocks are those that are written. -/
theorem mem_blocks_iff (h : g.blocks = .ok blocks) :
    b ∈ blocks ↔ b ∈ g.written := by
  have hall := collectAll_ok h
  constructor
  · exact fun hb => (hall.written b hb).resolve_left (by simp)
  · apply allBlocks_subset
    · exact fun b hb r hr => listed_of_mem_blocks h hb hr
    · exact hall.listed

/-- In a grammar whose blocks can be collected a name has one block. -/
theorem unambiguous_written (h : g.blocks = .ok blocks) :
    Unambiguous g.written := by
  have hu := (collectAll_ok h).unambiguous (by simp [Unambiguous])
  intro b hb b' hb'
  exact hu b ((mem_blocks_iff h).2 hb) b' ((mem_blocks_iff h).2 hb')

/-- A block that is written is the block of its name. -/
theorem block?_of_mem (h : g.blocks = .ok blocks) (hb : b ∈ g.written) :
    g.block? b.name = some b := by
  unfold block?
  cases hfind : g.written.find? (·.name = b.name) with
  | none => simpa using List.find?_eq_none.1 hfind b hb
  | some b' =>
      have hname : b'.name = b.name := by
        simpa using List.find?_some hfind
      rw [unambiguous_written h b' (List.mem_of_find?_eq_some hfind) b hb
        hname]

theorem mem_written_of_block? {name : String}
    (h : g.block? name = some b) : b ∈ g.written :=
  List.mem_of_find?_eq_some h

theorem name_of_block? {name : String} (h : g.block? name = some b) :
    b.name = name := by
  simpa using List.find?_some h

/-- Looking a name up among the collected blocks finds its block. -/
theorem find?_blocks (h : g.blocks = .ok blocks) (name : String) :
    blocks.find? (·.name = name) = g.block? name := by
  cases hfind : blocks.find? (·.name = name) with
  | some b =>
      have hname : b.name = name := by simpa using List.find?_some hfind
      have hb := (mem_blocks_iff h).1 (List.mem_of_find?_eq_some hfind)
      rw [← hname, block?_of_mem h hb]
  | none =>
      cases hblock : g.block? name with
      | none => rfl
      | some b =>
          have hb := (mem_blocks_iff h).2 (mem_written_of_block? hblock)
          have hname := name_of_block? hblock
          simpa [hname] using List.find?_eq_none.1 hfind b hb

/-- The rules of the grammar itself. -/
theorem listed_of_mem_rules (h : g.blocks = .ok blocks)
    (hr : r ∈ g.rules) : Listed g.written r :=
  ((collectAll_ok h).listed r hr).mono fun _ => (mem_blocks_iff h).1

/-- The rules directly inside a block of the grammar. -/
theorem listed_of_mem_written (h : g.blocks = .ok blocks)
    (hb : b ∈ g.written) (hr : r ∈ b.rules) : Listed g.written r :=
  (listed_of_mem_blocks h ((mem_blocks_iff h).2 hb) hr).mono
    fun _ => (mem_blocks_iff h).1

-- ========================================================== inclusions

/-- What holds of the blocks of the grammar, and of the rules themselves,
holds of the rules with their inclusions replaced. -/
theorem forall_expand {P : Rule → Prop} {own : List Rule}
    (hblocks : ∀ b ∈ g.written, P b.rule) (hown : ∀ r ∈ own, P r)
    (hrules : ∀ r ∈ rules, P r) : ∀ r ∈ g.expand own rules, P r := by
  intro r hr
  obtain ⟨first, hfirst, hr⟩ := List.mem_flatMap.1 hr
  cases first with
  | inclusion name =>
      dsimp only at hr
      split at hr
      · exact hown r hr
      · obtain ⟨b, hb, hrule⟩ := Option.map_eq_some_iff.1
          (Option.mem_toList.1 hr)
        rw [← hrule]
        exact hblocks b (mem_written_of_block? hb)
  | single pattern scope =>
      rw [List.mem_singleton.1 hr]
      exact hrules _ hfirst
  | block name opening closing scope inner =>
      rw [List.mem_singleton.1 hr]
      exact hrules _ hfirst

/-- What holds of the blocks and of the rules of the grammar, and of some
rules of it, holds of those in force there. -/
theorem forall_expanded {P : Rule → Prop}
    (hblocks : ∀ b ∈ g.written, P b.rule) (hown : ∀ r ∈ g.rules, P r)
    (hrules : ∀ r ∈ rules, P r) : ∀ r ∈ g.expanded rules, P r :=
  forall_expand hblocks (forall_expand hblocks (by simp) hown) hrules

/-- The blocks among the rules in force are blocks of the grammar. -/
theorem listed_expanded (h : g.blocks = .ok blocks)
    (hrules : ∀ r ∈ rules, Listed g.written r) :
    ∀ r ∈ g.expanded rules, Listed g.written r :=
  forall_expanded (fun _ hb => hb) (fun _ => listed_of_mem_rules h) hrules

end Grammar

end Relex
