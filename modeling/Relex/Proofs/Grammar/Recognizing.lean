/-
The states that a grammar recognizes.

A state tells of open blocks by their names. A line may be entered in a
state that the lexer did not leave: one that another grammar left, with
names that this one does not have anywhere among its own, or one that is
no stack. What a grammar recognizes of a state are the names of its own
blocks, in the order in which they are open, and of any other state
nothing (`recognized`).

- That is all a lexer takes from a state (`Built.entered_recognized`). So
  its whole answer is the one for what it recognizes.
- It leaves a line in a state that it recognizes as a whole
  (`knows_engine`): a round closes a block, leaves those that are open, or
  opens one that was looked up.

So what the grammar does not know is gone after one line, without having
had an effect, and there is nothing that it does not know later on
(`stays_recognized`).
-/
import Relex.Proofs.Grammar.Rounds

namespace Relex

/-- What an engine answers for lines that are tokenized one after the
other, the first of them entered in the given state. -/
def Engine.answers (e : Engine) (entering : TokenState) :
    List Line → Except Fault (List LineResult)
  | [] => .ok []
  | line :: rest => do
    let a ← e line entering
    let others ← answers e a.next rest
    return a :: others

namespace Grammar

-- ============================================================= states

/-- The names of the blocks written in the grammar. -/
def names (g : Grammar) : List String := g.written.map (·.name)

/-- What the grammar recognizes of a state: of a stack the names of its
own blocks, of any other state nothing. -/
def recognized (g : Grammar) : TokenState → BlockStack
  | .stack s => ⟨s.frames.filter (· ∈ g.names)⟩
  | _ => ⟨[]⟩

/-- The state is a stack, and holds names of blocks of the grammar
only. -/
def Knows (g : Grammar) (s : TokenState) : Prop :=
  ∃ stack : BlockStack, s = .stack stack
    ∧ ∀ name ∈ stack.frames, name ∈ g.names

namespace Lexer

variable {g : Grammar} {compiler : Pattern.Compiler} {lx : Lexer}
  {name : String} {line : Line} {s : TokenState}

theorem mem_names {b : Block} (hb : b ∈ g.written) : b.name ∈ g.names :=
  List.mem_map_of_mem hb

/-- Only names of blocks are looked up to a context. -/
theorem Built.context?_eq_none (h : lx.Built g compiler)
    (hname : name ∉ g.names) : lx.context? name = none := by
  have hblock : g.block? name = none := by
    cases hb : g.block? name with
    | none => rfl
    | some b =>
        have hmem := mem_names (mem_written_of_block? hb)
        rw [name_of_block? hb] at hmem
        exact absurd hmem hname
  have hmap := h.map_context? name
  rw [hblock] at hmap
  exact Option.map_eq_none_iff.1 hmap

/-- A lexer takes from a state what the grammar recognizes of it, and
nothing else. -/
theorem Built.entered_recognized (h : lx.Built g compiler)
    (s : TokenState) :
    lx.entered (.stack (g.recognized s)) = lx.entered s := by
  cases s with
  | stack s =>
      unfold entered recognized
      dsimp only
      rw [List.filterMap_filter]
      congr 2
      funext name
      by_cases hname : name ∈ g.names
      · simp [hname]
      · simp [hname, h.context?_eq_none hname]
  | _ => rfl

/-- The answer for a line is the one for what is recognized of the
state. -/
theorem Built.engine_recognized (h : lx.Built g compiler)
    (line : Line) (s : TokenState) :
    lx.engine line (.stack (g.recognized s)) = lx.engine line s := by
  unfold engine
  rw [h.entered_recognized]

/-- A line is left in a state that the grammar knows. -/
theorem knows_engine (h : lx.Built g compiler) {a : LineResult}
    (ha : lx.engine line s = .ok a) : g.Knows a.next := by
  obtain ⟨tokens, last, hrun, -, hnext⟩ := run_of_engine ha
  obtain ⟨count, hrounds⟩ := run_eq_ok_iff.1 hrun
  have hlast := hrounds.mem_contexts fun _ => mem_contexts_of_entered
  refine ⟨⟨last.reverse.map fun f : Context => f.block.name⟩, hnext, ?_⟩
  intro name hname
  obtain ⟨f, hf, hself⟩ := List.mem_map.1 hname
  rw [← hself]
  exact mem_names (h.mem_written (hlast f (List.mem_reverse.1 hf)))

/-- Lines that follow each other are all answered, and each of them is left
in a state that the grammar knows. -/
theorem exists_answers (h : build g compiler = .ok lx)
    (s : TokenState) (lines : List Line) :
    ∃ answers, lx.engine.answers s lines = .ok answers
      ∧ answers.length = lines.length ∧ ∀ a ∈ answers, g.Knows a.next := by
  induction lines generalizing s with
  | nil => exact ⟨[], rfl, rfl, by simp⟩
  | cons line rest ih =>
      obtain ⟨a, ha⟩ := total_engine h line s
      obtain ⟨others, hothers, hlength, hknows⟩ := ih a.next
      refine ⟨a :: others, ?_, by simp [hlength], ?_⟩
      · simp only [Engine.answers, ha, hothers, bind, Except.bind, pure,
          Except.pure]
      · exact List.forall_mem_cons.2
          ⟨knows_engine (built_of_build h) ha, hknows⟩

/-- The answers for lines that follow each other are those for what is
recognized of the state in which the first is entered. -/
theorem Built.answers_recognized (h : lx.Built g compiler)
    (s : TokenState) (lines : List Line) :
    lx.engine.answers (.stack (g.recognized s)) lines
      = lx.engine.answers s lines := by
  cases lines with
  | nil => rfl
  | cons line rest =>
      rw [Engine.answers, h.engine_recognized]
      rfl

-- ============================================================= theorem

/-- A lexer that could be built answers for every line in every state, with
what it answers for the part of the state that the grammar recognizes, and
the line is left in a state that the grammar knows. So it is with any
number of lines that follow each other: what the grammar does not know of
the first state has no effect on any of their tokens and states. -/
theorem stays_recognized (h : build g compiler = .ok lx)
    (s : TokenState) :
    (∀ line, ∃ a, lx.engine line s = .ok a
        ∧ lx.engine line (.stack (g.recognized s)) = .ok a
        ∧ g.Knows a.next)
      ∧ ∀ lines, ∃ answers, lx.engine.answers s lines = .ok answers
        ∧ lx.engine.answers (.stack (g.recognized s)) lines = .ok answers
        ∧ answers.length = lines.length
        ∧ ∀ a ∈ answers, g.Knows a.next := by
  have hbuilt := built_of_build h
  constructor
  · intro line
    obtain ⟨a, ha⟩ := total_engine h line s
    exact ⟨a, ha, (hbuilt.engine_recognized line s).trans ha,
      knows_engine hbuilt ha⟩
  · intro lines
    obtain ⟨answers, hanswers, hlength, hknows⟩ := exists_answers h s lines
    exact ⟨answers, hanswers,
      (hbuilt.answers_recognized s lines).trans hanswers, hlength, hknows⟩

/-- A state that another grammar left, with names above, between and below
those of the two blocks that this one knows. Both blocks are closed in the
first line, and the second one opens a block anew. -/
theorem stays_recognized_foreign : ∃ lx answers,
    build nested = .ok lx
      ∧ nested.recognized
          (.stack ⟨["odd", "nest", "strange", "nest", "queer"]⟩)
        = ⟨["nest", "nest"]⟩
      ∧ lx.engine.answers
          (.stack ⟨["odd", "nest", "strange", "nest", "queer"]⟩)
          ["x".toList, "<".toList] = .ok answers
      ∧ lx.engine.answers (.stack ⟨["nest", "nest"]⟩)
          ["x".toList, "<".toList] = .ok answers
      ∧ answers.length = 2
      ∧ ∀ a ∈ answers, nested.Knows a.next := by
  obtain ⟨lx, hlx⟩ : ∃ lx, build nested = .ok lx :=
    exists_build (by decide +kernel)
  obtain ⟨-, hlines⟩ := stays_recognized hlx
    (.stack ⟨["odd", "nest", "strange", "nest", "queer"]⟩)
  have hknown : nested.recognized
      (.stack ⟨["odd", "nest", "strange", "nest", "queer"]⟩)
        = ⟨["nest", "nest"]⟩ := by decide
  obtain ⟨answers, hanswers, hsame, hlength, hknows⟩ :=
    hlines ["x".toList, "<".toList]
  rw [hknown] at hsame
  exact ⟨lx, answers, hlx, hknown, hanswers, hsame, hlength, hknows⟩

end Lexer

end Grammar

end Relex
