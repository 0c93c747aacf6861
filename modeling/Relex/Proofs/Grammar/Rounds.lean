/-
The rounds of a lexer, and how many there can be.

The lexer goes through a line in rounds: each takes the hit to be taken,
gives the tokens up to its end, and goes on from there with a block
closed, with one more open, or with the same ones (`Round`). The last
round finds no hit. `Rounds` is the run with its rounds counted, and
nothing else than the run (`run_eq_ok_iff`).

# The measure

A round need not move on: a closing match may be empty. And it can open a
block, so that the blocks do not get fewer either. What always gets less
is their sum, with each character counted twice (`budget`):

- a closing match closes one block, and moves on by what it takes up;
- a rule's match moves on by a character at least, which pays two;
- if it opens a block, one of the two goes to that block.

So a line of `n` characters that is entered with `d` blocks open takes at
most `2 n + d` rounds and the last one, whatever the patterns match. And
since every block that is opened is paid for by a character, at most
`d + n` blocks are open at its end.
-/
import Relex.Proofs.Grammar.Total

namespace Relex.Grammar.Lexer

-- ============================================================= rounds

/-- What one round can do, and the tokens it gives. -/
inductive Round (lx : Lexer) (text : Array Char) (pos : Nat)
    (frames : List Context) : List Token → Nat → List Context → Prop
  /-- The innermost block is closed. -/
  | closes {span moves}
      (taken : lx.hit? text pos frames = some ⟨span, none, moves⟩) :
      Round lx text pos frames
        (piece pos span.start (lx.scopes frames)
          ++ piece span.start span.stop (lx.scopes frames))
        span.stop frames.tail
  /-- The match gets one more scope. -/
  | classifies {span scope moves}
      (taken : lx.hit? text pos frames
        = some ⟨span, some (.classify scope), moves⟩) :
      Round lx text pos frames
        (piece pos span.start (lx.scopes frames)
          ++ piece span.start span.stop (lx.scopes frames ++ [scope]))
        span.stop frames
  /-- A block is opened. -/
  | enters {span name moves c}
      (taken : lx.hit? text pos frames
        = some ⟨span, some (.enter name), moves⟩)
      (context : lx.context? name = some c) :
      Round lx text pos frames
        (piece pos span.start (lx.scopes frames)
          ++ piece span.start span.stop (lx.scopes (c :: frames)))
        span.stop (c :: frames)

/-- The rest of a line from a place on, with some blocks open, takes so
many rounds, gives the tokens and leaves the blocks open. -/
inductive Rounds (lx : Lexer) (text : Array Char) :
    Nat → Nat → List Context → List Token → List Context → Prop
  /-- The last round finds no hit. -/
  | last {pos frames} (missed : lx.hit? text pos frames = none) :
      Rounds lx text 1 pos frames
        (piece pos text.size (lx.scopes frames)) frames
  /-- One round, and those after it. -/
  | more {count pos pos' frames frames' now later last}
      (first : lx.Round text pos frames now pos' frames')
      (rest : Rounds lx text count pos' frames' later last) :
      Rounds lx text (count + 1) pos frames (now ++ later) last

variable {lx : Lexer} {text : Array Char} {pos pos' count : Nat}
  {frames frames' last : List Context} {tokens now later : List Token}

/-- A run goes on from a round as one from where the round ends. -/
theorem Round.run_eq (h : lx.Round text pos frames now pos' frames') :
    lx.run text pos frames = (do
      let (later, last) ← lx.run text pos' frames'
      return (now ++ later, last)) := by
  rw [run.eq_def]
  cases h with
  | closes taken => rw [taken]
  | classifies taken => rw [taken]
  | enters taken context =>
      rw [taken]
      dsimp only
      rw [context]

/-- A run that starts with a round has rounds if what comes after the
round has. -/
theorem Round.exists_rounds
    (h : lx.Round text pos frames now pos' frames')
    (hrun : lx.run text pos frames = .ok (tokens, last))
    (hrest : ∀ later last', lx.run text pos' frames' = .ok (later, last') →
      ∃ count, lx.Rounds text count pos' frames' later last') :
    ∃ count, lx.Rounds text count pos frames tokens last := by
  rw [h.run_eq] at hrun
  obtain ⟨⟨_, _⟩, hlater, hrun⟩ := bind_eq_ok hrun
  cases hrun
  obtain ⟨count, hrounds⟩ := hrest _ _ hlater
  exact ⟨count + 1, .more h hrounds⟩

/-- The run of a lexer is its rounds. -/
theorem run_eq_ok_iff :
    lx.run text pos frames = .ok (tokens, last)
      ↔ ∃ count, lx.Rounds text count pos frames tokens last := by
  constructor
  · intro h
    induction pos, frames using Lexer.run.induct lx text
      generalizing tokens last with
    | case1 pos frames hhit =>
        rw [run.eq_def, hhit] at h
        cases h
        exact ⟨1, .last hhit⟩
    | case2 pos frames span _ moves hhit ih =>
        exact (Round.closes hhit).exists_rounds h fun _ _ => ih
    | case3 pos frames span scope _ moves hhit ih =>
        exact (Round.classifies hhit).exists_rounds h fun _ _ => ih
    | case4 pos frames span name _ hnone moves hhit =>
        rw [run.eq_def, hhit] at h
        dsimp only at h
        rw [hnone] at h
        cases h
    | case5 pos frames span name _ c hc moves hhit ih =>
        exact (Round.enters hhit hc).exists_rounds h fun _ _ => ih
  · intro h
    obtain ⟨count, hrounds⟩ := h
    induction hrounds with
    | last missed =>
        rw [run.eq_def, missed]
    | more first rest ih =>
        rw [first.run_eq, ih]
        rfl

/-- Blocks that are open after a round were open before it, or have been
looked up. -/
theorem Round.mem_contexts
    (h : lx.Round text pos frames now pos' frames')
    (hframes : ∀ f ∈ frames, f ∈ lx.contexts) :
    ∀ f ∈ frames', f ∈ lx.contexts := by
  intro f hf
  cases h with
  | closes taken => exact hframes f (List.mem_of_mem_tail hf)
  | classifies taken => exact hframes f hf
  | enters taken context =>
      rcases List.mem_cons.1 hf with hself | hopen
      · rw [hself]
        exact List.mem_of_find?_eq_some context
      · exact hframes f hopen

theorem Rounds.mem_contexts
    (h : lx.Rounds text count pos frames tokens last)
    (hframes : ∀ f ∈ frames, f ∈ lx.contexts) :
    ∀ f ∈ last, f ∈ lx.contexts := by
  induction h with
  | last missed => exact hframes
  | more first rest ih => exact ih (first.mem_contexts hframes)

-- ========================================================= the measure

/-- What the rest of a line may still cost: two rounds for each character
and one for each open block. -/
def budget (text : Array Char) (pos : Nat) (frames : List Context) : Nat :=
  2 * (text.size - pos) + frames.length

/-- A round moves on, if at all, within the line. If it leaves fewer
blocks open it need not; each block it opens takes a character, and one
character more than it needs. -/
theorem Round.pays (h : lx.Round text pos frames now pos' frames') :
    pos ≤ pos' ∧ pos' ≤ text.size
      ∧ frames'.length + pos ≤ frames.length + pos'
      ∧ frames'.length + 2 * pos < frames.length + 2 * pos' := by
  cases h with
  | @closes span moves taken =>
      have hstart := span.pos_le_start
      have hstop := span.start_le_stop
      have hopen : 0 < frames.length := by simpa using moves
      rw [List.length_tail]
      exact ⟨by omega, span.stop_le_size, by omega, by omega⟩
  | @classifies span scope moves taken =>
      have hstart := span.pos_le_start
      have hlt : span.start < span.stop := by simpa using moves
      exact ⟨by omega, span.stop_le_size, by omega, by omega⟩
  | @enters span name moves c taken context =>
      have hstart := span.pos_le_start
      have hlt : span.start < span.stop := by simpa using moves
      rw [List.length_cons]
      exact ⟨by omega, span.stop_le_size, by omega, by omega⟩

/-- A round costs something. -/
theorem Round.budget_lt (h : lx.Round text pos frames now pos' frames') :
    budget text pos' frames' < budget text pos frames := by
  obtain ⟨hle, hsize, -, hpays⟩ := h.pays
  unfold budget
  omega

theorem Rounds.count_le
    (h : lx.Rounds text count pos frames tokens last) :
    count ≤ budget text pos frames + 1 := by
  induction h with
  | last missed => omega
  | more first rest ih =>
      have := first.budget_lt
      omega

theorem Rounds.blocks_le
    (h : lx.Rounds text count pos frames tokens last)
    (hpos : pos ≤ text.size) :
    last.length + pos ≤ frames.length + text.size := by
  induction h with
  | last missed => omega
  | more first rest ih =>
      obtain ⟨-, hsize, hblocks, -⟩ := first.pays
      have := ih hsize
      omega

-- ========================================================== theorem

/-- Whatever the compiler, a lexer that could be built goes through a line
that is entered in any state: in no more rounds than twice its characters,
one for each block that the state tells of, and the last one; and at most
one block for each character is open in addition to those at its end. -/
theorem ends_in_rounds {g : Grammar} {compiler : Pattern.Compiler}
    (h : build g compiler = .ok lx) (line : Line) (s : TokenState) :
    ∃ a count tokens last, lx.engine line s = .ok a
      ∧ lx.run line.toArray 0 (lx.entered s) = .ok (tokens, last)
      ∧ lx.Rounds line.toArray count 0 (lx.entered s) tokens last
      ∧ count ≤ 2 * line.length + (g.opened s).length + 1
      ∧ ∃ stack : BlockStack, a.next = .stack stack
        ∧ stack.depth ≤ (g.opened s).length + line.length := by
  obtain ⟨a, ha⟩ := total_engine h line s
  obtain ⟨tokens, last, hrun, -, hnext⟩ := run_of_engine ha
  obtain ⟨count, hrounds⟩ := run_eq_ok_iff.1 hrun
  have hopened : (lx.entered s).length = (g.opened s).length := by
    rw [← (built_of_build h).map_entered s, List.length_map]
  have hsize : line.toArray.size = line.length := rfl
  -- the budget pays for the rounds and for the blocks
  have hcount := hrounds.count_le
  have hblocks := hrounds.blocks_le (Nat.zero_le _)
  unfold budget at hcount
  rw [hsize, hopened] at hcount hblocks
  refine ⟨a, count, tokens, last, ha, hrun, hrounds, hcount,
    ⟨last.reverse.map fun c : Context => c.block.name⟩, hnext, ?_⟩
  unfold BlockStack.depth
  rw [List.length_map, List.length_reverse]
  exact hblocks

/-- Blocks that open in themselves, and close at an `x` that they leave to
what is around them. -/
def nested : Grammar :=
  ⟨"source", [.block "nest" "<" "(?=x)" "nest" [.inclusion "$self"]], [],
    "nested"⟩

/-- Two blocks are opened inside one that was open, and all three are
closed at one place. The state tells of a second block, which the grammar
does not know. -/
theorem ends_in_rounds_nested : ∃ lx a count tokens last,
    build nested = .ok lx
      ∧ lx.engine "<<x".toList (.stack ⟨["nest", "strange"]⟩) = .ok a
      ∧ lx.Rounds "<<x".toList.toArray count 0
        (lx.entered (.stack ⟨["nest", "strange"]⟩)) tokens last
      ∧ (nested.opened (.stack ⟨["nest", "strange"]⟩)).length = 1
      ∧ count ≤ 8
      ∧ ∃ stack : BlockStack, a.next = .stack stack ∧ stack.depth ≤ 4 := by
  obtain ⟨lx, hlx⟩ : ∃ lx, build nested = .ok lx :=
    exists_build (by decide +kernel)
  obtain ⟨a, count, tokens, last, ha, -, hrounds, hcount, hstack⟩ :=
    ends_in_rounds hlx "<<x".toList (.stack ⟨["nest", "strange"]⟩)
  have hopened : (nested.opened (.stack ⟨["nest", "strange"]⟩)).length = 1 :=
    by decide
  rw [hopened] at hcount hstack
  exact ⟨lx, a, count, tokens, last, hlx, ha, hrounds, hopened, hcount,
    hstack⟩

end Relex.Grammar.Lexer
