/-
The lexer of a grammar never fails.

An engine fails if it enters a block that is not there, or if its tokens
are out of order. A lexer that could be built does neither.

- Its blocks are complete: every rule of it, inside a block or not, that
  enters a block names one of them (`closed_build`). Building saw to that:
  blocks were collected wherever they are written, and an inclusion of a
  block that is not among them was refused.
- Places only move on, so that the tokens of a line are in order, whatever
  the patterns match (`exists_run`).
-/
import Relex.Proofs.FullBuild
import Relex.Proofs.Grammar.Building

namespace Relex.Grammar

-- ============================================================= lexers

/-- Every block that may be entered is there. -/
structure Lexer.Closed (lx : Lexer) : Prop where
  root : ∀ c ∈ lx.root, ∀ name, c.action = .enter name →
    (lx.context? name).isSome
  contexts : ∀ f ∈ lx.contexts, ∀ c ∈ f.candidates, ∀ name,
    c.action = .enter name → (lx.context? name).isSome

/-- A candidate made for one of the rules in force enters a block that is
there. -/
theorem Tried.isSome_context? {g : Grammar} {compiler : Pattern.Compiler}
    {lx : Lexer} (h : lx.Built g compiler) {found : List Candidate}
    {rules : List Rule} (htried : Tried g compiler found rules)
    (hrules : ∀ r ∈ rules, Listed g.written r) :
    ∀ c ∈ found, ∀ name, c.action = .enter name →
      (lx.context? name).isSome := by
  intro c hc name hname
  obtain ⟨i, hi⟩ := List.getElem?_of_mem hc
  obtain ⟨r, hr, pattern, htrigger, -⟩ := htried.rule i c hi
  rw [hname] at htrigger
  cases r with
  | block name' opening closing scope inner =>
      have hb := hrules _ (List.mem_of_getElem? hr)
      obtain ⟨f, hf, -⟩ := h.exists_context? hb
      cases htrigger
      rw [hf]
      rfl
  | single pattern scope => cases htrigger
  | inclusion name => cases htrigger

theorem closed_build {g : Grammar} {compiler : Pattern.Compiler}
    {lx : Lexer} (h : Lexer.build g compiler = .ok lx) : lx.Closed := by
  have hbuilt := Lexer.built_of_build h
  have hb := hbuilt.blocks
  constructor
  · exact hbuilt.root.isSome_context? hbuilt
      (listed_expanded hb fun r hr => listed_of_mem_rules hb hr)
  · intro f hf
    have hmem := hbuilt.mem_written hf
    exact (hbuilt.inside f hf).isSome_context? hbuilt
      (listed_expanded hb fun r hr => listed_of_mem_written hb hmem hr)

-- =============================================================== hits

section

variable {size pos depth : Nat}

/-- Of two hits one is taken. -/
theorem Hit.earlier_eq_some {found next : Option (Hit size pos depth)}
    {hit : Hit size pos depth} (h : earlier found next = some hit) :
    found = some hit ∨ next = some hit := by
  unfold earlier at h
  split at h
  · exact .inr h
  · exact .inl h
  · split at h
    · exact .inr h
    · exact .inl h

end

variable {lx : Lexer} {text : Array Char} {pos : Nat}

/-- The hit taken among those of some candidates is one of them, or the
one there was before. -/
theorem hit_of_foldl {depth : Nat} {found : List Candidate}
    {first : Option (Hit text.size pos depth)}
    {hit : Hit text.size pos depth}
    (h : found.foldl (fun f c => Hit.earlier f (c.hit? text pos _)) first
      = some hit) :
    first = some hit ∨ ∃ c ∈ found, c.hit? text pos depth = some hit := by
  induction found generalizing first with
  | nil => exact .inl h
  | cons c found ih =>
      rcases ih h with h | ⟨c', hc', h⟩
      · rcases Hit.earlier_eq_some h with h | h
        · exact .inl h
        · exact .inr ⟨c, by simp, h⟩
      · exact .inr ⟨c', by simp [hc'], h⟩

/-- What a candidate's hit does is what the candidate does. -/
theorem Candidate.action_of_hit? {c : Candidate} {depth : Nat}
    {hit : Hit text.size pos depth} (h : c.hit? text pos depth = some hit) :
    hit.action = some c.action := by
  unfold Candidate.hit? at h
  obtain ⟨⟨span, hs⟩, -, rfl⟩ := Option.map_eq_some_iff.1 h
  rfl

namespace Lexer

/-- A block that a hit enters is there. -/
theorem Closed.context?_of_hit? (h : lx.Closed) {frames : List Context}
    (hframes : ∀ f ∈ frames, f ∈ lx.contexts)
    {hit : Hit text.size pos frames.length} {name : String}
    (hhit : lx.hit? text pos frames = some hit)
    (hname : hit.action = some (.enter name)) :
    ∃ f ∈ lx.contexts, lx.context? name = some f := by
  have hsome : (lx.context? name).isSome := by
    cases frames with
    | nil =>
        rcases hit_of_foldl hhit with hfirst | ⟨c, hc, hhit⟩
        · cases hfirst
        · rw [Candidate.action_of_hit? hhit] at hname
          exact h.root c hc name (Option.some.inj hname)
    | cons top below =>
        rcases hit_of_foldl hhit with hfirst | ⟨c, hc, hhit⟩
        · -- the innermost block is closed
          obtain ⟨span, -, rfl⟩ := Option.map_eq_some_iff.1 hfirst
          cases hname
        · rw [Candidate.action_of_hit? hhit] at hname
          exact h.contexts top (hframes top (by simp)) c hc name
            (Option.some.inj hname)
  obtain ⟨f, hf⟩ := Option.isSome_iff_exists.1 hsome
  exact ⟨f, List.mem_of_find?_eq_some hf, hf⟩

-- ============================================================= tokens

theorem disorder?_mono {least more : Int} {tokens : List Token}
    (h : Token.disorder? more tokens = none) (hle : least ≤ more) :
    Token.disorder? least tokens = none := by
  cases tokens with
  | nil => rfl
  | cons t tokens =>
      rw [Token.disorder?] at h ⊢
      split at h
      · cases h
      · rw [if_neg (by omega)]
        exact h

/-- A piece of a line in front of tokens that are in order. -/
theorem disorder?_piece (scopes : List String) {least start stop : Nat}
    {tokens : List Token} (h : Token.disorder? stop tokens = none)
    (hleast : least ≤ start) (hstart : start ≤ stop) :
    Token.disorder? least (piece start stop scopes ++ tokens) = none := by
  unfold piece
  split
  · show Token.disorder? least (_ :: tokens) = none
    rw [Token.disorder?, if_neg (by dsimp only; omega)]
    exact disorder?_mono h (by dsimp only; omega)
  · exact disorder?_mono h (by omega)

/-- A hit: what stands in front of it, the match itself, and then the rest
of the line, if the lexer gets through that. -/
theorem exists_step {rest : Except Fault (List Token × List Context)}
    {size pos : Nat} (span : Pattern.Span size pos)
    (before within : List String)
    (hrest : ∃ tokens last, rest = .ok (tokens, last)
      ∧ Token.disorder? span.stop tokens = none) :
    ∃ tokens last, (do
        let (tokens, last) ← rest
        return (piece pos span.start before
          ++ piece span.start span.stop within ++ tokens, last))
        = (.ok (tokens, last) : Except Fault (List Token × List Context))
      ∧ Token.disorder? pos tokens = none := by
  obtain ⟨tokens, last, rfl, htokens⟩ := hrest
  refine ⟨_, last, rfl, ?_⟩
  rw [List.append_assoc]
  have hwithin := disorder?_piece within htokens
    (Nat.le_refl span.start) span.start_le_stop
  exact disorder?_piece before hwithin (Nat.le_refl pos) span.pos_le_start

/-- A lexer gets through every line, from any place on and with any of its
blocks open, with tokens that are in order. -/
theorem Closed.exists_run (h : lx.Closed) (text : Array Char) (pos : Nat)
    (frames : List Context) (hpos : pos ≤ text.size)
    (hframes : ∀ f ∈ frames, f ∈ lx.contexts) :
    ∃ tokens last, lx.run text pos frames = .ok (tokens, last)
      ∧ Token.disorder? pos tokens = none := by
  induction pos, frames using Lexer.run.induct lx text with
  | case1 pos frames hhit =>
      rw [run.eq_def, hhit]
      refine ⟨_, _, rfl, ?_⟩
      have hlast := disorder?_piece (lx.scopes frames)
        (show Token.disorder? text.size [] = none from rfl)
        (Nat.le_refl pos) hpos
      rwa [List.append_nil] at hlast
  | case2 pos frames span _ moves hhit ih =>
      rw [run.eq_def, hhit]
      refine exists_step span _ _ (ih span.stop_le_size ?_)
      exact fun f hf => hframes f (List.mem_of_mem_tail hf)
  | case3 pos frames span scope _ moves hhit ih =>
      rw [run.eq_def, hhit]
      exact exists_step span _ _ (ih span.stop_le_size hframes)
  | case4 pos frames span name _ hnone moves hhit =>
      obtain ⟨f, -, hf⟩ := h.context?_of_hit? hframes hhit rfl
      rw [hnone] at hf
      cases hf
  | case5 pos frames span name _ c hc moves hhit ih =>
      rw [run.eq_def, hhit]
      dsimp only
      rw [hc]
      refine exists_step span _ _ (ih span.stop_le_size ?_)
      intro f hf
      rcases List.mem_cons.1 hf with rfl | hf
      · exact List.mem_of_find?_eq_some hc
      · exact hframes f hf

/-- The engine of a lexer that could be built never fails. -/
theorem total_engine {g : Grammar} {compiler : Pattern.Compiler}
    (h : build g compiler = .ok lx) : lx.engine.Total := by
  intro line s
  obtain ⟨tokens, last, hrun, htokens⟩ := (closed_build h).exists_run
    line.toArray 0 (lx.entered s) (Nat.zero_le _)
    fun _ => mem_contexts_of_entered
  unfold engine
  rw [hrun]
  refine Engine.exists_answer ?_ _
  split
  · rfl
  · exact htokens

-- ============================================================ answers

theorem answer_ok {tokens : List Token} {next : TokenState}
    {a : LineResult} (h : Engine.answer tokens next = .ok a) :
    a.tokens = tokens ∧ a.next = next := by
  unfold Engine.answer LineResult.check at h
  split at h
  · next answer hanswer =>
    split at hanswer
    · cases hanswer
      cases h
      exact ⟨rfl, rfl⟩
    · cases hanswer
  · cases h

/-- What an answer of the engine is made of. -/
theorem run_of_engine {line : Line} {s : TokenState} {a : LineResult}
    (h : lx.engine line s = .ok a) :
    ∃ tokens last, lx.run line.toArray 0 (lx.entered s) = .ok (tokens, last)
      ∧ a.tokens = (if tokens.isEmpty then [⟨0, 0, lx.scopes last⟩]
        else tokens)
      ∧ a.next = left last := by
  unfold engine at h
  obtain ⟨⟨tokens, last⟩, hrun, h⟩ := bind_eq_ok h
  exact ⟨tokens, last, hrun, answer_ok h⟩

end Lexer

end Relex.Grammar
