/-
The lexer that a grammar describes, and that lexers are that one.

The description reads the grammar as it is written. At each place, with
some blocks open, matches are on offer (`Offers`): of the closing pattern
of the innermost block the leftmost, which may be empty, and of each rule
in force there the leftmost that takes up a character. Each offer has a
rank: the closing pattern comes first, then the rules in the order in
which they are written, inclusions expanded. What is taken is the offer
that starts first, and of those that start at one place the one of the
lowest rank (`Chosen`). Taking it gives the tokens up to its end, and may
close or open a block (`Step`); where nothing is on offer the line ends
(`Lexes`).

That leaves no freedom: a line has one result (`Lexes.unique`). A lexer
that could be built comes to it (`lexes_by_priority`). What it does
otherwise, it keeps the best hit it has found so far, and looks blocks up
by name. What a pattern matches is for the compiler to say, here as
there.
-/
import Mathlib
import Relex.Proofs.Grammar.Rounds
import Relex.Proofs.Pattern.Searching

namespace Relex

open Pattern (Leftmost)

-- ======================================================= description

/-- What a rule is tried by; an inclusion stands for other rules. -/
def Rule.pattern? : Rule → Option String
  | .single pattern _ => some pattern
  | .block _ opening _ _ _ => some opening
  | .inclusion _ => none

namespace Grammar

open Lexer (piece)
open Pattern (Compiler)

/-- The match of the pattern at `start` ends at `stop`, if it is compiled
so. -/
def Matches (compiler : Compiler) (pattern : String) (text : Array Char)
    (start stop : Nat) : Prop :=
  ∃ matcher, compiler pattern = .ok matcher ∧ matcher.At text start stop

/-- The scopes inside some open blocks, the innermost first. -/
def scopes (g : Grammar) (stack : List Block) : List String :=
  g.scope :: stack.reverse.map (·.scope)

/-- The rules in force inside some open blocks, the innermost first. -/
def active (g : Grammar) : List Block → List Rule
  | [] => g.expanded g.rules
  | top :: _ => g.expanded top.rules

/-- A match is on offer from a place on, with some blocks open, the
innermost first: of its closing pattern the leftmost, or of a rule in
force the leftmost that is not empty. -/
inductive Offers (g : Grammar) (compiler : Compiler) (text : Array Char)
    (pos : Nat) : List Block → (rank start stop : Nat) → Option Rule → Prop
  | closing {top below start stop}
      (first : Leftmost (Matches compiler top.closing text) pos start
        stop) :
      Offers g compiler text pos (top :: below) 0 start stop none
  | rule {stack i r pattern start stop}
      (inForce : (g.active stack)[i]? = some r)
      (tried : r.pattern? = some pattern)
      (first : Leftmost
        (fun s e => Matches compiler pattern text s e ∧ s < e)
        pos start stop) :
      Offers g compiler text pos stack (i + 1) start stop (some r)

/-- The offer that is taken: the one that starts first, and among those
that start there, the one of the lowest rank. -/
structure Chosen (g : Grammar) (compiler : Compiler) (text : Array Char)
    (pos : Nat) (stack : List Block) (rank start stop : Nat)
    (what : Option Rule) : Prop where
  offered : g.Offers compiler text pos stack rank start stop what
  least : ∀ rank' start' stop' what',
    g.Offers compiler text pos stack rank' start' stop' what' →
    start < start' ∨ (start = start' ∧ rank ≤ rank')

/-- One step: what is in front of the match, and the match itself. The
end of a block has the scopes of the block, and so has its beginning. -/
inductive Step (g : Grammar) (compiler : Compiler) (text : Array Char)
    (pos : Nat) : List Block → List Token → Nat → List Block → Prop
  | closes {top below rank start stop}
      (taken : g.Chosen compiler text pos (top :: below) rank start stop
        none) :
      Step g compiler text pos (top :: below)
        (piece pos start (g.scopes (top :: below))
          ++ piece start stop (g.scopes (top :: below)))
        stop below
  | classifies {stack rank start stop pattern scope}
      (taken : g.Chosen compiler text pos stack rank start stop
        (some (.single pattern scope))) :
      Step g compiler text pos stack
        (piece pos start (g.scopes stack)
          ++ piece start stop (g.scopes stack ++ [scope]))
        stop stack
  | enters {stack rank start stop} {b : Block}
      (taken : g.Chosen compiler text pos stack rank start stop
        (some b.rule)) :
      Step g compiler text pos stack
        (piece pos start (g.scopes stack)
          ++ piece start stop (g.scopes (b :: stack)))
        stop (b :: stack)

/-- From a place on, with some blocks open, the rest of a line has these
tokens, and leaves these blocks open. -/
inductive Lexes (g : Grammar) (compiler : Compiler) (text : Array Char) :
    Nat → List Block → List Token → List Block → Prop
  | rest {pos stack}
      (nothing : ∀ rank start stop what,
        ¬g.Offers compiler text pos stack rank start stop what) :
      Lexes g compiler text pos stack
        (piece pos text.size (g.scopes stack)) stack
  | step {pos pos' stack stack' now later last}
      (first : g.Step compiler text pos stack now pos' stack')
      (more : Lexes g compiler text pos' stack' later last) :
      Lexes g compiler text pos stack (now ++ later) last

/-- The tokens of a line entered in a state, and the state in which it
leaves. A line that gives no token has one that is empty. -/
def Tokenizes (g : Grammar) (compiler : Compiler) (line : Line)
    (s : TokenState) (tokens : List Token) (next : TokenState) : Prop :=
  ∃ pieces last, g.Lexes compiler line.toArray 0 (g.opened s) pieces last
    ∧ tokens = (if pieces = [] then [⟨0, 0, g.scopes last⟩] else pieces)
    ∧ next = .stack ⟨last.reverse.map (·.name)⟩

-- ==================================================== only one result

theorem Block.rule_injective {b b' : Block} (h : b.rule = b'.rule) :
    b = b' := by
  unfold Block.rule at h
  cases b
  cases b'
  cases h
  rfl

variable {g : Grammar} {compiler : Compiler} {text : Array Char}
  {pos pos' pos'' : Nat}
  {stack stack' stack'' last last' : List Block}
  {tokens tokens' now now' : List Token}
  {rank rank' start start' stop stop' : Nat} {what what' : Option Rule}

theorem Matches.stop_eq {pattern : String}
    (h : Matches compiler pattern text start stop)
    (h' : Matches compiler pattern text start stop') : stop = stop' := by
  obtain ⟨m, hm, hat⟩ := h
  obtain ⟨m', hm', hat'⟩ := h'
  rw [hm] at hm'
  cases hm'
  exact hat.stop_eq hat'

/-- A rank has one offer. -/
theorem Offers.unique
    (h : g.Offers compiler text pos stack rank start stop what)
    (h' : g.Offers compiler text pos stack rank start' stop' what') :
    start = start' ∧ stop = stop' ∧ what = what' := by
  cases h with
  | closing first =>
      cases h' with
      | closing first' =>
          obtain rfl := first.start_eq first'
          exact ⟨rfl, first.holds.stop_eq first'.holds, rfl⟩
  | rule inForce tried first =>
      cases h' with
      | rule inForce' tried' first' =>
          rw [inForce] at inForce'
          cases inForce'
          rw [tried] at tried'
          cases tried'
          obtain rfl := first.start_eq first'
          exact ⟨rfl, first.holds.1.stop_eq first'.holds.1, rfl⟩

theorem Offers.mem_active {r : Rule}
    (h : g.Offers compiler text pos stack rank start stop (some r)) :
    r ∈ g.active stack := by
  cases h with
  | rule inForce tried first => exact List.mem_of_getElem? inForce

theorem Chosen.unique
    (h : g.Chosen compiler text pos stack rank start stop what)
    (h' : g.Chosen compiler text pos stack rank' start' stop' what') :
    start = start' ∧ stop = stop' ∧ what = what' := by
  have hle := h.least _ _ _ _ h'.offered
  have hle' := h'.least _ _ _ _ h.offered
  have hrank : rank = rank' := by omega
  rw [← hrank] at h'
  exact h.offered.unique h'.offered

theorem Step.unique (h : g.Step compiler text pos stack now pos' stack')
    (h' : g.Step compiler text pos stack now' pos'' stack'') :
    now = now' ∧ pos' = pos'' ∧ stack' = stack'' := by
  cases h with
  | closes taken =>
      cases h' with
      | closes taken' =>
          obtain ⟨rfl, rfl, -⟩ := taken.unique taken'
          exact ⟨rfl, rfl, rfl⟩
      | classifies taken' => cases (taken.unique taken').2.2
      | enters taken' => cases (taken.unique taken').2.2
  | classifies taken =>
      cases h' with
      | closes taken' => cases (taken.unique taken').2.2
      | classifies taken' =>
          obtain ⟨rfl, rfl, hwhat⟩ := taken.unique taken'
          cases hwhat
          exact ⟨rfl, rfl, rfl⟩
      | enters taken' => cases (taken.unique taken').2.2
  | enters taken =>
      cases h' with
      | closes taken' => cases (taken.unique taken').2.2
      | classifies taken' => cases (taken.unique taken').2.2
      | enters taken' =>
          obtain ⟨rfl, rfl, hwhat⟩ := taken.unique taken'
          obtain rfl := Block.rule_injective (Option.some.inj hwhat)
          exact ⟨rfl, rfl, rfl⟩

theorem Step.offered (h : g.Step compiler text pos stack now pos' stack') :
    ∃ rank start stop what,
      g.Offers compiler text pos stack rank start stop what := by
  cases h with
  | closes taken | classifies taken | enters taken =>
      exact ⟨_, _, _, _, taken.offered⟩

/-- The rest of a line has one result. -/
theorem Lexes.unique (h : g.Lexes compiler text pos stack tokens last)
    (h' : g.Lexes compiler text pos stack tokens' last') :
    tokens = tokens' ∧ last = last' := by
  induction h generalizing tokens' last' with
  | rest nothing =>
      cases h' with
      | rest => exact ⟨rfl, rfl⟩
      | step first =>
          obtain ⟨_, _, _, _, hoffer⟩ := first.offered
          exact absurd hoffer (nothing _ _ _ _)
  | step first more ih =>
      cases h' with
      | rest nothing =>
          obtain ⟨_, _, _, _, hoffer⟩ := first.offered
          exact absurd hoffer (nothing _ _ _ _)
      | step first' more' =>
          obtain ⟨rfl, rfl, rfl⟩ := first.unique first'
          obtain ⟨rfl, rfl⟩ := ih more'
          exact ⟨rfl, rfl⟩

-- ================================================== the lexer's hits

section

variable {size depth : Nat} {hits : List (Option (Hit size pos depth))}
  {hit : Hit size pos depth} {found next : Option (Hit size pos depth)}

/-- Among hits that are listed by rank, the one that starts first, and
among those that start there the one of the lowest rank. -/
structure Best (hits : List (Option (Hit size pos depth))) (rank : Nat)
    (hit : Hit size pos depth) : Prop where
  found : hits[rank]? = some (some hit)
  least : ∀ (rank' : Nat) (hit' : Hit size pos depth),
    hits[rank']? = some (some hit') →
    hit.span.start < hit'.span.start
      ∨ (hit.span.start = hit'.span.start ∧ rank ≤ rank')

/-- What is left of some hits when of any two the earlier is kept: the
best, or nothing if there is none. -/
def Kept (hits : List (Option (Hit size pos depth))) :
    Option (Hit size pos depth) → Prop
  | some hit => ∃ rank, Best hits rank hit
  | none => ∀ (rank : Nat) (hit : Hit size pos depth),
    hits[rank]? ≠ some (some hit)

/-- With one more at the end of a list, a hit is one of those before, or
the last. -/
theorem or_last_of_hit
    (h : (hits ++ [next])[rank]? = some (some hit)) :
    hits[rank]? = some (some hit) ∨ (rank = hits.length ∧ next = hit) := by
  rw [List.getElem?_append] at h
  split at h
  · exact .inl h
  · rw [List.getElem?_singleton] at h
    split at h
    · exact .inr ⟨by omega, Option.some.inj h⟩
    · cases h

/-- The best stays the best if what is added does not start in front of
it. -/
theorem Best.concat (h : Best hits rank hit)
    (hnext : ∀ hit', next = some hit' →
      hit.span.start ≤ hit'.span.start) :
    Best (hits ++ [next]) rank hit := by
  have hrank : rank < hits.length :=
    (List.getElem?_eq_some_iff.1 h.found).1
  constructor
  · rw [List.getElem?_append_left hrank]
    exact h.found
  · intro rank' hit' hget
    rcases or_last_of_hit hget with hold | ⟨hlast, hnew⟩
    · exact h.least rank' hit' hold
    · have := hnext hit' hnew
      omega

/-- What is added is the best if it starts in front of all others. -/
theorem best_last (h : ∀ (rank : Nat) (hit' : Hit size pos depth),
    hits[rank]? = some (some hit') → hit.span.start < hit'.span.start) :
    Best (hits ++ [some hit]) hits.length hit := by
  constructor
  · simp
  · intro rank' hit' hget
    rcases or_last_of_hit hget with hold | ⟨hlast, hnew⟩
    · exact .inl (h rank' hit' hold)
    · cases hnew
      exact .inr ⟨rfl, Nat.le_of_eq hlast.symm⟩

/-- One more hit, at the end of the list. -/
theorem Kept.concat (h : Kept hits found)
    (next : Option (Hit size pos depth)) :
    Kept (hits ++ [next]) (Hit.earlier found next) := by
  cases found with
  | none =>
      cases next with
      | none =>
          intro rank hit hget
          rcases or_last_of_hit hget with hold | ⟨-, hnew⟩
          · exact h rank hit hold
          · cases hnew
      | some b =>
          refine ⟨hits.length, best_last fun rank hit hget => ?_⟩
          exact absurd hget (h rank hit)
  | some a =>
      obtain ⟨rank, hbest⟩ := h
      cases next with
      | none => exact ⟨rank, hbest.concat nofun⟩
      | some b =>
          unfold Hit.earlier
          dsimp only
          split
          · next hlt =>
            refine ⟨hits.length, best_last fun rank' hit' hget => ?_⟩
            have := hbest.least rank' hit' hget
            omega
          · next hle =>
            refine ⟨rank, hbest.concat fun hit' hnew => ?_⟩
            cases hnew
            exact Nat.le_of_not_lt hle

theorem kept_foldl (hits : List (Option (Hit size pos depth))) :
    Kept hits (hits.foldl Hit.earlier none) := by
  induction hits using List.reverseRecOn with
  | nil => simp [Kept]
  | append_singleton hits next ih =>
      rw [List.foldl_append, List.foldl_cons, List.foldl_nil]
      exact ih.concat next

end

variable {lx : Lexer} {frames frames' : List Context}

/-- The hits by rank: that of the closing pattern, and those of the
candidates in order. -/
def Lexer.hits (lx : Lexer) (text : Array Char) (pos : Nat) :
    (frames : List Context) → List (Option (Hit text.size pos frames.length))
  | [] => none :: lx.root.map (·.hit? text pos _)
  | top :: below => top.hit? text pos below.length
    :: top.candidates.map (·.hit? text pos _)

/-- The hit to be taken is the best. -/
theorem Lexer.kept_hit? (lx : Lexer) (text : Array Char) (pos : Nat)
    (frames : List Context) :
    Kept (lx.hits text pos frames) (lx.hit? text pos frames) := by
  have hkept := kept_foldl (lx.hits text pos frames)
  cases frames with
  | nil =>
      unfold hits at hkept
      rw [List.foldl_cons, List.foldl_map] at hkept
      exact hkept
  | cons top below =>
      unfold hits at hkept
      rw [List.foldl_cons, List.foldl_map] at hkept
      exact hkept

-- ==================================================== hits are offers

/-- A pattern that was compiled matches as its matcher does. -/
theorem matches_eq {pattern : String} {m : Pattern.Matcher}
    (h : Lexer.compile g compiler pattern = .ok m) :
    Matches compiler pattern text = m.At text := by
  unfold Lexer.compile at h
  split at h
  · next m' hm' =>
    cases h
    funext s e
    refine propext ⟨?_, fun hat => ⟨m, hm', hat⟩⟩
    intro ⟨m'', hm'', hat⟩
    rw [hm'] at hm''
    cases hm''
    exact hat
  · cases h

/-- What happens at a hit is what the offer is: the end of the innermost
block, or the match of a rule. -/
inductive Does : Option Action → Option Rule → Prop
  | closes : Does none none
  | classifies {pattern scope} :
    Does (some (.classify scope)) (some (.single pattern scope))
  | enters {b : Block} : Does (some (.enter b.name)) (some b.rule)

theorem does_of_trigger? {r : Rule} {pattern : String} {action : Action}
    (h : r.trigger? = some (pattern, action)) :
    r.pattern? = some pattern ∧ Does (some action) (some r) := by
  cases r with
  | single p scope =>
      cases h
      exact ⟨rfl, .classifies⟩
  | block name opening closing scope rules =>
      cases h
      exact ⟨rfl, .enters (b := ⟨name, pattern, closing, scope, rules⟩)⟩
  | inclusion name => cases h

section

variable {depth : Nat}

/-- A candidate's hit is the leftmost match of its pattern that is not
empty. -/
theorem Candidate.leftmost_of_hit? {c : Candidate}
    {hit : Hit text.size pos depth} (h : c.hit? text pos depth = some hit) :
    Leftmost (c.matcher.AtNonEmpty text) pos hit.span.start hit.span.stop := by
  unfold Candidate.hit? at h
  obtain ⟨found, hfound, rfl⟩ := Option.map_eq_some_iff.1 h
  exact Pattern.Matcher.searchNonEmpty_eq_some_iff.1 (by rw [hfound]; rfl)

theorem Candidate.exists_hit? {c : Candidate}
    (h : Leftmost (c.matcher.AtNonEmpty text) pos start stop) :
    ∃ hit, c.hit? text pos depth = some hit ∧ hit.span.start = start := by
  obtain ⟨span, rfl, rfl⟩ := h.holds.1.exists_span h.pos_le
  obtain ⟨found, hfound, rfl⟩ := Option.map_eq_some_iff.1
    (Pattern.Matcher.searchNonEmpty_eq_some_iff.2 h)
  unfold Candidate.hit?
  rw [hfound]
  exact ⟨_, rfl, rfl⟩

/-- The hit that closes a block is the leftmost match of its closing
pattern. -/
theorem Context.leftmost_of_hit? {c : Context}
    {hit : Hit text.size pos (depth + 1)}
    (h : c.hit? text pos depth = some hit) :
    hit.action = none
      ∧ Leftmost (c.closing.At text) pos hit.span.start hit.span.stop := by
  unfold Context.hit? at h
  obtain ⟨span, hspan, rfl⟩ := Option.map_eq_some_iff.1 h
  exact ⟨rfl, Pattern.Matcher.search_eq_some_iff.1 hspan⟩

theorem Context.exists_hit? {c : Context}
    (h : Leftmost (c.closing.At text) pos start stop) :
    ∃ hit, c.hit? text pos depth = some hit ∧ hit.span.start = start := by
  obtain ⟨span, rfl, rfl⟩ := h.holds.exists_span h.pos_le
  unfold Context.hit?
  rw [Pattern.Matcher.search_eq_some_iff.2 h]
  exact ⟨_, rfl, rfl⟩

end

namespace Lexer

/-- The candidates in force with some blocks open. -/
def inForce (lx : Lexer) : List Context → List Candidate
  | [] => lx.root
  | top :: _ => top.candidates

theorem hits_succ (i : Nat) :
    (lx.hits text pos frames)[i + 1]?
      = (lx.inForce frames)[i]?.map (·.hit? text pos _) := by
  cases frames with
  | nil => simp [hits, inForce]
  | cons top below => simp [hits, inForce]

theorem Built.tried_inForce (h : lx.Built g compiler)
    (hframes : ∀ f ∈ frames, f ∈ lx.contexts) :
    Tried g compiler (lx.inForce frames)
      (g.active (frames.map (·.block))) := by
  cases frames with
  | nil => exact h.root
  | cons top below => exact h.inside top (hframes top (by simp))

/-- Each hit is on offer under its rank. -/
theorem Built.offers_of_hit (h : lx.Built g compiler)
    (hframes : ∀ f ∈ frames, f ∈ lx.contexts)
    {hit : Hit text.size pos frames.length}
    (hhit : (lx.hits text pos frames)[rank]? = some (some hit)) :
    ∃ what, g.Offers compiler text pos (frames.map (·.block)) rank
        hit.span.start hit.span.stop what
      ∧ Does hit.action what := by
  cases rank with
  | zero =>
      cases frames with
      | nil => cases Option.some.inj hhit
      | cons top below =>
          obtain ⟨haction, hfirst⟩ :=
            Context.leftmost_of_hit? (Option.some.inj hhit)
          rw [← matches_eq (h.closing top (hframes top (by simp)))] at hfirst
          rw [haction]
          exact ⟨none, .closing hfirst, .closes⟩
  | succ i =>
      rw [hits_succ] at hhit
      obtain ⟨c, hc, hhit⟩ := Option.map_eq_some_iff.1 hhit
      obtain ⟨r, hr, pattern, htrigger, hcompile⟩ :=
        (h.tried_inForce hframes).rule i c hc
      obtain ⟨htried, hdoes⟩ := does_of_trigger? htrigger
      have hfirst := Candidate.leftmost_of_hit? hhit
      unfold Pattern.Matcher.AtNonEmpty at hfirst
      rw [← matches_eq hcompile] at hfirst
      rw [Candidate.action_of_hit? hhit]
      exact ⟨some r, .rule hr htried hfirst, hdoes⟩

/-- Each offer is a hit under its rank. -/
theorem Built.hit_of_offers (h : lx.Built g compiler)
    (hframes : ∀ f ∈ frames, f ∈ lx.contexts)
    (hoffers : g.Offers compiler text pos (frames.map (·.block)) rank
      start stop what) :
    ∃ hit, (lx.hits text pos frames)[rank]? = some (some hit)
      ∧ hit.span.start = start := by
  generalize hstack : frames.map (·.block) = stack at hoffers
  cases hoffers with
  | closing first =>
      cases frames with
      | nil => cases hstack
      | cons top below =>
          cases hstack
          rw [matches_eq (h.closing top (hframes top (by simp)))] at first
          obtain ⟨hit, hhit, hstart⟩ := Context.exists_hit? first
          exact ⟨hit, congrArg some hhit, hstart⟩
  | rule inForce tried first =>
      next i r pattern =>
      rw [← hstack] at inForce
      obtain ⟨c, hc, pattern', htrigger, hcompile⟩ :=
        (h.tried_inForce hframes).candidate i r inForce
      rw [(does_of_trigger? htrigger).1] at tried
      cases tried
      rw [matches_eq hcompile] at first
      obtain ⟨hit, hhit, hstart⟩ := Candidate.exists_hit? first
      refine ⟨hit, ?_, hstart⟩
      rw [hits_succ, hc]
      exact congrArg some hhit

-- ======================================================= going along

/-- The hit that is taken is the chosen offer. -/
theorem Built.chosen (h : lx.Built g compiler)
    (hframes : ∀ f ∈ frames, f ∈ lx.contexts)
    {hit : Hit text.size pos frames.length}
    (hhit : lx.hit? text pos frames = some hit) :
    ∃ rank what, g.Chosen compiler text pos (frames.map (·.block)) rank
        hit.span.start hit.span.stop what
      ∧ Does hit.action what := by
  have hkept := lx.kept_hit? text pos frames
  rw [hhit] at hkept
  obtain ⟨rank, hfound, hleast⟩ := hkept
  obtain ⟨what, hoffered, hdoes⟩ := h.offers_of_hit hframes hfound
  refine ⟨rank, what, ⟨hoffered, ?_⟩, hdoes⟩
  intro rank' start' stop' what' hoffers
  obtain ⟨hit', hhit', rfl⟩ := h.hit_of_offers hframes hoffers
  exact hleast rank' hit' hhit'

/-- Where no hit is found nothing is on offer. -/
theorem Built.nothing (h : lx.Built g compiler)
    (hframes : ∀ f ∈ frames, f ∈ lx.contexts)
    (hhit : lx.hit? text pos frames = none) :
    ¬g.Offers compiler text pos (frames.map (·.block)) rank start stop
      what := by
  intro hoffers
  have hkept := lx.kept_hit? text pos frames
  rw [hhit] at hkept
  obtain ⟨hit, hfound, -⟩ := h.hit_of_offers hframes hoffers
  exact hkept rank hit hfound

theorem Built.scopes_eq (h : lx.Built g compiler) (frames : List Context) :
    lx.scopes frames = g.scopes (frames.map (·.block)) := by
  unfold scopes Grammar.scopes
  rw [h.grammar, ← List.map_reverse, List.map_map]
  rfl

/-- A block whose rule is on offer is written in the grammar. -/
theorem Built.mem_written_of_offers (h : lx.Built g compiler)
    (hframes : ∀ f ∈ frames, f ∈ lx.contexts) {b : Block}
    (hoffers : g.Offers compiler text pos (frames.map (·.block)) rank
      start stop (some b.rule)) : b ∈ g.written := by
  have hmem := hoffers.mem_active
  have hb := h.blocks
  cases frames with
  | nil =>
      exact listed_expanded hb (fun _ => listed_of_mem_rules hb) _ hmem
  | cons top below =>
      have htop := h.mem_written (hframes top (by simp))
      exact listed_expanded hb
        (fun _ => listed_of_mem_written hb htop) _ hmem

/-- A round of the lexer is a step of the description, with the blocks of
the contexts open. -/
theorem Built.step (h : lx.Built g compiler)
    (hframes : ∀ f ∈ frames, f ∈ lx.contexts)
    (hround : lx.Round text pos frames now pos' frames') :
    g.Step compiler text pos (frames.map (·.block)) now pos'
      (frames'.map (·.block)) := by
  cases hround with
  | @closes span moves taken =>
      obtain ⟨rank, what, hchosen, hdoes⟩ := h.chosen hframes taken
      cases hdoes
      cases frames with
      | nil => simp at moves
      | cons top below =>
          rw [h.scopes_eq]
          exact .closes hchosen
  | @classifies span scope moves taken =>
      obtain ⟨rank, what, hchosen, hdoes⟩ := h.chosen hframes taken
      cases hdoes
      rw [h.scopes_eq]
      exact .classifies hchosen
  | @enters span name moves c taken context =>
      obtain ⟨rank, what, hchosen, hdoes⟩ := h.chosen hframes taken
      cases hdoes with
      | @enters b =>
          have hb := h.mem_written_of_offers hframes hchosen.offered
          obtain ⟨f, hf, hblock⟩ := h.exists_context? hb
          rw [context] at hf
          cases hf
          rw [h.scopes_eq, h.scopes_eq, List.map_cons, hblock]
          exact .enters hchosen

/-- The rounds of the lexer go through the line as the description
does. -/
theorem Built.lexes (h : lx.Built g compiler) {count : Nat}
    {out : List Context}
    (hrounds : lx.Rounds text count pos frames tokens out)
    (hframes : ∀ f ∈ frames, f ∈ lx.contexts) :
    g.Lexes compiler text pos (frames.map (·.block)) tokens
      (out.map (·.block)) := by
  induction hrounds with
  | last missed =>
      rw [h.scopes_eq]
      exact .rest fun _ _ _ _ => h.nothing hframes missed
  | more first rest ih =>
      exact .step (h.step hframes first) (ih (first.mem_contexts hframes))

end Lexer

-- ========================================================= theorem

/-- Nothing in force matches at the place: not the closing pattern of the
innermost block, and no rule but with an empty match. -/
structure Unmatched (g : Grammar) (compiler : Compiler)
    (text : Array Char) (stack : List Block) (s : Nat) : Prop where
  closing : ∀ top ∈ stack.head?, ∀ e, ¬Matches compiler top.closing text s e
  rule : ∀ r ∈ g.active stack, ∀ pattern ∈ r.pattern?, ∀ e,
    Matches compiler pattern text s e → ¬s < e

/-- In front of the match that is taken nothing matches. -/
theorem Chosen.unmatched
    (h : g.Chosen compiler text pos stack rank start stop what) {s : Nat}
    (hpos : pos ≤ s) (hs : s < start) :
    g.Unmatched compiler text stack s := by
  constructor
  · intro top htop e hmatch
    cases stack with
    | nil => cases htop
    | cons top' below =>
        cases htop
        obtain ⟨start', stop', hfirst, hle⟩ := Leftmost.exists_le hmatch hpos
        have := h.least _ _ _ _ (.closing hfirst)
        omega
  · intro r hr pattern hpattern e hmatch hlt
    obtain ⟨i, hi⟩ := List.getElem?_of_mem hr
    obtain ⟨start', stop', hfirst, hle⟩ := Leftmost.exists_le
      (P := fun s e => Matches compiler pattern text s e ∧ s < e)
      ⟨hmatch, hlt⟩ hpos
    have := h.least _ _ _ _ (.rule hi hpattern hfirst)
    omega

/-- Whatever the compiler, a lexer that could be built answers for every
line and every state, and what it answers is what the grammar describes,
and nothing else is: at each place the match that starts first is taken,
and of those that start there the closing pattern's, or else that of the
rule written first. Nothing in force matches in front of what is taken. -/
theorem lexes_by_priority {g : Grammar} {compiler : Compiler} {lx : Lexer}
    (h : Lexer.build g compiler = .ok lx) (line : Line) (s : TokenState) :
    ∃ a, lx.engine line s = .ok a
      ∧ (∀ tokens next, g.Tokenizes compiler line s tokens next
        ↔ tokens = a.tokens ∧ next = a.next)
      ∧ ∀ pos stack rank start stop what,
        g.Chosen compiler line.toArray pos stack rank start stop what →
        ∀ place, pos ≤ place → place < start →
          g.Unmatched compiler line.toArray stack place := by
  have hbuilt := Lexer.built_of_build h
  obtain ⟨a, ha⟩ := Lexer.total_engine h line s
  obtain ⟨pieces, out, hrun, htokens, hnext⟩ := Lexer.run_of_engine ha
  obtain ⟨count, hrounds⟩ := Lexer.run_eq_ok_iff.1 hrun
  -- the run of the lexer, read as choices by priority
  have hlexes := hbuilt.lexes hrounds
    fun _ => Lexer.mem_contexts_of_entered
  rw [hbuilt.map_entered] at hlexes
  have hempty : a.tokens
      = if pieces = [] then [⟨0, 0, g.scopes (out.map (·.block))⟩]
        else pieces := by
    rw [htokens, hbuilt.scopes_eq]
    simp
  have hleft : a.next
      = .stack ⟨(out.map (·.block)).reverse.map (·.name)⟩ := by
    rw [hnext]
    unfold Lexer.left
    simp
  refine ⟨a, ha, fun tokens next => ⟨?_, ?_⟩,
    fun _ _ _ _ _ _ hchosen _ => hchosen.unmatched⟩
  · -- there is no other way to lex the line
    intro ⟨pieces', last', hlexes', htokens', hnext'⟩
    obtain ⟨rfl, rfl⟩ := hlexes.unique hlexes'
    exact ⟨htokens'.trans hempty.symm, hnext'.trans hleft.symm⟩
  · intro ⟨htokens', hnext'⟩
    exact ⟨pieces, out.map (·.block), hlexes, htokens'.trans hempty,
      hnext'.trans hleft⟩

/-- A quote inside a string might be a token of its own, but closes the
string. The rule listed first matches last. -/
def quotes : Grammar :=
  ⟨"source", [.single "c" "last",
    .block "string" "'" "'" "string" [.single "'" "quote"]], [], "quotes"⟩

/-- The string opens in front of the other rule's match, and its end comes
before the rule inside it that matches there as well. -/
theorem lexes_by_priority_quotes : ∃ lx a, Lexer.build quotes = .ok lx
    ∧ lx.engine "a'b'c".toList .none = .ok a
    ∧ a.tokens = [⟨0, 1, ["source"]⟩, ⟨1, 2, ["source", "string"]⟩,
      ⟨2, 3, ["source", "string"]⟩, ⟨3, 4, ["source", "string"]⟩,
      ⟨4, 5, ["source", "last"]⟩]
    ∧ quotes.Tokenizes Pattern.compile "a'b'c".toList .none a.tokens
      a.next := by
  obtain ⟨lx, hlx⟩ : ∃ lx, Lexer.build quotes = .ok lx :=
    Lexer.exists_build (by cbv)
  have hrun : ((Lexer.build quotes).toOption.bind fun lx =>
      (lx.engine "a'b'c".toList .none).toOption.map (·.tokens))
      = some [⟨0, 1, ["source"]⟩, ⟨1, 2, ["source", "string"]⟩,
        ⟨2, 3, ["source", "string"]⟩, ⟨3, 4, ["source", "string"]⟩,
        ⟨4, 5, ["source", "last"]⟩] := by
    decide +kernel
  obtain ⟨a, ha, htokenizes, -⟩ :=
    lexes_by_priority hlx "a'b'c".toList .none
  rw [hlx] at hrun
  change ((lx.engine _ _).toOption.map _) = _ at hrun
  rw [ha] at hrun
  exact ⟨lx, a, hlx, ha, Option.some.inj hrun,
    (htokenizes _ _).2 ⟨rfl, rfl⟩⟩

end Grammar

end Relex
