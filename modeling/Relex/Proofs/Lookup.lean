/-
What queries answer.

A query looks at the content of the document, at what the engine makes of
one line of it, and at the state in which the cache has that line
entered. It leaves the cache alone. So two controllers give the same
answers as soon as they agree on these, whatever else became of them.
-/
import Relex.Lookup
import Relex.Proofs.Content
import Relex.Proofs.FullBuild

namespace Relex.Lookup

/-- The line that a position in bounds is on is there. -/
theorem line?_of_inBounds {c : Content} {p : Position}
    (h : c.InBounds p) : c.line? p.line = some (c.line p.line) := by
  obtain ⟨n, hn⟩ := Int.eq_ofNat_of_zero_le h.line_nonneg
  have hlt : n < c.lines.length := by
    have hlt := h.line_lt
    rw [hn] at hlt
    exact Int.ofNat_lt.1 hlt
  unfold Content.line Content.line?
  rw [hn, if_neg (by omega), Int.toNat_natCast,
    List.getElem?_eq_getElem hlt]
  rfl

variable (d : Document) (e : Engine) (b : Bench)

/-- The line is tokenized in the state the cache has it entered in; the
cache stays as it is. -/
theorem line_on (i : Int) :
    (Lookup.line d (some e) i).on b = match d.content.line? i with
      | none => (.ok none, b)
      | some text =>
        ((e text (b.cache.entering i)).map some,
          { b with trace := b.trace.called text }) := by
  unfold Lookup.line
  cases d.content.line? i with
  | none => rfl
  | some text =>
      dsimp only
      rw [Work.on_bind, Work.on_entering]
      dsimp only
      rw [Work.on_bind, Work.on_ask]
      cases e text (b.cache.entering i) <;> rfl

/-- The token is picked among those of the line that the position is on,
once that is clamped. -/
theorem token_on (fallsBack : Bool) (p : Position) :
    (Lookup.token d (some e) fallsBack p).on b
      = match d.content.line? (d.content.clamp p).line with
        | none => (.ok none, b)
        | some text =>
          ((e text (b.cache.entering (d.content.clamp p).line)).map
            fun answer =>
              (pick answer.tokens fallsBack (d.content.clamp p).column).map
                (info (d.content.clamp p).line
                  (d.content.line (d.content.clamp p).line)),
            { b with trace := b.trace.called text }) := by
  unfold Lookup.token
  dsimp only
  rw [Work.on_bind, line_on]
  cases d.content.line? (d.content.clamp p).line with
  | none => rfl
  | some text =>
      dsimp only
      cases e text (b.cache.entering (d.content.clamp p).line) <;> rfl

/-- A query stores nothing, with an engine or without. -/
theorem line_cache (engine : Option Engine) (i : Int) :
    ((Lookup.line d engine i).on b).2.cache = b.cache := by
  cases engine with
  | none => rfl
  | some e =>
      rw [line_on]
      split <;> rfl

theorem token_cache (engine : Option Engine) (fallsBack : Bool)
    (p : Position) :
    ((Lookup.token d engine fallsBack p).on b).2.cache = b.cache := by
  cases engine with
  | none => rfl
  | some e =>
      rw [token_on]
      split <;> rfl

variable {d e}

/-- Querying a line goes through with an engine that never fails, and the
answer depends on the content, the engine and the cache. -/
theorem line_congr (he : e.Total) {d' : Document}
    (hd : d'.content = d.content) {b b' : Bench}
    (hb : b'.cache = b.cache) (i : Int) :
    ∃ answer, ((Lookup.line d (some e) i).on b).1 = .ok answer
      ∧ ((Lookup.line d' (some e) i).on b').1 = .ok answer := by
  rw [line_on, line_on, hd, hb]
  cases d.content.line? i with
  | none => exact ⟨_, rfl, rfl⟩
  | some text =>
      obtain ⟨a, ha⟩ := he text (b.cache.entering i)
      dsimp only
      rw [ha]
      exact ⟨_, rfl, rfl⟩

/-- Likewise for the token that covers a position. -/
theorem token_congr (he : e.Total) {d' : Document}
    (hd : d'.content = d.content) {b b' : Bench}
    (hb : b'.cache = b.cache) (fallsBack : Bool) (p : Position) :
    ∃ answer, ((Lookup.token d (some e) fallsBack p).on b).1 = .ok answer
      ∧ ((Lookup.token d' (some e) fallsBack p).on b').1
        = .ok answer := by
  rw [token_on, token_on, hd, hb]
  cases d.content.line? (d.content.clamp p).line with
  | none => exact ⟨_, rfl, rfl⟩
  | some text =>
      obtain ⟨a, ha⟩ := he text (b.cache.entering (d.content.clamp p).line)
      dsimp only
      rw [ha]
      exact ⟨_, rfl, rfl⟩

end Relex.Lookup
