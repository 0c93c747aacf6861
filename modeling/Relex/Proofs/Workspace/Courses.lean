/-
What a document is through all that happens to it.

The text of a document is kept as lines, and these are always the lines
the text splits into (`Document.Faithful`): a document can be put down as
its text and read back without losing anything. Its version counts the
batches it took.

That holds through any course of events (`Course`): the host makes edits,
of this document and of others, which may be refused; listeners are
notified, edit in turn, and may fail, which ends the round but leaves the
document its batch; and between edits the host does whatever else it may
do, so long as that leaves the document alone. The batches of a course
are counted as they are taken, those of listeners along with the host's
(`document_of_course`).
-/
import Mathlib
import Relex.Proofs.Text.Lines
import Relex.Proofs.Workspace.Rounds

namespace Relex

-- ========================================================== documents

namespace Document

/-- The document has lines, none of them holds a terminator, and a
document made of its text has the same lines. -/
structure Faithful (d : Document) : Prop where
  nonempty : 0 < d.lineCount
  unbroken : ∀ line ∈ d.lines, ∀ c ∈ line, c ≠ '\r' ∧ c ≠ '\n'
  reread : ∀ uri languageId,
    (new uri languageId d.content.text).lines = d.lines

/-- However its content was spliced together, a document is faithful. -/
theorem faithful (d : Document) : d.Faithful :=
  ⟨List.length_pos_iff.2 d.content.lines_ne_nil, d.content.unbroken,
    fun _ _ => Text.lines_joinLines d.content.lines_ne_nil
      d.content.unbroken⟩

end Document

namespace Workspace

-- ============================================================= courses

/-- A course of events around a buffer: the batches its document takes,
in order. -/
inductive Course (b : Nat) :
    Workspace → List (List Change) → Workspace → Prop where
  | rest {ws : Workspace} : Course b ws [] ws
  /-- Anything is done that leaves the document alone. -/
  | between {ws ws₁ ws₂ : Workspace} {batches : List (List Change)}
      (halone : ws₁.document? b = ws.document? b)
      (hrest : Course b ws₁ batches ws₂) : Course b ws batches ws₂
  /-- An edit is made, of any buffer. It may be refused, and a listener
  may fail. -/
  | edited {ws ws' : Workspace} {batches : List (List Change)}
      (buffer : Nat) (changes : List Change)
      (hrest : Course b ((edit buffer changes).on ws).2 batches ws') :
      Course b ws
        (accepted b (history [(buffer, changes)] ws) ++ batches) ws'

variable {ws ws' : Workspace} {b : Nat} {d : Document}
  {batches : List (List Change)}

/-- The batches of a course lead from the document as it was to the
document as it is. -/
theorem Course.replays (h : Course b ws batches ws')
    (hd : ws.document? b = some d) :
    ∃ d', ws'.document? b = some d' ∧ Replays d batches d' := by
  induction h generalizing d with
  | rest => exact ⟨d, hd, .nil⟩
  | between halone hrest ih => exact ih (halone.trans hd)
  | edited buffer changes hrest ih =>
      obtain ⟨d₁, hd₁, hfirst⟩ :=
        (edits_history [(buffer, changes)] _).replays hd
      obtain ⟨d', hd', hothers⟩ := ih hd₁
      exact ⟨d', hd', hfirst.append hothers⟩

-- ========================================================= the theorem

/-- A document made of a text, or of lines, is there after any course of
events, and faithful, and its version is the number of batches it has
taken, each of which was applied to what the ones before had left. -/
theorem document_of_course (h : Course b ws batches ws')
    (hstart : (∃ uri languageId text,
        ws.document? b = some (.new uri languageId text))
      ∨ ∃ uri languageId lines,
        ws.document? b = some (.ofLines uri languageId lines)) :
    ∃ start d', ws.document? b = some start
      ∧ ws'.document? b = some d' ∧ Replays start batches d'
      ∧ d'.Faithful ∧ d'.version = batches.length := by
  obtain ⟨start, hd, hversion⟩ : ∃ start, ws.document? b = some start
      ∧ start.version = 0 := by
    rcases hstart with ⟨uri, languageId, text, hd⟩
      | ⟨uri, languageId, lines, hd⟩
    · exact ⟨_, hd, rfl⟩
    · exact ⟨_, hd, rfl⟩
  obtain ⟨d', hd', hreplays⟩ := h.replays hd
  refine ⟨start, d', hd, hd', hreplays, d'.faithful, ?_⟩
  rw [hreplays.version, hversion, Nat.zero_add]

/-- A document of carriage returns, and a watcher that fails whenever it
is called. -/
def touchy : Workspace :=
  let ws := (empty.addBuffer (.ofLines "untitled:document" "plaintext"
    ["a\r".toList, "b".toList])).2
  let ws := (ws.addWatcher ⟨"watcher", [.fail "no"]⟩).2
  (ws.subscribe 0 (.watcher 0)).2

/-- Changes that end a line, name an inverted range, and delete
everything. -/
def ended : Change := ⟨⟨⟨0, 1⟩, ⟨0, 1⟩⟩, "\r".toList⟩

def inverted : Change := ⟨⟨⟨1, 0⟩, ⟨0, 0⟩⟩, []⟩

def emptied : Change := ⟨⟨⟨0, 0⟩, ⟨9, 0⟩⟩, []⟩

/-- The watcher fails on a batch that ends a line, an inverted range is
refused, and then the watcher is disposed of. -/
def unwatched : Workspace :=
  ((edit 0 [inverted]).on ((edit 0 [ended]).on touchy).2).2.unsubscribe 0

/-- After that, everything is deleted. -/
theorem document_of_course_touchy : ∃ ws' d',
    Course 0 touchy [[ended], [⟨⟨⟨0, 0⟩, ⟨2, 1⟩⟩, []⟩]] ws'
      ∧ ws'.document? 0 = some d' ∧ d'.Faithful ∧ d'.version = 2 := by
  have hended : accepted 0 (history [(0, [ended])] touchy)
      = [[ended]] := by cbv
  have hinverted : accepted 0 (history [(0, [inverted])]
      ((edit 0 [ended]).on touchy).2) = [] := by cbv
  have hemptied : accepted 0 (history [(0, [emptied])] unwatched)
      = [[⟨⟨⟨0, 0⟩, ⟨2, 1⟩⟩, []⟩]] := by cbv
  have halone : unwatched.document? 0 = ((edit 0 [inverted]).on
      ((edit 0 [ended]).on touchy).2).2.document? 0 := by cbv
  have hcourse := Course.edited 0 [ended] (.edited 0 [inverted]
    (.between halone (.edited 0 [emptied] .rest)))
  rw [hended, hinverted, hemptied] at hcourse
  obtain ⟨-, d', -, hd', -, hfaithful, hversion⟩ :=
    document_of_course hcourse (.inr ⟨_, _, _, rfl⟩)
  exact ⟨_, d', hcourse, hd', hfaithful, hversion⟩

end Workspace

end Relex
