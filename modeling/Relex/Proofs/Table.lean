/-
What is found in a table after it was changed.
-/
import Relex.Table

namespace Relex.Table

variable {α : Type} {t : Table α} {name other : String} {value v : α}

@[simp] theorem get?_empty (name : String) :
    (empty : Table α).get? name = none := rfl

/-- What is found is an entry. -/
theorem mem_of_lookup {β : Type} [BEq β] [LawfulBEq β] {key : β}
    {entries : List (β × α)} (h : entries.lookup key = some v) :
    (key, v) ∈ entries := by
  obtain ⟨front, back, he, -⟩ := List.lookup_eq_some_iff.1 h
  rw [he]
  simp

theorem mem_of_get? (h : t.get? name = some v) :
    (name, v) ∈ t.entries :=
  mem_of_lookup h

/-- A name is there if and only if there is a value under it. -/
theorem get?_eq_none_iff : t.get? name = none ↔ name ∉ t.names := by
  unfold get? names
  rw [List.lookup_eq_none_iff]
  constructor
  · intro h hmem
    obtain ⟨e, he, rfl⟩ := List.mem_map.1 hmem
    exact bne_iff_ne.1 (h e he) rfl
  · intro h e he
    refine bne_iff_ne.2 ?_
    rintro rfl
    exact h (List.mem_map_of_mem he)

theorem not_mem_of_get? (h : t.get? name = none) (v : α) :
    (name, v) ∉ t.entries :=
  fun hmem => get?_eq_none_iff.1 h (List.mem_map_of_mem hmem)

/-- Inserting changes what is found under the name, and nothing else. -/
theorem get?_insert (t : Table α) (name other : String) (value : α) :
    (t.insert name value).get? other
      = if name = other then some value else t.get? other := by
  show (insertInto name value t.entries).lookup other = _
  unfold get?
  induction t.entries with
  | nil =>
      by_cases hn : name = other
      · simp [insertInto, hn]
      · simp [insertInto, List.lookup_cons, hn,
          beq_eq_false_iff_ne.2 (Ne.symm hn)]
  | cons e rest ih =>
      obtain ⟨n, w⟩ := e
      rw [insertInto]
      by_cases hn : n = name
      · rw [if_pos hn, List.lookup_cons, List.lookup_cons, hn]
        by_cases ho : name = other
        · simp [ho]
        · simp [ho, beq_eq_false_iff_ne.2 (Ne.symm ho)]
      · rw [if_neg hn, List.lookup_cons, List.lookup_cons, ih]
        by_cases ho : name = other
        · subst ho
          simp [beq_eq_false_iff_ne.2 (Ne.symm hn)]
        · simp [ho]

/-- An entry is the one inserted, or was there before. -/
theorem mem_insert (h : (other, v) ∈ (t.insert name value).entries) :
    (other = name ∧ v = value) ∨ (other, v) ∈ t.entries := by
  obtain ⟨entries⟩ := t
  change (other, v) ∈ insertInto name value entries at h
  induction entries with
  | nil => simpa [insertInto] using h
  | cons e rest ih =>
      obtain ⟨n, w⟩ := e
      rw [insertInto] at h
      split at h
      · rcases List.mem_cons.1 h with he | h
        · cases he
          exact .inl ⟨rfl, rfl⟩
        · exact .inr (List.mem_cons_of_mem _ h)
      · rcases List.mem_cons.1 h with he | h
        · cases he
          exact .inr (List.mem_cons_self ..)
        · exact (ih h).imp_right (List.mem_cons_of_mem _)

/-- Inserting adds one entry at most. -/
theorem size_insert_le (t : Table α) (name : String) (value : α) :
    (t.insert name value).size ≤ t.size + 1 := by
  obtain ⟨entries⟩ := t
  show (insertInto name value entries).length ≤ entries.length + 1
  induction entries with
  | nil => simp [insertInto]
  | cons e rest ih =>
      rw [insertInto]
      split
      · simp
      · simpa using ih

/-- Erasing takes out all entries of the name, and no others. -/
theorem mem_erase :
    (other, v) ∈ (t.erase name).entries
      ↔ (other, v) ∈ t.entries ∧ other ≠ name := by
  simp [erase, List.mem_filter]

/-- Nothing is found under a name that was erased. -/
theorem get?_erase (t : Table α) (name other : String) :
    (t.erase name).get? other
      = if name = other then none else t.get? other := by
  show (t.entries.filter (·.1 ≠ name)).lookup other = _
  unfold get?
  induction t.entries with
  | nil => simp
  | cons e rest ih =>
      obtain ⟨n, w⟩ := e
      rw [List.filter_cons]
      by_cases hn : n = name
      · subst hn
        by_cases ho : n = other
        · simpa [ho] using ih
        · simpa [List.lookup_cons, ho, beq_eq_false_iff_ne.2 (Ne.symm ho)]
            using ih
      · by_cases ho : other = n
        · subst ho
          simp [hn, Ne.symm hn]
        · simpa [List.lookup_cons, hn, beq_eq_false_iff_ne.2 ho] using ih

end Relex.Table
