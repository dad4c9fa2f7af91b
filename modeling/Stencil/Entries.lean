/-!
# Entries by name

Named things in the order of their names, each name once: the form of maps and of the partials that a renderer knows. Names
are ordered by code points. What is found under a name after an entry is put in or taken out is what one expects
(`find?_insert`, `find?_erase`), and insertion keeps the order (`Sorted.insert`).
-/

namespace Stencil

abbrev Entries (α : Type) : Type := List (String × α)

namespace Entries

variable {α : Type}

def find? (entries : Entries α) (name : String) : Option α := List.lookup name entries

/-- Puts a thing in under a name, in place of what was there. -/
def insert (name : String) (value : α) : Entries α → Entries α
  | [] => [(name, value)]
  | (n, v) :: entries =>
    if name = n then (name, value) :: entries
    else if name < n then (name, value) :: (n, v) :: entries
    else (n, v) :: insert name value entries

def erase (name : String) (entries : Entries α) : Entries α := entries.filter (·.1 ≠ name)

/-- Puts things in one after the other, so that the last of a name stays. -/
def insertAll (entries : Entries α) (pairs : List (String × α)) : Entries α :=
  pairs.foldl (fun entries (name, value) => entries.insert name value) entries

def ofPairs (pairs : List (String × α)) : Entries α := insertAll [] pairs

def names (entries : Entries α) : List String := entries.map (·.1)

def Sorted (entries : Entries α) : Prop := entries.Pairwise fun a b => a.1 < b.1

@[simp] theorem find?_nil (name : String) : find? ([] : Entries α) name = none := rfl

theorem find?_cons (name n : String) (v : α) (entries : Entries α) :
    find? ((n, v) :: entries) name = if name = n then some v else find? entries name := by
  by_cases h : name = n
  · simp [find?, h]
  · simp [find?, List.lookup_cons, beq_false_of_ne h, h]

theorem find?_insert (entries : Entries α) (name other : String) (value : α) :
    (entries.insert name value).find? other = if other = name then some value else entries.find? other := by
  induction entries with
  | nil => simp [insert, find?_cons]
  | cons entry entries ih =>
    obtain ⟨n, v⟩ := entry
    unfold insert
    split
    · next h => subst h; simp only [find?_cons]; split <;> rfl
    · next h =>
      split
      · simp only [find?_cons]
      · simp only [find?_cons, ih]
        by_cases ho : other = n
        · subst ho; simp [Ne.symm h]
        · simp [ho]

theorem find?_erase (entries : Entries α) (name other : String) :
    (entries.erase name).find? other = if other = name then none else entries.find? other := by
  induction entries with
  | nil => simp [erase]
  | cons entry entries ih =>
    obtain ⟨n, v⟩ := entry
    simp only [erase] at ih
    by_cases h : n = name
    · subst h
      simp only [erase, ne_eq, not_true_eq_false, decide_false, List.filter_cons_of_neg, Bool.false_eq_true,
        not_false_eq_true, ih, find?_cons]
      split <;> rfl
    · simp only [erase, ne_eq, h, not_false_eq_true, decide_true, List.filter_cons_of_pos, find?_cons, ih]
      by_cases ho : other = n
      · subst ho; simp [h]
      · simp [ho]

private theorem mem_insert {entries : Entries α} {name : String} {value : α} {entry : String × α}
    (h : entry ∈ entries.insert name value) : entry = (name, value) ∨ entry ∈ entries := by
  induction entries with
  | nil => simpa [insert] using h
  | cons e entries ih =>
    unfold insert at h
    split at h
    · rcases List.mem_cons.mp h with h | h
      · exact .inl h
      · exact .inr (List.mem_cons_of_mem _ h)
    · split at h
      · rcases List.mem_cons.mp h with h | h
        · exact .inl h
        · exact .inr h
      · rcases List.mem_cons.mp h with h | h
        · exact .inr (h ▸ List.mem_cons_self)
        · rcases ih h with h | h
          · exact .inl h
          · exact .inr (List.mem_cons_of_mem _ h)

theorem Sorted.insert {entries : Entries α} (h : Sorted entries) (name : String) (value : α) :
    Sorted (entries.insert name value) := by
  induction entries with
  | nil => simp [Entries.insert, Sorted]
  | cons entry entries ih =>
    obtain ⟨n, v⟩ := entry
    have ⟨hn, ht⟩ := List.pairwise_cons.mp h
    unfold Entries.insert
    split
    · next he => subst he; exact List.pairwise_cons.mpr ⟨hn, ht⟩
    · next he =>
      split
      · next hlt =>
        refine List.pairwise_cons.mpr ⟨fun e he => ?_, h⟩
        rcases List.mem_cons.mp he with rfl | he
        · exact hlt
        · exact String.lt_trans hlt (hn e he)
      · next hlt =>
        refine List.pairwise_cons.mpr ⟨fun e he' => ?_, ih ht⟩
        rcases mem_insert he' with rfl | he'
        · exact Std.lt_of_le_of_ne (Std.not_lt.mp hlt) (Ne.symm he)
        · exact hn e he'

theorem sorted_ofPairs (pairs : List (String × α)) : Sorted (ofPairs pairs) := by
  have (entries : Entries α) (h : Sorted entries) : Sorted (entries.insertAll pairs) := by
    induction pairs generalizing entries with
    | nil => exact h
    | cons pair pairs ih => exact ih _ (h.insert pair.1 pair.2)
  exact this [] List.Pairwise.nil

end Entries
end Stencil
