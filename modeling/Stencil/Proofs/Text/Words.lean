import Stencil.Proofs.Text.Blank

/-!
# Words

White space parts a text into words, however much of it there is and of whichever kind. The pieces that a character parts a text
into are those that make it up with this character between them.
-/

namespace Stencil.Text

theorem split_append_cons {p : Char → Bool} {c : Char} (hc : p c = true) (s t : List Char) :
    split p (s ++ c :: t) = split p s ++ split p t := by
  induction s with
  | nil =>
    have hfirst : split p (c :: t) = [] :: split p t := by rw [split, if_pos hc]
    exact hfirst
  | cons a s ih =>
    rw [List.cons_append, split, ih, split]
    split
    · rfl
    · cases hs : split p s with
      | nil => exact absurd hs (split_ne_nil p s)
      | cons piece pieces => rfl

theorem words_append_cons {c : Char} (hc : isBlank c = true) (s t : List Char) :
    words (s ++ c :: t) = words s ++ words t := by
  rw [words, split_append_cons hc, List.filter_append, words, words]

theorem words_blank {blank : List Char} (hblank : ∀ c ∈ blank, isBlank c = true) : words blank = [] := by
  induction blank with
  | nil => rfl
  | cons c blank ih =>
    have hwords := words_append_cons (hblank c List.mem_cons_self) [] blank
    rw [List.nil_append, ih fun b hb => hblank b (List.mem_cons_of_mem c hb)] at hwords
    exact hwords

theorem words_blank_append {blank : List Char} (hblank : ∀ c ∈ blank, isBlank c = true) (s : List Char) :
    words (blank ++ s) = words s := by
  cases blank using List.reverseRecOn with
  | nil => rfl
  | append_singleton blank c =>
    rw [List.append_assoc, List.singleton_append, words_append_cons (hblank c (by simp)),
      words_blank fun b hb => hblank b (List.mem_append_left _ hb), List.nil_append]

/-- A stretch of white space parts the text in front of it from the text behind it. -/
theorem words_append_blank {blank : List Char} (hne : blank ≠ []) (hblank : ∀ c ∈ blank, isBlank c = true)
    (s t : List Char) : words (s ++ (blank ++ t)) = words s ++ words t := by
  obtain ⟨c, blank, rfl⟩ := List.exists_cons_of_ne_nil hne
  have hrest : ∀ b ∈ blank, isBlank b = true := fun b hb => hblank b (List.mem_cons_of_mem c hb)
  rw [List.cons_append, words_append_cons (hblank c List.mem_cons_self), words_blank_append hrest]

/-- White space can be put in beside white space. -/
theorem words_insert {s blank : List Char} (hs : ∀ c ∈ s.getLast?, isBlank c = true)
    (hblank : ∀ c ∈ blank, isBlank c = true) (t : List Char) : words (s ++ (blank ++ t)) = words (s ++ t) := by
  cases s using List.reverseRecOn with
  | nil => exact words_blank_append hblank t
  | append_singleton s c =>
    have hc : isBlank c = true := hs c List.getLast?_concat
    rw [List.append_assoc, List.append_assoc, List.singleton_append, List.singleton_append, words_append_cons hc,
      words_append_cons hc, words_blank_append hblank]

theorem split_eq_singleton {p : Char → Bool} {s : List Char} (hs : ∀ c ∈ s, p c = false) : split p s = [s] := by
  induction s with
  | nil => rfl
  | cons c s ih =>
    have hc : ¬ p c = true := by simp [hs c List.mem_cons_self]
    rw [split, if_neg hc, ih fun b hb => hs b (List.mem_cons_of_mem c hb)]

/-- A text without white space is one word. -/
theorem words_word {s : List Char} (hne : s ≠ []) (hs : ∀ c ∈ s, isBlank c = false) : words s = [s] := by
  rw [words, split_eq_singleton hs]
  simp [hne]

theorem not_of_mem_split {p : Char → Bool} {s piece : List Char} (h : piece ∈ split p s) : ∀ c ∈ piece, p c = false := by
  induction s generalizing piece with
  | nil =>
    rw [List.mem_singleton.mp h]
    nofun
  | cons a s ih =>
    rw [split] at h
    by_cases ha : p a = true
    · rw [if_pos ha, List.mem_cons] at h
      rcases h with rfl | h
      · nofun
      · exact ih h
    · rw [if_neg ha] at h
      cases hs : split p s with
      | nil => exact absurd hs (split_ne_nil p s)
      | cons first pieces =>
        rw [hs] at h ih
        simp only [List.mem_cons] at h
        rcases h with rfl | h
        · intro c hc
          rcases List.mem_cons.mp hc with rfl | hc
          · simpa using ha
          · exact ih List.mem_cons_self c hc
        · exact ih (List.mem_cons_of_mem first h)

/-- The pieces with a character between them are the pieces again, if none of them holds that character. -/
theorem split_intercalate {c : Char} {pieces : List (List Char)} (hne : pieces ≠ []) (h : ∀ piece ∈ pieces, c ∉ piece) :
    split (· == c) ([c].intercalate pieces) = pieces := by
  have hpiece : ∀ piece ∈ pieces, ∀ b ∈ piece, (b == c) = false := by
    intro piece hmem b hb
    rw [beq_eq_false_iff_ne]
    rintro rfl
    exact h piece hmem hb
  induction pieces with
  | nil => exact absurd rfl hne
  | cons piece pieces ih =>
    cases pieces with
    | nil =>
      rw [List.intercalate_singleton]
      exact split_eq_singleton (hpiece piece List.mem_cons_self)
    | cons second pieces =>
      have hrest := ih (List.cons_ne_nil second pieces) (fun other hother => h other (List.mem_cons_of_mem piece hother))
        (fun other hother => hpiece other (List.mem_cons_of_mem piece hother))
      have hsplit := split_append_cons (p := (· == c)) (beq_self_eq_true c) piece ([c].intercalate (second :: pieces))
      rw [List.intercalate_cons_cons, List.append_assoc, List.singleton_append, hsplit, hrest,
        split_eq_singleton (hpiece piece List.mem_cons_self)]
      rfl

theorem intercalate_split (c : Char) (s : List Char) : [c].intercalate (split (· == c) s) = s := by
  induction s with
  | nil => rfl
  | cons a s ih =>
    rw [split]
    cases hs : split (· == c) s with
    | nil => exact absurd hs (split_ne_nil _ s)
    | cons piece pieces =>
      rw [hs] at ih
      by_cases ha : (a == c) = true
      · rw [if_pos ha, List.intercalate_cons_cons, ih, beq_iff_eq.mp ha]
        rfl
      · rw [if_neg ha]
        cases pieces with
        | nil =>
          rw [List.intercalate_singleton] at ih ⊢
          rw [ih]
        | cons second pieces =>
          rw [List.intercalate_cons_cons] at ih ⊢
          rw [← ih]
          rfl

end Stencil.Text
