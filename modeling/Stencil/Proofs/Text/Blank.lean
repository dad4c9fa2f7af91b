import Mathlib.Data.List.DropRight
import Mathlib.Data.List.TakeWhile
import Stencil.Text.Blank

/-!
# Stretches of a class of characters

A text splits in one way only into a stretch of characters of a class and a rest that does not go on with one, at its start as
at its end.
-/

namespace Stencil.Text

theorem not_isPad_of_isLineEnd {c : Char} (h : isLineEnd c = true) : isPad c = false := by
  simp only [isLineEnd, Bool.or_eq_true, beq_iff_eq] at h
  rcases h with rfl | rfl
  · rfl
  · rfl

theorem not_isLineEnd_of_isPad {c : Char} (h : isPad c = true) : isLineEnd c = false := by
  by_contra hend
  rw [Bool.not_eq_false] at hend
  rw [not_isPad_of_isLineEnd hend] at h
  cases h

theorem not_isLineEnd_of_not_isBlank {c : Char} (h : isBlank c = false) : isLineEnd c = false := by
  by_contra hend
  rw [Bool.not_eq_false] at hend
  rw [isBlank_of_isLineEnd hend] at h
  cases h

/-- A text is a stretch of `p` to its end, or another character comes first behind such a stretch. -/
theorem forall_or_split (p : Char → Bool) (s : List Char) : (∀ c ∈ s, p c = true) ∨
    ∃ stretch c rest, s = stretch ++ c :: rest ∧ (∀ b ∈ stretch, p b = true) ∧ p c = false := by
  induction s with
  | nil => exact .inl (by simp)
  | cons a s ih =>
    cases ha : p a with
    | false => exact .inr ⟨[], a, s, rfl, by simp, ha⟩
    | true =>
      rcases ih with hs | ⟨stretch, c, rest, rfl, hstretch, hc⟩
      · exact .inl (by simpa [ha] using hs)
      · exact .inr ⟨a :: stretch, c, rest, rfl, by simpa [ha] using hstretch, hc⟩

theorem dropWhile_stretch {p : Char → Bool} {stretch : List Char} {c : Char} (rest : List Char)
    (hstretch : ∀ b ∈ stretch, p b = true) (hc : p c = false) :
    (stretch ++ c :: rest).dropWhile p = c :: rest := by
  rw [List.dropWhile_append_of_pos hstretch, List.dropWhile_cons_of_neg (by simp [hc])]

theorem takeWhile_stretch {p : Char → Bool} {stretch : List Char} {c : Char} (rest : List Char)
    (hstretch : ∀ b ∈ stretch, p b = true) (hc : p c = false) :
    (stretch ++ c :: rest).takeWhile p = stretch := by
  rw [List.takeWhile_append_of_pos hstretch, List.takeWhile_cons_of_neg (by simp [hc]), List.append_nil]

theorem getLast?_dropEndWhile {p : Char → Bool} {s : List Char} {c : Char} (h : c ∈ (dropEndWhile p s).getLast?) :
    p c = false := by
  change c ∈ (s.rdropWhile p).getLast? at h
  have hne : s.rdropWhile p ≠ [] := by
    intro he
    simp [he] at h
  rw [List.getLast?_eq_some_getLast hne, Option.mem_some_iff] at h
  rw [← h]
  simpa using List.rdropWhile_last_not p s hne

theorem dropEndWhile_stretch {p : Char → Bool} {s stretch : List Char} (hs : ∀ c ∈ s.getLast?, p c = false)
    (hstretch : ∀ c ∈ stretch, p c = true) : dropEndWhile p (s ++ stretch) = s := by
  induction stretch using List.reverseRecOn with
  | nil =>
    rw [List.append_nil]
    refine List.rdropWhile_eq_self_iff.mpr ?_
    intro hne
    rw [hs _ (List.getLast?_eq_some_getLast hne)]
    exact Bool.false_ne_true
  | append_singleton stretch c ih =>
    rw [← List.append_assoc]
    refine (List.rdropWhile_concat_pos p _ c (hstretch c (by simp))).trans (ih ?_)
    intro b hb
    exact hstretch b (List.mem_append_left _ hb)

theorem takeEndWhile_stretch {p : Char → Bool} {s stretch : List Char} (hs : ∀ c ∈ s.getLast?, p c = false)
    (hstretch : ∀ c ∈ stretch, p c = true) : takeEndWhile p (s ++ stretch) = stretch := by
  have happend := dropEndWhile_append_takeEndWhile p (s ++ stretch)
  rw [dropEndWhile_stretch hs hstretch] at happend
  exact List.append_cancel_left happend

private theorem getLast?_append_dropEndWhile {p : Char → Bool} {s t : List Char} (hs : ∀ c ∈ s.getLast?, p c = false) :
    ∀ c ∈ (s ++ dropEndWhile p t).getLast?, p c = false := by
  intro c hc
  rw [List.getLast?_append] at hc
  cases hlast : (dropEndWhile p t).getLast? with
  | none =>
    rw [hlast, Option.none_or] at hc
    exact hs c hc
  | some b =>
    rw [hlast, Option.some_or, Option.mem_some_iff] at hc
    exact hc ▸ getLast?_dropEndWhile hlast

/-- A text whose last character is not of `p` stays when the last stretch of `p` is taken off what follows it. -/
theorem dropEndWhile_append {p : Char → Bool} {s : List Char} (hs : ∀ c ∈ s.getLast?, p c = false) (t : List Char) :
    dropEndWhile p (s ++ t) = s ++ dropEndWhile p t := by
  have hlast := getLast?_append_dropEndWhile (t := t) hs
  have hstretch := dropEndWhile_stretch hlast (fun c hc => of_mem_takeEndWhile (s := t) hc)
  rwa [List.append_assoc, dropEndWhile_append_takeEndWhile] at hstretch

theorem takeEndWhile_append {p : Char → Bool} {s : List Char} (hs : ∀ c ∈ s.getLast?, p c = false) (t : List Char) :
    takeEndWhile p (s ++ t) = takeEndWhile p t := by
  have hlast := getLast?_append_dropEndWhile (t := t) hs
  have hstretch := takeEndWhile_stretch hlast (fun c hc => of_mem_takeEndWhile (s := t) hc)
  rwa [List.append_assoc, dropEndWhile_append_takeEndWhile] at hstretch

theorem trim_eq_nil_iff {s : List Char} : trim s = [] ↔ ∀ c ∈ s, isBlank c = true := by
  rcases forall_or_split isBlank s with hs | ⟨blank, c, rest, rfl, hblank, hc⟩
  · have hdrop : s.dropWhile isBlank = [] := List.dropWhile_eq_nil_iff.mpr hs
    rw [trim, hdrop]
    exact ⟨fun _ => hs, fun _ => rfl⟩
  · constructor
    · intro h
      rw [trim, dropWhile_stretch rest hblank hc] at h
      have happend := dropEndWhile_append_takeEndWhile isBlank (c :: rest)
      rw [h, List.nil_append] at happend
      have hmem : c ∈ takeEndWhile isBlank (c :: rest) := by
        rw [happend]
        exact List.mem_cons_self
      rw [of_mem_takeEndWhile hmem] at hc
      cases hc
    · intro h
      rw [h c (List.mem_append_right blank List.mem_cons_self)] at hc
      cases hc

end Stencil.Text
