import Stencil.Text.Search

/-!
# First occurrences

`cut?` splits a text at the first occurrence of another one. Whether it does is a matter of the text before and of the text
looked for, and not of what comes after them: this is what lets one part of a template be read without the parts behind it.
-/

namespace Stencil.Text

/-- The text `p` behind `before` is the first occurrence of `p` there. -/
def Clear (p before : List Char) : Prop := ∀ x y, before = x ++ y → y ≠ [] → ¬ p <+: y ++ p

theorem strip?_eq_some_iff {p s rest : List Char} : strip? p s = some rest ↔ s = p ++ rest := by
  constructor
  · intro h
    exact (append_of_strip? h).symm
  · intro h
    subst h
    exact strip?_append p rest

theorem isSome_strip?_iff {p s : List Char} : (strip? p s).isSome ↔ p <+: s := by
  rw [Option.isSome_iff_exists]
  constructor
  · intro h
    obtain ⟨rest, h⟩ := h
    exact ⟨rest, append_of_strip? h⟩
  · intro h
    obtain ⟨rest, rfl⟩ := h
    exact ⟨rest, strip?_append p rest⟩

theorem strip?_eq_none_iff {p s : List Char} : strip? p s = none ↔ ¬ p <+: s := by
  rw [← isSome_strip?_iff, Option.not_isSome_iff_eq_none]

theorem clear_nil (p : List Char) : Clear p [] := by
  intro x y h hy
  exact absurd (List.append_eq_nil_iff.mp h.symm).2 hy

theorem clear_cons {p : List Char} {c : Char} {before : List Char} :
    Clear p (c :: before) ↔ ¬ p <+: c :: before ++ p ∧ Clear p before := by
  constructor
  · intro h
    refine ⟨h [] (c :: before) rfl (List.cons_ne_nil _ _), ?_⟩
    intro x y hxy hy
    exact h (c :: x) y (by rw [hxy]; rfl) hy
  · intro h x y hxy hy
    obtain ⟨hc, hb⟩ := h
    cases x with
    | nil =>
      rw [List.nil_append] at hxy
      rwa [← hxy]
    | cons a x =>
      rw [List.cons_append, List.cons.injEq] at hxy
      exact hb x y hxy.2 hy

theorem clear_of_not_mem {x : Char} {before : List Char} (h : x ∉ before) (p : List Char) : Clear (x :: p) before := by
  induction before with
  | nil => exact clear_nil _
  | cons c before ih =>
    rw [List.mem_cons, not_or] at h
    refine clear_cons.mpr ⟨?_, ih h.2⟩
    intro hprefix
    exact h.1 (List.cons_prefix_cons.mp hprefix).1

theorem Clear.not_isInfix {p before : List Char} (h : Clear p before) (hp : p ≠ []) : ¬ p <:+: before := by
  intro hwithin
  obtain ⟨x, y, rfl⟩ := hwithin
  refine h x (p ++ y) (List.append_assoc x p y) (List.append_ne_nil_of_left_ne_nil hp y) ?_
  rw [List.append_assoc]
  exact List.prefix_append p _

/-- A text that is at least as long as `p` begins with `p` or does not, whatever follows it. -/
theorem isPrefix_append_iff {p s : List Char} (hlen : p.length ≤ s.length) (t : List Char) :
    p <+: s ++ t ↔ p <+: s := by
  constructor
  · intro h
    exact List.prefix_of_prefix_length_le h (List.prefix_append s t) hlen
  · intro h
    exact h.trans (List.prefix_append s t)

theorem cut?_eq_some_iff {p s before rest : List Char} :
    cut? p s = some (before, rest) ↔ s = before ++ p ++ rest ∧ Clear p before := by
  induction s generalizing before with
  | nil =>
    rw [cut?]
    constructor
    · intro h
      obtain ⟨r, hr, he⟩ := Option.map_eq_some_iff.mp h
      rw [Prod.mk.injEq] at he
      obtain ⟨rfl, rfl⟩ := he
      exact ⟨strip?_eq_some_iff.mp hr, clear_nil p⟩
    · intro h
      obtain ⟨h, -⟩ := h
      obtain ⟨rfl, rfl, rfl⟩ := (by simpa using h : before = [] ∧ p = [] ∧ rest = [])
      rfl
  | cons c s ih =>
    have hlong (b : List Char) : p.length ≤ (c :: b ++ p).length := by
      rw [List.length_append]
      omega
    rw [cut?]
    cases hp : strip? p (c :: s) with
    | some r =>
      have hs := strip?_eq_some_iff.mp hp
      constructor
      · intro h
        rw [Option.some.injEq, Prod.mk.injEq] at h
        obtain ⟨rfl, rfl⟩ := h
        exact ⟨hs, clear_nil p⟩
      · intro h
        obtain ⟨h, hclear⟩ := h
        cases before with
        | nil =>
          rw [List.nil_append] at h
          rw [List.append_cancel_left (hs.symm.trans h)]
        | cons b before =>
          have hpre : p <+: b :: before ++ p ++ rest := h ▸ ⟨r, hs.symm⟩
          rw [isPrefix_append_iff (by rw [List.length_append]; omega)] at hpre
          exact absurd hpre (clear_cons.mp hclear).1
    | none =>
      have hnot := strip?_eq_none_iff.mp hp
      simp only
      constructor
      · intro h
        obtain ⟨⟨b, r⟩, hb, he⟩ := Option.map_eq_some_iff.mp h
        rw [Prod.mk.injEq] at he
        obtain ⟨rfl, rfl⟩ := he
        obtain ⟨rfl, hclear⟩ := ih.mp hb
        refine ⟨rfl, clear_cons.mpr ⟨?_, hclear⟩⟩
        rwa [← isPrefix_append_iff (hlong b) r]
      · intro h
        obtain ⟨h, hclear⟩ := h
        cases before with
        | nil => exact absurd ⟨rest, h.symm⟩ hnot
        | cons b before =>
          rw [List.cons_append, List.cons_append, List.cons.injEq] at h
          obtain ⟨rfl, rfl⟩ := h
          rw [ih.mpr ⟨rfl, (clear_cons.mp hclear).2⟩]
          rfl

theorem cut?_eq_none_iff {p s : List Char} : cut? p s = none ↔ ¬ p <:+: s := by
  induction s with
  | nil =>
    rw [cut?, Option.map_eq_none_iff, strip?_eq_none_iff]
    simp
  | cons c s ih =>
    rw [cut?, List.infix_cons_iff]
    cases hp : strip? p (c :: s) with
    | some r => simp [isSome_strip?_iff.mp (Option.isSome_of_eq_some hp)]
    | none => simp [strip?_eq_none_iff.mp hp, ih]

/-- A text without `p` whose last character is foreign to `p` can be set aside when `p` is looked for. -/
theorem cut?_append {p s : List Char} (hs : cut? p s = none) (hlast : ∀ c ∈ s.getLast?, c ∉ p) (t : List Char) :
    cut? p (s ++ t) = (cut? p t).map fun (before, rest) => (s ++ before, rest) := by
  induction s with
  | nil => simp
  | cons c s ih =>
    have hnot : ¬ p <+: c :: s := fun h => cut?_eq_none_iff.mp hs h.isInfix
    have hstrip : strip? p (c :: (s ++ t)) = none := by
      rw [strip?_eq_none_iff]
      intro h
      obtain ⟨r, hr⟩ := h
      rw [← List.cons_append] at hr
      rcases List.append_eq_append_iff.mp hr with ⟨x, hx, -⟩ | ⟨x, hx, -⟩
      · exact hnot ⟨x, hx.symm⟩
      · have hmem : (c :: s).getLast (List.cons_ne_nil _ _) ∈ p := by
          rw [hx]
          exact List.mem_append_left x (List.getLast_mem _)
        exact hlast _ (List.getLast?_eq_some_getLast (List.cons_ne_nil c s)) hmem
    have hrest : cut? p s = none := by
      rw [cut?_eq_none_iff] at hs ⊢
      exact fun h => hs (List.infix_cons h)
    have htail : ∀ a ∈ s.getLast?, a ∉ p := by
      intro a ha
      cases s with
      | nil => simp at ha
      | cons b s => exact hlast a (by rwa [List.getLast?_cons_cons])
    rw [List.cons_append, cut?, hstrip]
    simp only
    rw [ih hrest htail, Option.map_map]
    rfl

/-- In front of `p`, a text without `p` whose last character is foreign to `p` holds no part of an occurrence. -/
theorem clear_of_not_isInfix {p s : List Char} (hs : ¬ p <:+: s) (hlast : ∀ c ∈ s.getLast?, c ∉ p) : Clear p s := by
  have hcut : cut? p p = some ([], []) := cut?_eq_some_iff.mpr ⟨(List.append_nil p).symm, clear_nil p⟩
  have happend := cut?_append (cut?_eq_none_iff.mpr hs) hlast p
  rw [hcut] at happend
  have hsplit : cut? p (s ++ p) = some (s, []) := by
    simp only [happend, Option.map_some, List.append_nil]
  exact (cut?_eq_some_iff.mp hsplit).2

end Stencil.Text
