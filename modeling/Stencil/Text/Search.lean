/-!
# Finding a text in a text

`strip?` takes a text off the front; `cut?` splits at the first occurrence. Both give back what they read: the parts and
the text looked for make up the whole (`append_of_strip?`, `append_of_cut?`), and `between` recovers the stretch between two
places of one text from what is left at each.
-/

namespace Stencil.Text

def strip? : (p s : List Char) → Option (List Char)
  | [], s => some s
  | _ :: _, [] => none
  | x :: p, c :: s => if x = c then strip? p s else none

theorem append_of_strip? {p s rest : List Char} (h : strip? p s = some rest) : p ++ rest = s := by
  fun_induction strip? p s with
  | case1 => simp_all
  | case2 => simp at h
  | case3 p c s ih => simp [ih h]
  | case4 => simp at h

@[simp] theorem strip?_append (p rest : List Char) : strip? p (p ++ rest) = some rest := by
  induction p with
  | nil => rfl
  | cons c p ih => simp [strip?, ih]

/-- The texts before and after the first occurrence of `p`. -/
def cut? (p : List Char) : List Char → Option (List Char × List Char)
  | [] => (strip? p []).map ([], ·)
  | c :: s =>
    match strip? p (c :: s) with
    | some rest => some ([], rest)
    | none => (cut? p s).map fun (before, rest) => (c :: before, rest)

theorem append_of_cut? {p s before rest : List Char} (h : cut? p s = some (before, rest)) :
    before ++ p ++ rest = s := by
  induction s generalizing before with
  | nil =>
    simp only [cut?, Option.map_eq_some_iff, Prod.mk.injEq] at h
    obtain ⟨r, hr, rfl, rfl⟩ := h
    simpa using append_of_strip? hr
  | cons c s ih =>
    rw [cut?] at h
    split at h
    · next r hr =>
      simp only [Option.some.injEq, Prod.mk.injEq] at h
      obtain ⟨rfl, rfl⟩ := h
      simpa using append_of_strip? hr
    · simp only [Option.map_eq_some_iff, Prod.mk.injEq, Prod.exists] at h
      obtain ⟨b, r, hb, rfl, rfl⟩ := h
      simp [← ih hb]

/-- The stretch of text from the place where `start` is left to the place where `stop` is left. -/
def between (start stop : List Char) : List Char := start.take (start.length - stop.length)

@[simp] theorem between_append (s rest : List Char) : between (s ++ rest) rest = s := by
  simp [between]

end Stencil.Text
