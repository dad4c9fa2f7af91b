/-!
# White space

Tags and delimiters use the Unicode property `White_Space` (`isBlank`); what may stand beside a tag that is alone on its
line is spaces and tabs only (`isPad`). A text is trimmed at either end, or split into its words, by such a class.
-/

namespace Stencil.Text

def isBlank (c : Char) : Bool :=
  let n := c.toNat
  (9 ≤ n && n ≤ 13) || n == 32 || n == 0x85 || n == 0xA0 || n == 0x1680 || (0x2000 ≤ n && n ≤ 0x200A) ||
    n == 0x2028 || n == 0x2029 || n == 0x202F || n == 0x205F || n == 0x3000

def isPad (c : Char) : Bool := c == ' ' || c == '\t'

def isLineEnd (c : Char) : Bool := c == '\n' || c == '\r'

theorem isBlank_of_isPad {c : Char} (h : isPad c = true) : isBlank c = true := by
  simp only [isPad, Bool.or_eq_true, beq_iff_eq] at h
  rcases h with rfl | rfl <;> decide

theorem isBlank_of_isLineEnd {c : Char} (h : isLineEnd c = true) : isBlank c = true := by
  simp only [isLineEnd, Bool.or_eq_true, beq_iff_eq] at h
  rcases h with rfl | rfl <;> decide

def dropEndWhile (p : Char → Bool) (s : List Char) : List Char := (s.reverse.dropWhile p).reverse

def takeEndWhile (p : Char → Bool) (s : List Char) : List Char := (s.reverse.takeWhile p).reverse

@[simp] theorem dropEndWhile_append_takeEndWhile (p : Char → Bool) (s : List Char) :
    dropEndWhile p s ++ takeEndWhile p s = s := by
  rw [dropEndWhile, takeEndWhile, ← List.reverse_append, List.takeWhile_append_dropWhile, List.reverse_reverse]

theorem of_mem_takeEndWhile {p : Char → Bool} {s : List Char} {c : Char} (h : c ∈ takeEndWhile p s) : p c = true := by
  rw [takeEndWhile, List.mem_reverse] at h
  exact List.all_eq_true.mp List.all_takeWhile c h

def trim (s : List Char) : List Char := dropEndWhile isBlank (s.dropWhile isBlank)

/-- The pieces between the characters of `p`: always one more than there are such characters. -/
def split (p : Char → Bool) : List Char → List (List Char)
  | [] => [[]]
  | c :: s =>
    if p c then [] :: split p s
    else match split p s with
      | [] => [[c]]
      | piece :: pieces => (c :: piece) :: pieces

theorem split_ne_nil (p : Char → Bool) (s : List Char) : split p s ≠ [] := by
  cases s with
  | nil => simp [split]
  | cons c s =>
    rw [split]
    split
    · simp
    · split <;> simp

def words (s : List Char) : List (List Char) := (split isBlank s).filter (!·.isEmpty)

end Stencil.Text
