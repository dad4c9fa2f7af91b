import Mathlib.Data.Prod.Lex
import Mathlib.Order.Monotone.Defs
import Stencil.Proofs.Text.Bytes

/-!
# Places and byte offsets

A byte offset between two characters stands for the place behind the characters in front of it (`ofOffset_append`). Places
are ordered by line and then by column, and reading on leads to a later place. So the places of such offsets are in the order
of the offsets (`strictMonoOn_ofOffset`), and none is the place of two of them. Any other offset stands for the end of the
text, so places are out of order behind an offset that falls inside a character, and nowhere else (`ofOffset_le_iff`).
-/

namespace Stencil.Position

open Text

theorem toLex_injective : Function.Injective fun p : Position => toLex (p.line, p.column) := by
  intro p q h
  obtain ⟨hline, hcolumn⟩ := Prod.mk.inj (toLex.injective h)
  cases p
  cases q
  simp_all

/-- A place is in front of another one on an earlier line, or further to the left on the same line. -/
instance : PartialOrder Position := PartialOrder.lift (fun p => toLex (p.line, p.column)) toLex_injective

theorem lt_iff {p q : Position} : p < q ↔ p.line < q.line ∨ p.line = q.line ∧ p.column < q.column :=
  Prod.Lex.toLex_lt_toLex (x := (p.line, p.column)) (y := (q.line, q.column))

theorem lt_advance (p : Position) (c : Char) : p < p.advance c := by
  rw [lt_iff, advance]
  split
  · exact .inl (Nat.lt_succ_self p.line)
  · exact .inr ⟨rfl, Nat.lt_succ_self p.column⟩

theorem le_advanceAll (p : Position) (s : List Char) : p ≤ p.advanceAll s := by
  induction s generalizing p with
  | nil => exact le_refl p
  | cons c s ih => exact (lt_advance p c).le.trans (ih (p.advance c))

theorem lt_advanceAll (p : Position) {s : List Char} (hs : s ≠ []) : p < p.advanceAll s := by
  cases s with
  | nil => exact absurd rfl hs
  | cons c s => exact (lt_advance p c).trans_le (le_advanceAll (p.advance c) s)

/-- The place of an offset is the place behind the text in front of it. -/
theorem ofOffset_byteSize {s : String} {front back : List Char} (h : s.toList = front ++ back) :
    ofOffset s (byteSize front) = start.advanceAll front := by
  rw [ofOffset, h, firstBytes?_append]
  rfl

theorem ofOffset_append (front back : String) :
    ofOffset (front ++ back) front.utf8ByteSize = start.advanceAll front.toList := by
  rw [← byteSize_toList]
  exact ofOffset_byteSize String.toList_append

/-- Offsets that do not fall inside a character are in the order of their places. -/
theorem strictMonoOn_ofOffset (s : String) : StrictMonoOn (ofOffset s) {n | String.Pos.Raw.IsValid s ⟨n⟩} := by
  intro m hm n hn hlt
  obtain ⟨front, back, hs, hfront⟩ := String.Pos.Raw.isValid_iff_exists_append.mp hm
  obtain ⟨front', back', rfl, hfront'⟩ := String.Pos.Raw.isValid_iff_exists_append.mp hn
  obtain rfl : m = front.utf8ByteSize := congrArg String.Pos.Raw.byteIdx hfront
  obtain rfl : n = front'.utf8ByteSize := congrArg String.Pos.Raw.byteIdx hfront'
  have hplace : ofOffset (front' ++ back') front.utf8ByteSize = start.advanceAll front.toList := by
    rw [hs, ofOffset_append]
  rw [hplace, ofOffset_append]
  -- Of two texts that both start the same one, the shorter starts the longer.
  have htexts := congrArg String.toList hs
  rw [String.toList_append, String.toList_append] at htexts
  rcases List.append_eq_append_iff.mp htexts with ⟨more, hmore, -⟩ | ⟨more, hmore, -⟩
  · have hsize := congrArg (fun t => (String.ofList t).utf8ByteSize) hmore
    simp only [String.ofList_append, String.ofList_toList, String.utf8ByteSize_append] at hsize
    omega
  · have hne : more ≠ [] := by
      rintro rfl
      rw [List.append_nil] at hmore
      rw [String.toList_inj.mp hmore] at hlt
      exact Nat.lt_irrefl _ hlt
    rw [hmore, advanceAll_append]
    exact lt_advanceAll _ hne

/-- The offset is in front of the end, but between no two characters. -/
def FallsInside (s : String) (n : Nat) : Prop := n < s.utf8ByteSize ∧ ¬ String.Pos.Raw.IsValid s ⟨n⟩

instance (s : String) (n : Nat) : Decidable (FallsInside s n) := inferInstanceAs (Decidable (_ ∧ _))

theorem ofOffset_end (s : String) : ofOffset s s.utf8ByteSize = start.advanceAll s.toList := by
  simpa using ofOffset_append s ""

/-- An offset between no two characters stands for the end of the text. -/
theorem ofOffset_of_not_isValid {s : String} {n : Nat} (h : ¬ String.Pos.Raw.IsValid s ⟨n⟩) :
    ofOffset s n = ofOffset s s.utf8ByteSize := by
  have hnone : firstBytes? n s.toList = none := by
    cases hfirst : firstBytes? n s.toList with
    | none => rfl
    | some front =>
      obtain ⟨⟨back, hs⟩, hsize⟩ := firstBytes?_eq_some_iff.mp hfirst
      exact absurd (isValid_iff.mpr ⟨front, back, hs.symm, hsize⟩) h
  rw [ofOffset_end, ofOffset, hnone]
  rfl

theorem ofOffset_lt_end {s : String} {n : Nat} (h : String.Pos.Raw.IsValid s ⟨n⟩) (hn : n < s.utf8ByteSize) :
    ofOffset s n < ofOffset s s.utf8ByteSize :=
  strictMonoOn_ofOffset s h String.Pos.Raw.isValid_rawEndPos hn

theorem ofOffset_le_end (s : String) (n : Nat) : ofOffset s n ≤ ofOffset s s.utf8ByteSize := by
  by_cases hvalid : String.Pos.Raw.IsValid s ⟨n⟩
  · have hn : n ≤ s.utf8ByteSize := hvalid.le_rawEndPos
    exact (strictMonoOn_ofOffset s).monotoneOn hvalid String.Pos.Raw.isValid_rawEndPos hn
  · exact (ofOffset_of_not_isValid hvalid).le

/-- Offsets are in the order of their places, but for one that falls inside a character: its place is the end of the text,
behind the places of all offsets that are between two characters. -/
theorem ofOffset_le_iff {s : String} {m n : Nat} (h : m ≤ n) :
    ofOffset s m ≤ ofOffset s n ↔ ¬ (FallsInside s m ∧ n < s.utf8ByteSize ∧ String.Pos.Raw.IsValid s ⟨n⟩) := by
  by_cases hn : n < s.utf8ByteSize ∧ String.Pos.Raw.IsValid s ⟨n⟩
  · obtain ⟨hlt, hvalid⟩ := hn
    by_cases hm : String.Pos.Raw.IsValid s ⟨m⟩
    · have hle := (strictMonoOn_ofOffset s).monotoneOn hm hvalid h
      simp [hle, FallsInside, hm]
    · have hlate : ofOffset s n < ofOffset s m := by
        rw [ofOffset_of_not_isValid hm]
        exact ofOffset_lt_end hvalid hlt
      have hinside : FallsInside s m := ⟨by omega, hm⟩
      simp [hlate.not_ge, hinside, hlt, hvalid]
  · have hlast : ofOffset s n = ofOffset s s.utf8ByteSize := by
      by_cases hvalid : String.Pos.Raw.IsValid s ⟨n⟩
      · have hle : n ≤ s.utf8ByteSize := hvalid.le_rawEndPos
        have hend : n = s.utf8ByteSize := by
          by_contra hne
          exact hn ⟨by omega, hvalid⟩
        rw [hend]
      · exact ofOffset_of_not_isValid hvalid
    rw [hlast]
    simp [ofOffset_le_end, hn]

theorem ofOffset_le_iff_of_two_lines : 1 ≤ 4 ∧ ofOffset "é\nü" 1 ≤ ofOffset "é\nü" 4 := by
  refine ⟨by decide, (ofOffset_le_iff (by decide)).mpr ?_⟩
  decide

/-- The first offset falls inside the first character, and the second is behind it. -/
theorem not_monotone_ofOffset : ¬ ∀ (s : String) (m n : Nat), m ≤ n → ofOffset s m ≤ ofOffset s n := by
  intro h
  have hlt : ofOffset "éa" 2 < ofOffset "éa" 1 := by
    rw [lt_iff]
    decide
  exact absurd (h "éa" 1 2 (by decide)) hlt.not_ge

end Stencil.Position
