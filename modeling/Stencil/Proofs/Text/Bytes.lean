import Stencil.Proofs.Text.Search
import Stencil.Text.Position

/-!
# Bytes of a text

A character takes up one to four bytes in UTF-8, so a byte offset need not fall between two characters. `slice?` cuts out the
stretch between two offsets, and gives nothing if one of them falls inside a character or past the end, or if the second comes
first (`isSome_slice?_iff`). An offset between two characters is the size of the text in front of it, and that is how offsets
are reckoned with here (`slice?_eq_some_iff`).
-/

namespace Stencil.Text

/-- How many bytes a text takes up in UTF-8. -/
def byteSize : List Char → Nat
  | [] => 0
  | c :: s => c.utf8Size + byteSize s

@[simp] theorem byteSize_nil : byteSize [] = 0 := rfl

@[simp] theorem byteSize_cons (c : Char) (s : List Char) : byteSize (c :: s) = c.utf8Size + byteSize s := rfl

@[simp] theorem byteSize_append (s t : List Char) : byteSize (s ++ t) = byteSize s + byteSize t := by
  induction s with
  | nil => simp
  | cons c s ih => simp [ih, Nat.add_assoc]

theorem byteSize_eq_zero_iff {s : List Char} : byteSize s = 0 ↔ s = [] := by
  cases s with
  | nil => simp
  | cons c s =>
    have := c.utf8Size_pos
    simp only [byteSize_cons, reduceCtorEq, iff_false]
    omega

theorem byteSize_ofList (s : List Char) : (String.ofList s).utf8ByteSize = byteSize s := by
  induction s with
  | nil => rfl
  | cons c s ih =>
    rw [← List.singleton_append, String.ofList_append, ← String.singleton_eq_ofList, String.utf8ByteSize_append,
      String.utf8ByteSize_singleton, ih]
    simp

theorem byteSize_toList (s : String) : byteSize s.toList = s.utf8ByteSize := by
  rw [← byteSize_ofList, String.ofList_toList]

theorem length_flatMap_utf8EncodeChar (s : List Char) : (s.flatMap String.utf8EncodeChar).length = byteSize s := by
  induction s with
  | nil => rfl
  | cons c s ih => rw [List.flatMap_cons, List.length_append, String.length_utf8EncodeChar, ih, byteSize_cons]

theorem firstBytes?_append (front back : List Char) :
    Position.firstBytes? (byteSize front) (front ++ back) = some front := by
  induction front with
  | nil => simp [Position.firstBytes?]
  | cons c front ih =>
    have := c.utf8Size_pos
    obtain ⟨n, hn⟩ : ∃ n, byteSize (c :: front) = n + 1 := ⟨byteSize (c :: front) - 1, by simp only [byteSize_cons]; omega⟩
    rw [byteSize_cons] at hn
    rw [byteSize_cons, hn, List.cons_append, Position.firstBytes?, if_pos (by omega), ← hn, Nat.add_sub_cancel_left, ih]
    rfl

theorem firstBytes?_eq_some_iff {n : Nat} {s front : List Char} :
    Position.firstBytes? n s = some front ↔ front <+: s ∧ byteSize front = n := by
  constructor
  · intro h
    fun_induction Position.firstBytes? n s generalizing front with
    | case1 s =>
      obtain rfl := Option.some.inj h
      simp
    | case2 n => cases h
    | case3 n c s hfits ih =>
      obtain ⟨more, hmore, rfl⟩ := Option.map_eq_some_iff.mp h
      obtain ⟨hfront, hsize⟩ := ih hmore
      refine ⟨List.cons_prefix_cons.mpr ⟨rfl, hfront⟩, ?_⟩
      simp only [byteSize_cons]
      omega
    | case4 n c s hlong => cases h
  · rintro ⟨⟨back, rfl⟩, rfl⟩
    exact firstBytes?_append front back

/-- An offset is between two characters if it is the size of a text in front of it. -/
theorem isValid_iff {s : String} {n : Nat} :
    String.Pos.Raw.IsValid s ⟨n⟩ ↔ ∃ front back, s.toList = front ++ back ∧ byteSize front = n := by
  rw [String.Pos.Raw.isValid_iff_exists_append]
  constructor
  · rintro ⟨front, back, rfl, hn⟩
    refine ⟨front.toList, back.toList, String.toList_append, ?_⟩
    rw [byteSize_toList]
    exact (congrArg String.Pos.Raw.byteIdx hn).symm
  · rintro ⟨front, back, hs, rfl⟩
    refine ⟨String.ofList front, String.ofList back, ?_, ?_⟩
    · rw [← String.ofList_append, ← hs, String.ofList_toList]
    · simp [String.rawEndPos, byteSize_ofList]

private theorem le_toNat_byte {n : Nat} (hlow : 128 ≤ n) (hhigh : n < 256) : 128 ≤ (UInt8.ofNat n).toNat := by
  rw [UInt8.toNat_ofNat', Nat.mod_eq_of_lt hhigh]
  exact hlow

/-- A byte of a character is its code, or else is no character by itself. -/
theorem code_of_mem_utf8EncodeChar {c : Char} {b : UInt8} (h : b ∈ String.utf8EncodeChar c) :
    b.toNat = c.toNat ∨ 128 ≤ b.toNat ∧ 128 ≤ c.toNat := by
  rw [String.utf8EncodeChar] at h
  change b ∈ (if c.toNat ≤ 127 then _ else _) at h
  by_cases hone : c.toNat ≤ 127
  · left
    rw [if_pos hone, List.mem_singleton] at h
    rw [h]
    change (UInt8.ofNat c.toNat).toNat = c.toNat
    rw [UInt8.toNat_ofNat']
    omega
  · refine .inr ⟨?_, by omega⟩
    rw [if_neg hone] at h
    split at h
    · simp only [List.mem_cons, List.not_mem_nil, or_false] at h
      rcases h with rfl | rfl <;> exact le_toNat_byte (by omega) (by omega)
    · split at h
      · simp only [List.mem_cons, List.not_mem_nil, or_false] at h
        rcases h with rfl | rfl | rfl <;> exact le_toNat_byte (by omega) (by omega)
      · simp only [List.mem_cons, List.not_mem_nil, or_false] at h
        rcases h with rfl | rfl | rfl | rfl <;> exact le_toNat_byte (by omega) (by omega)

/-- The stretch of a text between two byte offsets, if there is one. -/
def slice? (s : List Char) (i j : Nat) : Option (List Char) :=
  match Position.firstBytes? i s, Position.firstBytes? j s with
  | some front, some whole => strip? front whole
  | _, _ => none

theorem slice?_eq_some_iff {s t : List Char} {i j : Nat} :
    slice? s i j = some t ↔ ∃ front back, s = front ++ t ++ back ∧ byteSize front = i ∧ byteSize (front ++ t) = j := by
  rw [slice?]
  constructor
  · intro h
    split at h
    · next front whole hfront hwhole =>
      obtain ⟨-, hi⟩ := firstBytes?_eq_some_iff.mp hfront
      obtain ⟨⟨back, rfl⟩, hj⟩ := firstBytes?_eq_some_iff.mp hwhole
      obtain rfl := strip?_eq_some_iff.mp h
      exact ⟨front, back, rfl, hi, hj⟩
    · cases h
  · rintro ⟨front, back, rfl, rfl, rfl⟩
    rw [firstBytes?_append, List.append_assoc, firstBytes?_append]
    exact strip?_append front t

/-- There is a stretch between two offsets if both are between characters and they are in order. -/
theorem isSome_slice?_iff {s : String} {i j : Nat} :
    (slice? s.toList i j).isSome ↔ String.Pos.Raw.IsValid s ⟨i⟩ ∧ String.Pos.Raw.IsValid s ⟨j⟩ ∧ i ≤ j := by
  rw [Option.isSome_iff_exists, isValid_iff, isValid_iff]
  constructor
  · rintro ⟨t, h⟩
    obtain ⟨front, back, hs, rfl, rfl⟩ := slice?_eq_some_iff.mp h
    refine ⟨⟨front, t ++ back, by rw [hs, List.append_assoc], rfl⟩, ⟨front ++ t, back, hs, rfl⟩, ?_⟩
    simp
  · rintro ⟨⟨front, back, hs, rfl⟩, ⟨whole, back', hs', rfl⟩, hle⟩
    rcases List.append_eq_append_iff.mp (hs.symm.trans hs') with ⟨t, rfl, -⟩ | ⟨t, rfl, -⟩
    · exact ⟨t, slice?_eq_some_iff.mpr ⟨front, back', hs', rfl, rfl⟩⟩
    · have ht : byteSize t = 0 := by
        rw [byteSize_append] at hle
        omega
      obtain rfl := byteSize_eq_zero_iff.mp ht
      exact ⟨[], slice?_eq_some_iff.mpr ⟨whole, back', by simpa using hs', by simp, by simp⟩⟩

end Stencil.Text
