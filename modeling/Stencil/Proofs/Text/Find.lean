import Stencil.Proofs.Text.Bytes
import Stencil.Proofs.Text.Utf8

/-!
# Finding a text by its bytes

A search that compares bytes finds a text where a search that compares characters finds it (`find?_eq`). It cannot hit upon a
place inside a character: the first byte of a character looks like no byte that follows a first one, so each place where the
bytes of a text occur is between two characters.
-/

namespace Stencil.Text

/-- The bytes of a text in UTF-8. -/
def encode (s : List Char) : List UInt8 := s.flatMap String.utf8EncodeChar

/-- The first index at which the bytes `p` stand. -/
def findBytes? (p : List UInt8) : List UInt8 → Option Nat
  | [] => if p = [] then some 0 else none
  | b :: bytes => if p <+: b :: bytes then some 0 else (findBytes? p bytes).map (· + 1)

/-- The offset of the first occurrence of a text in another one, by bytes. -/
def find? (p s : List Char) : Option Nat := findBytes? (encode p) (encode s)

@[simp] theorem encode_nil : encode [] = [] := rfl

@[simp] theorem encode_cons (c : Char) (s : List Char) : encode (c :: s) = String.utf8EncodeChar c ++ encode s := rfl

@[simp] theorem encode_append (s t : List Char) : encode (s ++ t) = encode s ++ encode t := List.flatMap_append

/-- Texts that start with the same bytes start with the same characters. -/
theorem encode_isPrefix_iff {p s : List Char} : encode p <+: encode s ↔ p <+: s := by
  constructor
  · intro h
    induction p generalizing s with
    | nil => exact List.nil_prefix
    | cons a p ih =>
      obtain ⟨bytes, hbytes⟩ := h
      obtain ⟨b, more, hmore, hfront⟩ := Utf8.front_of_utf8EncodeChar a
      cases s with
      | nil => simp [hmore] at hbytes
      | cons c s =>
        obtain ⟨b', more', hmore', hfront'⟩ := Utf8.front_of_utf8EncodeChar c
        simp only [encode_cons, hmore, hmore', List.cons_append, List.append_assoc, List.cons.injEq] at hbytes
        obtain ⟨rfl, hbytes⟩ := hbytes
        have hread := hfront (encode p ++ bytes)
        rw [hbytes, hfront'] at hread
        obtain ⟨rfl, hrest⟩ := Utf8.Front.char.inj hread
        exact List.cons_prefix_cons.mpr ⟨rfl, ih ⟨bytes, hrest.symm⟩⟩
  · intro h
    obtain ⟨rest, rfl⟩ := h
    exact ⟨encode rest, (encode_append p rest).symm⟩

/-- No text starts inside a character. -/
theorem not_encode_isPrefix_drop {p s : List Char} {c : Char} {k : Nat} (hp : p ≠ []) (hk : k ≠ 0)
    (hlt : k < (String.utf8EncodeChar c).length) : ¬ encode p <+: (encode (c :: s)).drop k := by
  intro h
  obtain ⟨a, p, rfl⟩ := List.exists_cons_of_ne_nil hp
  have hpos : 0 < (String.utf8EncodeChar a).length := by
    rw [String.length_utf8EncodeChar]
    exact a.utf8Size_pos
  have hhead : (String.utf8EncodeChar a)[0] = (String.utf8EncodeChar c)[k] := by
    have hget := h.getElem (i := 0) (by simp only [encode_cons, List.length_append]; omega)
    simp only [encode_cons, List.getElem_drop, Nat.add_zero] at hget
    rwa [List.getElem_append_left hpos, List.getElem_append_left hlt] at hget
  have hfirst : (String.utf8EncodeChar a)[0].IsUTF8FirstByte := UInt8.isUTF8FirstByte_getElem_zero_utf8EncodeChar
  rw [hhead, UInt8.isUTF8FirstByte_getElem_utf8EncodeChar] at hfirst
  exact hk hfirst

theorem findBytes?_of_isPrefix {p s : List UInt8} (h : p <+: s) : findBytes? p s = some 0 := by
  cases s with
  | nil => rw [findBytes?, if_pos (List.prefix_nil.mp h)]
  | cons b s => rw [findBytes?, if_pos h]

theorem findBytes?_append {p front back : List UInt8} (h : ∀ k < front.length, ¬ p <+: (front ++ back).drop k) :
    findBytes? p (front ++ back) = (findBytes? p back).map (front.length + ·) := by
  induction front with
  | nil => simp
  | cons b front ih =>
    have hhere : ¬ p <+: b :: (front ++ back) := h 0 (Nat.succ_pos _)
    rw [List.cons_append, findBytes?, if_neg hhere, ih fun k hk => h (k + 1) (Nat.succ_lt_succ hk), Option.map_map]
    simp only [List.length_cons]
    congr 1
    funext n
    simp only [Function.comp_apply]
    omega

theorem find?_eq {p : List Char} (hp : p ≠ []) (s : List Char) :
    find? p s = (cut? p s).map fun (before, _) => byteSize before := by
  have hne : encode p ≠ [] := by
    intro h
    apply hp
    rw [← List.prefix_nil, ← encode_isPrefix_iff, h]
    exact List.nil_prefix
  induction s with
  | nil =>
    rw [find?, encode_nil, findBytes?, if_neg hne, cut?, strip?_eq_none_iff.mpr (mt List.prefix_nil.mp hp)]
    rfl
  | cons c s ih =>
    rw [cut?]
    by_cases hpre : p <+: c :: s
    · rw [find?, findBytes?_of_isPrefix (encode_isPrefix_iff.mpr hpre)]
      obtain ⟨rest, hrest⟩ := hpre
      rw [strip?_eq_some_iff.mpr hrest.symm]
      rfl
    · -- Nothing is found at the first byte of the character, nor at one that follows.
      have hskip : ∀ k < (String.utf8EncodeChar c).length, ¬ encode p <+: (String.utf8EncodeChar c ++ encode s).drop k := by
        intro k hk
        by_cases hzero : k = 0
        · rw [hzero, List.drop_zero, ← encode_cons]
          exact mt encode_isPrefix_iff.mp hpre
        · exact not_encode_isPrefix_drop hp hzero hk
      rw [strip?_eq_none_iff.mpr hpre, find?, encode_cons, findBytes?_append hskip, ← find?, ih]
      simp [Function.comp_def, String.length_utf8EncodeChar]

end Stencil.Text
