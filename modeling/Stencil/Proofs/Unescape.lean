import Stencil.Proofs.Escape
import Stencil.Proofs.Text.Bytes
import Stencil.Proofs.Text.Utf8

/-!
# Reading escaped texts back

An escaped text tells what was escaped: the entities in it are put back one after the other (`unescapeHtml`), also where the
text had entities of its own, since their ampersands were replaced. Escaping can be done in one walk over the bytes of a text
(`escapeWalk`), which copies the stretches between the characters that are replaced: these take up one byte each, and no byte of a
longer character looks like one of them, so every stretch begins and ends between two characters.
-/

namespace Stencil

open Text

/-- What is written for the characters that mean something in HTML. -/
def htmlEntities : List (Char × String) :=
  [('<', "&lt;"), ('>', "&gt;"), ('&', "&amp;"), ('"', "&quot;"), ('\'', "&#x27;")]

/-- The entity of the character with a code, if it has one. -/
def entity? (code : Nat) : Option String := (htmlEntities.find? fun (c, _) => c.toNat == code).map Prod.snd

/-- What is written for a character: its entity, or the character itself. -/
def replacement (c : Char) : String := (entity? c.toNat).getD (String.singleton c)

/-- Puts characters back for the entities of a text, from left to right. -/
def unescape : List Char → List Char
  | '&' :: 'l' :: 't' :: ';' :: s => '<' :: unescape s
  | '&' :: 'g' :: 't' :: ';' :: s => '>' :: unescape s
  | '&' :: 'a' :: 'm' :: 'p' :: ';' :: s => '&' :: unescape s
  | '&' :: 'q' :: 'u' :: 'o' :: 't' :: ';' :: s => '"' :: unescape s
  | '&' :: '#' :: 'x' :: '2' :: '7' :: ';' :: s => '\'' :: unescape s
  | c :: s => c :: unescape s
  | [] => []

def unescapeHtml (s : String) : String := String.ofList (unescape s.toList)

/-- Escapes a text byte by byte: what is read of `bytes` stands at the offset `index` of the text, and what is in front of the
offset `last` has been written. Nothing comes of it if a stretch cannot be cut out. -/
def escapeWalk (text : List Char) (last index : Nat) : List UInt8 → Option (List Char)
  | [] => slice? text last (byteSize text)
  | b :: bytes =>
    match entity? b.toNat with
    | none => escapeWalk text last (index + 1) bytes
    | some entity => do
      let stretch ← slice? text last index
      let rest ← escapeWalk text (index + 1) (index + 1) bytes
      return stretch ++ entity.toList ++ rest

theorem entity?_of_le {code : Nat} (h : 128 ≤ code) : entity? code = none := by
  have hcode : ∀ pair ∈ htmlEntities, pair.1.toNat < 128 := by decide
  have hnone : htmlEntities.find? (fun pair => pair.1.toNat == code) = none := by
    rw [List.find?_eq_none]
    intro pair hpair
    have := hcode pair hpair
    simp only [beq_iff_eq]
    omega
  simp [entity?, hnone]

theorem entity?_toNat (c : Char) : entity? c.toNat = (htmlEntities.find? fun (b, _) => b == c).map Prod.snd := by
  have hchar : ∀ pair : Char × String, (pair.1.toNat == c.toNat) = (pair.1 == c) := by
    intro pair
    rw [Bool.eq_iff_iff]
    simp [Char.toNat_inj]
  simp [entity?, hchar]

theorem htmlChar_eq (c : Char) : htmlChar c = (replacement c).toList := by
  unfold htmlChar
  split
  · rfl
  · rfl
  · rfl
  · rfl
  · rfl
  · next hlt hgt hamp hquot hapos =>
    have hnone : entity? c.toNat = none := by
      rw [entity?_toNat]
      simp [htmlEntities, Ne.symm hlt, Ne.symm hgt, Ne.symm hamp, Ne.symm hquot, Ne.symm hapos]
    simp [replacement, hnone]

theorem escapeHtml_append (s t : String) : escapeHtml (s ++ t) = escapeHtml s ++ escapeHtml t := by
  simp [escapeHtml]

theorem unescape_cons_of_ne {c : Char} (hc : c ≠ '&') (s : List Char) : unescape (c :: s) = c :: unescape s := by
  rw [unescape]
  all_goals
    intro _ h
    exact absurd h hc

theorem unescape_htmlChar_append (c : Char) (s : List Char) : unescape (htmlChar c ++ s) = c :: unescape s := by
  unfold htmlChar
  split
  · rfl
  · rfl
  · rfl
  · rfl
  · rfl
  · next hamp _ _ => exact unescape_cons_of_ne hamp s

theorem unescapeHtml_escapeHtml (s : String) : unescapeHtml (escapeHtml s) = s := by
  have h : ∀ cs : List Char, unescape (cs.flatMap htmlChar) = cs := by
    intro cs
    induction cs with
    | nil => rfl
    | cons c cs ih => rw [List.flatMap_cons, unescape_htmlChar_append, ih]
  rw [unescapeHtml, escapeHtml, String.toList_ofList, h, String.ofList_toList]

theorem entity?_of_mem_utf8EncodeChar {c : Char} {b : UInt8} (h : b ∈ String.utf8EncodeChar c) :
    entity? b.toNat = entity? c.toNat := by
  rcases code_of_mem_utf8EncodeChar h with heq | ⟨hb, hc⟩
  · rw [heq]
  · rw [entity?_of_le hb, entity?_of_le hc]

theorem escapeWalk_append_of_plain (text : List Char) (last index : Nat) {bytes : List UInt8}
    (h : ∀ b ∈ bytes, entity? b.toNat = none) (more : List UInt8) :
    escapeWalk text last index (bytes ++ more) = escapeWalk text last (index + bytes.length) more := by
  induction bytes generalizing index with
  | nil => rfl
  | cons b bytes ih =>
    have hb := h b List.mem_cons_self
    rw [List.cons_append, escapeWalk, hb]
    simp only
    rw [ih (index + 1) (fun b' hb' => h b' (List.mem_cons_of_mem b hb')), List.length_cons, Nat.add_assoc,
      Nat.add_comm 1]

/-- A character that has an entity is one byte long. -/
theorem utf8EncodeChar_of_entity {c : Char} {entity : String} (h : entity? c.toNat = some entity) :
    ∃ b, String.utf8EncodeChar c = [b] ∧ c.utf8Size = 1 ∧ entity? b.toNat = some entity := by
  have hc : c.toNat < 128 := by
    apply Nat.lt_of_not_le
    intro hlong
    rw [entity?_of_le hlong] at h
    cases h
  have hone : c.utf8Size = 1 := Char.utf8Size_eq_one_iff.mpr (by rw [UInt32.le_iff_toNat_le]; change c.toNat ≤ 127; omega)
  obtain ⟨b, hb⟩ := List.length_eq_one_iff.mp ((String.length_utf8EncodeChar c).trans hone)
  refine ⟨b, hb, hone, ?_⟩
  rw [entity?_of_mem_utf8EncodeChar (hb ▸ List.mem_singleton_self b), h]

/-- With `front` written and `stretch` still to be copied, the walk writes the stretch and escapes the rest. -/
theorem escapeWalk_eq (front stretch rest : List Char) :
    escapeWalk (front ++ stretch ++ rest) (byteSize front) (byteSize (front ++ stretch)) (rest.flatMap String.utf8EncodeChar) =
      some (stretch ++ rest.flatMap htmlChar) := by
  induction rest generalizing front stretch with
  | nil =>
    rw [List.flatMap_nil, escapeWalk, slice?_eq_some_iff]
    exact ⟨front, [], by simp, rfl, by simp⟩
  | cons c rest ih =>
    have htext : front ++ stretch ++ [c] ++ rest = front ++ stretch ++ c :: rest := by simp
    have hindex : byteSize (front ++ stretch ++ [c]) = byteSize (front ++ stretch) + c.utf8Size := by
      rw [byteSize_append, byteSize_cons, byteSize_nil, Nat.add_zero]
    rw [List.flatMap_cons, List.flatMap_cons, htmlChar_eq]
    cases hentity : entity? c.toNat with
    | none =>
      have hplain : ∀ b ∈ String.utf8EncodeChar c, entity? b.toNat = none := by
        intro b hb
        rw [entity?_of_mem_utf8EncodeChar hb, hentity]
      have hrest := ih front (stretch ++ [c])
      rw [← List.append_assoc, hindex, htext] at hrest
      rw [escapeWalk_append_of_plain _ _ _ hplain, String.length_utf8EncodeChar, hrest]
      simp [replacement, hentity]
    | some entity =>
      obtain ⟨b, hb, hsize, hb'⟩ := utf8EncodeChar_of_entity hentity
      have hstretch : slice? (front ++ stretch ++ c :: rest) (byteSize front) (byteSize (front ++ stretch)) = some stretch :=
        slice?_eq_some_iff.mpr ⟨front, c :: rest, rfl, rfl, rfl⟩
      have hrest := ih (front ++ stretch ++ [c]) []
      rw [List.append_nil, hindex, htext, hsize] at hrest
      rw [hb, List.singleton_append, escapeWalk, hb']
      simp only [hstretch, hrest]
      simp [replacement, hentity]

theorem escapeHtml_injective : Function.Injective escapeHtml := by
  intro s t h
  rw [← unescapeHtml_escapeHtml s, h, unescapeHtml_escapeHtml]

/-- Escaping replaces some characters by entities and leaves the others as they are, however long; it can be done in one walk
over the bytes. An escaped text has no markup and no other ampersands than those of entities, and it can be read back. -/
theorem escapeHtml_lossless :
    (∀ s, escapeHtml s = String.join (s.toList.map replacement) ∧
      escapeWalk s.toList 0 0 s.toUTF8.data.toList = some (escapeHtml s).toList ∧ Escaped (escapeHtml s).toList ∧
      unescapeHtml (escapeHtml s) = s) ∧
      (∀ s t, escapeHtml (s ++ t) = escapeHtml s ++ escapeHtml t) ∧ Function.Injective escapeHtml := by
  refine ⟨fun s => ⟨?_, ?_, escaped_escapeHtml s, unescapeHtml_escapeHtml s⟩, escapeHtml_append, escapeHtml_injective⟩
  · rw [← String.toList_inj, escapeHtml, String.toList_ofList, String.toList_join, List.flatMap_map]
    exact congrArg (s.toList.flatMap ·) (funext htmlChar_eq)
  · rw [Utf8.toList_toUTF8, escapeHtml, String.toList_ofList]
    exact escapeWalk_eq [] [] s.toList

example : unescapeHtml (escapeHtml "&lt; <ü>") = "&lt; <ü>" := by decide

end Stencil
