import Stencil.Escape

/-!
# Escaped texts

An escaped text holds none of the characters that HTML takes for markup, and no ampersand but those with which the entities
begin that were written for such characters (`escaped_escapeHtml`).
-/

namespace Stencil

/-- A character that begins or ends a tag or the value of an attribute. -/
def isMarkup (c : Char) : Bool := c == '<' || c == '>' || c == '"' || c == '\''

def entities : List String := ["&lt;", "&gt;", "&amp;", "&quot;", "&#x27;"]

/-- The text has no markup, and every ampersand in it begins an entity. -/
def Escaped (s : List Char) : Prop :=
  (∀ c ∈ s, isMarkup c = false) ∧
    ∀ front rest, s = front ++ '&' :: rest → ∃ entity ∈ entities, entity.toList <+: '&' :: rest

theorem htmlChar_cases (c : Char) :
    (∃ entity ∈ entities, htmlChar c = entity.toList) ∨ htmlChar c = [c] ∧ c ≠ '&' ∧ isMarkup c = false := by
  unfold htmlChar
  split
  · exact .inl ⟨"&lt;", by decide, by decide⟩
  · exact .inl ⟨"&gt;", by decide, by decide⟩
  · exact .inl ⟨"&amp;", by decide, by decide⟩
  · exact .inl ⟨"&quot;", by decide, by decide⟩
  · exact .inl ⟨"&#x27;", by decide, by decide⟩
  · next hlt hgt hamp hquot hapos =>
    refine .inr ⟨rfl, hamp, ?_⟩
    simp only [isMarkup, Bool.or_eq_false_iff, beq_eq_false_iff_ne]
    exact ⟨⟨⟨hlt, hgt⟩, hquot⟩, hapos⟩

private theorem entity_parts : ∀ entity ∈ entities, entity.toList.head? = some '&' ∧ '&' ∉ entity.toList.tail ∧
    ∀ c ∈ entity.toList, isMarkup c = false := by
  simp [entities, isMarkup]

theorem isMarkup_of_mem_htmlChar {b c : Char} (h : b ∈ htmlChar c) : isMarkup b = false := by
  rcases htmlChar_cases c with ⟨entity, hentity, heq⟩ | ⟨heq, -, hmarkup⟩
  · rw [heq] at h
    exact (entity_parts entity hentity).2.2 b h
  · rw [heq, List.mem_singleton] at h
    rw [h, hmarkup]

/-- What is written for a character begins with its only ampersand, and is an entity if it has one. -/
theorem entity_of_htmlChar {c : Char} {front rest : List Char} (h : htmlChar c = front ++ '&' :: rest) :
    front = [] ∧ ∃ entity ∈ entities, entity.toList = '&' :: rest := by
  rcases htmlChar_cases c with ⟨entity, hentity, heq⟩ | ⟨heq, hamp, -⟩
  · rw [heq] at h
    cases front with
    | nil => exact ⟨rfl, entity, hentity, h⟩
    | cons b front =>
      have hmem : '&' ∈ entity.toList.tail := by
        rw [h]
        exact List.mem_append_right front List.mem_cons_self
      exact absurd hmem (entity_parts entity hentity).2.1
  · have hmem : '&' ∈ [c] := heq ▸ h ▸ List.mem_append_right front List.mem_cons_self
    exact absurd (List.mem_singleton.mp hmem).symm hamp

namespace Escaped

theorem nil : Escaped [] := by
  refine ⟨List.forall_mem_nil _, fun front rest h => ?_⟩
  exact absurd h.symm (List.append_ne_nil_of_right_ne_nil front (List.cons_ne_nil '&' rest))

theorem htmlChar_append {s : List Char} (h : Escaped s) (c : Char) : Escaped (htmlChar c ++ s) := by
  refine ⟨fun b hb => ?_, fun front rest heq => ?_⟩
  · rcases List.mem_append.mp hb with hb | hb
    · exact isMarkup_of_mem_htmlChar hb
    · exact h.1 b hb
  · rcases List.append_eq_append_iff.mp heq with ⟨between, -, hs⟩ | ⟨between, hchar, hrest⟩
    · exact h.2 between rest hs
    · cases between with
      | nil => exact h.2 [] rest hrest.symm
      | cons b between =>
        obtain ⟨rfl, hrest⟩ := List.cons.inj hrest
        obtain ⟨-, entity, hentity, hbegins⟩ := entity_of_htmlChar hchar
        refine ⟨entity, hentity, ?_⟩
        rw [hbegins, hrest]
        exact ⟨s, rfl⟩

end Escaped

theorem escaped_escapeHtml (s : String) : Escaped (escapeHtml s).toList := by
  rw [escapeHtml, String.toList_ofList]
  induction s.toList with
  | nil => exact .nil
  | cons c s ih =>
    rw [List.flatMap_cons]
    exact ih.htmlChar_append c

end Stencil
