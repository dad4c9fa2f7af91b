import Stencil.Text.Blank
import Stencil.Text.Quoted

/-!
# Delimiters

The pair of texts that marks the tags of a template. Neither may be empty, hold white space or hold an equals sign; a pair
carries the proof that it keeps these rules, so every pair that exists is a legal one. `Delimiters.ofTexts` decides, and names
the first rule that is broken.
-/

namespace Stencil

/-- The rules for a delimiter: it is not empty and holds neither white space nor an equals sign. -/
def IsDelimiter (s : String) : Prop := s ≠ "" ∧ ∀ c ∈ s.toList, Text.isBlank c = false ∧ c ≠ '='

/-- The opening and the closing text of a tag. -/
structure Delimiters where
  opener : String
  closer : String
  opener_isDelimiter : IsDelimiter opener
  closer_isDelimiter : IsDelimiter closer
deriving DecidableEq

/-- A rule that two texts break, which keeps them from being delimiters. -/
inductive DelimiterFault where
  | empty
  | whiteSpace
  | equalsSign
deriving DecidableEq, Repr

/-- Two texts that are no pair of delimiters, and the first rule they break. -/
structure InvalidDelimiters where
  opener : String
  closer : String
  fault : DelimiterFault
deriving DecidableEq, Repr

def DelimiterFault.reason : DelimiterFault → String
  | .empty => "delimiters must not be empty"
  | .whiteSpace => "delimiters must not contain whitespace"
  | .equalsSign => "delimiters must not contain '='"

def InvalidDelimiters.message (e : InvalidDelimiters) : String :=
  s!"invalid delimiters {Text.quoted e.opener} {Text.quoted e.closer}: {e.fault.reason}"

namespace Delimiters

/-- The first rule that the two texts break: emptiness counts before white space, and white space before the equals
sign, whichever of the two texts is at fault. -/
def fault? (opener closer : String) : Option DelimiterFault :=
  let marks := opener.toList ++ closer.toList
  if opener = "" ∨ closer = "" then some .empty
  else if marks.any Text.isBlank then some .whiteSpace
  else if marks.contains '=' then some .equalsSign
  else none

theorem isDelimiter_of_fault?_eq_none {opener closer : String} (h : fault? opener closer = none) :
    IsDelimiter opener ∧ IsDelimiter closer := by
  simp only [fault?] at h
  split at h
  · simp at h
  · next he =>
    split at h
    · simp at h
    · next hb =>
      split at h
      · simp at h
      · next hq =>
        simp only [List.any_append, Bool.or_eq_true, List.any_eq_true, not_or, not_exists, not_and,
          Bool.not_eq_true] at hb
        simp only [List.contains_iff_mem, List.mem_append, not_or] at hq
        rw [not_or] at he
        exact ⟨⟨he.1, fun c hc => ⟨hb.1 c hc, fun e => hq.1 (e ▸ hc)⟩⟩,
          ⟨he.2, fun c hc => ⟨hb.2 c hc, fun e => hq.2 (e ▸ hc)⟩⟩⟩

def ofTexts (opener closer : String) : Except InvalidDelimiters Delimiters :=
  match h : fault? opener closer with
  | some fault => .error ⟨opener, closer, fault⟩
  | none =>
    have rules := isDelimiter_of_fault?_eq_none h
    .ok ⟨opener, closer, rules.1, rules.2⟩

private theorem standard_fault? : fault? "\x7b\x7b" "\x7d\x7d" = none := by decide

def standard : Delimiters where
  opener := "\x7b\x7b"
  closer := "\x7d\x7d"
  opener_isDelimiter := (isDelimiter_of_fault?_eq_none standard_fault?).1
  closer_isDelimiter := (isDelimiter_of_fault?_eq_none standard_fault?).2

instance : Inhabited Delimiters := ⟨standard⟩

/-- Both texts with a space between, as a tag that changes the delimiters spells them. -/
def display (d : Delimiters) : String := s!"{d.opener} {d.closer}"

theorem opener_toList_ne_nil (d : Delimiters) : d.opener.toList ≠ [] := by
  have h := d.opener_isDelimiter.1
  simpa using h

theorem closer_toList_ne_nil (d : Delimiters) : d.closer.toList ≠ [] := by
  have h := d.closer_isDelimiter.1
  simpa using h

theorem not_isBlank_of_mem_opener (d : Delimiters) : ∀ c ∈ d.opener.toList, Text.isBlank c = false :=
  fun c hc => (d.opener_isDelimiter.2 c hc).1

theorem not_isBlank_of_mem_closer (d : Delimiters) : ∀ c ∈ d.closer.toList, Text.isBlank c = false :=
  fun c hc => (d.closer_isDelimiter.2 c hc).1

end Delimiters
end Stencil
