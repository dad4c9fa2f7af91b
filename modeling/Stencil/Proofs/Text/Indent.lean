import Stencil.Proofs.Text.Respace
import Stencil.Text.Indent

/-!
# Indented texts

Indentation puts padding in front of lines and leaves their ends as they are (`Respacing.indent`). Where a text is cut in two,
the second part begins with the padding of its first line, or the first part ends with it (`padded`).
-/

namespace Stencil

open Text

namespace Text

theorem indentFrom_cons (w : List Char) (fresh : Bool) (c : Char) (s : List Char) :
    indentFrom w fresh (c :: s) = (if fresh && !isLineEnd c then w else []) ++ c :: indentFrom w (isLineEnd c) s := by
  rw [indentFrom]
  split
  · rfl
  · rfl

theorem indentFrom_eq_respace (w : List Char) (fresh : Bool) (s : List Char) :
    indentFrom w fresh s = respace w (fun c => [c]) fresh s := by
  induction s generalizing fresh with
  | nil => rfl
  | cons c s ih =>
    rw [indentFrom_cons, respace, ih]
    cases isLineEnd c with
    | true =>
      rw [Bool.not_true, Bool.and_false]
      rfl
    | false =>
      rw [Bool.not_false, Bool.and_true]
      rfl

/-- Indents a text behind which its last line goes on. -/
def padded (w : List Char) (fresh : Bool) (s : List Char) : List Char :=
  indentFrom w fresh s ++ if Segment.startsLine fresh s then w else []

end Text

theorem Segment.LineEnd.indented {w brk rest : List Char} (h : LineEnd brk rest) (hw : ∀ c ∈ w, isPad c = true) (fresh : Bool) :
    LineEnd brk (indentFrom w fresh rest) := by
  cases h with
  | ofText => exact .ofText
  | feed => exact .feed _
  | returnFeed => exact .returnFeed _
  | «return» hhead =>
    refine .return ?_
    intro hfeed
    cases rest with
    | nil => cases hfeed
    | cons c rest =>
      rw [indentFrom_cons] at hfeed
      split at hfeed
      · cases w with
        | nil => exact hhead hfeed
        | cons pad w =>
          have hpad := hw pad List.mem_cons_self
          rw [Option.some.inj hfeed] at hpad
          cases hpad
      · exact hhead hfeed

namespace Text

section

variable (w : List Char) (hw : ∀ c ∈ w, isPad c = true)

/-- Padding in front of every line that holds anything. -/
def Respacing.indent : Respacing where
  lead := w
  feed c := [c]
  Admits _ := True
  isPad_of_mem_lead := hw
  feed_ne_nil c _ := List.cons_ne_nil c []
  isLineEnd_of_mem_feed c hc b hb := by
    rw [List.mem_singleton.mp hb]
    exact hc
  lineEnd brk rest h _ := by
    have hindented := h.indented hw true
    rw [indentFrom_eq_respace] at hindented
    cases h with
    | ofText | feed | returnFeed | «return» => exact hindented

theorem Respacing.text_indent (fresh : Bool) (s : List Char) : (indent w hw).text fresh s = indentFrom w fresh s :=
  (indentFrom_eq_respace w fresh s).symm

theorem Respacing.front_indent (fresh : Bool) (s : List Char) : (indent w hw).front fresh s = padded w fresh s := by
  rw [front, text_indent, padded]
  rfl

end

section Indented

variable {w : List Char} (hw : ∀ c ∈ w, isPad c = true)

include hw

theorem indentFrom_append (fresh : Bool) (s t : List Char) :
    indentFrom w fresh (s ++ t) = indentFrom w fresh s ++ indentFrom w (Segment.startsLine fresh s) t := by
  have happend := (Respacing.indent w hw).text_append fresh s t
  simpa only [Respacing.text_indent] using happend

theorem startsLine_indentFrom (fresh fresh' : Bool) (s : List Char) :
    Segment.startsLine fresh (indentFrom w fresh' s) = Segment.startsLine fresh s := by
  have hstarts := (Respacing.indent w hw).startsLine_text fresh fresh' s
  rwa [Respacing.text_indent] at hstarts

theorem getLast?_indentFrom (fresh : Bool) (s : List Char) : (indentFrom w fresh s).getLast? = s.getLast? := by
  cases s using List.reverseRecOn with
  | nil => rfl
  | append_singleton s c =>
    rw [indentFrom_append hw, indentFrom_cons, indentFrom, ← List.append_assoc, List.getLast?_concat, List.getLast?_concat]

/-- Padding ends no line. -/
private theorem count_lead (b : Bool) : (if b then w else []).count '\n' = 0 := by
  rw [List.count_eq_zero]
  intro hc
  exact Bool.noConfusion ((Respacing.indent w hw).isPad_of_mem_start b '\n' hc)

theorem count_indentFrom (fresh : Bool) (s : List Char) : (indentFrom w fresh s).count '\n' = s.count '\n' := by
  induction s generalizing fresh with
  | nil => rfl
  | cons c s ih => rw [indentFrom_cons, List.count_append, count_lead hw, Nat.zero_add, List.count_cons, ih, List.count_cons]

theorem count_padded (fresh : Bool) (s : List Char) : (padded w fresh s).count '\n' = s.count '\n' := by
  rw [padded, List.count_append, count_indentFrom hw, count_lead hw, Nat.add_zero]

end Indented
end Text
end Stencil
