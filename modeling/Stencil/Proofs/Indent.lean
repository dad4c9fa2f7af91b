import Stencil.Proofs.Outline
import Stencil.Proofs.Respace
import Stencil.Proofs.Text.Indent

/-!
# Indented templates

An indented template has the tags it had, with more padding in front of those that are alone on their lines; the sections are
the same, and so are the delimiters in force. What the indentation adds elsewhere is literal text, or white space inside a
tag that means nothing there (`Covers.indented`).
-/

namespace Stencil

open Text

namespace Segment

/-- The segment with its lines indented, where `fresh` says whether a line starts in front of it. -/
def indented (w : List Char) (fresh : Bool) (seg : Segment) : Segment :=
  let seg := { seg with spelling := indentFrom w false seg.spelling }
  if seg.alone then { seg with text := indentFrom w fresh seg.text, indent := w ++ seg.indent }
  else { seg with text := padded w fresh seg.text }

@[simp]
theorem tag_indented (w : List Char) (fresh : Bool) (seg : Segment) : (seg.indented w fresh).tag = seg.tag := by
  rw [indented]
  simp only
  split
  · rfl
  · rfl

section Indented

variable {w : List Char} (hw : ∀ c ∈ w, isPad c = true) {d : Delimiters} {fresh : Bool} {seg : Segment} {rest : List Char}

include hw in
theorem ClosesLine.indentFrom {s : List Char} (h : ClosesLine s rest) : indentFrom w false s = s := by
  obtain ⟨pad, brk, rfl, hpad, hbrk⟩ := h
  have hinline : ∀ c ∈ pad, isLineEnd c = false := fun c hc => not_isLineEnd_of_isPad (hpad c hc)
  rw [← Respacing.text_indent w hw, Respacing.text_inline_append _ hinline, Respacing.text_indent]
  cases hbrk with
  | ofText | feed | returnFeed | «return» => rfl

/-- What ends the line of a tag starts no line, so nothing is put in there. -/
theorem Placed.indented_eq (h : seg.Placed fresh rest) : seg.indented w fresh = seg.respaced (.indent w hw) fresh := by
  have htrailing : indentFrom w false seg.trailing = seg.trailing := by
    by_cases halone : seg.alone = true
    · rw [placed_of_alone halone] at h
      exact h.2.2.2.indentFrom hw
    · rw [placed_of_not_alone halone] at h
      rw [h.2.1]
      rfl
  rw [indented, respaced]
  simp only [Respacing.text_indent, Respacing.front_indent, htrailing]
  rfl

variable (h : seg.Fits d fresh rest)

include hw h

/-- A segment of an indented text is the indented segment. -/
theorem Fits.source_indented : (seg.indented w fresh).source = indentFrom w fresh seg.source := by
  rw [h.2.indented_eq hw, h.source_respaced _ fun _ _ => trivial, Respacing.text_indent]

/-- A tag keeps its line when lines are indented. -/
theorem Fits.indented : (seg.indented w fresh).Fits d fresh (indentFrom w (startsLine fresh seg.source) rest) := by
  have hfits := h.respaced (.indent w hw) fun _ _ => trivial
  rwa [← h.2.indented_eq hw, Respacing.text_indent] at hfits

end Indented
end Segment

namespace Outline

/-- The outline of the indented region. -/
def indented (w : List Char) : Bool → Outline → Outline
  | _, done => done
  | fresh, tag seg after => tag (seg.indented w fresh) (after.indented w (Segment.startsLine fresh seg.source))
  | fresh, block inverted name opening body closing after =>
    block inverted name (opening.indented w fresh) (body.indented w (Segment.startsLine fresh opening.source))
      (closing.indented w (Segment.startsLine fresh (opening.source ++ body.source)))
      (after.indented w (Segment.startsLine fresh (opening.source ++ (body.source ++ closing.source))))

@[simp]
theorem inForce_indented (w : List Char) (fresh : Bool) (o : Outline) (d : Delimiters) :
    (o.indented w fresh).inForce d = o.inForce d := by
  induction o generalizing fresh d with
  | done => rfl
  | tag seg after ih => rw [indented, inForce, inForce, Segment.tag_indented, ih]
  | block inverted name opening body closing after ihbody ihafter => exact ihafter _ d

@[simp]
theorem depth_indented (w : List Char) (fresh : Bool) (o : Outline) : (o.indented w fresh).depth = o.depth := by
  induction o generalizing fresh with
  | done => rfl
  | tag seg after ih => exact ih _
  | block inverted name opening body closing after ihbody ihafter => rw [indented, depth, depth, ihbody, ihafter]

section Indented

variable {w : List Char} {d : Delimiters} {fresh : Bool} {rest tail : List Char}

theorem Fits.source_indented (hw : ∀ c ∈ w, isPad c = true) {o : Outline} (h : o.Fits d fresh rest) :
    (o.indented w fresh).source = indentFrom w fresh o.source := by
  induction o generalizing d fresh rest with
  | done => rfl
  | tag seg after ih =>
    obtain ⟨-, hseg, hafter⟩ := h
    rw [indented, source, source, hseg.source_indented hw, ih hafter, indentFrom_append hw]
  | block inverted name opening body closing after ihbody ihafter =>
    obtain ⟨-, -, hfitsO, hbody, hfitsC, hafter⟩ := h
    rw [indented, source, source, hfitsO.source_indented hw, ihbody hbody, hfitsC.source_indented hw, ihafter hafter]
    simp only [indentFrom_append hw, Segment.startsLine_append]

theorem Fits.indented (hw : ∀ c ∈ w, isPad c = true) {o : Outline} (h : o.Fits d fresh rest) :
    (o.indented w fresh).Fits d fresh (indentFrom w (Segment.startsLine fresh o.source) rest) := by
  induction o generalizing d fresh rest with
  | done => trivial
  | tag seg after ih =>
    obtain ⟨hplain, hseg, hafter⟩ := h
    have hsegI := hseg.indented hw
    have hafterI := ih hafter
    rw [indentFrom_append hw, ← hafter.source_indented hw] at hsegI
    rw [source, Segment.startsLine_append]
    refine ⟨?_, hsegI, ?_⟩
    · rwa [Segment.tag_indented]
    · rwa [Segment.tag_indented, hseg.source_indented hw, startsLine_indentFrom hw]
  | block inverted name opening body closing after ihbody ihafter =>
    obtain ⟨hopening, hclosing, hfitsO, hbody, hfitsC, hafter⟩ := h
    rw [Segment.startsLine_append] at hfitsC
    rw [Segment.startsLine_append, Segment.startsLine_append] at hafter
    have hopeningI := hfitsO.indented hw
    have hbodyI := ihbody hbody
    have hclosingI := hfitsC.indented hw
    have hafterI := ihafter hafter
    simp only [indentFrom_append hw] at hopeningI hbodyI hclosingI hafterI
    -- What each part is followed by is now indented from where the part ends, as in the indented outline.
    simp only [indented, Fits, hfitsO.source_indented hw, hbody.source_indented hw, hfitsC.source_indented hw,
      hafter.source_indented hw, Segment.tag_indented, inForce_indented, Segment.startsLine_append,
      startsLine_indentFrom hw, source]
    exact ⟨hopening, hclosing, hopeningI, hbodyI, hclosingI, hafterI⟩

/-- An indented template is outlined by the indented outline. -/
theorem Covers.indented (hw : ∀ c ∈ w, isPad c = true) {o : Outline} {s : List Char} (h : o.Covers d s tail) :
    (o.indented w true).Covers d (indentFrom w true s) (indentFrom w (Segment.startsLine true o.source) tail) where
  source_eq := by rw [h.source_eq, indentFrom_append hw, h.fits.source_indented hw]
  fits := h.fits.indented hw
  depth_le := by
    rw [depth_indented]
    exact h.depth_le
  untagged := by
    rw [inForce_indented]
    intro hinfix
    apply h.untagged
    rwa [← Respacing.text_indent w hw, Respacing.infix_text_iff _ (o.inForce d).not_isBlank_of_mem_opener
      (o.inForce d).opener_toList_ne_nil] at hinfix

end Indented
end Outline
end Stencil
