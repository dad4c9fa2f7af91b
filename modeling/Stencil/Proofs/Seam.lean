import Stencil.Proofs.Outline

/-!
# What surrounds a region

Whether a region is written as it should be depends on the text around it at its edges only: on the rest of the line behind
its last tag, and on whether a line starts in front of its first. A region whose edges are settled by its own text can be
read by itself or with other text around it.
-/

namespace Stencil

open Text

theorem Tag.Spelling.getLast? {d : Delimiters} {tag : Tag} {s : List Char} (h : Tag.Spelling d tag s) :
    ∃ c, s.getLast? = some c ∧ isBlank c = false := by
  obtain ⟨blank, content, rfl, -⟩ := h
  have hne := d.closer_toList_ne_nil
  refine ⟨d.closer.toList.getLast hne, ?_, ?_⟩
  · rw [← List.append_assoc, ← List.append_assoc, List.getLast?_append, List.getLast?_eq_some_getLast hne, Option.some_or]
  · exact d.not_isBlank_of_mem_closer _ (List.getLast_mem hne)

theorem Tag.Spelling.startsLine {d : Delimiters} {tag : Tag} {s : List Char} (h : Tag.Spelling d tag s) (fresh : Bool) :
    Segment.startsLine fresh s = false := by
  obtain ⟨c, hc, hblank⟩ := h.getLast?
  rw [Segment.startsLine, hc]
  exact not_isLineEnd_of_not_isBlank hblank

namespace Segment

variable {d : Delimiters} {fresh : Bool} {seg : Segment} {rest rest' : List Char}

theorem Spelled.exists_not_isPad (h : seg.Spelled d) : ∃ c ∈ seg.source, isPad c = false := by
  obtain ⟨c, hc, hblank⟩ := h.spelling.getLast?
  refine ⟨c, ?_, ?_⟩
  · have hmem := List.mem_of_getLast? hc
    simp only [source, List.mem_append]
    exact .inl (.inr hmem)
  · by_contra hpad
    rw [Bool.not_eq_false] at hpad
    rw [isBlank_of_isPad hpad] at hblank
    cases hblank

theorem LineEnd.append {brk s : List Char} (h : LineEnd brk (s ++ rest)) (hs : s ≠ []) (rest' : List Char) :
    LineEnd brk (s ++ rest') := by
  generalize hx : s ++ rest = x at h
  cases h with
  | ofText => exact absurd (List.append_eq_nil_iff.mp hx).1 hs
  | feed => exact .feed _
  | returnFeed => exact .returnFeed _
  | «return» hhead =>
    refine .return ?_
    rw [← hx, List.head?_append_of_ne_nil _ hs] at hhead
    rwa [List.head?_append_of_ne_nil _ hs]

private theorem restOfLine?_append {s : List Char} (hs : ∃ c ∈ s, isPad c = false)
    (h : restOfLine? (s ++ rest) = none) (rest' : List Char) : restOfLine? (s ++ rest') = none := by
  obtain ⟨pad, c, more, hsplit, hpad, hc, hend⟩ := restOfLine?_eq_none_iff.mp h
  rcases forall_or_split isPad s with hall | ⟨pad', c', more', rfl, hpad', hc'⟩
  · obtain ⟨a, ha, hpadA⟩ := hs
    rw [hall a ha] at hpadA
    cases hpadA
  · -- The first character that is no padding decides, and it is one of the text in front.
    rw [List.append_assoc, List.cons_append] at hsplit
    have hdrop := dropWhile_stretch (more' ++ rest) hpad' hc'
    rw [hsplit, dropWhile_stretch more hpad hc, List.cons.injEq] at hdrop
    refine restOfLine?_eq_none_iff.mpr ⟨pad', c', more' ++ rest', ?_, hpad', hc', ?_⟩
    · rw [List.append_assoc, List.cons_append]
    · rwa [← hdrop.1]

/-- Behind text that is more than padding, nothing matters to a tag in front of it. -/
theorem Fits.append {s : List Char} (h : seg.Fits d fresh (s ++ rest)) (hs : ∃ c ∈ s, isPad c = false)
    (rest' : List Char) : seg.Fits d fresh (s ++ rest') := by
  refine ⟨h.1, ?_⟩
  have hplaced := h.2
  by_cases halone : seg.alone = true
  · rw [placed_of_alone halone] at hplaced ⊢
    obtain ⟨hcan, hstarts, hindent, pad, brk, htrailing, hpad, hend⟩ := hplaced
    obtain ⟨c, hc, -⟩ := hs
    exact ⟨hcan, hstarts, hindent, pad, brk, htrailing, hpad, hend.append (List.ne_nil_of_mem hc) rest'⟩
  · rw [placed_of_not_alone halone] at hplaced ⊢
    obtain ⟨hindent, htrailing, hline⟩ := hplaced
    exact ⟨hindent, htrailing, fun hcan hstarts => restOfLine?_append hs (hline hcan hstarts) rest'⟩

/-- A segment that ends with a line end is that of a tag alone on its line, whose line ends there. -/
theorem Fits.alone_of_lineEnd (h : seg.Fits d fresh rest) (hend : ∀ c ∈ seg.source.getLast?, isLineEnd c = true) :
    seg.alone = true ∧ seg.StandsAlone fresh rest ∧ ∃ pad brk, seg.trailing = pad ++ brk ∧ brk ≠ [] ∧
      (∀ c ∈ pad, isPad c = true) ∧ LineEnd brk rest := by
  obtain ⟨c, hc, hblank⟩ := h.1.spelling.getLast?
  have hnot (hlast : seg.source.getLast? = some c) : False := by
    rw [isBlank_of_isLineEnd (hend c hlast)] at hblank
    cases hblank
  have hplaced := h.2
  by_cases halone : seg.alone = true
  · rw [placed_of_alone halone] at hplaced
    refine ⟨halone, hplaced, ?_⟩
    obtain ⟨-, -, -, pad, brk, htrailing, hpad, hbrk⟩ := hplaced
    refine ⟨pad, brk, htrailing, ?_, hpad, hbrk⟩
    intro hnil
    rw [hnil, List.append_nil] at htrailing
    cases hpads : pad.getLast? with
    | none =>
      apply hnot
      rw [source, htrailing, List.getLast?_append, hpads, Option.none_or, List.getLast?_append, hc, Option.some_or]
    | some a =>
      have hlast : seg.source.getLast? = some a := by
        rw [source, htrailing, List.getLast?_append, hpads, Option.some_or]
      have hline := hend a hlast
      have hpadA := hpad a (List.mem_of_getLast? hpads)
      rw [not_isPad_of_isLineEnd hline] at hpadA
      cases hpadA
  · exfalso
    apply hnot
    rw [placed_of_not_alone halone] at hplaced
    obtain ⟨-, htrailing, -⟩ := hplaced
    rw [source, htrailing, List.append_nil, List.getLast?_append, hc, Option.some_or]

/-- A line starts behind a line that is dropped, if anything is left. -/
theorem StandsAlone.startsLine (h : seg.StandsAlone fresh rest) (hrest : rest ≠ []) {fresh' : Bool} :
    Segment.startsLine fresh' seg.source = true := by
  obtain ⟨-, -, -, pad, brk, htrailing, -, hbrk⟩ := h
  have hstarts {front : List Char} {c : Char} (hc : isLineEnd c = true) :
      Segment.startsLine fresh' (front ++ [c]) = true := by
    rw [Segment.startsLine, List.getLast?_append, List.getLast?_singleton, Option.some_or]
    exact hc
  rw [source, htrailing, ← List.append_assoc]
  cases hbrk with
  | ofText => exact absurd rfl hrest
  | feed => exact hstarts rfl
  | returnFeed =>
    rw [show ['\r', '\n'] = ['\r'] ++ ['\n'] from rfl, ← List.append_assoc]
    exact hstarts rfl
  | «return» => exact hstarts rfl

/-- Behind a line end, nothing matters but that a line feed would belong to a carriage return in front of it. -/
theorem Fits.of_lineEnd (h : seg.Fits d fresh rest) (hend : ∀ c ∈ seg.source.getLast?, isLineEnd c = true)
    (hreturn : rest'.head? = some '\n' → seg.source.getLast? ≠ some '\r') : seg.Fits d fresh rest' := by
  obtain ⟨halone, ⟨hcan, hstarts, hindent, -⟩, pad, brk, htrailing, hne, hpad, hbrk⟩ := h.alone_of_lineEnd hend
  refine ⟨h.1, (placed_of_alone halone).mpr ?_⟩
  refine ⟨hcan, hstarts, hindent, pad, brk, htrailing, hpad, ?_⟩
  cases hbrk with
  | ofText => exact absurd rfl hne
  | feed => exact .feed _
  | returnFeed => exact .returnFeed _
  | «return» =>
    refine .return ?_
    intro hhead
    apply hreturn hhead
    rw [source, htrailing, ← List.append_assoc, List.getLast?_append, List.getLast?_singleton, Option.some_or]

theorem startsLine_of_ne_nil {s : List Char} (hs : s ≠ []) (fresh fresh' : Bool) :
    startsLine fresh s = startsLine fresh' s := by
  unfold startsLine
  rw [List.getLast?_eq_some_getLast hs]

theorem Fits.of_head (h : seg.Fits d fresh rest) (hhead : ∃ c ∈ seg.text.head?, isPad c = false) (fresh' : Bool) :
    seg.Fits d fresh' rest := by
  obtain ⟨c, hc, hpad⟩ := hhead
  have hmem : c ∈ seg.text := List.mem_of_mem_head? hc
  have hdrop : dropEndWhile isPad seg.text ≠ [] := by
    intro hnil
    have hsplit := dropEndWhile_append_takeEndWhile isPad seg.text
    rw [hnil, List.nil_append] at hsplit
    rw [← hsplit] at hmem
    rw [of_mem_takeEndWhile hmem] at hpad
    cases hpad
  refine ⟨h.1, ?_⟩
  have hplaced := h.2
  by_cases halone : seg.alone = true
  · rw [placed_of_alone halone] at hplaced ⊢
    obtain ⟨hcan, hstarts, hline⟩ := hplaced
    rw [startsLine_of_ne_nil (List.ne_nil_of_mem hmem) fresh fresh'] at hstarts
    exact ⟨hcan, hstarts, hline⟩
  · rw [placed_of_not_alone halone] at hplaced ⊢
    obtain ⟨hindent, htrailing, hline⟩ := hplaced
    rw [startsLine_of_ne_nil hdrop fresh fresh'] at hline
    exact ⟨hindent, htrailing, hline⟩

end Segment

namespace Outline

variable {d : Delimiters} {fresh : Bool} {rest rest' : List Char}

def last? : Outline → Option Segment
  | done => none
  | tag seg after => after.last?.or (some seg)
  | block _ _ _ _ closing after => after.last?.or (some closing)

theorem source_of_last? {o : Outline} {seg : Segment} (h : o.last? = some seg) :
    ∃ front, o.source = front ++ seg.source := by
  induction o with
  | done => cases h
  | tag first after ih =>
    rw [last?] at h
    cases hafter : after.last? with
    | none =>
      rw [hafter, Option.none_or, Option.some.injEq] at h
      cases after with
      | done => exact ⟨[], by rw [h, source, source, List.append_nil, List.nil_append]⟩
      | tag | block => simp [last?] at hafter
    | some other =>
      rw [hafter, Option.some_or] at h
      obtain ⟨front, hfront⟩ := ih (hafter.trans h)
      exact ⟨first.source ++ front, by rw [source, hfront, List.append_assoc]⟩
  | block inverted name opening body closing after ihbody ihafter =>
    rw [last?] at h
    cases hafter : after.last? with
    | none =>
      rw [hafter, Option.none_or, Option.some.injEq] at h
      cases after with
      | done => exact ⟨opening.source ++ body.source, by simp only [h, source, List.append_nil, List.append_assoc]⟩
      | tag | block => simp [last?] at hafter
    | some other =>
      rw [hafter, Option.some_or] at h
      obtain ⟨front, hfront⟩ := ihafter (hafter.trans h)
      exact ⟨opening.source ++ (body.source ++ (closing.source ++ front)),
        by simp only [source, hfront, List.append_assoc]⟩

theorem Fits.exists_not_isPad {o : Outline} (h : o.Fits d fresh rest) (hne : o ≠ .done) :
    ∃ c ∈ o.source, isPad c = false := by
  cases o with
  | done => exact absurd rfl hne
  | tag seg after =>
    obtain ⟨c, hc, hpad⟩ := h.2.1.1.exists_not_isPad
    exact ⟨c, List.mem_append_left _ hc, hpad⟩
  | block inverted name opening body closing after =>
    obtain ⟨c, hc, hpad⟩ := h.2.2.1.1.exists_not_isPad
    exact ⟨c, List.mem_append_left _ hc, hpad⟩

private theorem fits_before {seg : Segment} {after : Outline} {d' : Delimiters} {fresh' : Bool}
    (hseg : seg.Fits d fresh (after.source ++ rest)) (hafter : after.Fits d' fresh' rest)
    (hlast : ∀ last ∈ after.last?.or (some seg), ∀ d fresh, last.Fits d fresh rest → last.Fits d fresh rest') :
    seg.Fits d fresh (after.source ++ rest') := by
  by_cases hdone : after = .done
  · subst hdone
    exact hlast seg rfl d fresh hseg
  · exact hseg.append (hafter.exists_not_isPad hdone) rest'

private theorem mem_or_of_mem {α : Type} {a : α} {x y : Option α} (h : a ∈ x) : a ∈ x.or y := by
  rw [Option.mem_def.mp h]
  rfl

/-- What is behind a region matters to its last segment only. -/
theorem Fits.congr {o : Outline} (h : o.Fits d fresh rest)
    (hlast : ∀ seg ∈ o.last?, ∀ d fresh, seg.Fits d fresh rest → seg.Fits d fresh rest') : o.Fits d fresh rest' := by
  induction o generalizing d fresh rest rest' with
  | done => trivial
  | tag seg after ih =>
    obtain ⟨hplain, hseg, hafter⟩ := h
    exact ⟨hplain, fits_before hseg hafter hlast, ih hafter fun last hmem => hlast last (mem_or_of_mem hmem)⟩
  | block inverted name opening body closing after ihbody ihafter =>
    obtain ⟨hopening, hclosing, hfitsO, hbody, hfitsC, hafter⟩ := h
    have hpad := hfitsC.1.exists_not_isPad
    have hpadB : ∃ c ∈ body.source ++ closing.source, isPad c = false := by
      obtain ⟨c, hc, hpadC⟩ := hpad
      exact ⟨c, List.mem_append_right _ hc, hpadC⟩
    refine ⟨hopening, hclosing, ?_, ?_, fits_before hfitsC hafter hlast, ?_⟩
    · rw [← List.append_assoc] at hfitsO ⊢
      exact hfitsO.append hpadB _
    · exact ihbody hbody fun last _ _ _ hfits => hfits.append hpad _
    · exact ihafter hafter fun last hmem => hlast last (mem_or_of_mem hmem)

theorem Fits.append {o : Outline} {s : List Char} (h : o.Fits d fresh (s ++ rest)) (hs : ∃ c ∈ s, isPad c = false)
    (rest' : List Char) : o.Fits d fresh (s ++ rest') :=
  h.congr fun _ _ _ _ hfits => hfits.append hs rest'

/-- Behind a line end, nothing matters but that a line feed would belong to a carriage return in front of it. -/
theorem Fits.of_lineEnd {o : Outline} (h : o.Fits d fresh rest)
    (hend : ∀ c ∈ o.source.getLast?, isLineEnd c = true)
    (hreturn : rest'.head? = some '\n' → o.source.getLast? ≠ some '\r') : o.Fits d fresh rest' := by
  refine h.congr fun seg hseg d fresh hfits => ?_
  obtain ⟨front, hfront⟩ := source_of_last? hseg
  obtain ⟨c, hc, -⟩ := hfits.1.exists_not_isPad
  have hlast : o.source.getLast? = seg.source.getLast? := by
    rw [hfront, List.getLast?_append, List.getLast?_eq_some_getLast (List.ne_nil_of_mem hc), Option.some_or]
  rw [hlast] at hend hreturn
  exact hfits.of_lineEnd hend hreturn

/-- The text that a region starts with, if `tail` follows the region. -/
def lead : Outline → List Char → List Char
  | done, tail => tail
  | tag seg _, _ => seg.text
  | block _ _ opening _ _ _, _ => opening.text

/-- In front of text that does not begin with padding, it does not matter whether a line starts there. -/
theorem Fits.of_lead {o : Outline} {tail : List Char} (h : o.Fits d fresh rest)
    (hlead : ∃ c ∈ (o.lead tail).head?, isPad c = false) (fresh' : Bool) : o.Fits d fresh' rest := by
  have hne {seg : Segment} {fresh : Bool} {rest : List Char} (hfits : seg.Fits d fresh rest) : seg.source ≠ [] := by
    obtain ⟨c, hc, -⟩ := hfits.1.exists_not_isPad
    exact List.ne_nil_of_mem hc
  cases o with
  | done => trivial
  | tag seg after =>
    obtain ⟨hplain, hseg, hafter⟩ := h
    refine ⟨hplain, hseg.of_head hlead fresh', ?_⟩
    rwa [Segment.startsLine_of_ne_nil (hne hseg) fresh' fresh]
  | block inverted name opening body closing after =>
    obtain ⟨hopening, hclosing, hfitsO, hbody, hfitsC, hafter⟩ := h
    have hneO := hne hfitsO
    refine ⟨hopening, hclosing, hfitsO.of_head hlead fresh', ?_, ?_, ?_⟩
    · rwa [Segment.startsLine_of_ne_nil hneO fresh' fresh]
    · rwa [Segment.startsLine_of_ne_nil (List.append_ne_nil_of_left_ne_nil hneO _) fresh' fresh]
    · rwa [Segment.startsLine_of_ne_nil (List.append_ne_nil_of_left_ne_nil hneO _) fresh' fresh]

end Outline
end Stencil
