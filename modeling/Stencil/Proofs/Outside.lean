import Mathlib.Data.Nat.Find
import Stencil.Proofs.Stack

/-!
# Places outside of tags

A place in a template is given by what stands in front of it and what stands behind it. `InTag` says that a tag starts in front
of a place and ends behind it; `InForce` says which delimiters are in force there, and there is always one such pair
(`existsUnique_inForce`). At the start of a line, a place is outside of all tags exactly if reading comes to a state with nothing
but text between it and the place (`outside_iff`).
-/

namespace Stencil

open Text

/-- A line feed is the end of what is dropped behind a tag. -/
theorem Segment.ClosesLine.feed_not_mem_dropLast {s rest : List Char} (h : ClosesLine s rest) : '\n' ∉ s.dropLast := by
  obtain ⟨pad, brk, rfl, hpad, hend⟩ := h
  have hfeed : '\n' ∉ pad := fun hmem => absurd (hpad _ hmem) (by decide)
  cases hend with
  | ofText =>
    rw [List.append_nil]
    exact fun hmem => hfeed (List.dropLast_subset pad hmem)
  | feed => rwa [List.dropLast_concat]
  | «return» => rwa [List.dropLast_concat]
  | returnFeed =>
    rw [List.dropLast_append_of_ne_nil (List.cons_ne_nil _ _), List.mem_append, not_or]
    exact ⟨hfeed, by decide⟩

theorem Segment.Fits.feed_not_mem_dropLast {d : Delimiters} {fresh : Bool} {seg : Segment} {rest : List Char}
    (h : seg.Fits d fresh rest) : '\n' ∉ seg.trailing.dropLast := by
  have hplaced := h.2
  by_cases halone : seg.alone = true
  · rw [placed_of_alone halone] at hplaced
    exact hplaced.2.2.2.feed_not_mem_dropLast
  · rw [placed_of_not_alone halone] at hplaced
    rw [hplaced.2.1]
    exact List.not_mem_nil

/-- Where a line starts within a segment, it starts in front of the tag or within it. -/
theorem Segment.Fits.cut_cases {d : Delimiters} {fresh : Bool} {seg : Segment} {rest front back : List Char}
    (h : seg.Fits d fresh rest) (hcut : seg.source = front ++ back) (hback : back ≠ [])
    (hline : ∀ c ∈ front.getLast?, c = '\n') :
    front <+: seg.text ++ seg.indent ∨
      ∃ before after, seg.spelling = before ++ after ∧ before ≠ [] ∧ after ≠ [] ∧ back = after ++ seg.trailing := by
  have hspelling : ∀ s, front ≠ s ++ seg.spelling := by
    intro s hs
    obtain ⟨c, hc, hblank⟩ := h.1.spelling.getLast?
    rw [hs, List.getLast?_append, hc, Option.some_or] at hline
    rw [hline c rfl] at hblank
    cases hblank
  rw [source] at hcut
  rcases List.append_eq_append_iff.mp hcut with ⟨dropped, hfront, htrailing⟩ | ⟨more, hmore, rfl⟩
  · exfalso
    cases hlast : dropped.getLast? with
    | none =>
      rw [List.getLast?_eq_none_iff.mp hlast, List.append_nil] at hfront
      exact hspelling _ hfront
    | some c =>
      have hfeed : c = '\n' := hline c (by rw [hfront, List.getLast?_append, hlast]; rfl)
      have hnot := h.feed_not_mem_dropLast
      rw [htrailing, List.dropLast_append_of_ne_nil hback] at hnot
      exact hnot (List.mem_append_left _ (hfeed ▸ List.mem_of_getLast? hlast))
  · rcases List.append_eq_append_iff.mp hmore with ⟨before, hfront, hsplit⟩ | ⟨left, hleft, -⟩
    · by_cases hbefore : before = []
      · left
        exact ⟨[], by rw [List.append_nil, hfront, hbefore, List.append_nil]⟩
      · right
        refine ⟨before, more, hsplit, hbefore, ?_, rfl⟩
        intro hnil
        rw [hnil, List.append_nil] at hsplit
        exact hspelling _ (hsplit ▸ hfront)
    · left
      rw [hleft]
      exact List.prefix_append front left

namespace Scan

variable {d e : Delimiters} {front back text : List Char} {scan : Scan} {nodes : List Node}

/-- A tag starts in front of the place and ends behind it. -/
def InTag (d : Delimiters) (front back : List Char) : Prop :=
  ∃ scan seg before after rest, Reaches d (front ++ back) scan (seg.source ++ rest) ∧
    Segment.next scan.delimiters scan.fresh (seg.source ++ rest) = .ok (some (seg, rest)) ∧
    seg.spelling = before ++ after ∧ before ≠ [] ∧ after ≠ [] ∧ back = after ++ (seg.trailing ++ rest)

/-- The last state that reading comes to at the place or in front of it, with `text` up to the place. -/
structure Nearest (d : Delimiters) (front back : List Char) (scan : Scan) (text : List Char) : Prop where
  reaches : Reaches d (front ++ back) scan (text ++ back)
  length_le : ∀ scan' text', Reaches d (front ++ back) scan' (text' ++ back) → text.length ≤ text'.length

/-- The delimiters `e` are in force at the place. -/
def InForce (d : Delimiters) (front back : List Char) (e : Delimiters) : Prop :=
  ∃ scan text, Nearest d front back scan text ∧ scan.delimiters = e

theorem exists_nearest (d : Delimiters) (front back : List Char) : ∃ scan text, Nearest d front back scan text := by
  classical
  have hstart : ∃ n scan text, Reaches d (front ++ back) scan (text ++ back) ∧ text.length = n :=
    ⟨front.length, start d, front, .start, rfl⟩
  obtain ⟨scan, text, hreach, hlength⟩ := Nat.find_spec hstart
  refine ⟨scan, text, hreach, fun scan' text' hreach' => ?_⟩
  rw [hlength]
  exact Nat.find_min' hstart ⟨scan', text', hreach', rfl⟩

/-- Reading comes to another state only with less of the text left. -/
private theorem Passes.eq_of_length {segs : List Segment} {scan' : Scan} {s rest : List Char}
    (h : Passes scan s segs scan' rest) (hlength : rest.length = s.length) : scan' = scan := by
  cases h with
  | refl => rfl
  | step hnext _ hpasses =>
    exfalso
    have hlt := Segment.length_rest_lt hnext
    rw [hpasses.source_eq, List.length_append] at hlt
    omega

/-- Exactly one pair of delimiters is in force at a place. -/
theorem existsUnique_inForce (d : Delimiters) (front back : List Char) : ∃! e, InForce d front back e := by
  obtain ⟨scan, text, h⟩ := exists_nearest d front back
  refine ⟨scan.delimiters, ⟨scan, text, h, rfl⟩, ?_⟩
  rintro _ ⟨scan', text', h', rfl⟩
  have hlength : (text' ++ back).length = (text ++ back).length := by
    rw [List.length_append, List.length_append, Nat.le_antisymm (h'.length_le _ _ h.reaches) (h.length_le _ _ h'.reaches)]
  rcases h.reaches.passes_or_passes h'.reaches with ⟨segs, hpasses⟩ | ⟨segs, hpasses⟩
  · rw [hpasses.eq_of_length hlength]
  · rw [hpasses.eq_of_length hlength.symm]

theorem Reaches.exists_front (h : Reaches d (front ++ back) scan (text ++ back)) :
    ∃ before, front = before ++ text ∧ Consumed scan before (text ++ back) := by
  obtain ⟨before, hsource, hconsumed⟩ := h.consumed
  rw [← List.append_assoc] at hsource
  exact ⟨before, List.append_cancel_right hsource, hconsumed⟩

/-- What stands in front of a place where a line starts, up to there, ends with a line end. -/
theorem Reaches.ends_line (h : Reaches d (front ++ back) scan (text ++ back)) (hline : ∀ c ∈ front.getLast?, c = '\n') :
    ∀ c ∈ text.getLast?, c = '\n' := by
  obtain ⟨before, rfl, -⟩ := h.exists_front
  intro c hc
  apply hline
  rw [List.getLast?_append, Option.mem_def.mp hc]
  rfl

/-- Between the last state in front of a place outside of tags and the place, no tag starts. -/
theorem Nearest.untagged (h : Nearest d front back scan text) (hrun : (start d).run (front ++ back) = .ok nodes)
    (hline : ∀ c ∈ front.getLast?, c = '\n') (hout : ¬ InTag d front back) : ¬ scan.delimiters.opener.toList <:+: text := by
  rw [h.reaches.run_eq] at hrun
  intro hopener
  cases run_eq_ok_iff.mp hrun with
  | done hnext _ => exact Segment.next_eq_none_iff.mp hnext (hopener.trans (List.prefix_append text back).isInfix)
  | @past next seg rest hnext htake _ =>
    obtain ⟨hsource, hfits⟩ := Segment.next_eq_some_iff.mp hnext
    -- Reading goes on to a state behind the place, since there is none in between.
    have hbehind : ∀ text', rest = text' ++ back → text.length ≤ text'.length := by
      rintro text' rfl
      exact h.length_le next text' (h.reaches.past hnext htake)
    have hpos : 0 < seg.source.length := by
      obtain ⟨c, hc, -⟩ := hfits.1.exists_not_isPad
      exact List.length_pos_of_mem hc
    rcases List.append_eq_append_iff.mp hsource with ⟨more, hcut, hmore⟩ | ⟨text', htext, hrest⟩
    · have hne : more ≠ [] := by
        rintro rfl
        have hle := hbehind [] hmore.symm
        rw [hcut, List.append_nil] at hpos
        exact Nat.not_lt.mpr hle hpos
      rcases hfits.cut_cases hcut hne (h.reaches.ends_line hline) with
        hprefix | ⟨before, after, hsplit, hbefore, hafter, rfl⟩
      · exact hfits.1.1.not_isInfix scan.delimiters.opener_toList_ne_nil (hopener.trans hprefix.isInfix)
      · have hback : back = after ++ (seg.trailing ++ rest) := by rw [hmore, List.append_assoc]
        exact hout ⟨scan, seg, before, after, rest, hsource ▸ h.reaches, hsource ▸ hnext, hsplit, hbefore, hafter, hback⟩
    · have hle := hbehind text' hrest
      rw [htext, List.length_append] at hle
      omega

/-- Text without a tag is not left by reading on. -/
private theorem Passes.refl_of_untagged {text' : List Char} {segs : List Segment} {scan' : Scan}
    (h : Passes scan (text ++ back) segs scan' (text' ++ back)) (huntagged : ¬ scan.delimiters.opener.toList <:+: text) :
    scan' = scan ∧ text' = text := by
  generalize hs : text ++ back = s at h
  generalize hrest : text' ++ back = rest at h
  cases h with
  | refl => exact ⟨rfl, List.append_cancel_right (hrest.trans hs.symm)⟩
  | @step _ _ _ seg segs _ rest' _ hnext htake hpasses =>
    exfalso
    subst hs hrest
    obtain ⟨hsource, hfits⟩ := Segment.next_eq_some_iff.mp hnext
    obtain ⟨-, inside, hspelling, -⟩ := hfits.1
    rw [hpasses.source_eq, ← List.append_assoc, ← List.append_assoc] at hsource
    apply huntagged
    rw [List.append_cancel_right hsource]
    refine ⟨seg.text ++ seg.indent, inside ++ seg.trailing ++ (segs.flatMap Segment.source ++ text'), ?_⟩
    simp only [Segment.source, hspelling, List.append_assoc]

theorem Reaches.nearest (h : Reaches d (front ++ back) scan (text ++ back))
    (huntagged : ¬ scan.delimiters.opener.toList <:+: text) : Nearest d front back scan text := by
  refine ⟨h, fun scan' text' h' => ?_⟩
  rcases h.passes_or_passes h' with ⟨segs, hpasses⟩ | ⟨segs, hpasses⟩
  · rw [(hpasses.refl_of_untagged huntagged).2]
  · have hlength := congrArg List.length hpasses.source_eq
    simp only [List.length_append] at hlength
    omega

/-- No line starts within a delimiter, so a tag that a line starts within has its opening delimiter in front of the line. -/
private theorem prefix_of_line {before after inside : List Char} (hsplit : e.opener.toList ++ inside = before ++ after)
    (hbefore : before ≠ []) (hline : ∀ c ∈ before.getLast?, c = '\n') : e.opener.toList <+: before := by
  rcases List.append_eq_append_iff.mp hsplit with ⟨more, rfl, -⟩ | ⟨more, hmore, -⟩
  · exact List.prefix_append _ more
  · exfalso
    have hlast := List.getLast?_eq_some_getLast hbefore
    have hmem : before.getLast hbefore ∈ e.opener.toList := by
      rw [hmore]
      exact List.mem_append_left more (List.getLast_mem hbefore)
    have hblank := e.not_isBlank_of_mem_opener _ hmem
    rw [hline _ hlast] at hblank
    cases hblank

theorem Reaches.not_inTag (h : Reaches d (front ++ back) scan (text ++ back))
    (huntagged : ¬ scan.delimiters.opener.toList <:+: text) (hline : ∀ c ∈ front.getLast?, c = '\n') :
    ¬ InTag d front back := by
  rintro ⟨scan', seg, before, after, rest, hreach, hnext, hsplit, hbefore, hafter, hback⟩
  obtain ⟨-, hfits⟩ := Segment.next_eq_some_iff.mp hnext
  obtain ⟨-, inside, hspelling, -⟩ := hfits.1
  have hsource : seg.source ++ rest = (seg.text ++ seg.indent ++ before) ++ back := by
    simp only [hback, Segment.source, hsplit, List.append_assoc]
  rw [hsource] at hreach
  have hlast : ∀ c ∈ before.getLast?, c = '\n' := by
    intro c hc
    apply hreach.ends_line hline
    rw [List.getLast?_append, Option.mem_def.mp hc]
    rfl
  have htagged (hsame : scan' = scan ∧ seg.text ++ seg.indent ++ before = text) : False := by
    obtain ⟨rfl, rfl⟩ := hsame
    have hopener := prefix_of_line (hspelling.symm.trans hsplit) hbefore hlast
    exact huntagged (hopener.isInfix.trans (List.suffix_append _ before).isInfix)
  rcases h.passes_or_passes hreach with ⟨segs, hpasses⟩ | ⟨segs, hpasses⟩
  · exact htagged (hpasses.refl_of_untagged huntagged)
  · rw [← hsource] at hpasses
    generalize hs : text ++ back = s at hpasses
    cases hpasses with
    | refl =>
      rw [hsource] at hs
      exact htagged ⟨rfl, (List.append_cancel_right hs).symm⟩
    | step hnext' _ hpasses =>
      obtain ⟨rfl, rfl⟩ := Prod.mk.inj (Option.some.inj (Except.ok.inj (hnext.symm.trans hnext')))
      -- What is left behind the tag is less than what is left at the place.
      have hlength := congrArg List.length hpasses.source_eq
      have hpos := List.length_pos_iff.mpr hafter
      rw [← hs, hback] at hlength
      simp only [List.length_append] at hlength
      omega

/-- At the start of a line, a place is outside of all tags, with the delimiters `e` in force, exactly if reading comes to a state
with these delimiters and no tag starts from there up to the place. -/
theorem outside_iff (hrun : (start d).run (front ++ back) = .ok nodes) (hline : ∀ c ∈ front.getLast?, c = '\n') :
    ¬ InTag d front back ∧ InForce d front back e ↔
      ∃ scan text, Reaches d (front ++ back) scan (text ++ back) ∧ scan.delimiters = e ∧ ¬ e.opener.toList <:+: text := by
  constructor
  · rintro ⟨hout, scan, text, hnearest, rfl⟩
    exact ⟨scan, text, hnearest.reaches, rfl, hnearest.untagged hrun hline hout⟩
  · rintro ⟨scan, text, hreach, rfl, huntagged⟩
    exact ⟨hreach.not_inTag huntagged hline, scan, text, hreach.nearest huntagged, rfl⟩

end Scan
end Stencil
