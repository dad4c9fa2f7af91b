import Stencil.Proofs.Append
import Stencil.Proofs.Indent

/-!
# Whole lines

A template of whole lines that leaves the delimiters in force as they were does not matter to what is behind it: that is read
as by itself, and its nodes follow (`Lines.parse_behind`). Such a template stays one when its lines are indented, and a partial
alone on a line is one.
-/

namespace Stencil

open Text

/-- The template can be read, is empty or ends with a line, and leaves the delimiters `d` in force. -/
structure Lines (d : Delimiters) (s : String) : Prop where
  ends : s = "" ∨ s.toList.getLast? = some '\n'
  outlined : ∃ o tail, Outline.Covers o d s.toList tail ∧ o.inForce d = d

namespace Lines

variable {d : Delimiters} {s : String}

theorem getLast?_eq (h : Lines d s) : ∀ c ∈ s.toList.getLast?, c = '\n' := by
  intro c hc
  rcases h.ends with rfl | hlast
  · cases hc
  · exact (Option.some.inj (hlast.symm.trans hc)).symm

theorem parse_behind (h : Lines d s) : ∃ nodes, parse d s = .ok nodes ∧
    ∀ t, (parse d (s ++ t)).toOption = (parse d t).toOption.map (Node.fuse nodes) := by
  obtain ⟨o, tail, hcovers, hforce⟩ := h.outlined
  let nodes := Node.fuse (o.nodes d) (Node.ofText tail)
  refine ⟨nodes, parse_eq_ok_iff.mpr ⟨o, tail, hcovers, rfl⟩, ?_⟩
  intro t
  let k := s.toList.count '\n'
  have hlevel : 0 + o.depth ≤ maxOpenSections := by
    rw [Nat.zero_add]
    exact hcovers.depth_le
  have hsource : (s ++ t).toList = o.source ++ (tail ++ t.toList) := by
    rw [String.toList_append, hcovers.source_eq, List.append_assoc]
  have hlines : parse d (s ++ t) =
      (Descent.read none 0 d nodes ((Descent.Place.start t.toList).down k)).map Descent.Region.nodes := by
    rw [Descent.parse_eq_read, Descent.read_outline (hcovers.fits_append h.getLast?_eq t.toList) hsource hlevel,
      Node.fuse_nil_left, hforce,
      Descent.nodes_read_append (hforce ▸ hcovers.untagged) (hcovers.tail_lineEnd h.getLast?_eq) none 0 _ _ t.toList rfl,
      Descent.Place.past_past, ← hcovers.source_eq, Descent.Place.start_past h.getLast?_eq]
  -- The lines in front only move the positions of faults.
  have hdown := Descent.read_down none 0 d nodes [] (.start t.toList) k
  rw [Node.fuse_nil_right] at hdown
  change Descent.read none 0 _ _ _ = _ at hdown
  rw [hlines, hdown, Descent.parse_eq_read]
  cases Descent.read none 0 d [] (.start t.toList) with
  | error e => rfl
  | ok r => rfl

theorem indented (h : Lines d s) {w : String} (hw : ∀ c ∈ w.toList, isPad c = true) : Lines d (indentLines w s) := by
  obtain ⟨o, tail, hcovers, hforce⟩ := h.outlined
  refine ⟨?_, o.indented w.toList true, indentFrom w.toList (Segment.startsLine true o.source) tail, ?_, ?_⟩
  · rcases h.ends with rfl | hlast
    · exact .inl rfl
    · right
      rw [indentLines, String.toList_ofList, getLast?_indentFrom hw]
      exact hlast
  · rw [indentLines, String.toList_ofList]
    exact hcovers.indented hw
  · rw [Outline.inForce_indented]
    exact hforce

theorem inside_of_spelling {name : String} {text : List Char} (h : Tag.Spelling d (.inclusion name) text) :
    ∃ inside, text = d.opener.toList ++ inside ∧ Tag.Inside d (.inclusion name) inside := by
  obtain ⟨blank, content, rfl, hblank, -, hcloser, hcontent⟩ := h
  cases hcontent with
  | inclusion hname hclear =>
    refine ⟨_, rfl, blank, '>', _, rfl, hblank, rfl, hcloser, _, rfl, hclear, ?_⟩
    change (Tag.nameOf _).map Tag.inclusion = _
    rw [Tag.nameOf_of_names hname]
    rfl

/-- A partial alone on a line is read as the partial, with the padding in front of its tag. -/
theorem inclusion {name w tag : String} (hw : ∀ c ∈ w.toList, isPad c = true)
    (htag : Tag.Spelling d (.inclusion name) tag.toList) :
    Lines d (w ++ tag ++ "\n") ∧ parse d (w ++ tag ++ "\n") = .ok [.inclusion name w] := by
  have hclear : Clear d.opener.toList w.toList := by
    obtain ⟨c, opener, hopener⟩ := List.exists_cons_of_ne_nil d.opener_toList_ne_nil
    rw [hopener]
    apply clear_of_not_mem
    intro hc
    have hblank := d.not_isBlank_of_mem_opener c (hopener ▸ List.mem_cons_self)
    rw [isBlank_of_isPad (hw c hc)] at hblank
    cases hblank
  let seg : Segment := ⟨[], w.toList, .inclusion name, tag.toList, ['\n'], true⟩
  have hfits : seg.Fits d true [] := ⟨⟨hclear, inside_of_spelling htag⟩, rfl, rfl, hw, [], ['\n'], rfl, by simp, .feed _⟩
  have hsource : (w ++ tag ++ "\n").toList = seg.source := by
    rw [String.toList_append, String.toList_append]
    rfl
  have hcovers : Outline.Covers (.tag seg .done) d (w ++ tag ++ "\n").toList [] := by
    refine ⟨?_, ⟨rfl, hfits, trivial⟩, Nat.zero_le _, ?_⟩
    · rw [hsource, Outline.source, Outline.source, List.append_nil, List.append_nil]
    · intro hinfix
      exact d.opener_toList_ne_nil (List.infix_nil.mp hinfix)
  refine ⟨⟨.inr ?_, _, _, hcovers, rfl⟩, parse_eq_ok_iff.mpr ⟨_, _, hcovers, ?_⟩⟩
  · rw [hsource, Segment.source, List.getLast?_concat]
  · rw [Outline.nodes, Segment.nodes]
    simp [seg, Node.ofText, Outline.nodes]

end Lines
end Stencil
