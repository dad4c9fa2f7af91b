import Stencil.Proofs.Descent
import Stencil.Proofs.Node
import Stencil.Proofs.Segment

/-!
# Outlines

An outline is a template as it is written: its tags one after the other, and for each section its two tags and what is
between them. `parse_eq_ok_iff` says that the templates that can be read are those that have an outline, and that the
outline shows their nodes; `Covers.unique` that none has two.
-/

namespace Stencil

open Text

/-- The tags of a region of a template, each with the text in front of it. The text behind the last tag is left out. -/
inductive Outline where
  | done
  /-- A tag that is no part of a section, and what comes behind it. -/
  | tag (seg : Segment) (after : Outline)
  /-- A section, and what comes behind it. -/
  | block (inverted : Bool) (name : String) (opening : Segment) (body : Outline) (closing : Segment) (after : Outline)

namespace Outline

def source : Outline → List Char
  | done => []
  | tag seg after => seg.source ++ after.source
  | block _ _ opening body closing after => opening.source ++ (body.source ++ (closing.source ++ after.source))

/-- The delimiters in force behind the region, if `d` are in force in front of it. What a section does ends with it. -/
def inForce : Outline → Delimiters → Delimiters
  | done, d => d
  | tag seg after, d => after.inForce (seg.tag.inForce d)
  | block _ _ _ _ _ after, d => after.inForce d

def depth : Outline → Nat
  | done => 0
  | tag _ after => after.depth
  | block _ _ _ body _ after => max (body.depth + 1) after.depth

def nodes : Outline → Delimiters → List Node
  | done, _ => []
  | tag seg after, d => Node.fuse (Node.ofText seg.text) (Node.fuse seg.nodes (after.nodes (seg.tag.inForce d)))
  | block inverted name opening body closing after, d =>
    Node.fuse (Node.ofText opening.text) (Node.fuse
      [Node.ofSection inverted name (Node.fuse (body.nodes d) (Node.ofText closing.text)) (body.source ++ closing.text) d]
      (after.nodes d))

/-- The region is written as the delimiters and its lines demand, where `rest` follows it. -/
def Fits : Outline → Delimiters → Bool → List Char → Prop
  | done, _, _, _ => True
  | tag seg after, d, fresh, rest =>
    seg.tag.isPlain = true ∧ seg.Fits d fresh (after.source ++ rest) ∧
      after.Fits (seg.tag.inForce d) (Segment.startsLine fresh seg.source) rest
  | block inverted name opening body closing after, d, fresh, rest =>
    opening.tag = .opening inverted name ∧ closing.tag = .closing name ∧
      opening.Fits d fresh (body.source ++ (closing.source ++ (after.source ++ rest))) ∧
      body.Fits d (Segment.startsLine fresh opening.source) (closing.source ++ (after.source ++ rest)) ∧
      closing.Fits (body.inForce d) (Segment.startsLine fresh (opening.source ++ body.source)) (after.source ++ rest) ∧
      after.Fits d (Segment.startsLine fresh (opening.source ++ (body.source ++ closing.source))) rest

/-- The template `s` is outlined by `o`, with the text `tail` behind the last tag. -/
structure Covers (o : Outline) (d : Delimiters) (s tail : List Char) : Prop where
  source_eq : s = o.source ++ tail
  fits : o.Fits d true tail
  depth_le : o.depth ≤ maxOpenSections
  untagged : ¬ (o.inForce d).opener.toList <:+: tail

end Outline

namespace Descent

open Node (fuse ofText)

theorem Place.past_past (p : Place) (s t rest rest' : List Char) :
    (p.past s rest).past t rest' = p.past (s ++ t) rest' := by
  simp only [past, Position.advanceAll_append, Segment.startsLine_append]

theorem append_nodes_eq_fuse (seg : Segment) (nodes : List Node) : nodes ++ seg.nodes = fuse nodes seg.nodes := by
  rw [Segment.nodes]
  cases seg.tag with
  | interpolation name escaped => exact Node.append_singleton_eq_fuse (by simp) nodes
  | inclusion name => exact Node.append_singleton_eq_fuse (by simp) nodes
  | comment => exact Node.append_singleton_eq_fuse (by simp) nodes
  | _ => simp

private theorem fuse_step (nodes before node after : List Node) :
    fuse (fuse (fuse nodes before) node) after = fuse nodes (fuse before (fuse node after)) := by
  rw [Node.fuse_assoc, Node.fuse_assoc]

section Outlined

variable {expected? : Option Expected} {d : Delimiters} {p : Place} {level : Nat} {rest : List Char}

/-- The body of a section is read at its closing tag, if all in front of that tag is. -/
private theorem read_body {o : Outline} {closing : Segment} {name : String} {position : Position}
    (hread : read (some ⟨name, position⟩) level d [] p =
      read (some ⟨name, position⟩) level (o.inForce d) (fuse [] (o.nodes d)) (p.past o.source (closing.source ++ rest)))
    (htag : closing.tag = .closing name)
    (hclosing : closing.Fits (o.inForce d) (Segment.startsLine p.fresh o.source) rest) :
    read (some ⟨name, position⟩) level d [] p =
      .ok ⟨fuse (o.nodes d) (ofText closing.text), closing.restAfterText rest, p.past (o.source ++ closing.source) rest⟩ := by
  have hnext : Segment.next (o.inForce d) (p.past o.source (closing.source ++ rest)).fresh (closing.source ++ rest) =
      .ok (some (closing, rest)) := Segment.next_eq_some_iff.mpr ⟨rfl, hclosing⟩
  rw [hread, read_of_closing hnext htag, Node.fuse_nil_left, Place.past_past]
  simp only [if_true]

/-- Reading goes along an outline: it takes in the nodes and goes on behind the region. -/
theorem read_outline {o : Outline} (h : o.Fits d p.fresh rest) (hp : p.rest = o.source ++ rest)
    (hlevel : level + o.depth ≤ maxOpenSections) (expected? : Option Expected) (nodes : List Node) :
    read expected? level d nodes p =
      read expected? level (o.inForce d) (fuse nodes (o.nodes d)) (p.past o.source rest) := by
  induction o generalizing d p level rest expected? nodes with
  | done =>
    have hpast : p.past [] rest = p := by
      rw [Outline.source, List.nil_append] at hp
      simp [Place.past, Segment.startsLine, ← hp]
    rw [Outline.source, hpast, Outline.nodes, Node.fuse_nil_right]
    rfl
  | tag seg after ih =>
    obtain ⟨hplain, hseg, hafter⟩ := h
    have hnext : Segment.next d p.fresh p.rest = .ok (some (seg, after.source ++ rest)) :=
      Segment.next_eq_some_iff.mpr ⟨by rw [hp, Outline.source, List.append_assoc], hseg⟩
    rw [read_of_plain hnext hplain, ih hafter rfl hlevel, Place.past_past, append_nodes_eq_fuse, fuse_step]
    rfl
  | block inverted name opening body closing after ihbody ihafter =>
    obtain ⟨hopening, hclosing, hfitsO, hbody, hfitsC, hafter⟩ := h
    rw [Outline.depth] at hlevel
    have hdeep : ¬ maxOpenSections ≤ level := by omega
    let behind := body.source ++ (closing.source ++ (after.source ++ rest))
    have hnext : Segment.next d p.fresh p.rest = .ok (some (opening, behind)) :=
      Segment.next_eq_some_iff.mpr ⟨by simp only [hp, Outline.source, behind, List.append_assoc], hfitsO⟩
    rw [Segment.startsLine_append] at hfitsC
    have hlevelB : level + 1 + body.depth ≤ maxOpenSections := by omega
    have hread := read_body (ihbody (p := p.past opening.source behind) hbody rfl hlevelB
      (some ⟨name, p.ofTag opening⟩) []) hclosing hfitsC
    have hraw : between behind (closing.restAfterText (after.source ++ rest)) = body.source ++ closing.text := by
      have hbehind : behind = (body.source ++ closing.text) ++ closing.restAfterText (after.source ++ rest) := by
        simp only [behind, Segment.source, Segment.restAfterText, List.append_assoc]
      rw [hbehind, between_append]
    rw [read_of_opening hnext hopening, if_neg hdeep, hread]
    simp only [Except.bind]
    rw [hraw, Node.append_singleton_eq_fuse (Node.ofSection_ne_literal _ _ _ _ _), Place.past_past,
      ihafter hafter rfl (by omega), Place.past_past, fuse_step]
    simp only [Outline.source, Outline.nodes, Outline.inForce, List.append_assoc]

/-- The region ends at a place with `rest` left: at the closing tag of a section, or with the template. -/
private def Ends (expected? : Option Expected) (d : Delimiters) (fresh : Bool) (rest : List Char) : Prop :=
  match expected? with
  | none => ¬ d.opener.toList <:+: rest
  | some expected => ∃ (closing : Segment) (after : List Char), rest = closing.source ++ after ∧
      closing.tag = .closing expected.name ∧ closing.Fits d fresh after

/-- The region that is read at `p` is outlined by `o`, and `rest` is left at its end. -/
private structure Outlines (expected? : Option Expected) (level : Nat) (d : Delimiters) (p : Place) (o : Outline)
    (rest : List Char) : Prop where
  source_eq : p.rest = o.source ++ rest
  fits : o.Fits d p.fresh rest
  depth_le : level + o.depth ≤ maxOpenSections
  ends : Ends expected? (o.inForce d) (Segment.startsLine p.fresh o.source) rest

private theorem Outlines.done (hlevel : level ≤ maxOpenSections) (hends : Ends expected? d p.fresh p.rest) :
    Outlines expected? level d p .done p.rest := ⟨rfl, trivial, hlevel, hends⟩

private theorem Outlines.tag {seg : Segment} {o : Outline} {after : List Char}
    (hnext : Segment.next d p.fresh p.rest = .ok (some (seg, after))) (hplain : seg.tag.isPlain = true)
    (h : Outlines expected? level (seg.tag.inForce d) (p.past seg.source after) o rest) :
    Outlines expected? level d p (.tag seg o) rest := by
  obtain ⟨hsource, hfits⟩ := Segment.next_eq_some_iff.mp hnext
  have hafter : after = o.source ++ rest := h.source_eq
  refine ⟨?_, ⟨hplain, hafter ▸ hfits, h.fits⟩, h.depth_le, ?_⟩
  · rw [hsource, hafter, Outline.source, List.append_assoc]
  · rw [Outline.source, Segment.startsLine_append]
    exact h.ends

private theorem Outlines.block {inverted : Bool} {name : String} {position : Position} {opening closing : Segment}
    {body o : Outline} {behind after : List Char}
    (hnext : Segment.next d p.fresh p.rest = .ok (some (opening, behind))) (hopening : opening.tag = .opening inverted name)
    (hbody : Outlines (some ⟨name, position⟩) (level + 1) d (p.past opening.source behind) body (closing.source ++ after))
    (hclosing : closing.tag = .closing name)
    (hfitsC : closing.Fits (body.inForce d) (Segment.startsLine p.fresh (opening.source ++ body.source)) after)
    (h : Outlines expected? level d (p.past (opening.source ++ (body.source ++ closing.source)) after) o rest) :
    Outlines expected? level d p (.block inverted name opening body closing o) rest := by
  obtain ⟨hsource, hfits⟩ := Segment.next_eq_some_iff.mp hnext
  obtain rfl : behind = body.source ++ (closing.source ++ after) := hbody.source_eq
  obtain rfl : after = o.source ++ rest := h.source_eq
  have hdepthB := hbody.depth_le
  have hdepth := h.depth_le
  refine ⟨?_, ⟨hopening, hclosing, hfits, hbody.fits, hfitsC, h.fits⟩, ?_, ?_⟩
  · simp only [hsource, Outline.source, List.append_assoc]
  · rw [Outline.depth]
    omega
  · rw [Outline.source, ← List.append_assoc body.source, ← List.append_assoc opening.source, Segment.startsLine_append]
    exact h.ends

private theorem exists_outline {nodes : List Node} {r : Region} (h : read expected? level d nodes p = .ok r)
    (hlevel : level ≤ maxOpenSections) : ∃ o rest, Outlines expected? level d p o rest := by
  induction hn : p.rest.length using Nat.strongRecOn generalizing expected? level d nodes p r with
  | ind n ih =>
    cases hnext : Segment.next d p.fresh p.rest with
    | error e =>
      rw [read_of_error hnext] at h
      cases h
    | ok found =>
      cases found with
      | none =>
        rw [read_of_none hnext] at h
        cases expected? with
        | some expected => cases h
        | none => exact ⟨.done, p.rest, .done hlevel (Segment.next_eq_none_iff.mp hnext)⟩
      | some parts =>
        obtain ⟨seg, behind⟩ := parts
        have hlt : behind.length < n := hn ▸ Segment.length_rest_lt hnext
        cases htag : seg.tag with
        | opening inverted name =>
          rw [read_of_opening hnext htag] at h
          by_cases hdeep : maxOpenSections ≤ level
          · rw [if_pos hdeep] at h
            cases h
          · rw [if_neg hdeep] at h
            cases hbody : read (some ⟨name, p.ofTag seg⟩) (level + 1) d [] (p.past seg.source behind) with
            | error e =>
              rw [hbody] at h
              cases h
            | ok body =>
              obtain ⟨b, restB, hb⟩ := ih behind.length hlt hbody (by omega) rfl
              obtain ⟨closing, after, rfl, hclosing, hfitsC⟩ := hb.ends
              have hread := read_body (read_outline hb.fits hb.source_eq hb.depth_le (some ⟨name, p.ofTag seg⟩) []) hclosing
                hfitsC
              rw [Place.past_past] at hread
              rw [hread] at h
              change read expected? level d _ (p.past (seg.source ++ (b.source ++ closing.source)) after) = .ok r at h
              have hltA : after.length < n := by
                have hsource : behind = b.source ++ (closing.source ++ after) := hb.source_eq
                simp only [hsource, List.length_append] at hlt
                omega
              obtain ⟨o, rest, ho⟩ := ih after.length hltA h hlevel rfl
              change closing.Fits (b.inForce d) (Segment.startsLine (Segment.startsLine p.fresh seg.source) b.source) after
                at hfitsC
              rw [← Segment.startsLine_append] at hfitsC
              exact ⟨.block inverted name seg b closing o, rest, .block hnext htag hb hclosing hfitsC ho⟩
        | closing name =>
          rw [read_of_closing hnext htag] at h
          cases expected? with
          | none => cases h
          | some expected =>
            simp only at h
            by_cases hname : expected.name = name
            · obtain ⟨hsource, hfits⟩ := Segment.next_eq_some_iff.mp hnext
              exact ⟨.done, p.rest, .done hlevel ⟨seg, behind, hsource, hname ▸ htag, hfits⟩⟩
            · rw [if_neg hname] at h
              cases h
        | _ =>
          have hplain : seg.tag.isPlain = true := by rw [htag]; rfl
          rw [read_of_plain hnext hplain] at h
          obtain ⟨o, rest, ho⟩ := ih behind.length hlt h hlevel rfl
          exact ⟨.tag seg o, rest, .tag hnext hplain ho⟩

end Outlined
end Descent

/-- A template can be read exactly if it has an outline, and its nodes are those of the outline. -/
theorem parse_eq_ok_iff {d : Delimiters} {s : String} {tree : List Node} :
    parse d s = .ok tree ↔ ∃ o tail, Outline.Covers o d s.toList tail ∧
      tree = Node.fuse (o.nodes d) (Node.ofText tail) := by
  rw [Descent.parse_eq_read]
  have hcovered {o : Outline} {tail : List Char} (h : o.Covers d s.toList tail) :
      Descent.read none 0 d [] (.start s.toList) = .ok ⟨Node.fuse (o.nodes d) (Node.ofText tail), [],
        (Descent.Place.start s.toList).past o.source tail⟩ := by
    have hlevel : 0 + o.depth ≤ maxOpenSections := by
      rw [Nat.zero_add]
      exact h.depth_le
    rw [Descent.read_outline h.fits h.source_eq hlevel,
      Descent.read_of_none (Segment.next_eq_none_iff.mpr h.untagged), Node.fuse_nil_left]
    rfl
  constructor
  · intro h
    cases hread : Descent.read none 0 d [] (.start s.toList) with
    | error e =>
      rw [hread] at h
      cases h
    | ok r =>
      obtain ⟨o, tail, ho⟩ := Descent.exists_outline hread (Nat.zero_le _)
      have hdepth := ho.depth_le
      have hcovers : o.Covers d s.toList tail := ⟨ho.source_eq, ho.fits, by omega, ho.ends⟩
      rw [hcovered hcovers] at h
      exact ⟨o, tail, hcovers, (Except.ok.inj h).symm⟩
  · intro h
    obtain ⟨o, tail, hcovers, rfl⟩ := h
    rw [hcovered hcovers]
    rfl

namespace Outline

variable {d : Delimiters} {fresh : Bool} {rest rest' : List Char}

private def Stops (d : Delimiters) (fresh : Bool) (rest : List Char) : Prop :=
  ∀ seg after, Segment.next d fresh rest = .ok (some (seg, after)) → ∃ name, seg.tag = .closing name

private theorem Fits.not_stops {o : Outline} (h : o.Fits d fresh rest) (hne : o ≠ .done) :
    ¬ Stops d fresh (o.source ++ rest) := by
  intro hstops
  cases o with
  | done => exact hne rfl
  | tag seg after =>
    obtain ⟨hplain, hseg, -⟩ := h
    obtain ⟨name, htag⟩ := hstops seg (after.source ++ rest)
      (Segment.next_eq_some_iff.mpr ⟨by rw [source, List.append_assoc], hseg⟩)
    rw [htag] at hplain
    cases hplain
  | block inverted name opening body closing after =>
    obtain ⟨hopening, -, hfits, -⟩ := h
    obtain ⟨name', htag⟩ := hstops opening _
      (Segment.next_eq_some_iff.mpr ⟨by simp only [source, List.append_assoc], hfits⟩)
    rw [htag] at hopening
    cases hopening

private theorem fits_inj {seg seg' : Segment} (h : seg.Fits d fresh rest) (h' : seg'.Fits d fresh rest')
    (hsource : seg.source ++ rest = seg'.source ++ rest') : seg = seg' ∧ rest = rest' := by
  have hnext := Segment.next_eq_some_iff.mpr ⟨rfl, h⟩
  have hnext' := Segment.next_eq_some_iff.mpr ⟨rfl, h'⟩
  rw [hsource, hnext', Except.ok.injEq, Option.some.injEq, Prod.mk.injEq] at hnext
  exact ⟨hnext.1.symm, hnext.2.symm⟩

private theorem stops_of_closing {closing : Segment} {name : String} (h : closing.Fits d fresh rest)
    (htag : closing.tag = .closing name) : Stops d fresh (closing.source ++ rest) := by
  intro seg after hnext
  rw [Segment.next_eq_some_iff.mpr ⟨rfl, h⟩, Except.ok.injEq, Option.some.injEq, Prod.mk.injEq] at hnext
  exact ⟨name, hnext.1 ▸ htag⟩

private theorem stops_of_untagged (h : ¬ d.opener.toList <:+: rest) : Stops d fresh rest := by
  intro seg after hnext
  rw [Segment.next_eq_none_iff.mpr h] at hnext
  cases hnext

/-- A text has one outline at most, up to a place where the region stops. -/
private theorem Fits.unique {o o' : Outline} (h : o.Fits d fresh rest) (h' : o'.Fits d fresh rest')
    (hsource : o.source ++ rest = o'.source ++ rest')
    (hstops : Stops (o.inForce d) (Segment.startsLine fresh o.source) rest)
    (hstops' : Stops (o'.inForce d) (Segment.startsLine fresh o'.source) rest') : o = o' ∧ rest = rest' := by
  induction o generalizing d fresh rest rest' o' with
  | done =>
    by_cases hdone : o' = .done
    · rw [hdone] at hsource
      exact ⟨hdone.symm, hsource⟩
    · rw [source, List.nil_append] at hsource
      rw [hsource] at hstops
      exact absurd hstops (h'.not_stops hdone)
  | tag seg after ih =>
    cases o' with
    | done =>
      rw [source.eq_1, List.nil_append] at hsource
      rw [← hsource] at hstops'
      exact absurd hstops' (h.not_stops (by simp))
    | tag seg' after' =>
      obtain ⟨-, hseg, hafter⟩ := h
      obtain ⟨-, hseg', hafter'⟩ := h'
      rw [source, source, List.append_assoc, List.append_assoc] at hsource
      obtain ⟨rfl, hbehind⟩ := fits_inj hseg hseg' hsource
      rw [source, Segment.startsLine_append] at hstops hstops'
      obtain ⟨rfl, hrest⟩ := ih hafter hafter' hbehind hstops hstops'
      exact ⟨rfl, hrest⟩
    | block inverted name opening body closing after' =>
      obtain ⟨hplain, hseg, -⟩ := h
      obtain ⟨hopening, -, hfits, -⟩ := h'
      simp only [source, List.append_assoc] at hsource
      obtain ⟨rfl, -⟩ := fits_inj hseg hfits hsource
      rw [hopening] at hplain
      cases hplain
  | block inverted name opening body closing after ihbody ihafter =>
    cases o' with
    | done =>
      rw [source.eq_1, List.nil_append] at hsource
      rw [← hsource] at hstops'
      exact absurd hstops' (h.not_stops (by simp))
    | tag seg after' =>
      obtain ⟨hplain, hseg, -⟩ := h'
      obtain ⟨hopening, -, hfits, -⟩ := h
      simp only [source, List.append_assoc] at hsource
      obtain ⟨rfl, -⟩ := fits_inj hfits hseg hsource
      rw [hopening] at hplain
      cases hplain
    | block inverted' name' opening' body' closing' after' =>
      obtain ⟨hopening, hclosing, hfitsO, hbody, hfitsC, hafter⟩ := h
      obtain ⟨hopening', hclosing', hfitsO', hbody', hfitsC', hafter'⟩ := h'
      simp only [source, List.append_assoc] at hsource
      obtain ⟨rfl, hbehind⟩ := fits_inj hfitsO hfitsO' hsource
      obtain ⟨rfl, rfl⟩ := Tag.opening.inj (hopening.symm.trans hopening')
      rw [Segment.startsLine_append] at hfitsC hfitsC'
      obtain ⟨rfl, hbehindB⟩ := ihbody hbody hbody' hbehind (stops_of_closing hfitsC hclosing)
        (stops_of_closing hfitsC' hclosing')
      obtain ⟨rfl, hbehindC⟩ := fits_inj hfitsC hfitsC' hbehindB
      simp only [source, ← List.append_assoc] at hstops hstops'
      simp only [← List.append_assoc] at hafter hafter'
      rw [Segment.startsLine_append] at hstops hstops'
      obtain ⟨rfl, hrest⟩ := ihafter hafter hafter' hbehindC hstops hstops'
      exact ⟨rfl, hrest⟩

/-- A template has one outline only. -/
theorem Covers.unique {o o' : Outline} {s tail tail' : List Char} (h : o.Covers d s tail) (h' : o'.Covers d s tail') :
    o = o' ∧ tail = tail' :=
  h.fits.unique h'.fits (h.source_eq.symm.trans h'.source_eq) (stops_of_untagged h.untagged)
    (stops_of_untagged h'.untagged)

end Outline
end Stencil
