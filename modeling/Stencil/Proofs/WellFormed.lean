import Mathlib.Data.List.Chain
import Stencil.Proofs.Change
import Stencil.Proofs.Contents
import Stencil.Proofs.Depth
import Stencil.Proofs.Layout

/-!
# Well-formed templates

What is true of the nodes of every template that has been read (`wellFormed_of_parse`): literals hold text and do not meet,
names are dotted paths without white space, partials are indented by padding, and a section keeps delimiters that are legal
and a text that holds those of the sections in its body.
-/

namespace Stencil

open Text

/-- A name is a dot, or it is made of segments with dots between them, none of which is empty. It holds no white space. -/
structure IsPath (name : String) : Prop where
  dotted : name = "." ∨ ∃ segments : List (List Char), segments ≠ [] ∧
    (∀ segment ∈ segments, segment ≠ [] ∧ '.' ∉ segment) ∧ name.toList = ['.'].intercalate segments
  unbroken : ∀ c ∈ name.toList, isBlank c = false

theorem isPath_of_isName {name : String} (h : isName name.toList = true) : IsPath name := by
  refine ⟨?_, Tag.not_isBlank_of_isName h⟩
  rw [isName, Bool.or_eq_true] at h
  rcases h with hdot | hsegments
  · exact .inl (String.toList_inj.mp (beq_iff_eq.mp hdot))
  · rw [Bool.and_eq_true, List.all_eq_true] at hsegments
    refine .inr ⟨split (· == '.') name.toList, split_ne_nil _ _, ?_, (intercalate_split '.' name.toList).symm⟩
    intro segment hsegment
    refine ⟨?_, ?_⟩
    · simpa using List.all_eq_true.mp hsegments.2 segment hsegment
    · intro hdot
      exact Bool.noConfusion (not_of_mem_split hsegment '.' hdot)

def Tag.names : Tag → List String
  | interpolation name _ | opening _ name | closing name | inclusion name => [name]
  | comment | delimiters _ => []

theorem Tag.Spelling.isPath_of_mem_names {d : Delimiters} {tag : Tag} {s : List Char} (h : Spelling d tag s) :
    ∀ name ∈ tag.names, IsPath name := by
  obtain ⟨_, _, -, -, -, -, hcontent⟩ := h
  intro name hname
  cases hcontent with
  | escaped hnames | unescaped hnames | braced hnames | opening hnames | closing hnames | inclusion hnames =>
    obtain rfl := List.mem_singleton.mp hname
    exact isPath_of_isName hnames.2
  | comment | delimiters => cases hname

namespace Node

def isLiteral : Node → Bool
  | literal _ => true
  | _ => false

/-- Two nodes that can stand side by side. -/
def Apart (a b : Node) : Prop := ¬ (a.isLiteral = true ∧ b.isLiteral = true)

/-- A node as it is when it has been read. -/
inductive Proper : Node → Prop
  | literal {text : String} : text ≠ "" → Proper (literal text)
  | interpolation {name : String} {escaped : Bool} : IsPath name → Proper (interpolation name escaped)
  | block {name : String} {body : List Node} {raw : String} {d : Delimiters} : IsPath name → body.IsChain Apart →
    (∀ node ∈ body, Proper node) → (∀ inner ∈ raws body, inner.toList <:+: raw.toList) →
      Delimiters.ofTexts d.opener d.closer = .ok d → Proper (block name body raw d)
  | inverted {name : String} {body : List Node} : IsPath name → body.IsChain Apart → (∀ node ∈ body, Proper node) →
    Proper (inverted name body)
  | inclusion {name indent : String} : IsPath name → Padding indent → Proper (inclusion name indent)
  | comment : Proper comment

/-- Nodes as they are when they have been read. -/
structure WellFormed (nodes : List Node) : Prop where
  apart : nodes.IsChain Apart
  proper : ∀ node ∈ nodes, Proper node

namespace WellFormed

variable {a b : List Node}

theorem nil : WellFormed [] := ⟨.nil, by nofun⟩

theorem cons_iff {node : Node} {nodes : List Node} :
    WellFormed (node :: nodes) ↔ Proper node ∧ (∀ next ∈ nodes.head?, Apart node next) ∧ WellFormed nodes := by
  constructor
  · intro h
    obtain ⟨hnext, hapart⟩ := List.isChain_cons.mp h.apart
    obtain ⟨hnode, hproper⟩ := List.forall_mem_cons.mp h.proper
    exact ⟨hnode, hnext, hapart, hproper⟩
  · intro h
    obtain ⟨hnode, hnext, hapart, hproper⟩ := h
    exact ⟨List.isChain_cons.mpr ⟨hnext, hapart⟩, List.forall_mem_cons.mpr ⟨hnode, hproper⟩⟩

theorem singleton {node : Node} (h : Proper node) : WellFormed [node] := cons_iff.mpr ⟨h, by nofun, nil⟩

theorem ofText (text : List Char) : WellFormed (ofText text) := by
  rw [Node.ofText]
  cases htext : text with
  | nil => exact nil
  | cons c text =>
    refine singleton (.literal ?_)
    intro hempty
    rw [← String.toList_inj, String.toList_ofList] at hempty
    cases hempty

theorem ofSection {inverted : Bool} {name : String} {body : List Node} {raw : List Char} (hname : IsPath name)
    (hbody : WellFormed body) (hraws : ∀ inner ∈ raws body, inner.toList <:+: raw) (d : Delimiters) :
    WellFormed [ofSection inverted name body raw d] := by
  rw [Node.ofSection]
  cases inverted with
  | true => exact singleton (.inverted hname hbody.apart hbody.proper)
  | false =>
    refine singleton (.block hname hbody.apart hbody.proper ?_ d.ofTexts_eq_ok)
    rwa [String.toList_ofList]

/-- What comes next to a node in front of two lists is the same kind of node when they are fused. -/
private theorem apart_head?_fuse {node : Node} (ha : ∀ next ∈ a.head?, Apart node next)
    (hb : a = [] → ∀ next ∈ b.head?, Apart node next) : ∀ next ∈ (Node.fuse a b).head?, Apart node next := by
  fun_cases Node.fuse a b with
  | case1 => exact hb rfl
  | case2 x y b =>
    intro next hnext
    obtain rfl := Option.some.inj hnext
    exact ha (literal x) rfl
  | case3 => exact ha

theorem fuse (ha : WellFormed a) (hb : WellFormed b) : WellFormed (fuse a b) := by
  fun_induction Node.fuse a b with
  | case1 => exact hb
  | case2 x y b =>
    obtain ⟨hx, -, -⟩ := cons_iff.mp ha
    obtain ⟨-, hnext, hb⟩ := cons_iff.mp hb
    refine cons_iff.mpr ⟨.literal ?_, hnext, hb⟩
    cases hx with
    | literal hx =>
      intro hempty
      exact hx (String.append_eq_empty_iff.mp hempty).1
  | case3 node a b hmeet ih =>
    obtain ⟨hnode, hnext, ha⟩ := cons_iff.mp ha
    refine cons_iff.mpr ⟨hnode, apart_head?_fuse hnext ?_, ih ha hb⟩
    rintro rfl next hfirst ⟨hliteral, hliteral'⟩
    obtain ⟨b, rfl⟩ := List.head?_eq_some_iff.mp hfirst
    cases node with
    | literal x =>
      cases next with
      | literal y => exact hmeet x y b rfl rfl rfl
      | interpolation | block | inverted | inclusion | comment => cases hliteral'
    | interpolation | block | inverted | inclusion | comment => cases hliteral

end WellFormed
end Node

theorem Segment.Fits.wellFormed_nodes {d : Delimiters} {fresh : Bool} {seg : Segment} {rest : List Char}
    (h : seg.Fits d fresh rest) : Node.WellFormed seg.nodes := by
  have hnames := h.1.spelling.isPath_of_mem_names
  rw [nodes]
  cases htag : seg.tag with
  | interpolation name escaped =>
    rw [htag] at hnames
    exact .singleton (.interpolation (hnames name List.mem_cons_self))
  | inclusion name =>
    rw [htag] at hnames
    refine .singleton (.inclusion (hnames name List.mem_cons_self) ?_)
    rw [Padding, String.toList_ofList]
    exact h.2.isPad_of_mem_indent
  | comment => exact .singleton .comment
  | opening | closing | delimiters => exact .nil

namespace Outline

variable {d : Delimiters} {fresh : Bool} {rest : List Char}

/-- The texts that are kept with the sections of a region are parts of its text. -/
theorem isInfix_of_mem_raws (o : Outline) (d : Delimiters) : ∀ raw ∈ Node.raws (o.nodes d), raw.toList <:+: o.source := by
  induction o generalizing d with
  | done => nofun
  | tag seg after ih =>
    intro raw hraw
    rw [nodes, Node.raws_fuse, Node.raws_fuse, Node.raws_ofText, seg.raws_nodes, List.nil_append, List.nil_append] at hraw
    have hafter : raw.toList <:+: after.source := ih _ raw hraw
    exact hafter.trans (List.suffix_append seg.source after.source).isInfix
  | block inverted name opening body closing after ihbody ihafter =>
    intro raw hraw
    have hwithin {s : List Char} (hs : s <:+: body.source ++ closing.text) :
        s <:+: (Outline.block inverted name opening body closing after).source := by
      refine hs.trans ⟨opening.source, closing.indent ++ closing.spelling ++ closing.trailing ++ after.source, ?_⟩
      simp only [source, Segment.source, List.append_assoc]
    rw [nodes, Node.raws_fuse, Node.raws_fuse, Node.raws_ofText, Node.raws_ofSection, Node.raws_fuse, Node.raws_ofText,
      List.nil_append, List.append_nil, List.mem_append, List.mem_append] at hraw
    rcases hraw with (hself | hbody) | hafter
    · apply hwithin
      cases inverted with
      | true => cases hself
      | false =>
        have hraw : raw.toList = body.source ++ closing.text := by
          rw [List.mem_singleton.mp hself, String.toList_ofList]
        exact hraw ▸ List.infix_refl _
    · exact hwithin ((ihbody d raw hbody).trans (List.prefix_append body.source closing.text).isInfix)
    · refine (ihafter d raw hafter).trans ⟨opening.source ++ body.source ++ closing.source, [], ?_⟩
      simp only [source, List.append_assoc, List.append_nil]

theorem Fits.wellFormed_nodes {o : Outline} (h : o.Fits d fresh rest) : Node.WellFormed (o.nodes d) := by
  induction o generalizing d fresh rest with
  | done => exact .nil
  | tag seg after ih =>
    obtain ⟨-, hseg, hafter⟩ := h
    rw [nodes]
    exact (Node.WellFormed.ofText seg.text).fuse (hseg.wellFormed_nodes.fuse (ih hafter))
  | block inverted name opening body closing after ihbody ihafter =>
    obtain ⟨hopening, -, hfits, hbody, -, hafter⟩ := h
    have hname : IsPath name := by
      apply hfits.1.spelling.isPath_of_mem_names
      rw [hopening]
      exact List.mem_cons_self
    have hinside : Node.WellFormed (Node.fuse (body.nodes d) (Node.ofText closing.text)) :=
      (ihbody hbody).fuse (Node.WellFormed.ofText closing.text)
    have hraws : ∀ inner ∈ Node.raws (Node.fuse (body.nodes d) (Node.ofText closing.text)),
        inner.toList <:+: body.source ++ closing.text := by
      intro inner hinner
      rw [Node.raws_fuse, Node.raws_ofText, List.append_nil] at hinner
      exact (body.isInfix_of_mem_raws d inner hinner).trans (List.prefix_append body.source closing.text).isInfix
    rw [nodes]
    exact (Node.WellFormed.ofText opening.text).fuse ((Node.WellFormed.ofSection hname hinside hraws d).fuse (ihafter hafter))

end Outline

/-- The nodes of a template that has been read are well formed, and sections are nested no deeper than they may be. -/
theorem wellFormed_of_parse {d : Delimiters} {s : String} {tree : List Node} (h : parse d s = .ok tree) :
    Node.WellFormed tree ∧ Node.depth tree ≤ 128 := by
  refine ⟨?_, depth_le_of_parse h⟩
  obtain ⟨o, tail, hcovers, rfl⟩ := parse_eq_ok_iff.mp h
  exact hcovers.fits.wellFormed_nodes.fuse (.ofText tail)

/-- The two literals that a change of delimiters parts are one, and the text of a section is in that of the section around
it. -/
theorem wellFormed_of_parse_of_sections :
    let tree : List Node := [.block "a" [.block "b.c" [.literal "xy"] "x\x7b\x7b=\x7b\x7b \x7d\x7d=\x7d\x7dy" .standard]
      "\x7b\x7b#b.c\x7d\x7dx\x7b\x7b=\x7b\x7b \x7d\x7d=\x7d\x7dy\x7b\x7b/b.c\x7d\x7d" .standard]
    parse .standard "\x7b\x7b#a\x7d\x7d\x7b\x7b#b.c\x7d\x7dx\x7b\x7b=\x7b\x7b \x7d\x7d=\x7d\x7dy\x7b\x7b/b.c\x7d\x7d\x7b\x7b/a\x7d\x7d" = .ok tree ∧
      Node.WellFormed tree ∧ Node.depth tree ≤ 128 := by
  intro tree
  have hparse : parse .standard "\x7b\x7b#a\x7d\x7d\x7b\x7b#b.c\x7d\x7dx\x7b\x7b=\x7b\x7b \x7d\x7d=\x7d\x7dy\x7b\x7b/b.c\x7d\x7d\x7b\x7b/a\x7d\x7d" =
      .ok tree := by cbv
  exact ⟨hparse, wellFormed_of_parse hparse⟩

end Stencil
