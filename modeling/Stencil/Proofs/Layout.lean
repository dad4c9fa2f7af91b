import Stencil.Proofs.Outline

/-!
# Layouts

A layout of a template is the template cut into segments, with nothing lost and nothing written twice: literal text, tags, and
the white space that is dropped with a tag that is alone on its line. The literal texts and the tags of the nodes are those of
the segments, in their order, and the text kept with a section is what the segments between its tags are written as.
Every template that can be read has a layout, and its outline gives it (`Covers.layout`).
-/

namespace Stencil

open Text

/-- What a reader of a template sees and a node keeps: a character of literal text, or a tag. -/
inductive Piece where
  | char (c : Char)
  | tag (tag : Tag)

namespace Node

def openPieces : Node → List Piece
  | literal text => text.toList.map .char
  | interpolation name escaped => [.tag (.interpolation name escaped)]
  | block name .. => [.tag (.opening false name)]
  | inverted name _ => [.tag (.opening true name)]
  | inclusion name _ => [.tag (.inclusion name)]
  | comment => [.tag .comment]

def closePieces : Node → List Piece
  | block name .. | inverted name _ => [.tag (.closing name)]
  | _ => []

def rawOf : Node → List String
  | block _ _ raw _ => [raw]
  | _ => []

/-- The literal texts and the tags of a list of nodes, in the order in which they are written. -/
def pieces (nodes : List Node) : List Piece := collect openPieces closePieces nodes

/-- The texts that are kept with the sections of a list of nodes. -/
def raws (nodes : List Node) : List String := collect rawOf (fun _ => []) nodes

theorem raws_fuse (a b : List Node) : raws (fuse a b) = raws a ++ raws b := collect_fuse (fun _ _ => rfl) a b

theorem raws_ofText (text : List Char) : raws (ofText text) = [] := collect_ofText (fun _ _ => rfl) text

theorem raws_ofSection (inverted : Bool) (name : String) (body : List Node) (raw : List Char) (d : Delimiters) :
    raws [ofSection inverted name body raw d] = (if inverted then [] else [String.ofList raw]) ++ raws body := by
  cases inverted with
  | true | false => simp [raws, ofSection, collectNode, rawOf]

end Node

theorem Segment.raws_nodes (seg : Segment) : Node.raws seg.nodes = [] := by
  rw [nodes]
  cases seg.tag <;> rfl

/-- The literal text of a segment and its tag, unless that sets the delimiters. -/
def Segment.pieces (seg : Segment) : List Piece :=
  seg.text.map .char ++
    match seg.tag with
    | .delimiters _ => []
    | tag => [.tag tag]

/-- The delimiters in force, and those that will be behind each open section, innermost first. -/
structure Force where
  current : Delimiters
  outer : List Delimiters

def Force.past : Force → Tag → Force
  | ⟨_, outer⟩, .delimiters next => ⟨next, outer⟩
  | ⟨d, outer⟩, .opening .. => ⟨d, d :: outer⟩
  | ⟨_, d :: outer⟩, .closing _ => ⟨d, outer⟩
  | force, _ => force

namespace Layout

/-- No white space is dropped with the tag, or the tag is alone between `front` and `back` and its line is dropped. -/
def DropsLine (front : List Char) (seg : Segment) (back : List Char) : Prop :=
  (seg.indent = [] ∧ seg.trailing = []) ∨
    ((∀ c ∈ front.getLast?, isLineEnd c = true) ∧ (∀ c ∈ seg.indent, isPad c = true) ∧
      Segment.ClosesLine seg.trailing back)

/-- The segments are written one after the other behind `front`, with `tail` behind the last: each tag is spelled with the
delimiters in force, and none starts in a literal text. -/
def Written : Force → List Char → List Segment → List Char → Prop
  | force, _, [], tail => ¬ force.current.opener.toList <:+: tail
  | force, front, seg :: segs, tail =>
    Tag.Spelling force.current seg.tag seg.spelling ∧
      Clear force.current.opener.toList (seg.text ++ seg.indent) ∧
      DropsLine (front ++ seg.text) seg (segs.flatMap Segment.source ++ tail) ∧
      Written (force.past seg.tag) (front ++ seg.source) segs tail

/-- The text up to the closing tag of the section that is open `depth` levels further out. -/
def bodyText : Nat → List Segment → List Char
  | _, [] => []
  | depth, seg :: segs =>
    match seg.tag with
    | .closing _ =>
      match depth with
      | 0 => seg.text
      | depth + 1 => seg.source ++ bodyText depth segs
    | .opening .. => seg.source ++ bodyText (depth + 1) segs
    | _ => seg.source ++ bodyText depth segs

private theorem bodyText_of_plain {seg : Segment} (h : seg.tag.isPlain = true) (depth : Nat) (segs : List Segment) :
    bodyText depth (seg :: segs) = seg.source ++ bodyText depth segs := by
  rw [bodyText.eq_def]
  cases htag : seg.tag with
  | opening inverted name => simp [htag, Tag.isPlain] at h
  | closing name => simp [htag, Tag.isPlain] at h
  | _ => simp only [htag]

private theorem bodyText_of_opening {seg : Segment} {inverted : Bool} {name : String}
    (h : seg.tag = .opening inverted name) (depth : Nat) (segs : List Segment) :
    bodyText depth (seg :: segs) = seg.source ++ bodyText (depth + 1) segs := by
  rw [bodyText.eq_def]
  simp only [h]

private theorem bodyText_of_closing {seg : Segment} {name : String} (h : seg.tag = .closing name) (depth : Nat)
    (segs : List Segment) : bodyText depth (seg :: segs) =
      match depth with
      | 0 => seg.text
      | depth + 1 => seg.source ++ bodyText depth segs := by
  rw [bodyText.eq_def]
  simp only [h]

/-- The texts between the tags of the sections that are not inverted. -/
def bodyTexts : List Segment → List String
  | [] => []
  | seg :: segs =>
    match seg.tag with
    | .opening false _ => String.ofList (bodyText 0 segs) :: bodyTexts segs
    | _ => bodyTexts segs

end Layout

/-- The template `s` with the nodes `tree` is cut into `segs` and the text `tail` behind the last tag. -/
structure Layout (d : Delimiters) (s : List Char) (tree : List Node) (segs : List Segment) (tail : List Char) :
    Prop where
  source_eq : s = segs.flatMap Segment.source ++ tail
  pieces_eq : Node.pieces tree = segs.flatMap Segment.pieces ++ tail.map .char
  raws_eq : Node.raws tree = Layout.bodyTexts segs
  written : Layout.Written ⟨d, []⟩ [] segs tail

namespace Outline

open Layout

def segments : Outline → List Segment
  | done => []
  | tag seg after => seg :: after.segments
  | block _ _ opening body closing after => opening :: (body.segments ++ closing :: after.segments)

theorem flatMap_source_segments (o : Outline) : o.segments.flatMap Segment.source = o.source := by
  induction o with
  | done => rfl
  | tag seg after ih => rw [segments, List.flatMap_cons, ih, source]
  | block inverted name opening body closing after ihbody ihafter =>
    rw [segments, List.flatMap_cons, List.flatMap_append, List.flatMap_cons, ihbody, ihafter, source]

section Gather

variable {d : Delimiters} {fresh : Bool} {rest : List Char}

private theorem pieces_fuse (a b : List Node) : Node.pieces (Node.fuse a b) = Node.pieces a ++ Node.pieces b :=
  Node.collect_fuse (by simp [Node.openPieces]) a b

private theorem pieces_ofText (text : List Char) : Node.pieces (Node.ofText text) = text.map .char := by
  rw [Node.pieces, Node.collect_ofText (by simp [Node.openPieces]), Node.openPieces, String.toList_ofList]

theorem pieces_nodes {o : Outline} (h : o.Fits d fresh rest) :
    Node.pieces (o.nodes d) = o.segments.flatMap Segment.pieces := by
  induction o generalizing d fresh rest with
  | done => rfl
  | tag seg after ih =>
    obtain ⟨hplain, -, hafter⟩ := h
    have hseg : seg.pieces = seg.text.map .char ++ Node.pieces seg.nodes := by
      rw [Segment.pieces, Segment.nodes]
      cases htag : seg.tag with
      | opening inverted name => simp [htag, Tag.isPlain] at hplain
      | closing name => simp [htag, Tag.isPlain] at hplain
      | _ => rfl
    rw [nodes, pieces_fuse, pieces_fuse, pieces_ofText, ih hafter, segments, List.flatMap_cons, hseg, List.append_assoc]
  | block inverted name opening body closing after ihbody ihafter =>
    obtain ⟨hopening, hclosing, -, hbody, -, hafter⟩ := h
    have hopened : opening.pieces = opening.text.map .char ++ [.tag (.opening inverted name)] := by
      rw [Segment.pieces, hopening]
    have hclosed : closing.pieces = closing.text.map .char ++ [.tag (.closing name)] := by
      rw [Segment.pieces, hclosing]
    have hsection (nodes : List Node) (raw : List Char) : Node.pieces [Node.ofSection inverted name nodes raw d] =
        .tag (.opening inverted name) :: (Node.pieces nodes ++ [.tag (.closing name)]) := by
      rw [Node.ofSection]
      cases inverted <;> simp [Node.pieces, Node.collectNode, Node.openPieces, Node.closePieces]
    rw [nodes, pieces_fuse, pieces_fuse, pieces_ofText, hsection, pieces_fuse, pieces_ofText, ihbody hbody,
      ihafter hafter, segments, List.flatMap_cons, List.flatMap_append, List.flatMap_cons, hopened, hclosed]
    simp only [List.append_assoc, List.cons_append, List.nil_append]

private theorem bodyText_segments {o : Outline} (h : o.Fits d fresh rest) (depth : Nat) (more : List Segment) :
    bodyText depth (o.segments ++ more) = o.source ++ bodyText depth more := by
  induction o generalizing d fresh rest depth more with
  | done => rfl
  | tag seg after ih =>
    obtain ⟨hplain, -, hafter⟩ := h
    rw [segments, List.cons_append, bodyText_of_plain hplain, ih hafter, source, List.append_assoc]
  | block inverted name opening body closing after ihbody ihafter =>
    obtain ⟨hopening, hclosing, -, hbody, -, hafter⟩ := h
    rw [segments, List.cons_append, List.append_assoc, List.cons_append, bodyText_of_opening hopening, ihbody hbody,
      bodyText_of_closing hclosing]
    simp only
    rw [ihafter hafter, source]
    simp only [List.append_assoc]

theorem bodyTexts_segments {o : Outline} (h : o.Fits d fresh rest) (more : List Segment) :
    bodyTexts (o.segments ++ more) = Node.raws (o.nodes d) ++ bodyTexts more := by
  induction o generalizing d fresh rest more with
  | done => rfl
  | tag seg after ih =>
    obtain ⟨hplain, -, hafter⟩ := h
    have hstep : bodyTexts (seg :: (after.segments ++ more)) = bodyTexts (after.segments ++ more) := by
      rw [bodyTexts]
      cases htag : seg.tag with
      | opening inverted name => simp [htag, Tag.isPlain] at hplain
      | _ => rfl
    rw [segments, List.cons_append, hstep, ih hafter, nodes, Node.raws_fuse, Node.raws_fuse, Node.raws_ofText,
      seg.raws_nodes, List.nil_append, List.nil_append]
  | block inverted name opening body closing after ihbody ihafter =>
    obtain ⟨hopening, hclosing, -, hbody, -, hafter⟩ := h
    have hclosed : bodyTexts (closing :: (after.segments ++ more)) = bodyTexts (after.segments ++ more) := by
      rw [bodyTexts, hclosing]
    have htext : bodyText 0 (body.segments ++ closing :: (after.segments ++ more)) = body.source ++ closing.text := by
      rw [bodyText_segments hbody, bodyText_of_closing hclosing]
    rw [nodes, Node.raws_fuse, Node.raws_fuse, Node.raws_ofText, Node.raws_ofSection, Node.raws_fuse, Node.raws_ofText,
      List.append_nil, List.nil_append, segments, List.cons_append, List.append_assoc, List.cons_append, bodyTexts, hopening]
    cases inverted with
    | true =>
      simp only
      rw [ihbody hbody, hclosed, ihafter hafter]
      simp
    | false =>
      simp only
      rw [htext, ihbody hbody, hclosed, ihafter hafter]
      simp

private theorem dropsLine_of_placed {front : List Char} {seg : Segment} {back : List Char}
    (h : seg.Placed (Segment.startsLine true front) back) : DropsLine (front ++ seg.text) seg back := by
  rw [Segment.Placed] at h
  split at h
  · obtain ⟨-, hstarts, hindent, hcloses⟩ := h
    refine .inr ⟨?_, hindent, hcloses⟩
    intro c hc
    rw [← Segment.startsLine_append, Segment.startsLine] at hstarts
    rwa [Option.mem_def.mp hc] at hstarts
  · exact .inl ⟨h.1, h.2.1⟩

theorem written_segments {o : Outline} {front tail : List Char} {more : List Segment} {outer : List Delimiters}
    (h : o.Fits d (Segment.startsLine true front) (more.flatMap Segment.source ++ tail))
    (hmore : Written ⟨o.inForce d, outer⟩ (front ++ o.source) more tail) :
    Written ⟨d, outer⟩ front (o.segments ++ more) tail := by
  induction o generalizing d front more outer with
  | done =>
    rw [source, List.append_nil] at hmore
    exact hmore
  | tag seg after ih =>
    obtain ⟨hplain, hseg, hafter⟩ := h
    have hforce : Force.past ⟨d, outer⟩ seg.tag = ⟨seg.tag.inForce d, outer⟩ := by
      cases htag : seg.tag with
      | opening inverted name => simp [htag, Tag.isPlain] at hplain
      | closing name => simp [htag, Tag.isPlain] at hplain
      | _ => rfl
    rw [segments, List.cons_append]
    refine ⟨hseg.1.spelling, hseg.1.1, ?_, ?_⟩
    · rw [List.flatMap_append, flatMap_source_segments, List.append_assoc]
      exact dropsLine_of_placed hseg.2
    · rw [hforce]
      refine ih ?_ ?_
      · rw [Segment.startsLine_append]
        exact hafter
      · rw [List.append_assoc]
        exact hmore
  | block inverted name opening body closing after ihbody ihafter =>
    obtain ⟨hopening, hclosing, hfitsO, hbody, hfitsC, hafter⟩ := h
    have hbehind : (closing :: (after.segments ++ more)).flatMap Segment.source ++ tail =
        closing.source ++ (after.source ++ (more.flatMap Segment.source ++ tail)) := by
      simp only [List.flatMap_cons, List.flatMap_append, flatMap_source_segments, List.append_assoc]
    rw [segments, List.cons_append, List.append_assoc, List.cons_append]
    refine ⟨hfitsO.1.spelling, hfitsO.1.1, ?_, ?_⟩
    · rw [List.flatMap_append, flatMap_source_segments, List.append_assoc, hbehind]
      exact dropsLine_of_placed hfitsO.2
    · rw [hopening]
      -- The opening tag sets its delimiters aside, and the closing tag takes them up again.
      change Written ⟨d, d :: outer⟩ _ _ _
      refine ihbody ?_ ⟨hfitsC.1.spelling, hfitsC.1.1, ?_, ?_⟩
      · rw [hbehind, Segment.startsLine_append]
        exact hbody
      · rw [← Segment.startsLine_append, ← List.append_assoc] at hfitsC
        rw [List.flatMap_append, flatMap_source_segments, List.append_assoc after.source]
        exact dropsLine_of_placed hfitsC.2
      · rw [hclosing]
        refine ihafter ?_ ?_
        · simp only [List.append_assoc, Segment.startsLine_append]
          simp only [Segment.startsLine_append] at hafter
          exact hafter
        · rw [inForce, source] at hmore
          simp only [List.append_assoc]
          exact hmore

end Gather

theorem Covers.layout {o : Outline} {d : Delimiters} {s tail : List Char} (h : o.Covers d s tail) :
    Layout d s (Node.fuse (o.nodes d) (Node.ofText tail)) o.segments tail where
  source_eq := by rw [flatMap_source_segments, h.source_eq]
  pieces_eq := by rw [pieces_fuse, pieces_nodes h.fits, pieces_ofText]
  raws_eq := by
    have hbodies := bodyTexts_segments h.fits []
    rw [List.append_nil] at hbodies
    rw [hbodies, Node.raws_fuse, Node.raws_ofText]
    rfl
  written := by
    have hwritten : Layout.Written ⟨d, []⟩ [] (o.segments ++ []) tail := written_segments h.fits h.untagged
    rwa [List.append_nil] at hwritten

end Outline

/-- A template that can be read has a layout: reading it loses nothing and writes nothing twice. -/
theorem exists_layout {d : Delimiters} {s : String} {tree : List Node} (h : parse d s = .ok tree) :
    ∃ segs tail, Layout d s.toList tree segs tail := by
  obtain ⟨o, tail, hcovers, rfl⟩ := parse_eq_ok_iff.mp h
  exact ⟨o.segments, tail, hcovers.layout⟩

theorem exists_layout_of_lines :
    parse .standard "\x7b\x7b#a\x7d\x7d\nx\x7b\x7b/a\x7d\x7d" = .ok [.block "a" [.literal "x"] "x" .standard] ∧
      ∃ segs tail, Layout .standard "\x7b\x7b#a\x7d\x7d\nx\x7b\x7b/a\x7d\x7d".toList
        [.block "a" [.literal "x"] "x" .standard] segs tail :=
  ⟨by cbv, exists_layout (by cbv)⟩

end Stencil
