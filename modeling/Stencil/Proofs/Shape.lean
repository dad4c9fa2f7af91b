import Stencil.Proofs.Append
import Stencil.Proofs.SideBySide
import Stencil.Proofs.Text.Indent

/-!
# The shape of a template

What a template does is in its tags; what is left of its nodes without the texts of the template is its shape (`Node.bare`). An
indented template has the shape it had, and a fault stays on its line (`parse_indentLines`): the padding is put in front of
lines wherever they are, in the middle of a tag too, where it means nothing.
-/

namespace Stencil

open Text

namespace Node

mutual
/-- A node without texts: a literal is nothing else, a block does not keep its text as it was written, and a partial does not
keep its indent. -/
def bareNode : Node → List Node
  | literal _ => []
  | interpolation name escaped => [interpolation name escaped]
  | block name body _ d => [block name (bare body) "" d]
  | inverted name body => [inverted name (bare body)]
  | inclusion name _ => [inclusion name ""]
  | comment => [comment]
/-- The shape of a list of nodes: the nodes without texts, in the same order and nesting. -/
def bare : List Node → List Node
  | [] => []
  | node :: nodes => bareNode node ++ bare nodes
end

theorem bare_fuse (a b : List Node) : bare (fuse a b) = bare a ++ bare b := by
  fun_induction fuse a b with
  | case1 b => rfl
  | case2 x y b => rfl
  | case3 node a b _ ih => rw [bare, ih, bare, List.append_assoc]

theorem bare_ofText (text : List Char) : bare (ofText text) = [] := by
  cases text with
  | nil => rfl
  | cons c text => rfl

theorem bare_ofSection (inverted : Bool) (name : String) {body body' : List Node} (h : bare body' = bare body)
    (raw raw' : List Char) (d : Delimiters) :
    bare [ofSection inverted name body' raw' d] = bare [ofSection inverted name body raw d] := by
  cases inverted with
  | true => simp only [bare, ofSection, bareNode, h, if_true]
  | false => simp only [bare, ofSection, bareNode, h, Bool.false_eq_true, if_false]

end Node

theorem Segment.bare_nodes {seg seg' : Segment} (h : seg'.tag = seg.tag) : Node.bare seg'.nodes = Node.bare seg.nodes := by
  rw [nodes, nodes, h]
  cases seg.tag with
  | interpolation | opening | closing | inclusion | comment | delimiters => rfl

section Indented

variable {w : List Char} (hw : ∀ c ∈ w, isPad c = true)

private theorem count_of_writes {s s' : List Char} (h : (Respacing.indent w hw).Writes s s') :
    s'.count '\n' = s.count '\n' := by
  obtain ⟨fresh, rfl | rfl⟩ := h
  · rw [Respacing.text_indent, count_indentFrom hw]
  · rw [Respacing.front_indent, count_padded hw]

/-- A template and the indented template are compared by shapes and lines. -/
def Text.Respacing.shape : (Respacing.indent w hw).Comparison where
  place p p' := p'.line = p.line
  nodes nodes nodes' := Node.bare nodes' = Node.bare nodes
  place_advanceAll hplace hwrites := by
    rw [Position.line_advanceAll, Position.line_advanceAll, hplace, count_of_writes hw hwrites]
  nodes_ofText _ := by rw [Node.bare_ofText, Node.bare_ofText]
  nodes_fuse ha hb := by rw [Node.bare_fuse, Node.bare_fuse, ha, hb]
  nodes_segment seg fresh := Segment.bare_nodes (seg.tag_respaced _ fresh)
  nodes_ofSection inverted name d hbody _ := Node.bare_ofSection inverted name hbody _ _ d

end Indented

/-- A template can be read exactly if the indented template can: the shape is the same, or else the fault, which then is on the
same line. What the fault quotes of the template is quoted as it is indented. -/
theorem parse_indentLines {w : String} (hw : ∀ c ∈ w.toList, isPad c = true) (d : Delimiters) (s : String) :
    match parse d s, parse d (indentLines w s) with
    | .ok nodes, .ok nodes' => Node.bare nodes' = Node.bare nodes
    | .error e, .error e' =>
      e'.fault = e.fault.quoting (fun quoted => String.ofList (indentFrom w.toList false quoted.toList)) ∧
        e'.position.line = e.position.line
    | _, _ => False := by
  have hparse := (Respacing.shape hw).parse rfl d (s := s) fun _ _ => trivial
  rw [Respacing.text_indent, ← indentLines] at hparse
  have hquote : (Respacing.indent w.toList hw).quote = fun quoted => String.ofList (indentFrom w.toList false quoted.toList) := by
    funext quoted
    rw [Respacing.quote, Respacing.text_indent]
  rw [← hquote]
  generalize parse d s = read at hparse ⊢
  generalize parse d (indentLines w s) = read' at hparse ⊢
  cases read with
  | ok nodes =>
    cases read' with
    | ok nodes' | error e' => exact hparse
  | error e =>
    cases read' with
    | ok nodes' | error e' => exact hparse

/-- The second line break stands in a tag, so what is put in behind it is no text. -/
theorem parse_indentLines_of_two_lines :
    (∀ c ∈ "  ".toList, isPad c = true) ∧
      match parse .standard "\x7b\x7b#a\x7d\x7d\n\x7b\x7b&\nb\x7d\x7d\n\x7b\x7b/a\x7d\x7d",
        parse .standard (indentLines "  " "\x7b\x7b#a\x7d\x7d\n\x7b\x7b&\nb\x7d\x7d\n\x7b\x7b/a\x7d\x7d") with
      | .ok nodes, .ok nodes' => Node.bare nodes' = Node.bare nodes
      | .error e, .error e' =>
        e'.fault = e.fault.quoting (fun quoted => String.ofList (indentFrom "  ".toList false quoted.toList)) ∧
          e'.position.line = e.position.line
      | _, _ => False :=
  ⟨List.all_eq_true.mp (by decide), parse_indentLines (List.all_eq_true.mp (by decide)) .standard _⟩

end Stencil
