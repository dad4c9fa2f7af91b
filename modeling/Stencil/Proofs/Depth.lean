import Stencil.Proofs.Outline

/-!
# Depth of nesting

How deep sections are nested in a template that has been read. No more sections can be open at once than the reader of
templates allows, so the depth is bounded (`depth_le_of_parse`).
-/

namespace Stencil

namespace Node

mutual
def depthNode : Node → Nat
  | block _ body _ _ | inverted _ body => depth body + 1
  | literal _ | interpolation .. | inclusion .. | comment => 0
/-- How many sections are nested in each other at most. -/
def depth : List Node → Nat
  | [] => 0
  | node :: nodes => max (depthNode node) (depth nodes)
end

@[simp] theorem depth_nil : depth [] = 0 := rfl

@[simp] theorem depth_cons (node : Node) (nodes : List Node) :
    depth (node :: nodes) = max (depthNode node) (depth nodes) := rfl

@[simp] theorem depth_fuse (a b : List Node) : depth (fuse a b) = max (depth a) (depth b) := by
  fun_induction fuse a b with
  | case1 after => simp
  | case2 x y after => simp [depthNode]
  | case3 node before after _ ih => rw [depth_cons, ih, depth_cons, Nat.max_assoc]

@[simp] theorem depth_ofText (text : List Char) : depth (ofText text) = 0 := by
  rw [ofText]
  split
  · rfl
  · rfl

theorem depthNode_ofSection (inverted : Bool) (name : String) (body : List Node) (raw : List Char) (d : Delimiters) :
    depthNode (ofSection inverted name body raw d) = depth body + 1 := by
  cases inverted with
  | true => rfl
  | false => rfl

end Node

theorem Segment.depth_nodes (seg : Segment) : Node.depth seg.nodes = 0 := by
  rw [nodes]
  cases seg.tag <;> rfl

/-- The nodes of an outline are nested as its sections are. -/
theorem Outline.depth_nodes (o : Outline) (d : Delimiters) : Node.depth (o.nodes d) = o.depth := by
  induction o generalizing d with
  | done => rfl
  | tag seg after ih => simp [nodes, depth, seg.depth_nodes, ih]
  | block inverted name opening body closing after ihbody ihafter =>
    simp [nodes, depth, Node.depthNode_ofSection, ihbody, ihafter]

theorem depth_le_of_parse {d : Delimiters} {s : String} {tree : List Node} (h : parse d s = .ok tree) :
    Node.depth tree ≤ maxOpenSections := by
  obtain ⟨o, tail, hcovers, rfl⟩ := parse_eq_ok_iff.mp h
  rw [Node.depth_fuse, o.depth_nodes, Node.depth_ofText, Nat.max_zero]
  exact hcovers.depth_le

end Stencil
