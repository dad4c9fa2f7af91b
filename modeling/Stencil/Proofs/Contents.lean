import Stencil.Proofs.Shape

/-!
# What templates hold

The names that a template looks up, the tags that it does not escape, the text of its literals, and the indents of its partials.
The indents are padding (`padding_of_mem_indents`), and an indented template holds what it held, with more padding in its
literals (`contents_of_indented`).
-/

namespace Stencil

open Text

namespace Node

/-- The name that a node looks up. The name of a partial is not looked up. -/
def lookupOf : Node → List String
  | interpolation name _ | block name .. | inverted name _ => [name]
  | literal _ | inclusion .. | comment => []

def unescapedOf : Node → List String
  | interpolation name false => [name]
  | _ => []

def charsOf : Node → List Char
  | literal text => text.toList
  | _ => []

def indentOf : Node → List String
  | inclusion _ indent => [indent]
  | _ => []

/-- The names that a list of nodes looks up. -/
def lookups (nodes : List Node) : List String := collect lookupOf (fun _ => []) nodes

/-- The names whose values a list of nodes writes as they are. -/
def unescaped (nodes : List Node) : List String := collect unescapedOf (fun _ => []) nodes

/-- The characters of the literals of a list of nodes. -/
def chars (nodes : List Node) : List Char := collect charsOf (fun _ => []) nodes

/-- The indents of the partials of a list of nodes. -/
def indents (nodes : List Node) : List String := collect indentOf (fun _ => []) nodes

theorem collect_singleton {α : Type} (enter leave : Node → List α) (node : Node) :
    collect enter leave [node] = collectNode enter leave node := by
  rw [collect_cons, collect_nil, List.append_nil]

theorem collect_append {α : Type} (enter leave : Node → List α) (a b : List Node) :
    collect enter leave (a ++ b) = collect enter leave a ++ collect enter leave b := by
  induction a with
  | nil => rfl
  | cons node a ih => rw [List.cons_append, collect_cons, ih, collect_cons, List.append_assoc]

/-- What the nodes of a list give is such as `p` says, for the nodes in bodies as well. -/
def Every {α : Type} (enter : Node → List α) (p : α → Prop) (nodes : List Node) : Prop :=
  ∀ a ∈ collect enter (fun _ => []) nodes, p a

namespace Every

variable {α : Type} {enter : Node → List α} {p : α → Prop} {name : String} {body : List Node}

theorem cons {node : Node} {nodes : List Node} (h : Every enter p (node :: nodes)) :
    Every enter p [node] ∧ Every enter p nodes := by
  rw [Every, collect_cons, List.forall_mem_append] at h
  refine ⟨?_, h.2⟩
  rw [Every, collect_singleton]
  exact h.1

theorem block {raw : String} {d : Delimiters} (h : Every enter p [.block name body raw d]) : Every enter p body := by
  rw [Every, collect_singleton, collectNode, List.append_nil, List.forall_mem_append] at h
  exact h.2

theorem inverted (h : Every enter p [.inverted name body]) : Every enter p body := by
  rw [Every, collect_singleton, collectNode, List.append_nil, List.forall_mem_append] at h
  exact h.2

end Every

mutual
private theorem collect_bareNode {α : Type} {enter : Node → List α} (henter : ∀ node, (bareNode node).flatMap enter = enter node)
    (node : Node) : collect enter (fun _ => []) (bareNode node) = collectNode enter (fun _ => []) node := by
  have hnode := henter node
  cases node with
  | literal text => exact hnode
  | interpolation name escaped => exact collect_singleton _ _ _
  | block name body raw d =>
    rw [bareNode, List.flatMap_singleton] at hnode
    rw [bareNode, collect_singleton, collectNode, collectNode, hnode, collect_bare henter body]
  | inverted name body =>
    rw [bareNode, List.flatMap_singleton] at hnode
    rw [bareNode, collect_singleton, collectNode, collectNode, hnode, collect_bare henter body]
  | inclusion name indent =>
    rw [bareNode, List.flatMap_singleton] at hnode
    rw [bareNode, collect_singleton, collectNode, collectNode, hnode]
  | comment => exact collect_singleton _ _ _
/-- What is gathered from the tags alone is in the shape. -/
private theorem collect_bare {α : Type} {enter : Node → List α} (henter : ∀ node, (bareNode node).flatMap enter = enter node)
    (nodes : List Node) : collect enter (fun _ => []) (bare nodes) = collect enter (fun _ => []) nodes := by
  cases nodes with
  | nil => rfl
  | cons node nodes => rw [bare, collect_append, collect_bareNode henter node, collect_bare henter nodes, collect_cons]
end

@[simp] theorem lookups_bare (nodes : List Node) : lookups (bare nodes) = lookups nodes :=
  collect_bare (fun node => by cases node <;> rfl) nodes

@[simp] theorem unescaped_bare (nodes : List Node) : unescaped (bare nodes) = unescaped nodes :=
  collect_bare (fun node => by rcases node with _ | ⟨_, _ | _⟩ | _ | _ | _ | _ <;> rfl) nodes

theorem chars_append (a b : List Node) : chars (a ++ b) = chars a ++ chars b := collect_append _ _ a b

theorem chars_fuse (a b : List Node) : chars (fuse a b) = chars a ++ chars b :=
  collect_fuse (fun _ _ => String.toList_append) a b

theorem chars_ofText (text : List Char) : chars (ofText text) = text := by
  rw [chars, collect_ofText fun _ _ => String.toList_append]
  exact String.toList_ofList

theorem chars_ofSection (inverted : Bool) (name : String) (body : List Node) (raw : List Char) (d : Delimiters) :
    chars [ofSection inverted name body raw d] = chars body := by
  cases inverted with
  | true | false => simp [chars, ofSection, collectNode, charsOf]

theorem indents_fuse (a b : List Node) : indents (fuse a b) = indents a ++ indents b := collect_fuse (fun _ _ => rfl) a b

theorem indents_ofText (text : List Char) : indents (ofText text) = [] := collect_ofText (fun _ _ => rfl) text

theorem indents_ofSection (inverted : Bool) (name : String) (body : List Node) (raw : List Char) (d : Delimiters) :
    indents [ofSection inverted name body raw d] = indents body := by
  cases inverted with
  | true | false => simp [indents, ofSection, collectNode, indentOf]

end Node

/-- A text of spaces and tabs. -/
def Text.Padding (s : String) : Prop := ∀ c ∈ s.toList, isPad c = true

section Indents

variable {d : Delimiters} {fresh : Bool} {rest : List Char}

theorem Segment.Placed.isPad_of_mem_indent {seg : Segment} (h : seg.Placed fresh rest) : ∀ c ∈ seg.indent, isPad c = true := by
  by_cases halone : seg.alone = true
  · rw [Segment.placed_of_alone halone] at h
    exact h.2.2.1
  · rw [Segment.placed_of_not_alone halone] at h
    rw [h.1]
    nofun

theorem Segment.Placed.padding_of_mem_indents {seg : Segment} (h : seg.Placed fresh rest) :
    ∀ indent ∈ Node.indents seg.nodes, Padding indent := by
  intro indent hindent
  rw [Segment.nodes] at hindent
  cases htag : seg.tag with
  | inclusion name =>
    rw [htag] at hindent
    rw [List.mem_singleton.mp hindent, Padding, String.toList_ofList]
    exact h.isPad_of_mem_indent
  | interpolation | opening | closing | comment | delimiters =>
    rw [htag] at hindent
    cases hindent

theorem Outline.Fits.padding_of_mem_indents {o : Outline} (h : o.Fits d fresh rest) :
    ∀ indent ∈ Node.indents (o.nodes d), Padding indent := by
  induction o generalizing d fresh rest with
  | done => nofun
  | tag seg after ih =>
    obtain ⟨-, hseg, hafter⟩ := h
    intro indent hindent
    rw [nodes, Node.indents_fuse, Node.indents_fuse, Node.indents_ofText, List.nil_append, List.mem_append] at hindent
    rcases hindent with hindent | hindent
    · exact hseg.2.padding_of_mem_indents indent hindent
    · exact ih hafter indent hindent
  | block inverted name opening body closing after ihbody ihafter =>
    obtain ⟨-, -, -, hbody, -, hafter⟩ := h
    intro indent hindent
    rw [nodes, Node.indents_fuse, Node.indents_fuse, Node.indents_ofText, Node.indents_ofSection, Node.indents_fuse,
      Node.indents_ofText, List.nil_append, List.append_nil, List.mem_append] at hindent
    rcases hindent with hindent | hindent
    · exact ihbody hbody indent hindent
    · exact ihafter hafter indent hindent

/-- Partials are indented by padding and nothing else. -/
theorem padding_of_mem_indents {s : String} {nodes : List Node} (h : parse d s = .ok nodes) :
    ∀ indent ∈ Node.indents nodes, Padding indent := by
  obtain ⟨o, tail, hcovers, rfl⟩ := parse_eq_ok_iff.mp h
  rw [Node.indents_fuse, Node.indents_ofText, List.append_nil]
  exact hcovers.fits.padding_of_mem_indents

end Indents

section Indented

variable {w : List Char}

theorem Text.mem_indentFrom {fresh : Bool} {s : List Char} {c : Char} (h : c ∈ indentFrom w fresh s) : c ∈ s ∨ c ∈ w := by
  induction s generalizing fresh with
  | nil => exact .inl h
  | cons b s ih =>
    rw [indentFrom_cons, List.mem_append, List.mem_cons] at h
    rcases h with h | rfl | h
    · split at h
      · exact .inr h
      · cases h
    · exact .inl List.mem_cons_self
    · exact (ih h).imp_left (List.mem_cons_of_mem b)

theorem Text.mem_padded {fresh : Bool} {s : List Char} {c : Char} (h : c ∈ padded w fresh s) : c ∈ s ∨ c ∈ w := by
  rw [padded, List.mem_append] at h
  rcases h with h | h
  · exact mem_indentFrom h
  · split at h
    · exact .inr h
    · cases h

variable (hw : ∀ c ∈ w, isPad c = true)

private theorem mem_of_writes {s s' : List Char} (h : (Respacing.indent w hw).Writes s s') {c : Char} (hc : c ∈ s') :
    c ∈ s ∨ isPad c = true := by
  obtain ⟨fresh, rfl | rfl⟩ := h
  · rw [Respacing.text_indent] at hc
    exact (mem_indentFrom hc).imp_right (hw c)
  · rw [Respacing.front_indent] at hc
    exact (mem_padded hc).imp_right (hw c)

/-- A template and the indented template are compared by what their literals hold. -/
def Text.Respacing.chars : (Respacing.indent w hw).Comparison where
  place _ _ := True
  nodes nodes nodes' := ∀ c ∈ Node.chars nodes', c ∈ Node.chars nodes ∨ isPad c = true
  place_advanceAll _ _ := trivial
  nodes_ofText h c hc := by
    rw [Node.chars_ofText] at hc ⊢
    exact mem_of_writes hw h hc
  nodes_fuse ha hb c hc := by
    rw [Node.chars_fuse, List.mem_append] at hc ⊢
    rcases hc with hc | hc
    · exact (ha c hc).imp_left .inl
    · exact (hb c hc).imp_left .inr
  nodes_segment seg fresh c hc := by
    rw [Segment.nodes, seg.tag_respaced] at hc
    cases htag : seg.tag with
    | _ =>
      rw [htag] at hc
      cases hc
  nodes_ofSection inverted name d hbody _ c hc := by
    rw [Node.chars_ofSection] at hc ⊢
    exact hbody c hc

end Indented

/-- An indented template that can be read holds what the template does: the tags are the same, and no more is added to its
literals than padding. -/
theorem contents_of_indented {w : String} (hw : Padding w) {d : Delimiters} {s : String} {nodes' : List Node}
    (h : parse d (indentLines w s) = .ok nodes') :
    ∃ nodes, parse d s = .ok nodes ∧ Node.bare nodes' = Node.bare nodes ∧
      ∀ c ∈ Node.chars nodes', c ∈ Node.chars nodes ∨ isPad c = true := by
  have hpad : ∀ c ∈ w.toList, isPad c = true := hw
  have hshape := (Respacing.shape hpad).parse rfl d (s := s) fun _ _ => trivial
  have hchars := (Respacing.chars hpad).parse trivial d (s := s) fun _ _ => trivial
  rw [Respacing.text_indent, ← indentLines, h] at hshape hchars
  cases hread : parse d s with
  | ok nodes =>
    rw [hread] at hshape hchars
    exact ⟨nodes, rfl, hshape, hchars⟩
  | error e =>
    rw [hread] at hshape
    exact False.elim hshape

end Stencil
