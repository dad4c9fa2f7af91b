import Stencil.Node

/-!
# Lists of nodes

Lists of nodes form a monoid under `Node.fuse`, and texts are mapped into it by `Node.ofText`. `Node.collect` goes through a
list of nodes as they are written; what it gathers does not show where literals were made one.
-/

namespace Stencil.Node

def ofSection (inverted : Bool) (name : String) (body : List Node) (raw : List Char) (d : Delimiters) : Node :=
  if inverted then .inverted name body else .block name body (String.ofList raw) d

theorem ofSection_ne_literal (inverted : Bool) (name : String) (body : List Node) (raw : List Char) (d : Delimiters)
    (text : String) : ofSection inverted name body raw d ≠ literal text := by
  cases inverted with
  | true => exact Node.noConfusion
  | false => exact Node.noConfusion

theorem fuse_cons {before : List Node} (hbefore : before ≠ []) (node : Node) (after : List Node) :
    fuse (node :: before) after = node :: fuse before after := by
  cases before with
  | nil => exact absurd rfl hbefore
  | cons node' before => cases node <;> rfl

theorem fuse_cons_ne_nil (node : Node) (before after : List Node) : fuse (node :: before) after ≠ [] := by
  cases before with
  | nil => cases node <;> cases after with
    | nil => simp
    | cons first after => cases first <;> simp [fuse]
  | cons node' before =>
    rw [fuse_cons (List.cons_ne_nil _ _)]
    exact List.cons_ne_nil _ _

theorem fuse_literals (a b : String) (after : List Node) :
    fuse [literal a] (literal b :: after) = literal (a ++ b) :: after := rfl

/-- A node in front of another one that is no literal stays as it is. -/
theorem fuse_of_not_literal {node : Node} (hnode : ∀ text, node ≠ literal text) (before after : List Node) :
    fuse before (node :: after) = before ++ node :: after := by
  induction before with
  | nil => rfl
  | cons first before ih =>
    cases before with
    | nil =>
      cases first with
      | literal a =>
        cases node with
        | literal b => exact absurd rfl (hnode b)
        | _ => rfl
      | _ => rfl
    | cons second before => rw [fuse_cons (List.cons_ne_nil _ _), ih]; rfl

theorem append_singleton_eq_fuse {node : Node} (hnode : ∀ text, node ≠ literal text) (before : List Node) :
    before ++ [node] = fuse before [node] := (fuse_of_not_literal hnode before []).symm

private theorem fuse_fuse_singleton (node : Node) (b c : List Node) :
    fuse (fuse [node] b) c = fuse [node] (fuse b c) := by
  cases b with
  | nil => rw [fuse_nil_right, fuse_nil_left]
  | cons first b =>
    cases node with
    | literal x =>
      cases first with
      | literal y =>
        rw [fuse_literals]
        cases b with
        | nil =>
          cases c with
          | nil => rfl
          | cons third c =>
            cases third with
            | literal z => simp only [fuse_literals, String.append_assoc]
            | _ => rfl
        | cons second b =>
          rw [fuse_cons (List.cons_ne_nil _ _), fuse_cons (List.cons_ne_nil _ _), fuse_literals]
      | _ => cases b <;> rfl
    | _ => cases b <;> rfl

theorem fuse_assoc (a b c : List Node) : fuse (fuse a b) c = fuse a (fuse b c) := by
  induction a with
  | nil => rfl
  | cons node a ih =>
    cases a with
    | nil => exact fuse_fuse_singleton node b c
    | cons node' a =>
      rw [fuse_cons (List.cons_ne_nil _ _), fuse_cons (fuse_cons_ne_nil node' a b), ih,
        ← fuse_cons (List.cons_ne_nil _ _)]

@[simp] theorem ofText_nil : ofText [] = [] := rfl

theorem ofText_append (a b : List Char) : ofText (a ++ b) = fuse (ofText a) (ofText b) := by
  cases a with
  | nil => rfl
  | cons c a =>
    cases b with
    | nil => rw [List.append_nil, ofText_nil, fuse_nil_right]
    | cons e b =>
      change [literal (String.ofList ((c :: a) ++ (e :: b)))] = [literal (String.ofList (c :: a) ++ String.ofList (e :: b))]
      rw [String.ofList_append]

variable {α : Type}

mutual
/-- What a node gives when it is entered, what the nodes of its body give, and what it gives when it is left. -/
def collectNode (enter leave : Node → List α) : Node → List α
  | block name body raw d =>
    enter (block name body raw d) ++ collect enter leave body ++ leave (block name body raw d)
  | inverted name body => enter (inverted name body) ++ collect enter leave body ++ leave (inverted name body)
  | literal text => enter (literal text)
  | interpolation name escaped => enter (interpolation name escaped)
  | inclusion name indent => enter (inclusion name indent)
  | comment => enter comment
/-- What the nodes of a list give, in the order in which they are written. -/
def collect (enter leave : Node → List α) : List Node → List α
  | [] => []
  | node :: nodes => collectNode enter leave node ++ collect enter leave nodes
end

section Collect

variable {enter leave : Node → List α}

@[simp] theorem collect_nil : collect enter leave [] = [] := rfl

@[simp] theorem collect_cons (node : Node) (nodes : List Node) :
    collect enter leave (node :: nodes) = collectNode enter leave node ++ collect enter leave nodes := rfl

variable (hmerge : ∀ a b, enter (literal (a ++ b)) = enter (literal a) ++ enter (literal b))

include hmerge

theorem collect_fuse (a b : List Node) :
    collect enter leave (fuse a b) = collect enter leave a ++ collect enter leave b := by
  fun_induction fuse a b with
  | case1 b => rfl
  | case2 x y b => simp only [collect_cons, collectNode, collect_nil, List.append_nil, hmerge, List.append_assoc]
  | case3 node a b _ ih => rw [collect_cons, ih, collect_cons, List.append_assoc]

theorem collect_ofText (text : List Char) :
    collect enter leave (ofText text) = enter (literal (String.ofList text)) := by
  cases text with
  | nil =>
    have hempty := hmerge "" ""
    rw [String.append_empty, List.self_eq_append_left] at hempty
    exact hempty.symm
  | cons c text => simp [ofText, collectNode]

end Collect

end Stencil.Node
