import Stencil.Proofs.Outline
import Stencil.Proofs.Reach

/-!
# Templates without their comments

`Node.stripped` is what is left of a template without comments and without the raw texts of its blocks, where literals that a
comment kept apart are one. Reading does not look back at what has been read, so states that are the same without it read the
same from there on (`Scan.run_of_stripped`).
-/

namespace Stencil

open Text

namespace Node

mutual
/-- A node without comments and raw texts. Of a comment nothing is left. -/
def strippedNode : Node → List Node
  | literal text => [literal text]
  | interpolation name escaped => [interpolation name escaped]
  | block name body _ d => [block name (stripped body) "" d]
  | inverted name body => [inverted name (stripped body)]
  | inclusion name indent => [inclusion name indent]
  | comment => []
/-- A list of nodes without comments and raw texts, where literals that meet become one. -/
def stripped : List Node → List Node
  | [] => []
  | node :: nodes => fuse (strippedNode node) (stripped nodes)
end

@[simp] theorem stripped_nil : stripped [] = [] := rfl

theorem stripped_cons (node : Node) (nodes : List Node) :
    stripped (node :: nodes) = fuse (strippedNode node) (stripped nodes) := rfl

theorem stripped_singleton (node : Node) : stripped [node] = strippedNode node := by
  rw [stripped_cons, stripped_nil, fuse_nil_right]

theorem stripped_fuse (a b : List Node) : stripped (fuse a b) = fuse (stripped a) (stripped b) := by
  fun_induction fuse a b with
  | case1 b => rfl
  | case2 x y b =>
    rw [stripped_cons, stripped_cons, stripped_cons, stripped_nil, fuse_nil_right, ← fuse_assoc]
    rfl
  | case3 node a b _ ih => rw [stripped_cons, ih, stripped_cons, fuse_assoc]

theorem stripped_append_comment (nodes : List Node) : stripped (nodes ++ [comment]) = stripped nodes := by
  have hcomment : ∀ text, comment ≠ literal text := fun _ => nofun
  rw [append_singleton_eq_fuse hcomment, stripped_fuse, stripped_singleton]
  exact fuse_nil_right _

theorem stripped_ofSection (inverted : Bool) (name : String) {body body' : List Node} (h : stripped body' = stripped body)
    (raw raw' : List Char) (d : Delimiters) :
    stripped [ofSection inverted name body' raw' d] = stripped [ofSection inverted name body raw d] := by
  rw [stripped_singleton, stripped_singleton]
  cases inverted with
  | true => simp only [ofSection, strippedNode, h, if_true]
  | false => simp only [ofSection, strippedNode, h, Bool.false_eq_true, if_false]

end Node

def OpenSection.stripped (o : OpenSection) : OpenSection :=
  { o with position := .start, start := [], outer := Node.stripped o.outer }

namespace Scan

variable {scan scan' next : Scan} {seg : Segment} {s rest : List Char} {nodes : List Node}

/-- A state without the places it has come by, and without comments and raw texts. -/
def stripped (scan : Scan) : Scan :=
  { scan with position := .start, opened := scan.opened.map OpenSection.stripped, nodes := Node.stripped scan.nodes }

theorem stripped_eq_iff : scan'.stripped = scan.stripped ↔ scan'.fresh = scan.fresh ∧ scan'.delimiters = scan.delimiters ∧
    scan'.opened.map OpenSection.stripped = scan.opened.map OpenSection.stripped ∧
      Node.stripped scan'.nodes = Node.stripped scan.nodes := by
  simp [stripped]

theorem stripped_pass (h : scan'.stripped = scan.stripped) (seg : Segment) :
    (scan'.pass seg).stripped = (scan.pass seg).stripped := by
  obtain ⟨hfresh, hdelimiters, hopened, hnodes⟩ := stripped_eq_iff.mp h
  refine stripped_eq_iff.mpr ⟨?_, hdelimiters, hopened, ?_⟩
  · simp only [pass, hfresh]
  · simp only [pass, Node.stripped_fuse, hnodes]

/-- A tag that is taken in is so in any state that is the same without comments, and leads to such a state again. -/
theorem take_of_stripped (h : scan'.stripped = scan.stripped) (htake : scan.take seg rest = .ok next) (rest' : List Char) :
    ∃ next', scan'.take seg rest' = .ok next' ∧ next'.stripped = next.stripped := by
  obtain ⟨hfresh, hdelimiters, hopened, hnodes⟩ := stripped_eq_iff.mp (stripped_pass h seg)
  cases takes_of_take htake with
  | plain hplain =>
    refine ⟨_, Descent.take_of_plain scan' rest' hplain, stripped_eq_iff.mpr ⟨hfresh, ?_, hopened, ?_⟩⟩
    · exact congrArg seg.tag.inForce hdelimiters
    · rw [Descent.append_nodes_eq_fuse, Descent.append_nodes_eq_fuse, Node.stripped_fuse, Node.stripped_fuse, hnodes]
  | @opening inverted name htag hlevel =>
    have hlength : scan'.opened.length = scan.opened.length := by
      have hlengths := congrArg List.length hopened
      rwa [List.length_map, List.length_map] at hlengths
    have hlevel' : ¬ maxOpenSections ≤ (scan'.pass seg).opened.length := by
      change ¬ maxOpenSections ≤ scan'.opened.length
      omega
    have htake' : scan'.take seg rest' = .ok { scan'.pass seg with
        opened := ⟨name, inverted, scan'.position.advanceAll (seg.text ++ seg.indent), rest', scan'.delimiters,
          (scan'.pass seg).nodes⟩ :: scan'.opened
        nodes := [] } := by
      rw [take, htag]
      exact if_neg hlevel'
    refine ⟨_, htake', stripped_eq_iff.mpr ⟨hfresh, hdelimiters, ?_, rfl⟩⟩
    change scan'.opened.map OpenSection.stripped = scan.opened.map OpenSection.stripped at hopened
    change scan'.delimiters = scan.delimiters at hdelimiters
    simp only [List.map_cons, OpenSection.stripped, hopened, hdelimiters, hnodes]
  | @closing innermost opened htag hsome =>
    change scan'.opened.map OpenSection.stripped = scan.opened.map OpenSection.stripped at hopened
    rw [hsome, List.map_cons] at hopened
    obtain ⟨innermost', opened', hsome', hinnermost, hrest⟩ := List.map_eq_cons_iff.mp hopened
    obtain ⟨hname, hinverted, -, -, hforce, houter⟩ := OpenSection.mk.inj hinnermost
    have htake' : scan'.take seg rest' = .ok { scan'.pass seg with
        opened := opened'
        delimiters := innermost'.delimiters
        nodes := innermost'.outer ++ [innermost'.close (scan'.pass seg).nodes (seg.restAfterText rest')] } := by
      have hopened' : (scan'.pass seg).opened = innermost' :: opened' := hsome'
      rw [take, htag]
      simp only [hopened']
      exact if_pos hname
    refine ⟨_, htake', stripped_eq_iff.mpr ⟨hfresh, hforce, hrest, ?_⟩⟩
    have hnode (o : OpenSection) (body : List Node) (stop : List Char) : ∀ text, o.close body stop ≠ .literal text :=
      Node.ofSection_ne_literal o.inverted o.name body (between o.start stop) o.delimiters
    rw [Node.append_singleton_eq_fuse (hnode _ _ _), Node.append_singleton_eq_fuse (hnode _ _ _), Node.stripped_fuse,
      Node.stripped_fuse, houter]
    have hclosed := Node.stripped_ofSection innermost.inverted innermost.name hnodes
      (between innermost.start (seg.restAfterText rest)) (between innermost'.start (seg.restAfterText rest'))
      innermost.delimiters
    congr 1
    change Node.stripped [Node.ofSection innermost'.inverted innermost'.name _ _ innermost'.delimiters] = _
    rw [hname, hinverted, hforce]
    exact hclosed

/-- States that are the same without comments read the same, but for comments. -/
theorem run_of_stripped (h : scan'.stripped = scan.stripped) (hrun : scan.run s = .ok nodes) :
    ∃ nodes', scan'.run s = .ok nodes' ∧ Node.stripped nodes' = Node.stripped nodes := by
  induction hn : s.length using Nat.strongRecOn generalizing scan scan' s with
  | ind n ih =>
    obtain ⟨hfresh, hdelimiters, hopened, hnodes⟩ := stripped_eq_iff.mp h
    cases run_eq_ok_iff.mp hrun with
    | done hnext hfinish =>
      rw [finish] at hfinish
      cases hnone : scan.opened with
      | cons innermost opened =>
        rw [hnone] at hfinish
        cases hfinish
      | nil =>
        rw [hnone] at hfinish hopened
        obtain rfl := Except.ok.inj hfinish
        refine ⟨Node.fuse scan'.nodes (Node.ofText s), run_eq_ok_iff.mpr (.done ?_ ?_), ?_⟩
        · rw [hfresh, hdelimiters, hnext]
        · rw [finish, List.map_eq_nil_iff.mp hopened]
        · rw [Node.stripped_fuse, Node.stripped_fuse, hnodes]
    | @past next seg rest hnext htake hrest =>
      have hlt : rest.length < n := hn ▸ Segment.length_rest_lt hnext
      obtain ⟨next', htake', hstripped⟩ := take_of_stripped h htake rest
      obtain ⟨nodes', hrest', hsame⟩ := ih rest.length hlt hstripped hrest rfl
      refine ⟨nodes', run_eq_ok_iff.mpr (.past ?_ htake' hrest'), hsame⟩
      rw [hfresh, hdelimiters, hnext]

end Scan
end Stencil
