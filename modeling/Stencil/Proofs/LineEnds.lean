import Stencil.Proofs.SideBySide
import Stencil.Proofs.Text.Indent

/-!
# Line ends

Lines may end with a line feed, with a carriage return, or with both. Which of them a template uses shows in its texts and
nowhere else: in its literals, in what blocks keep of it and in what a fault quotes (`withLineEnd_invariant`). A carriage
return takes up a column, but a line feed behind it starts another line, so with both every fault is where it was.
-/

namespace Stencil

open Text

namespace Text

/-- What stands in place of a character if lines end with `e` and not with a line feed. -/
def lineEndFor (e : List Char) (c : Char) : List Char := if c = '\n' then e else [c]

/-- The text with `e` in place of every line feed. -/
def withLineEnd (e s : String) : String := String.ofList (s.toList.flatMap (lineEndFor e.toList))

theorem lineEndFor_ne_nil {e : String} (he : e ≠ "") (c : Char) : lineEndFor e.toList c ≠ [] := by
  rw [lineEndFor]
  split
  · exact mt String.toList_eq_nil_iff.mp he
  · exact List.cons_ne_nil _ _

theorem respace_lineEndFor (e : List Char) (fresh : Bool) (s : List Char) :
    respace [] (lineEndFor e) fresh s = s.flatMap (lineEndFor e) := by
  induction s generalizing fresh with
  | nil => rfl
  | cons c s ih =>
    rw [respace, List.flatMap_cons, ih, ih]
    split
    · rfl
    · next hend =>
      have hfeed : c ≠ '\n' := by
        rintro rfl
        exact hend rfl
      rw [lineEndFor, if_neg hfeed, ite_self]
      rfl

theorem feed_not_mem_flatMap {e : List Char} (he : '\n' ∉ e) (s : List Char) : '\n' ∉ s.flatMap (lineEndFor e) := by
  intro hmem
  obtain ⟨c, -, hc⟩ := List.mem_flatMap.mp hmem
  rw [lineEndFor] at hc
  split at hc
  · exact he hc
  · next hfeed => exact hfeed (List.mem_singleton.mp hc).symm

theorem withLineEnd_append (e s t : String) : withLineEnd e (s ++ t) = withLineEnd e s ++ withLineEnd e t := by
  rw [withLineEnd, String.toList_append, List.flatMap_append, String.ofList_append, withLineEnd, withLineEnd]

theorem withLineEnd_ofList (e : String) (s : List Char) :
    withLineEnd e (String.ofList s) = String.ofList (s.flatMap (lineEndFor e.toList)) := by
  rw [withLineEnd, String.toList_ofList]

end Text

namespace Node

mutual
/-- A node with `e` in place of every line feed of its texts. -/
def withLineEndNode (e : String) : Node → Node
  | literal text => literal (withLineEnd e text)
  | block name body raw d => block name (withLineEnds e body) (withLineEnd e raw) d
  | inverted name body => inverted name (withLineEnds e body)
  | interpolation name escaped => interpolation name escaped
  | inclusion name indent => inclusion name indent
  | comment => comment
/-- A list of nodes with `e` in place of every line feed of their literals and of what their blocks keep. -/
def withLineEnds (e : String) : List Node → List Node
  | [] => []
  | node :: nodes => withLineEndNode e node :: withLineEnds e nodes
end

theorem withLineEnds_fuse (e : String) (a b : List Node) :
    withLineEnds e (fuse a b) = fuse (withLineEnds e a) (withLineEnds e b) := by
  fun_induction fuse a b with
  | case1 b => rfl
  | case2 x y b => simp only [withLineEnds, withLineEndNode, fuse_literals, withLineEnd_append]
  | case3 node a b hne ih =>
    rw [withLineEnds, ih, withLineEnds]
    cases a with
    | cons node' a => exact (fuse_cons (List.cons_ne_nil _ _) _ _).symm
    | nil =>
      cases node with
      | literal x =>
        cases b with
        | nil => rfl
        | cons first b =>
          cases first with
          | literal y => exact absurd rfl (hne x y b rfl rfl)
          | _ => rfl
      | _ => rfl

theorem withLineEnds_ofText {e : String} (he : e ≠ "") (s : List Char) :
    withLineEnds e (ofText s) = ofText (s.flatMap (lineEndFor e.toList)) := by
  cases s with
  | nil => rfl
  | cons c s =>
    have hne : (c :: s).flatMap (lineEndFor e.toList) ≠ [] := by
      rw [List.flatMap_cons]
      exact List.append_ne_nil_of_left_ne_nil (lineEndFor_ne_nil he c) _
    rw [ofText, ofText, if_neg (by simp), if_neg (by simpa using hne)]
    simp only [withLineEnds, withLineEndNode, withLineEnd_ofList]

theorem withLineEnds_ofSection (e : String) (inverted : Bool) (name : String) (body : List Node) (raw : List Char)
    (d : Delimiters) : withLineEnds e [ofSection inverted name body raw d] =
      [ofSection inverted name (withLineEnds e body) (raw.flatMap (lineEndFor e.toList)) d] := by
  cases inverted with
  | true => rfl
  | false => simp only [ofSection, withLineEnds, withLineEndNode, withLineEnd_ofList, Bool.false_eq_true, if_false]

end Node

section

variable {e : String} (he : e = "\r\n" ∨ e = "\r")

include he in
private theorem ne_empty : e ≠ "" := by
  rcases he with rfl | rfl
  · decide
  · decide

include he in
private theorem isLineEnd_of_mem {c : Char} (h : c ∈ e.toList) : isLineEnd c = true := by
  rcases he with rfl | rfl
  · change c ∈ ['\r', '\n'] at h
    rcases List.mem_cons.mp h with rfl | h
    · rfl
    · rw [List.mem_singleton.mp h]
      rfl
  · rw [List.mem_singleton.mp h]
    rfl

namespace Text.Respacing

/-- Line feeds written as `e`, in a text without carriage returns. -/
def lineEnds : Respacing where
  lead := []
  feed := lineEndFor e.toList
  Admits c := c ≠ '\r'
  isPad_of_mem_lead := List.forall_mem_nil _
  feed_ne_nil c _ := lineEndFor_ne_nil (ne_empty he) c
  isLineEnd_of_mem_feed c hc b hb := by
    rw [lineEndFor] at hb
    split at hb
    · exact isLineEnd_of_mem he hb
    · rwa [List.mem_singleton.mp hb]
  lineEnd brk rest h hadmits := by
    cases h with
    | ofText => exact .ofText
    | returnFeed => exact absurd rfl (hadmits '\r' List.mem_cons_self)
    | «return» => exact absurd rfl (hadmits '\r' List.mem_cons_self)
    | feed =>
      rcases he with rfl | rfl
      · exact .returnFeed _
      · refine .return ?_
        rw [respace_lineEndFor]
        intro hfeed
        exact feed_not_mem_flatMap (by decide) rest (List.mem_of_head? hfeed)

theorem text_lineEnds (fresh : Bool) (s : List Char) : (lineEnds he).text fresh s = s.flatMap (lineEndFor e.toList) :=
  respace_lineEndFor e.toList fresh s

theorem eq_of_writes_lineEnds {s s' : List Char} (h : (lineEnds he).Writes s s') : s' = s.flatMap (lineEndFor e.toList) := by
  obtain ⟨fresh, rfl | rfl⟩ := h
  · exact text_lineEnds he fresh s
  · rw [front, text_lineEnds]
    change _ ++ (if _ then [] else []) = _
    rw [ite_self, List.append_nil]

theorem quote_lineEnds : (lineEnds he).quote = withLineEnd e := by
  funext s
  rw [quote, text_lineEnds, withLineEnd]

end Text.Respacing

private theorem advanceAll_flatMap (p : Position) (s : List Char) :
    p.advanceAll (s.flatMap (lineEndFor ['\r', '\n'])) = p.advanceAll s := by
  induction s generalizing p with
  | nil => rfl
  | cons c s ih =>
    rw [List.flatMap_cons, Position.advanceAll_append, ih, Position.advanceAll_cons, lineEndFor]
    split
    · next hfeed =>
      rw [hfeed]
      rfl
    · rfl

private theorem nodes_respaced (fresh : Bool) (seg : Segment) :
    (seg.respaced (.lineEnds he) fresh).nodes = Node.withLineEnds e seg.nodes := by
  have hindent : (seg.respaced (.lineEnds he) fresh).indent = seg.indent := by
    rw [Segment.respaced]
    simp only
    split
    · rfl
    · rfl
  rw [Segment.nodes, Segment.tag_respaced, hindent, Segment.nodes]
  cases seg.tag with
  | interpolation | opening | closing | inclusion | comment | delimiters => rfl

/-- The nodes of a template are compared as they are but for line ends, and places if a line still ends with a line feed. -/
def Text.Respacing.lines : (Respacing.lineEnds he).Comparison where
  place p p' := e = "\r\n" → p' = p
  nodes nodes nodes' := nodes' = Node.withLineEnds e nodes
  place_advanceAll hplace hwrites hreturnFeed := by
    rw [eq_of_writes_lineEnds he hwrites, hplace hreturnFeed, hreturnFeed]
    exact advanceAll_flatMap _ _
  nodes_ofText hwrites := by rw [eq_of_writes_lineEnds he hwrites, Node.withLineEnds_ofText (ne_empty he)]
  nodes_fuse ha hb := by rw [ha, hb, Node.withLineEnds_fuse]
  nodes_segment seg fresh := nodes_respaced he fresh seg
  nodes_ofSection inverted name d hbody hwrites := by
    rw [hbody, eq_of_writes_lineEnds he hwrites, Node.withLineEnds_ofSection]

section Indent

variable {w : List Char} (hw : ∀ c ∈ w, isPad c = true)

include hw he

private theorem indentFrom_lineEnd (fresh : Bool) (s : List Char) :
    indentFrom w fresh (e.toList ++ s) = e.toList ++ indentFrom w true s := by
  have hlead : indentFrom w fresh e.toList = e.toList ∧ Segment.startsLine fresh e.toList = true := by
    rcases he with rfl | rfl
    · cases fresh with
      | true | false => exact ⟨rfl, rfl⟩
    · cases fresh with
      | true | false => exact ⟨rfl, rfl⟩
  rw [indentFrom_append hw, hlead.1, hlead.2]

/-- It does not matter whether lines are indented before or after their ends are written. -/
theorem indentFrom_flatMap (fresh : Bool) (s : List Char) :
    indentFrom w fresh (s.flatMap (lineEndFor e.toList)) = (indentFrom w fresh s).flatMap (lineEndFor e.toList) := by
  induction s generalizing fresh with
  | nil => rfl
  | cons c s ih =>
    rw [List.flatMap_cons, indentFrom_cons, List.flatMap_append, List.flatMap_cons, ← ih]
    by_cases hfeed : c = '\n'
    · have hend : isLineEnd c = true := by rw [hfeed]; rfl
      rw [lineEndFor, if_pos hfeed, indentFrom_lineEnd he hw, hend, Bool.not_true, Bool.and_false]
      rfl
    · have hlead : (if fresh && !isLineEnd c then w else []).flatMap (lineEndFor e.toList) =
          if fresh && !isLineEnd c then w else [] := by
        rw [← Respacing.text_lineEnds he false]
        apply Respacing.text_inline
        intro b hb
        exact not_isLineEnd_of_isPad ((Respacing.indent w hw).isPad_of_mem_start _ b hb)
      rw [lineEndFor, if_neg hfeed, hlead, List.singleton_append, indentFrom_cons]
      rfl

end Indent

end

/-- It does not matter with what a line ends: a template without carriage returns is read the same with other line ends, but for
its texts, and where each line still ends with a line feed, faults stay in place. The lines are the same to indentation as
well. -/
theorem withLineEnd_invariant {e s : String} (he : e = "\r\n" ∨ e = "\r") (hs : '\r' ∉ s.toList) (d : Delimiters) :
    (match parse d s, parse d (withLineEnd e s) with
      | .ok nodes, .ok nodes' => nodes' = Node.withLineEnds e nodes
      | .error error, .error error' =>
        error'.fault = error.fault.quoting (withLineEnd e) ∧ (e = "\r\n" → error'.position = error.position)
      | _, _ => False) ∧
    ∀ w : String, (∀ c ∈ w.toList, isPad c = true) →
      indentLines w (withLineEnd e s) = withLineEnd e (indentLines w s) := by
  constructor
  · have hadmits : ∀ c ∈ s.toList, c ≠ '\r' := by
      rintro c hc rfl
      exact hs hc
    have hparse := (Respacing.lines he).parse (fun _ => rfl) d hadmits
    rw [Respacing.text_lineEnds, ← withLineEnd] at hparse
    generalize parse d s = read at hparse ⊢
    generalize parse d (withLineEnd e s) = read' at hparse ⊢
    rw [← Respacing.quote_lineEnds he]
    cases read with
    | ok nodes =>
      cases read' with
      | ok nodes' | error error' => exact hparse
    | error error =>
      cases read' with
      | ok nodes' | error error' => exact hparse
  · intro w hw
    rw [indentLines, indentLines, withLineEnd_ofList, withLineEnd, String.toList_ofList, indentFrom_flatMap he hw]

/-- A block that is alone on its lines, and keeps a line. -/
theorem withLineEnd_invariant_of_block :
    ("\r\n" = "\r\n" ∨ "\r\n" = "\r") ∧ '\r' ∉ "\x7b\x7b#a\x7d\x7d\nb\n\x7b\x7b/a\x7d\x7d\n".toList ∧
      (match parse .standard "\x7b\x7b#a\x7d\x7d\nb\n\x7b\x7b/a\x7d\x7d\n",
          parse .standard (withLineEnd "\r\n" "\x7b\x7b#a\x7d\x7d\nb\n\x7b\x7b/a\x7d\x7d\n") with
        | .ok nodes, .ok nodes' => nodes' = Node.withLineEnds "\r\n" nodes
        | .error error, .error error' =>
          error'.fault = error.fault.quoting (withLineEnd "\r\n") ∧ ("\r\n" = "\r\n" → error'.position = error.position)
        | _, _ => False) ∧
      ∀ w : String, (∀ c ∈ w.toList, isPad c = true) →
        indentLines w (withLineEnd "\r\n" "\x7b\x7b#a\x7d\x7d\nb\n\x7b\x7b/a\x7d\x7d\n") =
          withLineEnd "\r\n" (indentLines w "\x7b\x7b#a\x7d\x7d\nb\n\x7b\x7b/a\x7d\x7d\n") :=
  ⟨.inl rfl, by decide, withLineEnd_invariant (.inl rfl) (by decide) .standard⟩

end Stencil
