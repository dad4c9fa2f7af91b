import Stencil.Proofs.Append
import Stencil.Proofs.Grammar
import Stencil.Proofs.Outside
import Stencil.Proofs.Render.Outcome
import Stencil.Proofs.Render.Stripped

/-!
# Lines of comment

A comment on a line of its own can be put in wherever a line starts outside of tags, within any sections. What is read in front
of it is read as before, but that raw texts become longer; the comment drops its own line and no more; and what follows is
read from a state that is the same as without the comment. So the template stays what it is without its comments, and over
data without lambdas that take an argument it is rendered as before (`parse_commentLine`).
-/

namespace Stencil

open Text

/-- The line of a comment, where the delimiters `e` are in force. -/
def commentLine (e : Delimiters) (x : String) : String := e.opener ++ "!" ++ x ++ e.closer ++ "\n"

/-- A comment that is alone on its line, and the text in front of the line. -/
def Segment.comment (e : Delimiters) (text x : List Char) : Segment where
  text := text
  indent := []
  tag := .comment
  spelling := e.opener.toList ++ '!' :: (x ++ e.closer.toList)
  trailing := ['\n']
  alone := true

theorem Segment.source_comment (e : Delimiters) (text : List Char) (x : String) :
    (comment e text x.toList).source = text ++ (commentLine e x).toList := by
  simp [source, comment, commentLine]

theorem Segment.comment_fits {e : Delimiters} {text x : List Char} {fresh : Bool} (hclear : Clear e.closer.toList x)
    (hcloser : e.closer.toList.head? ≠ some '!') (huntagged : ¬ e.opener.toList <:+: text)
    (hline : ∀ c ∈ text.getLast?, c = '\n') (hfresh : startsLine fresh text = true) (rest : List Char) :
    (comment e text x).Fits e fresh rest := by
  have hforeign : ∀ c ∈ text.getLast?, c ∉ e.opener.toList := by
    intro c hc hmem
    have hblank := e.not_isBlank_of_mem_opener c hmem
    rw [hline c hc] at hblank
    cases hblank
  have hbefore : Clear e.opener.toList (text ++ []) := by
    rw [List.append_nil]
    exact clear_of_not_isInfix huntagged hforeign
  have hform : Tag.Form.ofSigil '!' = some ⟨[], fun _ => .ok .comment⟩ := rfl
  have hinside : Tag.Inside e .comment ('!' :: (x ++ e.closer.toList)) :=
    .of_sigil (List.forall_mem_nil _) hform hcloser hclear rfl
  refine ⟨⟨hbefore, _, rfl, hinside⟩, rfl, hfresh, ?_, [], ['\n'], rfl, ?_, .feed rest⟩
  · exact List.forall_mem_nil _
  · exact List.forall_mem_nil _

namespace Scan

variable {d : Delimiters} {front back text : List Char} {scan scan' : Scan} {nodes : List Node}

/-- The state behind text without a tag. -/
def absorb (scan : Scan) (s : List Char) : Scan :=
  { scan with
    position := scan.position.advanceAll s
    fresh := Segment.startsLine scan.fresh s
    nodes := Node.fuse scan.nodes (Node.ofText s) }

theorem pass_behind (scan : Scan) (seg : Segment) (s : List Char) : scan.pass (seg.behind s) = (scan.absorb s).pass seg := by
  have hnodes : Node.fuse scan.nodes (Node.ofText (s ++ seg.text)) =
      Node.fuse (Node.fuse scan.nodes (Node.ofText s)) (Node.ofText seg.text) := by
    rw [Node.ofText_append, Node.fuse_assoc]
  simp only [pass, absorb, Segment.source_behind, Position.advanceAll_append, Segment.startsLine_append]
  rw [← hnodes]
  rfl

theorem take_behind (scan : Scan) (seg : Segment) (s rest : List Char) :
    scan.take (seg.behind s) rest = (scan.absorb s).take seg rest := by
  have hposition : scan.position.advanceAll ((seg.behind s).text ++ (seg.behind s).indent) =
      (scan.absorb s).position.advanceAll (seg.text ++ seg.indent) := by
    rw [absorb, ← Position.advanceAll_append, ← List.append_assoc]
    rfl
  simp only [take, hposition, pass_behind]
  rfl

/-- Lines without a tag can be taken in before the tags behind them are looked for. -/
theorem run_append {s : List Char} (huntagged : ¬ scan.delimiters.opener.toList <:+: s)
    (hs : ∀ c ∈ s.getLast?, isLineEnd c = true) (t : List Char) : scan.run (s ++ t) = (scan.absorb s).run t := by
  have hnext : Segment.next (scan.absorb s).delimiters (scan.absorb s).fresh t =
      Segment.next scan.delimiters (Segment.startsLine scan.fresh s) t := rfl
  rw [Descent.run_eq, Descent.run_eq, Segment.next_append huntagged hs, hnext]
  cases Segment.next scan.delimiters (Segment.startsLine scan.fresh s) t with
  | error parts =>
    simp only [Segment.readBehind, absorb, Position.advanceAll_append]
  | ok found =>
    cases found with
    | none =>
      simp only [Segment.readBehind, finish, absorb, Node.ofText_append, Node.fuse_assoc]
    | some parts =>
      simp only [Segment.readBehind, take_behind]

/-- Up to the start of a line, other text behind it makes no difference but in raw texts. -/
theorem Reaches.exchange (h : Reaches d (front ++ back) scan (text ++ back)) (hline : ∀ c ∈ front.getLast?, c = '\n')
    (back' : List Char) :
    ∃ scan', Reaches d (front ++ back') scan' (text ++ back') ∧ scan'.stripped = scan.stripped := by
  generalize hsource : front ++ back = source at h
  generalize hrest : text ++ back = rest at h
  induction h generalizing text with
  | start =>
    obtain rfl := List.append_cancel_right (hrest.trans hsource.symm)
    exact ⟨_, .start, rfl⟩
  | @past scan next seg s rest hreach hnext htake ih =>
    subst hsource hrest
    obtain ⟨rfl, hfits⟩ := Segment.next_eq_some_iff.mp hnext
    obtain ⟨scan', hreach', hstripped⟩ := ih (List.append_assoc seg.source text back)
    obtain ⟨hfresh, hdelimiters, -, -⟩ := stripped_eq_iff.mp hstripped
    rw [← List.append_assoc] at hreach
    have hends := hreach.ends_line hline
    have hfits' : seg.Fits scan.delimiters scan.fresh (text ++ back') := by
      by_cases htext : text = []
      · -- The segment ends where the line starts.
        subst htext
        rw [List.append_nil] at hends
        refine hfits.of_lineEnd (fun c hc => ?_) fun _ hreturn => ?_
        · rw [hends c hc]
          rfl
        · cases hends _ hreturn
      · have hlast := List.getLast?_eq_some_getLast htext
        have hfeed := hends (text.getLast htext) (by rw [List.getLast?_append, hlast]; rfl)
        exact hfits.append ⟨_, List.getLast_mem htext, by rw [hfeed]; rfl⟩ back'
    obtain ⟨next', htake', hnext'⟩ := take_of_stripped hstripped htake (text ++ back')
    rw [List.append_assoc] at hreach'
    refine ⟨next', hreach'.past ?_ htake', hnext'⟩
    rw [hfresh, hdelimiters]
    exact Segment.next_eq_some_iff.mpr ⟨rfl, hfits'⟩

/-- A line of comment is read where a line starts outside of tags, and leads to the state that the place has without it. -/
theorem Reaches.past_comment {x : String} (h : Reaches d (front ++ back) scan (text ++ back))
    (hline : ∀ c ∈ front.getLast?, c = '\n') (huntagged : ¬ scan.delimiters.opener.toList <:+: text)
    (hclear : Clear scan.delimiters.closer.toList x.toList) (hcloser : scan.delimiters.closer.toList.head? ≠ some '!') :
    ∃ scan', Reaches d (front ++ ((commentLine scan.delimiters x).toList ++ back)) scan' back ∧
      scan'.stripped = (scan.absorb text).stripped := by
  obtain ⟨scan', hreach, hstripped⟩ := h.exchange hline ((commentLine scan.delimiters x).toList ++ back)
  obtain ⟨hfresh, hdelimiters, hopened, hnodes⟩ := stripped_eq_iff.mp hstripped
  have hends := h.ends_line hline
  obtain ⟨before, rfl, hconsumed⟩ := h.exists_front
  have hstarts : Segment.startsLine scan.fresh text = true := by
    rw [hconsumed.fresh_eq, ← Segment.startsLine_append, Segment.startsLine]
    cases hlast : (before ++ text).getLast? with
    | none => rfl
    | some c =>
      rw [hline c hlast]
      rfl
  have hfits := Segment.comment_fits hclear hcloser huntagged hends hstarts back
  have hsource : text ++ ((commentLine scan.delimiters x).toList ++ back) =
      (Segment.comment scan.delimiters text x.toList).source ++ back := by
    rw [Segment.source_comment, List.append_assoc]
  have hnext : Segment.next scan'.delimiters scan'.fresh (text ++ ((commentLine scan.delimiters x).toList ++ back)) =
      .ok (some (Segment.comment scan.delimiters text x.toList, back)) := by
    rw [hfresh, hdelimiters]
    exact Segment.next_eq_some_iff.mpr ⟨hsource, hfits⟩
  refine ⟨_, hreach.past hnext rfl, stripped_eq_iff.mpr ⟨?_, hdelimiters, hopened, ?_⟩⟩
  · change Segment.startsLine scan'.fresh (Segment.comment scan.delimiters text x.toList).source =
      Segment.startsLine scan.fresh text
    rw [hstarts, Segment.startsLine, Segment.source, List.getLast?_append]
    rfl
  · change Node.stripped (Node.fuse scan'.nodes (Node.ofText text) ++ [.comment]) =
      Node.stripped (Node.fuse scan.nodes (Node.ofText text))
    rw [Node.stripped_append_comment, Node.stripped_fuse, Node.stripped_fuse, hnodes]

end Scan

/-- A line of comment can be put in at the start of any line outside of tags. The template stays the same but for comments and
raw texts, and is rendered to the same over data without lambdas that take an argument. -/
theorem parse_commentLine {d e : Delimiters} {front back x : String} {nodes : List Node}
    (hparse : parse d (front ++ back) = .ok nodes) (hline : front = "" ∨ front.toList.getLast? = some '\n')
    (hout : ¬ Scan.InTag d front.toList back.toList) (hforce : Scan.InForce d front.toList back.toList e)
    (hclear : Clear e.closer.toList x.toList) (hcloser : e.closer.toList.head? ≠ some '!') :
    ∃ nodes', parse d (front ++ commentLine e x ++ back) = .ok nodes' ∧ Node.stripped nodes' = Node.stripped nodes ∧
      ∀ (σ : Type) (r : Renderer) (host : Host σ) (memory : σ) (data : Value), r.settings.delimiters = d →
        data.AllLambdas (·.arity = .nullary) →
          r.renderValue host memory (front ++ commentLine e x ++ back) data =
            r.renderValue host memory (front ++ back) data := by
  have hends : ∀ c ∈ front.toList.getLast?, c = '\n' := by
    intro c hc
    rcases hline with rfl | hfeed
    · cases hc
    · exact Option.some.inj ((Option.mem_def.mp hc).symm.trans hfeed)
  have hrun : (Scan.start d).run (front.toList ++ back.toList) = .ok nodes := by
    rw [← String.toList_append]
    exact hparse
  obtain ⟨scan, text, hreach, rfl, huntagged⟩ := (Scan.outside_iff hrun hends).mp ⟨hout, hforce⟩
  obtain ⟨scan', hreach', hstripped⟩ := hreach.past_comment hends huntagged hclear hcloser
  have hlast : ∀ c ∈ text.getLast?, isLineEnd c = true := by
    intro c hc
    rw [hreach.ends_line hends c hc]
    rfl
  have hbehind : (scan.absorb text).run back.toList = .ok nodes := by
    rw [← Scan.run_append huntagged hlast, ← hreach.run_eq, hrun]
  obtain ⟨nodes', hrun', hnodes⟩ := Scan.run_of_stripped hstripped hbehind
  have hparse' : parse d (front ++ commentLine scan.delimiters x ++ back) = .ok nodes' := by
    rw [parse, String.toList_append, String.toList_append, List.append_assoc, hreach'.run_eq, hrun']
  refine ⟨nodes', hparse', hnodes, ?_⟩
  rintro σ r host memory data rfl hdata
  rw [Renderer.renderValue, Renderer.renderValue, Renderer.renderContext_of_parse hparse,
    Renderer.renderContext_of_parse hparse']
  exact r.renderNodes_stripped hnodes host memory (Context.All.ofValue hdata)

/-- A comment goes between the lines of a section within a section, where other delimiters are in force than outside. It may
hold opening delimiters and lines of its own. -/
theorem parse_commentLine_of_inner :
    let e : Delimiters :=
      have h := Delimiters.isDelimiter_of_fault?_eq_none (show Delimiters.fault? "<" ">" = none by decide)
      ⟨"<", ">", h.1, h.2⟩
    let front := "\x7b\x7b#a\x7d\x7d\n\x7b\x7b=< >=\x7d\x7d\n<^b>\n  text\n"
    let back := "  </b>\n</a>\n\x7b\x7bk\x7d\x7d"
    let nodes : List Node :=
      [.block "a" [.inverted "b" [.literal "  text\n"]] "\x7b\x7b=< >=\x7d\x7d\n<^b>\n  text\n  </b>\n" .standard,
        .interpolation "k" true]
    let x := " one <\n two "
    let host : Host Unit := ⟨fun _ _ memory => (.null, memory), none⟩
    let data : Value := .map [("a", .bool true), ("k", .string "v")]
    parse .standard (front ++ back) = .ok nodes ∧ front.toList.getLast? = some '\n' ∧
      ¬ Scan.InTag .standard front.toList back.toList ∧ Scan.InForce .standard front.toList back.toList e ∧
      Clear e.closer.toList x.toList ∧ e.closer.toList.head? ≠ some '!' ∧ data.AllLambdas (·.arity = .nullary) ∧
      ∃ nodes', parse .standard (front ++ commentLine e x ++ back) = .ok nodes' ∧
        Node.stripped nodes' = Node.stripped nodes ∧
        (Renderer.standard.renderValue host () (front ++ commentLine e x ++ back) data).result = .ok "  text\nv" := by
  intro e front back nodes x host data
  have hparse : parse .standard (front ++ back) = .ok nodes := by cbv
  have hline : front.toList.getLast? = some '\n' := by cbv
  have hends : ∀ c ∈ front.toList.getLast?, c = '\n' := by
    rw [hline]
    exact fun c hc => (Option.some.inj hc).symm
  have hrun : (Scan.start .standard).run (front.toList ++ back.toList) = .ok nodes := by
    rw [← String.toList_append]
    exact hparse
  -- Three tags stand in front of the place, and then a line of text.
  have hbehind : (Scan.behind? .standard (front.toList ++ back.toList) 3).map (Prod.map Scan.delimiters id) =
      some (e, "  text\n".toList ++ back.toList) := by cbv
  obtain ⟨⟨scan, s⟩, hscan, hparts⟩ := Option.map_eq_some_iff.mp hbehind
  obtain ⟨hdelimiters, rfl⟩ := Prod.mk.inj hparts
  have huntagged : ¬ e.opener.toList <:+: "  text\n".toList := by decide
  obtain ⟨hout, hforce⟩ :=
    (Scan.outside_iff hrun hends).mpr ⟨scan, _, Scan.reaches_iff_behind?.mpr ⟨3, hscan⟩, hdelimiters, huntagged⟩
  have hclear : Clear ">".toList x.toList := clear_of_not_mem (show '>' ∉ x.toList by decide) []
  have hcloser : e.closer.toList.head? ≠ some '!' := by decide
  have hdata : data.AllLambdas (·.arity = .nullary) := by
    refine .map fun entry hentry => ?_
    simp only [List.mem_cons, List.not_mem_nil, or_false] at hentry
    rcases hentry with rfl | rfl
    · exact .bool true
    · exact .string "v"
  obtain ⟨nodes', hparse', hstripped, hrender⟩ := parse_commentLine hparse (.inr hline) hout hforce hclear hcloser
  refine ⟨hparse, hline, hout, hforce, hclear, hcloser, hdata, nodes', hparse', hstripped, ?_⟩
  rw [hrender Unit .standard host () data rfl hdata, Renderer.renderValue, Renderer.renderContext_of_parse hparse]
  cbv

end Stencil
