import Stencil.Proofs.Render.Run
import Stencil.Proofs.Seam
import Stencil.Render.Basic

/-!
# The text of a section

A lambda is given the text of its section, and its answer is read with the delimiters of the section. If the text is settled
at both ends, reading it gives the body of the section again (`Fits.parse_eq`): a lambda that answers with the text it is
given writes the body. At an end that is not settled, padding stands beside a tag that shares its line in the template, and may
have a line to itself in the text alone.
-/

namespace Stencil

open Text

namespace Node

def blockOf : Node → List Node
  | block name body raw d => [.block name body raw d]
  | _ => []

/-- The sections of a list of nodes that are not inverted, those in bodies included. -/
def blocks (nodes : List Node) : List Node := collect blockOf (fun _ => []) nodes

end Node

namespace Outline

/-- A section of a template that is not inverted. -/
structure Block where
  name : String
  /-- The delimiters in force at the opening tag. -/
  delimiters : Delimiters
  opening : Segment
  body : Outline
  closing : Segment

namespace Block

def raw (b : Block) : List Char := b.body.source ++ b.closing.text

def nodes (b : Block) : List Node := Node.fuse (b.body.nodes b.delimiters) (Node.ofText b.closing.text)

def node (b : Block) : Node := .block b.name b.nodes (String.ofList b.raw) b.delimiters

/-- The opening tag is alone on its line, or the text is empty or begins with literal text and not with padding. -/
def LeftSettled (b : Block) : Prop :=
  b.opening.alone = true ∨ b.raw = [] ∨ ∃ c ∈ (b.body.lead b.closing.text).head?, isPad c = false

/-- The closing tag is alone on its line, or the text is empty or ends with literal text and not with padding. -/
def RightSettled (b : Block) : Prop :=
  b.closing.alone = true ∨ b.raw = [] ∨ ∃ c ∈ b.closing.text.getLast?, isPad c = false

/-- The section is written as it should be, where `fresh` says whether a line starts in front of it and `rest` follows. -/
def Fits (b : Block) (fresh : Bool) (rest : List Char) : Prop :=
  b.opening.Fits b.delimiters fresh (b.body.source ++ (b.closing.source ++ rest)) ∧
    b.body.Fits b.delimiters (Segment.startsLine fresh b.opening.source) (b.closing.source ++ rest) ∧
    b.closing.Fits (b.body.inForce b.delimiters) (Segment.startsLine fresh (b.opening.source ++ b.body.source)) rest

end Block

/-- The sections of a region that are not inverted, those in bodies included. -/
def blocks : Outline → Delimiters → List Block
  | done, _ => []
  | tag seg after, d => after.blocks (seg.tag.inForce d)
  | block inverted name opening body closing after, d =>
    (if inverted then [] else [⟨name, d, opening, body, closing⟩]) ++ body.blocks d ++ after.blocks d

section Blocks

variable {d : Delimiters} {fresh : Bool} {rest : List Char}

private theorem blocks_fuse (a b : List Node) : Node.blocks (Node.fuse a b) = Node.blocks a ++ Node.blocks b :=
  Node.collect_fuse (by simp [Node.blockOf]) a b

private theorem blocks_ofText (text : List Char) : Node.blocks (Node.ofText text) = [] :=
  Node.collect_ofText (by simp [Node.blockOf]) text

theorem blocks_nodes (o : Outline) (d : Delimiters) : Node.blocks (o.nodes d) = (o.blocks d).map Block.node := by
  induction o generalizing d with
  | done => rfl
  | tag seg after ih =>
    have hseg : Node.blocks seg.nodes = [] := by
      rw [Segment.nodes]
      cases seg.tag <;> rfl
    rw [nodes, blocks_fuse, blocks_fuse, blocks_ofText, hseg, ih, blocks, List.nil_append, List.nil_append]
  | block inverted name opening body closing after ihbody ihafter =>
    have hbody : Node.blocks (Node.fuse (body.nodes d) (Node.ofText closing.text)) = (body.blocks d).map Block.node := by
      rw [blocks_fuse, blocks_ofText, List.append_nil, ihbody]
    have hsection : Node.blocks [Node.ofSection inverted name (Node.fuse (body.nodes d) (Node.ofText closing.text))
          (body.source ++ closing.text) d] =
        ((if inverted then [] else [(⟨name, d, opening, body, closing⟩ : Block)]) ++ body.blocks d).map Block.node := by
      rw [List.map_append, ← hbody, Node.ofSection]
      cases inverted <;> simp [Node.blocks, Node.collectNode, Node.blockOf, Block.node, Block.nodes, Block.raw]
    rw [nodes, blocks_fuse, blocks_fuse, blocks_ofText, hsection, ihafter, blocks, ← List.map_append, List.nil_append]

/-- A section of a region is written as it should be wherever it is, and less deep than the region. -/
theorem Fits.of_mem_blocks {o : Outline} (h : o.Fits d fresh rest) {b : Block} (hb : b ∈ o.blocks d) :
    (∃ fresh rest, b.Fits fresh rest) ∧ b.body.depth < o.depth := by
  induction o generalizing d fresh rest with
  | done => cases hb
  | tag seg after ih => exact ih h.2.2 hb
  | block inverted name opening body closing after ihbody ihafter =>
    obtain ⟨-, -, hfitsO, hbody, hfitsC, hafter⟩ := h
    rw [blocks, List.mem_append, List.mem_append] at hb
    rw [depth]
    rcases hb with (hself | hinside) | hbehind
    · cases inverted with
      | true => cases hself
      | false =>
        obtain rfl := List.mem_singleton.mp hself
        refine ⟨⟨fresh, after.source ++ rest, hfitsO, hbody, hfitsC⟩, ?_⟩
        simp only
        omega
    · obtain ⟨hfits, hdepth⟩ := ihbody hbody hinside
      exact ⟨hfits, by omega⟩
    · obtain ⟨hfits, hdepth⟩ := ihafter hafter hbehind
      exact ⟨hfits, by omega⟩

end Blocks

namespace Block

variable {b : Block} {fresh : Bool} {rest : List Char}

private theorem source_ne_nil_of_raw (h : b.Fits fresh rest) (hbody : b.body ≠ .done) : b.body.source ≠ [] := by
  obtain ⟨c, hc, -⟩ := h.2.1.exists_not_isPad hbody
  exact List.ne_nil_of_mem hc

private theorem raw_ne_nil (h : b.Fits fresh rest) (hbody : b.body ≠ .done) : b.raw ≠ [] :=
  List.append_ne_nil_of_left_ne_nil (source_ne_nil_of_raw h hbody) _

private theorem Fits.body_of_leftSettled (h : b.Fits fresh rest) (hbody : b.body ≠ .done) (hleft : b.LeftSettled) :
    b.body.Fits b.delimiters true (b.closing.source ++ rest) := by
  rcases hleft with halone | hempty | hlead
  · have hplaced := (Segment.placed_of_alone halone).mp h.1.2
    have hrest : b.body.source ++ (b.closing.source ++ rest) ≠ [] :=
      List.append_ne_nil_of_left_ne_nil (source_ne_nil_of_raw h hbody) _
    have hfits := h.2.1
    rwa [hplaced.startsLine hrest] at hfits
  · exact absurd hempty (raw_ne_nil h hbody)
  · exact h.2.1.of_lead hlead true

private theorem Fits.body_of_rightSettled (h : b.Fits fresh rest) (hbody : b.body ≠ .done) (hright : b.RightSettled)
    {fresh' : Bool} (hfits : b.body.Fits b.delimiters fresh' (b.closing.source ++ rest)) :
    b.body.Fits b.delimiters fresh' b.closing.text := by
  have htext (hpad : ∃ c ∈ b.closing.text, isPad c = false) : b.body.Fits b.delimiters fresh' b.closing.text := by
    rw [← List.append_nil b.closing.text]
    rw [Segment.source_append] at hfits
    exact hfits.append hpad []
  rcases hright with halone | hempty | hlast
  · have hstarts := ((Segment.placed_of_alone halone).mp h.2.2.2).2.1
    rw [← Segment.startsLine_append] at hstarts
    cases hlast : b.closing.text.getLast? with
    | none =>
      rw [List.getLast?_eq_none_iff] at hlast
      have hne := source_ne_nil_of_raw h hbody
      have hend : ∀ c ∈ b.body.source.getLast?, isLineEnd c = true := by
        intro c hc
        rw [hlast, List.append_nil, Segment.startsLine] at hstarts
        rwa [List.getLast?_append, Option.mem_def.mp hc, Option.some_or] at hstarts
      rw [hlast]
      refine hfits.of_lineEnd hend ?_
      intro hhead
      cases hhead
    | some c =>
      refine htext ⟨c, List.mem_of_getLast? hlast, ?_⟩
      rw [Segment.startsLine, List.getLast?_append, hlast, Option.some_or] at hstarts
      exact not_isPad_of_isLineEnd hstarts
  · exact absurd hempty (raw_ne_nil h hbody)
  · obtain ⟨c, hc, hpad⟩ := hlast
    exact htext ⟨c, List.mem_of_getLast? hc, hpad⟩

theorem Fits.parse_eq (h : b.Fits fresh rest) (hdepth : b.body.depth ≤ maxOpenSections) (hleft : b.LeftSettled)
    (hright : b.RightSettled) : parse b.delimiters (String.ofList b.raw) = .ok b.nodes := by
  have hfits : b.body.Fits b.delimiters true b.closing.text := by
    by_cases hbody : b.body = .done
    · rw [hbody]
      trivial
    · exact h.body_of_rightSettled hbody hright (h.body_of_leftSettled hbody hleft)
  have huntagged : ¬ (b.body.inForce b.delimiters).opener.toList <:+: b.closing.text := by
    intro hwithin
    exact h.2.2.1.1.not_isInfix (Delimiters.opener_toList_ne_nil _) (hwithin.trans (List.prefix_append _ _).isInfix)
  exact parse_eq_ok_iff.mpr ⟨b.body, b.closing.text, ⟨String.toList_ofList, hfits, hdepth, huntagged⟩, rfl⟩

-- The padding in front of the comment shares its line with the opening tag, but has a line with the comment in the text alone.
example : parse .standard "\x7b\x7b#a\x7d\x7d \x7b\x7b!b\x7d\x7d\nx\x7b\x7b/a\x7d\x7d" =
      .ok [.block "a" [.literal " ", .comment, .literal "\nx"] " \x7b\x7b!b\x7d\x7d\nx" .standard] ∧
    parse .standard " \x7b\x7b!b\x7d\x7d\nx" = .ok [.comment, .literal "x"] :=
  ⟨by cbv, by cbv⟩

end Block
end Outline

namespace Render

/-- A lambda that answers with the text of its section writes the body of the section. -/
def EchoWrites (name : String) (body : List Node) (raw : String) (d : Delimiters) : Prop :=
  ∀ {σ : Type} (env : Env σ) (level : Level σ) (s : State σ) (l : Lambda) (memory : σ),
    s.context.get? name = some (.lambda l) → l.arity = .unary →
      env.host.answer l (some raw) s.memory = (.string raw, memory) →
        writeBlock env level name body raw d s =
          nested env level .lambda name (fun write => write body) ({ s with memory }.note (.call l (some raw)))

theorem echoWrites_of_parse {name : String} {body : List Node} {raw : String} {d : Delimiters}
    (h : parse d raw = .ok body) : EchoWrites name body raw d := by
  intro σ env level s l memory hname harity hanswer
  have hresolve : resolve env name s = (.ok (.lambda l), s) := by
    rw [resolve, bind_of_ok (get_apply s)]
    simp only [hname]
    rfl
  have hcall : call env l (some raw) s = (.ok (.string raw), { s with memory }.note (.call l (some raw))) := by
    rw [call, bind_of_ok (get_apply s)]
    simp only [hanswer]
    rfl
  have htree : answerTree name d (.string raw) = .ok body := by
    unfold answerTree readTree
    simp only [scalar, Value.isScalar, if_true, bind, Except.bind, Value.text, h]
    rfl
  rw [writeBlock, bind_of_ok hresolve]
  simp only [harity]
  rw [bind_of_ok hcall, htree]
  rfl

end Render

/-- Every section of a template that can be read reads as its body again if its text is settled at both ends. -/
theorem parse_raw {d : Delimiters} {s : String} {tree : List Node} (h : parse d s = .ok tree) :
    ∃ o tail, Outline.Covers o d s.toList tail ∧ Node.blocks tree = (o.blocks d).map Outline.Block.node ∧
      ∀ b ∈ o.blocks d, b.LeftSettled → b.RightSettled →
        parse b.delimiters (String.ofList b.raw) = .ok b.nodes ∧
          Render.EchoWrites b.name b.nodes (String.ofList b.raw) b.delimiters := by
  obtain ⟨o, tail, hcovers, rfl⟩ := parse_eq_ok_iff.mp h
  refine ⟨o, tail, hcovers, ?_, ?_⟩
  · rw [Outline.blocks_fuse, Outline.blocks_ofText, List.append_nil, Outline.blocks_nodes]
  · intro b hb hleft hright
    obtain ⟨⟨fresh, rest, hfits⟩, hdepth⟩ := hcovers.fits.of_mem_blocks hb
    have hle := hcovers.depth_le
    have hparse := hfits.parse_eq (by omega) hleft hright
    exact ⟨hparse, Render.echoWrites_of_parse hparse⟩

/-- A section with a letter in it. -/
private def letter : Outline.Block where
  name := "a"
  delimiters := .standard
  opening := ⟨[], [], .opening false "a", "\x7b\x7b#a\x7d\x7d".toList, [], false⟩
  body := .done
  closing := ⟨['x'], [], .closing "a", "\x7b\x7b/a\x7d\x7d".toList, [], false⟩

private theorem covers_letter : Outline.Covers (.block false "a" letter.opening .done letter.closing .done) .standard
    "\x7b\x7b#a\x7d\x7dx\x7b\x7b/a\x7d\x7d".toList [] where
  source_eq := by decide
  fits := by
    have hopening : Segment.next .standard true "\x7b\x7b#a\x7d\x7dx\x7b\x7b/a\x7d\x7d".toList =
        .ok (some (letter.opening, "x\x7b\x7b/a\x7d\x7d".toList)) := by cbv
    have hclosing : Segment.next .standard false "x\x7b\x7b/a\x7d\x7d".toList = .ok (some (letter.closing, [])) := by cbv
    exact ⟨rfl, rfl, (Segment.next_eq_some_iff.mp hopening).2, trivial, (Segment.next_eq_some_iff.mp hclosing).2, trivial⟩
  depth_le := by decide
  untagged := by decide

theorem parse_raw_of_letter :
    parse .standard "\x7b\x7b#a\x7d\x7dx\x7b\x7b/a\x7d\x7d" = .ok [.block "a" [.literal "x"] "x" .standard] ∧
      letter.LeftSettled ∧ letter.RightSettled ∧ parse letter.delimiters (String.ofList letter.raw) = .ok letter.nodes := by
  have hleft : letter.LeftSettled := .inr (.inr ⟨'x', rfl, rfl⟩)
  have hright : letter.RightSettled := .inr (.inr ⟨'x', rfl, rfl⟩)
  have hparse : parse .standard "\x7b\x7b#a\x7d\x7dx\x7b\x7b/a\x7d\x7d" =
      .ok [.block "a" [.literal "x"] "x" .standard] := by cbv
  obtain ⟨o, tail, hcovers, -, hblocks⟩ := parse_raw hparse
  obtain ⟨rfl, -⟩ := hcovers.unique covers_letter
  exact ⟨hparse, hleft, hright, (hblocks letter (List.mem_singleton.mpr rfl) hleft hright).1⟩

end Stencil
