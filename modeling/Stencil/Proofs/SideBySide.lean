import Mathlib.Data.List.Forall2
import Stencil.Proofs.Descent
import Stencil.Proofs.Respace

/-!
# Reading side by side

A template and the template with its white space written anew are read side by side, segment by segment. What is compared of
the two readings can be chosen; if it stays alike from one segment to the next, then it is alike at the end, where both
readings succeed or both fail with the same fault (`Comparison.parse`).
-/

namespace Stencil

open Text

namespace Text.Respacing

/-- The second text is the first one written anew: to its end, or up to something that goes on with its last line. -/
def Writes (r : Respacing) (s s' : List Char) : Prop := ∃ fresh, s' = r.text fresh s ∨ s' = r.front fresh s

/-- What is compared of the readings of a template and of the template written anew: the places they have come to and the nodes
they have read. Both stay alike when the readings go on. -/
structure Comparison (r : Respacing) where
  place : Position → Position → Prop
  nodes : List Node → List Node → Prop
  place_advanceAll : ∀ {p p' : Position} {s s' : List Char}, place p p' → r.Writes s s' → place (p.advanceAll s) (p'.advanceAll s')
  nodes_ofText : ∀ {s s' : List Char}, r.Writes s s' → nodes (Node.ofText s) (Node.ofText s')
  nodes_fuse : ∀ {a a' b b' : List Node}, nodes a a' → nodes b b' → nodes (Node.fuse a b) (Node.fuse a' b')
  nodes_segment : ∀ (seg : Segment) (fresh : Bool), nodes seg.nodes (seg.respaced r fresh).nodes
  nodes_ofSection : ∀ {body body' : List Node} {raw raw' : List Char} (inverted : Bool) (name : String) (d : Delimiters),
    nodes body body' → r.Writes raw raw' →
      nodes [Node.ofSection inverted name body raw d] [Node.ofSection inverted name body' raw' d]

namespace Comparison

variable {r : Respacing} (C : Comparison r)

/-- Two readings come to the same: to something alike, or to the same fault at places that are alike. -/
def Results {α : Type} (alike : α → α → Prop) : Except ParseError α → Except ParseError α → Prop
  | .ok a, .ok a' => alike a a'
  | .error e, .error e' => e'.fault = e.fault.quoting r.quote ∧ C.place e.position e'.position
  | _, _ => False

theorem Results.bind {α β : Type} {alike : α → α → Prop} {alike' : β → β → Prop} {x x' : Except ParseError α}
    {f f' : α → Except ParseError β} (h : Results C alike x x') (hf : ∀ a a', alike a a' → Results C alike' (f a) (f' a')) :
    Results C alike' (x.bind f) (x'.bind f') := by
  cases x with
  | ok a =>
    cases x' with
    | ok a' => exact hf a a' h
    | error e' => exact False.elim h
  | error e =>
    cases x' with
    | ok a' => exact False.elim h
    | error e' => exact h

/-- Two open sections with the same tag, where `rest` and `rest'` are left; what has been passed since the tag has been written
anew. -/
structure Opened (fresh : Bool) (rest rest' : List Char) (o o' : OpenSection) : Prop where
  name_eq : o'.name = o.name
  inverted_eq : o'.inverted = o.inverted
  delimiters_eq : o'.delimiters = o.delimiters
  position : C.place o.position o'.position
  outer : C.nodes o.outer o'.outer
  passed : ∃ start raw, o.start = raw ++ rest ∧ o'.start = r.text start raw ++ rest' ∧ Segment.startsLine start raw = fresh

/-- Two readings that have come to the same place, where `rest` and `rest'` are left. -/
structure Scans (scan scan' : Scan) (rest rest' : List Char) : Prop where
  position : C.place scan.position scan'.position
  fresh_eq : scan'.fresh = scan.fresh
  delimiters_eq : scan'.delimiters = scan.delimiters
  opened : List.Forall₂ (C.Opened scan.fresh rest rest') scan.opened scan'.opened
  nodes : C.nodes scan.nodes scan'.nodes
  rest_eq : rest' = r.text scan.fresh rest

theorem nodes_nil : C.nodes [] [] := C.nodes_ofText ⟨true, .inl (r.text_nil true).symm⟩

variable {C} {scan scan' : Scan} {s s' rest : List Char} {seg : Segment}

theorem Opened.pass {fresh : Bool} {o o' : OpenSection} (h : C.Opened fresh (seg.source ++ rest)
    (r.text fresh (seg.source ++ rest)) o o') :
    C.Opened (Segment.startsLine fresh seg.source) rest (r.text (Segment.startsLine fresh seg.source) rest) o o' := by
  obtain ⟨start, raw, hstart, hstart', hfresh⟩ := h.passed
  refine ⟨h.name_eq, h.inverted_eq, h.delimiters_eq, h.position, h.outer, start, raw ++ seg.source, ?_, ?_, ?_⟩
  · rw [hstart, List.append_assoc]
  · rw [hstart', r.text_append, r.text_append, hfresh, List.append_assoc]
  · rw [Segment.startsLine_append, hfresh]

/-- One segment is passed on either side. -/
theorem Scans.pass (h : C.Scans scan scan' (seg.source ++ rest) s')
    (hsource : (seg.respaced r scan.fresh).source = r.text scan.fresh seg.source) :
    C.Scans (scan.pass seg) (scan'.pass (seg.respaced r scan.fresh)) rest
      (r.text (Segment.startsLine scan.fresh seg.source) rest) where
  position := by
    change C.place (scan.position.advanceAll _) (scan'.position.advanceAll _)
    rw [hsource]
    exact C.place_advanceAll h.position ⟨scan.fresh, .inl rfl⟩
  fresh_eq := by
    change Segment.startsLine scan'.fresh _ = Segment.startsLine scan.fresh _
    rw [hsource, h.fresh_eq, r.startsLine_text]
  delimiters_eq := h.delimiters_eq
  opened := by
    have hopened := h.opened
    rw [h.rest_eq] at hopened
    exact hopened.imp fun _ _ h => h.pass
  nodes := C.nodes_fuse h.nodes (C.nodes_ofText ⟨scan.fresh, seg.text_respaced r scan.fresh⟩)
  rest_eq := rfl

/-- The sections that are closed by the same tag are alike. -/
theorem Opened.close {fresh : Bool} {o o' : OpenSection} {body body' : List Node} {seg' : Segment} {rest' : List Char}
    (h : C.Opened fresh (seg.source ++ rest) (seg'.source ++ rest') o o') (hbody : C.nodes body body')
    (htext : seg'.text = r.text fresh seg.text ∨ seg'.text = r.front fresh seg.text) :
    C.nodes (o.outer ++ [o.close body (seg.restAfterText rest)])
      (o'.outer ++ [o'.close body' (seg'.restAfterText rest')]) := by
  obtain ⟨start, raw, hstart, hstart', rfl⟩ := h.passed
  have hraw : between o.start (seg.restAfterText rest) = raw ++ seg.text := by
    rw [hstart, Segment.source_append, ← List.append_assoc, between_append]
  have hraw' : between o'.start (seg'.restAfterText rest') = r.text start raw ++ seg'.text := by
    rw [hstart', Segment.source_append, ← List.append_assoc, between_append]
  have hwrites : r.Writes (raw ++ seg.text) (r.text start raw ++ seg'.text) := by
    refine ⟨start, ?_⟩
    rw [r.text_append, r.front_append]
    exact htext.imp (congrArg _) (congrArg _)
  rw [← hraw, ← hraw'] at hwrites
  have hnode (o : OpenSection) (body : List Node) (stop : List Char) : ∀ text, o.close body stop ≠ .literal text :=
    Node.ofSection_ne_literal o.inverted o.name body (between o.start stop) o.delimiters
  rw [Node.append_singleton_eq_fuse (hnode _ _ _), Node.append_singleton_eq_fuse (hnode _ _ _)]
  apply C.nodes_fuse h.outer
  change C.nodes [Node.ofSection o.inverted o.name body _ o.delimiters] [Node.ofSection o'.inverted o'.name body' _ o'.delimiters]
  rw [h.name_eq, h.inverted_eq, h.delimiters_eq]
  exact C.nodes_ofSection o.inverted o.name o.delimiters hbody hwrites

variable (C) in
/-- Two readings have come to segments with the same tag, which `rest` and `rest'` follow. -/
structure Meets (scan scan' : Scan) (seg seg' : Segment) (rest rest' : List Char) : Prop where
  tag_eq : seg'.tag = seg.tag
  nodes : C.nodes seg.nodes seg'.nodes
  text : seg'.text = r.text scan.fresh seg.text ∨ seg'.text = r.front scan.fresh seg.text
  position : C.place (scan.position.advanceAll (seg.text ++ seg.indent)) (scan'.position.advanceAll (seg'.text ++ seg'.indent))
  opened : List.Forall₂ (C.Opened scan.fresh (seg.source ++ rest) (seg'.source ++ rest')) scan.opened scan'.opened
  pass : C.Scans (scan.pass seg) (scan'.pass seg') rest rest'

theorem Scans.next_eq (h : C.Scans scan scan' s s') (hs : ∀ c ∈ s, r.Admits c) :
    Segment.next scan'.delimiters scan'.fresh s' =
      Segment.nextRespaced r scan.fresh (Segment.next scan.delimiters scan.fresh s) := by
  rw [h.delimiters_eq, h.fresh_eq, h.rest_eq, Segment.next_text r _ _ hs]

/-- The next segment of the one text is that of the other. -/
theorem Scans.meets (h : C.Scans scan scan' s s') (hs : ∀ c ∈ s, r.Admits c)
    (hnext : Segment.next scan.delimiters scan.fresh s = .ok (some (seg, rest))) :
    ∃ seg' rest', Segment.next scan'.delimiters scan'.fresh s' = .ok (some (seg', rest')) ∧
      C.Meets scan scan' seg seg' rest rest' := by
  have hnext' := h.next_eq hs
  rw [hnext] at hnext'
  obtain ⟨rfl, hfits⟩ := Segment.next_eq_some_iff.mp hnext
  refine ⟨_, _, hnext', ?_⟩
  exact {
    tag_eq := seg.tag_respaced r scan.fresh
    nodes := C.nodes_segment seg scan.fresh
    text := seg.text_respaced r scan.fresh
    position := C.place_advanceAll h.position ⟨scan.fresh, .inr (hfits.2.front_respaced r)⟩
    opened := by
      rw [Segment.append_of_next hnext']
      exact h.opened
    pass := h.pass (hfits.source_respaced r hs) }

section Take

variable {seg' : Segment} {rest' : List Char} (h : C.Meets scan scan' seg seg' rest rest')

include h

private theorem Meets.take_opening {inverted : Bool} {name : String} (htag : seg.tag = .opening inverted name) :
    Results C (C.Scans · · rest rest') (scan.take seg rest) (scan'.take seg' rest') := by
  have hlevel : (scan'.pass seg').opened.length = (scan.pass seg).opened.length := h.opened.length_eq.symm
  rw [Scan.take, Scan.take, h.tag_eq, htag]
  simp only [hlevel]
  split
  · exact ⟨rfl, h.position⟩
  · refine { h.pass with opened := .cons ?_ h.pass.opened, nodes := C.nodes_nil }
    exact ⟨rfl, rfl, h.pass.delimiters_eq, h.position, h.pass.nodes, (scan.pass seg).fresh, [], rfl, rfl, rfl⟩

private theorem Meets.take_closing {name : String} (htag : seg.tag = .closing name) :
    Results C (C.Scans · · rest rest') (scan.take seg rest) (scan'.take seg' rest') := by
  have hopened : List.Forall₂ (C.Opened scan.fresh (seg.source ++ rest) (seg'.source ++ rest'))
      (scan.pass seg).opened (scan'.pass seg').opened := h.opened
  have hpassed := h.pass.opened
  rw [Scan.take, Scan.take, h.tag_eq, htag]
  simp only
  revert hopened hpassed
  cases (scan.pass seg).opened with
  | nil =>
    intro hopened _
    rw [List.forall₂_nil_left_iff.mp hopened]
    exact ⟨rfl, h.position⟩
  | cons o opened =>
    intro hopened hpassed
    obtain ⟨o', opened', ho, -, hopened'⟩ := List.forall₂_cons_left_iff.mp hopened
    rw [hopened'] at hpassed ⊢
    simp only [ho.name_eq]
    split
    · exact { h.pass with
        delimiters_eq := ho.delimiters_eq
        opened := (List.forall₂_cons.mp hpassed).2
        nodes := ho.close h.pass.nodes h.text }
    · exact ⟨rfl, h.position⟩

private theorem Meets.take_plain (htag : seg.tag.isPlain = true) :
    Results C (C.Scans · · rest rest') (scan.take seg rest) (scan'.take seg' rest') := by
  have hdelimiters : scan'.delimiters = scan.delimiters := h.pass.delimiters_eq
  rw [Descent.take_of_plain _ _ htag, Descent.take_of_plain _ _ (by rwa [h.tag_eq]), Descent.append_nodes_eq_fuse,
    Descent.append_nodes_eq_fuse, h.tag_eq, hdelimiters]
  exact { h.pass with
    delimiters_eq := rfl
    nodes := C.nodes_fuse h.pass.nodes h.nodes }

/-- What is taken in of a segment is alike on either side. -/
theorem Meets.take : Results C (C.Scans · · rest rest') (scan.take seg rest) (scan'.take seg' rest') := by
  cases htag : seg.tag with
  | opening inverted name => exact h.take_opening htag
  | closing name => exact h.take_closing htag
  | _ => exact h.take_plain (by rw [htag]; rfl)

end Take

/-- What has been read at the end is alike on either side. -/
theorem Scans.finish (h : C.Scans scan scan' s s') : Results C C.nodes (scan.finish s) (scan'.finish s') := by
  rw [Scan.finish, Scan.finish]
  cases hopened : scan.opened with
  | nil =>
    have hnone := h.opened
    rw [hopened, List.forall₂_nil_left_iff] at hnone
    rw [hnone, h.rest_eq]
    exact C.nodes_fuse h.nodes (C.nodes_ofText ⟨scan.fresh, .inl rfl⟩)
  | cons o opened =>
    have hsome := h.opened
    rw [hopened, List.forall₂_cons_left_iff] at hsome
    obtain ⟨o', opened', ho, -, hopened'⟩ := hsome
    rw [hopened']
    exact ⟨congrArg ParseFault.unclosedSection ho.name_eq, ho.position⟩

theorem Scans.run (h : C.Scans scan scan' s s') (hs : ∀ c ∈ s, r.Admits c) :
    Results C C.nodes (scan.run s) (scan'.run s') := by
  induction hn : s.length using Nat.strongRecOn generalizing scan scan' s s' with
  | ind n ih =>
    rw [Descent.run_eq, Descent.run_eq]
    cases hnext : Segment.next scan.delimiters scan.fresh s with
    | error e =>
      rw [h.next_eq hs, hnext]
      exact ⟨rfl, C.place_advanceAll h.position ⟨scan.fresh, .inr rfl⟩⟩
    | ok found =>
      cases found with
      | none =>
        rw [h.next_eq hs, hnext]
        exact h.finish
      | some parts =>
        obtain ⟨seg, rest⟩ := parts
        obtain ⟨seg', rest', hnext', hmeets⟩ := h.meets hs hnext
        have hrest : ∀ c ∈ rest, r.Admits c := by
          intro c hc
          apply hs c
          rw [← Segment.append_of_next hnext]
          exact List.mem_append_right _ hc
        have hlt : rest.length < n := hn ▸ Segment.length_rest_lt hnext
        rw [hnext']
        exact hmeets.take.bind _ fun _ _ hscans => ih rest.length hlt hscans hrest rfl

end Comparison

/-- A template is read as it is with its white space written anew. -/
theorem Comparison.parse (C : Comparison r) (hstart : C.place .start .start) (d : Delimiters) {s : String}
    (hs : ∀ c ∈ s.toList, r.Admits c) :
    Results C C.nodes (Stencil.parse d s) (Stencil.parse d (String.ofList (r.text true s.toList))) := by
  rw [Stencil.parse, Stencil.parse, String.toList_ofList]
  exact Scans.run ⟨hstart, rfl, rfl, .nil, C.nodes_nil, rfl⟩ hs

end Text.Respacing
end Stencil
