import Mathlib
import Stencil.Proofs.Escape
import Stencil.Proofs.Render.Confined
import Stencil.Proofs.Render.Outcome
import Stencil.Proofs.Render.Written

/-!
# Escaped output

Where all tags escape their values, data cannot add markup to the output. What a lambda answers may well hold markup, and tags
that do not escape: it is rendered in the place of a value and escaped as a whole, unless the lambda takes the text of a section
(`render_escaped`).
-/

namespace Stencil.Render

open Text

variable {σ : Type}

/-- All tags escape their values, and the literals have allowed characters only. -/
structure Harmless (allowed : Char → Prop) (nodes : List Node) : Prop where
  escaped : Node.Every Node.unescapedOf (fun _ => False) nodes
  literals : Node.Every Node.charsOf allowed nodes

namespace Harmless

variable {allowed : Char → Prop} {nodes nodes' : List Node}

theorem of_unescaped_eq_nil (h : Node.unescaped nodes = []) (hchars : ∀ c ∈ Node.chars nodes, allowed c) :
    Harmless allowed nodes := by
  refine ⟨fun name hname => ?_, hchars⟩
  have hname : name ∈ Node.unescaped nodes := hname
  rw [h] at hname
  cases hname

theorem cons {node : Node} (h : Harmless allowed (node :: nodes)) : Harmless allowed [node] ∧ Harmless allowed nodes :=
  ⟨⟨h.escaped.cons.1, h.literals.cons.1⟩, h.escaped.cons.2, h.literals.cons.2⟩

theorem block {name raw : String} {d : Delimiters} (h : Harmless allowed [.block name nodes raw d]) : Harmless allowed nodes :=
  ⟨h.escaped.block, h.literals.block⟩

theorem inverted {name : String} (h : Harmless allowed [.inverted name nodes]) : Harmless allowed nodes :=
  ⟨h.escaped.inverted, h.literals.inverted⟩

theorem escaped_eq_true {name : String} {escaped : Bool} (h : Harmless allowed [.interpolation name escaped]) :
    escaped = true := by
  cases escaped with
  | true => rfl
  | false => exact (h.escaped name List.mem_cons_self).elim

theorem of_literal {text : String} (h : Harmless allowed [.literal text]) : ∀ c ∈ text.toList, allowed c := by
  intro c hc
  refine h.literals c ?_
  rw [Node.collect_singleton]
  exact hc

/-- Indentation does no harm. -/
theorem of_padded (h : Harmless allowed nodes) (hpad : ∀ c, isPad c = true → allowed c)
    (hbare : Node.bare nodes' = Node.bare nodes) (hchars : ∀ c ∈ Node.chars nodes', c ∈ Node.chars nodes ∨ isPad c = true) :
    Harmless allowed nodes' := by
  refine ⟨fun name hname => ?_, fun c hc => ?_⟩
  · have hname : name ∈ Node.unescaped nodes' := hname
    rw [← Node.unescaped_bare nodes', hbare, Node.unescaped_bare nodes] at hname
    exact h.escaped name hname
  · exact (hchars c hc).elim (h.literals c) (hpad c)

end Harmless

section Account

variable {env : Env σ} {allowed : Char → Prop} (hpad : ∀ c, isPad c = true → allowed c)
  (hgives : env.host.Gives env.settings.delimiters (Harmless allowed))

/-- Partials are confined to be harmless, and data to lambdas that take no argument. These may answer with any template. -/
def Confinement.harmless : Confinement env where
  contexts c c' := c' = c ∧ c.All (Value.AllLambdas (·.arity = .nullary))
  values := Value.AllLambdas (·.arity = .nullary)
  templates _ := True
  partials := Harmless allowed
  get?_eq h _ _ _ := by rw [h.1]
  get?_values h _ _ _ v hv := h.2.get? (Value.AllLambdas.closed _) hv
  push h hframe := ⟨by rw [h.1], h.2.push hframe⟩
  truncate h hd := ⟨by rw [h.1, hd.1], hd.2.truncate _⟩
  values_scalar := Value.AllLambdas.of_isScalar
  values_frame := (Value.AllLambdas.closed _).frames
  templates_answer _ _ _ _ _ := trivial
  templates_cons _ := ⟨trivial, trivial⟩
  templates_block _ := trivial
  templates_inverted _ := trivial
  templates_partial _ := trivial
  partials_of_loaded h hbare hchars := h.of_padded hpad hbare hchars
  gives := hgives

def Passage.Harmless (allowed : Char → Prop) : Passage → Prop
  | literal text => ∀ c ∈ text.toList, allowed c
  | value text => Escaped text.toList

variable (hescape : env.settings.escape = escapeHtml)

include hescape in
theorem escaped_filter (text : String) : Escaped (env.filter true text).toList := by
  rw [Env.filter, if_pos rfl, hescape]
  exact escaped_escapeHtml text

/-- The account of what harmless templates write. -/
def Account.harmless : Account env where
  toCoupling := (Confinement.harmless hpad hgives).coupling
  excuses_nothing := id
  told nodes := Harmless allowed nodes ∧ Indented nodes
  good := Passage.Harmless allowed
  told_cons h := ⟨⟨h.1.cons.1, h.2.cons.1⟩, h.1.cons.2, h.2.cons.2⟩
  trees_told h := ⟨trivial, h.2⟩
  tells := by
    rintro node job ⟨hnode, hindented⟩ hcomes
    cases hcomes with
    | literal => exact hnode.of_literal
    | comment | skipped | missing => trivial
    | value name escaped text =>
      obtain rfl := hnode.escaped_eq_true
      exact escaped_filter hescape text
    | valueAnswer name escaped =>
      obtain rfl := hnode.escaped_eq_true
      exact escaped_filter hescape
    | block name body raw d hv =>
      rw [Job.ofBlock]
      split
      · exact ⟨hnode.block, hindented.block⟩
      · trivial
    | blockAnswer name body raw d hl harity =>
      rw [hl.of_lambda] at harity
      cases harity
    | inverted => exact ⟨hnode.inverted, hindented.inverted⟩
    | inclusion name indent htree => exact htree

include hpad hgives hescape in
/-- What a harmless template writes over data whose lambdas take no argument. -/
theorem harmless_written {nodes : List Node} (hnodes : Harmless allowed nodes ∧ Indented nodes) {context : Context}
    (hcontext : context.All (Value.AllLambdas (·.arity = .nullary))) (levels : Nat) (memory : σ) :
    ∀ passage ∈ written env levels nodes ⟨context, [], "", memory, []⟩, passage.Harmless allowed := by
  let A : Account env := .harmless hpad hgives hescape
  let start : State σ := ⟨context, [], "", memory, []⟩
  have hstart : A.states start start := ⟨context, rfl, ⟨rfl, hcontext⟩, nofun, nofun⟩
  exact (A.records levels hnodes start hstart).2

end Account

theorem isMarkup_of_isPad {c : Char} (h : isPad c = true) : isMarkup c = false := by
  rw [isPad, Bool.or_eq_true, beq_iff_eq, beq_iff_eq] at h
  rcases h with rfl | rfl
  · decide
  · decide

theorem mem_joined {passages : List Passage} {c : Char} :
    c ∈ (joined passages).toList ↔ ∃ passage ∈ passages, c ∈ passage.text.toList := by
  rw [joined, String.toList_join, List.mem_flatMap]
  simp only [List.mem_map, exists_exists_and_eq_and]

end Stencil.Render

namespace Stencil.Renderer

open Render

variable {σ : Type}

theorem output_eq_joined {r : Renderer} {host : Host σ} {memory : σ} {nodes : List Node} {context : Context} {output : String}
    (h : (r.renderNodes host memory nodes context).result = .ok output) :
    output = joined (written ⟨r.settings, host⟩ r.settings.maxDepth nodes ⟨context, [], "", memory, []⟩) := by
  have houtput := output_written ⟨r.settings, host⟩ r.settings.maxDepth nodes ⟨context, [], "", memory, []⟩
  rw [renderNodes_eq, Outcome.ofRun] at h
  cases hresult : (writeTree ⟨r.settings, host⟩ r.settings.maxDepth nodes ⟨context, [], "", memory, []⟩).1 with
  | error e =>
    rw [hresult] at h
    cases h
  | ok =>
    rw [hresult] at h
    rw [← Except.ok.inj h, houtput, String.empty_append]

/-- If all tags in the text and in the partials escape their values, and no lambda in the data takes the text of a section, then
no value adds markup to the output: what is not from a literal has none, and all its ampersands begin entities. If no literal
has markup either, then there is none in the output. -/
theorem render_escaped {r : Renderer} (hescape : r.settings.escape = EscapeMode.html.apply) {host : Host σ}
    (hhost : host.Gives r.settings.delimiters fun nodes => Node.unescaped nodes = []) {source : String} {nodes : List Node}
    (hparse : parse r.settings.delimiters source = .ok nodes) (hnodes : Node.unescaped nodes = []) {context : Context}
    (hcontext : context.All (Value.AllLambdas (·.arity = .nullary))) (memory : σ) {output : String}
    (houtput : (r.renderContext host memory source context).result = .ok output) :
    let passages := written ⟨r.settings, host⟩ r.settings.maxDepth nodes ⟨context, [], "", memory, []⟩
    output = joined passages ∧ (∀ text, .value text ∈ passages → Escaped text.toList) ∧
      ((∀ c ∈ Node.chars nodes, isMarkup c = false) →
        (host.Gives r.settings.delimiters fun nodes => ∀ c ∈ Node.chars nodes, isMarkup c = false) →
        ∀ c ∈ output.toList, isMarkup c = false) := by
  intro passages
  rw [renderContext_of_parse hparse] at houtput
  have hjoined : output = joined passages := output_eq_joined houtput
  have hindented : Indented nodes := padding_of_mem_indents hparse
  -- Characters matter only for the literals, so any will do for the values.
  have hpassages {allowed : Char → Prop} (hpad : ∀ c, Text.isPad c = true → allowed c)
      (hchars : ∀ c ∈ Node.chars nodes, allowed c)
      (hgiven : host.Gives r.settings.delimiters fun nodes => ∀ c ∈ Node.chars nodes, allowed c) :
      ∀ passage ∈ passages, passage.Harmless allowed := by
    have hgives : host.Gives r.settings.delimiters (Harmless allowed) := by
      intro loader hloader name memory text htext nodes hnodes
      have hchars := hgiven loader hloader name memory text htext nodes hnodes
      exact .of_unescaped_eq_nil (hhost loader hloader name memory text htext nodes hnodes) hchars
    exact harmless_written hpad hgives hescape ⟨.of_unescaped_eq_nil hnodes hchars, hindented⟩ hcontext _ memory
  refine ⟨hjoined, fun text htext => ?_, fun hchars hgiven c hc => ?_⟩
  · exact hpassages (fun _ _ => trivial) (fun _ _ => trivial) (.of_forall fun _ _ _ => trivial) (.value text) htext
  · rw [hjoined, mem_joined] at hc
    obtain ⟨passage, hpassage, hc⟩ := hc
    have hharmless := hpassages (fun _ => isMarkup_of_isPad) hchars hgiven passage hpassage
    cases passage with
    | literal text => exact hharmless c hc
    | value text => exact hharmless.1 c hc

/-- The partial has a tag for a lambda that answers with markup and a tag that does not escape. -/
theorem render_escaped_of_lambda :
    let source := "\x7b\x7bx\x7d\x7d-\x7b\x7b>p\x7d\x7d"
    let host : Host Unit :=
      ⟨fun _ _ memory => (.string "\x7b\x7b&x\x7d\x7d>", memory), some fun _ memory => (.ok "\x7b\x7by\x7d\x7d", memory)⟩
    let context : Context := .ofValue (.map [("x", .string "<"), ("y", .lambda ⟨0, .nullary⟩)])
    let output := "&lt;-&lt;&gt;"
    (standard.renderContext host () source context).result = .ok output ∧ ∀ c ∈ output.toList, isMarkup c = false := by
  intro source host context output
  have hparse : parse standard.settings.delimiters source =
      .ok [.interpolation "x" true, .literal "-", .inclusion "p" ""] := by cbv
  have hpartial : parse standard.settings.delimiters "\x7b\x7by\x7d\x7d" = .ok [.interpolation "y" true] := by cbv
  have hgives {P : List Node → Prop} (h : P [.interpolation "y" true]) : host.Gives standard.settings.delimiters P := by
    rintro _ ⟨⟩ name memory _ ⟨⟩ nodes hnodes
    rw [hpartial] at hnodes
    exact Except.ok.inj hnodes ▸ h
  have hcontext : context.All (Value.AllLambdas (·.arity = .nullary)) := by
    refine .ofValue (.map (List.forall_mem_cons.mpr ⟨.string "<", ?_⟩))
    exact List.forall_mem_singleton.mpr (.lambda rfl)
  have hresult : (standard.renderContext host () source context).result = .ok output := by cbv
  have hescaped := render_escaped rfl (hgives rfl) hparse rfl hcontext () hresult
  refine ⟨hresult, hescaped.2.2 ?_ (hgives ?_)⟩
  · exact List.forall_mem_singleton.mpr rfl
  · exact List.forall_mem_nil _

end Stencil.Renderer
