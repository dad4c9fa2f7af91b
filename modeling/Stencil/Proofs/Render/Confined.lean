import Stencil.Proofs.Contents
import Stencil.Proofs.Context
import Stencil.Proofs.Render.Alike
import Stencil.Proofs.Render.Load

/-!
# Confined renderings

A rendering stays within what its templates and its data allow: names stand for no more than the frames hold, only lambdas are
called that a name can stand for, and only templates are written that come from the text, from the loader or from such a lambda
(`Confinement`). Renderings over contexts in which names stand for the same are the same as long as they are confined
(`Confinement.coupling`).
-/

namespace Stencil

open Text

variable {σ : Type}

/-- Of every text that the loader can return, `P` is true once it has been read. -/
def Host.Gives (host : Host σ) (d : Delimiters) (P : List Node → Prop) : Prop :=
  ∀ loader ∈ host.loader?, ∀ name memory source, (loader name memory).1 = .ok source →
    ∀ nodes, parse d source = .ok nodes → P nodes

theorem Host.Gives.of_forall {host : Host σ} {d : Delimiters} {P : List Node → Prop} (h : ∀ nodes, P nodes) : host.Gives d P :=
  fun _ _ _ _ _ _ nodes _ => h nodes

namespace Render

/-- The indents of the partials are padding, as they are in all templates that have been read. -/
abbrev Indented : List Node → Prop := Node.Every Node.indentOf Padding

/-- What the template of a partial holds, the text of the loader held before it was indented, but for padding. -/
theorem exists_parse_of_templateOf {settings : Settings} {inclusion : Inclusion} (hindent : Padding inclusion.indent)
    {answer : Except Error String} {tree : List Node} (h : templateOf settings inclusion answer = .ok (some tree)) :
    ∃ source nodes, answer = .ok source ∧ parse settings.delimiters source = .ok nodes ∧ Indented tree ∧
      Node.bare tree = Node.bare nodes ∧ ∀ c ∈ Node.chars tree, c ∈ Node.chars nodes ∨ isPad c = true := by
  unfold templateOf at h
  split at h
  · cases Except.ok.inj h
  · cases h
  · next source =>
    rw [readTree] at h
    cases hparse : parse settings.delimiters (indentLines inclusion.indent source) with
    | error e =>
      rw [hparse] at h
      cases h
    | ok nodes' =>
      rw [hparse] at h
      obtain rfl : nodes' = tree := Option.some.inj (Except.ok.inj h)
      obtain ⟨nodes, hnodes, hbare, hchars⟩ := contents_of_indented hindent hparse
      exact ⟨source, nodes, rfl, hnodes, padding_of_mem_indents hparse, hbare, hchars⟩

/-- What two renderings may look up, write and call. -/
structure Confinement (env : Env σ) where
  /-- The contexts that belong together. -/
  contexts : Context → Context → Prop
  /-- What names may stand for. -/
  values : Value → Prop
  /-- The templates that may be written. -/
  templates : List Node → Prop
  /-- The templates that partials may have. -/
  partials : List Node → Prop
  get?_eq : ∀ {c c' node}, contexts c c' → templates [node] → ∀ name ∈ Node.lookups [node], c'.get? name = c.get? name
  get?_values : ∀ {c c' node}, contexts c c' → templates [node] → ∀ name ∈ Node.lookups [node], ∀ v ∈ c.get? name, values v
  push : ∀ {c c' frame}, contexts c c' → values frame → contexts (c.push frame) (c'.push frame)
  truncate : ∀ {c c' d d'}, contexts c c' → contexts d d' → contexts (d.truncate c.size) (d'.truncate c'.size)
  values_scalar : ∀ {v : Value}, v.isScalar = true → values v
  values_frame : ∀ {v}, values v → ∀ frame ∈ v.items?.getD [v], values frame
  templates_answer : ∀ {l}, values (.lambda l) → ∀ {d source tree}, parse d source = .ok tree → templates tree
  templates_cons : ∀ {node nodes}, templates (node :: nodes) → templates [node] ∧ templates nodes
  templates_block : ∀ {name body raw d}, templates [.block name body raw d] → templates body
  templates_inverted : ∀ {name body}, templates [.inverted name body] → templates body
  templates_partial : ∀ {tree}, partials tree → templates tree
  partials_of_loaded : ∀ {nodes tree}, partials nodes → Node.bare tree = Node.bare nodes →
    (∀ c ∈ Node.chars tree, c ∈ Node.chars nodes ∨ isPad c = true) → partials tree
  gives : env.host.Gives env.settings.delimiters partials

namespace Confinement

variable {env : Env σ} (C : Confinement env)

/-- What is allowed has been kept to: in what was read for partials, and in what was called. -/
structure Kept (s : State σ) : Prop where
  partials : ∀ inclusion tree, s.partials.lookup inclusion = some tree → C.partials tree ∧ Indented tree
  calls : ∀ l argument?, .call l argument? ∈ s.events → C.values (.lambda l)

/-- What is allowed has been kept to, and only the context is another in the second state. -/
def Abreast (s t : State σ) : Prop := ∃ context, t = { s with context } ∧ C.contexts s.context context ∧ C.Kept s

variable {C}

theorem Kept.note {s : State σ} (h : C.Kept s) {event : Event} (hevent : event.isCall = false) : C.Kept (s.note event) := by
  refine ⟨h.partials, fun l argument? hcall => h.calls l argument? ?_⟩
  rcases List.mem_cons.mp hcall with rfl | hcall
  · cases hevent
  · exact hcall

theorem Kept.partialTree {s : State σ} (h : C.Kept s) {inclusion : Inclusion} (hindent : Padding inclusion.indent) :
    (∀ tree, (partialTree env inclusion s).1 = .ok (some tree) → C.partials tree ∧ Indented tree) ∧
      C.Kept (partialTree env inclusion s).2 := by
  rw [partialTree_apply]
  cases hlookup : s.partials.lookup inclusion with
  | some tree => exact ⟨fun _ htree => Option.some.inj (Except.ok.inj htree) ▸ h.partials inclusion tree hlookup, h⟩
  | none =>
    cases hloader : env.host.loader? with
    | none => exact ⟨fun _ => nofun, h⟩
    | some loader =>
      simp only
      rw [load_apply]
      have hasked (read : Bool) :
          C.Kept (State.note (.load inclusion read) { s with memory := (loader inclusion.name s.memory).2 }) :=
        Kept.note (s := { s with memory := (loader inclusion.name s.memory).2 }) ⟨h.partials, h.calls⟩ rfl
      simp only
      cases htemplate : templateOf env.settings inclusion (loader inclusion.name s.memory).1 with
      | error e => exact ⟨fun _ => nofun, hasked false⟩
      | ok tree? =>
        cases tree? with
        | none => exact ⟨fun _ => nofun, hasked false⟩
        | some tree =>
          obtain ⟨source, nodes, hanswer, hnodes, hindented, hbare, hchars⟩ := exists_parse_of_templateOf hindent htemplate
          have htree : C.partials tree ∧ Indented tree :=
            ⟨C.partials_of_loaded (C.gives loader hloader _ _ _ hanswer _ hnodes) hbare hchars, hindented⟩
          refine ⟨fun _ heq => Option.some.inj (Except.ok.inj heq) ▸ htree, fun other tree' hother => ?_, (hasked true).calls⟩
          rw [lookup_read] at hother
          split at hother
          · exact Option.some.inj hother ▸ htree
          · exact h.partials other tree' hother

variable (C)

/-- Confined renderings over contexts that belong together are the same. -/
def coupling : Coupling env env (partialTree env) (partialTree env) where
  states := C.Abreast
  excuses _ := False
  values := C.values
  trees nodes := C.templates nodes ∧ Indented nodes
  partials tree := C.partials tree ∧ Indented tree
  envs := .refl env
  resolve := by
    rintro node ⟨hnode, -⟩ name hname s _ ⟨context, rfl, hcontexts, hkept⟩
    rw [resolve_apply, resolve_apply, C.get?_eq hcontexts hnode name hname]
    refine .inr ⟨rfl, ⟨context, rfl, hcontexts, hkept⟩, fun v hv => ?_⟩
    cases hget : s.context.get? name with
    | some w =>
      rw [hget] at hv
      exact Except.ok.inj hv ▸ C.get?_values hcontexts hnode name hname w hget
    | none =>
      rw [hget, valueOf] at hv
      split at hv
      · cases hv
      · exact Except.ok.inj hv ▸ C.values_scalar rfl
  call := by
    rintro l hl argument? s _ ⟨context, rfl, hcontexts, hkept⟩
    rw [call_apply, call_apply]
    refine .inr ⟨rfl, ⟨context, rfl, hcontexts, hkept.partials, fun l' argument?' hcall => ?_⟩, fun _ _ => trivial⟩
    rcases List.mem_cons.mp hcall with heq | hcall
    · cases heq
      exact hl
    · exact hkept.calls l' argument?' hcall
  answer hl _ _ _ hparse := ⟨C.templates_answer hl hparse, padding_of_mem_indents hparse⟩
  scalar := C.values_scalar
  fetch := by
    rintro name indent ⟨-, hindented⟩ s _ ⟨context, rfl, hcontexts, hkept⟩
    have hindent : Padding (Inclusion.mk name indent).indent := hindented indent List.mem_cons_self
    obtain ⟨htree, hafter⟩ := hkept.partialTree hindent
    obtain ⟨_, _, _, heq⟩ := exists_partialTree_eq env ⟨name, indent⟩ s
    obtain ⟨hresult, hstate⟩ := Prod.ext_iff.mp (partialTree_context env ⟨name, indent⟩ s context)
    refine .inr ⟨hresult.symm, ⟨context, hstate, ?_, hafter⟩, fun tree? hresult tree hsome => ?_⟩
    · rwa [heq]
    · exact htree tree (hsome ▸ hresult)
  trees_cons h := ⟨⟨(C.templates_cons h.1).1, h.2.cons.1⟩, (C.templates_cons h.1).2, h.2.cons.2⟩
  trees_block h := ⟨C.templates_block h.1, h.2.block⟩
  trees_inverted h := ⟨C.templates_inverted h.1, h.2.inverted⟩
  trees_partial h := ⟨C.templates_partial h.1, h.2⟩
  values_frame := C.values_frame
  output_eq := by
    rintro s _ ⟨context, rfl, -⟩
    rfl
  write := by
    rintro s _ ⟨context, rfl, hcontexts, hkept⟩ output
    exact ⟨context, rfl, hcontexts, hkept.partials, hkept.calls⟩
  enter := by
    rintro s _ ⟨context, rfl, hcontexts, hkept⟩ nesting name
    exact ⟨context, rfl, hcontexts, hkept.note rfl⟩
  leave := by
    rintro s _ ⟨context, rfl, hcontexts, hkept⟩
    exact ⟨context, rfl, hcontexts, hkept.note rfl⟩
  push := by
    rintro s _ ⟨context, rfl, hcontexts, hkept⟩ frame hframe
    exact ⟨context.push frame, rfl, C.push hcontexts hframe, hkept.partials, hkept.calls⟩
  truncate := by
    rintro s _ s' _ ⟨context, rfl, hcontexts, -⟩ ⟨context', rfl, hcontexts', hkept⟩
    exact ⟨context'.truncate context.size, rfl, C.truncate hcontexts hcontexts', hkept.partials, hkept.calls⟩

end Confinement
end Render
end Stencil
