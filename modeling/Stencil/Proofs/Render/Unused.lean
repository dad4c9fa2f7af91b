import Mathlib
import Stencil.Proofs.Render.Confined
import Stencil.Proofs.Render.Outcome

/-!
# Unused data

What is under a key that no tag asks for cannot be seen in a rendering. The frame of the root stays below all others, so it is
searched for every name that these do not have; but a name that starts with another key finds the same there, whatever is
under this one (`render_unused`).
-/

namespace Stencil

namespace Node

/-- No tag asks for what is under the key `k`: neither by its name, nor for the whole frame. -/
def Spares (k : String) (nodes : List Node) : Prop :=
  Every lookupOf (fun name => name ≠ "." ∧ (Context.segments name).head? ≠ some k) nodes

theorem Spares.of_bare_eq {k : String} {nodes nodes' : List Node} (h : Spares k nodes) (hbare : bare nodes' = bare nodes) :
    Spares k nodes' := by
  intro name hname
  have hname : name ∈ lookups nodes' := hname
  rw [← lookups_bare nodes', hbare, lookups_bare nodes] at hname
  exact h name hname

end Node

namespace Render

variable {σ : Type}

/-- The same frames over two roots. -/
def OverRoots (root root' : Value) (P : Value → Prop) (c c' : Context) : Prop :=
  ∃ inner, c.frames = inner ++ [root] ∧ c'.frames = inner ++ [root'] ∧ ∀ frame ∈ inner, P frame

namespace OverRoots

variable {root root' : Value} {P : Value → Prop} {c c' d d' : Context}

theorem ofValue (root root' : Value) (P : Value → Prop) : OverRoots root root' P (.ofValue root) (.ofValue root') :=
  ⟨[], rfl, rfl, List.forall_mem_nil P⟩

theorem push (h : OverRoots root root' P c c') {frame : Value} (hframe : P frame) :
    OverRoots root root' P (c.push frame) (c'.push frame) := by
  obtain ⟨inner, hc, hc', hinner⟩ := h
  exact ⟨frame :: inner, congrArg (frame :: ·) hc, congrArg (frame :: ·) hc', List.forall_mem_cons.mpr ⟨hframe, hinner⟩⟩

/-- The roots stay, since no frames are taken off but those that were put over what was there. -/
theorem truncate (h : OverRoots root root' P c c') (hd : OverRoots root root' P d d') :
    OverRoots root root' P (d.truncate c.size) (d'.truncate c'.size) := by
  obtain ⟨below, hc, hc', -⟩ := h
  obtain ⟨inner, hd, hd', hinner⟩ := hd
  have hsize : c'.size = c.size := by simp only [Context.size, hc, hc', List.length_append, List.length_singleton]
  have hlength : (inner ++ [root]).length - c.size ≤ inner.length := by
    simp only [Context.size, hc, List.length_append, List.length_singleton]
    omega
  refine ⟨inner.drop ((inner ++ [root]).length - c.size), ?_, ?_, fun frame hframe => hinner frame (List.mem_of_mem_drop hframe)⟩
  · rw [Context.truncate, hd, List.drop_append_of_le_length hlength]
  · have hlength' : (inner ++ [root']).length = (inner ++ [root]).length := by
      rw [List.length_append, List.length_append, List.length_singleton, List.length_singleton]
    rw [Context.truncate, hd', hsize, hlength', List.drop_append_of_le_length hlength]

theorem findSome?_eq (h : OverRoots root root' P c c') {first : String} (hroot : root'.lookup first = root.lookup first) :
    c'.frames.findSome? (·.lookup first) = c.frames.findSome? (·.lookup first) := by
  obtain ⟨inner, hc, hc', -⟩ := h
  rw [hc, hc', List.findSome?_append, List.findSome?_append, List.findSome?_singleton, List.findSome?_singleton, hroot]

theorem prop_of_findSome? (h : OverRoots root root' P c c') (hP : Value.Closed P) {first : String}
    (hroot : ∀ v, root.lookup first = some v → P v) {v : Value} (hv : c.frames.findSome? (·.lookup first) = some v) : P v := by
  obtain ⟨inner, hc, -, hinner⟩ := h
  obtain ⟨frame, hframe, hlookup⟩ := List.exists_of_findSome?_eq_some hv
  rw [hc, List.mem_append, List.mem_singleton] at hframe
  rcases hframe with hframe | rfl
  · exact hP.lookup (hinner frame hframe) hlookup
  · exact hroot v hlookup

end OverRoots

section Confinement

variable {env : Env σ} {k : String} {e e' : Entries Value} (hgives : env.host.Gives env.settings.delimiters (Node.Spares k))
  (heq : ∀ name, name ≠ k → e'.find? name = e.find? name)
  (hlambdas : ∀ name, name ≠ k → ∀ v, e.find? name = some v → v.AllLambdas fun _ => False)

/-- Templates that spare a key are confined to the other keys, and to what has no lambdas. -/
def Confinement.sparing : Confinement env where
  contexts := OverRoots (.map e) (.map e') (Value.AllLambdas fun _ => False)
  values := Value.AllLambdas fun _ => False
  templates := Node.Spares k
  partials := Node.Spares k
  get?_eq hcontexts hnode name hname := by
    obtain ⟨hdot, hkey⟩ := hnode name hname
    refine Context.get?_congr hdot fun first hfirst => hcontexts.findSome?_eq (heq first ?_)
    rintro rfl
    exact hkey hfirst
  get?_values hcontexts hnode name hname v hv := by
    obtain ⟨hdot, hkey⟩ := hnode name hname
    have hclosed := Value.AllLambdas.closed fun _ => False
    refine Context.get?_closed hclosed (fun h => absurd h hdot) (fun first hfirst w hw => ?_) hv
    refine hcontexts.prop_of_findSome? hclosed (hlambdas first ?_) hw
    rintro rfl
    exact hkey hfirst
  push h hframe := h.push hframe
  truncate h hd := h.truncate hd
  values_scalar := Value.AllLambdas.of_isScalar
  values_frame := (Value.AllLambdas.closed _).frames
  templates_answer hl := hl.of_lambda.elim
  templates_cons := Node.Every.cons
  templates_block := Node.Every.block
  templates_inverted := Node.Every.inverted
  templates_partial h := h
  partials_of_loaded h hbare _ := h.of_bare_eq hbare
  gives := hgives

end Confinement
end Render

namespace Renderer

open Render

variable {σ : Type}

/-- What is under a key that no tag asks for, be it a lambda, cannot be seen: what is rendered stays the same if it is changed,
added or taken out, with the same failures and the same loads, and no lambda is called if there is none elsewhere. -/
theorem render_unused (r : Renderer) {host : Host σ} {k source : String}
    (hhost : host.Gives r.settings.delimiters (Node.Spares k))
    (hsource : ∀ nodes, parse r.settings.delimiters source = .ok nodes → Node.Spares k nodes) {e e' : Entries Value}
    (heq : ∀ name, name ≠ k → e'.find? name = e.find? name)
    (hlambdas : ∀ name, name ≠ k → ∀ v, e.find? name = some v → v.AllLambdas fun _ => False) (memory : σ) :
    r.renderValue host memory source (.map e') = r.renderValue host memory source (.map e) ∧
      ∀ l argument?, .call l argument? ∉ (r.renderValue host memory source (.map e)).trace := by
  cases hparse : parse r.settings.delimiters source with
  | error error =>
    rw [renderValue, renderValue, renderContext_of_parse_error hparse, renderContext_of_parse_error hparse]
    exact ⟨rfl, nofun⟩
  | ok nodes =>
    let start (root : Value) : State σ := ⟨.ofValue root, [], "", memory, []⟩
    let C : Confinement ⟨r.settings, host⟩ := .sparing hhost heq hlambdas
    have hstart : C.Abreast (start (.map e)) (start (.map e')) := ⟨_, rfl, .ofValue _ _ _, nofun, nofun⟩
    have hnodes : C.templates nodes ∧ Indented nodes := ⟨hsource nodes hparse, padding_of_mem_indents hparse⟩
    let levels := r.settings.maxDepth
    have hruns := C.coupling.writeWith (.inl ⟨rfl, rfl⟩ : levels = levels ∧ _ ∨ _) hnodes _ _ hstart
    rw [← writeTree_eq_writeWith] at hruns
    rcases hruns with ⟨_, _, hexcused⟩ | ⟨hresult, ⟨context, hafter, -, hkept⟩, -⟩
    · exact hexcused.elim
    · rw [renderValue, renderValue, renderContext_of_parse hparse, renderContext_of_parse hparse, renderNodes_eq, renderNodes_eq]
      refine ⟨?_, fun l argument? hcall => ?_⟩
      · simp only [Outcome.ofRun, start] at hresult hafter ⊢
        rw [← hresult, hafter]
      · exact (hkept.calls l argument? (List.mem_reverse.mp hcall)).of_lambda

/-- A lambda that neither the text nor the partial asks for. -/
theorem render_unused_of_lambda :
    let source := "\x7b\x7b#a\x7d\x7d\x7b\x7bx\x7d\x7d\x7b\x7b>p\x7d\x7d\x7b\x7b/a\x7d\x7d"
    let host : Host Unit := ⟨fun _ _ memory => (.null, memory), some fun _ memory => (.ok "\x7b\x7bz\x7d\x7d", memory)⟩
    let e : Entries Value := [("a", .list [.map [("x", .string "1")]]), ("z", .string "2")]
    let e' : Entries Value := e.insert "key" (.lambda ⟨0, .nullary⟩)
    (standard.renderValue host () source (.map e)).result = .ok "12" ∧
      standard.renderValue host () source (.map e') = standard.renderValue host () source (.map e) := by
  intro source host e e'
  have hpartial : parse standard.settings.delimiters "\x7b\x7bz\x7d\x7d" = .ok [.interpolation "z" true] := by cbv
  have hparse : parse standard.settings.delimiters source =
      .ok [.block "a" [.interpolation "x" true, .inclusion "p" ""] "\x7b\x7bx\x7d\x7d\x7b\x7b>p\x7d\x7d" .standard] := by cbv
  have hhost : host.Gives standard.settings.delimiters (Node.Spares "key") := by
    rintro _ ⟨⟩ name memory _ ⟨⟩ nodes hnodes
    rw [hpartial] at hnodes
    rw [← Except.ok.inj hnodes]
    exact List.forall_mem_singleton.mpr ⟨by decide, by decide⟩
  have hsource (nodes : List Node) (hnodes : parse standard.settings.delimiters source = .ok nodes) :
      Node.Spares "key" nodes := by
    rw [hparse] at hnodes
    rw [← Except.ok.inj hnodes]
    refine List.forall_mem_cons.mpr ⟨⟨by decide, by decide⟩, ?_⟩
    exact List.forall_mem_singleton.mpr ⟨by decide, by decide⟩
  have heq (name : String) (hname : name ≠ "key") : e'.find? name = e.find? name := by
    rw [Entries.find?_insert, if_neg hname]
  have hentries : ∀ entry ∈ e, entry.2.AllLambdas fun _ => False := by
    refine List.forall_mem_cons.mpr ⟨.list (List.forall_mem_singleton.mpr (.map ?_)), List.forall_mem_singleton.mpr (.string "2")⟩
    exact List.forall_mem_singleton.mpr (.string "1")
  have hlambdas (name : String) (_ : name ≠ "key") (v : Value) (hv : e.find? name = some v) : v.AllLambdas fun _ => False :=
    Value.prop_of_find? hentries hv
  exact ⟨by cbv, (render_unused standard hhost hsource heq hlambdas ()).1⟩

end Renderer
end Stencil
