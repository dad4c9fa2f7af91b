import Mathlib
import Stencil.Proofs.Render.Alike
import Stencil.Proofs.Render.Outcome

/-!
# Laxer settings

Settings that allow more only take failures away. With more levels of nesting, what did not run out of levels comes to the same
(`render_deeper`). If names may be missing, what did not fail for a name that is missing comes to the same (`render_strict`).
The same means that nothing can be seen of the difference: neither in the result nor in what was called and loaded.
-/

namespace Stencil.Render

variable {σ : Type}

def Env.withMissingTags (env : Env σ) (missingTags : MissingTags) : Env σ :=
  { env with settings := { env.settings with missingTags } }

section Depth

variable (env : Env σ)

/-- The template nests deeper than there are levels: whatever limit is to be named, writing it fails by naming that limit. -/
def RunsOut (levels : Nat) (nodes : List Node) (s : State σ) : Prop :=
  ∀ limit, ∃ nesting name, (writeTree (env.withDepth limit) levels nodes s).1 = .error (.render (.tooDeep nesting name limit))

private theorem tooDeep_or_eq {levels levels' : Nat} (h : levels ≤ levels') (depth depth' : Nat) (nodes : List Node)
    (s : State σ) :
    (∃ nesting name, (writeTree (env.withDepth depth) levels nodes s).1 = .error (.render (.tooDeep nesting name depth))) ∨
      writeTree (env.withDepth depth) levels nodes s = writeTree (env.withDepth depth') levels' nodes s := by
  let excuses (e : Error) : Prop := ∃ nesting name, e = .render (.tooDeep nesting name depth)
  let C : Coupling (env.withDepth depth) (env.withDepth depth') _ _ :=
    .ofEq env.host excuses ⟨fun _ => rfl, rfl⟩ (fun _ _ => .inr rfl) fun _ _ => .inr rfl
  have hexcused (nesting : Nesting) (name : String) : C.excuses (.render (.tooDeep nesting name depth)) := ⟨nesting, name, rfl⟩
  have hnodes : C.trees nodes := trivial
  have hruns := coupled_eq_iff.mp (C.writeWith (.inr ⟨h, hexcused⟩) hnodes) s
  rw [writeTree_eq_writeWith, writeTree_eq_writeWith]
  refine hruns.imp_left ?_
  rintro ⟨_, he, nesting, name, rfl⟩
  exact ⟨nesting, name, he⟩

/-- With more levels a template is written as before, unless it ran out of levels. -/
theorem writeTree_deeper {levels levels' : Nat} (h : levels ≤ levels') (nodes : List Node) (s : State σ) :
    RunsOut env levels nodes s ∨ ∀ depth depth',
      writeTree (env.withDepth depth) levels nodes s = writeTree (env.withDepth depth') levels' nodes s := by
  by_cases hout : RunsOut env levels nodes s
  · exact .inl hout
  · -- Where one limit is not named, no limit is: all runs are the same as the run with that one.
    obtain ⟨limit, hlimit⟩ := not_forall.mp hout
    refine .inr fun depth depth' => ?_
    have hshallow := (tooDeep_or_eq env (Nat.le_refl levels) limit depth nodes s).resolve_left hlimit
    have hdeep := (tooDeep_or_eq env h limit depth' nodes s).resolve_left hlimit
    exact hshallow.symm.trans hdeep

end Depth

section MissingTags

variable (env : Env σ)

/-- The failures that strict settings add. -/
def StrictOnly (e : Error) : Prop :=
  (∃ name, e = .keyNotFound name) ∨ env.host.loader?.isSome = true ∧ ∃ name, e = .templateNotFound name

theorem resolve_strict (name : String) (s : State σ) :
    (∃ e, (resolve (env.withMissingTags .strict) name s).1 = .error e ∧ StrictOnly env e) ∨
      resolve (env.withMissingTags .strict) name s = resolve (env.withMissingTags .ignore) name s := by
  rw [resolve_apply, resolve_apply]
  cases s.context.get? name with
  | some v => exact .inr rfl
  | none => exact .inl ⟨.keyNotFound name, rfl, .inl ⟨name, rfl⟩⟩

/-- Settings that are not strict take an answer as strict settings do, unless it is that the name is not known. -/
theorem templateOf_strict (inclusion : Inclusion) (answer : Except Error String) :
    (∃ name, templateOf (env.withMissingTags .strict).settings inclusion answer = .error (.templateNotFound name)) ∨
      templateOf (env.withMissingTags .strict).settings inclusion answer =
        templateOf (env.withMissingTags .ignore).settings inclusion answer := by
  cases answer with
  | ok source => exact .inr rfl
  | error e =>
    cases e with
    | templateNotFound name => exact .inl ⟨name, rfl⟩
    | _ => exact .inr rfl

theorem partialTree_strict (inclusion : Inclusion) (s : State σ) :
    (∃ e, (partialTree (env.withMissingTags .strict) inclusion s).1 = .error e ∧ StrictOnly env e) ∨
      partialTree (env.withMissingTags .strict) inclusion s = partialTree (env.withMissingTags .ignore) inclusion s := by
  have hhost (missingTags : MissingTags) : (env.withMissingTags missingTags).host = env.host := rfl
  rw [partialTree_apply, partialTree_apply, hhost, hhost]
  cases s.partials.lookup inclusion with
  | some tree => exact .inr rfl
  | none =>
    cases hloader : env.host.loader? with
    | none => exact .inr rfl
    | some loader =>
      simp only
      rw [load_apply, load_apply]
      rcases templateOf_strict env inclusion (loader inclusion.name s.memory).1 with ⟨name, hname⟩ | heq
      · refine .inl ⟨.templateNotFound name, ?_, .inr ⟨hloader ▸ rfl, name, rfl⟩⟩
        simp only [hname]
      · exact .inr (by simp only [heq])

/-- Without strict settings a template is written as with them, unless strict settings make it fail. -/
theorem writeTree_strict (levels : Nat) (nodes : List Node) (s : State σ) :
    (∃ e, (writeTree (env.withMissingTags .strict) levels nodes s).1 = .error e ∧ StrictOnly env e) ∨
      writeTree (env.withMissingTags .strict) levels nodes s = writeTree (env.withMissingTags .ignore) levels nodes s := by
  let C : Coupling (env.withMissingTags .strict) (env.withMissingTags .ignore) _ _ :=
    .ofEq env.host (StrictOnly env) ⟨fun _ => rfl, rfl⟩ (resolve_strict env) (partialTree_strict env)
  have hnodes : C.trees nodes := trivial
  rw [writeTree_eq_writeWith, writeTree_eq_writeWith]
  exact coupled_eq_iff.mp (C.writeWith (.inl ⟨rfl, rfl⟩) hnodes) s

end MissingTags
end Stencil.Render

namespace Stencil.Renderer

open Render

variable {σ : Type}

theorem renderNodes_deeper (r : Renderer) (host : Host σ) (memory : σ) (nodes : List Node) (context : Context)
    {depth depth' : Nat} (h : depth ≤ depth') :
    let shallow := (r.withDepth depth).renderNodes host memory nodes context
    let deep := (r.withDepth depth').renderNodes host memory nodes context
    (∃ nesting name, shallow.result = .error (.render (.tooDeep nesting name depth))) ∧
        RunsOut ⟨r.settings, host⟩ depth nodes ⟨context, [], "", memory, []⟩ ∨ deep = shallow := by
  intro shallow deep
  let start : State σ := ⟨context, [], "", memory, []⟩
  rcases writeTree_deeper ⟨r.settings, host⟩ h nodes start with hout | heq
  · obtain ⟨nesting, name, hresult⟩ := hout depth
    have hshallow : shallow.result = (Except.error (Error.render (.tooDeep nesting name depth))).map fun _ => _ :=
      congrArg (Except.map _) hresult
    exact .inl ⟨⟨nesting, name, hshallow⟩, hout⟩
  · exact .inr (congrArg Outcome.ofRun (heq depth depth')).symm

/-- Where more levels of nesting are allowed, a text is rendered as before, with the same calls and the same loads, unless it
failed before because it nests deeper than was allowed. -/
theorem render_deeper (r : Renderer) (host : Host σ) (memory : σ) (source : String) (context : Context) {depth depth' : Nat}
    (h : depth ≤ depth') :
    let shallow := (r.withDepth depth).renderContext host memory source context
    let deep := (r.withDepth depth').renderContext host memory source context
    (∃ nesting name nodes, shallow.result = .error (.render (.tooDeep nesting name depth)) ∧
        parse r.settings.delimiters source = .ok nodes ∧
        RunsOut ⟨r.settings, host⟩ depth nodes ⟨context, [], "", memory, []⟩) ∨ deep = shallow := by
  intro shallow deep
  have hdelimiters : (r.withDepth depth').settings.delimiters = (r.withDepth depth).settings.delimiters := rfl
  have hcases := renderContext_cases hdelimiters source host memory context context
  rcases hcases with ⟨nodes, hparse, hshallow, hdeep⟩ | heq
  · rw [show shallow = _ from hshallow, show deep = _ from hdeep]
    rcases renderNodes_deeper r host memory nodes context h with ⟨⟨nesting, name, hresult⟩, hout⟩ | heq
    · exact .inl ⟨nesting, name, nodes, hresult, hparse, hout⟩
    · exact .inr heq
  · exact .inr heq

/-- Two sections are as well written with three levels as with two. -/
theorem render_deeper_of_two_sections :
    let source := "\x7b\x7b#a\x7d\x7d\x7b\x7b#b\x7d\x7dx\x7b\x7b/b\x7d\x7d\x7b\x7b/a\x7d\x7d"
    let data : Context := .ofValue (.map [("a", .bool true), ("b", .bool true)])
    let host : Host Unit := ⟨fun _ _ memory => (.null, memory), none⟩
    2 ≤ 3 ∧ ((standard.withDepth 2).renderContext host () source data).result = .ok "x" ∧
      (standard.withDepth 3).renderContext host () source data = (standard.withDepth 2).renderContext host () source data := by
  intro source data host
  have hshallow : ((standard.withDepth 2).renderContext host () source data).result = .ok "x" := by cbv
  have hle : 2 ≤ 3 := by decide
  refine ⟨hle, hshallow, ?_⟩
  rcases render_deeper standard host () source data hle with ⟨nesting, name, nodes, hdeep, -⟩ | heq
  · rw [hshallow] at hdeep
    cases hdeep
  · exact heq

def withMissingTags (r : Renderer) (missingTags : MissingTags) : Renderer :=
  { r with settings := { r.settings with missingTags } }

theorem renderNodes_strict (r : Renderer) (host : Host σ) (memory : σ) (nodes : List Node) (context : Context) :
    let strict := (r.withMissingTags .strict).renderNodes host memory nodes context
    let lenient := (r.withMissingTags .ignore).renderNodes host memory nodes context
    (∃ e, strict.result = .error e ∧ StrictOnly ⟨r.settings, host⟩ e) ∨ lenient = strict := by
  intro strict lenient
  let start : State σ := ⟨context, [], "", memory, []⟩
  rcases writeTree_strict ⟨r.settings, host⟩ r.settings.maxDepth nodes start with ⟨e, hresult, he⟩ | heq
  · have hstrict : strict.result = (Except.error e).map fun _ => _ := congrArg (Except.map _) hresult
    exact .inl ⟨e, hstrict, he⟩
  · exact .inr (congrArg Outcome.ofRun heq).symm

/-- Strict settings only add failures: a name that has no value, or a partial that the loader does not know. If neither is the
failure of the strict rendering, then the one that is not strict comes to the same, with the same calls and the same loads. -/
theorem render_strict (r : Renderer) (host : Host σ) (memory : σ) (source : String) (context : Context) :
    let strict := (r.withMissingTags .strict).renderContext host memory source context
    let lenient := (r.withMissingTags .ignore).renderContext host memory source context
    (∃ name, strict.result = .error (.keyNotFound name)) ∨
      (host.loader?.isSome = true ∧ ∃ name, strict.result = .error (.templateNotFound name)) ∨ lenient = strict := by
  intro strict lenient
  have hdelimiters : (r.withMissingTags .ignore).settings.delimiters = (r.withMissingTags .strict).settings.delimiters := rfl
  have hcases := renderContext_cases hdelimiters source host memory context context
  rcases hcases with ⟨nodes, -, hstrict, hlenient⟩ | heq
  · rw [show strict = _ from hstrict, show lenient = _ from hlenient]
    rcases renderNodes_strict r host memory nodes context with ⟨_, hresult, ⟨name, rfl⟩ | ⟨hloader, name, rfl⟩⟩ | heq
    · exact .inl ⟨name, hresult⟩
    · exact .inr (.inl ⟨hloader, name, hresult⟩)
    · exact .inr (.inr heq)
  · exact .inr (.inr heq)

end Stencil.Renderer
