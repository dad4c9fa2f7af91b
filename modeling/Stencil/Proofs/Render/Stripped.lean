import Stencil.Proofs.Context
import Stencil.Proofs.Render.Coupling
import Stencil.Proofs.Render.Paste
import Stencil.Proofs.Render.Restore
import Stencil.Proofs.Stripped

/-!
# Rendering without comments

Comments write nothing, and literals write the same one by one or as one. The raw text of a block is seen only by a lambda that
takes an argument. So over data without such lambdas, a template is rendered as it is without its comments and raw texts
(`Renderer.renderNodes_stripped`).
-/

namespace Stencil

namespace Render

variable {σ α : Type} {env : Env σ}

/-- The frames hold no lambda that takes an argument. -/
def Textless (c : Context) : Prop := c.All (Value.AllLambdas (·.arity = .nullary))

/-- Over frames without lambdas that take an argument, both come to the same and leave such frames behind. -/
abbrev Agree (Q : α → Prop) (x y : Run σ α) : Prop :=
  Coupled (fun _ => False) (fun s t => s = t ∧ Textless s.context) Q x y

theorem Agree.eq {Q : α → Prop} {x y : Run σ α} (h : Agree Q x y) {s : State σ} (hs : Textless s.context) : x s = y s := by
  rcases h s s ⟨rfl, hs⟩ with ⟨e, -, hfalse⟩ | ⟨hresult, ⟨hafter, -⟩, -⟩
  · exact hfalse.elim
  · exact Prod.ext hresult hafter

/-- What leaves the frames as they are agrees with itself. -/
theorem Agree.of_leads {x : Run σ Unit} (h : Leads Restores x) : Agree (fun _ => True) x x := by
  rintro s _ ⟨rfl, hs⟩
  refine .inr ⟨rfl, ⟨rfl, ?_⟩, fun _ _ => trivial⟩
  rw [Textless, (h s).context_eq]
  exact hs

theorem Agree.resolve (name : String) :
    Agree (Value.AllLambdas (·.arity = .nullary)) (resolve env name) (resolve env name) := by
  rintro s _ ⟨rfl, hs⟩
  refine .inr ⟨rfl, ⟨rfl, ?_⟩, ?_⟩
  · rw [resolve_apply]
    exact hs
  · intro v hv
    rw [resolve_apply] at hv
    cases hget : s.context.get? name with
    | some found =>
      rw [hget, valueOf] at hv
      obtain rfl := Except.ok.inj hv
      exact hs.get? (Value.AllLambdas.closed _) hget
    | none =>
      rw [hget, valueOf] at hv
      split at hv
      · cases hv
      · obtain rfl := Except.ok.inj hv
        exact .null

theorem Agree.withFrame {x y : Run σ Unit} (h : Agree (fun _ => True) x y) {frame : Value}
    (hframe : frame.AllLambdas (·.arity = .nullary)) : Agree (fun _ => True) (withFrame frame x) (withFrame frame y) := by
  rintro s _ ⟨rfl, hs⟩
  rcases h { s with context := s.context.push frame } _ ⟨rfl, hs.push hframe⟩ with
    ⟨e, -, hfalse⟩ | ⟨hresult, ⟨hafter, htextless⟩, -⟩
  · exact hfalse.elim
  · refine .inr ⟨hresult, ⟨?_, htextless.truncate _⟩, fun _ _ => trivial⟩
    exact congrArg (fun after : State σ => { after with context := after.context.truncate s.context.size }) hafter

theorem Agree.nested {level : Level σ} (nesting : Nesting) (name : String) {x y : (List Node → Run σ Unit) → Run σ Unit}
    (h : ∀ write ∈ level, Agree (fun _ => True) (x write) (y write)) :
    Agree (fun _ => True) (nested env level nesting name x) (nested env level nesting name y) := by
  cases level with
  | none => exact .throw _
  | some write =>
    rintro s _ ⟨rfl, hs⟩
    rcases h write rfl (s.note (.enter nesting name)) _ ⟨rfl, hs⟩ with
      ⟨e, -, hfalse⟩ | ⟨hresult, ⟨hafter, htextless⟩, -⟩
    · exact hfalse.elim
    · exact .inr ⟨hresult, ⟨congrArg (State.note .leave) hafter, htextless⟩, fun _ _ => trivial⟩

section Bodies

variable {level : Level σ} {body body' : List Node}
  (hbody : ∀ write ∈ level, Agree (fun _ => True) (write body) (write body'))
include hbody

theorem Agree.writeOver (name : String) {v : Value} (hv : v.AllLambdas (·.arity = .nullary)) :
    Agree (fun _ => True) (writeOver env level name body v) (writeOver env level name body' v) := by
  rw [Render.writeOver, Render.writeOver]
  split
  · refine Agree.nested _ _ fun write hwrite => .forM fun frame hframe => ?_
    exact (hbody write hwrite).withFrame ((Value.AllLambdas.closed _).frames hv frame hframe)
  · exact .pure trivial

theorem Agree.writeBlock (name raw raw' : String) (d : Delimiters) :
    Agree (fun _ => True) (writeBlock env level name body raw d) (writeBlock env level name body' raw' d) := by
  refine (Agree.resolve name).bind fun v hv => ?_
  cases v with
  | lambda l =>
    have harity : l.arity = .nullary := hv.of_lambda
    simp only [harity]
    have hcall : Agree (fun _ => True) (call env l none) (call env l none) := by
      rintro s _ ⟨rfl, hs⟩
      exact .inr ⟨rfl, ⟨rfl, hs⟩, fun _ _ => trivial⟩
    refine hcall.bind fun answer _ => ?_
    refine (Coupled.still (Q := Value.AllLambdas (·.arity = .nullary)) (scalar name answer) (fun _ => rfl) ?_).bind
      fun w hw => Agree.writeOver hbody name hw
    intro w hw
    rw [scalar] at hw
    split at hw
    · next hscalar => exact Except.ok.inj hw ▸ .of_isScalar hscalar
    · cases hw
  | _ => exact Agree.writeOver hbody name hv

theorem Agree.writeInverted (name : String) :
    Agree (fun _ => True) (writeInverted env level name body) (writeInverted env level name body') := by
  refine (Agree.resolve name).bind fun v _ => ?_
  split
  · exact .pure trivial
  · exact Agree.nested _ _ hbody

end Bodies

theorem writeTree_nil (env : Env σ) (levels : Nat) : writeTree env levels [] = pure () := by
  rw [writeTree_eq]
  rfl

/-- A node is written as what is left of it, if bodies are. -/
theorem writeNode_agree {levels : Nat}
    (hbelow : ∀ write ∈ below env levels, ∀ nodes, Agree (fun _ => True) (write nodes) (write (Node.stripped nodes)))
    (node : Node) : Agree (fun _ => True) (writeNode env (below env levels) node)
      (writeTree env levels (Node.strippedNode node)) := by
  have hself : Agree (fun _ => True) (writeNode env (below env levels) node) (writeNode env (below env levels) node) :=
    .of_leads ((restores_law env).writeNode ((restores_law env).below levels) node)
  cases node with
  | literal | interpolation | inclusion =>
    rw [Node.strippedNode, writeTree_singleton]
    exact hself
  | comment =>
    rw [Node.strippedNode, writeTree_nil]
    exact .pure trivial
  | block name body raw d =>
    rw [Node.strippedNode, writeTree_singleton]
    exact Agree.writeBlock (fun write hwrite => hbelow write hwrite body) name raw "" d
  | inverted name body =>
    rw [Node.strippedNode, writeTree_singleton]
    exact Agree.writeInverted (fun write hwrite => hbelow write hwrite body) name

/-- Over data without lambdas that take an argument, comments and raw texts do not matter. -/
theorem writeTree_stripped (env : Env σ) (levels : Nat) (nodes : List Node) :
    Agree (fun _ => True) (writeTree env levels nodes) (writeTree env levels (Node.stripped nodes)) := by
  induction levels using Nat.strongRecOn generalizing nodes with
  | ind levels ih =>
    have hbelow : ∀ write ∈ below env levels, ∀ nodes,
        Agree (fun _ => True) (write nodes) (write (Node.stripped nodes)) := by
      intro write hwrite
      cases levels with
      | zero => cases hwrite
      | succ levels =>
        obtain rfl := Option.some.inj hwrite
        exact ih levels (Nat.lt_succ_self levels)
    induction nodes with
    | nil => exact .of_leads ((restores_law env).writeTree levels [])
    | cons node nodes ihnodes =>
      rw [writeTree_cons, Node.stripped_cons, writeTree_fuse]
      exact (writeNode_agree hbelow node).bind fun _ _ => ihnodes

end Render

namespace Renderer

variable {σ : Type}

/-- Templates that are the same without comments and raw texts are rendered alike over data without lambdas that take an
argument. -/
theorem renderNodes_stripped {nodes nodes' : List Node} (h : Node.stripped nodes' = Node.stripped nodes) (r : Renderer)
    (host : Host σ) (memory : σ) {context : Context} (hcontext : Render.Textless context) :
    r.renderNodes host memory nodes' context = r.renderNodes host memory nodes context := by
  have hwrite (nodes : List Node) := (Render.writeTree_stripped ⟨r.settings, host⟩ r.settings.maxDepth nodes).eq
    (s := ⟨context, [], "", memory, []⟩) hcontext
  rw [renderNodes_eq, renderNodes_eq, hwrite nodes, hwrite nodes', h]

end Renderer
end Stencil
