import Stencil.Proofs.Render.Job

/-!
# Laws of a rendering

A law relates the state before a step of a rendering to the state after it. If it holds of each step, and of what is done one
level further down, over one more frame or into a text of its own when it holds inside, then it holds of whole renderings:
of those that succeed and of those that fail, whatever lambdas and loaders answer.
-/

namespace Stencil.Render

variable {σ α β : Type} {env : Env σ} {P : State σ → State σ → Prop}

/-- `x` leads from each state to one that `P` relates it to. -/
def Leads (P : State σ → State σ → Prop) (x : Run σ α) : Prop := ∀ s, P s (x s).2

structure Law (env : Env σ) (P : State σ → State σ → Prop) : Prop where
  refl : ∀ s, P s s
  trans : ∀ {s t u}, P s t → P t u → P s u
  emit : ∀ text s, P s { s with output := s.output ++ text }
  call : ∀ l argument? s, P s (call env l argument? s).2
  /-- A partial is asked for only if it has not been read before. -/
  load : ∀ loader ∈ env.host.loader?, ∀ inclusion s, s.partials.lookup inclusion = none →
    P s (load env loader inclusion s).2
  nested : ∀ nesting name s s', P (s.note (.enter nesting name)) s' → P s (s'.note .leave)
  framed : ∀ frame s s', P { s with context := s.context.push frame } s' →
    P s { s' with context := s'.context.truncate s.context.size }
  captured : ∀ s s', P { s with output := "" } s' →
    P s { s' with context := s'.context.popTo s.context.size, output := s.output }

namespace Law

variable (h : Law env P)

include h

theorem still {x : Run σ α} (hx : ∀ s, (x s).2 = s) : Leads P x := by
  intro s
  rw [hx]
  exact h.refl s

theorem bind {x : Run σ α} {f : α → Run σ β} (hx : Leads P x) (hf : ∀ a, Leads P (f a)) : Leads P (x >>= f) := by
  intro s
  have hs := hx s
  rcases hrun : x s with ⟨result, s'⟩
  rw [hrun] at hs
  cases result with
  | error e =>
    rw [bind_of_error hrun]
    exact hs
  | ok a =>
    rw [bind_of_ok hrun]
    exact h.trans hs (hf a s')

theorem forM {f : α → Run σ Unit} (hf : ∀ a, Leads P (f a)) (as : List α) : Leads P (as.forM f) := by
  induction as with
  | nil => exact h.still fun _ => rfl
  | cons a as ih => exact h.bind (hf a) fun _ => ih

theorem resolve (name : String) : Leads P (resolve env name) := by
  refine h.still fun s => ?_
  rw [resolve_apply]

theorem partialTree (inclusion : Inclusion) : Leads P (partialTree env inclusion) := by
  intro s
  rw [Render.partialTree, bind_of_ok (get_apply s)]
  cases hlookup : s.partials.lookup inclusion with
  | some tree => exact h.refl s
  | none =>
    simp only
    cases hloader : env.host.loader? with
    | none => exact h.refl s
    | some loader => exact h.load loader hloader inclusion s hlookup

theorem answer (name : String) (delimiters : Delimiters) (l : Lambda) (argument? : Option String) {f : List Node → Run σ β}
    (hf : ∀ tree, Leads P (f tree)) :
    Leads P (Render.call env l argument? >>= fun v => liftM (answerTree name delimiters v) >>= f) :=
  h.bind (h.call l argument?) fun _ => h.bind (h.still fun _ => rfl) hf

theorem prepare (node : Node) : Leads P (prepare env (Render.partialTree env) node) := by
  cases node with
  | literal text => exact h.still fun _ => rfl
  | comment => exact h.still fun _ => rfl
  | interpolation name escaped =>
    refine h.bind (h.resolve name) fun v => ?_
    cases v with
    | lambda l =>
      simp only
      cases l.arity with
      | unary => exact h.still fun _ => rfl
      | nullary => exact h.answer _ _ _ _ fun tree => h.still fun _ => rfl
    | _ => exact h.bind (h.still fun _ => rfl) fun text => h.still fun _ => rfl
  | block name body raw delimiters =>
    refine h.bind (h.resolve name) fun v => ?_
    cases v with
    | lambda l =>
      simp only
      cases l.arity with
      | unary => exact h.answer _ _ _ _ fun tree => h.still fun _ => rfl
      | nullary => exact h.bind (h.call l none) fun v => h.bind (h.still fun _ => rfl) fun v => h.still fun _ => rfl
    | _ => exact h.still fun _ => rfl
  | inverted name body => exact h.bind (h.resolve name) fun _ => h.still fun _ => rfl
  | inclusion name indent =>
    refine h.bind (h.partialTree ⟨name, indent⟩) fun tree? => ?_
    cases tree? with
    | none => exact h.still fun _ => rfl
    | some tree => exact h.still fun _ => rfl

/-- What is done on the next level, if that is free. -/
theorem descend {level : Level σ} (nesting : Nesting) (name : String) {x : (List Node → Run σ Unit) → Run σ α}
    (hx : ∀ write ∈ level, Leads P (x write)) : Leads P (Render.nested env level nesting name x) := by
  cases level with
  | none => exact h.still fun _ => rfl
  | some write =>
    intro s
    exact h.nested nesting name s _ (hx write rfl (s.note (.enter nesting name)))

theorem inner {write : List Node → Run σ Unit} (hwrite : ∀ nodes, Leads P (write nodes)) (inner : Inner) :
    Leads P (inner.write write) := by
  rw [Inner.write]
  cases inner.frames? with
  | none => exact hwrite inner.nodes
  | some frames =>
    refine h.forM (fun frame => ?_) frames
    intro s
    exact h.framed frame s _ (hwrite inner.nodes { s with context := s.context.push frame })

theorem apart {x : Run σ Unit} (hx : Leads P x) : Leads P (Render.captured x) := fun s =>
  h.captured s _ (hx { s with output := "" })

section Routines

variable {level : Level σ} (hlevel : ∀ write ∈ level, ∀ nodes, Leads P (write nodes))

include hlevel

theorem job (job : Job) : Leads P (job.write env level) := by
  have hdescend (inner : Inner) : Leads P (Render.nested env level inner.nesting inner.name inner.write) :=
    h.descend _ _ fun write hwrite => h.inner (hlevel write hwrite) inner
  cases job with
  | nothing => exact h.still fun _ => rfl
  | plain text => exact h.emit text
  | deeper inner filter? =>
    cases filter? with
    | none => exact hdescend inner
    | some filter => exact h.bind (h.apart (hdescend inner)) fun text => h.emit _

theorem writeNode (node : Node) : Leads P (writeNode env level node) := by
  rw [writeNode_eq]
  exact h.bind (h.prepare node) fun job => h.job hlevel job

theorem writeOver (name : String) (body : List Node) (v : Value) : Leads P (writeOver env level name body v) := by
  rw [writeOver_eq]
  exact h.job hlevel _

theorem valueText (name : String) : Leads P (valueText env level name) := by
  refine h.bind (h.resolve name) fun v => ?_
  cases v with
  | lambda l =>
    simp only
    cases l.arity with
    | unary => exact h.still fun _ => rfl
    | nullary =>
      refine h.answer _ _ _ _ fun tree => h.descend _ _ fun write hwrite => ?_
      exact h.apart (hlevel write hwrite tree)
  | _ => exact h.still fun _ => rfl

end Routines

theorem writeTree (levels : Nat) (nodes : List Node) : Leads P (writeTree env levels nodes) := by
  induction levels generalizing nodes with
  | zero =>
    refine h.forM (h.writeNode ?_) nodes
    intro write hwrite
    cases hwrite
  | succ levels ih =>
    refine h.forM (h.writeNode ?_) nodes
    intro write hwrite
    obtain rfl := Option.some.inj hwrite
    exact ih

theorem below (levels : Nat) : ∀ write ∈ below env levels, ∀ nodes, Leads P (write nodes) := by
  intro write hwrite
  cases levels with
  | zero => cases hwrite
  | succ levels =>
    obtain rfl := Option.some.inj hwrite
    exact h.writeTree levels

end Law
end Stencil.Render
