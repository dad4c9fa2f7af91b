import Stencil.Proofs.Render.Run
import Stencil.Render.Basic

/-!
# What a node comes to

Writing a node has two parts. The first looks names up, calls lambdas, asks for partials and reads what they answer. It takes
no level of nesting and ends in a job: nothing, a text, or a template to be written one level further down. The second does
the job. `writeNode_eq` puts the writing of a node together from the two, so what is true of all jobs is true of all nodes.
-/

namespace Stencil.Render

variable {σ : Type}

/-- A template that is written one level of nesting further down. -/
structure Inner where
  nesting : Nesting
  name : String
  nodes : List Node
  /-- The frames it is written over, one after the other. Without any it is written once, over the frames as they are. -/
  frames? : Option (List Value)

def Inner.write (inner : Inner) (write : List Node → Run σ Unit) : Run σ Unit :=
  match inner.frames? with
  | none => write inner.nodes
  | some frames => frames.forM fun frame => withFrame frame (write inner.nodes)

/-- What is left to do for a node when all is known about it. -/
inductive Job where
  | nothing
  | plain (text : String)
  /-- What the template writes stays as it is, or passes through a filter. -/
  | deeper (inner : Inner) (filter? : Option (String → String))

namespace Job

def write (env : Env σ) (level : Level σ) : Job → Run σ Unit
  | nothing => pure ()
  | plain text => emit text
  | deeper inner none => nested env level inner.nesting inner.name inner.write
  | deeper inner (some filter) => do
    let text ← captured (nested env level inner.nesting inner.name inner.write)
    emit (filter text)

/-- The job of a section body over a value. -/
def ofBlock (name : String) (body : List Node) (v : Value) : Job :=
  if v.holds then deeper ⟨.block, name, body, some (v.items?.getD [v])⟩ none else nothing

end Job

/-- The job of a node, where `fetch` finds the template of a partial. -/
def prepare (env : Env σ) (fetch : Inclusion → Run σ (Option (List Node))) : Node → Run σ Job
  | .literal text => return .plain text
  | .comment => return .nothing
  | .interpolation name escaped => do
    let filter := if escaped then env.settings.escape else env.settings.literal
    match ← resolve env name with
    | .lambda l =>
      match l.arity with
      | .unary => throw (.render (.sectionLambda name))
      | .nullary =>
        let tree ← answerTree name env.settings.delimiters (← call env l none)
        return .deeper ⟨.lambda, name, tree, none⟩ (some filter)
    | v => return .plain (filter (← v.text))
  | .block name body raw delimiters => do
    match ← resolve env name with
    | .lambda l =>
      match l.arity with
      | .unary =>
        let tree ← answerTree name delimiters (← call env l (some raw))
        return .deeper ⟨.lambda, name, tree, none⟩ none
      | .nullary => return .ofBlock name body (← scalar name (← call env l none))
    | v => return .ofBlock name body v
  | .inverted name body => do
    let v ← resolve env name
    return if v.holds then .nothing else .deeper ⟨.block, name, body, none⟩ none
  | .inclusion name indent => do
    match ← fetch ⟨name, indent⟩ with
    | none => return .nothing
    | some tree => return .deeper ⟨.inclusion, name, tree, none⟩ none

/-- What a name comes to. One that has no value is nothing, or a failure if the settings are strict. -/
def valueOf (settings : Settings) (name : String) : Option Value → Except Error Value
  | some v => .ok v
  | none =>
    match settings.missingTags with
    | .strict => .error (.keyNotFound name)
    | .ignore => .ok .null

theorem resolve_apply (env : Env σ) (name : String) (s : State σ) :
    resolve env name s = (valueOf env.settings name (s.context.get? name), s) := by
  rw [resolve, bind_of_ok (get_apply s)]
  cases s.context.get? name with
  | some v => rfl
  | none =>
    simp only [valueOf]
    cases env.settings.missingTags with
    | strict | ignore => rfl

theorem call_apply (env : Env σ) (l : Lambda) (argument? : Option String) (s : State σ) :
    call env l argument? s =
      let (v, memory) := env.host.answer l argument? s.memory
      (.ok v, State.note (.call l argument?) { s with memory }) := rfl

theorem nested_of_eq {env : Env σ} {write : List Node → Run σ Unit} {nesting : Nesting} {name : String}
    {x : (List Node → Run σ Unit) → Run σ Unit} {s s' : State σ} {result : Except Error Unit}
    (h : x write (s.note (.enter nesting name)) = (result, s')) :
    nested env (some write) nesting name x s = (result, s'.note .leave) := by
  change ((x write (s.note (.enter nesting name))).1, (x write (s.note (.enter nesting name))).2.note .leave) = _
  rw [h]

/-- It is the same whether a level is taken for a text of its own or while one is written. -/
theorem captured_nested (env : Env σ) (level : Level σ) (nesting : Nesting) (name : String)
    (x : (List Node → Run σ Unit) → Run σ Unit) :
    captured (nested env level nesting name x) = nested env level nesting name fun write => captured (x write) := by
  cases level with
  | none =>
    funext s
    exact captured_of_error rfl
  | some write => rfl

theorem writeOver_eq (env : Env σ) (level : Level σ) (name : String) (body : List Node) (v : Value) :
    writeOver env level name body v = (Job.ofBlock name body v).write env level := by
  unfold writeOver Job.ofBlock
  split
  · rfl
  · rfl

/-- Writing a node is finding out what it comes to, and then doing that. -/
theorem writeNode_eq (env : Env σ) (level : Level σ) (node : Node) :
    writeNode env level node = prepare env (partialTree env) node >>= Job.write env level := by
  cases node with
  | literal text => rfl
  | comment => rfl
  | interpolation name escaped =>
    simp only [writeNode, valueText, prepare, bind_assoc]
    congr 1
    funext v
    cases v with
    | lambda l =>
      simp only
      cases l.arity with
      | unary => rfl
      | nullary =>
        simp only [bind_assoc, pure_bind, Job.write, captured_nested]
        rfl
    | _ =>
      simp only [bind_assoc]
      rfl
  | block name body raw delimiters =>
    simp only [writeNode, writeBlock, prepare, bind_assoc]
    congr 1
    funext v
    cases v with
    | lambda l =>
      simp only
      cases l.arity with
      | unary =>
        simp only [bind_assoc]
        rfl
      | nullary =>
        simp only [bind_assoc, writeOver_eq]
        rfl
    | _ => exact writeOver_eq _ _ _ _ _
  | inverted name body =>
    simp only [writeNode, writeInverted, prepare, bind_assoc]
    congr 1
    funext v
    cases v.holds with
    | true => rfl
    | false => rfl
  | inclusion name indent =>
    simp only [writeNode, writePartial, prepare, bind_assoc]
    congr 1
    funext tree?
    cases tree? with
    | none => rfl
    | some tree => rfl

/-- The level below the highest of so many levels. -/
def below (env : Env σ) : Nat → Level σ
  | 0 => none
  | levels + 1 => some (writeTree env levels)

theorem writeTree_eq (env : Env σ) (levels : Nat) (nodes : List Node) :
    writeTree env levels nodes = nodes.forM (writeNode env (below env levels)) := by
  cases levels with
  | zero => rfl
  | succ levels => rfl

theorem writeTree_cons (env : Env σ) (levels : Nat) (node : Node) (nodes : List Node) :
    writeTree env levels (node :: nodes) =
      writeNode env (below env levels) node >>= fun _ => writeTree env levels nodes := by
  rw [writeTree_eq, writeTree_eq]
  rfl

theorem writeTree_singleton (env : Env σ) (levels : Nat) (node : Node) :
    writeTree env levels [node] = writeNode env (below env levels) node := by
  rw [writeTree_eq]
  exact bind_pure_unit

end Stencil.Render
