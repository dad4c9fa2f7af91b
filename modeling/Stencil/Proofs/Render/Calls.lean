import Stencil.Proofs.PlainForm
import Stencil.Proofs.Render.Confined
import Stencil.Proofs.Render.Outcome

/-!
# Calls of lambdas

A rendering calls lambdas as an evaluator does that is put together from evaluators of the parts of a template, one after the
other (`Renderer.renderNodes_calls`). These are handed the frames in which names are looked up, and give back what was written
and which calls were made. Only `ask` makes a call, and only the tags of names ask.
-/

namespace Stencil

namespace Value

/-- No lambda is held by the value, however deep. -/
def Lambdaless : Value → Prop := AllLambdas fun _ => False

namespace Lambdaless

theorem of_isScalar {v : Value} (h : v.isScalar = true) : v.Lambdaless := AllLambdas.of_isScalar h

theorem closed : Closed Lambdaless := AllLambdas.closed _

end Lambdaless
end Value

namespace Render

variable {σ α β : Type}

/-- A call of a lambda. -/
structure Call where
  lambda : Lambda
  argument? : Option String
deriving DecidableEq, Repr

def Call.event (call : Call) : Event := .call call.lambda call.argument?

/-- What lasts from one step to the next: the partials read so far and the memory of the host. -/
structure Store (σ : Type) where
  partials : List (Inclusion × List Node)
  memory : σ

/-- What comes of a step, whether it succeeds or fails. -/
structure Evaluation (σ α : Type) where
  /-- The calls that were made, in order. -/
  calls : List Call
  text : String
  result : Except Error α
  store : Store σ

def Evaluator (σ α : Type) : Type := Store σ → Evaluation σ α

namespace Evaluator

def give (result : Except Error α) : Evaluator σ α := fun store => ⟨[], "", result, store⟩

/-- Nothing follows on a failure. -/
def andThen (x : Evaluator σ α) (f : α → Evaluator σ β) : Evaluator σ β := fun store =>
  let before := x store
  match before.result with
  | .error e => ⟨before.calls, before.text, .error e, before.store⟩
  | .ok a =>
    let after := f a before.store
    ⟨before.calls ++ after.calls, before.text ++ after.text, after.result, after.store⟩

instance : Monad (Evaluator σ) where
  pure a := give (.ok a)
  bind := andThen

def write (text : String) : Evaluator σ Unit := fun store => ⟨[], text, .ok (), store⟩

/-- Gives the text that `x` writes, which is not written. -/
def capture (x : Evaluator σ Unit) : Evaluator σ String := fun store =>
  let after := x store
  ⟨after.calls, "", after.result.map fun _ => after.text, after.store⟩

def ask (host : Host σ) (l : Lambda) (argument? : Option String) : Evaluator σ Value := fun store =>
  let (v, memory) := host.answer l argument? store.memory
  ⟨[⟨l, argument?⟩], "", .ok v, { store with memory }⟩

def fetch (env : Env σ) (inclusion : Inclusion) : Evaluator σ (Option (List Node)) := fun store =>
  match store.partials.lookup inclusion, env.host.loader? with
  | some tree, _ => give (.ok (some tree)) store
  | none, none => give (.error (.templateNotFound inclusion.name)) store
  | none, some loader =>
    let (answer, memory) := loader inclusion.name store.memory
    match templateOf env.settings inclusion answer with
    | .ok (some tree) => give (.ok (some tree)) ⟨(inclusion, tree) :: store.partials, memory⟩
    | result => give result { store with memory }

end Evaluator

open Evaluator

/-- How a template one level further down is evaluated over a context, if there is such a level. -/
abbrev Deeper (σ : Type) : Type := Option (Context → List Node → Evaluator σ Unit)

section Evaluate

variable (env : Env σ) (deeper : Deeper σ) (c : Context)

def descend (nesting : Nesting) (name : String) (x : (Context → List Node → Evaluator σ Unit) → Evaluator σ Unit) :
    Evaluator σ Unit :=
  match deeper with
  | none => give (.error (.render (.tooDeep nesting name env.settings.maxDepth)))
  | some evaluate => x evaluate

def evaluateAnswer (name : String) (d : Delimiters) (v : Value) : Evaluator σ Unit := do
  let tree ← give (answerTree name d v)
  descend env deeper .lambda name fun evaluate => evaluate c tree

def evaluateOver (name : String) (body : List Node) (v : Value) : Evaluator σ Unit :=
  if v.holds then
    descend env deeper .block name fun evaluate => (v.items?.getD [v]).forM fun frame => evaluate (c.push frame) body
  else pure ()

def evaluateText (name : String) : Evaluator σ String := do
  match ← give (valueOf env.settings name (c.get? name)) with
  | .lambda l =>
    match l.arity with
    | .unary => give (.error (.render (.sectionLambda name)))
    | .nullary =>
      let v ← ask env.host l none
      capture (evaluateAnswer env deeper c name env.settings.delimiters v)
  | v => give v.text

/-- Each time a variable stands for a lambda without an argument, or a section for any lambda, it is asked once, before
anything is done with the answer. -/
def evaluateNode : Node → Evaluator σ Unit
  | .literal text => write text
  | .comment => pure ()
  | .interpolation name escaped => do
    let text ← evaluateText env deeper c name
    write ((if escaped then env.settings.escape else env.settings.literal) text)
  | .block name body raw d => do
    match ← give (valueOf env.settings name (c.get? name)) with
    | .lambda l =>
      match l.arity with
      | .unary =>
        let v ← ask env.host l (some raw)
        evaluateAnswer env deeper c name d v
      | .nullary =>
        let v ← ask env.host l none
        let v ← give (scalar name v)
        evaluateOver env deeper c name body v
    | v => evaluateOver env deeper c name body v
  | .inverted name body => do
    let v ← give (valueOf env.settings name (c.get? name))
    if v.holds then pure () else descend env deeper .block name fun evaluate => evaluate c body
  | .inclusion name indent => do
    match ← fetch env ⟨name, indent⟩ with
    | none => pure ()
    | some tree => descend env deeper .inclusion name fun evaluate => evaluate c tree

end Evaluate

/-- Evaluates a template over a context, with so many levels of nesting to go. -/
def evaluate (env : Env σ) : Nat → Context → List Node → Evaluator σ Unit
  | 0, c, nodes => nodes.forM (evaluateNode env none c)
  | levels + 1, c, nodes => nodes.forM (evaluateNode env (some (evaluate env levels)) c)

def State.store (s : State σ) : Store σ := ⟨s.partials, s.memory⟩

/-- The run from `s` came to what the evaluation says, and what was there before is kept in front of it. -/
structure Shows (s : State σ) (run : Except Error α × State σ) (e : Evaluation σ α) : Prop where
  result_eq : run.1 = e.result
  context_eq : run.2.context = s.context
  output_eq : run.2.output = s.output ++ e.text
  store_eq : run.2.store = e.store
  calls_eq : calls run.2.events = (e.calls.map Call.event).reverse ++ calls s.events

/-- Over the context, the run comes to what the evaluator says. -/
def Performs (c : Context) (x : Run σ α) (y : Evaluator σ α) : Prop := ∀ s, s.context = c → Shows s (x s) (y s.store)

/-- What is written one level further down is performed there, if there is such a level. -/
def Deepens (level : Level σ) (deeper : Deeper σ) : Prop :=
  level = none ∧ deeper = none ∨ ∃ write evaluate, level = some write ∧ deeper = some evaluate ∧
    ∀ c nodes, Performs c (write nodes) (evaluate c nodes)

/-- Nothing has been written when the answer is read. -/
theorem captured_liftM_bind (result : Except Error α) (f : α → Run σ Unit) :
    captured (liftM result >>= f) = liftM result >>= fun a => captured (f a) := by
  cases result with
  | error e =>
    funext s
    exact captured_of_error rfl
  | ok a => rfl

namespace Performs

variable {c : Context} {env : Env σ}

theorem give {x : Run σ α} {result : Except Error α} (h : ∀ s, s.context = c → x s = (result, s)) :
    Performs c x (Evaluator.give result) := by
  intro s hs
  rw [h s hs]
  exact ⟨rfl, rfl, String.append_empty.symm, rfl, rfl⟩

theorem bind {x : Run σ α} {y : Evaluator σ α} {f : α → Run σ β} {g : α → Evaluator σ β} (hx : Performs c x y)
    (hf : ∀ a, Performs c (f a) (g a)) : Performs c (x >>= f) (y >>= g) := by
  intro s hs
  have hfirst := hx s hs
  rcases hrun : x s with ⟨result, s'⟩
  rcases heval : y s.store with ⟨made, text, result', store⟩
  rw [hrun, heval] at hfirst
  obtain ⟨rfl, hcontext, houtput, rfl, hcalls⟩ := hfirst
  have hbind : (y >>= g) s.store = andThen y g s.store := rfl
  rw [hbind, andThen, heval]
  cases result with
  | error e =>
    rw [bind_of_error hrun]
    exact ⟨rfl, hcontext, houtput, rfl, hcalls⟩
  | ok a =>
    rw [bind_of_ok hrun]
    have hsecond := hf a s' (hcontext.trans hs)
    refine ⟨hsecond.result_eq, hsecond.context_eq.trans hcontext, ?_, hsecond.store_eq, ?_⟩
    · rw [hsecond.output_eq, houtput, String.append_assoc]
    · rw [hsecond.calls_eq, hcalls, List.map_append, List.reverse_append, List.append_assoc]

theorem forM {f : α → Run σ Unit} {g : α → Evaluator σ Unit} (h : ∀ a, Performs c (f a) (g a)) (as : List α) :
    Performs c (as.forM f) (as.forM g) := by
  induction as with
  | nil => exact give fun _ _ => rfl
  | cons a as ih => exact (h a).bind fun _ => ih

theorem write (text : String) : Performs c (emit text : Run σ Unit) (Evaluator.write text) :=
  fun _ _ => ⟨rfl, rfl, rfl, rfl, rfl⟩

theorem capture {x : Run σ Unit} {y : Evaluator σ Unit} (h : Performs c x y) :
    Performs c (captured x) (Evaluator.capture y) := by
  intro s hs
  have hinside := h { s with output := "" } hs
  refine ⟨?_, ?_, String.append_empty.symm, hinside.store_eq, hinside.calls_eq⟩
  · change (x { s with output := "" }).1.map _ = (y s.store).result.map _
    rw [hinside.result_eq, hinside.output_eq, String.empty_append]
    rfl
  · change (x { s with output := "" }).2.context.popTo s.context.size = s.context
    rw [hinside.context_eq, Context.popTo_size]

theorem framed {frame : Value} {x : Run σ Unit} {y : Evaluator σ Unit} (h : Performs (c.push frame) x y) :
    Performs c (withFrame frame x) y := by
  intro s hs
  subst hs
  have hinside := h { s with context := s.context.push frame } rfl
  refine ⟨hinside.result_eq, ?_, hinside.output_eq, hinside.store_eq, hinside.calls_eq⟩
  change (x { s with context := s.context.push frame }).2.context.truncate s.context.size = s.context
  rw [hinside.context_eq, Context.truncate_size_push]

theorem ask (l : Lambda) (argument? : Option String) :
    Performs c (call env l argument?) (Evaluator.ask env.host l argument?) := by
  intro s hs
  rw [call_apply]
  exact ⟨rfl, rfl, String.append_empty.symm, rfl, rfl⟩

theorem resolve (name : String) :
    Performs c (Render.resolve env name) (Evaluator.give (valueOf env.settings name (c.get? name))) := by
  apply give
  intro s hs
  rw [resolve_apply, hs]

theorem fetch (inclusion : Inclusion) : Performs c (partialTree env inclusion) (Evaluator.fetch env inclusion) := by
  intro s hs
  have hpartials : s.store.partials = s.partials := rfl
  have hmemory : s.store.memory = s.memory := rfl
  have hempty : s.output = s.output ++ "" := String.append_empty.symm
  rw [partialTree_apply, Evaluator.fetch, hpartials, hmemory]
  cases s.partials.lookup inclusion with
  | some tree => exact ⟨rfl, rfl, hempty, rfl, rfl⟩
  | none =>
    cases env.host.loader? with
    | none => exact ⟨rfl, rfl, hempty, rfl, rfl⟩
    | some loader =>
      simp only [load_apply]
      cases templateOf env.settings inclusion (loader inclusion.name s.memory).1 with
      | error e => exact ⟨rfl, rfl, hempty, rfl, rfl⟩
      | ok tree? =>
        cases tree? with
        | none | some tree => exact ⟨rfl, rfl, hempty, rfl, rfl⟩

section Levels

variable {level : Level σ} {deeper : Deeper σ}

theorem descend (hdeepens : Deepens level deeper) (nesting : Nesting) (name : String)
    {x : (List Node → Run σ Unit) → Run σ Unit} {y : (Context → List Node → Evaluator σ Unit) → Evaluator σ Unit}
    (h : ∀ write evaluate, (∀ c nodes, Performs c (write nodes) (evaluate c nodes)) → Performs c (x write) (y evaluate)) :
    Performs c (nested env level nesting name x) (Render.descend env deeper nesting name y) := by
  rcases hdeepens with ⟨rfl, rfl⟩ | ⟨write, evaluate, rfl, rfl, hwrite⟩
  · exact give fun _ _ => rfl
  · intro s hs
    have hinside := h write evaluate hwrite (s.note (.enter nesting name)) hs
    exact ⟨hinside.result_eq, hinside.context_eq, hinside.output_eq, hinside.store_eq, hinside.calls_eq⟩

variable (hdeepens : Deepens level deeper)

include hdeepens

theorem answer (name : String) (d : Delimiters) (v : Value) :
    Performs c (liftM (answerTree name d v) >>= fun tree => nested env level .lambda name fun write => write tree)
      (evaluateAnswer env deeper c name d v) := by
  have htree : Performs c (liftM (answerTree name d v) : Run σ (List Node)) (Evaluator.give (answerTree name d v)) :=
    give fun _ _ => rfl
  exact htree.bind fun tree => descend hdeepens .lambda name fun write evaluate hwrite => hwrite c tree

theorem bodyOver (name : String) (body : List Node) (v : Value) :
    Performs c (writeOver env level name body v) (evaluateOver env deeper c name body v) := by
  rw [writeOver, evaluateOver]
  split
  · apply descend hdeepens
    intro write evaluate hwrite
    exact .forM (fun frame => (hwrite (c.push frame) body).framed) _
  · exact give fun _ _ => rfl

theorem text (name : String) : Performs c (valueText env level name) (evaluateText env deeper c name) := by
  apply (resolve name).bind
  intro v
  cases v with
  | lambda l =>
    simp only
    cases l.arity with
    | unary => exact give fun _ _ => rfl
    | nullary =>
      apply (ask l none).bind
      intro v s hs
      have hanswer : Performs c _ (evaluateAnswer env deeper c name env.settings.delimiters v) := answer hdeepens name _ v
      have hcaptured := hanswer.capture s hs
      simp only [captured_liftM_bind, captured_nested] at hcaptured
      exact hcaptured
  | _ => exact give fun _ _ => rfl

theorem node (node : Node) : Performs c (writeNode env level node) (evaluateNode env deeper c node) := by
  cases node with
  | literal text => exact write text
  | comment => exact give fun _ _ => rfl
  | interpolation name escaped => exact (text hdeepens name).bind fun text => write _
  | block name body raw d =>
    apply (resolve name).bind
    intro v
    cases v with
    | lambda l =>
      simp only
      cases l.arity with
      | unary => exact (ask l (some raw)).bind fun v => answer hdeepens name d v
      | nullary =>
        apply (ask l none).bind
        intro v
        have hscalar : Performs c (liftM (scalar name v) : Run σ Value) (Evaluator.give (scalar name v)) := give fun _ _ => rfl
        exact hscalar.bind fun v => bodyOver hdeepens name body v
    | _ => exact bodyOver hdeepens name body _
  | inverted name body =>
    apply (resolve name).bind
    intro v
    split
    · exact give fun _ _ => rfl
    · exact descend hdeepens .block name fun write evaluate hwrite => hwrite c body
  | inclusion name indent =>
    apply (fetch ⟨name, indent⟩).bind
    intro tree?
    cases tree? with
    | none => exact give fun _ _ => rfl
    | some tree => exact descend hdeepens .inclusion name fun write evaluate hwrite => hwrite c tree

end Levels

theorem tree (env : Env σ) (levels : Nat) (c : Context) (nodes : List Node) :
    Performs c (writeTree env levels nodes) (evaluate env levels c nodes) := by
  induction levels generalizing c nodes with
  | zero => exact .forM (node (.inl ⟨rfl, rfl⟩)) nodes
  | succ levels ih => exact .forM (node (.inr ⟨_, _, rfl, rfl, ih⟩)) nodes

end Performs

section Tags

theorem give_ok_bind (a : α) (f : α → Evaluator σ β) : give (.ok a) >>= f = f a := by
  funext store
  change Evaluation.mk ([] ++ (f a store).calls) ("" ++ (f a store).text) _ _ = f a store
  rw [List.nil_append, String.empty_append]
  rfl

theorem give_error_bind (e : Error) (f : α → Evaluator σ β) : give (.error e) >>= f = give (.error e) := rfl

/-- The call comes before all that is done with the answer. -/
theorem calls_ask_bind (host : Host σ) (l : Lambda) (argument? : Option String) (f : Value → Evaluator σ β)
    (store : Store σ) :
    let (v, memory) := host.answer l argument? store.memory
    ((ask host l argument? >>= f) store).calls = ⟨l, argument?⟩ :: (f v { store with memory }).calls := rfl

theorem calls_bind_write (x : Evaluator σ α) (text : α → String) (store : Store σ) :
    ((x >>= fun a => write (text a)) store).calls = (x store).calls := by
  change (andThen x _ store).calls = _
  rw [andThen]
  cases (x store).result with
  | error e => rfl
  | ok a => exact List.append_nil _

/-- The calls that the tags of a name make, by what it stands for. -/
structure CallsOfTags (env : Env σ) (deeper : Deeper σ) (c : Context) (store : Store σ) (name : String) : Prop where
  variable_nullary : ∀ l, c.get? name = some (.lambda l) → l.arity = .nullary → ∀ escaped,
    let (v, memory) := env.host.answer l none store.memory
    (evaluateNode env deeper c (.interpolation name escaped) store).calls =
      ⟨l, none⟩ :: (evaluateAnswer env deeper c name env.settings.delimiters v { store with memory }).calls
  variable_unary : ∀ l, c.get? name = some (.lambda l) → l.arity = .unary → ∀ escaped,
    evaluateNode env deeper c (.interpolation name escaped) store = give (.error (.render (.sectionLambda name))) store
  block_nullary : ∀ l, c.get? name = some (.lambda l) → l.arity = .nullary → ∀ body raw d,
    let (v, memory) := env.host.answer l none store.memory
    (evaluateNode env deeper c (.block name body raw d) store).calls =
      ⟨l, none⟩ :: ((give (scalar name v) >>= evaluateOver env deeper c name body) { store with memory }).calls
  block_unary : ∀ l, c.get? name = some (.lambda l) → l.arity = .unary → ∀ body raw d,
    let (v, memory) := env.host.answer l (some raw) store.memory
    (evaluateNode env deeper c (.block name body raw d) store).calls =
      ⟨l, some raw⟩ :: (evaluateAnswer env deeper c name d v { store with memory }).calls
  variable_other : ∀ v, valueOf env.settings name (c.get? name) = .ok v → v.isLambda = false → ∀ escaped,
    (evaluateNode env deeper c (.interpolation name escaped) store).calls = []
  block_other : ∀ v, valueOf env.settings name (c.get? name) = .ok v → v.isLambda = false → ∀ body raw d,
    (evaluateNode env deeper c (.block name body raw d) store).calls = (evaluateOver env deeper c name body v store).calls
  inverted : ∀ v, valueOf env.settings name (c.get? name) = .ok v → ∀ body,
    (evaluateNode env deeper c (.inverted name body) store).calls =
      if v.holds then [] else (descend env deeper .block name (fun evaluate => evaluate c body) store).calls
  missing : ∀ e, valueOf env.settings name (c.get? name) = .error e →
    (∀ escaped, evaluateNode env deeper c (.interpolation name escaped) store = give (.error e) store) ∧
      (∀ body raw d, evaluateNode env deeper c (.block name body raw d) store = give (.error e) store) ∧
      ∀ body, evaluateNode env deeper c (.inverted name body) store = give (.error e) store

theorem callsOfTags (env : Env σ) (deeper : Deeper σ) (c : Context) (store : Store σ) (name : String) :
    CallsOfTags env deeper c store name where
  variable_nullary l hget harity escaped := by
    simp only [evaluateNode, evaluateText, hget, valueOf, give_ok_bind, harity]
    rw [calls_bind_write, calls_ask_bind]
    rfl
  variable_unary l hget harity escaped := by
    simp only [evaluateNode, evaluateText, hget, valueOf, give_ok_bind, harity, give_error_bind]
  block_nullary l hget harity body raw d := by
    simp only [evaluateNode, hget, valueOf, give_ok_bind, harity]
    rw [calls_ask_bind]
  block_unary l hget harity body raw d := by
    simp only [evaluateNode, hget, valueOf, give_ok_bind, harity]
    rw [calls_ask_bind]
  variable_other v hv hlambda escaped := by
    simp only [evaluateNode, evaluateText, hv, give_ok_bind]
    rw [calls_bind_write]
    cases v with
    | lambda => cases hlambda
    | _ => rfl
  block_other v hv hlambda body raw d := by
    simp only [evaluateNode, hv, give_ok_bind]
    cases v with
    | lambda => cases hlambda
    | _ => rfl
  inverted v hv body := by
    simp only [evaluateNode, hv, give_ok_bind]
    split
    · rfl
    · rfl
  missing e he := by
    simp only [evaluateNode, evaluateText, he, give_error_bind, implies_true, and_self]

end Tags

/-- Where no frame holds a lambda, none is found. -/
def Confinement.lambdaless (env : Env σ) : Confinement env where
  contexts c c' := c' = c ∧ c.All Value.Lambdaless
  values := Value.Lambdaless
  templates _ := True
  partials _ := True
  get?_eq hcontexts _ _ _ := by rw [hcontexts.1]
  get?_values hcontexts _ _ _ v hv := hcontexts.2.get? Value.Lambdaless.closed hv
  push {c c' frame} hcontexts hframe := ⟨congrArg (Context.push · frame) hcontexts.1, hcontexts.2.push hframe⟩
  truncate hcontexts hcontexts' := by
    obtain ⟨rfl, hall⟩ := hcontexts
    obtain ⟨rfl, hall'⟩ := hcontexts'
    exact ⟨rfl, hall'.truncate _⟩
  values_scalar := Value.Lambdaless.of_isScalar
  values_frame := Value.Lambdaless.closed.frames
  templates_answer _ _ _ _ _ := trivial
  templates_cons _ := ⟨trivial, trivial⟩
  templates_block _ := trivial
  templates_inverted _ := trivial
  templates_partial _ := trivial
  partials_of_loaded _ _ _ := trivial
  gives := .of_forall fun _ => trivial

end Render

namespace Renderer

open Render

variable {σ : Type}

/-- Data in plain form have nothing in them that could be called. -/
theorem call_not_mem_render (r : Renderer) (host : Host σ) (memory : σ) (source : String) (data : Value) (l : Lambda)
    (argument? : Option String) : .call l argument? ∉ (r.render host memory source data).trace := by
  rw [render]
  cases hplain : data.plain with
  | error e => exact nofun
  | ok p =>
    simp only
    cases hparse : parse r.settings.delimiters source with
    | error e =>
      rw [renderValue, renderContext_of_parse_error hparse]
      exact nofun
    | ok nodes =>
      let env : Env σ := ⟨r.settings, host⟩
      let C : Confinement env := .lambdaless env
      let start : State σ := ⟨.ofValue p, [], "", memory, []⟩
      have hstart : C.Abreast start start := ⟨_, rfl, ⟨rfl, .ofValue (Value.allLambdas_of_plain hplain)⟩, nofun, nofun⟩
      have hnodes : C.templates nodes ∧ Indented nodes := ⟨trivial, padding_of_mem_indents hparse⟩
      let levels := r.settings.maxDepth
      have hruns := C.coupling.writeWith (.inl ⟨rfl, rfl⟩ : levels = levels ∧ _ ∨ _) hnodes start start hstart
      rw [← writeTree_eq_writeWith] at hruns
      rcases hruns with ⟨_, _, hexcused⟩ | ⟨_, ⟨_, _, _, hkept⟩, _⟩
      · exact hexcused.elim
      · rw [renderValue, renderContext_of_parse hparse, renderNodes_eq]
        intro hcall
        exact (hkept.calls l argument? (List.mem_reverse.mp hcall)).of_lambda

/-- The calls of a rendering are those of the evaluator, in the same order and up to the same failure. In the evaluator the tags
ask as `CallsOfTags` says, and when data are put in plain form nothing is asked. -/
theorem renderNodes_calls (r : Renderer) (host : Host σ) :
    let env : Env σ := ⟨r.settings, host⟩
    (∀ memory nodes c,
      let e := evaluate env r.settings.maxDepth c nodes ⟨[], memory⟩
      let outcome := r.renderNodes host memory nodes c
      calls outcome.trace = e.calls.map Call.event ∧ outcome.result = e.result.map (fun _ => e.text) ∧
        outcome.memory = e.store.memory) ∧
    (∀ deeper c store name, CallsOfTags env deeper c store name) ∧
    ∀ memory source data l argument?, .call l argument? ∉ (r.render host memory source data).trace := by
  intro env
  refine ⟨?_, callsOfTags env, call_not_mem_render r host⟩
  intro memory nodes c e outcome
  have hshows : Shows _ _ e := Performs.tree env r.settings.maxDepth c nodes ⟨c, [], "", memory, []⟩ rfl
  have houtput := hshows.output_eq.trans String.empty_append
  refine ⟨?_, ?_, congrArg Store.memory hshows.store_eq⟩
  · change List.filter Event.isCall (List.reverse _) = _
    rw [List.filter_reverse]
    have hcalls := congrArg List.reverse hshows.calls_eq
    simpa [calls] using hcalls
  · rw [← hshows.result_eq, ← houtput]
    rfl

/-- Tags ask the lambda `f` anew, but for the inverted section. The variable for `g`, which takes the text of a section, fails,
and the tag behind it asks nothing. -/
example :
    let f : Lambda := ⟨0, .nullary⟩
    let g : Lambda := ⟨1, .unary⟩
    let env : Env Unit := ⟨.standard, ⟨fun _ _ memory => (.null, memory), none⟩⟩
    let nodes := [Node.interpolation "f" true, .block "g" [] "text" .standard, .inverted "f" [], .block "f" [] "" .standard,
      .interpolation "g" false, .interpolation "f" false]
    (evaluate env 1 (.ofValue (.map [("f", .lambda f), ("g", .lambda g)])) nodes ⟨[], ()⟩).calls =
      [⟨f, none⟩, ⟨g, some "text"⟩, ⟨f, none⟩] := by cbv

end Renderer
end Stencil
