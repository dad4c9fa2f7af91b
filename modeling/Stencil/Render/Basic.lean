import Stencil.Parse
import Stencil.Render.Run
import Stencil.Settings
import Stencil.Text.Indent
import Stencil.Value.Text

/-!
# Rendering

A template is written node by node. A section body, an inverted body, a partial and the answer of a lambda each take a level of
nesting. The functions below are given how the next level is written, or nothing if no level is free; `writeTree` then goes
down one level at a time, so rendering ends whatever partials and lambdas answer.

The answer of a lambda is a template of its own. A lambda that takes the text of a section gets it as it was written, and its
answer is read with the delimiters in force there; the answer of any other lambda is read with the delimiters of the settings,
and in place of a section it counts as the value itself.
-/

namespace Stencil.Render

variable {σ : Type}

/-- How the next level of nesting is written, if a level is free. -/
abbrev Level (σ : Type) : Type := Option (List Node → Run σ Unit)

/-- What a rendering is told beside the template and the data. -/
structure Env (σ : Type) where
  settings : Settings
  host : Host σ

def readTree (delimiters : Delimiters) (source : String) : Except Error (List Node) :=
  (parse delimiters source).mapError .parsing

/-- The value of a name. One that has no value counts as nothing, unless the settings are strict. -/
def resolve (env : Env σ) (name : String) : Run σ Value := do
  match (← get).context.get? name with
  | some v => return v
  | none =>
    match env.settings.missingTags with
    | .strict => throw (.keyNotFound name)
    | .ignore => return .null

def call (env : Env σ) (l : Lambda) (argument? : Option String) : Run σ Value := do
  let s ← get
  let (v, memory) := env.host.answer l argument? s.memory
  set ({ s with memory }.note (.call l argument?))
  return v

/-- The value that a lambda answered with, which has to be a scalar. -/
def scalar (name : String) (v : Value) : Except Error Value :=
  if v.isScalar then .ok v else .error (.render (.lambdaResult name v.kind))

def answerTree (name : String) (delimiters : Delimiters) (v : Value) : Except Error (List Node) := do
  readTree delimiters (← (← scalar name v).text)

def nested {α : Type} (env : Env σ) (level : Level σ) (nesting : Nesting) (name : String)
    (x : (List Node → Run σ Unit) → Run σ α) : Run σ α :=
  match level with
  | none => throw (.render (.tooDeep nesting name env.settings.maxDepth))
  | some write => do
    modify (State.note (.enter nesting name))
    tidied (State.note .leave) (x write)

def valueText (env : Env σ) (level : Level σ) (name : String) : Run σ String := do
  match ← resolve env name with
  | .lambda l =>
    match l.arity with
    | .unary => throw (.render (.sectionLambda name))
    | .nullary =>
      let tree ← answerTree name env.settings.delimiters (← call env l none)
      nested env level .lambda name fun write => captured (write tree)
  | v => v.text

/-- Writes a section body over a value: for each item of a list, once for another value that holds, and not for one that
does not. -/
def writeOver (env : Env σ) (level : Level σ) (name : String) (body : List Node) (v : Value) : Run σ Unit :=
  if v.holds then
    nested env level .block name fun write => (v.items?.getD [v]).forM fun frame => withFrame frame (write body)
  else pure ()

def writeBlock (env : Env σ) (level : Level σ) (name : String) (body : List Node) (raw : String)
    (delimiters : Delimiters) : Run σ Unit := do
  match ← resolve env name with
  | .lambda l =>
    match l.arity with
    | .unary =>
      let tree ← answerTree name delimiters (← call env l (some raw))
      nested env level .lambda name fun write => write tree
    | .nullary => writeOver env level name body (← scalar name (← call env l none))
  | v => writeOver env level name body v

def writeInverted (env : Env σ) (level : Level σ) (name : String) (body : List Node) : Run σ Unit := do
  let v ← resolve env name
  if v.holds then pure () else nested env level .block name fun write => write body

/-- Asks the loader for a partial and reads what it gives. There is no template if the loader does not know the name and
missing names are ignored. -/
def load (env : Env σ) (loader : Loader σ) (inclusion : Inclusion) : Run σ (Option (List Node)) := do
  let s ← get
  let (answer, memory) := loader inclusion.name s.memory
  let tree : Except Error (List Node) := do
    readTree env.settings.delimiters (Text.indentLines inclusion.indent (← answer))
  set ({ s with memory }.note (.load inclusion tree.toBool))
  match answer, env.settings.missingTags with
  | .error (.templateNotFound _), .ignore => return none
  | _, _ =>
    let tree ← tree
    modify fun s => { s with partials := (inclusion, tree) :: s.partials }
    return some tree

/-- The template of a partial: the one that was read before, or else the one that the loader gives. -/
def partialTree (env : Env σ) (inclusion : Inclusion) : Run σ (Option (List Node)) := do
  match (← get).partials.lookup inclusion with
  | some tree => return some tree
  | none =>
    match env.host.loader? with
    | none => throw (.templateNotFound inclusion.name)
    | some loader => load env loader inclusion

def writePartial (env : Env σ) (level : Level σ) (inclusion : Inclusion) : Run σ Unit := do
  match ← partialTree env inclusion with
  | none => pure ()
  | some tree => nested env level .inclusion inclusion.name fun write => write tree

def writeNode (env : Env σ) (level : Level σ) : Node → Run σ Unit
  | .literal text => emit text
  | .comment => pure ()
  | .interpolation name escaped => do
    let text ← valueText env level name
    emit ((if escaped then env.settings.escape else env.settings.literal) text)
  | .block name body raw delimiters => writeBlock env level name body raw delimiters
  | .inverted name body => writeInverted env level name body
  | .inclusion name indent => writePartial env level ⟨name, indent⟩

/-- Writes a template with so many levels of nesting to go. -/
def writeTree (env : Env σ) (levels : Nat) (nodes : List Node) : Run σ Unit :=
  match levels with
  | 0 => nodes.forM (writeNode env none)
  | levels + 1 => nodes.forM (writeNode env (some (writeTree env levels)))

end Stencil.Render
