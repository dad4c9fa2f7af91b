import Stencil.Context
import Stencil.Host.Basic
import Stencil.Node

/-!
# Runs

A rendering under way: the frames, the partials read so far, the text written so far, the memory of the host, and the trace of
what has happened. A step of a rendering changes this state and succeeds or fails; a failure keeps the state it happened in,
so that what was called and loaded before it is not forgotten.
-/

namespace Stencil.Render

/-- A partial and the padding its lines are given. -/
structure Inclusion where
  name : String
  indent : String
deriving DecidableEq, Repr

/-- Something that happens in a rendering and can be seen from outside, or takes or frees a level of nesting. -/
inductive Event where
  | call (lambda : Lambda) (argument? : Option String)
  /-- A partial was asked for, and a template was or was not read from the answer. -/
  | load (inclusion : Inclusion) (read : Bool)
  | enter (nesting : Nesting) (name : String)
  | leave
deriving DecidableEq, Repr

/-- A rendering under way. -/
structure State (σ : Type) where
  context : Context
  /-- The partials read so far. -/
  partials : List (Inclusion × List Node)
  output : String
  memory : σ
  /-- What has happened, latest first. -/
  events : List Event

abbrev Run (σ α : Type) : Type := ExceptT Error (StateM (State σ)) α

variable {σ α : Type}

def State.note (event : Event) (s : State σ) : State σ := { s with events := event :: s.events }

def emit (text : String) : Run σ Unit := modify fun s => { s with output := s.output ++ text }

/-- Does `x`, then puts the state right, whether `x` succeeded or failed. -/
def tidied (tidy : State σ → State σ) (x : Run σ α) : Run σ α := fun s =>
  let (result, after) := x s
  (result, tidy after)

def withFrame (frame : Value) (x : Run σ α) : Run σ α := fun s =>
  let (result, after) := x { s with context := s.context.push frame }
  (result, { after with context := after.context.truncate s.context.size })

/-- Does `x` and gives the text it writes, which is not written. Frames that are left over at the end are taken off. -/
def captured (x : Run σ Unit) : Run σ String := fun s =>
  let (result, after) := x { s with output := "" }
  (result.map fun _ => after.output, { after with context := after.context.popTo s.context.size, output := s.output })

end Stencil.Render
