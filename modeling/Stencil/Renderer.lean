import Stencil.Render.Basic
import Stencil.Template

/-!
# Renderers

The ways to render a template: from its text, its bytes or a template read before, over one value, over one value with another
on top, or over a whole context, with the data as they are or in plain form. All of them come down to `renderNodes`.
-/

namespace Stencil

/-- Settings, and how template bytes are read. -/
structure Renderer where
  settings : Settings
  encoding : Encoding
deriving Inhabited

/-- What a rendering came to: a text or a failure, what happened on the way, and the memory of the host after it. -/
structure Outcome (σ : Type) where
  result : Except Error String
  /-- What happened, in order. -/
  trace : List Render.Event
  memory : σ

/-- What a renderer is to be, before it is known whether it can be so. -/
structure Renderer.Plan where
  escape : String → String := escapeHtml
  literal : String → String := id
  missingTags : MissingTags := .ignore
  opener : String := Delimiters.standard.opener
  closer : String := Delimiters.standard.closer
  encoding : Encoding := .utf8
  maxDepth : Nat := defaultMaxDepth
deriving Inhabited

namespace Renderer

/-- The renderer of a plan. The delimiters have to be legal, and then the depth has to be positive. -/
def Plan.build (plan : Plan) : Except Error Renderer :=
  match Delimiters.ofTexts plan.opener plan.closer with
  | .error e => .error (.config (.delimiters e))
  | .ok delimiters =>
    if plan.maxDepth = 0 then .error (.config .noDepth)
    else .ok ⟨⟨plan.escape, plan.literal, plan.missingTags, delimiters, plan.maxDepth⟩, plan.encoding⟩

def standard : Renderer := ⟨.standard, .utf8⟩

variable {σ : Type}

def refused (memory : σ) (e : Error) : Outcome σ := ⟨.error e, [], memory⟩

def renderNodes (r : Renderer) (host : Host σ) (memory : σ) (nodes : List Node) (context : Context) : Outcome σ :=
  let write := Render.writeTree ⟨r.settings, host⟩ r.settings.maxDepth nodes
  let (result, after) := Render.captured write ⟨context, [], "", memory, []⟩
  ⟨result, after.events.reverse, after.memory⟩

def compile (r : Renderer) (source : String) : Except Error Template :=
  Template.parse r.settings.delimiters source

def renderContext (r : Renderer) (host : Host σ) (memory : σ) (source : String) (context : Context) : Outcome σ :=
  match r.compile source with
  | .ok template => r.renderNodes host memory template.nodes context
  | .error e => refused memory e

def renderValue (r : Renderer) (host : Host σ) (memory : σ) (source : String) (data : Value) : Outcome σ :=
  r.renderContext host memory source (.ofValue data)

/-- Renders a text over a value, with another value whose names come first. -/
def renderWithOverrides (r : Renderer) (host : Host σ) (memory : σ) (source : String) (data overrides : Value) :
    Outcome σ :=
  r.renderContext host memory source ((Context.ofValue data).push overrides)

def render (r : Renderer) (host : Host σ) (memory : σ) (source : String) (data : Value) : Outcome σ :=
  match data.plain with
  | .ok data => r.renderValue host memory source data
  | .error e => refused memory (.serialization e)

def renderBytes (r : Renderer) (host : Host σ) (memory : σ) (bytes : List UInt8) (data : Value) : Outcome σ :=
  match r.encoding.decode bytes with
  | .ok source => r.render host memory source data
  | .error e => refused memory (.decode e)

def renderTemplateValue (r : Renderer) (host : Host σ) (memory : σ) (template : Template) (data : Value) : Outcome σ :=
  r.renderNodes host memory template.nodes (.ofValue data)

/-- Renders a template read before over a value in plain form. -/
def renderTemplate (r : Renderer) (host : Host σ) (memory : σ) (template : Template) (data : Value) : Outcome σ :=
  match data.plain with
  | .ok data => r.renderTemplateValue host memory template data
  | .error e => refused memory (.serialization e)

end Renderer
end Stencil
