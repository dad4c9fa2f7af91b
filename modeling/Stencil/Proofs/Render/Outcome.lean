import Stencil.Proofs.Render.Run
import Stencil.Renderer

/-!
# What is seen of a run

What a renderer gives back is seen of the run that writes the template: its result, its output, its events and the memory it
leaves (`renderNodes_eq`). A text that cannot be read as a template is not run at all.
-/

namespace Stencil

variable {σ : Type}

def Outcome.ofRun (run : Except Error Unit × Render.State σ) : Outcome σ :=
  ⟨run.1.map fun _ => run.2.output, run.2.events.reverse, run.2.memory⟩

namespace Renderer

variable {r r' : Renderer} {source : String}

theorem renderNodes_eq (r : Renderer) (host : Host σ) (memory : σ) (nodes : List Node) (context : Context) :
    r.renderNodes host memory nodes context =
      .ofRun (Render.writeTree ⟨r.settings, host⟩ r.settings.maxDepth nodes ⟨context, [], "", memory, []⟩) := rfl

theorem renderContext_of_parse {nodes : List Node} (h : parse r.settings.delimiters source = .ok nodes) (host : Host σ)
    (memory : σ) (context : Context) :
    r.renderContext host memory source context = r.renderNodes host memory nodes context := by
  rw [renderContext, compile, Template.parse, h]

theorem renderContext_of_parse_error {e : ParseError} (h : parse r.settings.delimiters source = .error e) (host : Host σ)
    (memory : σ) (context : Context) : r.renderContext host memory source context = refused memory (.parsing e) := by
  rw [renderContext, compile, Template.parse, h]

/-- Where two renderers read alike, a text is either rendered from the same nodes or refused by both. -/
theorem renderContext_cases (hdelimiters : r'.settings.delimiters = r.settings.delimiters) (source : String) (host : Host σ)
    (memory : σ) (context context' : Context) :
    (∃ nodes, parse r.settings.delimiters source = .ok nodes ∧
      r.renderContext host memory source context = r.renderNodes host memory nodes context ∧
      r'.renderContext host memory source context' = r'.renderNodes host memory nodes context') ∨
      r'.renderContext host memory source context' = r.renderContext host memory source context := by
  cases hparse : parse r.settings.delimiters source with
  | ok nodes =>
    have hparse' : parse r'.settings.delimiters source = .ok nodes := hdelimiters ▸ hparse
    have hrender := renderContext_of_parse hparse host memory context
    have hrender' := renderContext_of_parse hparse' host memory context'
    exact .inl ⟨nodes, rfl, hrender, hrender'⟩
  | error e =>
    have hparse' : parse r'.settings.delimiters source = .error e := hdelimiters ▸ hparse
    rw [renderContext_of_parse_error hparse, renderContext_of_parse_error hparse']
    exact .inr rfl

def withDepth (r : Renderer) (depth : Nat) : Renderer := { r with settings := { r.settings with maxDepth := depth } }

end Renderer
end Stencil
