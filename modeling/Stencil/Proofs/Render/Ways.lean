import Stencil.Proofs.Plain
import Stencil.Proofs.Text.Utf8
import Stencil.Renderer

/-!
# The ways to render

A template can be given as a text, as bytes or as read before, and data as they are, in plain form or as a context of one frame.
For data without objects of the host program it does not matter which way is taken, unless there is a lambda in them; the ways
that go through the plain form then refuse the data before anything happens (`Renderer.ways_agree`).
-/

namespace Stencil.Renderer

variable {σ : Type}

/-- Reads a text as a template and goes on with it, unless it is none. -/
def compiled (r : Renderer) (memory : σ) (source : String) (use : Template → Outcome σ) : Outcome σ :=
  match r.compile source with
  | .ok template => use template
  | .error e => refused memory e

section Ways

variable (r : Renderer) (host : Host σ) (memory : σ) (source : String) (v : Value)

/-- Whichever way the text is rendered over the value, it comes to `outcome`. -/
structure Ways (outcome : Outcome σ) : Prop where
  value : r.renderValue host memory source v = outcome
  plain : r.render host memory source v = outcome
  context : r.renderContext host memory source (.ofFrames [v]) = outcome
  templateValue : r.compiled memory source (r.renderTemplateValue host memory · v) = outcome
  template : r.compiled memory source (r.renderTemplate host memory · v) = outcome
  bytes : ∀ encoding, { r with encoding }.renderBytes host memory source.toUTF8.data.toList v = outcome

/-- Whichever way the text is rendered over the plain form of the value, that is refused, and nothing is called or loaded. -/
structure Declines (fault : PlainFault) : Prop where
  plain : r.render host memory source v = ⟨.error (.serialization fault), [], memory⟩
  template : ∀ template, r.compile source = .ok template →
    r.renderTemplate host memory template v = ⟨.error (.serialization fault), [], memory⟩
  bytes : ∀ encoding, { r with encoding }.renderBytes host memory source.toUTF8.data.toList v =
    ⟨.error (.serialization fault), [], memory⟩

theorem renderBytes_toUTF8 (encoding : Encoding) :
    { r with encoding }.renderBytes host memory source.toUTF8.data.toList v = r.render host memory source v := by
  rw [renderBytes, encoding.decode_toUTF8]
  rfl

theorem ways_of_plain (h : v.plain = .ok v) : r.Ways host memory source v (r.renderValue host memory source v) := by
  have hrender : r.render host memory source v = r.renderValue host memory source v := by
    rw [render, h]
  have htemplate (template : Template) :
      r.renderTemplate host memory template v = r.renderTemplateValue host memory template v := by
    rw [renderTemplate, h]
  refine ⟨rfl, hrender, rfl, rfl, ?_, ?_⟩
  · simp only [htemplate]
    rfl
  · intro encoding
    rw [renderBytes_toUTF8, hrender]

theorem declines_of_plain {fault : PlainFault} (h : v.plain = .error fault) : r.Declines host memory source v fault := by
  have hrender : r.render host memory source v = ⟨.error (.serialization fault), [], memory⟩ := by
    rw [render, h]
    rfl
  refine ⟨hrender, ?_, ?_⟩
  · intro template _
    rw [renderTemplate, h]
    rfl
  · intro encoding
    rw [renderBytes_toUTF8, hrender]

end Ways

/-- Without objects and lambdas in the data, all ways to render a template come to the same. With a lambda in them, those that
go through the plain form fail. -/
theorem ways_agree (r : Renderer) (host : Host σ) (memory : σ) (source : String) {v : Value}
    (hobject : ¬ v.Has Value.isObject) :
    (¬ v.Has Value.isLambda → ∃ outcome, r.Ways host memory source v outcome) ∧
      (v.Has Value.isLambda → r.Declines host memory source v .lambda) := by
  rcases v.plain_cases hobject with ⟨hplain, hnone⟩ | ⟨hplain, hlambda⟩
  · refine ⟨?_, fun hlambda => absurd hlambda hnone⟩
    intro _
    exact ⟨_, r.ways_of_plain host memory source v hplain⟩
  · refine ⟨fun hnone => absurd hlambda hnone, ?_⟩
    intro _
    exact r.declines_of_plain host memory source v hplain

/-- A list with a lambda deep in it has no plain form, and a list of texts has one. -/
theorem ways_agree_of_list :
    let host : Host Unit := ⟨fun _ _ memory => (.null, memory), none⟩
    let source := "\u00FC\x7b\x7b.\x7d\x7d"
    let texts : Value := .list [.string "\u00E9"]
    let calls : Value := .list [.list [.lambda ⟨0, .nullary⟩]]
    (¬ texts.Has Value.isObject ∧ ¬ texts.Has Value.isLambda ∧
        ∃ outcome, standard.Ways host () source texts outcome) ∧
      ¬ calls.Has Value.isObject ∧ calls.Has Value.isLambda ∧ standard.Declines host () source calls .lambda := by
  intro host source texts calls
  have htext {p : Value → Bool} (hp : p texts = false) (hp' : p (.string "\u00E9") = false) : ¬ texts.Has p := by
    rw [Value.has_list hp]
    simpa using Value.not_has_of_isScalar rfl hp'
  have hcalls : ¬ calls.Has Value.isObject := by
    simp only [calls, Value.has_list (p := Value.isObject) rfl, List.mem_singleton, exists_eq_left]
    intro h
    obtain ⟨w, hw, h⟩ := h
    cases h
    cases hw
  have hlambda : calls.Has Value.isLambda := ⟨_, rfl, .item List.mem_cons_self (.item List.mem_cons_self .self)⟩
  have hobject : ¬ texts.Has Value.isObject := htext rfl rfl
  have hnone : ¬ texts.Has Value.isLambda := htext rfl rfl
  exact ⟨⟨hobject, hnone, (standard.ways_agree host () source hobject).1 hnone⟩, hcalls, hlambda,
    (standard.ways_agree host () source hcalls).2 hlambda⟩

end Stencil.Renderer
