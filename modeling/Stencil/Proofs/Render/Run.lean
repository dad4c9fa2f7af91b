import Stencil.Render.Run

/-!
# Steps of a rendering

A rendering is followed step by step: what `x` and then `f` do in a state is known from what `x` does there.
-/

namespace Stencil.Render

variable {σ α β : Type} {x : Run σ α} {s s' : State σ}

theorem bind_of_ok {a : α} (h : x s = (.ok a, s')) (f : α → Run σ β) : (x >>= f) s = f a s' := by
  change ExceptT.bindCont f (x s).1 (x s).2 = f a s'
  rw [h]
  rfl

theorem bind_of_error {e : Error} (h : x s = (.error e, s')) (f : α → Run σ β) : (x >>= f) s = (.error e, s') := by
  change ExceptT.bindCont f (x s).1 (x s).2 = (.error e, s')
  rw [h]
  rfl

theorem captured_of_eq {x : Run σ Unit} {result : Except Error Unit} (h : x { s with output := "" } = (result, s')) :
    captured x s = (result.map fun _ => s'.output,
      { s' with context := s'.context.popTo s.context.size, output := s.output }) := by
  rw [captured, h]

/-- What fails at once leaves the state as it was. -/
theorem captured_of_error {x : Run σ Unit} {e : Error} (h : x { s with output := "" } = (.error e, { s with output := "" })) :
    captured x s = (.error e, s) := by
  rw [captured_of_eq h, Context.popTo_size]
  rfl

theorem get_apply (s : State σ) : (get : Run σ (State σ)) s = (.ok s, s) := rfl

end Stencil.Render
