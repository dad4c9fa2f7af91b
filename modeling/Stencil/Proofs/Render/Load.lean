import Stencil.Proofs.Render.Run
import Stencil.Render.Basic

/-!
# What a load comes to

The answer of a loader comes to the template of a partial, to no template, or to a failure (`templateOf`). Only a template is
kept, and the event of the load says whether there was one (`load_apply`).
-/

namespace Stencil.Render

variable {σ : Type}

/-- What the answer of a loader comes to. A name the loader does not know has no template, unless the settings are strict. -/
def templateOf (settings : Settings) (inclusion : Inclusion) (answer : Except Error String) :
    Except Error (Option (List Node)) :=
  match answer, settings.missingTags with
  | .error (.templateNotFound _), .ignore => .ok none
  | .error e, _ => .error e
  | .ok source, _ => (readTree settings.delimiters (Text.indentLines inclusion.indent source)).map some

theorem load_apply (env : Env σ) (loader : Loader σ) (inclusion : Inclusion) (s : State σ) :
    load env loader inclusion s =
      let (answer, memory) := loader inclusion.name s.memory
      let asked (read : Bool) := State.note (.load inclusion read) { s with memory }
      match templateOf env.settings inclusion answer with
      | .ok (some tree) => (.ok (some tree), { asked true with partials := (inclusion, tree) :: s.partials })
      | .ok none => (.ok none, asked false)
      | .error e => (.error e, asked false) := by
  rw [load, bind_of_ok (get_apply s)]
  rcases loader inclusion.name s.memory with ⟨answer, memory⟩
  cases answer with
  | ok source =>
    have hread : (do readTree env.settings.delimiters (Text.indentLines inclusion.indent (← Except.ok source))) =
        readTree env.settings.delimiters (Text.indentLines inclusion.indent source) := rfl
    simp only [hread, templateOf]
    cases readTree env.settings.delimiters (Text.indentLines inclusion.indent source) with
    | ok tree => rfl
    | error e => rfl
  | error e =>
    cases e with
    | templateNotFound name =>
      simp only [templateOf]
      cases env.settings.missingTags with
      | ignore => rfl
      | strict => rfl
    | _ => rfl

theorem partialTree_apply (env : Env σ) (inclusion : Inclusion) (s : State σ) :
    partialTree env inclusion s =
      match s.partials.lookup inclusion, env.host.loader? with
      | some tree, _ => (.ok (some tree), s)
      | none, none => (.error (.templateNotFound inclusion.name), s)
      | none, some loader => load env loader inclusion s := by
  rw [partialTree, bind_of_ok (get_apply s)]
  cases s.partials.lookup inclusion with
  | some tree => rfl
  | none => cases env.host.loader? with
    | none => rfl
    | some loader => rfl

/-- The frames and the output are left alone. -/
theorem exists_partialTree_eq (env : Env σ) (inclusion : Inclusion) (s : State σ) :
    ∃ partials memory events, (partialTree env inclusion s).2 = { s with partials, memory, events } := by
  rw [partialTree_apply]
  cases s.partials.lookup inclusion with
  | some tree => exact ⟨_, _, _, rfl⟩
  | none =>
    cases env.host.loader? with
    | none => exact ⟨_, _, _, rfl⟩
    | some loader =>
      simp only [load_apply]
      cases templateOf env.settings inclusion (loader inclusion.name s.memory).1 with
      | error e => exact ⟨_, _, _, rfl⟩
      | ok tree? =>
        cases tree? with
        | none | some tree => exact ⟨_, _, _, rfl⟩

/-- A partial is found without a look at the frames. -/
theorem partialTree_context (env : Env σ) (inclusion : Inclusion) (s : State σ) (context : Context) :
    partialTree env inclusion { s with context } =
      ((partialTree env inclusion s).1, { (partialTree env inclusion s).2 with context }) := by
  rw [partialTree_apply, partialTree_apply]
  cases s.partials.lookup inclusion with
  | some tree => rfl
  | none =>
    cases env.host.loader? with
    | none => rfl
    | some loader =>
      simp only [load_apply]
      cases templateOf env.settings inclusion (loader inclusion.name s.memory).1 with
      | error e => rfl
      | ok tree? =>
        cases tree? with
        | none => rfl
        | some tree => rfl

theorem lookup_read (inclusion : Inclusion) (tree : List Node) (partials : List (Inclusion × List Node)) (other : Inclusion) :
    List.lookup other ((inclusion, tree) :: partials) = if other = inclusion then some tree else partials.lookup other := by
  rw [List.lookup_cons]
  by_cases heq : other = inclusion
  · rw [if_pos heq, heq, beq_self_eq_true]
  · rw [if_neg heq, beq_false_of_ne heq]

end Stencil.Render
