import Stencil.Proofs.Render.Law
import Stencil.Proofs.Render.Load

/-!
# What is restored

Every routine of a rendering leaves the frames as they were and as many levels of nesting open as were, keeps the partials
that have been read and only adds to the output. It does so whether it succeeds or fails, however far down the failure comes
from and whatever lambdas and loaders answer (`routines_restore`).
-/

namespace Stencil.Render

/-- How many levels of nesting are open after `events`, latest first. There is no answer if a level was left while none was
open. -/
def openLevels? : List Event → Option Nat
  | [] => some 0
  | .enter _ _ :: events => (openLevels? events).map (· + 1)
  | .leave :: events => (openLevels? events).bind fun
    | 0 => none
    | depth + 1 => some depth
  | _ :: events => openLevels? events

/-- If no level was left while none was open, then it was so all along. -/
theorem openLevels?_of_suffix {events later : List Event} (h : events <:+ later) (hlater : openLevels? later ≠ none) :
    openLevels? events ≠ none := by
  obtain ⟨between, rfl⟩ := h
  induction between with
  | nil => exact hlater
  | cons event between ih =>
    apply ih
    intro hnone
    apply hlater
    cases event with
    | enter | leave | call | load => simp [openLevels?, hnone]

variable {σ : Type}

/-- The depth of nesting, as the events show it. -/
def State.depth? (s : State σ) : Option Nat := openLevels? s.events

section Depth

variable {s : State σ} {depth : Nat}

theorem State.depth?_enter (h : s.depth? = some depth) (nesting : Nesting) (name : String) :
    (s.note (.enter nesting name)).depth? = some (depth + 1) := by
  change (openLevels? s.events).map (· + 1) = some (depth + 1)
  rw [show openLevels? s.events = some depth from h]
  rfl

theorem State.depth?_leave (h : s.depth? = some (depth + 1)) : (s.note .leave).depth? = some depth := by
  change (openLevels? s.events).bind _ = some depth
  rw [show openLevels? s.events = some (depth + 1) from h]
  rfl

end Depth

structure Restores (s s' : State σ) : Prop where
  context_eq : s'.context = s.context
  depth?_eq : ∀ depth, s.depth? = some depth → s'.depth? = some depth
  lookup_partials : ∀ inclusion tree, s.partials.lookup inclusion = some tree → s'.partials.lookup inclusion = some tree
  exists_output : ∃ text, s'.output = s.output ++ text

namespace Restores

variable {s s' t : State σ}

theorem refl (s : State σ) : Restores s s where
  context_eq := rfl
  depth?_eq := fun _ h => h
  lookup_partials := fun _ _ h => h
  exists_output := ⟨"", (String.append_empty).symm⟩

theorem trans (h : Restores s t) (h' : Restores t s') : Restores s s' where
  context_eq := h'.context_eq.trans h.context_eq
  depth?_eq := fun depth hdepth => h'.depth?_eq depth (h.depth?_eq depth hdepth)
  lookup_partials := fun inclusion tree hlookup =>
    h'.lookup_partials inclusion tree (h.lookup_partials inclusion tree hlookup)
  exists_output := by
    obtain ⟨text, htext⟩ := h.exists_output
    obtain ⟨more, hmore⟩ := h'.exists_output
    exact ⟨text ++ more, by rw [hmore, htext, String.append_assoc]⟩

theorem nested {nesting : Nesting} {name : String} (h : Restores (s.note (.enter nesting name)) s') :
    Restores s (s'.note .leave) where
  context_eq := h.context_eq
  depth?_eq := by
    intro depth hdepth
    have hinside : s'.depth? = some (depth + 1) := h.depth?_eq (depth + 1) (State.depth?_enter hdepth nesting name)
    exact State.depth?_leave hinside
  lookup_partials := h.lookup_partials
  exists_output := h.exists_output

theorem framed {frame : Value} (h : Restores { s with context := s.context.push frame } s') :
    Restores s { s' with context := s'.context.truncate s.context.size } where
  context_eq := by
    change s'.context.truncate s.context.size = s.context
    rw [h.context_eq, Context.truncate_size_push]
  depth?_eq := h.depth?_eq
  lookup_partials := h.lookup_partials
  exists_output := h.exists_output

/-- No frame is left over that has to be taken off. -/
theorem popTo_eq (h : Restores s s') : s'.context.popTo s.context.size = s'.context := by
  rw [h.context_eq, Context.popTo_size]

theorem captured (h : Restores { s with output := "" } s') :
    Restores s { s' with context := s'.context.popTo s.context.size, output := s.output } where
  context_eq := h.popTo_eq.trans h.context_eq
  depth?_eq := h.depth?_eq
  lookup_partials := h.lookup_partials
  exists_output := ⟨"", (String.append_empty).symm⟩

private theorem noted {event : Event} (s : State σ) (memory : σ) (h : openLevels? (event :: s.events) = openLevels? s.events) :
    Restores s (State.note event { s with memory }) where
  context_eq := rfl
  depth?_eq := fun _ hdepth => h.trans hdepth
  lookup_partials := fun _ _ hlookup => hlookup
  exists_output := ⟨"", (String.append_empty).symm⟩

private theorem read {s : State σ} {inclusion : Inclusion} (hlookup : s.partials.lookup inclusion = none)
    (tree : List Node) : Restores s { s with partials := (inclusion, tree) :: s.partials } where
  context_eq := rfl
  depth?_eq := fun _ hdepth => hdepth
  lookup_partials := by
    intro other found hfound
    have hne : other ≠ inclusion := by
      intro heq
      rw [heq, hlookup] at hfound
      cases hfound
    rw [lookup_read, if_neg hne]
    exact hfound
  exists_output := ⟨"", (String.append_empty).symm⟩

theorem load (env : Env σ) (loader : Loader σ) {inclusion : Inclusion} {s : State σ}
    (hlookup : s.partials.lookup inclusion = none) : Restores s (load env loader inclusion s).2 := by
  rw [load_apply]
  rcases loader inclusion.name s.memory with ⟨answer, memory⟩
  have hasked (seen : Bool) : Restores s (State.note (.load inclusion seen) { s with memory }) := noted s memory rfl
  simp only
  cases templateOf env.settings inclusion answer with
  | error e => exact hasked false
  | ok tree? =>
    cases tree? with
    | none => exact hasked false
    | some tree =>
      have hadded := read (s := State.note (.load inclusion true) { s with memory }) hlookup tree
      exact (hasked true).trans hadded

end Restores

theorem restores_law (env : Env σ) : Law env Restores where
  refl := Restores.refl
  trans := Restores.trans
  emit := fun text _ =>
    { context_eq := rfl
      depth?_eq := fun _ hdepth => hdepth
      lookup_partials := fun _ _ hlookup => hlookup
      exists_output := ⟨text, rfl⟩ }
  call := fun _ _ s => .noted s _ rfl
  load := fun loader _ _ _ hlookup => .load env loader hlookup
  nested := fun _ _ _ _ h => h.nested
  framed := fun _ _ _ h => h.framed
  captured := fun _ _ h => h.captured

/-- The frames are as they were, and so is the depth, which was never lowered at zero. The partials are there that were there,
and the output starts with what it was. -/
structure Restored (s s' : State σ) : Prop where
  frames_eq : s'.context.frames = s.context.frames
  depth?_eq : s'.depth? = s.depth?
  openLevels?_ne_none : ∀ events, events <:+ s'.events → openLevels? events ≠ none
  lookup_partials : ∀ inclusion tree, s.partials.lookup inclusion = some tree → s'.partials.lookup inclusion = some tree
  output_prefix : s.output.toList <+: s'.output.toList

private theorem Restores.restored {s s' : State σ} (h : Restores s s') {depth : Nat} (hdepth : s.depth? = some depth) :
    Restored s s' where
  frames_eq := congrArg Context.frames h.context_eq
  depth?_eq := (h.depth?_eq depth hdepth).trans hdepth.symm
  openLevels?_ne_none := by
    intro events hsuffix
    apply openLevels?_of_suffix hsuffix
    rw [show openLevels? s'.events = some depth from h.depth?_eq depth hdepth]
    exact Option.some_ne_none depth
  lookup_partials := h.lookup_partials
  output_prefix := by
    obtain ⟨text, htext⟩ := h.exists_output
    rw [htext, String.toList_append]
    exact List.prefix_append _ _

/-- Every routine restores the state, when it succeeds and when it fails. -/
theorem routines_restore (env : Env σ) {s : State σ} {depth : Nat} (hdepth : s.depth? = some depth) :
    let levels := env.settings.maxDepth - depth
    let level := below env levels
    (∀ nodes, Restored s (writeTree env levels nodes s).2) ∧
      (∀ node, Restored s (writeNode env level node s).2) ∧
      (∀ name, Restored s (valueText env level name s).2) ∧
      (∀ name body raw delimiters, Restored s (writeBlock env level name body raw delimiters s).2) ∧
      (∀ name body v, Restored s (writeOver env level name body v s).2) ∧
      (∀ inclusion, Restored s (writePartial env level inclusion s).2) ∧
      ∀ nodes, Restored s (captured (writeTree env levels nodes) s).2 := by
  intro levels level
  have hlaw := restores_law env
  have hlevel := hlaw.below levels
  have hnode (node : Node) : Restored s (writeNode env level node s).2 :=
    (hlaw.writeNode hlevel node s).restored hdepth
  refine ⟨?_, hnode, ?_, ?_, ?_, ?_, ?_⟩
  · intro nodes
    exact (hlaw.writeTree levels nodes s).restored hdepth
  · intro name
    exact (hlaw.valueText hlevel name s).restored hdepth
  · intro name body raw delimiters
    exact hnode (.block name body raw delimiters)
  · intro name body v
    exact (hlaw.writeOver hlevel name body v s).restored hdepth
  · intro inclusion
    exact hnode (.inclusion inclusion.name inclusion.indent)
  · intro nodes
    exact (hlaw.apart (hlaw.writeTree levels nodes) s).restored hdepth

/-- A partial that includes itself is written inside a section until no level is free. -/
theorem routines_restore_in_section :
    let host : Host Unit := ⟨fun _ _ memory => (.null, memory), some fun _ memory => (.ok "\x7b\x7b>p\x7d\x7d", memory)⟩
    let env : Env Unit := ⟨.standard, host⟩
    let s : State Unit := ⟨.ofValue .null, [], "before", (), [.enter .block "a"]⟩
    s.depth? = some 1 ∧ Restored s (writeTree env (env.settings.maxDepth - 1) [.inclusion "p" ""] s).2 :=
  ⟨rfl, (routines_restore _ rfl).1 _⟩

end Stencil.Render
