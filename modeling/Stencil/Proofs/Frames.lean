import Mathlib.Order.Bounds.Basic
import Stencil.Render.Run

/-!
# Frames that are out of reach

What runs with one more frame may put frames on and take frames off as it likes, and run other things with one more frame in
between (`Context.Action`). Afterwards the frames are cut at the former height. So the frames below the lowest height that it
comes by are those that were there before, and if it never goes below the former height, then all frames are
(`Context.withFrame_protects`). A rendering treats the frames of its state in the same way (`Render.withFrame_eq`).
-/

namespace Stencil

namespace Context

variable {c c' : Context} {frame : Value} {k n : Nat}

theorem toList_push : (c.push frame).toList = c.toList ++ [frame] := List.reverse_cons

theorem toList_pop : c.pop.toList = c.toList.dropLast := List.dropLast_reverse.symm

theorem toList_truncate : (c.truncate n).toList = c.toList.take n := List.take_reverse.symm

@[simp] theorem length_toList : c.toList.length = c.size := List.length_reverse

@[simp] theorem size_pop : c.pop.size = c.size - 1 := List.length_tail

/-- The lowest `k` frames, the outermost first. -/
def bottom (c : Context) (k : Nat) : List Value := c.toList.take k

theorem bottom_push (h : k ≤ c.size) : (c.push frame).bottom k = c.bottom k := by
  rw [bottom, toList_push, List.take_append_of_le_length (length_toList ▸ h), bottom]

theorem bottom_pop (h : k ≤ c.pop.size) : c.pop.bottom k = c.bottom k := by
  rw [size_pop] at h
  rw [bottom, toList_pop, List.dropLast_eq_take, length_toList, List.take_take, Nat.min_eq_left h, bottom]

theorem bottom_truncate (h : k ≤ n) : (c.truncate n).bottom k = c.bottom k := by
  rw [bottom, toList_truncate, List.take_take, Nat.min_eq_left h, bottom]

theorem eq_of_bottom_eq (hsize : c'.size = c.size) (h : c'.bottom c.size = c.bottom c.size) : c' = c := by
  rw [bottom, bottom, List.take_of_length_le (by simp [hsize]), List.take_of_length_le (by simp)] at h
  exact congrArg mk (List.reverse_inj.mp h)

/-- Of the frames below the former height, those stay that `f` leaves as they are. -/
theorem bottom_withFrame {α : Type} {f : Context → α × Context} (hk : k ≤ c.size)
    (h : (f (c.push frame)).2.bottom k = (c.push frame).bottom k) : (c.withFrame frame f).2.bottom k = c.bottom k :=
  calc (c.withFrame frame f).2.bottom k
    _ = (f (c.push frame)).2.bottom k := bottom_truncate hk
    _ = (c.push frame).bottom k := h
    _ = c.bottom k := bottom_push hk

/-- What may be done with the frames, step by step. Each step may depend on all that was seen in the steps before it: the
frames that were taken off, the frames as they were when they were looked at, and the results of what ran with one more
frame. -/
inductive Action : Type → Type 1
  | done {α : Type} (result : α) : Action α
  | push {α : Type} (frame : Value) (next : Action α) : Action α
  | pop {α : Type} (next : Option Value → Action α) : Action α
  | look {α : Type} (next : Context → Action α) : Action α
  | withFrame {α β : Type} (frame : Value) (inner : Action β) (next : β → Action α) : Action α

namespace Action

/-- What the action results in, and the frames it ends with. -/
def run {α : Type} : Action α → Context → α × Context
  | .done result, c => (result, c)
  | .push frame next, c => next.run (c.push frame)
  | .pop next, c => (next c.top?).run c.pop
  | .look next, c => (next c).run c
  | .withFrame frame inner next, c =>
    let called := c.withFrame frame inner.run
    (next called.1).run called.2

/-- The frames as they are while the action runs: at the start, after each step, and all along what runs with one more
frame. -/
def states {α : Type} : Action α → Context → List Context
  | .done _, c => [c]
  | .push frame next, c => c :: next.states (c.push frame)
  | .pop next, c => c :: (next c.top?).states c.pop
  | .look next, c => (next c).states c
  | .withFrame frame inner next, c =>
    let called := c.withFrame frame inner.run
    c :: (inner.states (c.push frame) ++ (next called.1).states called.2)

variable {α : Type}

theorem start_mem_states (f : Action α) (c : Context) : c ∈ f.states c := by
  induction f generalizing c with
  | look next ih => exact ih c c
  | done | push | pop | withFrame => exact List.mem_cons_self

theorem end_mem_states (f : Action α) (c : Context) : (f.run c).2 ∈ f.states c := by
  induction f generalizing c with
  | done result => exact List.mem_cons_self
  | push frame next ih => exact List.mem_cons_of_mem c (ih (c.push frame))
  | pop next ih => exact List.mem_cons_of_mem c (ih c.top? c.pop)
  | look next ih => exact ih c c
  | withFrame frame inner next _ ihNext =>
    exact List.mem_cons_of_mem c (List.mem_append_right _ (ihNext _ _))

/-- The smallest height that the frames have while the action runs. -/
def lowest (f : Action α) (c : Context) : Nat :=
  ((f.states c).map size).min fun h => List.ne_nil_of_mem (f.start_mem_states c) (List.map_eq_nil_iff.mp h)

theorem isLeast_lowest (f : Action α) (c : Context) :
    IsLeast {height | ∃ s ∈ f.states c, s.size = height} (f.lowest c) := by
  constructor
  · exact List.mem_map.mp (List.min_mem _)
  · rintro height ⟨s, hs, rfl⟩
    exact List.min_le_of_mem (List.mem_map_of_mem hs)

/-- The frames below the lowest height are the same at the end. -/
theorem bottom_run (f : Action α) (h : ∀ s ∈ f.states c, k ≤ s.size) : (f.run c).2.bottom k = c.bottom k := by
  induction f generalizing c with
  | done result => rfl
  | push frame next ih =>
    obtain ⟨hstart, hnext⟩ := List.forall_mem_cons.mp h
    exact (ih hnext).trans (bottom_push hstart)
  | pop next ih =>
    obtain ⟨-, hnext⟩ := List.forall_mem_cons.mp h
    have hpop : k ≤ c.pop.size := hnext c.pop ((next c.top?).start_mem_states c.pop)
    exact (ih c.top? hnext).trans (bottom_pop hpop)
  | look next ih => exact ih c h
  | withFrame frame inner next ihInner ihNext =>
    obtain ⟨hstart, hrest⟩ := List.forall_mem_cons.mp h
    obtain ⟨hinner, hnext⟩ := List.forall_mem_append.mp hrest
    -- The cut comes at a height that the action has been at, so it takes nothing off below the lowest one.
    have hcalled := bottom_withFrame hstart (ihInner hinner)
    exact (ihNext _ hnext).trans hcalled

end Action

/-- The height is the former one or that at the end of the action, whichever is smaller. The frames that are below both the
former height and the lowest one are those that were there, and if the action never goes below the former height, then all
frames are, whatever it results in. -/
theorem withFrame_protects {α : Type} (c : Context) (frame : Value) (f : Action α) :
    let start := c.push frame
    let lowest := f.lowest start
    let called := c.withFrame frame f.run
    called.2.size = min c.size (f.run start).2.size ∧
      called.2.bottom (min c.size lowest) = c.bottom (min c.size lowest) ∧
      (c.size ≤ lowest → called = ((f.run start).1, c)) := by
  intro start lowest called
  have hlowest (s : Context) (hs : s ∈ f.states start) : lowest ≤ s.size := (f.isLeast_lowest start).2 ⟨s, hs, rfl⟩
  have hsize : called.2.size = min c.size (f.run start).2.size := by
    rw [Nat.min_comm]
    exact size_truncate _ _
  have hbottom : called.2.bottom (min c.size lowest) = c.bottom (min c.size lowest) :=
    bottom_withFrame (Nat.min_le_left _ _) (f.bottom_run fun s hs => (Nat.min_le_right _ _).trans (hlowest s hs))
  refine ⟨hsize, hbottom, fun hheight => Prod.ext rfl ?_⟩
  have hend : c.size ≤ (f.run start).2.size := hheight.trans (hlowest _ (f.end_mem_states start))
  rw [Nat.min_eq_left hend] at hsize
  rw [Nat.min_eq_left hheight] at hbottom
  exact eq_of_bottom_eq hsize hbottom

/-- One action goes down to the outermost frame in what it runs with one more frame, and ends higher up than it should. The
other one comes back to the former height several times, goes no lower, and fails. -/
theorem withFrame_protects_of_reach :
    let c := ofFrames [.string "a", .string "b", .string "c"]
    let deep : Action (Option Value) := .pop fun _ => .pop fun _ =>
      .withFrame (.string "x") (.pop fun _ => .pop fun taken => .push (.string "y") (.push (.string "z") (.done taken)))
        fun taken => .push (.string "v") (.push (.string "w") (.done taken))
    let shallow : Action (Except String Unit) := .push (.string "x") <| .pop fun _ => .pop fun _ => .look fun seen =>
      .withFrame (.number (.int seen.size)) (.pop fun _ => .push .null (.done ())) fun _ => .done (.error "boom")
    deep.lowest (c.push .null) = 1 ∧ (c.withFrame .null deep.run).2.bottom 1 = c.bottom 1 ∧
      (c.withFrame .null deep.run).2.toList = [.string "a", .string "y", .string "v"] ∧
      c.size ≤ shallow.lowest (c.push .null) ∧ c.withFrame .null shallow.run = (.error "boom", c) := by
  intro c deep shallow
  have hdeep : deep.lowest (c.push .null) = 1 := by decide
  have hbottom := (withFrame_protects c .null deep).2.1
  rw [hdeep] at hbottom
  have hshallow : c.size ≤ shallow.lowest (c.push .null) := by decide
  exact ⟨hdeep, hbottom, rfl, hshallow, (withFrame_protects c .null shallow).2.2 hshallow⟩

end Context

/-- A rendering with one more frame is `Context.withFrame` on the frames of the state, with all else that it changes as part
of the result. -/
theorem Render.withFrame_eq {σ α : Type} (frame : Value) (x : Run σ α) (s : State σ) :
    let called := s.context.withFrame frame fun c =>
      let inside := x { s with context := c }
      (inside, inside.2.context)
    withFrame frame x s = (called.1.1, { called.1.2 with context := called.2 }) := rfl

end Stencil
