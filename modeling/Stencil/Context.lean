import Stencil.Text.Blank
import Stencil.Value.Basic

/-!
# Contexts

The frames in which names are looked up, innermost first. The first segment of a dotted name picks the innermost frame that
has it; the other segments are looked up in what was found, and nowhere else. `withFrame` runs something with one more frame
and then takes all frames off that are too many; `popTo` does so one frame at a time, and comes to the same.
-/

namespace Stencil

/-- The frames in which names are looked up, innermost first. -/
structure Context where
  frames : List Value
deriving Inhabited

namespace Context

def empty : Context := ⟨[]⟩

/-- The frames of a list that starts with the outermost. -/
def ofFrames (frames : List Value) : Context := ⟨frames.reverse⟩

def ofValue (root : Value) : Context := ⟨[root]⟩

def size (c : Context) : Nat := c.frames.length

def isEmpty (c : Context) : Bool := c.frames.isEmpty

def toList (c : Context) : List Value := c.frames.reverse

def push (c : Context) (frame : Value) : Context := ⟨frame :: c.frames⟩

def top? (c : Context) : Option Value := c.frames.head?

def pop (c : Context) : Context := ⟨c.frames.tail⟩

def truncate (c : Context) (n : Nat) : Context := ⟨c.frames.drop (c.frames.length - n)⟩

/-- Takes frames off one by one, for as long as there are more than `n`. -/
def popTo (c : Context) (n : Nat) : Context := ⟨go c.frames⟩
where
  go : List Value → List Value
    | [] => []
    | frame :: frames => if n < (frame :: frames).length then go frames else frame :: frames

def segments (name : String) : List String :=
  (Text.split (· == '.') name.toList).map String.ofList

/-- The value of a name: the innermost frame for a dot, and otherwise what the segments lead to. -/
def get? (c : Context) (name : String) : Option Value :=
  if name = "." then c.top?
  else match segments name with
    | [] => none
    | first :: others => do
      let found ← c.frames.findSome? (·.lookup first)
      others.foldlM Value.lookup found

/-- The value of a name, or another value if it has none. -/
def getD (c : Context) (name : String) (default : Value) : Value := (c.get? name).getD default

/-- Runs `f` with one more frame, then takes off what is above the former height. -/
def withFrame {α : Type} (c : Context) (frame : Value) (f : Context → α × Context) : α × Context :=
  let (result, after) := f (c.push frame)
  (result, after.truncate c.size)

@[simp] theorem size_truncate (c : Context) (n : Nat) : (c.truncate n).size = min c.size n := by
  simp only [size, truncate, List.length_drop]
  omega

theorem truncate_of_size_le {c : Context} {n : Nat} (h : c.size ≤ n) : c.truncate n = c := by
  rw [size] at h
  rw [truncate, Nat.sub_eq_zero_of_le h, List.drop_zero]

theorem truncate_push {c : Context} {n : Nat} (frame : Value) (h : n ≤ c.size) :
    (c.push frame).truncate n = c.truncate n := by
  rw [size] at h
  rw [truncate, truncate, push, List.length_cons, Nat.succ_sub h, List.drop_succ_cons]

@[simp] theorem truncate_size_push (c : Context) (frame : Value) : (c.push frame).truncate c.size = c := by
  rw [truncate_push frame (Nat.le_refl c.size), truncate_of_size_le (Nat.le_refl c.size)]

theorem popTo_eq (c : Context) (n : Nat) : c.popTo n = if n < c.size then c.pop.popTo n else c := by
  rcases c with ⟨_ | ⟨frame, frames⟩⟩
  · exact (if_neg (Nat.not_lt_zero n)).symm
  · rw [popTo, popTo.go]
    split
    · next h => exact (if_pos h).symm
    · next h => exact (if_neg h).symm

@[simp] theorem popTo_size (c : Context) : c.popTo c.size = c := by
  rw [popTo_eq, if_neg (Nat.lt_irrefl c.size)]

/-- Taking frames off one by one comes to the same as cutting at the height. -/
theorem popTo_eq_truncate (c : Context) (n : Nat) : c.popTo n = c.truncate n := by
  rcases c with ⟨frames⟩
  induction frames with
  | nil => exact (truncate_of_size_le (Nat.zero_le n)).symm
  | cons frame frames ih =>
    rw [popTo_eq]
    split
    · next h => exact ih.trans (truncate_push frame (Nat.le_of_lt_succ h)).symm
    · next h => exact (truncate_of_size_le (Nat.not_lt.mp h)).symm

end Context
end Stencil
