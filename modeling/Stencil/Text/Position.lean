/-!
# Lines and columns

A place in a text as people count it: lines end at a line feed, columns count characters, both from one. Reading a character
moves the place on (`advance`); reading a text is reading its characters in turn (`advanceAll`).
-/

namespace Stencil

/-- A line and a column, counted from one. -/
structure Position where
  line : Nat
  column : Nat
deriving DecidableEq, Repr

namespace Position

def start : Position := ⟨1, 1⟩

def advance (p : Position) (c : Char) : Position :=
  if c = '\n' then ⟨p.line + 1, 1⟩ else ⟨p.line, p.column + 1⟩

def advanceAll (p : Position) (s : List Char) : Position := s.foldl advance p

@[simp] theorem advanceAll_nil (p : Position) : p.advanceAll [] = p := rfl

@[simp] theorem advanceAll_cons (p : Position) (c : Char) (s : List Char) :
    p.advanceAll (c :: s) = (p.advance c).advanceAll s := rfl

@[simp] theorem advanceAll_append (p : Position) (s t : List Char) :
    p.advanceAll (s ++ t) = (p.advanceAll s).advanceAll t := List.foldl_append

/-- The characters that take up exactly the first `n` bytes of a text in UTF-8, if it has so many and they end between two
characters. -/
def firstBytes? : Nat → List Char → Option (List Char)
  | 0, _ => some []
  | _ + 1, [] => none
  | n + 1, c :: s => if c.utf8Size ≤ n + 1 then (firstBytes? (n + 1 - c.utf8Size) s).map (c :: ·) else none

/-- The place of a byte offset: after the characters that come before it. An offset that falls inside a character or past
the end stands for the end of the text. -/
def ofOffset (source : String) (offset : Nat) : Position :=
  start.advanceAll ((firstBytes? offset source.toList).getD source.toList)

def display (p : Position) : String := s!"line {p.line}, column {p.column}"

end Position
end Stencil
