import Stencil.Text.Blank

/-!
# Characters in their places

YAML tells structure by columns, so its text is read as characters that know their line and column. All ways of ending a line
that are not of their own kind become line feeds before that.
-/

namespace Stencil.Config.Yaml

/-- A character and its place, lines and columns counted from zero. -/
structure Glyph where
  char : Char
  line : Nat
  column : Nat
deriving Repr

/-- The mark that a text may start with to tell how its bytes are ordered. -/
def byteOrderMark : Char := '\ufeff'

/-- A character that YAML text may have: what can be printed, the tab, and line ends. -/
def isAllowed (c : Char) : Bool :=
  let n := c.toNat
  n == 9 || n == 10 || n == 13 || (0x20 ≤ n && n ≤ 0x7E) || n == 0x85 || (0xA0 ≤ n && n ≤ 0xFFFD) || 0x10000 ≤ n

/-- A character that ends a line once line ends are normal. -/
def isBreak (c : Char) : Bool := c == '\n' || c == '\u2028' || c == '\u2029'

/-- The text with a line feed for each carriage return, alone or with its line feed, and for each next-line character. -/
def normalBreaks : List Char → List Char
  | [] => []
  | '\r' :: '\n' :: s => '\n' :: normalBreaks s
  | c :: s => (if c == '\r' || c == '\u0085' then '\n' else c) :: normalBreaks s

def locate (line column : Nat) : List Char → List Glyph
  | [] => []
  | c :: s => ⟨c, line, column⟩ :: if isBreak c then locate (line + 1) 0 s else locate line (column + 1) s

/-- The characters of a text in their places, if YAML text may have them all. -/
def glyphs? (text : String) : Option (List Glyph) :=
  if text.toList.all isAllowed then some (locate 0 0 (normalBreaks text.toList)) else none

def isWordPart (c : Char) : Bool := c.isAlphanum || c == '_' || c == '-'

namespace Glyph

def isBreak (g : Glyph) : Bool := Yaml.isBreak g.char

def isPad (g : Glyph) : Bool := Text.isPad g.char

def isGap (g : Glyph) : Bool := g.isPad || g.isBreak

end Glyph

def chars (s : List Glyph) : List Char := s.map (·.char)

def startsWith (c : Char) : List Glyph → Bool
  | [] => false
  | g :: _ => g.char == c

def startsWithAny (cs : List Char) : List Glyph → Bool
  | [] => false
  | g :: _ => cs.contains g.char

/-- Whether white space or the end of the text comes next. -/
def atGap : List Glyph → Bool
  | [] => true
  | g :: _ => g.isGap

/-- Whether a line starts with three times this character, and nothing else is joined to them. -/
def atMarker (c : Char) : List Glyph → Bool
  | g :: h :: i :: s => g.column == 0 && chars [g, h, i] == [c, c, c] && atGap s
  | _ => false

def atDivision (s : List Glyph) : Bool := atMarker '-' s || atMarker '.' s

def span (p : Glyph → Bool) (s : List Glyph) : List Glyph × List Glyph := (s.takeWhile p, s.dropWhile p)

theorem length_span_le (p : Glyph → Bool) (s : List Glyph) : (span p s).2.length ≤ s.length :=
  (List.dropWhile_sublist p).length_le

theorem length_span_lt {p : Glyph → Bool} {g : Glyph} (s : List Glyph) (h : p g = true) :
    (span p (g :: s)).2.length < (g :: s).length := by
  rw [span, List.dropWhile_cons_of_pos h]
  exact Nat.lt_succ_of_le (length_span_le p s)

/-- The rest of the text after spaces, tabs and a comment, if that is where the line ends. -/
def lineEnd? (s : List Glyph) : Option (List Glyph) :=
  let s := s.dropWhile (·.isPad)
  let s := if startsWith '#' s then s.dropWhile (!·.isBreak) else s
  match s with
  | [] => some []
  | g :: s => if g.isBreak then some s else none

end Stencil.Config.Yaml
