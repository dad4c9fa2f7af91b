import Stencil.Config.Yaml.Glyph
import Stencil.Text.Radix
import Stencil.Text.Utf8

/-!
# Tags and directives

A tag says what kind of value a node is. It is written out, or as a handle and what is put behind the text that the handle
stands for. Directives, at the head of a document, state the version of YAML and what handles stand for.
-/

namespace Stencil.Config.Yaml

open Text (natural?)

/-- A tag as it is written. -/
inductive Tag where
  | verbatim (text : String)
  | short (handle suffix : String)
deriving Repr

/-- A line at the head of a document. -/
inductive Directive where
  | version (major minor : Nat)
  | handle (name start : String)
deriving Repr

/-- A character of a tag. Brackets and commas only occur in tags that are written out, and in what handles stand for. -/
def isTagPart (whole : Bool) (c : Char) : Bool :=
  isWordPart c || ";/?:@&=+$.!~*'()".toList.contains c || (whole && [',', '[', ']'].contains c)

/-- Reads the bytes of a tag; a percent sign and two hexadecimal digits stand for any byte. -/
def readTagBytes (whole : Bool) : List Glyph → Option (List UInt8 × List Glyph)
  | [] => some ([], [])
  | g :: s =>
    if isTagPart whole g.char then (readTagBytes whole s).map fun (bytes, rest) => (g.char.toUInt8 :: bytes, rest)
    else if g.char == '%' then
      match s with
      | high :: low :: s => do
        let byte ← natural? 16 [high.char, low.char]
        let (bytes, rest) ← readTagBytes whole s
        return (byte.toUInt8 :: bytes, rest)
      | _ => none
    else some ([], g :: s)

def readTagText (whole : Bool) (s : List Glyph) : Option (String × List Glyph) := do
  let (bytes, rest) ← readTagBytes whole s
  match Text.Utf8.decode bytes with
  | .ok text => return (text, rest)
  | .error _ => failure

def readSomeTagText (whole : Bool) (s : List Glyph) : Option (String × List Glyph) := do
  let (text, rest) ← readTagText whole s
  if text.isEmpty then failure else return (text, rest)

def readTagName (s : List Glyph) : Option (Tag × List Glyph) :=
  let (word, rest) := span (isWordPart ·.char) s
  if startsWith '<' s then do
    let (text, rest) ← readSomeTagText true (s.drop 1)
    if startsWith '>' rest then return (.verbatim text, rest.drop 1) else failure
  else if startsWith '!' rest then do
    let (suffix, rest) ← readSomeTagText false (rest.drop 1)
    return (.short (String.ofList ('!' :: chars word ++ ['!'])) suffix, rest)
  else do
    let (suffix, rest) ← readTagText false s
    return (if suffix.isEmpty then .verbatim "!" else .short "!" suffix, rest)

def readTag (flow : Bool) (s : List Glyph) : Option (Tag × List Glyph) := do
  let (tag, rest) ← readTagName s
  if atGap rest || (flow && startsWith ',' rest) then return (tag, rest) else failure

/-- Reads a number of a version, of nine digits at most. -/
def readVersionPart (s : List Glyph) : Option (Nat × List Glyph) :=
  let (digits, rest) := span (·.char.isDigit) s
  if digits.length ≤ 9 then (natural? 10 (chars digits)).map (·, rest) else none

def readVersion (s : List Glyph) : Option (Directive × List Glyph) := do
  let (major, rest) ← readVersionPart s
  if !startsWith '.' rest then failure
  let (minor, rest) ← readVersionPart (rest.drop 1)
  return (.version major minor, rest)

def readHandle (s : List Glyph) : Option (Directive × List Glyph) := do
  if !startsWith '!' s then failure
  let (word, rest) := span (isWordPart ·.char) (s.drop 1)
  let ending := if startsWith '!' rest then ['!'] else []
  if ending.isEmpty && !word.isEmpty then failure
  let rest := rest.drop ending.length
  if !startsWithAny [' ', '\t'] rest then failure
  let (start, rest) ← readSomeTagText true (rest.dropWhile (·.isPad))
  if atGap rest then return (.handle (String.ofList ('!' :: chars word ++ ending)) start, rest) else failure

/-- Reads a directive behind its percent sign, and the line that it stands on. -/
def readDirective (s : List Glyph) : Option (Directive × List Glyph) := do
  let (word, rest) := span (isWordPart ·.char) s
  if !atGap rest then failure
  let content := rest.dropWhile (·.isPad)
  let (directive, rest) ← match String.ofList (chars word) with
    | "YAML" => readVersion content
    | "TAG" => readHandle content
    | _ => none
  return (directive, ← lineEnd? rest)

end Stencil.Config.Yaml
