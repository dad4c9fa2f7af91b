import Stencil.Config.Yaml.Scalar
import Stencil.Config.Yaml.Tag

/-!
# Tokens

A YAML text in tokens. Columns become tokens for the start and the end of blocks here, and a key is marked once the colon
behind it is found: until then its place is kept as a `Candidate`. Inside brackets columns do not count.
-/

namespace Stencil.Config.Yaml

/-- A piece of a YAML text. -/
inductive Token where
  | directive (d : Directive)
  | documentStart
  | documentEnd
  | blockSequence
  | blockMapping
  | blockEnd
  | flowSequence
  | flowSequenceEnd
  | flowMapping
  | flowMappingEnd
  /-- A comma. -/
  | separator
  /-- A dash in front of an item. -/
  | item
  /-- What follows is a key. -/
  | key
  /-- What follows is a value. -/
  | value
  | alias (name : String)
  | anchor (name : String)
  | tag (t : Tag)
  | scalar (style : Style) (text : String)
deriving Repr

/-- A place where a key may have started: it is one if a colon follows on the same line and not too far away. -/
structure Candidate where
  /-- Nothing but a key can stand there. -/
  required : Bool
  /-- How many tokens there are in front of it. -/
  before : Nat
  line : Nat
  column : Nat

def maxKeyLength : Nat := 1024

/-- No colon from this character on makes the candidate a key. -/
def Candidate.isStale (c : Candidate) (g : Glyph) : Bool := c.line < g.line || c.column + maxKeyLength < g.column

/-- The reading of a text. -/
structure Scan where
  rest : List Glyph
  /-- The tokens found, the last one first. -/
  found : List Token := []
  /-- The columns of the blocks that are open, the innermost first. -/
  columns : List Nat := []
  candidate : Option Candidate := none
  /-- The candidates outside each pair of brackets that is open, the innermost first. -/
  outside : List (Option Candidate) := []
  /-- A key may start here without being marked as one. -/
  keyAllowed : Bool := true

namespace Scan

def flow (s : Scan) : Bool := !s.outside.isEmpty

def margin (s : Scan) : Nat :=
  match s.columns with
  | [] => 0
  | column :: _ => column + 1

def emit (token : Token) (s : Scan) : Scan := { s with found := token :: s.found }

def insert (before : Nat) (token : Token) (s : Scan) : Scan :=
  let later := s.found.length - before
  { s with found := s.found.take later ++ token :: s.found.drop later }

def past (rest : List Glyph) (keyAllowed : Bool) (s : Scan) : Scan := { s with rest, keyAllowed }

def drop? (s : Scan) : Option Scan :=
  if s.candidate.any (·.required) then none else some { s with candidate := none }

/-- Takes this place as a candidate if a key may start here. -/
def offer? (g : Glyph) (s : Scan) : Option Scan :=
  if s.keyAllowed then
    s.drop?.map fun s =>
      { s with candidate := some ⟨!s.flow && s.columns.head? == some g.column, s.found.length, g.line, g.column⟩ }
  else some s

/-- Gives up the candidates that are stale at this character. -/
def expire? (g : Glyph) (s : Scan) : Option Scan :=
  let expire : Option Candidate → Option (Option Candidate)
    | some c => if c.isStale g then (if c.required then none else some none) else some (some c)
    | none => some none
  do return { s with candidate := ← expire s.candidate, outside := ← s.outside.mapM expire }

/-- Opens a block at a column, behind the first `before` tokens, unless one is open there. -/
def openBlock (before column : Nat) (token : Token) (s : Scan) : Scan :=
  if !s.flow && s.margin ≤ column then { s.insert before token with columns := column :: s.columns } else s

def closeBlocks (least : Nat) (s : Scan) : Scan :=
  if s.flow then s
  else
    { s with
      found := (s.columns.takeWhile (least ≤ ·)).map (fun _ => Token.blockEnd) ++ s.found
      columns := s.columns.dropWhile (least ≤ ·) }

/-- Opens a block of the kind that an indicator belongs to. Outside brackets one must be allowed here. -/
def openFor? (token : Token) (g : Glyph) (s : Scan) : Option Scan :=
  if s.flow then some s
  else if s.keyAllowed then some (s.openBlock s.found.length g.column token)
  else none

/-- Skips white space and comments. A tab counts as white space where no key may start, and a line break outside brackets
makes a place where one may. -/
def skip (flow comment keyAllowed : Bool) : List Glyph → Bool × List Glyph
  | [] => (keyAllowed, [])
  | g :: s =>
    if g.isBreak then skip flow false (keyAllowed || !flow) s
    else if comment then skip flow true keyAllowed s
    else if g.char == '#' then skip flow true keyAllowed s
    else if g.char == ' ' || (g.char == '\t' && (flow || !keyAllowed)) || (g.char == byteOrderMark && g.column == 0) then
      skip flow false keyAllowed s
    else (keyAllowed, g :: s)

/-! ### Reading one token

Each of these reads the token that starts with a character `g`; `rest` is what follows the character. -/

def directive? (rest : List Glyph) (s : Scan) : Option Scan := do
  let (d, rest) ← readDirective rest
  return (← (s.closeBlocks 0).drop?).emit (.directive d) |>.past rest false

def division? (token : Token) (rest : List Glyph) (s : Scan) : Option Scan := do
  return (← (s.closeBlocks 0).drop?).emit token |>.past (rest.drop 2) false

def openFlow? (token : Token) (g : Glyph) (rest : List Glyph) (s : Scan) : Option Scan := do
  let s ← s.offer? g
  return { s.emit token with candidate := none, outside := s.candidate :: s.outside }.past rest true

def closeFlow? (token : Token) (rest : List Glyph) (s : Scan) : Option Scan := do
  let s ← s.drop?
  return { s.emit token with candidate := s.outside.head?.join, outside := s.outside.tail }.past rest false

def separator? (rest : List Glyph) (s : Scan) : Option Scan := do
  return (← s.drop?).emit .separator |>.past rest true

def item? (g : Glyph) (rest : List Glyph) (s : Scan) : Option Scan := do
  return (← (← s.openFor? .blockSequence g).drop?).emit .item |>.past rest true

def key? (g : Glyph) (rest : List Glyph) (s : Scan) : Option Scan := do
  return (← (← s.openFor? .blockMapping g).drop?).emit .key |>.past rest !s.flow

/-- A colon. It makes the candidate a key, if there is one. -/
def value? (g : Glyph) (rest : List Glyph) (s : Scan) : Option Scan :=
  match s.candidate with
  | some c =>
    let s := (s.insert c.before .key).openBlock c.before c.column .blockMapping
    some ({ s.emit .value with candidate := none }.past rest false)
  | none => (s.openFor? .blockMapping g).map fun s => (s.emit .value).past rest !s.flow

def named? (token : String → Token) (g : Glyph) (rest : List Glyph) (s : Scan) : Option Scan := do
  let (name, rest) := span (isWordPart ·.char) rest
  if name.isEmpty || !(atGap rest || startsWithAny ['?', ':', ',', ']', '\x7d', '%', '@', '\x60'] rest) then failure
  return (← s.offer? g).emit (token (String.ofList (chars name))) |>.past rest false

def tag? (g : Glyph) (rest : List Glyph) (s : Scan) : Option Scan := do
  let (tag, rest) ← readTag s.flow rest
  return (← s.offer? g).emit (.tag tag) |>.past rest false

def block? (style : Style) (rest : List Glyph) (s : Scan) : Option Scan := do
  let (text, rest) ← readBlock (style == .folded) s.margin rest
  return (← s.drop?).emit (.scalar style (String.ofList text)) |>.past rest true

def quoted? (g : Glyph) (rest : List Glyph) (s : Scan) : Option Scan := do
  let (text, rest) ← readQuoted g.char rest
  return (← s.offer? g).emit (.scalar .quoted (String.ofList text)) |>.past rest false

def plain? (g : Glyph) (rest : List Glyph) (s : Scan) : Option Scan := do
  let plain ← readPlain s.flow s.margin (g :: rest)
  return (← s.offer? g).emit (.scalar .plain (String.ofList plain.text)) |>.past plain.rest plain.broken

/-- Characters that start no plain scalar; some of them do when a character other than white space follows. -/
def indicators : List Char :=
  ['-', '?', ':', '#', '&', '*', '!', '|', '>', '\'', '"', '%', '@', '\x60'] ++ flowMarks

def startsPlain (flow : Bool) (g : Glyph) (rest : List Glyph) : Bool :=
  !indicators.contains g.char || ((g.char == '-' || (!flow && (g.char == '?' || g.char == ':'))) && !atGap rest)

def token? (g : Glyph) (rest : List Glyph) (s : Scan) : Option Scan :=
  let indicates := s.flow || atGap rest
  if g.column == 0 && g.char == '%' then s.directive? rest
  else if atMarker '-' (g :: rest) then s.division? .documentStart rest
  else if atMarker '.' (g :: rest) then s.division? .documentEnd rest
  else match g.char with
    | '[' => s.openFlow? .flowSequence g rest
    | '\x7b' => s.openFlow? .flowMapping g rest
    | ']' => s.closeFlow? .flowSequenceEnd rest
    | '\x7d' => s.closeFlow? .flowMappingEnd rest
    | ',' => s.separator? rest
    | '*' => s.named? .alias g rest
    | '&' => s.named? .anchor g rest
    | '!' => s.tag? g rest
    | '\'' | '"' => s.quoted? g rest
    | c =>
      if c == '-' && atGap rest then s.item? g rest
      else if c == '?' && indicates then s.key? g rest
      else if c == ':' && indicates then s.value? g rest
      else if c == '|' && !s.flow then s.block? .literal rest
      else if c == '>' && !s.flow then s.block? .folded rest
      else if !g.isGap && startsPlain s.flow g rest then s.plain? g rest
      else none

/-- The tokens of the text, all blocks closed at its end. -/
def tokens? (s : Scan) : Option (List Token) :=
  let (keyAllowed, rest) := skip s.flow false s.keyAllowed s.rest
  match rest with
  | [] => ((s.closeBlocks 0).drop?).map (·.found.reverse)
  | g :: rest =>
    match ({ s with keyAllowed }).expire? g |>.bind fun s => (s.closeBlocks (g.column + 1)).token? g rest with
    | none => none
    | some next => if next.rest.length < s.rest.length then next.tokens? else none
termination_by s.rest.length

end Scan

def tokensOf? (text : String) : Option (List Token) := do
  let rest ← glyphs? text
  ({ rest : Scan }).tokens?

end Stencil.Config.Yaml
