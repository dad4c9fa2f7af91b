import Stencil.Config.Yaml.Glyph
import Stencil.Text.Radix

/-!
# Scalars

The text of a YAML scalar in each of its styles: plain, between quotes of either kind, or as a block of lines. What all share
is `fold`: line breaks inside a scalar become a space, or one break less than there are.
-/

namespace Stencil.Config.Yaml

open Text (natural? charOfCode?)

/-- How a scalar is written. -/
inductive Style where
  | plain
  | quoted
  /-- A block whose line breaks count. -/
  | literal
  /-- A block whose lines are joined. -/
  | folded
deriving DecidableEq, Repr

/-- What white space between two words stands for. Line breaks count and other white space around them does not: a single
line feed is a space, and of several the first is dropped. -/
def fold (gap : List Char) : List Char :=
  match gap.filter isBreak with
  | [] => gap
  | ['\n'] => [' ']
  | '\n' :: more => more
  | breaks => breaks

/-! ### Quoted scalars -/

/-- The character that a letter stands for behind a backslash. -/
def escaped? : Char → Option Char
  | '0' => some '\x00'
  | 'a' => some '\x07'
  | 'b' => some '\x08'
  | 't' | '\t' => some '\t'
  | 'n' => some '\n'
  | 'v' => some '\x0b'
  | 'f' => some '\x0c'
  | 'r' => some '\r'
  | 'e' => some '\x1b'
  | ' ' => some ' '
  | '"' => some '"'
  | '/' => some '/'
  | '\\' => some '\\'
  | 'N' => some '\u0085'
  | '_' => some '\u00a0'
  | 'L' => some '\u2028'
  | 'P' => some '\u2029'
  | _ => none

/-- How many hexadecimal digits follow a letter behind a backslash. -/
def codeLength? : Char → Option Nat
  | 'x' => some 2
  | 'u' => some 4
  | 'U' => some 8
  | _ => none

/-- Reads the character that a letter and what follows it stand for behind a backslash. -/
def readEscaped (letter : Char) (s : List Glyph) : Option (Char × List Glyph) :=
  match codeLength? letter with
  | none => (escaped? letter).map (·, s)
  | some n => do
    let digits := s.take n
    if digits.length < n then failure
    return (← natural? 16 (chars digits) >>= charOfCode?, s.drop n)

/-- Reads white space inside quotes. A line there must not look like a division of documents. -/
def readGap (meaning : List Char → List Char) (s : List Glyph) : Option (List Char × List Glyph) :=
  let (gap, rest) := span (·.isGap) s
  if atDivision rest then none else some (meaning (chars gap), rest)

/-- Reads a piece of a text between quotes of one kind, where a quote is written twice. -/
def readSinglePiece : List Glyph → Option (List Char × List Glyph)
  | [] => none
  | g :: s =>
    if g.isGap then readGap fold (g :: s)
    else if g.char == '\'' then (if startsWith '\'' s then some ([g.char], s.drop 1) else none)
    else some ([g.char], s)

/-- Reads a piece of a text between quotes of the other kind, where a backslash escapes. A line break behind a backslash
counts for nothing, and white space behind it for its line breaks. -/
def readDoublePiece : List Glyph → Option (List Char × List Glyph)
  | [] => none
  | g :: s =>
    if g.isGap then readGap fold (g :: s)
    else if g.char == '"' then none
    else if g.char == '\\' then
      match s with
      | [] => none
      | letter :: s =>
        if letter.isBreak then readGap (List.filter isBreak) s
        else (readEscaped letter.char s).map fun (c, s) => ([c], s)
    else some ([g.char], s)

def readPiece (quote : Char) : List Glyph → Option (List Char × List Glyph) :=
  if quote == '\'' then readSinglePiece else readDoublePiece

theorem length_readEscaped_le {letter c : Char} {s rest : List Glyph} (h : readEscaped letter s = some (c, rest)) :
    rest.length ≤ s.length := by
  unfold readEscaped at h
  split at h
  · obtain ⟨_, _, he⟩ := Option.map_eq_some_iff.mp h
    cases he
    exact Nat.le_refl _
  · simp only at h
    split at h
    · cases h
    · obtain ⟨_, _, he⟩ := Option.bind_eq_some_iff.mp h
      cases he
      simp

theorem length_readGap_le {meaning : List Char → List Char} {s rest : List Glyph} {text : List Char}
    (h : readGap meaning s = some (text, rest)) : rest.length ≤ s.length := by
  simp only [readGap] at h
  split at h
  · cases h
  · cases h
    exact length_span_le _ s

theorem length_readGap_lt {meaning : List Char → List Char} {g : Glyph} {s rest : List Glyph} {text : List Char}
    (h : readGap meaning (g :: s) = some (text, rest)) (hg : g.isGap = true) : rest.length < (g :: s).length := by
  simp only [readGap] at h
  split at h
  · cases h
  · cases h
    exact length_span_lt s hg

theorem length_readSinglePiece_lt {s rest : List Glyph} {text : List Char}
    (h : readSinglePiece s = some (text, rest)) : rest.length < s.length := by
  unfold readSinglePiece at h
  split at h
  · cases h
  · next g s =>
    split at h
    · next hg => exact length_readGap_lt h hg
    · split at h
      · split at h
        · cases h
          exact Nat.lt_succ_of_le (by simp)
        · cases h
      · cases h
        exact Nat.lt_succ_self _

theorem length_readDoublePiece_lt {s rest : List Glyph} {text : List Char}
    (h : readDoublePiece s = some (text, rest)) : rest.length < s.length := by
  unfold readDoublePiece at h
  split at h
  · cases h
  · next g s =>
    split at h
    · next hg => exact length_readGap_lt h hg
    · split at h
      · cases h
      · split at h
        · split at h
          · cases h
          · next letter s =>
            split at h
            · exact Nat.lt_trans (Nat.lt_succ_of_le (length_readGap_le h)) (Nat.lt_succ_self _)
            · obtain ⟨⟨c, after⟩, hc, he⟩ := Option.map_eq_some_iff.mp h
              cases he
              exact Nat.lt_trans (Nat.lt_succ_of_le (length_readEscaped_le hc)) (Nat.lt_succ_self _)
        · cases h
          exact Nat.lt_succ_self _

theorem length_readPiece_lt {quote : Char} {s rest : List Glyph} {text : List Char}
    (h : readPiece quote s = some (text, rest)) : rest.length < s.length := by
  unfold readPiece at h
  split at h
  · exact length_readSinglePiece_lt h
  · exact length_readDoublePiece_lt h

def readPieces (quote : Char) (s : List Glyph) : List Char × List Glyph :=
  match h : readPiece quote s with
  | none => ([], s)
  | some (text, rest) =>
    have := length_readPiece_lt h
    let (more, rest) := readPieces quote rest
    (text ++ more, rest)
termination_by s.length

def readQuoted (quote : Char) (s : List Glyph) : Option (List Char × List Glyph) :=
  match readPieces quote s with
  | (text, g :: rest) => if g.char == quote then some (text, rest) else none
  | _ => none

/-! ### Plain scalars -/

/-- Brackets and commas, which stand for themselves inside brackets only. -/
def flowMarks : List Char := [',', '[', ']', '\x7b', '\x7d']

def endsPlain (flow : Bool) (s : List Glyph) : Bool :=
  (startsWith ':' s && atGap (s.drop 1)) || (flow && startsWithAny flowMarks s)

/-- Reads a stretch of a plain scalar without white space. Inside brackets a colon must not touch one of them. -/
def readWord (flow : Bool) : List Glyph → Option (List Char × List Glyph)
  | [] => some ([], [])
  | g :: s =>
    if g.isGap || endsPlain flow (g :: s) then some ([], g :: s)
    else if flow && g.char == ':' && startsWithAny ('?' :: flowMarks) s then none
    else (readWord flow s).map fun (word, rest) => (g.char :: word, rest)

/-- Whether white space holds a tab where columns count: behind a line break and left of the margin. -/
def hasStrayTab (margin : Nat) (gap : List Glyph) : Bool :=
  (gap.dropWhile (!·.isBreak)).any fun g => g.char == '\t' && g.column < margin

/-- Whether a plain scalar goes on in front of this text. Outside brackets it goes on right of the margin only. -/
def goesOn (flow : Bool) (margin : Nat) : List Glyph → Bool
  | [] => false
  | g :: s => (flow || margin ≤ g.column) && g.char != '#' && !atDivision (g :: s) && !endsPlain flow (g :: s)

/-- A plain scalar that has been read. -/
structure Plain where
  text : List Char
  /-- The white space behind the scalar has a line break. -/
  broken : Bool
  rest : List Glyph

theorem length_readWord_le {flow : Bool} {s rest : List Glyph} {word : List Char}
    (h : readWord flow s = some (word, rest)) : rest.length ≤ s.length := by
  fun_induction readWord flow s generalizing word with
  | case1 => cases h; exact Nat.le_refl _
  | case2 => cases h; exact Nat.le_refl _
  | case3 => cases h
  | case4 g s _ _ ih =>
    obtain ⟨⟨more, after⟩, hmore, he⟩ := Option.map_eq_some_iff.mp h
    cases he
    exact Nat.le_succ_of_le (ih hmore)

theorem length_span_lt_of_ne_nil {p : Glyph → Bool} {s : List Glyph} (h : (span p s).1.isEmpty = false) :
    (span p s).2.length < s.length := by
  cases s with
  | nil => cases h
  | cons g s =>
    by_cases hg : p g = true
    · exact length_span_lt s hg
    · simp [span, hg] at h

/-- Reads a plain scalar and the white space behind it. -/
def readPlain (flow : Bool) (margin : Nat) (s : List Glyph) : Option Plain :=
  match h : readWord flow s with
  | none => none
  | some (word, rest) =>
    let gap := span (·.isGap) rest
    if hasStrayTab margin gap.1 then none
    else if hg : gap.1.isEmpty = false ∧ goesOn flow margin gap.2 then
      have : gap.2.length < s.length := Nat.lt_of_lt_of_le (length_span_lt_of_ne_nil hg.1) (length_readWord_le h)
      (readPlain flow margin gap.2).map fun plain => { plain with text := word ++ fold (chars gap.1) ++ plain.text }
    else some ⟨word, gap.1.any (·.isBreak), gap.2⟩
termination_by s.length

/-! ### Blocks -/

/-- What becomes of the line breaks at the end of a block. -/
inductive Chomping where
  | strip
  /-- The first one stays. -/
  | clip
  | keep
deriving DecidableEq, Repr

/-- What the first line of a block says: the chomping, and the indentation if it is given. -/
structure Header where
  chomping : Chomping
  indent : Option Nat

def Chomping.ofSign? : Char → Option Chomping
  | '-' => some strip
  | '+' => some keep
  | _ => none

def indentOfDigit? (c : Char) : Option Nat := if c.isDigit && c != '0' then some (c.toNat - '0'.toNat) else none

/-- The header that signs and digits stand for, at most one of each, in either order. -/
def Header.ofMarks? : List Char → Option Header
  | [] => some ⟨.clip, none⟩
  | [c] =>
    match Chomping.ofSign? c with
    | some chomping => some ⟨chomping, none⟩
    | none => (indentOfDigit? c).map (⟨.clip, some ·⟩)
  | [c, d] =>
    match Chomping.ofSign? c with
    | some chomping => (indentOfDigit? d).map (⟨chomping, some ·⟩)
    | none => do return ⟨← Chomping.ofSign? d, ← indentOfDigit? c⟩
  | _ => none

def readHeader (s : List Glyph) : Option (Header × List Glyph) := do
  let (marks, rest) := span (fun g => g.char.isDigit || g.char == '+' || g.char == '-') s
  return (← Header.ofMarks? (chars marks), ← lineEnd? rest)

/-- The breaks of the empty lines that come next, how far their indentation reaches, and the rest. Indentation is of spaces,
and only up to its column if that is known. -/
def readEmptyLines (indent : Option Nat) : List Glyph → Option (List Char × Nat × List Glyph)
  | [] => some ([], 0, [])
  | g :: s =>
    let inside := indent.all (g.column < ·)
    if inside && g.char == ' ' then readEmptyLines indent s
    else if inside && g.char == '\t' then none
    else if g.isBreak then
      (readEmptyLines indent s).map fun (breaks, reach, rest) => (g.char :: breaks, max g.column reach, rest)
    else some ([], g.column, g :: s)

/-- A line of a block, and the line breaks behind it, those of empty lines included. -/
structure BlockLine where
  text : List Char
  breaks : List Char

theorem length_readEmptyLines_le {indent : Option Nat} {s rest : List Glyph} {breaks : List Char} {reach : Nat}
    (h : readEmptyLines indent s = some (breaks, reach, rest)) : rest.length ≤ s.length := by
  induction s generalizing breaks reach with
  | nil => cases h; exact Nat.le_refl _
  | cons g s ih =>
    simp only [readEmptyLines] at h
    split at h
    · exact Nat.le_succ_of_le (ih h)
    · split at h
      · cases h
      · split at h
        · obtain ⟨⟨more, r, after⟩, hmore, he⟩ := Option.map_eq_some_iff.mp h
          cases he
          exact Nat.le_succ_of_le (ih hmore)
        · cases h
          exact Nat.le_refl _

def readBlockLines (indent : Nat) : List Glyph → Option (List BlockLine × List Glyph)
  | [] => some ([], [])
  | g :: s =>
    if g.column != indent then some ([], g :: s)
    else
      match hl : span (!·.isBreak) (g :: s) with
      | (text, []) => some ([⟨chars text, []⟩], [])
      | (text, b :: rest) =>
        match he : readEmptyLines (some indent) rest with
        | none => none
        | some (breaks, _, after) =>
          have hr : (b :: rest).length ≤ (g :: s).length := by
            have := length_span_le (!·.isBreak) (g :: s)
            rwa [hl] at this
          have : after.length < (g :: s).length := Nat.lt_of_le_of_lt (length_readEmptyLines_le he) hr
          (readBlockLines indent after).map fun (lines, rest) => (⟨chars text, b.char :: breaks⟩ :: lines, rest)
termination_by s => s.length
decreasing_by exact this

/-- Whether a line starts with white space, and so is not joined with its neighbours. -/
def BlockLine.isIndented (line : BlockLine) : Bool := (line.text.head?.map Text.isPad).getD false

def Chomping.apply : Chomping → List Char → List Char
  | strip, _ => []
  | clip, breaks => breaks.take 1
  | keep, breaks => breaks

def joinLines (join : Bool) (chomping : Chomping) : List BlockLine → List Char
  | [] => []
  | [line] => line.text ++ chomping.apply line.breaks
  | line :: next :: lines =>
    let breaks := if join && !line.isIndented && !next.isIndented then fold line.breaks else line.breaks
    line.text ++ breaks ++ joinLines join chomping (next :: lines)

/-- Reads a block behind the character that starts it. Lines belong to it right of the margin: as far right as the header
says, or else as the first line that is not empty, and no less than the empty lines before it. -/
def readBlock (join : Bool) (margin : Nat) (s : List Glyph) : Option (List Char × List Glyph) := do
  let (header, rest) ← readHeader s
  let given := header.indent.map (margin - 1 + ·)
  let (leading, reach, rest) ← readEmptyLines given rest
  let indent := given.getD (max reach (max margin 1))
  let (lines, rest) ← readBlockLines indent rest
  let leading := if lines.isEmpty && header.chomping != .keep then [] else leading
  return (leading ++ joinLines join header.chomping lines, rest)

end Stencil.Config.Yaml
