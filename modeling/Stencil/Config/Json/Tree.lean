import Stencil.Text.Radix

/-!
# JSON trees

A JSON text as a tree. The text is cut into marks and leaves, with white space between them; a tree is a leaf, or trees between
brackets. Objects keep their entries as they are written, and numbers their spelling.
-/

namespace Stencil.Config.Json

open Text (natural? charOfCode?)

/-- A JSON value. -/
inductive Tree where
  | null
  | bool (b : Bool)
  | number (spelling : List Char)
  | text (s : String)
  | array (items : List Tree)
  | object (entries : List (String × Tree))

/-- A piece of a JSON text. -/
inductive Token where
  /-- A bracket, a comma or a colon. -/
  | mark (c : Char)
  /-- A tree without brackets. -/
  | leaf (t : Tree)

def isSpace (c : Char) : Bool := c == ' ' || c == '\t' || c == '\n' || c == '\r'

def isMark (c : Char) : Bool := ['\x7b', '\x7d', '[', ']', ',', ':'].contains c

def isNumberPart (c : Char) : Bool := c.isDigit || ['-', '+', '.', 'e', 'E'].contains c

def afterDigits? : List Char → Option (List Char)
  | c :: s => if c.isDigit then some (s.dropWhile Char.isDigit) else none
  | [] => none

/-- The rest after the part of a number in front of the point. A zero stands alone. -/
def afterWhole? : List Char → Option (List Char)
  | '0' :: s => some s
  | s => afterDigits? s

def afterFraction? : List Char → Option (List Char)
  | '.' :: s => afterDigits? s
  | s => some s

def afterExponent? : List Char → Option (List Char)
  | c :: s =>
    if c == 'e' || c == 'E' then
      match s with
      | '+' :: s | '-' :: s => afterDigits? s
      | s => afterDigits? s
    else some (c :: s)
  | [] => some []

def isNumber (s : List Char) : Bool :=
  let unsigned := match s with
    | '-' :: s => s
    | s => s
  match afterWhole? unsigned >>= afterFraction? >>= afterExponent? with
  | some rest => rest.isEmpty
  | none => false

/-- The character that a letter stands for behind a backslash. -/
def escaped? : Char → Option Char
  | '"' => some '"'
  | '\\' => some '\\'
  | '/' => some '/'
  | 'b' => some '\x08'
  | 'f' => some '\x0c'
  | 'n' => some '\n'
  | 'r' => some '\r'
  | 't' => some '\t'
  | _ => none

/-- Reads a code of four hexadecimal digits behind a backslash and a letter. -/
def readCode : List Char → Option (Nat × List Char)
  | '\\' :: 'u' :: a :: b :: c :: d :: rest => (natural? 16 [a, b, c, d]).map (·, rest)
  | _ => none

/-- A code that is the first half of a character beyond the basic plane. -/
def isHigh (n : Nat) : Bool := 0xD800 ≤ n && n < 0xDC00

/-- A code that is the second half of a character beyond the basic plane. -/
def isLow (n : Nat) : Bool := 0xDC00 ≤ n && n < 0xE000

/-- Reads a character given by its code, or by the codes of its halves. -/
def readCoded (s : List Char) : Option (Char × List Char) := do
  let (high, rest) ← readCode s
  if isHigh high then
    let (low, rest) ← readCode rest
    if isLow low then return (← charOfCode? (0x10000 + (high - 0xD800) * 0x400 + (low - 0xDC00)), rest)
    else failure
  else return (← charOfCode? high, rest)

def readChar : List Char → Option (Char × List Char)
  | [] => none
  | '\\' :: 'u' :: s => readCoded ('\\' :: 'u' :: s)
  | '\\' :: c :: s => (escaped? c).map (·, s)
  | c :: s => if c == '\\' || c.toNat < 32 then none else some (c, s)

theorem length_readCode_lt {s rest : List Char} {n : Nat} (h : readCode s = some (n, rest)) :
    rest.length < s.length := by
  unfold readCode at h
  split at h
  · obtain ⟨_, _, he⟩ := Option.map_eq_some_iff.mp h
    simp only [Prod.mk.injEq] at he
    simp only [he.2, List.length_cons]
    omega
  · cases h

theorem length_readCoded_lt {s rest : List Char} {c : Char} (h : readCoded s = some (c, rest)) :
    rest.length < s.length := by
  simp only [readCoded, Option.bind_eq_bind, Option.bind_eq_some_iff] at h
  obtain ⟨⟨high, afterHigh⟩, hhigh, h⟩ := h
  split at h
  · simp only [Option.bind_eq_some_iff] at h
    obtain ⟨⟨low, afterLow⟩, hlow, h⟩ := h
    split at h
    · obtain ⟨_, _, he⟩ := Option.bind_eq_some_iff.mp h
      cases he
      exact Nat.lt_trans (length_readCode_lt hlow) (length_readCode_lt hhigh)
    · cases h
  · obtain ⟨_, _, he⟩ := Option.bind_eq_some_iff.mp h
    cases he
    exact length_readCode_lt hhigh

theorem length_readChar_lt {s rest : List Char} {c : Char} (h : readChar s = some (c, rest)) :
    rest.length < s.length := by
  unfold readChar at h
  split at h
  · cases h
  · exact length_readCoded_lt h
  · obtain ⟨_, _, he⟩ := Option.map_eq_some_iff.mp h
    cases he
    simp only [List.length_cons]
    omega
  · split at h
    · cases h
    · cases h
      exact Nat.lt_succ_self _

/-- Reads the characters of a text up to the quote that ends it. -/
def readText (s : List Char) : Option (List Char × List Char) :=
  match s with
  | '"' :: rest => some ([], rest)
  | s =>
    match h : readChar s with
    | some (c, rest) =>
      have := length_readChar_lt h
      (readText rest).map fun (text, rest) => (c :: text, rest)
    | none => none
termination_by s.length

theorem length_readText_le {s rest text : List Char} (h : readText s = some (text, rest)) : rest.length ≤ s.length := by
  fun_induction readText s generalizing text rest with
  | case1 => cases h; exact Nat.le_succ _
  | case2 s _ c after hc _ ih =>
    obtain ⟨⟨more, end'⟩, hmore, he⟩ := Option.map_eq_some_iff.mp h
    cases he
    exact Nat.le_trans (ih hmore) (Nat.le_of_lt (length_readChar_lt hc))
  | case3 => cases h

def ofWord? (word : List Char) : Option Tree :=
  match String.ofList word with
  | "null" => some .null
  | "true" => some (.bool true)
  | "false" => some (.bool false)
  | _ => none

def readToken : List Char → Option (Token × List Char)
  | [] => none
  | '"' :: s => (readText s).map fun (text, rest) => (.leaf (.text (String.ofList text)), rest)
  | c :: s =>
    if isMark c then some (.mark c, s)
    else if isNumberPart c then
      let spelling := (c :: s).takeWhile isNumberPart
      if isNumber spelling then some (.leaf (.number spelling), (c :: s).dropWhile isNumberPart) else none
    else (ofWord? ((c :: s).takeWhile Char.isAlpha)).map fun tree => (.leaf tree, (c :: s).dropWhile Char.isAlpha)

theorem length_dropWhile_lt {p : Char → Bool} {c : Char} (s : List Char) (h : p c = true) :
    ((c :: s).dropWhile p).length < (c :: s).length := by
  rw [List.dropWhile_cons_of_pos h]
  exact Nat.lt_succ_of_le (List.dropWhile_sublist p).length_le

theorem length_readToken_lt {s rest : List Char} {token : Token} (h : readToken s = some (token, rest)) :
    rest.length < s.length := by
  unfold readToken at h
  split at h
  · cases h
  · obtain ⟨⟨text, after⟩, htext, he⟩ := Option.map_eq_some_iff.mp h
    cases he
    exact Nat.lt_succ_of_le (length_readText_le htext)
  · next c s _ =>
    split at h
    · cases h
      exact Nat.lt_succ_self _
    · split at h
      · next hc =>
        simp only at h
        split at h
        · cases h
          exact length_dropWhile_lt s hc
        · cases h
      · obtain ⟨tree, htree, he⟩ := Option.map_eq_some_iff.mp h
        cases he
        by_cases hc : c.isAlpha = true
        · exact length_dropWhile_lt s hc
        · simp [hc, ofWord?] at htree

def tokens? (s : List Char) : Option (List Token) :=
  match h : s.dropWhile isSpace with
  | [] => some []
  | c :: rest =>
    match ht : readToken (c :: rest) with
    | some (token, rest) =>
      have : rest.length < s.length :=
        Nat.lt_of_lt_of_le (length_readToken_lt ht) (h ▸ (List.dropWhile_sublist isSpace).length_le)
      (tokens? rest).map (token :: ·)
    | none => none
termination_by s.length

mutual

/-- Reads a tree off the tokens. No tree is nested deeper than there are tokens, and `n` bounds the nesting. -/
def readTree : (n : Nat) → List Token → Option (Tree × List Token)
  | 0, _ => none
  | _ + 1, .leaf tree :: rest => some (tree, rest)
  | _ + 1, .mark '[' :: .mark ']' :: rest => some (.array [], rest)
  | _ + 1, .mark '\x7b' :: .mark '\x7d' :: rest => some (.object [], rest)
  | n + 1, .mark '[' :: rest => (readItems n rest).map fun (items, rest) => (.array items, rest)
  | n + 1, .mark '\x7b' :: rest => (readEntries n rest).map fun (entries, rest) => (.object entries, rest)
  | _ + 1, _ => none

/-- Reads at least one item, and the bracket behind the last. -/
def readItems : (n : Nat) → List Token → Option (List Tree × List Token)
  | 0, _ => none
  | n + 1, tokens => do
    match ← readTree n tokens with
    | (tree, .mark ',' :: rest) => (readItems n rest).map fun (items, rest) => (tree :: items, rest)
    | (tree, .mark ']' :: rest) => return ([tree], rest)
    | _ => failure

/-- Reads at least one entry, and the brace behind the last. -/
def readEntries : (n : Nat) → List Token → Option (List (String × Tree) × List Token)
  | n + 1, .leaf (.text name) :: .mark ':' :: rest => do
    match ← readTree n rest with
    | (tree, .mark ',' :: rest) => (readEntries n rest).map fun (entries, rest) => ((name, tree) :: entries, rest)
    | (tree, .mark '\x7d' :: rest) => return ([(name, tree)], rest)
    | _ => failure
  | _, _ => none

end

/-- The tree of a text, if the text is one tree and nothing else. -/
def Tree.ofText? (text : String) : Option Tree := do
  let tokens ← tokens? text.toList
  match ← readTree (2 * tokens.length + 1) tokens with
  | (tree, []) => return tree
  | _ => failure

end Stencil.Config.Json
