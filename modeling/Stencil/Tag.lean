import Stencil.ParseError
import Stencil.Text.Search

/-!
# Tags

What stands between two delimiters. The first character that is not white space, the sigil, says which kind of tag it is; any
other character starts the name of an escaped interpolation, unless it is punctuation that is kept for kinds of tag that do
not exist here. `Tag.read` reads one tag off the text after an opening delimiter and leaves a rest of that text
(`append_of_read`).
-/

namespace Stencil

open Text

/-- A name is a dot, or segments joined by dots, none of them empty and none with white space. -/
def isName (name : List Char) : Bool :=
  name == ['.'] || (name.all (!isBlank ·) && (split (· == '.') name).all (!·.isEmpty))

/-- Punctuation that starts no tag. A dot, an underscore and a hyphen may start a name. -/
def isForeignSigil (c : Char) : Bool :=
  let n := c.toNat
  let punctuation := (33 ≤ n && n ≤ 47) || (58 ≤ n && n ≤ 64) || (91 ≤ n && n ≤ 96) || (123 ≤ n && n ≤ 126)
  punctuation && c != '.' && c != '_' && c != '-'

/-- The content of a pair of delimiters. -/
inductive Tag where
  | interpolation (name : String) (escaped : Bool)
  /-- Opens a section. -/
  | opening (inverted : Bool) (name : String)
  /-- Closes a section. -/
  | closing (name : String)
  | inclusion (name : String)
  | comment
  /-- Sets the delimiters for the tags that follow. -/
  | delimiters (next : Delimiters)
deriving DecidableEq

namespace Tag

/-- The tag may take the line it stands on with it: all tags but those that write a value. -/
def canStandAlone : Tag → Bool
  | interpolation .. => false
  | _ => true

/-- The text up to the end of a tag, and the text after it. -/
def upTo (closing s : List Char) : Except ParseFault (List Char × List Char) :=
  match cut? closing s with
  | some parts => .ok parts
  | none => .error .unclosedTag

/-- The name that a tag holds, less the white space around it. -/
def nameOf (content : List Char) : Except ParseFault String :=
  let name := trim content
  if name.isEmpty then .error .emptyTag
  else if isName name then .ok (String.ofList name)
  else .error (.invalidName (String.ofList name))

/-- The delimiters that a tag sets: the two words of its content. -/
def delimitersOf (content : List Char) : Except ParseFault Delimiters :=
  let fail (fault : ChangeFault) := .error (.invalidDelimiters (String.ofList (trim content)) fault)
  match words content with
  | [opener, closer] =>
    match Delimiters.ofTexts (String.ofList opener) (String.ofList closer) with
    | .ok d => .ok d
    | .error e => fail (.rule e.fault)
  | found => fail (.count found.length)

/-- How a kind of tag is read: what it ends with before the closing delimiter, and what its content means. -/
structure Form where
  ending : List Char
  ofContent : List Char → Except ParseFault Tag

/-- A tag that holds a name and ends with the closing delimiter alone. -/
def Form.named (tag : String → Tag) : Form := ⟨[], fun content => (nameOf content).map tag⟩

def Form.ofSigil : Char → Option Form
  | '\x7b' => some { Form.named (interpolation · false) with ending := ['\x7d'] }
  | '&' => some (.named (interpolation · false))
  | '#' => some (.named (opening false))
  | '^' => some (.named (opening true))
  | '/' => some (.named closing)
  | '>' => some (.named inclusion)
  | '!' => some ⟨[], fun _ => .ok comment⟩
  | '=' => some ⟨['='], fun content => (delimitersOf content).map delimiters⟩
  | _ => none

/-- Reads a tag of this kind: the tag, and what follows its closing delimiter. -/
def Form.read (form : Form) (closer s : List Char) : Except ParseFault (Tag × List Char) := do
  let (content, rest) ← upTo (form.ending ++ closer) s
  let tag ← form.ofContent content
  return (tag, rest)

/-- Reads a tag off the text after its opening delimiter: the tag, and what follows its closing delimiter. -/
def read (d : Delimiters) (s : List Char) : Except ParseFault (Tag × List Char) :=
  let inner := s.dropWhile isBlank
  let closer := d.closer.toList
  if (strip? closer inner).isSome then .error .emptyTag
  else match inner with
    | [] => .error .unclosedTag
    | c :: body =>
      match Form.ofSigil c with
      | some form => form.read closer body
      | none =>
        if isForeignSigil c then .error (.unknownSigil c)
        else (Form.named (interpolation · true)).read closer inner

theorem append_of_upTo {closing s content rest : List Char} (h : upTo closing s = .ok (content, rest)) :
    content ++ closing ++ rest = s := by
  unfold upTo at h
  split at h
  · next parts hc => cases h; exact append_of_cut? hc
  · cases h

theorem Form.append_of_read {form : Form} {closer s rest : List Char} {tag : Tag}
    (h : form.read closer s = .ok (tag, rest)) : ∃ content, content ++ closer ++ rest = s := by
  unfold Form.read at h
  cases hu : upTo (form.ending ++ closer) s with
  | error e => simp [hu, bind, Except.bind] at h
  | ok parts =>
    obtain ⟨content, rest'⟩ := parts
    cases hc : form.ofContent content with
    | error e => simp [hu, hc, bind, Except.bind] at h
    | ok tag' =>
      simp only [hu, hc, bind, Except.bind, pure, Except.pure, Except.ok.injEq, Prod.mk.injEq] at h
      exact ⟨content ++ form.ending, by rw [← append_of_upTo hu, h.2]; simp⟩

/-- Reading a tag leaves a rest of the text, and takes at least the closing delimiter. -/
theorem append_of_read {d : Delimiters} {s rest : List Char} {tag : Tag} (h : read d s = .ok (tag, rest)) :
    ∃ content, content ++ d.closer.toList ++ rest = s := by
  have hs : s.takeWhile isBlank ++ s.dropWhile isBlank = s := List.takeWhile_append_dropWhile
  unfold read at h
  generalize s.takeWhile isBlank = blank at hs
  generalize s.dropWhile isBlank = inner at h hs
  simp only at h
  split at h
  · cases h
  · split at h
    · cases h
    · next c body _ =>
      split at h
      · obtain ⟨content, rfl⟩ := Form.append_of_read h
        exact ⟨blank ++ c :: content, by simp [← hs]⟩
      · split at h
        · cases h
        · obtain ⟨content, hc⟩ := Form.append_of_read h
          exact ⟨blank ++ content, by simp [← hs, ← hc]⟩

end Tag
end Stencil
