import Stencil.Tag

/-!
# Segments

A template is read in segments: literal text, then a tag. A tag that is alone on its line, apart from spaces and tabs, takes
the line with it: the padding on either side and the line's end belong to the segment but are no text. The parts of a segment
and what is left after it make up the text it was read from (`append_of_next`).
-/

namespace Stencil

open Text

/-- A stretch of a template up to and including a tag. -/
structure Segment where
  /-- Literal text. -/
  text : List Char
  /-- Padding dropped in front of the tag. -/
  indent : List Char
  tag : Tag
  /-- The tag as it is written, both delimiters included. -/
  spelling : List Char
  /-- Padding and line end dropped behind the tag. -/
  trailing : List Char
  /-- The tag is alone on its line. -/
  alone : Bool

namespace Segment

/-- Whether the place after `s` starts a line, given whether the place before it does. -/
def startsLine (before : Bool) (s : List Char) : Bool :=
  match s.getLast? with
  | some c => isLineEnd c
  | none => before

/-- Splits off padding and the line end behind it, if nothing else is left of the line. The end of the text ends a line,
and a carriage return with a line feed is one line end. -/
def restOfLine? (s : List Char) : Option (List Char × List Char) :=
  let padding := s.takeWhile isPad
  match s.dropWhile isPad with
  | [] => some (padding, [])
  | '\r' :: '\n' :: rest => some (padding ++ ['\r', '\n'], rest)
  | c :: rest => if isLineEnd c then some (padding ++ [c], rest) else none

def source (seg : Segment) : List Char := seg.text ++ seg.indent ++ seg.spelling ++ seg.trailing

/-- What follows the literal text of a segment that `rest` follows. -/
def restAfterText (seg : Segment) (rest : List Char) : List Char := seg.indent ++ seg.spelling ++ seg.trailing ++ rest

/-- The segment of a tag that has `before` in front of it and `after` behind it, and what is left after the segment; `fresh`
says whether `before` starts a line. -/
def ofParts (fresh : Bool) (before spelling after : List Char) (tag : Tag) : Segment × List Char :=
  let text := dropEndWhile isPad before
  match if tag.canStandAlone && startsLine fresh text then restOfLine? after else none with
  | some (trailing, rest) => (⟨text, takeEndWhile isPad before, tag, spelling, trailing, true⟩, rest)
  | none => (⟨before, [], tag, spelling, [], false⟩, after)

/-- Reads the next segment, if there is another tag, and gives what is left after it. A fault comes with the text in front of
the tag that has it. -/
def next (d : Delimiters) (fresh : Bool) (s : List Char) :
    Except (List Char × ParseFault) (Option (Segment × List Char)) :=
  match cut? d.opener.toList s with
  | none => .ok none
  | some (before, inside) =>
    match Tag.read d inside with
    | .error fault => .error (before, fault)
    | .ok (tag, after) => .ok (some (ofParts fresh before (d.opener.toList ++ between inside after) after tag))

theorem append_of_restOfLine? {s trailing rest : List Char} (h : restOfLine? s = some (trailing, rest)) :
    trailing ++ rest = s := by
  have hs : s.takeWhile isPad ++ s.dropWhile isPad = s := List.takeWhile_append_dropWhile
  unfold restOfLine? at h
  generalize s.takeWhile isPad = padding at h hs
  generalize s.dropWhile isPad = t at h hs
  simp only at h
  split at h
  · simp_all
  · simp only [Option.some.injEq, Prod.mk.injEq] at h
    simp [← h.1, ← h.2, ← hs]
  · split at h
    · simp only [Option.some.injEq, Prod.mk.injEq] at h
      simp [← h.1, ← h.2, ← hs]
    · simp at h

theorem append_ofParts (fresh : Bool) (before spelling after : List Char) (tag : Tag) :
    (ofParts fresh before spelling after tag).1.source ++ (ofParts fresh before spelling after tag).2 =
      before ++ spelling ++ after := by
  unfold ofParts
  simp only
  split
  · next trailing rest h =>
    split at h
    · have := append_of_restOfLine? h
      simp only [source, dropEndWhile_append_takeEndWhile, List.append_assoc, this]
    · simp at h
  · simp [source]

/-- A segment and what is left after it make up the text it was read from. -/
theorem append_of_next {d : Delimiters} {fresh : Bool} {s rest : List Char} {seg : Segment}
    (h : next d fresh s = .ok (some (seg, rest))) : seg.source ++ rest = s := by
  unfold next at h
  split at h
  · simp at h
  · next before inside hc =>
    split at h
    · simp at h
    · next tag after ht =>
      simp only [Except.ok.injEq, Option.some.injEq] at h
      obtain ⟨content, hcontent⟩ := Tag.append_of_read ht
      have hparts := append_ofParts fresh before (d.opener.toList ++ between inside after) after tag
      rw [h] at hparts
      rw [hparts, ← append_of_cut? hc, ← hcontent, between_append]
      simp

theorem spelling_ofParts (fresh : Bool) (before spelling after : List Char) (tag : Tag) :
    (ofParts fresh before spelling after tag).1.spelling = spelling := by
  unfold ofParts
  simp only
  split <;> rfl

theorem length_rest_lt {d : Delimiters} {fresh : Bool} {s rest : List Char} {seg : Segment}
    (h : next d fresh s = .ok (some (seg, rest))) : rest.length < s.length := by
  have hs := append_of_next h
  have hpos : 0 < seg.spelling.length := by
    unfold next at h
    split at h
    · simp at h
    · split at h
      · simp at h
      · next before inside _ _ tag after _ =>
        simp only [Except.ok.injEq, Option.some.injEq] at h
        have hspelling := spelling_ofParts fresh before (d.opener.toList ++ between inside after) after tag
        have := List.length_pos_iff.mpr d.opener_toList_ne_nil
        rw [h] at hspelling
        rw [hspelling, List.length_append]
        omega
  rw [← hs]
  simp only [source, List.length_append]
  omega

end Segment
end Stencil
