import Stencil.Proofs.Reach
import Stencil.Proofs.Text.Find
import Stencil.Proofs.Text.Position

/-!
# Reading a tag by offsets

A reader that keeps byte offsets into a template instead of what is left of it. Whatever it looks at it cuts out of the source
between two offsets, and it stops where there is no such stretch, no such byte or no such difference (`Halt.misplaced`).
`nextLap` looks for the next tag and says where the parts of its segment begin and end; it finds the segment that
`Segment.next` reads, and always cuts between characters (`nextLap_eq`).
-/

namespace Stencil.Offset

open Text

/-- Why reading by offsets stops. -/
inductive Halt where
  /-- The source is no template. -/
  | fault (e : ParseError)
  /-- There is nothing where an offset points to. -/
  | misplaced
  /-- There are more tags than were to be read. -/
  | exhausted

/-- The stretch of a text between two offsets. -/
def stretch (s : List Char) (i j : Nat) : Except Halt (List Char) :=
  match slice? s i j with
  | some t => .ok t
  | none => .error .misplaced

def difference (i j : Nat) : Except Halt Nat := if j ≤ i then .ok (i - j) else .error .misplaced

/-- How many bytes the end of the line takes up, if the text starts with one. The end of the text ends a line. -/
def lineEndSize? : List Char → Option Nat
  | [] => some 0
  | '\r' :: '\n' :: _ => some 2
  | c :: _ => if isLineEnd c then some 1 else none

section Reader

variable (source : String)

def byte (i : Nat) : Except Halt UInt8 :=
  match source.toUTF8.data.toList[i]? with
  | some b => .ok b
  | none => .error .misplaced

/-- A fault is found at the tag with the offset `start`. -/
def located {α : Type} (start : Nat) (result : Except ParseFault α) : Except Halt α :=
  result.mapError fun fault => .fault ⟨fault, Position.ofOffset source start⟩

/-- The text from the offset `i` to the end of the tag that starts at `start`, and the offset behind it. -/
def upTo (start i : Nat) (closing : List Char) : Except Halt (List Char × Nat) := do
  let behind ← stretch source.toList i source.utf8ByteSize
  match find? closing behind with
  | none => located source start (.error .unclosedTag)
  | some n =>
    let content ← stretch source.toList i (i + n)
    return (content, i + n + byteSize closing)

/-- Reads the content of a tag of this kind from the offset `i`. -/
def readForm (form : Tag.Form) (closer : List Char) (start i : Nat) : Except Halt (Tag × Nat) := do
  let (content, stop) ← upTo source start i (form.ending ++ closer)
  let tag ← located source start (form.ofContent content)
  return (tag, stop)

/-- Reads the tag that starts at an offset, and gives the offset behind it. -/
def readTag (d : Delimiters) (start : Nat) : Except Halt (Tag × Nat) := do
  let i := start + byteSize d.opener.toList
  let behind ← stretch source.toList i source.utf8ByteSize
  let blank ← difference (byteSize behind) (byteSize (behind.dropWhile isBlank))
  let inner ← stretch source.toList (i + blank) source.utf8ByteSize
  let closer := d.closer.toList
  if (strip? closer inner).isSome then located source start (.error .emptyTag)
  else match inner with
    | [] => located source start (.error .unclosedTag)
    | c :: _ =>
      match Tag.Form.ofSigil c with
      | some form => readForm source form closer start (i + blank + c.utf8Size)
      | none =>
        if isForeignSigil c then located source start (.error (.unknownSigil c))
        else readForm source (.named (.interpolation · true)) closer start (i + blank)

/-- Whether a line starts at an offset, by the byte in front of it. -/
def startsLineAt (i : Nat) : Except Halt Bool :=
  if i = 0 then .ok true
  else do
    let b ← byte source (i - 1)
    return b == 10 || b == 13

/-- Where the line starts and ends on which the tag between `start` and `stop` is alone, if it is. The reader does not look
back further than to `cursor`. -/
def lineOf (cursor start stop : Nat) : Except Halt (Option (Nat × Nat)) := do
  let before ← stretch source.toList cursor start
  let padding ← difference (byteSize before) (byteSize (dropEndWhile isPad before))
  let lineStart ← difference start padding
  if ← startsLineAt source lineStart then
    let behind ← stretch source.toList stop source.utf8ByteSize
    let padding ← difference (byteSize behind) (byteSize (behind.dropWhile isPad))
    let rest ← stretch behind padding (byteSize behind)
    return (lineEndSize? rest).map fun size => (lineStart, stop + padding + size)
  else return none

/-- Where the parts of a segment end. -/
structure Lap where
  textEnd : Nat
  /-- The tag starts here. -/
  start : Nat
  /-- The tag stops here. -/
  stop : Nat
  /-- Reading goes on from here. -/
  resume : Nat
  tag : Tag
  alone : Bool

/-- Where the parts of a segment end that starts at an offset. -/
def Lap.ofSegment (cursor : Nat) (seg : Segment) : Lap where
  textEnd := cursor + byteSize seg.text
  start := cursor + byteSize (seg.text ++ seg.indent)
  stop := cursor + byteSize (seg.text ++ seg.indent ++ seg.spelling)
  resume := cursor + byteSize seg.source
  tag := seg.tag
  alone := seg.alone

/-- Reads the next tag from an offset on, if there is one. -/
def nextLap (d : Delimiters) (cursor : Nat) : Except Halt (Option Lap) := do
  let behind ← stretch source.toList cursor source.utf8ByteSize
  match find? d.opener.toList behind with
  | none => return none
  | some n =>
    let start := cursor + n
    let (tag, stop) ← readTag source d start
    let line? ← (if tag.canStandAlone then lineOf source cursor start stop else .ok none)
    let (textEnd, resume) := line?.getD (start, stop)
    return some ⟨textEnd, start, stop, resume, tag, line?.isSome⟩

end Reader

/-- Where the line starts and ends on which a tag is alone, if it is: `before` is read in front of the tag, `front` has been read
already, and `after` is left. -/
def lineAround? (front before spelling after : List Char) : Option (Nat × Nat) :=
  if Segment.startsLine true (front ++ dropEndWhile isPad before) then
    (Segment.restOfLine? after).map fun (trailing, _) =>
      (byteSize (front ++ dropEndWhile isPad before), byteSize (front ++ before ++ spelling) + byteSize trailing)
  else none

@[simp] theorem ok_bind {α β : Type} (a : α) (f : α → Except Halt β) : (Except.ok a >>= f) = f a := rfl

theorem stretch_eq {s front t : List Char} (back : List Char) (h : s = front ++ (t ++ back)) :
    stretch s (byteSize front) (byteSize (front ++ t)) = .ok t := by
  rw [stretch, slice?_eq_some_iff.mpr ⟨front, back, by rw [h, List.append_assoc], rfl, rfl⟩]

/-- Nothing is cut out between two offsets if one of them falls inside a character or behind the end, or if the second comes
first. -/
theorem stretch_eq_misplaced_iff {source : String} {i j : Nat} : stretch source.toList i j = .error .misplaced ↔
    ¬ (String.Pos.Raw.IsValid source ⟨i⟩ ∧ String.Pos.Raw.IsValid source ⟨j⟩ ∧ i ≤ j) := by
  rw [← isSome_slice?_iff, stretch]
  cases slice? source.toList i j <;> simp

theorem difference_eq {i j n : Nat} (h : i = j + n) : difference i j = .ok n := by
  rw [difference, if_pos (by omega), h, Nat.add_sub_cancel_left]

theorem difference_dropWhile (p : Char → Bool) (s : List Char) :
    difference (byteSize s) (byteSize (s.dropWhile p)) = .ok (byteSize (s.takeWhile p)) := by
  apply difference_eq
  rw [Nat.add_comm, ← byteSize_append, List.takeWhile_append_dropWhile]

theorem stretch_dropWhile (p : Char → Bool) (s : List Char) :
    stretch s (byteSize (s.takeWhile p)) (byteSize s) = .ok (s.dropWhile p) := by
  have hs : s.takeWhile p ++ s.dropWhile p = s := List.takeWhile_append_dropWhile
  conv in byteSize s => rw [← hs]
  exact stretch_eq [] (by rw [List.append_nil, hs])

theorem difference_dropEndWhile (p : Char → Bool) (s : List Char) :
    difference (byteSize s) (byteSize (dropEndWhile p s)) = .ok (byteSize (takeEndWhile p s)) := by
  apply difference_eq
  rw [← byteSize_append, dropEndWhile_append_takeEndWhile]

theorem map_restOfLine? (s : List Char) :
    ((Segment.restOfLine? s).map fun (trailing, _) => byteSize trailing) =
      (lineEndSize? (s.dropWhile isPad)).map (byteSize (s.takeWhile isPad) + ·) := by
  rw [Segment.restOfLine?]
  generalize s.takeWhile isPad = pad
  generalize s.dropWhile isPad = rest
  fun_cases lineEndSize? rest with
  | case1 => rfl
  | case2 rest =>
    have hsize : byteSize ['\r', '\n'] = 2 := by decide
    simp [hsize]
  | case3 c rest hnot hend =>
    have hsize : byteSize [c] = 1 := by
      simp only [isLineEnd, Bool.or_eq_true, beq_iff_eq] at hend
      rcases hend with rfl | rfl <;> decide
    split
    all_goals simp_all
  | case4 c rest hnot hend =>
    split
    all_goals simp_all

section Reader

variable {source : String} {front : List Char}

theorem size_eq {s : List Char} (h : source.toList = front ++ s) : source.utf8ByteSize = byteSize front + byteSize s := by
  rw [← byteSize_toList, h, byteSize_append]

/-- What is left of the source behind an offset. -/
theorem stretch_end {s : List Char} (h : source.toList = front ++ s) :
    stretch source.toList (byteSize front) source.utf8ByteSize = .ok s := by
  rw [size_eq h, ← byteSize_append]
  exact stretch_eq [] (by rw [h, List.append_nil])

theorem upTo_eq {s closing : List Char} (h : source.toList = front ++ s) (start : Nat) (hclosing : closing ≠ []) :
    upTo source start (byteSize front) closing = located source start
      ((Tag.upTo closing s).map fun (content, rest) => (content, source.utf8ByteSize - byteSize rest)) := by
  rw [upTo, stretch_end h, ok_bind, find?_eq hclosing, Tag.upTo]
  cases hcut : cut? closing s with
  | none => rfl
  | some parts =>
    obtain ⟨content, rest⟩ := parts
    have hs := append_of_cut? hcut
    have hcontent : stretch source.toList (byteSize front) (byteSize front + byteSize content) = .ok content := by
      rw [← byteSize_append]
      exact stretch_eq (closing ++ rest) (by rw [h, ← hs, List.append_assoc])
    have hstop : byteSize front + byteSize content + byteSize closing = source.utf8ByteSize - byteSize rest := by
      rw [size_eq h, ← hs]
      simp only [byteSize_append]
      omega
    simp only [Option.map_some, hcontent, ok_bind, hstop]
    rfl

theorem readForm_eq {s closer : List Char} (h : source.toList = front ++ s) (form : Tag.Form) (hcloser : closer ≠ [])
    (start : Nat) :
    readForm source form closer start (byteSize front) = located source start
      ((form.read closer s).map fun (tag, rest) => (tag, source.utf8ByteSize - byteSize rest)) := by
  rw [readForm, upTo_eq h start (List.append_ne_nil_of_right_ne_nil form.ending hcloser), Tag.Form.read]
  cases Tag.upTo (form.ending ++ closer) s with
  | error fault => rfl
  | ok parts =>
    obtain ⟨content, rest⟩ := parts
    cases hcontent : form.ofContent content with
    | error fault => simp [located, Except.map, Except.mapError, bind, Except.bind, hcontent]
    | ok tag => simp [located, Except.map, Except.mapError, bind, Except.bind, hcontent, pure, Except.pure]

/-- A tag is read as it is read off the text behind its opening delimiter. -/
theorem readTag_eq {d : Delimiters} {inside : List Char} (h : source.toList = front ++ (d.opener.toList ++ inside)) :
    readTag source d (byteSize front) = located source (byteSize front)
      ((Tag.read d inside).map fun (tag, rest) => (tag, source.utf8ByteSize - byteSize rest)) := by
  have hbehind : source.toList = front ++ d.opener.toList ++ inside := by rw [h, List.append_assoc]
  have hsplit : inside.takeWhile isBlank ++ inside.dropWhile isBlank = inside := List.takeWhile_append_dropWhile
  have hinner : source.toList = front ++ d.opener.toList ++ inside.takeWhile isBlank ++ inside.dropWhile isBlank := by
    rw [List.append_assoc _ _ (inside.dropWhile isBlank), hsplit, hbehind]
  rw [readTag, ← byteSize_append]
  simp only [stretch_end hbehind, ok_bind, difference_dropWhile]
  rw [← byteSize_append]
  simp only [stretch_end hinner, ok_bind]
  rw [Tag.read]
  generalize inside.dropWhile isBlank = inner at hinner
  generalize inside.takeWhile isBlank = blank at hinner
  split
  · rfl
  · cases inner with
    | nil => rfl
    | cons c body =>
      cases hform : Tag.Form.ofSigil c with
      | some form =>
        have hbody : source.toList = front ++ d.opener.toList ++ blank ++ [c] ++ body := by rw [hinner]; simp
        have hat : byteSize (front ++ d.opener.toList ++ blank) + c.utf8Size =
            byteSize (front ++ d.opener.toList ++ blank ++ [c]) := by simp [Nat.add_assoc]
        simp only [hform, hat]
        exact readForm_eq hbody form d.closer_toList_ne_nil _
      | none =>
        simp only [hform]
        split
        · rfl
        · exact readForm_eq hinner _ d.closer_toList_ne_nil _

/-- The last byte of a character tells whether it ends a line. -/
theorem isLineEnd_of_byte {c : Char} {b : UInt8} (h : b ∈ String.utf8EncodeChar c) : (b == 10 || b == 13) = isLineEnd c := by
  have hcode := code_of_mem_utf8EncodeChar h
  have hfeed : '\n'.toNat = 10 := rfl
  have hreturn : '\r'.toNat = 13 := rfl
  rw [Bool.eq_iff_iff]
  simp only [isLineEnd, Bool.or_eq_true, beq_iff_eq, ← UInt8.toNat_inj, ← Char.toNat_inj, hfeed, hreturn, UInt8.reduceToNat]
  omega

/-- The byte in front of an offset is the last one of the character in front of it. -/
theorem exists_byte {c : Char} {s : List Char} (h : source.toList = front ++ [c] ++ s) :
    ∃ b ∈ String.utf8EncodeChar c, byte source (byteSize (front ++ [c]) - 1) = .ok b := by
  have hpos := c.utf8Size_pos
  have hlength := String.length_utf8EncodeChar c
  rcases List.eq_nil_or_concat (String.utf8EncodeChar c) with hnil | ⟨bytes, b, hbytes⟩
  · rw [hnil, List.length_nil] at hlength
    omega
  · have hsource : source.toUTF8.data.toList = (encode front ++ bytes) ++ b :: encode s := by
      rw [Utf8.toList_toUTF8, h]
      simp [encode, hbytes]
    have hindex : byteSize (front ++ [c]) - 1 = (encode front ++ bytes).length := by
      rw [hbytes, List.length_concat] at hlength
      rw [encode, List.length_append, length_flatMap_utf8EncodeChar, byteSize_append, byteSize_cons, byteSize_nil]
      omega
    refine ⟨b, by simp [hbytes], ?_⟩
    rw [byte, hindex, hsource]
    simp

theorem startsLineAt_eq {s : List Char} (h : source.toList = front ++ s) :
    startsLineAt source (byteSize front) = .ok (Segment.startsLine true front) := by
  cases front using List.reverseRecOn with
  | nil => rfl
  | append_singleton front c =>
    have hne : byteSize (front ++ [c]) ≠ 0 := mt byteSize_eq_zero_iff.mp (by simp)
    obtain ⟨b, hb, hbyte⟩ := exists_byte h
    rw [startsLineAt, if_neg hne, hbyte, ok_bind, isLineEnd_of_byte hb, Segment.startsLine, List.getLast?_concat]
    rfl

theorem lineOf_eq {before spelling after : List Char} (h : source.toList = front ++ (before ++ (spelling ++ after))) :
    lineOf source (byteSize front) (byteSize (front ++ before)) (byteSize (front ++ before ++ spelling)) =
      .ok (lineAround? front before spelling after) := by
  have hsplit := dropEndWhile_append_takeEndWhile isPad before
  have hpadding := difference_dropEndWhile isPad before
  have hrest := stretch_dropWhile isPad after
  have hbehind : source.toList = front ++ before ++ spelling ++ after := by
    rw [h]
    simp
  rw [lineOf, stretch_eq (spelling ++ after) h, ok_bind, lineAround?]
  generalize dropEndWhile isPad before = text at hsplit hpadding ⊢
  generalize takeEndWhile isPad before = padding at hsplit hpadding
  have htext : source.toList = front ++ text ++ (padding ++ (spelling ++ after)) := by
    rw [h, ← hsplit]
    simp
  have hstart : difference (byteSize (front ++ before)) (byteSize padding) = .ok (byteSize (front ++ text)) := by
    apply difference_eq
    rw [← hsplit]
    simp only [byteSize_append]
    omega
  rw [hpadding, ok_bind, hstart, ok_bind, startsLineAt_eq htext, ok_bind]
  cases Segment.startsLine true (front ++ text) with
  | false => rfl
  | true =>
    simp only [if_true, stretch_end hbehind, ok_bind, difference_dropWhile, hrest]
    have hline : (Segment.restOfLine? after).map (fun (trailing, _) =>
        (byteSize (front ++ text), byteSize (front ++ before ++ spelling) + byteSize trailing)) =
          ((Segment.restOfLine? after).map fun (trailing, _) => byteSize trailing).map fun size =>
            (byteSize (front ++ text), byteSize (front ++ before ++ spelling) + size) := by
      rw [Option.map_map]
      rfl
    rw [hline, map_restOfLine?, Option.map_map]
    simp only [Function.comp_def, ← Nat.add_assoc]
    rfl

/-- The segment of a tag ends where the reader by offsets says. -/
theorem ofSegment_ofParts (before spelling after : List Char) (tag : Tag) :
    Lap.ofSegment (byteSize front) (Segment.ofParts (Segment.startsLine true front) before spelling after tag).1 =
      let line? := if tag.canStandAlone then lineAround? front before spelling after else none
      let (textEnd, resume) := line?.getD (byteSize (front ++ before), byteSize (front ++ before ++ spelling))
      ⟨textEnd, byteSize (front ++ before), byteSize (front ++ before ++ spelling), resume, tag, line?.isSome⟩ := by
  have hsplit := dropEndWhile_append_takeEndWhile isPad before
  have hinline : Lap.ofSegment (byteSize front) ⟨before, [], tag, spelling, [], false⟩ =
      ⟨byteSize (front ++ before), byteSize (front ++ before), byteSize (front ++ before ++ spelling),
        byteSize (front ++ before ++ spelling), tag, false⟩ := by
    simp [Lap.ofSegment, Segment.source]
  rw [Segment.ofParts, ← Segment.startsLine_append, lineAround?]
  cases tag.canStandAlone with
  | false => exact hinline
  | true =>
    cases Segment.startsLine true (front ++ dropEndWhile isPad before) with
    | false => exact hinline
    | true =>
      cases Segment.restOfLine? after with
      | none => exact hinline
      | some parts => simp [Lap.ofSegment, Segment.source, hsplit, Nat.add_assoc]

/-- The reader finds the segment that is read off what is left of the text. -/
theorem nextLap_eq {s : List Char} (h : source.toList = front ++ s) (d : Delimiters) :
    nextLap source d (byteSize front) =
      match Segment.next d (Segment.startsLine true front) s with
      | .error (before, fault) => .error (.fault ⟨fault, (Position.start.advanceAll front).advanceAll before⟩)
      | .ok none => .ok none
      | .ok (some (seg, _)) => .ok (some (.ofSegment (byteSize front) seg)) := by
  rw [nextLap, stretch_end h, ok_bind, find?_eq d.opener_toList_ne_nil, Segment.next]
  cases hcut : cut? d.opener.toList s with
  | none => rfl
  | some parts =>
    obtain ⟨before, inside⟩ := parts
    have hbehind : source.toList = front ++ before ++ (d.opener.toList ++ inside) := by
      rw [h, ← append_of_cut? hcut]
      simp
    simp only [Option.map_some, ← byteSize_append, readTag_eq hbehind]
    cases hread : Tag.read d inside with
    | error fault =>
      change Except.error (Halt.fault ⟨fault, Position.ofOffset source (byteSize (front ++ before))⟩) = _
      rw [Position.ofOffset_byteSize hbehind, Position.advanceAll_append]
    | ok parts =>
      obtain ⟨tag, after⟩ := parts
      obtain ⟨content, hcontent⟩ := Tag.append_of_read hread
      have hwhole : source.toList = front ++ (before ++ (d.opener.toList ++ between inside after ++ after)) := by
        rw [hbehind, ← hcontent, between_append]
        simp
      simp only
      generalize d.opener.toList ++ between inside after = spelling at hwhole ⊢
      have hstop : source.utf8ByteSize - byteSize after = byteSize (front ++ before ++ spelling) := by
        rw [size_eq hwhole]
        simp only [byteSize_append]
        omega
      have hline : (if tag.canStandAlone then
          lineOf source (byteSize front) (byteSize (front ++ before)) (byteSize (front ++ before ++ spelling)) else .ok none) =
            .ok (if tag.canStandAlone then lineAround? front before spelling after else none) := by
        rw [lineOf_eq hwhole]
        split <;> rfl
      simp only [Except.map, located, Except.mapError, ok_bind, hstop, hline, ofSegment_ofParts]
      rfl

end Reader

end Stencil.Offset
