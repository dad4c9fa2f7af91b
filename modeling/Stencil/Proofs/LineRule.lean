import Stencil.Proofs.Contents
import Stencil.Proofs.Reach

/-!
# The rule of lines

A tag that writes no value takes its line with it if there is nothing but padding beside it on the line: it drops this padding
and the line end behind it, and nothing is dropped otherwise. That is so for the lines of the whole template
(`Scan.Reaches.lineRule`), although reading looks back no further than to the end of the tag before: this tag ends with its
closing delimiter, which is no padding, or its line is dropped up to the line end.
-/

namespace Stencil

open Text

namespace Text

/-- What stands on its line in front of a place that has `before` in front of it. -/
def lineBefore (before : List Char) : List Char := takeEndWhile (!isLineEnd ·) before

/-- What stands on its line behind a place that has `behind` behind it. -/
def lineBehind (behind : List Char) : List Char := behind.takeWhile (!isLineEnd ·)

/-- The first line end of a text, or nothing if the text ends with its first line. -/
def firstLineEnd (s : List Char) : List Char :=
  match s.dropWhile (!isLineEnd ·) with
  | [] => []
  | '\r' :: '\n' :: _ => ['\r', '\n']
  | c :: _ => [c]

private theorem inline_of_pad {pad : List Char} (hpad : ∀ c ∈ pad, isPad c = true) :
    ∀ c ∈ pad, (!isLineEnd c) = true := by
  intro c hc
  rw [not_isLineEnd_of_isPad (hpad c hc)]
  rfl

/-- Padding behind a line end, or at the front of a text, is all that is on its line. -/
theorem lineBefore_append {s pad : List Char} (hs : Segment.startsLine true s = true) (hpad : ∀ c ∈ pad, isPad c = true) :
    lineBefore (s ++ pad) = pad := by
  refine takeEndWhile_stretch ?_ (inline_of_pad hpad)
  intro c hc
  rw [Segment.startsLine, Option.mem_def.mp hc] at hs
  have hend : isLineEnd c = true := hs
  rw [hend]
  rfl

/-- If there is nothing but padding on the line in front of a place, then a line starts in front of the padding. -/
theorem startsLine_dropEndWhile {s : List Char} (hs : ∀ c ∈ lineBefore s, isPad c = true) :
    Segment.startsLine true (dropEndWhile isPad s) = true := by
  have hsplit : dropEndWhile (!isLineEnd ·) s ++ lineBefore s = s := dropEndWhile_append_takeEndWhile _ s
  have hend : ∀ c ∈ (dropEndWhile (!isLineEnd ·) s).getLast?, isLineEnd c = true := by
    intro c hc
    simpa using getLast?_dropEndWhile hc
  have hdrop : dropEndWhile isPad s = dropEndWhile (!isLineEnd ·) s := by
    conv_lhs => rw [← hsplit]
    exact dropEndWhile_stretch (fun c hc => not_isPad_of_isLineEnd (hend c hc)) hs
  rw [hdrop, Segment.startsLine]
  cases hlast : (dropEndWhile (!isLineEnd ·) s).getLast? with
  | none => rfl
  | some c => exact hend c hlast

/-- A line is the text up to the first line end, and the line end. -/
theorem line_of_lineEnd {content brk rest : List Char} (hcontent : ∀ c ∈ content, isLineEnd c = false)
    (h : Segment.LineEnd brk rest) :
    lineBehind (content ++ (brk ++ rest)) = content ∧ firstLineEnd (content ++ (brk ++ rest)) = brk := by
  have hinline : ∀ c ∈ content, (!isLineEnd c) = true := by
    intro c hc
    rw [hcontent c hc]
    rfl
  have hline {c : Char} (hc : isLineEnd c = true) (rest : List Char) : lineBehind (content ++ c :: rest) = content ∧
      (content ++ c :: rest).dropWhile (!isLineEnd ·) = c :: rest := by
    have hend : (!isLineEnd c) = false := by rw [hc]; rfl
    exact ⟨takeWhile_stretch rest hinline hend, dropWhile_stretch rest hinline hend⟩
  cases h with
  | ofText =>
    have htake : lineBehind content = content := List.takeWhile_eq_self_iff.mpr hinline
    have hdrop : content.dropWhile (!isLineEnd ·) = [] := List.dropWhile_eq_nil_iff.mpr hinline
    rw [List.append_nil, List.append_nil, htake, firstLineEnd, hdrop]
    exact ⟨rfl, rfl⟩
  | feed =>
    obtain ⟨htake, hdrop⟩ := hline (c := '\n') rfl rest
    rw [List.singleton_append, htake, firstLineEnd, hdrop]
    exact ⟨rfl, rfl⟩
  | returnFeed =>
    obtain ⟨htake, hdrop⟩ := hline (c := '\r') rfl ('\n' :: rest)
    rw [List.cons_append, List.singleton_append, htake, firstLineEnd, hdrop]
    exact ⟨rfl, rfl⟩
  | «return» hhead =>
    obtain ⟨htake, hdrop⟩ := hline (c := '\r') rfl rest
    rw [List.singleton_append, htake, firstLineEnd, hdrop]
    refine ⟨rfl, ?_⟩
    cases rest with
    | nil => rfl
    | cons b rest =>
      have hfeed : b ≠ '\n' := by
        rintro rfl
        exact hhead rfl
      split
      · next hnil => cases hnil
      · next hfeeds =>
        rw [List.cons.injEq, List.cons.injEq] at hfeeds
        exact absurd hfeeds.2.1 hfeed
      · next hcons =>
        rw [List.cons.injEq] at hcons
        rw [hcons.1]

/-- What is dropped behind a tag that is alone on its line is the rest of the line and its end. -/
theorem line_of_closesLine {trailing rest : List Char} (h : Segment.ClosesLine trailing rest) :
    (∀ c ∈ lineBehind (trailing ++ rest), isPad c = true) ∧
      trailing = lineBehind (trailing ++ rest) ++ firstLineEnd (trailing ++ rest) := by
  obtain ⟨pad, brk, rfl, hpad, hbrk⟩ := h
  obtain ⟨hbehind, hend⟩ := line_of_lineEnd (fun c hc => not_isLineEnd_of_isPad (hpad c hc)) hbrk
  rw [List.append_assoc, hbehind, hend]
  exact ⟨hpad, rfl⟩

/-- If there is nothing but padding on the line behind a place, then the rest of the line can be dropped. -/
theorem restOfLine?_ne_none {s : List Char} (hs : ∀ c ∈ lineBehind s, isPad c = true) : Segment.restOfLine? s ≠ none := by
  intro hnone
  obtain ⟨pad, c, rest, rfl, hpad, hc, hend⟩ := Segment.restOfLine?_eq_none_iff.mp hnone
  have hmem : c ∈ lineBehind (pad ++ c :: rest) := by
    rw [lineBehind, List.takeWhile_append_of_pos (inline_of_pad hpad), List.takeWhile_cons_of_pos (by simp [hend])]
    exact List.mem_append_right pad List.mem_cons_self
  rw [hs c hmem] at hc
  cases hc

end Text

namespace Tag

/-- The first character behind the opening delimiter of a tag that is no white space. -/
def sigil? (d : Delimiters) (spelling : List Char) : Option Char :=
  (spelling.drop d.opener.toList.length).find? (!isBlank ·)

/-- The sigils of the tags that write no value. -/
def lineSigils : List Char := ['#', '^', '/', '!', '=', '>']

/-- The tag writes no value, and there is nothing but padding beside it on its line. In front of it stands `before`, and behind
it `behind`. -/
structure AloneOnLine (sigil? : Option Char) (before behind : List Char) : Prop where
  sigil : ∃ c ∈ sigil?, c ∈ lineSigils
  before : ∀ c ∈ lineBefore before, isPad c = true
  behind : ∀ c ∈ lineBehind behind, isPad c = true

theorem sigil?_eq (d : Delimiters) {blank : List Char} {c : Char} (body : List Char)
    (hblank : ∀ b ∈ blank, isBlank b = true) (hc : isBlank c = false) :
    sigil? d (d.opener.toList ++ (blank ++ c :: body)) = some c := by
  have hnone : blank.find? (!isBlank ·) = none := by
    rw [List.find?_eq_none]
    intro b hb
    rw [hblank b hb]
    exact Bool.false_ne_true
  rw [sigil?, List.drop_left, List.find?_append, hnone, Option.none_or, List.find?_cons_of_pos]
  rw [hc]
  rfl

theorem isForeignSigil_of_mem_lineSigils {c : Char} (h : c ∈ lineSigils) : isForeignSigil c = true := by
  have hall : lineSigils.all isForeignSigil = true := by decide
  exact List.all_eq_true.mp hall c h

/-- The first character of the content says whether a tag writes a value. -/
theorem Content.canStandAlone_iff {closer content : List Char} {tag : Tag} (h : Content closer tag content) :
    ∃ c body, content = c :: body ∧ (tag.canStandAlone = true ↔ c ∈ lineSigils) := by
  cases h with
  | @escaped name content hnames _ hown =>
    obtain ⟨c, body, rfl⟩ := List.exists_cons_of_ne_nil hnames.ne_nil
    refine ⟨c, body, rfl, iff_of_false Bool.false_ne_true ?_⟩
    intro hmem
    have hforeign := isForeignSigil_of_mem_lineSigils hmem
    rw [hown c rfl] at hforeign
    cases hforeign
  | unescaped | braced => exact ⟨_, _, rfl, iff_of_false Bool.false_ne_true (by decide)⟩
  | @opening inverted => exact ⟨_, _, rfl, iff_of_true rfl (by cases inverted <;> decide)⟩
  | closing | inclusion | comment | delimiters => exact ⟨_, _, rfl, iff_of_true rfl (by decide)⟩

theorem Spelling.canStandAlone_iff {d : Delimiters} {tag : Tag} {s : List Char} (h : Spelling d tag s) :
    tag.canStandAlone = true ↔ ∃ c ∈ sigil? d s, c ∈ lineSigils := by
  obtain ⟨blank, content, rfl, hblank, hhead, -, hcontent⟩ := h
  obtain ⟨c, body, rfl, hiff⟩ := hcontent.canStandAlone_iff
  rw [List.cons_append, sigil?_eq d _ hblank (hhead c rfl), hiff]
  simp

end Tag

namespace Scan

variable {d : Delimiters} {source s rest front : List Char} {scan scan' : Scan} {seg : Segment}

/-- The literal text that has been read. -/
def chars (scan : Scan) : List Char := scan.opened.reverse.flatMap (Node.chars ·.outer) ++ Node.chars scan.nodes

/-- Of a segment its text is kept, and not what it drops beside its tag. -/
theorem chars_take (h : scan.take seg rest = .ok scan') : scan'.chars = scan.chars ++ seg.text := by
  have hpass : Node.chars (scan.pass seg).nodes = Node.chars scan.nodes ++ seg.text := by
    rw [pass, Node.chars_fuse, Node.chars_ofText]
  cases takes_of_take h with
  | plain =>
    have hnodes : Node.chars seg.nodes = [] := by
      rw [Segment.nodes]
      cases seg.tag <;> rfl
    rw [chars, Node.chars_append, hpass, hnodes, List.append_nil, ← List.append_assoc]
    rfl
  | opening =>
    rw [chars, List.reverse_cons, List.flatMap_append, List.flatMap_singleton, hpass, ← List.append_assoc]
    exact List.append_nil _
  | @closing innermost opened _ hopened =>
    have hclosed (body : List Node) (stop : List Char) : Node.chars [innermost.close body stop] = Node.chars body :=
      Node.chars_ofSection innermost.inverted innermost.name body (between innermost.start stop) innermost.delimiters
    rw [chars, Node.chars_append, hclosed, hpass, chars, hopened, List.reverse_cons, List.flatMap_append,
      List.flatMap_singleton]
    simp only [List.append_assoc]

namespace Consumed

variable (h : Consumed scan front (seg.source ++ rest)) (hfits : seg.Fits scan.delimiters scan.fresh rest)
include h hfits

theorem aloneOnLine_of_alone (halone : seg.alone = true) :
    Tag.AloneOnLine (Tag.sigil? scan.delimiters seg.spelling) (front ++ seg.text ++ seg.indent) (seg.trailing ++ rest) ∧
      seg.indent = lineBefore (front ++ seg.text ++ seg.indent) ∧
        seg.trailing = lineBehind (seg.trailing ++ rest) ++ firstLineEnd (seg.trailing ++ rest) := by
  have hplaced := hfits.2
  rw [Segment.placed_of_alone halone] at hplaced
  obtain ⟨hcan, hstarts, hindent, hcloses⟩ := hplaced
  have hline : Segment.startsLine true (front ++ seg.text) = true := by
    rwa [Segment.startsLine_append, ← h.fresh_eq]
  have hbefore : lineBefore (front ++ seg.text ++ seg.indent) = seg.indent := lineBefore_append hline hindent
  obtain ⟨hpad, htrailing⟩ := line_of_closesLine hcloses
  refine ⟨⟨hfits.1.spelling.canStandAlone_iff.mp hcan, ?_, hpad⟩, hbefore.symm, htrailing⟩
  rw [hbefore]
  exact hindent

theorem alone_of_aloneOnLine (hline : Tag.AloneOnLine (Tag.sigil? scan.delimiters seg.spelling)
    (front ++ seg.text ++ seg.indent) (seg.trailing ++ rest)) : seg.alone = true := by
  by_contra halone
  have hplaced := hfits.2
  rw [Segment.placed_of_not_alone halone] at hplaced
  obtain ⟨hindent, htrailing, hnone⟩ := hplaced
  obtain ⟨hsigil, hbefore, hbehind⟩ := hline
  have hcan := hfits.1.spelling.canStandAlone_iff.mpr hsigil
  -- The tag before ends with no padding, so that all the padding in front of this one is in the text between them.
  have hsettled : ∀ c ∈ front.getLast?, isPad c = false := by
    obtain ⟨c, hc, -⟩ := hfits.1.exists_not_isPad
    exact h.settled (List.ne_nil_of_mem (List.mem_append_left rest hc))
  have hstarts : Segment.startsLine scan.fresh (dropEndWhile isPad seg.text) = true := by
    rw [hindent, List.append_nil] at hbefore
    have hstarts := startsLine_dropEndWhile hbefore
    rwa [dropEndWhile_append hsettled, Segment.startsLine_append, ← h.fresh_eq] at hstarts
  rw [htrailing, List.nil_append] at hbehind
  exact restOfLine?_ne_none hbehind (hnone hcan hstarts)

end Consumed

/-- What is kept and what is dropped beside the tag of a segment, in a template that has `before` in front of the tag and
`behind` behind it. -/
structure LineRule (scan : Scan) (seg : Segment) (rest before behind : List Char) : Prop where
  before_eq : seg.text ++ seg.indent <:+ before
  behind_eq : behind = seg.trailing ++ rest
  alone_iff : seg.alone = true ↔ Tag.AloneOnLine (Tag.sigil? scan.delimiters seg.spelling) before behind
  dropped : seg.alone = true → seg.indent = lineBefore before ∧ seg.trailing = lineBehind behind ++ firstLineEnd behind
  kept : seg.alone = false → seg.indent = [] ∧ seg.trailing = []
  /-- The text in front of what is dropped is literal text. -/
  chars_eq : ∀ scan', scan.take seg rest = .ok scan' → scan'.chars = scan.chars ++ seg.text

/-- Wherever reading comes to a tag, the tag is taken to be alone on its line if it is so in the whole template. Then what is
beside it on the line and the line end are dropped, and otherwise nothing is. -/
theorem Reaches.lineRule (h : Reaches d source scan s)
    (hnext : Segment.next scan.delimiters scan.fresh s = .ok (some (seg, rest))) :
    ∃ before behind, source = before ++ (seg.spelling ++ behind) ∧ Tag.Spelling scan.delimiters seg.tag seg.spelling ∧
      LineRule scan seg rest before behind := by
  obtain ⟨front, hsource, hconsumed⟩ := h.consumed
  obtain ⟨rfl, hfits⟩ := Segment.next_eq_some_iff.mp hnext
  refine ⟨front ++ seg.text ++ seg.indent, seg.trailing ++ rest, ?_, hfits.1.spelling, ?_⟩
  · simp only [hsource, Segment.source, List.append_assoc]
  refine ⟨⟨front, (List.append_assoc _ _ _).symm⟩, rfl, ⟨?_, ?_⟩, ?_, ?_, fun scan' => chars_take⟩
  · intro halone
    exact (hconsumed.aloneOnLine_of_alone hfits halone).1
  · intro hline
    exact hconsumed.alone_of_aloneOnLine hfits hline
  · intro halone
    exact (hconsumed.aloneOnLine_of_alone hfits halone).2
  · intro halone
    have hplaced := hfits.2
    rw [Segment.placed_of_not_alone (by rw [halone]; exact Bool.false_ne_true)] at hplaced
    exact ⟨hplaced.1, hplaced.2.1⟩

/-- The line in front of this tag was dropped with another one. -/
theorem lineRule_of_closing_line :
    let s := "\t\x7b\x7b /a\x7d\x7d \rb".toList
    let source := "\x7b\x7b#a\x7d\x7d\r\n\t\x7b\x7b /a\x7d\x7d \rb".toList
    let seg : Segment := ⟨[], ['\t'], .closing "a", "\x7b\x7b /a\x7d\x7d".toList, [' ', '\r'], true⟩
    ∃ scan, Reaches .standard source scan s ∧ Segment.next scan.delimiters scan.fresh s = .ok (some (seg, ['b'])) ∧
      ∃ before behind, source = before ++ (seg.spelling ++ behind) ∧
        Tag.Spelling scan.delimiters seg.tag seg.spelling ∧ LineRule scan seg ['b'] before behind := by
  intro s source seg
  have hreach : Reaches .standard "\x7b\x7b#a\x7d\x7d\r\n\t\x7b\x7b /a\x7d\x7d \rb".toList _
      "\t\x7b\x7b /a\x7d\x7d \rb".toList :=
    .past .start (by cbv) rfl
  have hnext : Segment.next .standard true "\t\x7b\x7b /a\x7d\x7d \rb".toList = .ok (some (seg, ['b'])) := by cbv
  exact ⟨_, hreach, hnext, hreach.lineRule hnext⟩

end Scan

end Stencil
