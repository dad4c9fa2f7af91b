import Mathlib
import Stencil.Proofs.Finality
import Stencil.Proofs.Stack
import Stencil.Proofs.Text.Position

/-!
# Where a fault is

A text that is no template is so because of one of its tags: the first one that reading cannot go past, or the opening tag of a
section that is never closed. The fault that is found says what stands there, and the place it is found at is the place of that
tag and of no other one (`parse_error_at_tag`).
-/

namespace Stencil

open Text

theorem Delimiters.ofTexts_eq_error_iff {opener closer : String} {e : InvalidDelimiters} :
    ofTexts opener closer = .error e ↔ ∃ fault, fault? opener closer = some fault ∧ e = ⟨opener, closer, fault⟩ := by
  rw [ofTexts]
  split
  · next fault hfault => simp [hfault, eq_comm]
  · next hnone => simp [hnone]

namespace Tag

variable {d : Delimiters} {s content : List Char} {fault : ParseFault}

/-- The content of a tag is no name. -/
inductive Misnamed (content : List Char) : ParseFault → Prop
  | missing : (∀ c ∈ content, isBlank c = true) → Misnamed content .emptyTag
  | illegal {name : String} : trim content = name.toList → name ≠ "" → isName name.toList = false →
    Misnamed content (.invalidName name)

/-- The content of a tag is no pair of delimiters. -/
inductive Misset (content : List Char) : ParseFault → Prop
  | count : (words content).length ≠ 2 →
    Misset content (.invalidDelimiters (String.ofList (trim content)) (.count (words content).length))
  | rule {opener closer : List Char} {fault : DelimiterFault} : words content = [opener, closer] →
    Delimiters.fault? (String.ofList opener) (String.ofList closer) = some fault →
      Misset content (.invalidDelimiters (String.ofList (trim content)) (.rule fault))

theorem nameOf_eq_error_iff : nameOf content = .error fault ↔ Misnamed content fault := by
  rw [nameOf]
  simp only [List.isEmpty_iff]
  by_cases hblank : trim content = []
  · rw [if_pos hblank]
    constructor
    · intro h
      obtain rfl := Except.error.inj h
      exact .missing (trim_eq_nil_iff.mp hblank)
    · intro h
      cases h with
      | missing => rfl
      | illegal htrim hne => exact absurd (String.toList_eq_nil_iff.mp (htrim.symm.trans hblank)) hne
  · rw [if_neg hblank]
    constructor
    · intro h
      split at h
      · cases h
      · next hname =>
        obtain rfl := Except.error.inj h
        refine .illegal String.toList_ofList.symm ?_ ?_
        · rwa [ne_eq, String.ofList_eq_empty_iff]
        · rw [String.toList_ofList]
          simpa using hname
    · intro h
      cases h with
      | missing hall => exact absurd (trim_eq_nil_iff.mpr hall) hblank
      | illegal htrim _ hname => rw [htrim, hname, if_neg Bool.false_ne_true, String.ofList_toList]

theorem delimitersOf_eq_error_iff : delimitersOf content = .error fault ↔ Misset content fault := by
  rw [delimitersOf]
  simp only
  split
  · next opener closer hwords =>
    cases htexts : Delimiters.ofTexts (String.ofList opener) (String.ofList closer) with
    | ok next =>
      constructor
      · intro h
        cases h
      · intro h
        cases h with
        | count hcount => exact absurd (by rw [hwords]; rfl) hcount
        | rule hwords' hrule =>
          obtain ⟨rfl, rfl⟩ : opener = _ ∧ closer = _ := by simpa using hwords.symm.trans hwords'
          rw [Delimiters.ofTexts_eq_error_iff.mpr ⟨_, hrule, rfl⟩] at htexts
          cases htexts
    | error e =>
      obtain ⟨rule, hrule, rfl⟩ := Delimiters.ofTexts_eq_error_iff.mp htexts
      constructor
      · intro h
        obtain rfl := Except.error.inj h
        exact .rule hwords hrule
      · intro h
        cases h with
        | count hcount => exact absurd (by rw [hwords]; rfl) hcount
        | rule hwords' hrule' =>
          obtain ⟨rfl, rfl⟩ : opener = _ ∧ closer = _ := by simpa using hwords.symm.trans hwords'
          obtain rfl := Option.some.inj (hrule.symm.trans hrule')
          rfl
  · next hwords =>
    have hcount : (words content).length ≠ 2 := by
      intro hlen
      obtain ⟨opener, closer, hpair⟩ := List.length_eq_two.mp hlen
      exact hwords opener closer hpair
    constructor
    · intro h
      obtain rfl := Except.error.inj h
      exact .count hcount
    · intro h
      cases h with
      | count => rfl
      | rule hpair => exact absurd hpair (hwords _ _)

/-- Behind the opening delimiter stand white space and the start of a tag of the kind `form`: its sigil, which is no part of
`body`, or the first character of a name. -/
inductive Begins (d : Delimiters) : List Char → Form → List Char → Prop
  | sigil {blank body : List Char} {c : Char} {form : Form} : (∀ b ∈ blank, isBlank b = true) → isBlank c = false →
    ¬ d.closer.toList <+: c :: body → Form.ofSigil c = some form → Begins d (blank ++ c :: body) form body
  | name {blank body : List Char} {c : Char} : (∀ b ∈ blank, isBlank b = true) → isBlank c = false →
    ¬ d.closer.toList <+: c :: body → Form.ofSigil c = none → isForeignSigil c = false →
      Begins d (blank ++ c :: body) (.named (interpolation · true)) (c :: body)

/-- What is wrong with a tag that has `s` behind its opening delimiter. -/
inductive Faulty (d : Delimiters) (s : List Char) : ParseFault → Prop
  | blank : (∀ c ∈ s, isBlank c = true) → Faulty d s .unclosedTag
  | endless {form : Form} {body : List Char} : Begins d s form body → ¬ form.ending ++ d.closer.toList <:+: body →
    Faulty d s .unclosedTag
  | empty {blank rest : List Char} : s = blank ++ (d.closer.toList ++ rest) → (∀ b ∈ blank, isBlank b = true) →
    Faulty d s .emptyTag
  | foreign {blank body : List Char} {c : Char} : s = blank ++ c :: body → (∀ b ∈ blank, isBlank b = true) →
    isBlank c = false → ¬ d.closer.toList <+: c :: body → Form.ofSigil c = none → isForeignSigil c = true →
      Faulty d s (.unknownSigil c)
  | misnamed {form : Form} {make : String → Tag} {content rest : List Char} {fault : ParseFault} :
    Begins d s form (content ++ (form.ending ++ d.closer.toList) ++ rest) →
      Clear (form.ending ++ d.closer.toList) content → form.ofContent = (Form.named make).ofContent →
        Misnamed content fault → Faulty d s fault
  | misset {form : Form} {content rest : List Char} {fault : ParseFault} :
    Begins d s form (content ++ (form.ending ++ d.closer.toList) ++ rest) →
      Clear (form.ending ++ d.closer.toList) content → Form.ofSigil '=' = some form → Misset content fault →
        Faulty d s fault

theorem Begins.read_eq {form : Form} {body : List Char} (h : Begins d s form body) :
    read d s = form.read d.closer.toList body := by
  cases h with
  | sigil hblank hc hcloser hform => rw [read_blank_append d _ hblank hc, if_neg hcloser, hform]
  | name hblank hc hcloser hform hforeign =>
    rw [read_blank_append d _ hblank hc, if_neg hcloser, hform]
    simp only [hforeign, Bool.false_eq_true, if_false]

theorem Form.named_eq_error_iff {make : String → Tag} :
    (Form.named make).ofContent content = .error fault ↔ Misnamed content fault := by
  rw [← nameOf_eq_error_iff, named]
  cases hname : nameOf content with
  | error e => simp [hname, Except.map]
  | ok name => simp [hname, Except.map]

/-- A tag holds a name, or it is a comment, or it sets the delimiters. -/
theorem Begins.ofContent_cases {form : Form} {body : List Char} (h : Begins d s form body) :
    (∃ make, form.ofContent = (Form.named make).ofContent) ∨ form.ofContent = (fun _ => .ok comment) ∨
      Form.ofSigil '=' = some form := by
  cases h with
  | name => exact .inl ⟨_, rfl⟩
  | sigil _ _ _ hform =>
    rcases Form.eq_of_ofSigil hform with ⟨make, rfl⟩ | ⟨make, rfl⟩ | rfl | rfl
    · exact .inl ⟨make, rfl⟩
    · exact .inl ⟨make, rfl⟩
    · exact .inr (.inl rfl)
    · exact .inr (.inr rfl)

/-- A tag that begins well is at fault if it does not end, or for its content. -/
theorem Begins.faulty {form : Form} {body : List Char} (h : Begins d s form body)
    (hread : form.read d.closer.toList body = .error fault) : Faulty d s fault := by
  rcases Form.read_eq_error_iff.mp hread with ⟨hcut, rfl⟩ | ⟨content, rest, hcut, hcontent⟩
  · exact .endless h (cut?_eq_none_iff.mp hcut)
  · obtain ⟨rfl, hclear⟩ := cut?_eq_some_iff.mp hcut
    rcases h.ofContent_cases with ⟨make, hmake⟩ | hcomment | hform
    · rw [hmake] at hcontent
      exact .misnamed h hclear hmake (Form.named_eq_error_iff.mp hcontent)
    · rw [hcomment] at hcontent
      cases hcontent
    · rw [← Option.some.inj hform] at hcontent
      refine .misset h hclear hform (delimitersOf_eq_error_iff.mp ?_)
      cases hdelimiters : delimitersOf content with
      | error e => simpa [hdelimiters, Except.map] using hcontent
      | ok next => simp [hdelimiters, Except.map] at hcontent

/-- Reading a tag fails exactly for what is wrong with it. -/
theorem read_eq_error_iff : read d s = .error fault ↔ Faulty d s fault := by
  constructor
  · intro h
    rcases forall_or_split isBlank s with hs | ⟨blank, c, body, rfl, hblank, hc⟩
    · rw [read_blank d hs] at h
      obtain rfl := Except.error.inj h
      exact .blank hs
    · by_cases hcloser : d.closer.toList <+: c :: body
      · rw [read_blank_append d body hblank hc, if_pos hcloser] at h
        obtain rfl := Except.error.inj h
        obtain ⟨rest, hrest⟩ := hcloser
        exact .empty (by rw [hrest]) hblank
      · cases hform : Form.ofSigil c with
        | some form =>
          have hbegins : Begins d (blank ++ c :: body) form body := .sigil hblank hc hcloser hform
          exact hbegins.faulty (hbegins.read_eq ▸ h)
        | none =>
          by_cases hforeign : isForeignSigil c = true
          · rw [read_blank_append d body hblank hc, if_neg hcloser, hform] at h
            simp only [hforeign, if_true] at h
            obtain rfl := Except.error.inj h
            exact .foreign rfl hblank hc hcloser hform hforeign
          · have hbegins := Begins.name hblank hc hcloser hform (by simpa using hforeign)
            exact hbegins.faulty (hbegins.read_eq ▸ h)
  · intro h
    cases h with
    | blank hs => exact read_blank d hs
    | endless hbegins hnot =>
      rw [hbegins.read_eq]
      exact Form.read_eq_error_iff.mpr (.inl ⟨cut?_eq_none_iff.mpr hnot, rfl⟩)
    | @empty blank rest hs hblank =>
      obtain ⟨c, closer, hcloser⟩ := List.exists_cons_of_ne_nil d.closer_toList_ne_nil
      have hc : isBlank c = false := d.not_isBlank_of_mem_closer c (hcloser ▸ List.mem_cons_self)
      have hpre : d.closer.toList <+: c :: (closer ++ rest) := ⟨rest, by rw [hcloser]; rfl⟩
      rw [hs, hcloser, List.cons_append, read_blank_append d _ hblank hc, if_pos hpre]
    | foreign hs hblank hc hcloser hform hforeign =>
      rw [hs, read_blank_append d _ hblank hc, if_neg hcloser, hform]
      simp only [hforeign, if_true]
    | misnamed hbegins hclear hmake hcontent =>
      rw [hbegins.read_eq]
      refine Form.read_eq_error_iff.mpr (.inr ⟨_, _, cut?_eq_some_iff.mpr ⟨rfl, hclear⟩, ?_⟩)
      rw [hmake]
      exact Form.named_eq_error_iff.mpr hcontent
    | misset hbegins hclear hform hcontent =>
      rw [hbegins.read_eq]
      refine Form.read_eq_error_iff.mpr (.inr ⟨_, _, cut?_eq_some_iff.mpr ⟨rfl, hclear⟩, ?_⟩)
      rw [← Option.some.inj hform]
      simp only [delimitersOf_eq_error_iff.mpr hcontent, Except.map]

end Tag

theorem Segment.next_eq_error_iff {d : Delimiters} {fresh : Bool} {s before : List Char} {fault : ParseFault} :
    next d fresh s = .error (before, fault) ↔
      ∃ inside, cut? d.opener.toList s = some (before, inside) ∧ Tag.read d inside = .error fault := by
  rw [next]
  cases cut? d.opener.toList s with
  | none => simp
  | some parts =>
    obtain ⟨before', inside⟩ := parts
    simp only
    cases hread : Tag.read d inside with
    | error fault' =>
      simp only [Except.error.injEq, Prod.mk.injEq, Option.some.injEq]
      constructor
      · rintro ⟨rfl, rfl⟩
        exact ⟨inside, ⟨rfl, rfl⟩, hread⟩
      · rintro ⟨inside', ⟨rfl, rfl⟩, hread'⟩
        exact ⟨rfl, Except.error.inj (hread.symm.trans hread')⟩
    | ok parts =>
      simp only [reduceCtorEq, Prod.mk.injEq, Option.some.injEq, false_iff, not_exists, not_and, and_imp]
      rintro inside' - rfl hread'
      rw [hread] at hread'
      cases hread'

namespace Scan

variable {d : Delimiters} {s : String} {scan : Scan} {before inside rest : List Char} {e : ParseError}

/-- Reading cannot go past the tag that has `inside` behind its opening delimiter: it cannot be read, or it does not go with the
sections that are open. -/
inductive Halts (scan : Scan) (inside : List Char) : ParseFault → Prop
  | unreadable {fault : ParseFault} : Tag.Faulty scan.delimiters inside fault → Halts scan inside fault
  | unopened {w rest : List Char} {name : String} : inside = w ++ rest → Tag.Inside scan.delimiters (.closing name) w →
    scan.opened = [] → Halts scan inside (.unopenedClose name)
  | mismatched {w rest : List Char} {name : String} {innermost : OpenSection} {opened : List OpenSection} :
    inside = w ++ rest → Tag.Inside scan.delimiters (.closing name) w → scan.opened = innermost :: opened →
      innermost.name ≠ name → Halts scan inside (.mismatchedClose innermost.name name)
  | tooDeep {w rest : List Char} {inverted : Bool} {name : String} : inside = w ++ rest →
    Tag.Inside scan.delimiters (.opening inverted name) w → maxOpenSections ≤ scan.opened.length →
      Halts scan inside (.tooDeeplyNested name)

/-- Reading comes to the state `scan` with `rest` left, where the next tag starts behind so many bytes of the text and has
`inside` behind its opening delimiter. -/
structure NextTag (d : Delimiters) (s : String) (scan : Scan) (rest : List Char) (offset : Nat) (inside : List Char) :
    Prop where
  reaches : Reaches d s.toList scan rest
  first : ∃ before, rest = before ++ scan.delimiters.opener.toList ++ inside ∧ Clear scan.delimiters.opener.toList before
  at_offset : ∃ front back : String, s = front ++ back ∧ offset = front.utf8ByteSize ∧
    back.toList = scan.delimiters.opener.toList ++ inside

/-- A text is no template because of this tag: it is the first one that reading cannot go past; or it opens the innermost of
the sections that are still open where no tag follows. -/
inductive Blames (d : Delimiters) (source : List Char) (scan : Scan) (rest inside : List Char) : ParseFault → Prop
  | tag {fault : ParseFault} : Halts scan inside fault →
    (∀ scan' rest', Reaches d source scan' rest' → ∃ segs, Passes scan' rest' segs scan rest) →
      Blames d source scan rest inside fault
  | opening {seg : Segment} {o : OpenSection} {within last : Scan} {body stop : List Char} {segs : List Segment} :
    Opens scan rest seg o within body → Passes within body segs last stop → Balanced segs → last.opened = o :: scan.opened →
      ¬ last.delimiters.opener.toList <:+: stop → Blames d source scan rest inside (.unclosedSection o.name)

/-- The next tag has an offset, and its place is the place behind the text that is read in front of it. -/
theorem Reaches.exists_nextTag (h : Reaches d s.toList scan rest)
    (hrest : rest = before ++ scan.delimiters.opener.toList ++ inside) (hclear : Clear scan.delimiters.opener.toList before) :
    ∃ offset, NextTag d s scan rest offset inside ∧ String.Pos.Raw.IsValid s ⟨offset⟩ ∧
      Position.ofOffset s offset = scan.position.advanceAll before := by
  obtain ⟨front, hsource, hconsumed⟩ := h.consumed
  have hs : s = String.ofList (front ++ before) ++ String.ofList (scan.delimiters.opener.toList ++ inside) := by
    rw [← String.toList_inj, hsource, hrest, String.toList_append, String.toList_ofList, String.toList_ofList]
    simp only [List.append_assoc]
  refine ⟨(String.ofList (front ++ before)).utf8ByteSize, ⟨h, ⟨before, hrest, hclear⟩, _, _, hs, rfl, ?_⟩, ?_, ?_⟩
  · rw [String.toList_ofList]
  · exact String.Pos.Raw.isValid_iff_exists_append.mpr ⟨_, _, hs, rfl⟩
  · rw [hs, Position.ofOffset_append, String.toList_ofList, Position.advanceAll_append, ← hconsumed.position_eq]

/-- The tag of the next segment is written behind the opening delimiter that comes first. -/
theorem exists_inside_of_next {seg : Segment} {rest' : List Char}
    (h : Segment.next scan.delimiters scan.fresh rest = .ok (some (seg, rest'))) :
    ∃ w after, rest = seg.text ++ seg.indent ++ scan.delimiters.opener.toList ++ (w ++ after) ∧
      Clear scan.delimiters.opener.toList (seg.text ++ seg.indent) ∧ Tag.Inside scan.delimiters seg.tag w := by
  obtain ⟨rfl, ⟨hclear, w, hspelling, hinside⟩, -⟩ := Segment.next_eq_some_iff.mp h
  refine ⟨w, seg.trailing ++ rest', ?_, hclear, hinside⟩
  simp only [Segment.source, hspelling, List.append_assoc]

theorem halts_of_take {seg : Segment} {rest w after : List Char} (h : scan.take seg rest = .error e)
    (hinside : Tag.Inside scan.delimiters seg.tag w) :
    Halts scan (w ++ after) e.fault ∧ e.position = scan.position.advanceAll (seg.text ++ seg.indent) := by
  rw [take] at h
  cases htag : seg.tag with
  | opening inverted name =>
    rw [htag] at h hinside
    simp only at h
    split at h
    · next hlevel =>
      obtain rfl := Except.error.inj h
      exact ⟨.tooDeep rfl hinside hlevel, rfl⟩
    · cases h
  | closing name =>
    rw [htag] at h hinside
    simp only at h
    split at h
    · next hopened =>
      obtain rfl := Except.error.inj h
      exact ⟨.unopened rfl hinside hopened, rfl⟩
    · next innermost opened hopened =>
      split at h
      · cases h
      · next hname =>
        obtain rfl := Except.error.inj h
        exact ⟨.mismatched rfl hinside hopened hname, rfl⟩
  | interpolation | inclusion | comment | delimiters =>
    rw [htag] at h
    cases h

/-- Where reading goes no further, there is a tag to blame, and the fault is found at its place. -/
theorem Refuses.exists_blamed (h : Refuses scan rest e) (hreach : Reaches d s.toList scan rest) :
    ∃ scan rest offset inside, NextTag d s scan rest offset inside ∧ String.Pos.Raw.IsValid s ⟨offset⟩ ∧
      e.position = Position.ofOffset s offset ∧ Blames d s.toList scan rest inside e.fault := by
  have hpasses (scan' : Scan) (rest' : List Char) (hreach' : Reaches d s.toList scan' rest') := h.passes hreach hreach'
  cases h with
  | unreadable hnext hplace =>
    obtain ⟨inside, hcut, hread⟩ := Segment.next_eq_error_iff.mp hnext
    obtain ⟨hrest, hclear⟩ := cut?_eq_some_iff.mp hcut
    obtain ⟨offset, htag, hvalid, hoffset⟩ := hreach.exists_nextTag hrest hclear
    exact ⟨scan, rest, offset, inside, htag, hvalid, hplace.trans hoffset.symm,
      .tag (.unreadable (Tag.read_eq_error_iff.mp hread)) hpasses⟩
  | misplaced hnext htake =>
    obtain ⟨w, after, hrest, hclear, hinside⟩ := exists_inside_of_next hnext
    obtain ⟨hhalts, hplace⟩ : Halts scan (w ++ after) e.fault ∧ _ := halts_of_take htake hinside
    obtain ⟨offset, htag, hvalid, hoffset⟩ := hreach.exists_nextTag hrest hclear
    exact ⟨scan, rest, offset, w ++ after, htag, hvalid, hplace.trans hoffset.symm, .tag hhalts hpasses⟩
  | unclosed hnext hfinish =>
    cases hopened : scan.opened with
    | nil =>
      rw [finish, hopened] at hfinish
      cases hfinish
    | cons o opened =>
      rw [finish, hopened] at hfinish
      obtain rfl := Except.error.inj hfinish
      obtain ⟨outer, before, seg, within, body, segs, houter, hopens, hsegs, hbalanced, rfl⟩ := hreach.exists_opens hopened
      obtain ⟨w, after, hrest, hclear, -⟩ := exists_inside_of_next hopens.next_eq
      obtain ⟨offset, htag, hvalid, hoffset⟩ := houter.exists_nextTag hrest hclear
      exact ⟨outer, before, offset, w ++ after, htag, hvalid, hopens.position_eq.trans hoffset.symm,
        .opening hopens hsegs hbalanced hopened (Segment.next_eq_none_iff.mp hnext)⟩

end Scan

/-- What is wrong with a text that is no template is found at the tag that is to blame. The place that is given is the place of
the offset at which this tag starts, and of no other offset, since places are in the order of the offsets. -/
theorem parse_error_at_tag {d : Delimiters} {s : String} {e : ParseError} (h : parse d s = .error e) :
    ∃ scan rest offset inside, Scan.NextTag d s scan rest offset inside ∧ String.Pos.Raw.IsValid s ⟨offset⟩ ∧
      e.position = Position.ofOffset s offset ∧ Scan.Blames d s.toList scan rest inside e.fault ∧
      StrictMonoOn (Position.ofOffset s) {n | String.Pos.Raw.IsValid s ⟨n⟩} ∧
      ∀ n, String.Pos.Raw.IsValid s ⟨n⟩ → Position.ofOffset s n = e.position → n = offset := by
  obtain ⟨last, stop, hreach, hrefuses⟩ := exists_refuses h
  obtain ⟨scan, rest, offset, inside, htag, hvalid, hplace, hblames⟩ := hrefuses.exists_blamed hreach
  have hmono := Position.strictMonoOn_ofOffset s
  refine ⟨scan, rest, offset, inside, htag, hvalid, hplace, hblames, hmono, ?_⟩
  intro n hn hsame
  exact hmono.injOn hn hvalid (hsame.trans hplace)

/-- Of the sections that are opened here, the second is closed again, so the third is blamed and not the first. -/
theorem parse_error_at_tag_of_three_sections :
    let s := "\x7b\x7b#a\x7d\x7d\x7b\x7b=< >=\x7d\x7d<#b></b>\né<#c>"
    let e : ParseError := ⟨.unclosedSection "c", ⟨2, 2⟩⟩
    parse .standard s = .error e ∧
      ∃ scan rest offset inside, Scan.NextTag .standard s scan rest offset inside ∧ String.Pos.Raw.IsValid s ⟨offset⟩ ∧
        e.position = Position.ofOffset s offset ∧ Scan.Blames .standard s.toList scan rest inside e.fault ∧
        StrictMonoOn (Position.ofOffset s) {n | String.Pos.Raw.IsValid s ⟨n⟩} ∧
        ∀ n, String.Pos.Raw.IsValid s ⟨n⟩ → Position.ofOffset s n = e.position → n = offset := by
  intro s e
  have hparse : parse .standard s = .error e := by cbv
  exact ⟨hparse, parse_error_at_tag hparse⟩

end Stencil
