import Stencil.Proofs.Reach

/-!
# Faults that are final

A text that is no template may become one when more text follows, but only if what is wrong with it is that it ends: inside
a tag, or inside a section. Any other fault is found again, at the same place, whatever follows (`parse_append_of_error`). It
stays the same fault, too, with one exception: a character that starts no tag may turn out to start the closing delimiter.
-/

namespace Stencil

open Text

theorem Text.cut?_append_of_some {p s before rest : List Char} (h : cut? p s = some (before, rest)) (t : List Char) :
    cut? p (s ++ t) = some (before, rest ++ t) := by
  obtain ⟨rfl, hclear⟩ := cut?_eq_some_iff.mp h
  exact cut?_eq_some_iff.mpr ⟨by simp only [List.append_assoc], hclear⟩

/-- The text ends inside the delimiter: with a part of it that is not empty, and that lacks its end. -/
def Text.EndsInside (delimiter s : List Char) : Prop :=
  ∃ part lacking, delimiter = part ++ lacking ∧ part ≠ [] ∧ lacking ≠ [] ∧ part <:+ s

theorem Text.EndsInside.of_suffix {delimiter s s' : List Char} (h : EndsInside delimiter s) (hs : s <:+ s') :
    EndsInside delimiter s' := by
  obtain ⟨part, lacking, hdelimiter, hpart, hlacking, hsuffix⟩ := h
  exact ⟨part, lacking, hdelimiter, hpart, hlacking, hsuffix.trans hs⟩

namespace Tag

variable {d : Delimiters} {closer s : List Char} {form : Form} {fault : ParseFault}

theorem Form.read_eq_error_iff : form.read closer s = .error fault ↔
    (cut? (form.ending ++ closer) s = none ∧ fault = .unclosedTag) ∨
      ∃ content rest, cut? (form.ending ++ closer) s = some (content, rest) ∧ form.ofContent content = .error fault := by
  unfold Form.read upTo
  cases hcut : cut? (form.ending ++ closer) s with
  | none => simp [bind, Except.bind, eq_comm]
  | some parts =>
    obtain ⟨content, rest⟩ := parts
    cases hcontent : form.ofContent content with
    | error fault' => simp [hcontent, bind, Except.bind]
    | ok tag => simp [hcontent, bind, Except.bind, pure, Except.pure]

/-- A tag that is read to its end, and is at fault, is so whatever follows it. -/
theorem Form.read_append_of_error (h : form.read closer s = .error fault) (hfault : fault ≠ .unclosedTag) :
    closer.length ≤ s.length ∧ ∀ t, form.read closer (s ++ t) = .error fault := by
  rcases Form.read_eq_error_iff.mp h with ⟨-, hunclosed⟩ | ⟨content, rest, hcut, hcontent⟩
  · exact absurd hunclosed hfault
  · constructor
    · have hs := (cut?_eq_some_iff.mp hcut).1
      have hlen := congrArg List.length hs
      simp only [List.length_append] at hlen
      omega
    · intro t
      exact Form.read_eq_error_iff.mpr (.inr ⟨content, rest ++ t, cut?_append_of_some hcut t, hcontent⟩)

/-- A tag at fault is so whatever follows, unless the text ends inside the tag. What seemed to be a sigil may have been the
start of the closing delimiter. -/
theorem read_append_of_error (h : read d s = .error fault) (hfault : fault ≠ .unclosedTag) (t : List Char) :
    read d (s ++ t) = .error fault ∨
      read d (s ++ t) = .error .emptyTag ∧ (∃ c, fault = .unknownSigil c) ∧ EndsInside d.closer.toList s := by
  rcases forall_or_split isBlank s with hs | ⟨blank, c, body, rfl, hblank, hc⟩
  · rw [read_blank d hs] at h
    exact absurd (Except.error.inj h).symm hfault
  · rw [read_blank_append d body hblank hc] at h
    rw [List.append_assoc, List.cons_append, read_blank_append d (body ++ t) hblank hc]
    by_cases hcloser : d.closer.toList <+: c :: body
    · have hcloser' : d.closer.toList <+: c :: (body ++ t) := hcloser.trans (List.prefix_append (c :: body) t)
      rw [if_pos hcloser] at h
      rw [if_pos hcloser']
      exact .inl h
    · rw [if_neg hcloser] at h
      -- A text at least as long as the closing delimiter shows whether the tag is empty.
      have hlong (hlen : d.closer.toList.length ≤ (c :: body).length) : ¬ d.closer.toList <+: c :: (body ++ t) := by
        rwa [← List.cons_append, isPrefix_append_iff hlen]
      cases hform : Form.ofSigil c with
      | some form =>
        rw [hform] at h
        obtain ⟨hlen, happend⟩ := Form.read_append_of_error h hfault
        rw [if_neg (hlong (Nat.le_succ_of_le hlen))]
        exact .inl (happend t)
      | none =>
        rw [hform] at h
        simp only at h ⊢
        by_cases hforeign : isForeignSigil c = true
        · rw [if_pos hforeign] at h ⊢
          by_cases hcloser' : d.closer.toList <+: c :: (body ++ t)
          · rw [if_pos hcloser']
            refine .inr ⟨rfl, ⟨c, (Except.error.inj h).symm⟩, ?_⟩
            have hpart : c :: body <+: d.closer.toList := by
              apply List.prefix_of_prefix_length_le (List.prefix_append (c :: body) t) hcloser'
              by_contra hlen
              exact hlong (by omega) hcloser'
            obtain ⟨lacking, hlacking⟩ := hpart
            refine ⟨c :: body, lacking, hlacking.symm, List.cons_ne_nil _ _, ?_, List.suffix_append blank _⟩
            rintro rfl
            rw [List.append_nil] at hlacking
            exact hcloser (hlacking ▸ List.prefix_refl _)
          · rw [if_neg hcloser']
            exact .inl h
        · rw [if_neg hforeign] at h ⊢
          obtain ⟨hlen, happend⟩ := Form.read_append_of_error h hfault
          rw [if_neg (hlong hlen)]
          exact .inl (happend t)

end Tag

namespace Segment

variable {d : Delimiters} {fresh : Bool} {s rest before : List Char} {seg : Segment} {fault : ParseFault}

/-- The tag of a segment is read whatever follows the text, but the line around it may then be treated in another way. -/
theorem next_append_of_some (h : next d fresh s = .ok (some (seg, rest))) (t : List Char) :
    ∃ seg' rest', next d fresh (s ++ t) = .ok (some (seg', rest')) ∧ seg'.tag = seg.tag ∧
      seg'.text ++ seg'.indent = seg.text ++ seg.indent := by
  rw [next] at h ⊢
  cases hcut : cut? d.opener.toList s with
  | none =>
    rw [hcut] at h
    cases h
  | some parts =>
    obtain ⟨before, inside⟩ := parts
    rw [hcut] at h
    rw [cut?_append_of_some hcut t]
    simp only at h ⊢
    cases hread : Tag.read d inside with
    | error fault =>
      rw [hread] at h
      cases h
    | ok parts =>
      obtain ⟨tag, after⟩ := parts
      obtain ⟨w, rfl, hw⟩ := Tag.read_eq_ok_iff.mp hread
      have hread' : Tag.read d (w ++ after ++ t) = .ok (tag, after ++ t) :=
        Tag.read_eq_ok_iff.mpr ⟨w, List.append_assoc w after t, hw⟩
      rw [hread] at h
      rw [hread']
      obtain ⟨hbefore, htag, -⟩ := ofParts_eq_iff.mp (Option.some.inj (Except.ok.inj h))
      let parts' := ofParts fresh before (d.opener.toList ++ between (w ++ after ++ t) (after ++ t)) (after ++ t) tag
      obtain ⟨hbefore', htag', -⟩ := ofParts_eq_iff.mp (rfl : _ = (parts'.1, parts'.2))
      exact ⟨parts'.1, parts'.2, rfl, htag'.trans htag.symm, hbefore'.symm.trans hbefore⟩

theorem next_append_of_error (h : next d fresh s = .error (before, fault)) (hfault : fault ≠ .unclosedTag) (t : List Char) :
    next d fresh (s ++ t) = .error (before, fault) ∨
      next d fresh (s ++ t) = .error (before, .emptyTag) ∧ (∃ c, fault = .unknownSigil c) ∧
        EndsInside d.closer.toList s := by
  rw [next] at h ⊢
  cases hcut : cut? d.opener.toList s with
  | none =>
    rw [hcut] at h
    cases h
  | some parts =>
    obtain ⟨before', inside⟩ := parts
    rw [hcut] at h
    rw [cut?_append_of_some hcut t]
    simp only at h ⊢
    cases hread : Tag.read d inside with
    | ok parts =>
      rw [hread] at h
      cases h
    | error fault' =>
      rw [hread] at h
      obtain ⟨rfl, rfl⟩ := Prod.mk.inj (Except.error.inj h)
      rcases Tag.read_append_of_error hread hfault t with happend | ⟨happend, hsigil, hends⟩
      · rw [happend]
        exact .inl rfl
      · rw [happend]
        have hinside : inside <:+ s := ⟨_, (cut?_eq_some_iff.mp hcut).1.symm⟩
        exact .inr ⟨rfl, hsigil, hends.of_suffix hinside⟩

end Segment

/-- What a section that is open says of its tag. -/
def OpenSection.bare (o : OpenSection) : OpenSection := { o with start := [], outer := [] }

namespace Scan

variable {d : Delimiters} {source rest : List Char} {scan scan' : Scan} {seg seg' : Segment} {e : ParseError}

/-- What the state says of the place, the delimiters and the open sections, and nothing of what has been read. -/
def bare (scan : Scan) : Scan := { scan with opened := scan.opened.map OpenSection.bare, nodes := [] }

/-- Which tags can follow, and what state they lead to, does not depend on what has been read. -/
theorem bare_take (scan : Scan) (seg : Segment) (rest rest' : List Char) :
    (scan.bare.take seg rest').map bare = (scan.take seg rest).map bare := by
  have hbare (opened : List OpenSection) :
      (opened.map OpenSection.bare).map OpenSection.bare = opened.map OpenSection.bare := by
    rw [List.map_map]
    rfl
  rw [take, take]
  cases seg.tag with
  | opening inverted name =>
    have hlevel : (scan.bare.pass seg).opened.length = (scan.pass seg).opened.length := List.length_map _
    simp only [hlevel]
    by_cases hdeep : maxOpenSections ≤ (scan.pass seg).opened.length
    · rw [if_pos hdeep, if_pos hdeep]
      rfl
    · rw [if_neg hdeep, if_neg hdeep]
      simp only [Except.map, bare, pass, List.map_cons, hbare]
      rfl
  | closing name =>
    cases scan with
    | mk position fresh delimiters opened nodes =>
      cases opened with
      | nil => rfl
      | cons innermost opened =>
        change Except.map bare (if innermost.name = name then _ else _) =
          Except.map bare (if innermost.name = name then _ else _)
        by_cases hname : innermost.name = name
        · rw [if_pos hname, if_pos hname]
          simp only [Except.map, bare, hbare]
          rfl
        · rw [if_neg hname, if_neg hname]
          rfl
  | interpolation | inclusion | comment | delimiters =>
    simp only [Except.map, push, pass, bare, hbare]

/-- States that differ in what has been read alone go on alike. -/
theorem of_bare_eq (h : scan'.bare = scan.bare) : scan'.position = scan.position ∧
    scan'.delimiters = scan.delimiters ∧ scan'.fresh = scan.fresh ∧
      ∀ seg rest rest', (scan'.take seg rest').map bare = (scan.take seg rest).map bare := by
  obtain ⟨hposition, hfresh, hdelimiters, -⟩ := Scan.mk.inj h
  refine ⟨hposition, hdelimiters, hfresh, ?_⟩
  intro seg rest rest'
  rw [← bare_take scan' seg rest' [], h, bare_take]

/-- A tag that cannot follow is refused wherever the line around it is dropped. -/
theorem take_congr_of_error (htag : seg'.tag = seg.tag) (htext : seg'.text ++ seg'.indent = seg.text ++ seg.indent)
    (h : scan.take seg rest = .error e) (rest' : List Char) : scan.take seg' rest' = .error e := by
  have hopened : (scan.pass seg').opened = (scan.pass seg).opened := rfl
  rw [take, htext, htag]
  rw [take] at h
  cases htag : seg.tag with
  | opening inverted name =>
    rw [htag] at h
    simp only [hopened] at h ⊢
    split at h
    · next hdeep =>
      rw [if_pos hdeep]
      exact h
    · cases h
  | closing name =>
    rw [htag] at h
    simp only [hopened] at h ⊢
    cases hcases : (scan.pass seg).opened with
    | nil =>
      rw [hcases] at h
      exact h
    | cons innermost opened =>
      rw [hcases] at h
      simp only at h ⊢
      split at h
      · cases h
      · next hname =>
        rw [if_neg hname]
        exact h
  | interpolation | inclusion | comment | delimiters =>
    rw [htag] at h
    cases h

/-- The states that a reading comes by in front of a text that is more than padding are those it comes by if the text is
longer. -/
theorem Reaches.append (h : Reaches d source scan rest) (hrest : ∃ c ∈ rest, isPad c = false) (t : List Char) :
    ∃ scan', Reaches d (source ++ t) scan' (rest ++ t) ∧ scan'.bare = scan.bare := by
  induction h with
  | start => exact ⟨_, .start, rfl⟩
  | @past scan next seg s rest hreach hnext htake ih =>
    obtain ⟨rfl, hfits⟩ := Segment.next_eq_some_iff.mp hnext
    obtain ⟨c, hc, hpad⟩ := hrest
    obtain ⟨scan', hreach', hbare⟩ := ih ⟨c, List.mem_append_right _ hc, hpad⟩
    obtain ⟨-, hdelimiters, hfresh, htaken⟩ := of_bare_eq hbare
    have hfits' : seg.Fits scan'.delimiters scan'.fresh (rest ++ t) := by
      rw [hdelimiters, hfresh]
      rw [← List.append_nil rest] at hfits
      exact hfits.append ⟨c, hc, hpad⟩ t
    have hnext' : Segment.next scan'.delimiters scan'.fresh (seg.source ++ rest ++ t) = .ok (some (seg, rest ++ t)) :=
      Segment.next_eq_some_iff.mpr ⟨List.append_assoc seg.source rest t, hfits'⟩
    have htaken := htaken seg rest (rest ++ t)
    rw [htake] at htaken
    cases htake' : scan'.take seg (rest ++ t) with
    | error e =>
      rw [htake'] at htaken
      cases htaken
    | ok next' =>
      rw [htake'] at htaken
      exact ⟨next', hreach'.past hnext' htake', Except.ok.inj htaken⟩

theorem not_finish_of_not_unclosedSection (hsection : ∀ name, e.fault ≠ .unclosedSection name) {s : List Char} :
    scan.finish s ≠ .error e := by
  intro hfinish
  rw [finish] at hfinish
  split at hfinish
  · cases hfinish
  · obtain rfl := Except.error.inj hfinish
    exact hsection _ rfl

/-- A reading that goes no further because of a tag at fault goes no further if the text is longer. -/
theorem Refuses.append {s : List Char} (h : Refuses scan s e) (hbare : scan'.bare = scan.bare)
    (htag : e.fault ≠ .unclosedTag) (hsection : ∀ name, e.fault ≠ .unclosedSection name) (t : List Char) :
    Refuses scan' (s ++ t) e ∨ Refuses scan' (s ++ t) ⟨.emptyTag, e.position⟩ ∧
      (∃ c, e.fault = .unknownSigil c) ∧ EndsInside scan.delimiters.closer.toList s := by
  obtain ⟨hposition, hdelimiters, hfresh, htaken⟩ := of_bare_eq hbare
  have hnext' : Segment.next scan'.delimiters scan'.fresh (s ++ t) = Segment.next scan.delimiters scan.fresh (s ++ t) := by
    rw [hdelimiters, hfresh]
  cases h with
  | @unreadable before hnext hplace =>
    rw [← hposition] at hplace
    rcases Segment.next_append_of_error hnext htag t with happend | ⟨happend, hsigil, hends⟩
    · exact .inl (.unreadable (hnext'.trans happend) hplace)
    · exact .inr ⟨.unreadable (hnext'.trans happend) hplace, hsigil, hends⟩
  | @misplaced seg rest hnext htake =>
    obtain ⟨seg', rest', happend, htag', htext⟩ := Segment.next_append_of_some hnext t
    have htaken := htaken seg rest rest'
    rw [htake] at htaken
    cases htake' : scan'.take seg rest' with
    | ok next =>
      rw [htake'] at htaken
      cases htaken
    | error e' =>
      rw [htake'] at htaken
      obtain rfl := Except.error.inj htaken
      exact .inl (.misplaced (hnext'.trans happend) (take_congr_of_error htag' htext htake' rest'))
  | unclosed _ hfinish => exact absurd hfinish (not_finish_of_not_unclosedSection hsection)

/-- A section may be left open by a text of any kind; any other fault is found at a tag. -/
theorem Refuses.exists_not_isPad {s : List Char} (h : Refuses scan s e)
    (hsection : ∀ name, e.fault ≠ .unclosedSection name) : ∃ c ∈ s, isPad c = false := by
  have htagged : scan.delimiters.opener.toList <:+: s := by
    by_contra huntagged
    have hnone : Segment.next scan.delimiters scan.fresh s = .ok none := Segment.next_eq_none_iff.mpr huntagged
    cases h with
    | unreadable hnext => rw [hnone] at hnext; cases hnext
    | misplaced hnext => rw [hnone] at hnext; cases hnext
    | unclosed _ hfinish => exact not_finish_of_not_unclosedSection hsection hfinish
  obtain ⟨c, opener, hopener⟩ := List.exists_cons_of_ne_nil scan.delimiters.opener_toList_ne_nil
  have hc : c ∈ scan.delimiters.opener.toList := hopener ▸ List.mem_cons_self
  refine ⟨c, htagged.subset hc, ?_⟩
  by_contra hpad
  have hblank := scan.delimiters.not_isBlank_of_mem_opener c hc
  rw [isBlank_of_isPad (by simpa using hpad)] at hblank
  cases hblank

end Scan

/-- What is wrong with a text, if it is not that it ends inside a tag or a section, is wrong with it whatever follows, and is
found at the same place. Only a character that starts no tag may come to start the closing delimiter of an empty one. -/
theorem parse_append_of_error {d : Delimiters} {s : String} {e : ParseError} (h : parse d s = .error e)
    (htag : e.fault ≠ .unclosedTag) (hsection : ∀ name, e.fault ≠ .unclosedSection name) (t : String) :
    parse d (s ++ t) = .error e ∨
      parse d (s ++ t) = .error ⟨.emptyTag, e.position⟩ ∧ (∃ c, e.fault = .unknownSigil c) ∧
        ∃ scan rest, Scan.Reaches d s.toList scan rest ∧ scan.Refuses rest e ∧
          EndsInside scan.delimiters.closer.toList s.toList := by
  obtain ⟨scan, rest, hreach, hrefuses⟩ := exists_refuses h
  obtain ⟨scan', hreach', hbare⟩ := hreach.append (hrefuses.exists_not_isPad hsection) t.toList
  rw [← String.toList_append] at hreach'
  rcases hrefuses.append hbare htag hsection t.toList with hrefuses' | ⟨hrefuses', hsigil, hends⟩
  · exact .inl (parse_of_refuses hreach' hrefuses')
  · obtain ⟨front, hsource, -⟩ := hreach.consumed
    have hends' : EndsInside scan.delimiters.closer.toList s.toList := hends.of_suffix ⟨front, hsource.symm⟩
    exact .inr ⟨parse_of_refuses hreach' hrefuses', hsigil, scan, rest, hreach, hrefuses, hends'⟩

/-- The brace at the end starts no tag, but it starts the closing delimiter if another one follows. -/
theorem parse_append_of_error_in_closer :
    let e : ParseError := ⟨.unknownSigil '\x7d', ⟨2, 2⟩⟩
    parse .standard "a\nb\x7b\x7b\x7d" = .error e ∧ e.fault ≠ .unclosedTag ∧
      (∀ name, e.fault ≠ .unclosedSection name) ∧
      (parse .standard ("a\nb\x7b\x7b\x7d" ++ "\x7d") = .error e ∨
        parse .standard ("a\nb\x7b\x7b\x7d" ++ "\x7d") = .error ⟨.emptyTag, e.position⟩ ∧
          (∃ c, e.fault = .unknownSigil c) ∧
          ∃ scan rest, Scan.Reaches .standard "a\nb\x7b\x7b\x7d".toList scan rest ∧ scan.Refuses rest e ∧
            EndsInside scan.delimiters.closer.toList "a\nb\x7b\x7b\x7d".toList) := by
  intro e
  have hparse : parse .standard "a\nb\x7b\x7b\x7d" = .error e := by cbv
  have htag : e.fault ≠ .unclosedTag := nofun
  have hsection : ∀ name, e.fault ≠ .unclosedSection name := nofun
  exact ⟨hparse, htag, hsection, parse_append_of_error hparse htag hsection "\x7d"⟩

end Stencil
