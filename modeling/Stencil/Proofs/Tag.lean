import Stencil.Proofs.Text.Blank
import Stencil.Proofs.Text.Search
import Stencil.Tag

/-!
# How tags are written

`Tag.Inside` says what may stand between an opening delimiter and the end of a tag, and `Tag.read` reads exactly that
(`read_eq_ok_iff`), whatever follows. `Tag.Spelling` is the view of a reader of templates: a tag is its delimiters, a sigil
and a content that means what the tag says.
-/

namespace Stencil.Tag

open Text

/-- What is written behind the sigil of a tag of this kind, the closing delimiter included. -/
def Form.Writes (form : Form) (closer : List Char) (tag : Tag) (s : List Char) : Prop :=
  ∃ content, s = content ++ (form.ending ++ closer) ∧ Clear (form.ending ++ closer) content ∧
    form.ofContent content = .ok tag

/-- What is written behind the opening delimiter of a tag, the closing delimiter included. -/
def Inside (d : Delimiters) (tag : Tag) (s : List Char) : Prop :=
  ∃ blank c body, s = blank ++ c :: body ∧ (∀ b ∈ blank, isBlank b = true) ∧ isBlank c = false ∧
    ¬ d.closer.toList <+: c :: body ∧
    match Form.ofSigil c with
    | some form => form.Writes d.closer.toList tag body
    | none =>
      isForeignSigil c = false ∧ (Form.named (interpolation · true)).Writes d.closer.toList tag (c :: body)

theorem Form.read_eq_ok_iff {form : Form} {closer s rest : List Char} {tag : Tag} :
    form.read closer s = .ok (tag, rest) ↔ ∃ w, s = w ++ rest ∧ form.Writes closer tag w := by
  have hread : form.read closer s = .ok (tag, rest) ↔
      ∃ content, cut? (form.ending ++ closer) s = some (content, rest) ∧ form.ofContent content = .ok tag := by
    unfold Form.read upTo
    cases hcut : cut? (form.ending ++ closer) s with
    | none => simp [bind, Except.bind]
    | some parts =>
      obtain ⟨content, rest'⟩ := parts
      cases hcontent : form.ofContent content with
      | error e =>
        simp only [hcontent, bind, Except.bind, Option.some.injEq, Prod.mk.injEq, reduceCtorEq, false_iff, not_exists,
          not_and]
        intro found hfound h
        obtain ⟨rfl, -⟩ := hfound
        simp [hcontent] at h
      | ok tag' =>
        simp only [hcontent, bind, Except.bind, pure, Except.pure, Except.ok.injEq, Prod.mk.injEq, Option.some.injEq]
        constructor
        · intro h
          obtain ⟨rfl, rfl⟩ := h
          exact ⟨content, ⟨rfl, rfl⟩, hcontent⟩
        · intro h
          obtain ⟨_, ⟨rfl, rfl⟩, h⟩ := h
          exact ⟨Except.ok.inj (hcontent.symm.trans h), rfl⟩
  rw [hread]
  constructor
  · intro h
    obtain ⟨content, hcut, hcontent⟩ := h
    obtain ⟨rfl, hclear⟩ := cut?_eq_some_iff.mp hcut
    exact ⟨_, rfl, content, rfl, hclear, hcontent⟩
  · intro h
    obtain ⟨_, rfl, content, rfl, hclear, hcontent⟩ := h
    exact ⟨content, cut?_eq_some_iff.mpr ⟨rfl, hclear⟩, hcontent⟩

theorem Form.Writes.closer_length_le {form : Form} {closer s : List Char} {tag : Tag} (h : form.Writes closer tag s) :
    closer.length ≤ s.length := by
  obtain ⟨content, rfl, -⟩ := h
  simp only [List.length_append]
  omega

theorem read_blank_append (d : Delimiters) {blank : List Char} {c : Char} (body : List Char)
    (hblank : ∀ b ∈ blank, isBlank b = true) (hc : isBlank c = false) :
    read d (blank ++ c :: body) =
      if d.closer.toList <+: c :: body then .error .emptyTag
      else match Form.ofSigil c with
        | some form => form.read d.closer.toList body
        | none =>
          if isForeignSigil c then .error (.unknownSigil c)
          else (Form.named (interpolation · true)).read d.closer.toList (c :: body) := by
  have hinner := dropWhile_stretch body hblank hc
  rw [read, hinner]
  by_cases hcloser : d.closer.toList <+: c :: body
  · rw [if_pos hcloser]
    exact if_pos (isSome_strip?_iff.mpr hcloser)
  · rw [if_neg hcloser]
    exact if_neg (mt isSome_strip?_iff.mp hcloser)

theorem read_blank (d : Delimiters) {s : List Char} (hs : ∀ c ∈ s, isBlank c = true) :
    read d s = .error .unclosedTag := by
  have hinner : s.dropWhile isBlank = [] := List.dropWhile_eq_nil_iff.mpr hs
  have hnot : ¬ (strip? d.closer.toList []).isSome := by
    rw [isSome_strip?_iff, List.prefix_nil]
    exact d.closer_toList_ne_nil
  rw [read]
  simp only [hinner, if_neg hnot]

/-- A tag is read off a text exactly if it is written at its start. -/
theorem read_eq_ok_iff {d : Delimiters} {s rest : List Char} {tag : Tag} :
    read d s = .ok (tag, rest) ↔ ∃ w, s = w ++ rest ∧ Inside d tag w := by
  constructor
  · intro h
    rcases forall_or_split isBlank s with hs | ⟨blank, c, body, rfl, hblank, hc⟩
    · rw [read_blank d hs] at h
      cases h
    · rw [read_blank_append d body hblank hc] at h
      split at h
      · cases h
      · next hcloser =>
        have hshort {w : List Char} (hw : body = w ++ rest) : ¬ d.closer.toList <+: c :: w := by
          intro hpre
          rw [hw] at hcloser
          exact hcloser (hpre.trans (List.prefix_append (c :: w) rest))
        split at h
        · next form hform =>
          obtain ⟨w, hbody, hw⟩ := Form.read_eq_ok_iff.mp h
          refine ⟨blank ++ c :: w, by simp [hbody], blank, c, w, rfl, hblank, hc, hshort hbody, ?_⟩
          rw [hform]
          exact hw
        · next hform =>
          split at h
          · cases h
          · next hforeign =>
            obtain ⟨w, hbody, hw⟩ := Form.read_eq_ok_iff.mp h
            cases w with
            | nil =>
              have hlen := hw.closer_length_le
              have hpos := List.length_pos_iff.mpr d.closer_toList_ne_nil
              rw [List.length_nil] at hlen
              omega
            | cons a w =>
              rw [List.cons_append, List.cons.injEq] at hbody
              obtain ⟨rfl, hbody⟩ := hbody
              refine ⟨blank ++ c :: w, by simp [hbody], blank, c, w, rfl, hblank, hc, hshort hbody, ?_⟩
              rw [hform]
              exact ⟨by simpa using hforeign, hw⟩
  · intro h
    obtain ⟨_, rfl, blank, c, body, rfl, hblank, hc, hcloser, hbody⟩ := h
    have hlen : d.closer.toList.length ≤ (c :: body).length := by
      rw [List.length_cons]
      cases hform : Form.ofSigil c with
      | some form =>
        rw [hform] at hbody
        exact Nat.le_succ_of_le (Form.Writes.closer_length_le hbody)
      | none =>
        rw [hform] at hbody
        exact hbody.2.closer_length_le
    rw [List.append_assoc, List.cons_append, read_blank_append d (body ++ rest) hblank hc, ← List.cons_append,
      if_neg (by rwa [isPrefix_append_iff hlen])]
    cases hform : Form.ofSigil c with
    | some form =>
      rw [hform] at hbody
      exact Form.read_eq_ok_iff.mpr ⟨body, rfl, hbody⟩
    | none =>
      rw [hform] at hbody
      simp only [hbody.1, Bool.false_eq_true, if_false]
      exact Form.read_eq_ok_iff.mpr ⟨c :: body, rfl, hbody.2⟩

/-- The content holds the name, which is a legal one. White space around it does not count. -/
def Names (content : List Char) (name : String) : Prop := trim content = name.toList ∧ isName name.toList = true

/-- What stands between the delimiters of a tag, the sigil first: what ends the tag comes at its end and not before. -/
inductive Content (closer : List Char) : Tag → List Char → Prop
  | escaped {name content} : Names content name → Clear closer content →
      (∀ c ∈ content.head?, isForeignSigil c = false) → Content closer (interpolation name true) content
  | unescaped {name content} : Names content name → Clear closer content →
      Content closer (interpolation name false) ('&' :: content)
  | braced {name content} : Names content name → Clear ('\x7d' :: closer) content →
      Content closer (interpolation name false) ('\x7b' :: (content ++ ['\x7d']))
  | opening {inverted name content} : Names content name → Clear closer content →
      Content closer (opening inverted name) ((if inverted then '^' else '#') :: content)
  | closing {name content} : Names content name → Clear closer content → Content closer (closing name) ('/' :: content)
  | inclusion {name content} : Names content name → Clear closer content → Content closer (inclusion name) ('>' :: content)
  | comment {content} : Clear closer content → Content closer comment ('!' :: content)
  | delimiters {next content} : words content = [next.opener.toList, next.closer.toList] →
      Clear ('=' :: closer) content → Content closer (delimiters next) ('=' :: (content ++ ['=']))

/-- The text of a tag under the delimiters `d`. -/
def Spelling (d : Delimiters) (tag : Tag) (s : List Char) : Prop :=
  ∃ blank content, s = d.opener.toList ++ (blank ++ (content ++ d.closer.toList)) ∧ (∀ c ∈ blank, isBlank c = true) ∧
    (∀ c ∈ content.head?, isBlank c = false) ∧ ¬ d.closer.toList <+: content ++ d.closer.toList ∧
    Content d.closer.toList tag content

theorem names_of_nameOf {content : List Char} {name : String} (h : nameOf content = .ok name) : Names content name := by
  unfold nameOf at h
  simp only at h
  split at h
  · cases h
  · split at h
    · next hname =>
      rw [← Except.ok.inj h, Names, String.toList_ofList]
      exact ⟨rfl, hname⟩
    · cases h

theorem Names.ne_nil {content : List Char} {name : String} (h : Names content name) : content ≠ [] := by
  intro hnil
  obtain ⟨htrim, hname⟩ := h
  rw [hnil] at htrim
  rw [← htrim] at hname
  cases hname

theorem not_isBlank_of_isName {name : List Char} (h : isName name = true) : ∀ c ∈ name, isBlank c = false := by
  intro c hc
  rw [isName, Bool.or_eq_true] at h
  rcases h with hdot | hname
  · rw [beq_iff_eq] at hdot
    rw [hdot, List.mem_singleton] at hc
    rw [hc]
    rfl
  · rw [Bool.and_eq_true, List.all_eq_true] at hname
    simpa using hname.1 c hc

theorem ne_nil_of_isName {name : List Char} (h : isName name = true) : name ≠ [] := by
  rintro rfl
  cases h

theorem nameOf_of_names {content : List Char} {name : String} (h : Names content name) : nameOf content = .ok name := by
  obtain ⟨htrim, hname⟩ := h
  have hne := List.isEmpty_eq_false_iff.mpr (ne_nil_of_isName hname)
  rw [nameOf]
  simp only [htrim, hname, hne, Bool.false_eq_true, if_false, if_true, String.ofList_toList]

theorem words_of_delimitersOf {content : List Char} {d : Delimiters} (h : delimitersOf content = .ok d) :
    words content = [d.opener.toList, d.closer.toList] := by
  rw [delimitersOf] at h
  simp only at h
  split at h
  · next opener closer hwords =>
    split at h
    · next found hfound =>
      obtain rfl := Except.ok.inj h
      rw [Delimiters.ofTexts] at hfound
      split at hfound
      · cases hfound
      · rw [hwords, ← Except.ok.inj hfound, String.toList_ofList, String.toList_ofList]
    · cases h
  · cases h

private theorem names_of_named {make : String → Tag} {content : List Char} {tag : Tag}
    (h : (Form.named make).ofContent content = .ok tag) : ∃ name, Names content name ∧ tag = make name := by
  simp only [Form.named] at h
  cases hname : nameOf content with
  | error e =>
    rw [hname] at h
    cases h
  | ok name =>
    rw [hname] at h
    exact ⟨name, names_of_nameOf hname, (Except.ok.inj h).symm⟩

/-- A tag with a sigil holds a name, is a comment, or changes the delimiters. -/
theorem Form.eq_of_ofSigil {c : Char} {form : Form} (h : ofSigil c = some form) :
    (∃ make, form = named make) ∨ (∃ make, form = { named make with ending := ['\x7d'] }) ∨
      form = ⟨[], fun _ => .ok comment⟩ ∨ form = ⟨['='], fun content => (delimitersOf content).map delimiters⟩ := by
  unfold ofSigil at h
  split at h
  case h_1 => exact .inr (.inl ⟨_, (Option.some.inj h).symm⟩)
  case h_7 => exact .inr (.inr (.inl (Option.some.inj h).symm))
  case h_8 => exact .inr (.inr (.inr (Option.some.inj h).symm))
  case h_9 => cases h
  all_goals exact .inl ⟨_, (Option.some.inj h).symm⟩

theorem Form.not_isBlank_of_ending {c : Char} {form : Form} (h : ofSigil c = some form) :
    ∀ b ∈ form.ending, isBlank b = false := by
  rcases eq_of_ofSigil h with ⟨make, rfl⟩ | ⟨make, rfl⟩ | rfl | rfl
  · exact List.forall_mem_nil _
  · exact List.forall_mem_singleton.mpr rfl
  · exact List.forall_mem_nil _
  · exact List.forall_mem_singleton.mpr rfl

private theorem content_of_form {closer content : List Char} {c : Char} {form : Form} {tag : Tag}
    (hform : Form.ofSigil c = some form) (hclear : Clear (form.ending ++ closer) content)
    (htag : form.ofContent content = .ok tag) : Content closer tag (c :: (content ++ form.ending)) := by
  unfold Form.ofSigil at hform
  split at hform
  all_goals
    first
    | (obtain rfl := Option.some.inj hform)
    | cases hform
  · obtain ⟨name, hname, rfl⟩ := names_of_named htag
    exact .braced hname hclear
  · obtain ⟨name, hname, rfl⟩ := names_of_named htag
    rw [Form.named, List.append_nil]
    exact .unescaped hname hclear
  · obtain ⟨name, hname, rfl⟩ := names_of_named htag
    have hopening : Content closer (Tag.opening false name) ('#' :: content) := .opening hname hclear
    rwa [Form.named, List.append_nil]
  · obtain ⟨name, hname, rfl⟩ := names_of_named htag
    have hopening : Content closer (Tag.opening true name) ('^' :: content) := .opening hname hclear
    rwa [Form.named, List.append_nil]
  · obtain ⟨name, hname, rfl⟩ := names_of_named htag
    rw [Form.named, List.append_nil]
    exact .closing hname hclear
  · obtain ⟨name, hname, rfl⟩ := names_of_named htag
    rw [Form.named, List.append_nil]
    exact .inclusion hname hclear
  · obtain rfl := Except.ok.inj htag
    rw [List.append_nil]
    exact .comment hclear
  · simp only at htag
    cases hwords : delimitersOf content with
    | error e =>
      rw [hwords] at htag
      cases htag
    | ok next =>
      rw [hwords] at htag
      obtain rfl := Except.ok.inj htag
      exact .delimiters (words_of_delimitersOf hwords) hclear

theorem Inside.spelling {d : Delimiters} {tag : Tag} {s : List Char} (h : Inside d tag s) :
    Spelling d tag (d.opener.toList ++ s) := by
  obtain ⟨blank, c, body, rfl, hblank, hc, hcloser, hbody⟩ := h
  cases hform : Form.ofSigil c with
  | none =>
    rw [hform] at hbody
    obtain ⟨hforeign, content, hcontent, hclear, htag⟩ := hbody
    obtain ⟨name, hname, rfl⟩ := names_of_named htag
    -- A name is not empty, so the character that is no sigil is its first one.
    obtain ⟨first, content, rfl⟩ := List.exists_cons_of_ne_nil hname.ne_nil
    obtain ⟨rfl, rfl⟩ := List.cons.inj hcontent
    refine ⟨blank, c :: content, rfl, hblank, ?_, hcloser, .escaped hname hclear ?_⟩
    · intro a ha
      rwa [← Option.some.inj ha]
    · intro a ha
      rwa [← Option.some.inj ha]
  | some form =>
    rw [hform] at hbody
    obtain ⟨content, rfl, hclear, htag⟩ := hbody
    rw [← List.append_assoc] at hcloser
    refine ⟨blank, c :: (content ++ form.ending), ?_, hblank, ?_, hcloser, content_of_form hform hclear htag⟩
    · simp only [List.cons_append, List.append_assoc]
    · intro a ha
      rwa [← Option.some.inj ha]

end Stencil.Tag
