import Stencil.Proofs.Change

/-!
# White space in tags

`Tag.Lexical` is the grammar of tags: the sigil, the content and the mark behind the content, if the kind of tag has one. White
space may stand between any two of them. It makes no difference to what is read (`Tag.read_spell`), with one exception: a mark
is found together with the closing delimiter, so nothing may stand between these two.
-/

namespace Stencil

open Text

theorem Text.trim_stretch {front s back : List Char} (hfront : ∀ c ∈ front, isBlank c = true) (hne : s ≠ [])
    (hs : ∀ c ∈ s, isBlank c = false) (hback : ∀ c ∈ back, isBlank c = true) : trim (front ++ (s ++ back)) = s := by
  obtain ⟨c, rest, rfl⟩ := List.exists_cons_of_ne_nil hne
  rw [trim, List.cons_append, dropWhile_stretch (rest ++ back) hfront (hs c List.mem_cons_self), ← List.cons_append]
  apply dropEndWhile_stretch
  · intro b hb
    exact hs b (List.mem_of_getLast? hb)
  · exact hback

theorem Text.not_mem_stretch {front s back : List Char} {c : Char} (hfront : ∀ c ∈ front, isBlank c = true)
    (hback : ∀ c ∈ back, isBlank c = true) (hc : isBlank c = false) (hs : c ∉ s) : c ∉ front ++ (s ++ back) := by
  intro hmem
  rcases List.mem_append.mp hmem with hmem | hmem
  · rw [hfront c hmem] at hc
    cases hc
  · rcases List.mem_append.mp hmem with hmem | hmem
    · exact hs hmem
    · rw [hback c hmem] at hc
      cases hc

theorem Text.words_stretch {front s back : List Char} (hfront : ∀ c ∈ front, isBlank c = true)
    (hback : ∀ c ∈ back, isBlank c = true) : words (front ++ (s ++ back)) = words s := by
  rw [words_blank_append hfront]
  by_cases hne : back = []
  · rw [hne, List.append_nil]
  · have hwords := words_append_blank hne hback s []
    rw [List.append_nil] at hwords
    rw [hwords]
    exact List.append_nil (words s)

namespace Tag

variable {d : Delimiters} {tag : Tag} {name : String} {sigil content mark : List Char}

/-- The white space in a tag: in front of its sigil, behind the sigil, behind the content, and in front of the closing
delimiter. -/
structure Gaps where
  lead : List Char
  inner : List Char
  back : List Char
  last : List Char
  blank : ∀ c ∈ lead ++ (inner ++ (back ++ last)), isBlank c = true

/-- No white space but what parts two delimiters. -/
def Gaps.none : Gaps := ⟨[], [], [], [], nofun⟩

/-- What is written behind the opening delimiter, the closing delimiter included. -/
def Gaps.spell (g : Gaps) (d : Delimiters) (sigil content mark : List Char) : List Char :=
  g.lead ++ (sigil ++ (g.inner ++ (content ++ (g.back ++ (mark ++ (g.last ++ d.closer.toList))))))

/-- A name that starts with no punctuation and holds nothing that could end a tag. -/
structure IsKey (d : Delimiters) (name : String) : Prop where
  isName : isName name.toList = true
  starts : ∀ c ∈ name.toList.head?, isForeignSigil c = false
  apart : ∀ c ∈ name.toList, c ∉ d.closer.toList
  unbraced : '\x7d' ∉ name.toList

/-- The grammar of tags: the sigil, the content and the mark that go with each kind of tag. -/
inductive Lexical (d : Delimiters) : Tag → List Char → List Char → List Char → Prop
  | escaped {name : String} : IsKey d name → Lexical d (interpolation name true) [] name.toList []
  | unescaped {name : String} : IsKey d name → Lexical d (interpolation name false) ['&'] name.toList []
  | braced {name : String} : IsKey d name → Lexical d (interpolation name false) ['\x7b'] name.toList ['\x7d']
  | opening {name : String} {inverted : Bool} : IsKey d name →
    Lexical d (opening inverted name) [if inverted then '^' else '#'] name.toList []
  | closing {name : String} : IsKey d name → Lexical d (closing name) ['/'] name.toList []
  | inclusion {name : String} : IsKey d name → Lexical d (inclusion name) ['>'] name.toList []
  | delimiters {next : Delimiters} {space : List Char} : space ≠ [] → (∀ c ∈ space, isBlank c = true) →
    Lexical d (delimiters next) ['='] (next.opener.toList ++ (space ++ next.closer.toList)) ['=']

theorem Form.not_isBlank_of_ofSigil {c : Char} {form : Form} (h : ofSigil c = some form) : isBlank c = false := by
  unfold ofSigil at h
  split at h
  case h_9 => cases h
  all_goals rfl

/-- The sigils are punctuation. -/
theorem Form.isForeignSigil_of_ofSigil {c : Char} {form : Form} (h : ofSigil c = some form) : isForeignSigil c = true := by
  unfold ofSigil at h
  split at h
  case h_9 => cases h
  all_goals rfl

theorem Form.head?_ne_of_ofSigil {c : Char} {form : Form} (hform : ofSigil c = some form)
    (hcloser : ∀ a ∈ d.closer.toList.head?, ofSigil a = none) : d.closer.toList.head? ≠ some c := by
  intro hhead
  rw [hcloser c hhead] at hform
  cases hform

theorem Inside.of_sigil {form : Form} {lead : List Char} {c : Char} (hlead : ∀ b ∈ lead, isBlank b = true)
    (hform : Form.ofSigil c = some form) (hcloser : d.closer.toList.head? ≠ some c)
    (hclear : Clear (form.ending ++ d.closer.toList) content) (htag : form.ofContent content = .ok tag) :
    Inside d tag (lead ++ c :: (content ++ (form.ending ++ d.closer.toList))) := by
  refine ⟨lead, c, _, rfl, hlead, Form.not_isBlank_of_ofSigil hform, ?_, ?_⟩
  · intro hprefix
    obtain ⟨a, closer, ha⟩ := List.exists_cons_of_ne_nil d.closer_toList_ne_nil
    rw [ha, List.cons_prefix_cons] at hprefix
    rw [ha, hprefix.1] at hcloser
    exact hcloser rfl
  · rw [hform]
    exact ⟨content, rfl, hclear, htag⟩

section Key

variable {front back : List Char} (hkey : IsKey d name) (hfront : ∀ c ∈ front, isBlank c = true)
  (hback : ∀ c ∈ back, isBlank c = true)
include hkey hfront hback

theorem IsKey.names : Names (front ++ (name.toList ++ back)) name :=
  ⟨trim_stretch hfront (ne_nil_of_isName hkey.isName) (not_isBlank_of_isName hkey.isName) hback, hkey.isName⟩

theorem IsKey.named_eq (make : String → Tag) :
    (Form.named make).ofContent (front ++ (name.toList ++ back)) = .ok (make name) := by
  rw [Form.named]
  simp only [nameOf_of_names (hkey.names hfront hback), Except.map]

theorem IsKey.clear : Clear d.closer.toList (front ++ (name.toList ++ back)) := by
  obtain ⟨a, closer, ha⟩ := List.exists_cons_of_ne_nil d.closer_toList_ne_nil
  have hmem : a ∈ d.closer.toList := ha ▸ List.mem_cons_self
  rw [ha]
  apply clear_of_not_mem
  exact not_mem_stretch hfront hback (d.not_isBlank_of_mem_closer a hmem) fun hname => hkey.apart a hname hmem

theorem IsKey.inside_escaped : Inside d (interpolation name true)
    (front ++ (name.toList ++ (back ++ d.closer.toList))) := by
  obtain ⟨c, rest, hname⟩ := List.exists_cons_of_ne_nil (ne_nil_of_isName hkey.isName)
  have hc : c ∈ name.toList := hname ▸ List.mem_cons_self
  have hforeign : isForeignSigil c = false := hkey.starts c (by rw [hname]; rfl)
  have hnone : ∀ c ∈ ([] : List Char), isBlank c = true := List.forall_mem_nil _
  have hcontent := hkey.named_eq hnone hback (interpolation · true)
  have hclear := hkey.clear hnone hback
  rw [hname, List.nil_append, List.cons_append] at hcontent hclear
  have hblank := not_isBlank_of_isName hkey.isName c hc
  refine ⟨front, c, rest ++ (back ++ d.closer.toList), by rw [hname]; rfl, hfront, hblank, ?_, ?_⟩
  · -- A closing delimiter at once would start with the first character of the name.
    intro hprefix
    obtain ⟨a, closer, ha⟩ := List.exists_cons_of_ne_nil d.closer_toList_ne_nil
    rw [ha, List.cons_prefix_cons] at hprefix
    exact hkey.apart c hc (by rw [ha, hprefix.1]; exact List.mem_cons_self)
  · cases hform : Form.ofSigil c with
    | some form =>
      rw [Form.isForeignSigil_of_ofSigil hform] at hforeign
      cases hforeign
    | none => exact ⟨hforeign, c :: (rest ++ back), by simp [Form.named], hclear, hcontent⟩

theorem IsKey.inside_named {lead : List Char} {c : Char} {make : String → Tag} (hlead : ∀ b ∈ lead, isBlank b = true)
    (hcloser : ∀ a ∈ d.closer.toList.head?, Form.ofSigil a = none) (hform : Form.ofSigil c = some (.named make)) :
    Inside d (make name) (lead ++ c :: (front ++ (name.toList ++ back) ++ d.closer.toList)) :=
  .of_sigil hlead hform (Form.head?_ne_of_ofSigil hform hcloser) (hkey.clear hfront hback) (hkey.named_eq hfront hback make)

theorem IsKey.inside_braced {lead : List Char} (hlead : ∀ b ∈ lead, isBlank b = true)
    (hcloser : ∀ a ∈ d.closer.toList.head?, Form.ofSigil a = none) : Inside d (interpolation name false)
      (lead ++ '\x7b' :: (front ++ (name.toList ++ back) ++ '\x7d' :: d.closer.toList)) := by
  have hclear : Clear ('\x7d' :: d.closer.toList) (front ++ (name.toList ++ back)) :=
    clear_of_not_mem (not_mem_stretch hfront hback rfl hkey.unbraced) _
  have hform : Form.ofSigil '\x7b' = some { Form.named (interpolation · false) with ending := ['\x7d'] } := rfl
  exact .of_sigil hlead hform (Form.head?_ne_of_ofSigil hform hcloser) hclear (hkey.named_eq hfront hback _)

end Key

theorem inside_delimiters {lead front space back : List Char} (next : Delimiters) (hlead : ∀ c ∈ lead, isBlank c = true)
    (hfront : ∀ c ∈ front, isBlank c = true) (hback : ∀ c ∈ back, isBlank c = true) (hne : space ≠ [])
    (hspace : ∀ c ∈ space, isBlank c = true) (hcloser : ∀ a ∈ d.closer.toList.head?, Form.ofSigil a = none) :
    Inside d (delimiters next)
      (lead ++ '=' :: (front ++ (next.opener.toList ++ (space ++ next.closer.toList) ++ back) ++ '=' :: d.closer.toList)) := by
  have hmarks : '=' ∉ next.opener.toList ++ (space ++ next.closer.toList) := by
    intro hmem
    rcases List.mem_append.mp hmem with hmem | hmem
    · exact next.equals_not_mem.1 hmem
    · rcases List.mem_append.mp hmem with hmem | hmem
      · exact absurd (hspace _ hmem) (by decide)
      · exact next.equals_not_mem.2 hmem
  have hwords : words (front ++ (next.opener.toList ++ (space ++ next.closer.toList) ++ back)) =
      [next.opener.toList, next.closer.toList] := by
    rw [words_stretch hfront hback, words_append_blank hne hspace,
      words_word next.opener_toList_ne_nil next.not_isBlank_of_mem_opener,
      words_word next.closer_toList_ne_nil next.not_isBlank_of_mem_closer]
    rfl
  have hclear : Clear ('=' :: d.closer.toList) (front ++ (next.opener.toList ++ (space ++ next.closer.toList) ++ back)) :=
    clear_of_not_mem (not_mem_stretch hfront hback rfl hmarks) _
  have hform : Form.ofSigil '=' = some ⟨['='], fun content => (delimitersOf content).map delimiters⟩ := rfl
  refine .of_sigil hlead hform (Form.head?_ne_of_ofSigil hform hcloser) hclear ?_
  simp only [delimitersOf, hwords, String.ofList_toList, next.ofTexts_eq_ok, Except.map]

variable {g : Gaps}

theorem Gaps.isBlank_of_mem_lead (g : Gaps) : ∀ c ∈ g.lead, isBlank c = true :=
  fun c hc => g.blank c (List.mem_append_left _ hc)

theorem Gaps.isBlank_of_mem_inner (g : Gaps) : ∀ c ∈ g.inner, isBlank c = true :=
  fun c hc => g.blank c (List.mem_append_right _ (List.mem_append_left _ hc))

theorem Gaps.isBlank_of_mem_back (g : Gaps) : ∀ c ∈ g.back ++ g.last, isBlank c = true :=
  fun c hc => g.blank c (List.mem_append_right _ (List.mem_append_right _ hc))

/-- A tag that the grammar allows is one that is read, if nothing stands between its mark and the closing delimiter. -/
theorem Lexical.inside (h : Lexical d tag sigil content mark) (hcloser : ∀ a ∈ d.closer.toList.head?, Form.ofSigil a = none)
    (hgap : mark = [] ∨ g.last = []) : Inside d tag (g.spell d sigil content mark) := by
  have hlead := g.isBlank_of_mem_lead
  have hinner := g.isBlank_of_mem_inner
  have hback := g.isBlank_of_mem_back
  cases h with
  | escaped hkey =>
    have hfront : ∀ c ∈ g.lead ++ g.inner, isBlank c = true := List.forall_mem_append.mpr ⟨hlead, hinner⟩
    simpa [Gaps.spell] using hkey.inside_escaped hfront hback
  | unescaped hkey => simpa [Gaps.spell] using hkey.inside_named hinner hback hlead hcloser (c := '&') rfl
  | @opening name inverted hkey =>
    cases inverted with
    | false => simpa [Gaps.spell] using hkey.inside_named hinner hback hlead hcloser (c := '#') rfl
    | true => simpa [Gaps.spell] using hkey.inside_named hinner hback hlead hcloser (c := '^') rfl
  | closing hkey => simpa [Gaps.spell] using hkey.inside_named hinner hback hlead hcloser (c := '/') rfl
  | inclusion hkey => simpa [Gaps.spell] using hkey.inside_named hinner hback hlead hcloser (c := '>') rfl
  | braced hkey =>
    have hlast : g.last = [] := hgap.resolve_left (List.cons_ne_nil _ _)
    simpa [Gaps.spell, hlast] using hkey.inside_braced hinner hback hlead hcloser
  | @delimiters next space hne hspace =>
    have hlast : g.last = [] := hgap.resolve_left (List.cons_ne_nil _ _)
    simpa [Gaps.spell, hlast] using inside_delimiters next hlead hinner hback hne hspace hcloser

theorem Inside.writes {lead body : List Char} {c : Char} {form : Form} (h : Inside d tag (lead ++ c :: body))
    (hlead : ∀ b ∈ lead, isBlank b = true) (hform : Form.ofSigil c = some form) :
    form.Writes d.closer.toList tag body := by
  obtain ⟨blank, c', body', hsame, hblank, hc', -, hbody⟩ := h
  have hdrop := congrArg (List.dropWhile isBlank) hsame
  rw [dropWhile_stretch body hlead (Form.not_isBlank_of_ofSigil hform), dropWhile_stretch body' hblank hc'] at hdrop
  obtain ⟨rfl, rfl⟩ := List.cons.inj hdrop
  rw [hform] at hbody
  exact hbody

theorem Lexical.exists_form (h : Lexical d tag sigil content mark) (hmark : mark ≠ []) :
    ∃ c form, sigil = [c] ∧ Form.ofSigil c = some form ∧ form.ending = mark := by
  cases h with
  | escaped | unescaped | opening | closing | inclusion => exact absurd rfl hmark
  | braced => exact ⟨_, _, rfl, rfl, rfl⟩
  | delimiters => exact ⟨_, _, rfl, rfl, rfl⟩

/-- A tag with white space between its mark and the closing delimiter does not end there. -/
theorem Lexical.not_inside (h : Lexical d tag sigil content mark) (hmark : mark ≠ []) (hlast : g.last ≠ []) :
    ¬ Inside d tag (g.spell d sigil content mark) := by
  intro hinside
  obtain ⟨c, form, rfl, hform, rfl⟩ := h.exists_form hmark
  obtain ⟨found, hfound, -⟩ := hinside.writes g.isBlank_of_mem_lead hform
  have hwhole : (g.inner ++ (content ++ (g.back ++ form.ending))) ++ g.last ++ d.closer.toList =
      found ++ form.ending ++ d.closer.toList := by
    simpa using hfound
  have hends := List.append_cancel_right hwhole
  have hchar := congrArg List.getLast? hends
  rw [List.getLast?_append_of_ne_nil _ hlast, List.getLast?_append_of_ne_nil _ hmark,
    List.getLast?_eq_some_getLast hlast, List.getLast?_eq_some_getLast hmark] at hchar
  have hblank : isBlank (g.last.getLast hlast) = true :=
    g.isBlank_of_mem_back _ (List.mem_append_right _ (List.getLast_mem hlast))
  rw [Option.some.inj hchar, Form.not_isBlank_of_ending hform _ (List.getLast_mem hmark)] at hblank
  cases hblank

/-- White space in a tag makes no difference to what is read, wherever the grammar has a place for it, but for the place between
a mark and the closing delimiter: a tag with white space there is not read as the tag that it is without. -/
theorem read_spell (hcloser : ∀ c ∈ d.closer.toList.head?, Form.ofSigil c = none) (h : Lexical d tag sigil content mark)
    (g : Gaps) (rest : List Char) :
    read d (Gaps.none.spell d sigil content mark ++ rest) = .ok (tag, rest) ∧
      (read d (g.spell d sigil content mark ++ rest) = .ok (tag, rest) ↔ mark = [] ∨ g.last = []) := by
  constructor
  · exact read_eq_ok_iff.mpr ⟨_, rfl, h.inside hcloser (.inr rfl)⟩
  · constructor
    · intro hread
      obtain ⟨w, hw, hinside⟩ := read_eq_ok_iff.mp hread
      rw [← List.append_cancel_right hw] at hinside
      by_contra hgap
      rw [not_or] at hgap
      exact h.not_inside hgap.1 hgap.2 hinside
    · intro hgap
      exact read_eq_ok_iff.mpr ⟨_, rfl, h.inside hcloser hgap⟩

private theorem ofSigil_standard_closer : ∀ c ∈ Delimiters.standard.closer.toList.head?, Form.ofSigil c = none := by
  intro c hc
  obtain rfl : '\x7d' = c := Option.some.inj hc
  rfl

/-- White space everywhere, also between the two new delimiters. -/
theorem read_spell_of_change :
    let d := Delimiters.standard
    let g : Gaps := ⟨[' '], ['\n', '\t'], [' '], [], List.all_eq_true.mp rfl⟩
    let content := d.opener.toList ++ (['\u2003'] ++ d.closer.toList)
    (∀ c ∈ d.closer.toList.head?, Form.ofSigil c = none) ∧ Lexical d (delimiters d) ['='] content ['='] ∧
      read d (Gaps.none.spell d ['='] content ['='] ++ ['x']) = .ok (delimiters d, ['x']) ∧
      (read d (g.spell d ['='] content ['='] ++ ['x']) = .ok (delimiters d, ['x']) ↔ ['='] = [] ∨ g.last = []) := by
  intro d g content
  have hcloser : ∀ c ∈ d.closer.toList.head?, Form.ofSigil c = none := ofSigil_standard_closer
  have hspace : ∀ c ∈ ['\u2003'], isBlank c = true := List.all_eq_true.mp rfl
  have h : Lexical d (delimiters d) ['='] content ['='] := .delimiters (List.cons_ne_nil _ _) hspace
  exact ⟨hcloser, h, read_spell hcloser h g ['x']⟩

/-- A space between the inner brace and the closing delimiter keeps the tag from being read. -/
theorem not_read_spell_of_braced :
    let d := Delimiters.standard
    let g : Gaps := ⟨[], [], [], [' '], List.all_eq_true.mp rfl⟩
    (∀ c ∈ d.closer.toList.head?, Form.ofSigil c = none) ∧
      Lexical d (interpolation "k" false) ['\x7b'] "k".toList ['\x7d'] ∧
      read d (Gaps.none.spell d ['\x7b'] "k".toList ['\x7d']) = .ok (interpolation "k" false, []) ∧
      read d (g.spell d ['\x7b'] "k".toList ['\x7d']) = .error .unclosedTag ∧
      parse d "\x7b\x7b\x7bk\x7d\x7d\x7d" = .ok [.interpolation "k" false] ∧
      parse d "\x7b\x7b\x7bk\x7d \x7d\x7d" = .error ⟨.unclosedTag, ⟨1, 1⟩⟩ := by
  have htight : parse .standard "\x7b\x7b\x7bk\x7d\x7d\x7d" = .ok [.interpolation "k" false] := by cbv
  have hspaced : parse .standard "\x7b\x7b\x7bk\x7d \x7d\x7d" = .error ⟨.unclosedTag, ⟨1, 1⟩⟩ := by cbv
  have hstarts : ∀ c ∈ "k".toList.head?, isForeignSigil c = false := by
    intro c hc
    obtain rfl : 'k' = c := Option.some.inj hc
    rfl
  have hapart : ∀ c ∈ "k".toList, c ∉ Delimiters.standard.closer.toList := by
    intro c hc
    obtain rfl : c = 'k' := List.mem_singleton.mp hc
    decide
  have hkey : IsKey .standard "k" := ⟨by decide, hstarts, hapart, by decide⟩
  refine ⟨ofSigil_standard_closer, .braced hkey, ?_, ?_, htight, hspaced⟩
  · cbv
  · cbv

end Tag
end Stencil
