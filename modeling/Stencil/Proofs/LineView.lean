import Mathlib.Logic.ExistsUnique
import Stencil.Proofs.LineRule
import Stencil.Proofs.Lines

/-!
# A text as lines

A text is divided into lines in one way only (`exists_lined`, `Lined.unique`). To indent it is to indent each of its lines
(`Lined.indentFrom_eq`), and the lines stay the same lines (`Lined.indented`); so a text that is indented twice is indented once
by both paddings, the second one in front (`indentLines_indentLines`).
-/

namespace Stencil

namespace Text

/-- A line: what it holds, and its end. -/
structure Line where
  content : List Char
  ending : List Char

def Line.source (line : Line) : List Char := line.content ++ line.ending

/-- The line with `w` in front of its first character, if it holds any. -/
def Line.indented (w : List Char) (line : Line) : Line :=
  if line.content = [] then line else { line with content := w ++ line.content }

/-- The text is the lines, one after the other. -/
inductive Lined : List Char → List Line → Prop
  | nil : Lined [] []
  | cons {line : Line} {rest : List Char} {lines : List Line} : (∀ c ∈ line.content, isLineEnd c = false) →
    Segment.LineEnd line.ending rest → line.source ≠ [] → Lined rest lines → Lined (line.source ++ rest) (line :: lines)

section Lined

variable {s rest : List Char} {lines : List Line} {line : Line}

theorem exists_lineEnd {c : Char} (hc : isLineEnd c = true) (s : List Char) :
    ∃ brk rest, c :: s = brk ++ rest ∧ brk ≠ [] ∧ Segment.LineEnd brk rest := by
  simp only [isLineEnd, Bool.or_eq_true, beq_iff_eq] at hc
  rcases hc with rfl | rfl
  · exact ⟨['\n'], s, rfl, by simp, .feed s⟩
  · by_cases hfeed : s.head? = some '\n'
    · obtain ⟨rest, rfl⟩ := List.head?_eq_some_iff.mp hfeed
      exact ⟨['\r', '\n'], rest, rfl, by simp, .returnFeed rest⟩
    · exact ⟨['\r'], s, rfl, by simp, .return hfeed⟩

theorem exists_lined (s : List Char) : ∃ lines, Lined s lines := by
  induction hn : s.length using Nat.strongRecOn generalizing s with
  | ind n ih =>
    rcases forall_or_split (!isLineEnd ·) s with hs | ⟨content, c, behind, rfl, hcontent, hc⟩
    · cases s with
      | nil => exact ⟨[], .nil⟩
      | cons b s =>
        refine ⟨[⟨b :: s, []⟩], ?_⟩
        have hlined : Lined ((⟨b :: s, []⟩ : Line).source ++ []) _ := .cons (by simpa using hs) .ofText (by simp [Line.source]) .nil
        simpa [Line.source] using hlined
    · obtain ⟨brk, rest, hbehind, hne, hbrk⟩ := exists_lineEnd (by simpa using hc) behind
      have hpos := List.length_pos_iff.mpr hne
      have hlt : rest.length < n := by
        rw [← hn, hbehind, List.length_append, List.length_append]
        omega
      obtain ⟨lines, hlines⟩ := ih rest.length hlt rest rfl
      refine ⟨⟨content, brk⟩ :: lines, ?_⟩
      have hlined : Lined ((⟨content, brk⟩ : Line).source ++ rest) _ :=
        .cons (by simpa using hcontent) hbrk (by simp [Line.source, hne]) hlines
      rwa [Line.source, List.append_assoc, ← hbehind] at hlined

theorem Lined.head_eq (hcontent : ∀ c ∈ line.content, isLineEnd c = false) (hending : Segment.LineEnd line.ending rest) :
    line = ⟨lineBehind (line.source ++ rest), firstLineEnd (line.source ++ rest)⟩ := by
  obtain ⟨hbehind, hend⟩ := line_of_lineEnd hcontent hending
  rw [Line.source, List.append_assoc, hbehind, hend]

theorem Lined.unique {lines' : List Line} (h : Lined s lines) (h' : Lined s lines') : lines = lines' := by
  induction h generalizing lines' with
  | nil =>
    generalize hs : ([] : List Char) = s at h'
    cases h' with
    | nil => rfl
    | cons _ _ hne _ => exact absurd (List.append_eq_nil_iff.mp hs.symm).1 hne
  | @cons line rest lines hcontent hending hne _ ih =>
    generalize hs : line.source ++ rest = s at h'
    cases h' with
    | nil => exact absurd (List.append_eq_nil_iff.mp hs).1 hne
    | @cons line' rest' lines' hcontent' hending' _ hrest' =>
      have hline : line = line' := by
        rw [head_eq hcontent hending, head_eq hcontent' hending', hs]
      subst hline
      rw [← List.append_cancel_left hs] at hrest'
      rw [ih hrest']

theorem indentFrom_inline (w : List Char) {s : List Char} (hs : ∀ c ∈ s, isLineEnd c = false) (t : List Char) :
    indentFrom w false (s ++ t) = s ++ indentFrom w false t := by
  induction s with
  | nil => rfl
  | cons c s ih =>
    have hc := hs c List.mem_cons_self
    rw [List.cons_append, indentFrom_cons, hc, ih fun b hb => hs b (List.mem_cons_of_mem c hb)]
    rfl

/-- Padding is put in front of a stretch at the start of a line. -/
theorem indentFrom_stretch (w : List Char) {s : List Char} (hne : s ≠ []) (hs : ∀ c ∈ s, isLineEnd c = false) (t : List Char) :
    indentFrom w true (s ++ t) = w ++ s ++ indentFrom w false t := by
  cases s with
  | nil => exact absurd rfl hne
  | cons c s =>
    have hc := hs c List.mem_cons_self
    rw [List.cons_append, indentFrom_cons, hc, indentFrom_inline w (fun b hb => hs b (List.mem_cons_of_mem c hb))]
    simp

/-- No padding is put in front of the end of a line, nor into it. -/
theorem indentFrom_lineEnd (w : List Char) (fresh : Bool) {brk rest : List Char} (h : Segment.LineEnd brk rest) :
    indentFrom w fresh (brk ++ rest) = brk ++ indentFrom w true rest := by
  cases h with
  | ofText => rfl
  | feed | returnFeed | «return» => simp [indentFrom_cons, isLineEnd]

theorem indentFrom_line (w : List Char) (hcontent : ∀ c ∈ line.content, isLineEnd c = false)
    (hending : Segment.LineEnd line.ending rest) :
    indentFrom w true (line.source ++ rest) = (line.indented w).source ++ indentFrom w true rest := by
  rw [Line.source, List.append_assoc, Line.indented]
  by_cases hempty : line.content = []
  · rw [hempty, List.nil_append, indentFrom_lineEnd w true hending]
    simp [Line.source, hempty]
  · rw [indentFrom_stretch w hempty hcontent, indentFrom_lineEnd w false hending]
    simp [Line.source, hempty]

/-- To indent a text is to indent its lines. -/
theorem Lined.indentFrom_eq (h : Lined s lines) (w : List Char) :
    indentFrom w true s = lines.flatMap fun line => (line.indented w).source := by
  induction h with
  | nil => rfl
  | cons hcontent hending _ _ ih => rw [indentFrom_line w hcontent hending, ih, List.flatMap_cons]

/-- The lines of an indented text are the indented lines. -/
theorem Lined.indented {w : List Char} (hw : ∀ c ∈ w, isPad c = true) (h : Lined s lines) :
    Lined (indentFrom w true s) (lines.map (Line.indented w)) := by
  induction h with
  | nil => exact .nil
  | @cons line rest lines hcontent hending hne _ ih =>
    rw [indentFrom_line w hcontent hending, List.map_cons]
    refine .cons ?_ ?_ ?_ ih
    · intro c hc
      rw [Line.indented] at hc
      split at hc
      · exact hcontent c hc
      · rcases List.mem_append.mp hc with hc | hc
        · exact not_isLineEnd_of_isPad (hw c hc)
        · exact hcontent c hc
    · have hend := hending.indented hw true
      rw [Line.indented]
      split
      · exact hend
      · exact hend
    · intro hnil
      apply hne
      rw [Line.source, List.append_eq_nil_iff, Line.indented] at hnil
      split at hnil
      · next hempty => rw [Line.source, hempty, hnil.2, List.nil_append]
      · next hempty => exact absurd (List.append_eq_nil_iff.mp hnil.1).2 hempty

theorem Line.indented_indented (v w : List Char) (line : Line) :
    (line.indented v).indented w = line.indented (w ++ v) := by
  by_cases hempty : line.content = []
  · simp [Line.indented, hempty]
  · simp [Line.indented, hempty]

theorem indentFrom_indentFrom {v : List Char} (hv : ∀ c ∈ v, isPad c = true) (w s : List Char) :
    indentFrom w true (indentFrom v true s) = indentFrom (w ++ v) true s := by
  obtain ⟨lines, hlines⟩ := exists_lined s
  rw [(hlines.indented hv).indentFrom_eq, hlines.indentFrom_eq, List.flatMap_map]
  simp only [Line.indented_indented]

end Lined

theorem indentLines_indentLines {v : String} (hv : ∀ c ∈ v.toList, isPad c = true) (w s : String) :
    indentLines w (indentLines v s) = indentLines (w ++ v) s := by
  rw [indentLines, indentLines, String.toList_ofList, indentFrom_indentFrom hv, indentLines, String.toList_append]

end Text

open Text

/-- Padding within a tag means nothing. -/
theorem Tag.Inside.indented {d : Delimiters} {w : List Char} (hw : ∀ c ∈ w, isPad c = true) {tag : Tag} {s : List Char}
    (h : Inside d tag s) : Inside d tag (indentFrom w false s) := by
  have hread : read d s = .ok (tag, []) := read_eq_ok_iff.mpr ⟨s, (List.append_nil s).symm, h⟩
  have htext := read_text (.indent w hw) d s
  rw [hread, Respacing.text_indent] at htext
  obtain ⟨inside, hinside, hwritten⟩ := read_eq_ok_iff.mp htext
  rw [hinside, Respacing.text_nil, List.append_nil]
  exact hwritten

/-- A partial that is alone on a line of an indented text is indented by both paddings. -/
theorem parse_indented_inclusion {w v : String} (hw : ∀ c ∈ w.toList, isPad c = true) (hv : ∀ c ∈ v.toList, isPad c = true)
    {d : Delimiters} {name tag : String} (htag : Tag.Spelling d (.inclusion name) tag.toList) :
    parse d (indentLines w (v ++ tag ++ "\n")) = .ok [.inclusion name (w ++ v)] := by
  obtain ⟨inside, htext, hinside⟩ := Lines.inside_of_spelling htag
  let written := String.ofList (d.opener.toList ++ indentFrom w.toList false inside)
  have hwritten : Tag.Spelling d (.inclusion name) written.toList := by
    rw [String.toList_ofList]
    exact (hinside.indented hw).spelling
  have hinline : ∀ c ∈ v.toList ++ d.opener.toList, isLineEnd c = false := by
    intro c hc
    rcases List.mem_append.mp hc with hc | hc
    · exact not_isLineEnd_of_isPad (hv c hc)
    · exact not_isLineEnd_of_not_isBlank (d.not_isBlank_of_mem_opener c hc)
  have hne : v.toList ++ d.opener.toList ≠ [] := List.append_ne_nil_of_right_ne_nil _ d.opener_toList_ne_nil
  have hline : indentLines w (v ++ tag ++ "\n") = w ++ v ++ written ++ "\n" := by
    rw [indentLines, ← String.toList_inj, String.toList_ofList, String.toList_append, String.toList_append, htext]
    have hend : indentFrom w.toList false (inside ++ ['\n']) = indentFrom w.toList false inside ++ ['\n'] := by
      rw [indentFrom_append hw]
      simp [indentFrom, isLineEnd]
    have hstretch := indentFrom_stretch w.toList hne hinline (inside ++ ['\n'])
    rw [hend] at hstretch
    simpa [written] using hstretch
  have hpadding : ∀ c ∈ (w ++ v).toList, isPad c = true := by
    intro c hc
    rw [String.toList_append] at hc
    rcases List.mem_append.mp hc with hc | hc
    · exact hw c hc
    · exact hv c hc
  rw [hline]
  exact (Lines.inclusion hpadding hwritten).2

/-- Indentation puts the padding in front of the lines of a text that hold anything and changes nothing else. A text that is
indented twice is indented once by both paddings, and so is the text of a partial in an indented text. -/
theorem indentLines_exact {v w : String} (hv : ∀ c ∈ v.toList, isPad c = true) (hw : ∀ c ∈ w.toList, isPad c = true)
    (s : String) :
    (∃! lines, Lined s.toList lines) ∧
      (∀ lines, Lined s.toList lines →
        (indentLines w s).toList = lines.flatMap fun line => (line.indented w.toList).source) ∧
      indentLines w (indentLines v s) = indentLines (w ++ v) s ∧
      ∀ d name tag, Tag.Spelling d (.inclusion name) tag.toList →
        parse d (indentLines w (v ++ tag ++ "\n")) = .ok [.inclusion name (w ++ v)] := by
  refine ⟨?_, ?_, indentLines_indentLines hv w s, fun d name tag htag => parse_indented_inclusion hw hv htag⟩
  · obtain ⟨lines, hlines⟩ := exists_lined s.toList
    exact ⟨lines, hlines, fun lines' hlines' => hlines'.unique hlines⟩
  · intro lines hlines
    rw [indentLines, String.toList_ofList, hlines.indentFrom_eq]

/-- An empty line, one that holds padding only, and one without an end. -/
theorem indentLines_exact_of_mixed_ends :
    let s := "a\r\n\r\n \rb"
    (∀ c ∈ "\t".toList, isPad c = true) ∧ (∀ c ∈ "  ".toList, isPad c = true) ∧ (∃! lines, Lined s.toList lines) ∧
      (∀ lines, Lined s.toList lines →
        (indentLines "  " s).toList = lines.flatMap fun line => (line.indented "  ".toList).source) ∧
      indentLines "  " (indentLines "\t" s) = indentLines ("  " ++ "\t") s ∧
      ∀ d name tag, Tag.Spelling d (.inclusion name) tag.toList →
        parse d (indentLines "  " ("\t" ++ tag ++ "\n")) = .ok [.inclusion name ("  " ++ "\t")] := by
  intro s
  have hv : ∀ c ∈ "\t".toList, isPad c = true := List.all_eq_true.mp (by decide)
  have hw : ∀ c ∈ "  ".toList, isPad c = true := List.all_eq_true.mp (by decide)
  exact ⟨hv, hw, indentLines_exact hv hw s⟩

example : indentLines "  " "a\r\n\r\n \rb" = "  a\r\n\r\n   \r  b" := by decide

end Stencil
