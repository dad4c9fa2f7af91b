import Stencil.Proofs.Segment
import Stencil.Proofs.Text.Words

/-!
# White space at the ends of lines

A text can be written anew with other line ends and with padding in front of its lines. A text without white space is found in
the new text where it was, the words are the same, and so is what a line holds but for its padding. A stretch of the text is
written to the end of its last line (`text`), or up to something that goes on with that line (`front`), which then has the
padding of the line in front of it.
-/

namespace Stencil.Text

open Segment (startsLine startsLine_append startsLine_cons startsLine_of_inline LineEnd ClosesLine restOfLine?_eq_some_iff restOfLine?_eq_none_iff)

/-- Writes `feed c` in place of a character `c` that ends a line, and `lead` in front of a line that holds anything; `fresh`
says whether a line starts here. -/
def respace (lead : List Char) (feed : Char → List Char) : (fresh : Bool) → List Char → List Char
  | _, [] => []
  | fresh, c :: s =>
    if isLineEnd c then feed c ++ respace lead feed true s
    else (if fresh then lead else []) ++ c :: respace lead feed false s

/-- A way to write white space anew that leaves lines as they are, in texts of the characters that it admits. -/
structure Respacing where
  lead : List Char
  feed : Char → List Char
  Admits : Char → Prop
  isPad_of_mem_lead : ∀ c ∈ lead, isPad c = true
  feed_ne_nil : ∀ c, isLineEnd c = true → feed c ≠ []
  isLineEnd_of_mem_feed : ∀ c, isLineEnd c = true → ∀ b ∈ feed c, isLineEnd b = true
  lineEnd : ∀ brk rest, LineEnd brk rest → (∀ c ∈ brk ++ rest, Admits c) →
    LineEnd (respace lead feed false brk) (respace lead feed true rest)

namespace Respacing

variable (r : Respacing)

/-- The text written anew. -/
def text (fresh : Bool) (s : List Char) : List Char := respace r.lead r.feed fresh s

/-- The text written anew in front of something that goes on with its last line. -/
def front (fresh : Bool) (s : List Char) : List Char := r.text fresh s ++ if startsLine fresh s then r.lead else []

theorem isBlank_of_mem_lead {c : Char} (h : c ∈ r.lead) : isBlank c = true := isBlank_of_isPad (r.isPad_of_mem_lead c h)

theorem isPad_of_mem_start (fresh : Bool) : ∀ c ∈ (if fresh then r.lead else []), isPad c = true := by
  intro c hc
  split at hc
  · exact r.isPad_of_mem_lead c hc
  · cases hc

theorem isBlank_of_mem_start (fresh : Bool) : ∀ c ∈ (if fresh then r.lead else []), isBlank c = true :=
  fun c hc => isBlank_of_isPad (r.isPad_of_mem_start fresh c hc)

theorem isBlank_of_mem_feed {c b : Char} (hc : isLineEnd c = true) (h : b ∈ r.feed c) : isBlank b = true :=
  isBlank_of_isLineEnd (r.isLineEnd_of_mem_feed c hc b h)

@[simp] theorem text_nil (fresh : Bool) : r.text fresh [] = [] := rfl

theorem text_cons_of_lineEnd {c : Char} (hc : isLineEnd c = true) (fresh : Bool) (s : List Char) :
    r.text fresh (c :: s) = r.feed c ++ r.text true s := by
  rw [text, respace, if_pos hc, text]

theorem text_cons_of_inline {c : Char} (hc : isLineEnd c = false) (fresh : Bool) (s : List Char) :
    r.text fresh (c :: s) = (if fresh then r.lead else []) ++ c :: r.text false s := by
  rw [text, respace, if_neg (by simp [hc]), text]

theorem front_cons_of_lineEnd {c : Char} (hc : isLineEnd c = true) (fresh : Bool) (s : List Char) :
    r.front fresh (c :: s) = r.feed c ++ r.front true s := by
  rw [front, text_cons_of_lineEnd r hc, startsLine_cons, hc, front, List.append_assoc]

theorem front_cons_of_inline {c : Char} (hc : isLineEnd c = false) (fresh : Bool) (s : List Char) :
    r.front fresh (c :: s) = (if fresh then r.lead else []) ++ c :: r.front false s := by
  rw [front, text_cons_of_inline r hc, startsLine_cons, hc, front, List.append_assoc, List.cons_append]

theorem text_append (fresh : Bool) (s t : List Char) :
    r.text fresh (s ++ t) = r.text fresh s ++ r.text (startsLine fresh s) t := by
  induction s generalizing fresh with
  | nil => rfl
  | cons c s ih =>
    rw [List.cons_append, startsLine_cons]
    cases hc : isLineEnd c with
    | true => rw [text_cons_of_lineEnd r hc, text_cons_of_lineEnd r hc, ih, List.append_assoc]
    | false => rw [text_cons_of_inline r hc, text_cons_of_inline r hc, ih, List.append_assoc, List.cons_append]

theorem front_append (fresh : Bool) (s t : List Char) :
    r.front fresh (s ++ t) = r.text fresh s ++ r.front (startsLine fresh s) t := by
  rw [front, front, text_append, startsLine_append, List.append_assoc]

/-- The padding of a line may count to the text in front of what the line begins with. -/
theorem text_append_cons {c : Char} (hc : isLineEnd c = false) (fresh : Bool) (s t : List Char) :
    r.text fresh (s ++ c :: t) = r.front fresh s ++ c :: r.text false t := by
  rw [text_append, text_cons_of_inline r hc, front, List.append_assoc]

theorem front_append_cons {c : Char} (hc : isLineEnd c = false) (fresh : Bool) (s t : List Char) :
    r.front fresh (s ++ c :: t) = r.front fresh s ++ c :: r.front false t := by
  rw [front_append, front_cons_of_inline r hc, front.eq_1 r fresh s, List.append_assoc]

theorem text_inline {s : List Char} (hs : ∀ c ∈ s, isLineEnd c = false) : r.text false s = s := by
  induction s with
  | nil => rfl
  | cons c s ih =>
    rw [text_cons_of_inline r (hs c List.mem_cons_self), ih fun b hb => hs b (List.mem_cons_of_mem c hb)]
    rfl

theorem front_inline {s : List Char} (hs : ∀ c ∈ s, isLineEnd c = false) : r.front false s = s := by
  rw [front, text_inline r hs, startsLine_of_inline hs]
  exact List.append_nil s

theorem text_inline_append {s : List Char} (hs : ∀ c ∈ s, isLineEnd c = false) (t : List Char) :
    r.text false (s ++ t) = s ++ r.text false t := by
  rw [text_append, text_inline r hs, startsLine_of_inline hs]

/-- Padding and what goes on with its line. -/
theorem front_pad {s : List Char} (hs : ∀ c ∈ s, isPad c = true) (fresh : Bool) :
    r.front fresh s = (if fresh then r.lead else []) ++ s := by
  cases s with
  | nil => exact (List.append_nil _).symm
  | cons c s =>
    have hinline : ∀ b ∈ s, isLineEnd b = false := fun b hb => not_isLineEnd_of_isPad (hs b (List.mem_cons_of_mem c hb))
    rw [front_cons_of_inline r (not_isLineEnd_of_isPad (hs c List.mem_cons_self)), front_inline r hinline]

theorem mem_text {fresh : Bool} {s : List Char} {b : Char} (h : b ∈ r.text fresh s) :
    b ∈ r.lead ∨ b ∈ s ∨ ∃ c, isLineEnd c = true ∧ b ∈ r.feed c := by
  induction s generalizing fresh with
  | nil => exact .inr (.inl h)
  | cons c s ih =>
    have hrest {fresh : Bool} (h : b ∈ r.text fresh s) : b ∈ r.lead ∨ b ∈ c :: s ∨ ∃ c, isLineEnd c = true ∧ b ∈ r.feed c :=
      (ih h).imp_right (Or.imp_left (List.mem_cons_of_mem c))
    cases hc : isLineEnd c with
    | true =>
      rw [text_cons_of_lineEnd r hc, List.mem_append] at h
      rcases h with h | h
      · exact .inr (.inr ⟨c, hc, h⟩)
      · exact hrest h
    | false =>
      rw [text_cons_of_inline r hc, List.mem_append, List.mem_cons] at h
      rcases h with h | rfl | h
      · split at h
        · exact .inl h
        · cases h
      · exact .inr (.inl List.mem_cons_self)
      · exact hrest h

theorem isBlank_of_mem_text {fresh : Bool} {s : List Char} (hs : ∀ c ∈ s, isBlank c = true) :
    ∀ b ∈ r.text fresh s, isBlank b = true := by
  intro b hb
  rcases r.mem_text hb with hb | hb | ⟨c, hc, hb⟩
  · exact r.isBlank_of_mem_lead hb
  · exact hs b hb
  · exact r.isBlank_of_mem_feed hc hb

theorem isBlank_of_mem_front {fresh : Bool} {s : List Char} (hs : ∀ c ∈ s, isBlank c = true) :
    ∀ b ∈ r.front fresh s, isBlank b = true := by
  intro b hb
  rw [front, List.mem_append] at hb
  rcases hb with hb | hb
  · exact r.isBlank_of_mem_text hs b hb
  · exact r.isBlank_of_mem_start _ b hb

/-- A text ends with a line end after as before, or else with the same character. -/
theorem getLast?_text (fresh : Bool) (s : List Char) (c : Char) :
    ∃ ending, r.text fresh (s ++ [c]) = r.text fresh s ++ ending ∧
      ∃ b, ending.getLast? = some b ∧ (b = c ∨ isLineEnd c = true ∧ isLineEnd b = true) := by
  refine ⟨_, r.text_append fresh s [c], ?_⟩
  cases hc : isLineEnd c with
  | true =>
    have hne := r.feed_ne_nil c hc
    rw [text_cons_of_lineEnd r hc, text_nil, List.append_nil]
    exact ⟨_, List.getLast?_eq_some_getLast hne, .inr ⟨rfl, r.isLineEnd_of_mem_feed c hc _ (List.getLast_mem hne)⟩⟩
  | false =>
    rw [text_cons_of_inline r hc, text_nil]
    exact ⟨c, List.getLast?_concat, .inl rfl⟩

theorem startsLine_text (fresh fresh' : Bool) (s : List Char) : startsLine fresh (r.text fresh' s) = startsLine fresh s := by
  cases s using List.reverseRecOn with
  | nil => rfl
  | append_singleton s c =>
    obtain ⟨ending, htext, b, hb, hsame⟩ := r.getLast?_text fresh' s c
    rw [htext, startsLine_append, startsLine, hb, startsLine_append, startsLine]
    rcases hsame with rfl | ⟨hc, hb⟩
    · rfl
    · exact hb.trans hc.symm

section Find

variable {p : List Char} (hp : ∀ c ∈ p, isBlank c = false)

include hp

private theorem not_mem_of_isBlank {c : Char} (hc : isBlank c = true) : c ∉ p := by
  intro hmem
  rw [hp c hmem] at hc
  cases hc

theorem strip?_text (s : List Char) : strip? p (r.text false s) = (strip? p s).map (r.text false) := by
  fun_induction strip? p s with
  | case1 s => rfl
  | case2 => rfl
  | case3 p x s ih =>
    rw [text_cons_of_inline r (not_isLineEnd_of_not_isBlank (hp x List.mem_cons_self))]
    simp only [Bool.false_eq_true, if_false, List.nil_append, strip?, if_true]
    exact ih fun b hb => hp b (List.mem_cons_of_mem x hb)
  | case4 x p c s hne =>
    cases hc : isLineEnd c with
    | true =>
      obtain ⟨b, feed, hfeed⟩ := List.exists_cons_of_ne_nil (r.feed_ne_nil c hc)
      have hblank : isBlank b = true := r.isBlank_of_mem_feed hc (hfeed ▸ List.mem_cons_self)
      have hb : x ≠ b := (List.ne_of_not_mem_cons (not_mem_of_isBlank hp hblank)).symm
      rw [text_cons_of_lineEnd r hc, hfeed, List.cons_append, strip?, if_neg hb]
      rfl
    | false =>
      rw [text_cons_of_inline r hc]
      simp [strip?, hne]

private theorem cut?_blank_append (hne : p ≠ []) {blank : List Char} (hblank : ∀ c ∈ blank, isBlank c = true) (s : List Char) :
    cut? p (blank ++ s) = (cut? p s).map fun (before, rest) => (blank ++ before, rest) := by
  have hforeign : ∀ c ∈ blank, c ∉ p := fun c hc => not_mem_of_isBlank hp (hblank c hc)
  have hcut : cut? p blank = none := by
    rw [cut?_eq_none_iff]
    intro hwithin
    obtain ⟨c, hc⟩ := List.exists_mem_of_ne_nil p hne
    exact hforeign c (hwithin.subset hc) hc
  exact cut?_append hcut (fun c hc => hforeign c (List.mem_of_getLast? hc)) s

/-- The first occurrence of a text without white space stays where it is. -/
theorem cut?_text (hne : p ≠ []) (fresh : Bool) (s : List Char) :
    cut? p (r.text fresh s) = (cut? p s).map fun (before, rest) => (r.front fresh before, r.text false rest) := by
  induction s generalizing fresh with
  | nil =>
    have hnil : cut? p [] = none := by
      rw [cut?_eq_none_iff, List.infix_nil]
      exact hne
    rw [text_nil, hnil]
    rfl
  | cons c s ih =>
    cases hc : isLineEnd c with
    | true =>
      have hcut := cut?_blank_append hp hne (List.forall_mem_singleton.mpr (isBlank_of_isLineEnd hc)) s
      rw [List.singleton_append] at hcut
      rw [text_cons_of_lineEnd r hc, cut?_blank_append hp hne fun b hb => r.isBlank_of_mem_feed hc hb, ih, hcut]
      simp only [Option.map_map, Function.comp_def, List.singleton_append, front_cons_of_lineEnd r hc]
    | false =>
      have hstrip := r.strip?_text hp (c :: s)
      rw [text_cons_of_inline r hc] at hstrip
      change strip? p (c :: r.text false s) = _ at hstrip
      rw [text_cons_of_inline r hc, cut?_blank_append hp hne (r.isBlank_of_mem_start fresh), cut?, hstrip, cut?]
      cases strip? p (c :: s) with
      | some rest =>
        simp only [Option.map_some, List.append_nil]
        rfl
      | none => simp only [Option.map_none, ih, Option.map_map, Function.comp_def, front_cons_of_inline r hc]

theorem infix_text_iff (hne : p ≠ []) {fresh : Bool} {s : List Char} : p <:+: r.text fresh s ↔ p <:+: s := by
  rw [← not_iff_not, ← cut?_eq_none_iff, ← cut?_eq_none_iff, cut?_text r hp hne, Option.map_eq_none_iff]

end Find

section Trim

theorem dropWhile_front (fresh : Bool) (s : List Char) :
    (r.front fresh s).dropWhile isBlank = r.front false (s.dropWhile isBlank) := by
  rcases forall_or_split isBlank s with hs | ⟨blank, c, rest, rfl, hblank, hc⟩
  · rw [List.dropWhile_eq_nil_iff.mpr hs]
    exact List.dropWhile_eq_nil_iff.mpr (r.isBlank_of_mem_front hs)
  · have hinline := not_isLineEnd_of_not_isBlank hc
    rw [front_append_cons r hinline, dropWhile_stretch _ (r.isBlank_of_mem_front hblank) hc, dropWhile_stretch _ hblank hc,
      front_cons_of_inline r hinline]
    rfl

variable {p : Char → Bool} (hend : ∀ b c, isLineEnd b = true → isLineEnd c = true → p b = p c)
  (hfront : ∀ fresh s, (∀ c ∈ s, p c = true) → ∀ c ∈ r.front fresh s, p c = true)

include hend

private theorem not_of_getLast?_text {fresh : Bool} {s : List Char} (hs : ∀ c ∈ s.getLast?, p c = false) :
    ∀ c ∈ (r.text fresh s).getLast?, p c = false := by
  cases s using List.reverseRecOn with
  | nil => exact hs
  | append_singleton s c =>
    obtain ⟨ending, htext, b, hb, hsame⟩ := r.getLast?_text fresh s c
    have hc : p c = false := hs c List.getLast?_concat
    rw [htext, List.getLast?_append, hb]
    rintro _ ⟨⟩
    rcases hsame with rfl | ⟨hendC, hendB⟩
    · exact hc
    · rwa [hend b c hendB hendC]

include hfront

private theorem dropEndWhile_front (fresh : Bool) (s : List Char) :
    dropEndWhile p (r.front fresh s) = r.text fresh (dropEndWhile p s) := by
  have hsplit := dropEndWhile_append_takeEndWhile p s
  rw [← hsplit, front_append, hsplit]
  apply dropEndWhile_stretch
  · exact r.not_of_getLast?_text hend fun c hc => getLast?_dropEndWhile hc
  · exact hfront _ _ fun c hc => of_mem_takeEndWhile hc

end Trim

theorem dropEndWhile_isBlank_front (fresh : Bool) (s : List Char) :
    dropEndWhile isBlank (r.front fresh s) = r.text fresh (dropEndWhile isBlank s) := by
  refine r.dropEndWhile_front ?_ (fun _ _ => r.isBlank_of_mem_front) fresh s
  intro b c hb hc
  rw [isBlank_of_isLineEnd hb, isBlank_of_isLineEnd hc]

theorem trim_front (fresh : Bool) (s : List Char) : trim (r.front fresh s) = r.text false (trim s) := by
  rw [trim, dropWhile_front, dropEndWhile_isBlank_front, trim]

section Line

private theorem isPad_of_mem_front (fresh : Bool) (s : List Char) (hs : ∀ c ∈ s, isPad c = true) :
    ∀ c ∈ r.front fresh s, isPad c = true := by
  intro c hc
  rw [front_pad r hs, List.mem_append] at hc
  rcases hc with hc | hc
  · exact r.isPad_of_mem_start fresh c hc
  · exact hs c hc

private theorem isPad_eq_of_isLineEnd (b c : Char) (hb : isLineEnd b = true) (hc : isLineEnd c = true) : isPad b = isPad c := by
  rw [not_isPad_of_isLineEnd hb, not_isPad_of_isLineEnd hc]

theorem dropEndWhile_isPad_front (fresh : Bool) (s : List Char) :
    dropEndWhile isPad (r.front fresh s) = r.text fresh (dropEndWhile isPad s) :=
  r.dropEndWhile_front isPad_eq_of_isLineEnd r.isPad_of_mem_front fresh s

theorem takeEndWhile_isPad_front (fresh : Bool) (s : List Char) :
    takeEndWhile isPad (r.front fresh s) =
      (if startsLine fresh (dropEndWhile isPad s) then r.lead else []) ++ takeEndWhile isPad s := by
  have hpad : ∀ c ∈ takeEndWhile isPad s, isPad c = true := fun c hc => of_mem_takeEndWhile hc
  have hsplit := dropEndWhile_append_takeEndWhile isPad (r.front fresh s)
  have hfront : r.front fresh s =
      r.text fresh (dropEndWhile isPad s) ++ r.front (startsLine fresh (dropEndWhile isPad s)) (takeEndWhile isPad s) := by
    rw [← front_append, dropEndWhile_append_takeEndWhile]
  rw [dropEndWhile_isPad_front, hfront] at hsplit
  rw [hfront, List.append_cancel_left hsplit, front_pad r hpad]

end Line

private theorem words_append_front {before : List Char} {fresh : Bool}
    (hbefore : fresh = true → ∀ c ∈ before.getLast?, isBlank c = true) (s : List Char) :
    words (before ++ r.front fresh s) = words (before ++ s) := by
  have hlead : ∀ c ∈ r.lead, isBlank c = true := fun c hc => r.isBlank_of_mem_lead hc
  -- What has been passed of a line goes to `before`: padding comes only behind the end of a line, which is white space.
  induction s generalizing before fresh with
  | nil =>
    change words (before ++ if fresh then r.lead else []) = _
    split
    · next hfresh =>
      have hinsert := words_insert (hbefore hfresh) hlead []
      rwa [List.append_nil] at hinsert
    · rfl
  | cons c s ih =>
    cases hc : isLineEnd c with
    | true =>
      have hrest : words ([] ++ r.front true s) = words ([] ++ s) := by
        apply ih
        intro _ b hb
        cases hb
      rw [front_cons_of_lineEnd r hc, words_append_blank (r.feed_ne_nil c hc) fun b hb => r.isBlank_of_mem_feed hc hb,
        words_append_cons (isBlank_of_isLineEnd hc)]
      exact congrArg (words before ++ ·) hrest
    | false =>
      have hread : words (before ++ c :: r.front false s) = words (before ++ c :: s) := by
        have hnext : words ((before ++ [c]) ++ r.front false s) = words ((before ++ [c]) ++ s) := ih nofun
        rwa [List.append_assoc, List.append_assoc] at hnext
      rw [front_cons_of_inline r hc]
      split
      · next hfresh => rw [words_insert (hbefore hfresh) hlead, hread]
      · exact hread

/-- The words of a text stay the same. -/
theorem words_front (fresh : Bool) (s : List Char) : words (r.front fresh s) = words s := by
  have hwords : words ([] ++ r.front fresh s) = words ([] ++ s) := by
    apply r.words_append_front
    intro _ c hc
    cases hc
  exact hwords

/-- The rest of a line stays nothing but padding, or something else. -/
theorem restOfLine?_text {s : List Char} (hs : ∀ c ∈ s, r.Admits c) :
    Segment.restOfLine? (r.text false s) =
      (Segment.restOfLine? s).map fun (trailing, rest) => (r.text false trailing, r.text (startsLine false trailing) rest) := by
  cases hline : Segment.restOfLine? s with
  | none =>
    obtain ⟨pad, c, rest, rfl, hpad, hc, hend⟩ := restOfLine?_eq_none_iff.mp hline
    refine restOfLine?_eq_none_iff.mpr ⟨pad, c, r.text false rest, ?_, hpad, hc, hend⟩
    rw [text_append_cons r hend, front_pad r hpad]
    rfl
  | some parts =>
    obtain ⟨trailing, rest⟩ := parts
    obtain ⟨rfl, pad, brk, rfl, hpad, hbrk⟩ := restOfLine?_eq_some_iff.mp hline
    have hinline : ∀ c ∈ pad, isLineEnd c = false := fun c hc => not_isLineEnd_of_isPad (hpad c hc)
    have hadmits : ∀ c ∈ brk ++ rest, r.Admits c := by
      intro c hc
      apply hs c
      rw [List.append_assoc]
      exact List.mem_append_right pad hc
    have hnext : LineEnd (r.text false brk) (r.text (startsLine false (pad ++ brk)) rest) := by
      have hlineEnd := r.lineEnd brk rest hbrk hadmits
      rw [startsLine_append, startsLine_of_inline hinline]
      cases hbrk with
      | ofText => exact .ofText
      | feed | returnFeed | «return» => exact hlineEnd
    refine restOfLine?_eq_some_iff.mpr ⟨r.text_append false (pad ++ brk) rest, pad, r.text false brk, ?_, hpad, hnext⟩
    exact r.text_inline_append hinline brk

end Respacing
end Stencil.Text
