import Stencil.Proofs.Seam
import Stencil.Proofs.Text.Respace

/-!
# Templates with other white space

Where the white space of a template is written anew, its tags stay what they are: white space parts the words of a tag, and it
does not matter of which kind it is nor how much there is. A tag stays alone on its line, or shares it as before. So the
segments of the new template are those of the old one, one by one (`next_text`).
-/

namespace Stencil

open Text

/-- The fault, where `f` is applied to what it quotes of the content of a tag. -/
def ParseFault.quoting (f : String → String) : ParseFault → ParseFault
  | .invalidName name => .invalidName (f name)
  | .invalidDelimiters content fault => .invalidDelimiters (f content) fault
  | fault => fault

namespace Text.Respacing

variable (r : Respacing)

/-- A stretch of a line and of the lines behind it, written anew. -/
def quote (s : String) : String := String.ofList (r.text false s.toList)

theorem quote_ofList (s : List Char) : r.quote (String.ofList s) = String.ofList (r.text false s) := by
  rw [quote, String.toList_ofList]

theorem text_eq_nil_iff {fresh : Bool} {s : List Char} : r.text fresh s = [] ↔ s = [] := by
  cases s with
  | nil => simp
  | cons c s =>
    cases hc : isLineEnd c with
    | true => simp [text_cons_of_lineEnd r hc, r.feed_ne_nil c hc]
    | false => simp [text_cons_of_inline r hc]

end Text.Respacing

namespace Tag

variable (r : Respacing)

theorem isName_text (name : List Char) : isName (r.text false name) = isName name := by
  by_cases hname : ∀ c ∈ name, isLineEnd c = false
  · rw [r.text_inline hname]
  · -- Neither is a name: both hold the end of a line.
    push Not at hname
    obtain ⟨c, hc, hend⟩ := hname
    have hnot {s : List Char} {b : Char} (hb : b ∈ s) (hblank : isBlank b = true) : isName s = false := by
      by_contra hs
      rw [Bool.not_eq_false] at hs
      rw [not_isBlank_of_isName hs b hb] at hblank
      cases hblank
    have hline : isLineEnd c = true := by simpa using hend
    obtain ⟨b, feed, hfeed⟩ := List.exists_cons_of_ne_nil (r.feed_ne_nil c hline)
    have hmem : b ∈ r.text false name := by
      obtain ⟨before, after, rfl⟩ := List.append_of_mem hc
      rw [r.text_append, r.text_cons_of_lineEnd hline, hfeed]
      simp
    rw [hnot hc (isBlank_of_isLineEnd hline), hnot hmem (r.isBlank_of_mem_feed hline (hfeed ▸ List.mem_cons_self))]

theorem nameOf_front (fresh : Bool) (content : List Char) :
    nameOf (r.front fresh content) = (nameOf content).mapError (·.quoting r.quote) := by
  simp only [nameOf, r.trim_front, isName_text, List.isEmpty_iff, r.text_eq_nil_iff]
  split
  · rfl
  · split
    · next hname =>
      rw [r.text_inline fun c hc => not_isLineEnd_of_not_isBlank (not_isBlank_of_isName hname c hc)]
      rfl
    · exact congrArg (fun name => Except.error (ParseFault.invalidName name)) (r.quote_ofList _).symm

theorem delimitersOf_front (fresh : Bool) (content : List Char) :
    delimitersOf (r.front fresh content) = (delimitersOf content).mapError (·.quoting r.quote) := by
  simp only [delimitersOf, r.words_front, r.trim_front, ← r.quote_ofList]
  split
  · split
    · rfl
    · rfl
  · rfl

private theorem map_mapError {ε α β : Type} (g : ε → ε) (f : α → β) (x : Except ε α) :
    (x.mapError g).map f = (x.map f).mapError g := by
  cases x <;> rfl

theorem named_front (make : String → Tag) (fresh : Bool) (content : List Char) :
    (Form.named make).ofContent (r.front fresh content) =
      ((Form.named make).ofContent content).mapError (·.quoting r.quote) := by
  simp only [Form.named, nameOf_front, map_mapError]

theorem ofContent_front {c : Char} {form : Form} (hform : Form.ofSigil c = some form) (fresh : Bool) (content : List Char) :
    form.ofContent (r.front fresh content) = (form.ofContent content).mapError (·.quoting r.quote) := by
  rcases Form.eq_of_ofSigil hform with ⟨make, rfl⟩ | ⟨make, rfl⟩ | rfl | rfl
  · exact named_front r make fresh content
  · exact named_front r make fresh content
  · rfl
  · simp only [delimitersOf_front, map_mapError]

/-- What has been read off a text, if the text is written anew. -/
def respaced : Except ParseFault (Tag × List Char) → Except ParseFault (Tag × List Char)
  | .ok (tag, rest) => .ok (tag, r.text false rest)
  | .error fault => .error (fault.quoting r.quote)

theorem Form.read_text {form : Form} {closer : List Char} (hne : closer ≠ [])
    (hclosing : ∀ c ∈ form.ending ++ closer, isBlank c = false)
    (hcontent : ∀ content, form.ofContent (r.front false content) = (form.ofContent content).mapError (·.quoting r.quote))
    (s : List Char) : form.read closer (r.text false s) = respaced r (form.read closer s) := by
  have hneClosing : form.ending ++ closer ≠ [] := List.append_ne_nil_of_right_ne_nil _ hne
  rw [Form.read, Form.read, upTo, upTo, r.cut?_text hclosing hneClosing]
  cases cut? (form.ending ++ closer) s with
  | none => rfl
  | some parts =>
    obtain ⟨content, rest⟩ := parts
    simp only [Option.map_some, bind, Except.bind, hcontent]
    cases form.ofContent content with
    | ok tag => rfl
    | error fault => rfl

/-- A tag is read as before. -/
theorem read_text (d : Delimiters) (s : List Char) : read d (r.text false s) = respaced r (read d s) := by
  have hne := d.closer_toList_ne_nil
  have hcloser := d.not_isBlank_of_mem_closer
  rcases forall_or_split isBlank s with hs | ⟨blank, c, body, rfl, hblank, hc⟩
  · rw [read_blank d hs, read_blank d (r.isBlank_of_mem_text hs)]
    rfl
  · have hend : isLineEnd c = false := not_isLineEnd_of_not_isBlank hc
    have hbody : r.text false (c :: body) = c :: r.text false body := by
      rw [r.text_cons_of_inline hend]
      rfl
    have hempty : d.closer.toList <+: c :: r.text false body ↔ d.closer.toList <+: c :: body := by
      rw [← hbody, ← isSome_strip?_iff, r.strip?_text hcloser, Option.isSome_map, isSome_strip?_iff]
    rw [r.text_append_cons hend, read_blank_append d _ (r.isBlank_of_mem_front hblank) hc, read_blank_append d body hblank hc]
    by_cases hprefix : d.closer.toList <+: c :: body
    · rw [if_pos hprefix, if_pos (hempty.mpr hprefix)]
      rfl
    · rw [if_neg hprefix, if_neg (mt hempty.mp hprefix)]
      cases hform : Form.ofSigil c with
      | some form =>
        refine Form.read_text r hne ?_ (ofContent_front r hform false) body
        intro b hb
        rcases List.mem_append.mp hb with hb | hb
        · exact Form.not_isBlank_of_ending hform b hb
        · exact hcloser b hb
      | none =>
        simp only
        split
        · rfl
        · have hclosing : ∀ b ∈ (Form.named (interpolation · true)).ending ++ d.closer.toList, isBlank b = false := hcloser
          rw [← hbody]
          exact Form.read_text r hne hclosing (named_front r _ false) (c :: body)

end Tag

namespace Segment

/-- The segment with its white space written anew, where `fresh` says whether a line starts in front of it. -/
def respaced (r : Respacing) (fresh : Bool) (seg : Segment) : Segment :=
  let seg := { seg with spelling := r.text false seg.spelling, trailing := r.text false seg.trailing }
  if seg.alone then { seg with text := r.text fresh seg.text, indent := r.lead ++ seg.indent }
  else { seg with text := r.front fresh seg.text }

variable (r : Respacing)

@[simp] theorem tag_respaced (fresh : Bool) (seg : Segment) : (seg.respaced r fresh).tag = seg.tag := by
  rw [respaced]
  simp only
  split
  · rfl
  · rfl

theorem ofParts_front {after : List Char} (hafter : ∀ c ∈ after, r.Admits c) (fresh : Bool) (before spelling : List Char)
    (tag : Tag) :
    ofParts fresh (r.front fresh before) (r.text false spelling) (r.text false after) tag =
      ((ofParts fresh before spelling after tag).1.respaced r fresh,
        r.text (startsLine false (ofParts fresh before spelling after tag).1.trailing)
          (ofParts fresh before spelling after tag).2) := by
  unfold ofParts
  simp only [r.dropEndWhile_isPad_front, r.takeEndWhile_isPad_front, r.startsLine_text, r.restOfLine?_text hafter]
  by_cases halone : (tag.canStandAlone && startsLine fresh (dropEndWhile isPad before)) = true
  · obtain ⟨hcan, hstarts⟩ := Bool.and_eq_true_iff.mp halone
    simp only [hcan, hstarts, Bool.and_self, if_true]
    cases restOfLine? after with
    | none => rfl
    | some parts => rfl
  · simp only [if_neg halone]
    rfl

/-- What has been read off a text, if the text is written anew. -/
def nextRespaced (fresh : Bool) : Except (List Char × ParseFault) (Option (Segment × List Char)) →
    Except (List Char × ParseFault) (Option (Segment × List Char))
  | .error (before, fault) => .error (r.front fresh before, fault.quoting r.quote)
  | .ok none => .ok none
  | .ok (some (seg, rest)) => .ok (some (seg.respaced r fresh, r.text (startsLine fresh seg.source) rest))

private theorem startsLine_source_ofParts {d : Delimiters} {tag tag' : Tag} {spelling : List Char}
    (h : Tag.Spelling d tag' spelling) (fresh : Bool) (before after : List Char) :
    startsLine fresh (ofParts fresh before spelling after tag).1.source =
      startsLine false (ofParts fresh before spelling after tag).1.trailing := by
  rw [source, startsLine_append, startsLine_append, spelling_ofParts, h.startsLine]

/-- A segment is read as before. -/
theorem next_text (d : Delimiters) (fresh : Bool) {s : List Char} (hs : ∀ c ∈ s, r.Admits c) :
    next d fresh (r.text fresh s) = nextRespaced r fresh (next d fresh s) := by
  have hopener := d.not_isBlank_of_mem_opener
  have hinline : ∀ c ∈ d.opener.toList, isLineEnd c = false := fun c hc => not_isLineEnd_of_not_isBlank (hopener c hc)
  rw [next, next, r.cut?_text hopener d.opener_toList_ne_nil]
  cases hcut : cut? d.opener.toList s with
  | none => rfl
  | some parts =>
    obtain ⟨before, inside⟩ := parts
    simp only [Option.map_some, Tag.read_text]
    cases hread : Tag.read d inside with
    | error fault => rfl
    | ok parts =>
      obtain ⟨tag, after⟩ := parts
      obtain ⟨w, rfl, hw⟩ := Tag.read_eq_ok_iff.mp hread
      have hafter : ∀ c ∈ after, r.Admits c := by
        intro c hc
        apply hs c
        rw [← append_of_cut? hcut]
        simp [hc]
      -- A tag ends with its closing delimiter, so what follows it starts no line.
      have hclosed : startsLine false w = false := by
        have hspelling := hw.spelling.startsLine false
        rwa [startsLine_append, startsLine_of_inline hinline] at hspelling
      have hinside : r.text false (w ++ after) = r.text false w ++ r.text false after := by
        rw [r.text_append, hclosed]
      simp only [Tag.respaced, nextRespaced, hinside, between_append, startsLine_source_ofParts hw.spelling]
      rw [← r.text_inline_append hinline, ofParts_front r hafter]

section Fits

variable {d : Delimiters} {fresh : Bool} {seg : Segment} {rest : List Char}

theorem text_respaced (fresh : Bool) (seg : Segment) :
    (seg.respaced r fresh).text = r.text fresh seg.text ∨ (seg.respaced r fresh).text = r.front fresh seg.text := by
  rw [respaced]
  simp only
  split
  · exact .inl rfl
  · exact .inr rfl

theorem Placed.front_respaced (h : seg.Placed fresh rest) :
    (seg.respaced r fresh).text ++ (seg.respaced r fresh).indent = r.front fresh (seg.text ++ seg.indent) := by
  rw [respaced]
  by_cases halone : seg.alone = true
  · rw [placed_of_alone halone] at h
    obtain ⟨-, hstarts, hindent, -⟩ := h
    rw [r.front_append, hstarts, r.front_pad hindent]
    simp only [if_pos halone]
    rfl
  · rw [placed_of_not_alone halone] at h
    simp only [if_neg halone, h.1, List.append_nil]

variable (h : seg.Fits d fresh rest) (hs : ∀ c ∈ seg.source ++ rest, r.Admits c)

include h hs

private theorem Fits.next_respaced : next d fresh (r.text fresh (seg.source ++ rest)) =
    .ok (some (seg.respaced r fresh, r.text (startsLine fresh seg.source) rest)) := by
  rw [next_text r d fresh hs, next_eq_some_iff.mpr ⟨rfl, h⟩]
  rfl

/-- A segment of a text that is written anew is the segment written anew. -/
theorem Fits.source_respaced : (seg.respaced r fresh).source = r.text fresh seg.source := by
  have happend := append_of_next (h.next_respaced r hs)
  rw [r.text_append] at happend
  exact List.append_cancel_right happend

theorem Fits.respaced : (seg.respaced r fresh).Fits d fresh (r.text (startsLine fresh seg.source) rest) :=
  (next_eq_some_iff.mp (h.next_respaced r hs)).2

end Fits
end Segment
end Stencil
