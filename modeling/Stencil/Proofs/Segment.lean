import Stencil.Proofs.Tag
import Stencil.Segment

/-!
# How segments are written

A segment is read off a template exactly if it is spelled with the delimiters in force and is placed as the line it stands on
demands (`next_eq_some_iff`). How it is spelled does not depend on what is around it; how it is placed depends on whether a
line starts in front of it, and on the rest of the line behind it.
-/

namespace Stencil.Segment

open Text

/-- The end of a line, in front of `rest`. -/
inductive LineEnd : List Char → List Char → Prop
  | ofText : LineEnd [] []
  | feed (rest) : LineEnd ['\n'] rest
  | returnFeed (rest) : LineEnd ['\r', '\n'] rest
  | return {rest} : rest.head? ≠ some '\n' → LineEnd ['\r'] rest

/-- Nothing but padding is left of the line, and `rest` starts behind it. -/
def ClosesLine (s rest : List Char) : Prop :=
  ∃ pad brk, s = pad ++ brk ∧ (∀ c ∈ pad, isPad c = true) ∧ LineEnd brk rest

theorem restOfLine?_eq_some_iff {s trailing rest : List Char} :
    restOfLine? s = some (trailing, rest) ↔ s = trailing ++ rest ∧ ClosesLine trailing rest := by
  constructor
  · intro h
    refine ⟨(append_of_restOfLine? h).symm, s.takeWhile isPad, ?_⟩
    have hpad : ∀ c ∈ s.takeWhile isPad, isPad c = true := fun c hc => List.all_eq_true.mp List.all_takeWhile c hc
    unfold restOfLine? at h
    simp only at h
    split at h
    · simp only [Option.some.injEq, Prod.mk.injEq] at h
      obtain ⟨rfl, rfl⟩ := h
      exact ⟨[], (List.append_nil _).symm, hpad, .ofText⟩
    · simp only [Option.some.injEq, Prod.mk.injEq] at h
      obtain ⟨rfl, rfl⟩ := h
      exact ⟨_, rfl, hpad, .returnFeed _⟩
    · next c rest' hnot _ =>
      split at h
      · next hend =>
        simp only [Option.some.injEq, Prod.mk.injEq] at h
        obtain ⟨rfl, rfl⟩ := h
        refine ⟨[c], rfl, hpad, ?_⟩
        simp only [isLineEnd, Bool.or_eq_true, beq_iff_eq] at hend
        rcases hend with rfl | rfl
        · exact .feed _
        · refine .return ?_
          intro hhead
          obtain ⟨tail, rfl⟩ := List.head?_eq_some_iff.mp hhead
          exact hnot tail rfl rfl
      · cases h
  · intro h
    obtain ⟨rfl, pad, brk, rfl, hpad, hend⟩ := h
    unfold restOfLine?
    cases hend with
    | ofText =>
      have hdrop : pad.dropWhile isPad = [] := List.dropWhile_eq_nil_iff.mpr hpad
      have htake : pad.takeWhile isPad = pad := List.takeWhile_eq_self_iff.mpr hpad
      simp only [List.append_nil, hdrop, htake]
    | feed =>
      rw [List.append_assoc, List.singleton_append, dropWhile_stretch rest hpad rfl, takeWhile_stretch rest hpad rfl]
      rfl
    | returnFeed =>
      rw [List.append_assoc, List.cons_append, dropWhile_stretch _ hpad rfl, takeWhile_stretch _ hpad rfl]
      rfl
    | «return» hhead =>
      rw [List.append_assoc, List.singleton_append, dropWhile_stretch rest hpad rfl, takeWhile_stretch rest hpad rfl]
      cases rest with
      | nil => rfl
      | cons c rest =>
        simp only
        split
        · next hcons =>
          cases hcons
        · next hcons =>
          rw [List.cons.injEq] at hcons
          exact absurd (by rw [hcons.2]; rfl) hhead
        · next hcons =>
          rw [List.cons.injEq] at hcons
          obtain ⟨rfl, rfl⟩ := hcons
          rfl

theorem restOfLine?_eq_none_iff {s : List Char} : restOfLine? s = none ↔
    ∃ pad c rest, s = pad ++ c :: rest ∧ (∀ b ∈ pad, isPad b = true) ∧ isPad c = false ∧ isLineEnd c = false := by
  constructor
  · intro h
    rcases forall_or_split isPad s with hs | ⟨pad, c, rest, rfl, hpad, hc⟩
    · rw [restOfLine?_eq_some_iff.mpr ⟨(List.append_nil s).symm, s, [], (List.append_nil s).symm, hs, .ofText⟩] at h
      cases h
    · refine ⟨pad, c, rest, rfl, hpad, hc, ?_⟩
      unfold restOfLine? at h
      rw [dropWhile_stretch rest hpad hc] at h
      simp only at h
      split at h
      · cases h
      · cases h
      · next hcons =>
        rw [List.cons.injEq] at hcons
        obtain ⟨rfl, rfl⟩ := hcons
        split at h
        · cases h
        · next hend => simpa using hend
  · intro h
    obtain ⟨pad, c, rest, rfl, hpad, hc, hend⟩ := h
    rw [restOfLine?, dropWhile_stretch rest hpad hc]
    split
    · next hnil => cases hnil
    · next hcons =>
      rw [List.cons.injEq] at hcons
      obtain ⟨rfl, -⟩ := hcons
      cases hend
    · next hcons =>
      rw [List.cons.injEq] at hcons
      obtain ⟨rfl, -⟩ := hcons
      simp [hend]

theorem startsLine_append (fresh : Bool) (s t : List Char) :
    startsLine fresh (s ++ t) = startsLine (startsLine fresh s) t := by
  unfold startsLine
  rw [List.getLast?_append]
  cases t.getLast? <;> simp

theorem startsLine_cons (fresh : Bool) (c : Char) (s : List Char) : startsLine fresh (c :: s) = startsLine (isLineEnd c) s :=
  startsLine_append fresh [c] s

theorem startsLine_of_inline {s : List Char} (hs : ∀ c ∈ s, isLineEnd c = false) : startsLine false s = false := by
  rw [startsLine]
  cases hlast : s.getLast? with
  | none => rfl
  | some c => exact hs c (List.mem_of_getLast? hlast)

/-- The tag is spelled with the delimiters `d`, and no other tag starts in front of it. -/
def Spelled (d : Delimiters) (seg : Segment) : Prop :=
  Clear d.opener.toList (seg.text ++ seg.indent) ∧
    ∃ inside, seg.spelling = d.opener.toList ++ inside ∧ Tag.Inside d seg.tag inside

theorem source_append (seg : Segment) (rest : List Char) : seg.source ++ rest = seg.text ++ seg.restAfterText rest := by
  simp only [source, restAfterText, List.append_assoc]

theorem Spelled.spelling {d : Delimiters} {seg : Segment} (h : seg.Spelled d) : Tag.Spelling d seg.tag seg.spelling := by
  obtain ⟨-, inside, hspelling, hinside⟩ := h
  rw [hspelling]
  exact hinside.spelling

/-- The tag is alone on its line, and the line is dropped with it. -/
def StandsAlone (fresh : Bool) (seg : Segment) (rest : List Char) : Prop :=
  seg.tag.canStandAlone = true ∧ startsLine fresh seg.text = true ∧ (∀ c ∈ seg.indent, isPad c = true) ∧
    ClosesLine seg.trailing rest

/-- The tag shares its line with text or with other tags, and nothing is dropped. -/
def StandsInLine (fresh : Bool) (seg : Segment) (rest : List Char) : Prop :=
  seg.indent = [] ∧ seg.trailing = [] ∧
    (seg.tag.canStandAlone = true → startsLine fresh (dropEndWhile isPad seg.text) = true → restOfLine? rest = none)

/-- The segment treats its line as it should, where `fresh` says whether a line starts in front of it and `rest` follows. -/
def Placed (fresh : Bool) (seg : Segment) (rest : List Char) : Prop :=
  if seg.alone then seg.StandsAlone fresh rest else seg.StandsInLine fresh rest

theorem placed_of_alone {fresh : Bool} {seg : Segment} {rest : List Char} (h : seg.alone = true) :
    seg.Placed fresh rest ↔ seg.StandsAlone fresh rest := by
  rw [Placed, if_pos h]

theorem placed_of_not_alone {fresh : Bool} {seg : Segment} {rest : List Char} (h : ¬ seg.alone = true) :
    seg.Placed fresh rest ↔ seg.StandsInLine fresh rest := by
  rw [Placed, if_neg h]

private theorem not_isPad_of_startsLine {fresh : Bool} {s : List Char} (h : startsLine fresh s = true) :
    ∀ c ∈ s.getLast?, isPad c = false := by
  intro c hc
  rw [startsLine, Option.mem_def.mp hc] at h
  exact not_isPad_of_isLineEnd h

theorem ofParts_eq_iff {fresh : Bool} {before spelling after rest : List Char} {tag : Tag} {seg : Segment} :
    ofParts fresh before spelling after tag = (seg, rest) ↔
      before = seg.text ++ seg.indent ∧ seg.tag = tag ∧ seg.spelling = spelling ∧ after = seg.trailing ++ rest ∧
        seg.Placed fresh rest := by
  constructor
  · intro h
    unfold ofParts at h
    simp only at h
    split at h
    · next trailing rest' hline =>
      rw [Prod.mk.injEq] at h
      obtain ⟨rfl, rfl⟩ := h
      split at hline
      · next hcan =>
        rw [Bool.and_eq_true] at hcan
        obtain ⟨rfl, hcloses⟩ := restOfLine?_eq_some_iff.mp hline
        exact ⟨(dropEndWhile_append_takeEndWhile isPad before).symm, rfl, rfl, rfl, hcan.1, hcan.2,
          fun c hc => of_mem_takeEndWhile hc, hcloses⟩
      · cases hline
    · next hline =>
      rw [Prod.mk.injEq] at h
      obtain ⟨rfl, rfl⟩ := h
      refine ⟨(List.append_nil before).symm, rfl, rfl, rfl, rfl, rfl, ?_⟩
      intro hcan hstarts
      rwa [if_pos (by rw [hcan, hstarts]; rfl)] at hline
  · intro h
    obtain ⟨text, indent, tag', spelling', trailing, alone⟩ := seg
    obtain ⟨rfl, rfl, rfl, rfl, hplaced⟩ := h
    rw [Placed] at hplaced
    rw [ofParts]
    cases alone with
    | true =>
      obtain ⟨hcan, hstarts, hindent, hcloses⟩ := hplaced
      have hlast := not_isPad_of_startsLine hstarts
      simp only at hcan hstarts hindent hcloses hlast
      rw [dropEndWhile_stretch hlast hindent, takeEndWhile_stretch hlast hindent]
      simp only [hcan, hstarts, Bool.and_self, if_true, restOfLine?_eq_some_iff.mpr ⟨rfl, hcloses⟩]
    | false =>
      obtain ⟨rfl, rfl, hline⟩ := hplaced
      simp only at hline
      have hnone : (if tag'.canStandAlone && startsLine fresh (dropEndWhile isPad (text ++ [])) then
          restOfLine? ([] ++ rest) else none) = none := by
        rw [List.append_nil, List.nil_append]
        split
        · next hcan =>
          rw [Bool.and_eq_true] at hcan
          exact hline hcan.1 hcan.2
        · rfl
      simp only [hnone]
      simp

/-- The segment is written as the delimiters `d` and its line demand. -/
def Fits (d : Delimiters) (fresh : Bool) (seg : Segment) (rest : List Char) : Prop :=
  seg.Spelled d ∧ seg.Placed fresh rest

/-- A segment is read off a text exactly if it is written there. -/
theorem next_eq_some_iff {d : Delimiters} {fresh : Bool} {s rest : List Char} {seg : Segment} :
    next d fresh s = .ok (some (seg, rest)) ↔ s = seg.source ++ rest ∧ seg.Fits d fresh rest := by
  constructor
  · intro h
    refine ⟨(append_of_next h).symm, ?_⟩
    rw [next] at h
    split at h
    · cases h
    · next before inside hcut =>
      split at h
      · cases h
      · next tag after hread =>
        obtain ⟨rfl, hclear⟩ := cut?_eq_some_iff.mp hcut
        obtain ⟨w, rfl, hw⟩ := Tag.read_eq_ok_iff.mp hread
        have hparts := Option.some.inj (Except.ok.inj h)
        rw [between_append] at hparts
        obtain ⟨rfl, rfl, hspelling, rfl, hplaced⟩ := ofParts_eq_iff.mp hparts
        exact ⟨⟨hclear, w, hspelling, hw⟩, hplaced⟩
  · intro h
    obtain ⟨rfl, ⟨hclear, inside, hspelling, hinside⟩, hplaced⟩ := h
    have hcut : cut? d.opener.toList (seg.source ++ rest) =
        some (seg.text ++ seg.indent, inside ++ (seg.trailing ++ rest)) := by
      refine cut?_eq_some_iff.mpr ⟨?_, hclear⟩
      simp only [source, hspelling, List.append_assoc]
    have hread : Tag.read d (inside ++ (seg.trailing ++ rest)) = .ok (seg.tag, seg.trailing ++ rest) :=
      Tag.read_eq_ok_iff.mpr ⟨inside, rfl, hinside⟩
    have hparts : ofParts fresh (seg.text ++ seg.indent) (d.opener.toList ++ inside) (seg.trailing ++ rest) seg.tag =
        (seg, rest) :=
      ofParts_eq_iff.mpr ⟨rfl, rfl, hspelling, rfl, hplaced⟩
    rw [next]
    simp only [hcut, hread, between_append, hparts]

theorem next_eq_none_iff {d : Delimiters} {fresh : Bool} {s : List Char} :
    next d fresh s = .ok none ↔ ¬ d.opener.toList <:+: s := by
  rw [← cut?_eq_none_iff, next]
  cases cut? d.opener.toList s with
  | none => simp
  | some parts =>
    obtain ⟨before, inside⟩ := parts
    simp only [reduceCtorEq, iff_false]
    cases Tag.read d inside with
    | error fault => simp
    | ok parts => simp

end Stencil.Segment
