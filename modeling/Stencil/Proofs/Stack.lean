import Stencil.Proofs.Reach

/-!
# Sections that are open

The stack of a state tells which opening tags that have been read have no closing tag yet. Between the opening tag of the
innermost open section and the state, every section that is opened is closed again (`Reaches.exists_opens`); so the stack
names sections of the text, and the places it gives are those of their tags.
-/

namespace Stencil.Scan

variable {d : Delimiters} {source s rest rest' : List Char} {scan scan' scan'' : Scan} {seg : Segment}
variable {segs more : List Segment} {o : OpenSection} {opened : List OpenSection}

/-- Reading goes on from a state by the segments `segs` to another state. -/
inductive Passes : Scan → List Char → List Segment → Scan → List Char → Prop
  | refl {scan : Scan} {s : List Char} : Passes scan s [] scan s
  | step {scan scan' scan'' : Scan} {seg : Segment} {segs : List Segment} {s rest rest' : List Char} :
    Segment.next scan.delimiters scan.fresh s = .ok (some (seg, rest)) → scan.take seg rest = .ok scan' →
      Passes scan' rest segs scan'' rest' → Passes scan s (seg :: segs) scan'' rest'

theorem Passes.trans (h : Passes scan s segs scan' rest) (h' : Passes scan' rest more scan'' rest') :
    Passes scan s (segs ++ more) scan'' rest' := by
  induction h with
  | refl => exact h'
  | step hnext htake _ ih => exact .step hnext htake (ih h')

theorem Passes.past (h : Passes scan s segs scan' rest)
    (hnext : Segment.next scan'.delimiters scan'.fresh rest = .ok (some (seg, rest')))
    (htake : scan'.take seg rest' = .ok scan'') : Passes scan s (segs ++ [seg]) scan'' rest' :=
  h.trans (.step hnext htake .refl)

theorem Passes.source_eq (h : Passes scan s segs scan' rest) : s = segs.flatMap Segment.source ++ rest := by
  induction h with
  | refl => rfl
  | step hnext _ _ ih => rw [← Segment.append_of_next hnext, ih, List.flatMap_cons, List.append_assoc]

theorem Reaches.passes (h : Reaches d source scan s) (hpasses : Passes scan s segs scan' rest) :
    Reaches d source scan' rest := by
  induction hpasses with
  | refl => exact h
  | step hnext htake _ ih => exact ih (h.past hnext htake)

/-- Of two states that the reading of a text comes by, it comes from one to the other. -/
theorem Reaches.passes_or_passes (h : Reaches d source scan s) (h' : Reaches d source scan' rest) :
    (∃ segs, Passes scan s segs scan' rest) ∨ ∃ segs, Passes scan' rest segs scan s := by
  induction h' with
  | start =>
    right
    induction h with
    | start => exact ⟨[], .refl⟩
    | past _ hnext htake ih =>
      obtain ⟨segs, hsegs⟩ := ih
      exact ⟨_, hsegs.past hnext htake⟩
  | past _ hnext htake ih =>
    rcases ih with ⟨segs, hsegs⟩ | ⟨segs, hsegs⟩
    · exact .inl ⟨_, hsegs.past hnext htake⟩
    · cases hsegs with
      | refl => exact .inl ⟨_, .step hnext htake .refl⟩
      | step hnext' htake' hsegs =>
        -- Both states go on from the same one, by the same segment.
        obtain ⟨rfl, rfl⟩ := Prod.mk.inj (Option.some.inj (Except.ok.inj (hnext.symm.trans hnext')))
        obtain rfl := Except.ok.inj (htake.symm.trans htake')
        exact .inr ⟨_, hsegs⟩

/-- Where reading goes no further, it has come by all states that it comes by. -/
theorem Refuses.passes {e : ParseError} (h : Refuses scan s e) (hreach : Reaches d source scan s)
    (hreach' : Reaches d source scan' rest) : ∃ segs, Passes scan' rest segs scan s := by
  rcases hreach.passes_or_passes hreach' with ⟨segs, hsegs⟩ | hpasses
  · cases hsegs with
    | refl => exact ⟨[], .refl⟩
    | step hnext htake _ =>
      exfalso
      cases h with
      | unreadable hnext' =>
        rw [hnext] at hnext'
        cases hnext'
      | misplaced hnext' htake' =>
        obtain ⟨rfl, rfl⟩ := Prod.mk.inj (Option.some.inj (Except.ok.inj (hnext.symm.trans hnext')))
        rw [htake] at htake'
        cases htake'
      | unclosed hnext' =>
        rw [hnext] at hnext'
        cases hnext'
  · exact hpasses

/-- Every section that is opened among the segments is closed among them, and every closing tag closes one of them. -/
inductive Balanced : List Segment → Prop
  | nil : Balanced []
  | plain {seg : Segment} {segs : List Segment} : seg.tag.isPlain = true → Balanced segs → Balanced (seg :: segs)
  | block {front back : Segment} {body segs : List Segment} {inverted : Bool} {name : String} :
    front.tag = .opening inverted name → Balanced body → back.tag = .closing name → Balanced segs →
      Balanced (front :: (body ++ back :: segs))

theorem Balanced.append (h : Balanced segs) (hmore : Balanced more) : Balanced (segs ++ more) := by
  induction h with
  | nil => exact hmore
  | plain hplain _ ih => exact .plain hplain ih
  | block hfront hbody hback _ _ ih =>
    rw [List.cons_append, List.append_assoc, List.cons_append]
    exact .block hfront hbody hback ih

/-- The next tag opens the section `o` and leads to the state `scan'`, with `rest` left. -/
structure Opens (scan : Scan) (s : List Char) (seg : Segment) (o : OpenSection) (scan' : Scan) (rest : List Char) : Prop where
  next_eq : Segment.next scan.delimiters scan.fresh s = .ok (some (seg, rest))
  take_eq : scan.take seg rest = .ok scan'
  tag_eq : seg.tag = .opening o.inverted o.name
  position_eq : o.position = scan.position.advanceAll (seg.text ++ seg.indent)
  opened_eq : scan'.opened = o :: scan.opened

/-- The opening tag of the innermost open section was read while the other ones were open, and only whole sections have been
read behind it; so were the opening tags of the other ones. -/
inductive Stacked (d : Delimiters) (source : List Char) : Scan → List Char → Prop
  | outermost {scan : Scan} {segs : List Segment} {rest : List Char} : Passes (start d) source segs scan rest →
    Balanced segs → scan.opened = [] → Stacked d source scan rest
  | within {o : OpenSection} {scan scan' scan'' : Scan} {seg : Segment} {segs : List Segment} {s rest rest' : List Char} :
    Stacked d source scan s → Opens scan s seg o scan' rest → Passes scan' rest segs scan'' rest' → Balanced segs →
      scan''.opened = o :: scan.opened → Stacked d source scan'' rest'

theorem Stacked.passes (h : Stacked d source scan s) (hpasses : Passes scan s segs scan' rest) (hsegs : Balanced segs)
    (hopened : scan'.opened = scan.opened) : Stacked d source scan' rest := by
  cases h with
  | outermost hbefore hbalanced hnone =>
    exact .outermost (hbefore.trans hpasses) (hbalanced.append hsegs) (hopened.trans hnone)
  | within hstacked hopens hbefore hbalanced hsome =>
    exact .within hstacked hopens (hbefore.trans hpasses) (hbalanced.append hsegs) (hopened.trans hsome)

theorem Stacked.reaches (h : Stacked d source scan s) : Reaches d source scan s := by
  induction h with
  | outermost hsegs _ _ => exact Reaches.start.passes hsegs
  | within _ hopens hsegs _ _ ih => exact (ih.past hopens.next_eq hopens.take_eq).passes hsegs

theorem Reaches.stacked (h : Reaches d source scan s) : Stacked d source scan s := by
  induction h with
  | start => exact .outermost .refl .nil rfl
  | @past scan scan' seg s rest _ hnext htake ih =>
    cases takes_of_take htake with
    | plain hplain => exact ih.passes (.step hnext htake .refl) (.plain hplain .nil) rfl
    | opening htag _ => exact .within ih ⟨hnext, htake, htag, rfl, rfl⟩ .refl .nil rfl
    | closing htag hopened =>
      cases ih with
      | outermost _ _ hnone =>
        rw [hnone] at hopened
        cases hopened
      | within hstacked hopens hsegs hbalanced hsome =>
        obtain ⟨rfl, rfl⟩ := List.cons.inj (hsome.symm.trans hopened)
        exact hstacked.passes (.step hopens.next_eq hopens.take_eq (hsegs.past hnext htake))
          (.block hopens.tag_eq hbalanced htag .nil) rfl

/-- The innermost open section was opened by a tag behind which only whole sections have been read. -/
theorem Reaches.exists_opens (h : Reaches d source scan' rest') (hopened : scan'.opened = o :: opened) :
    ∃ scan s seg scan₁ rest segs, Reaches d source scan s ∧ Opens scan s seg o scan₁ rest ∧
      Passes scan₁ rest segs scan' rest' ∧ Balanced segs ∧ scan.opened = opened := by
  cases h.stacked with
  | outermost _ _ hnone =>
    rw [hnone] at hopened
    cases hopened
  | within hstacked hopens hsegs hbalanced hsome =>
    obtain ⟨rfl, rfl⟩ := List.cons.inj (hsome.symm.trans hopened)
    exact ⟨_, _, _, _, _, _, hstacked.reaches, hopens, hsegs, hbalanced, rfl⟩

end Stencil.Scan
