import Stencil.Proofs.Seam

/-!
# How far reading comes

`Scan.Reaches` says which states the reading of a text comes by, and what is left of the text in each of them; they can be
computed one by one (`reaches_iff_behind?`). In each of them it is known what has been read (`Reaches.consumed`), and the reading
goes on from there as if it started there (`Reaches.run_eq`). A text that is no template is refused in one of them
(`exists_refuses`).
-/

namespace Stencil

open Text

/-- Behind a segment, something is left of its line only if the line goes on with the segment's last character. -/
theorem Segment.Fits.not_isPad_of_getLast? {d : Delimiters} {fresh : Bool} {seg : Segment} {rest : List Char}
    (h : seg.Fits d fresh rest) (hrest : rest ≠ []) : ∀ c ∈ seg.source.getLast?, isPad c = false := by
  intro c hc
  have hplaced := h.2
  by_cases halone : seg.alone = true
  · rw [placed_of_alone halone] at hplaced
    have hstarts : startsLine false seg.source = true := hplaced.startsLine hrest
    rw [startsLine, Option.mem_def.mp hc] at hstarts
    exact not_isPad_of_isLineEnd hstarts
  · rw [placed_of_not_alone halone] at hplaced
    obtain ⟨b, hb, hblank⟩ := h.1.spelling.getLast?
    rw [source, hplaced.2.1, List.append_nil, List.getLast?_append, hb, Option.some_or] at hc
    obtain rfl := Option.some.inj hc
    by_contra hpad
    rw [Bool.not_eq_false] at hpad
    rw [isBlank_of_isPad hpad] at hblank
    cases hblank

namespace Scan

variable {d : Delimiters} {source s rest : List Char} {scan scan' : Scan} {seg : Segment} {e : ParseError}

/-- Reading `source`, which starts with the delimiters `d`, comes to a state with so much left of the text. -/
inductive Reaches (d : Delimiters) (source : List Char) : Scan → List Char → Prop
  | start : Reaches d source (start d) source
  | past {scan scan' : Scan} {seg : Segment} {s rest : List Char} : Reaches d source scan s →
    Segment.next scan.delimiters scan.fresh s = .ok (some (seg, rest)) → scan.take seg rest = .ok scan' →
      Reaches d source scan' rest

/-- Reading goes no further, because of the tag that comes next or because no tag does. -/
inductive Refuses (scan : Scan) (s : List Char) (e : ParseError) : Prop
  | unreadable {before : List Char} : Segment.next scan.delimiters scan.fresh s = .error (before, e.fault) →
    e.position = scan.position.advanceAll before → Refuses scan s e
  | misplaced {seg : Segment} {rest : List Char} :
    Segment.next scan.delimiters scan.fresh s = .ok (some (seg, rest)) → scan.take seg rest = .error e → Refuses scan s e
  | unclosed : Segment.next scan.delimiters scan.fresh s = .ok none → scan.finish s = .error e → Refuses scan s e

/-- The state behind the next tag, and what is left of the text there. -/
def past? (scan : Scan) (s : List Char) : Option (Scan × List Char) :=
  match Segment.next scan.delimiters scan.fresh s with
  | .ok (some (seg, rest)) => (scan.take seg rest).toOption.map (·, rest)
  | _ => none

/-- The state behind so many tags of `source`, and what is left of the text there. -/
def behind? (d : Delimiters) (source : List Char) : Nat → Option (Scan × List Char)
  | 0 => some (start d, source)
  | n + 1 => (behind? d source n).bind fun (scan, s) => scan.past? s

theorem past?_eq_some_iff : scan.past? s = some (scan', rest) ↔
    ∃ seg, Segment.next scan.delimiters scan.fresh s = .ok (some (seg, rest)) ∧ scan.take seg rest = .ok scan' := by
  constructor
  · intro h
    rw [past?] at h
    split at h
    · next seg rest' hnext =>
      cases htake : scan.take seg rest' with
      | error e =>
        rw [htake] at h
        cases h
      | ok next =>
        rw [htake] at h
        obtain ⟨rfl, rfl⟩ := Prod.mk.inj (Option.some.inj h)
        exact ⟨seg, hnext, htake⟩
    · cases h
  · rintro ⟨seg, hnext, htake⟩
    rw [past?, hnext]
    simp only [htake]
    rfl

theorem reaches_iff_behind? : Reaches d source scan s ↔ ∃ n, behind? d source n = some (scan, s) := by
  constructor
  · intro h
    induction h with
    | start => exact ⟨0, rfl⟩
    | past _ hnext htake ih =>
      obtain ⟨n, hn⟩ := ih
      refine ⟨n + 1, ?_⟩
      rw [behind?, hn]
      exact past?_eq_some_iff.mpr ⟨_, hnext, htake⟩
  · rintro ⟨n, hn⟩
    induction n generalizing scan s with
    | zero =>
      obtain ⟨rfl, rfl⟩ := Prod.mk.inj (Option.some.inj hn)
      exact .start
    | succ n ih =>
      obtain ⟨⟨before, s'⟩, hbefore, hpast⟩ := Option.bind_eq_some_iff.mp hn
      obtain ⟨seg, hnext, htake⟩ := past?_eq_some_iff.mp hpast
      exact (ih hbefore).past hnext htake

theorem Reaches.run_eq (h : Reaches d source scan s) : (Scan.start d).run source = scan.run s := by
  induction h with
  | start => rfl
  | past _ hnext htake ih =>
    rw [ih, Descent.run_eq, hnext]
    simp only [htake]
    rfl

theorem Refuses.run_eq (h : Refuses scan s e) : scan.run s = .error e := by
  rw [Descent.run_eq]
  cases h with
  | unreadable hnext hposition =>
    rw [hnext]
    simp only [← hposition]
  | misplaced hnext htake =>
    rw [hnext]
    simp only [htake]
    rfl
  | unclosed hnext hfinish =>
    rw [hnext]
    exact hfinish

theorem Reaches.exists_refuses (h : Reaches d source scan s) (hrun : scan.run s = .error e) :
    ∃ scan' s', Reaches d source scan' s' ∧ Refuses scan' s' e := by
  induction hn : s.length using Nat.strongRecOn generalizing scan s with
  | ind n ih =>
    rw [Descent.run_eq] at hrun
    cases hnext : Segment.next scan.delimiters scan.fresh s with
    | error found =>
      obtain ⟨before, fault⟩ := found
      rw [hnext] at hrun
      obtain rfl := Except.error.inj hrun
      exact ⟨scan, s, h, .unreadable hnext rfl⟩
    | ok found =>
      cases found with
      | none =>
        rw [hnext] at hrun
        exact ⟨scan, s, h, .unclosed hnext hrun⟩
      | some parts =>
        obtain ⟨seg, rest⟩ := parts
        have hlt : rest.length < n := hn ▸ Segment.length_rest_lt hnext
        rw [hnext] at hrun
        simp only at hrun
        cases htake : scan.take seg rest with
        | error e' =>
          rw [htake] at hrun
          obtain rfl := Except.error.inj hrun
          exact ⟨scan, s, h, .misplaced hnext htake⟩
        | ok scan' =>
          rw [htake] at hrun
          exact ih rest.length hlt (h.past hnext htake) hrun rfl

/-- Reading comes to the end, or goes on past the next tag. -/
inductive Reads (scan : Scan) (s : List Char) (nodes : List Node) : Prop
  | done : Segment.next scan.delimiters scan.fresh s = .ok none → scan.finish s = .ok nodes → Reads scan s nodes
  | past {scan' : Scan} {seg : Segment} {rest : List Char} :
    Segment.next scan.delimiters scan.fresh s = .ok (some (seg, rest)) → scan.take seg rest = .ok scan' →
      scan'.run rest = .ok nodes → Reads scan s nodes

theorem run_eq_ok_iff {nodes : List Node} : scan.run s = .ok nodes ↔ Reads scan s nodes := by
  constructor
  · intro h
    rw [Descent.run_eq] at h
    cases hnext : Segment.next scan.delimiters scan.fresh s with
    | error parts =>
      rw [hnext] at h
      cases h
    | ok found =>
      cases found with
      | none =>
        rw [hnext] at h
        exact .done hnext h
      | some parts =>
        obtain ⟨seg, rest⟩ := parts
        rw [hnext] at h
        cases htake : scan.take seg rest with
        | error e =>
          simp only [htake] at h
          cases h
        | ok scan' =>
          simp only [htake] at h
          exact .past hnext htake h
  · intro h
    rw [Descent.run_eq]
    cases h with
    | done hnext hfinish =>
      rw [hnext]
      exact hfinish
    | past hnext htake hrun =>
      rw [hnext]
      simp only [htake]
      exact hrun

/-- What becomes of a state when a segment that `rest` follows is taken in. -/
inductive Takes (scan : Scan) (seg : Segment) (rest : List Char) : Scan → Prop
  | plain : seg.tag.isPlain = true → Takes scan seg rest { scan.pass seg with
      delimiters := seg.tag.inForce scan.delimiters
      nodes := (scan.pass seg).nodes ++ seg.nodes }
  | opening {inverted : Bool} {name : String} : seg.tag = .opening inverted name → scan.opened.length < maxOpenSections →
    Takes scan seg rest { scan.pass seg with
      opened := ⟨name, inverted, scan.position.advanceAll (seg.text ++ seg.indent), rest, scan.delimiters,
        (scan.pass seg).nodes⟩ :: scan.opened
      nodes := [] }
  | closing {innermost : OpenSection} {opened : List OpenSection} : seg.tag = .closing innermost.name →
    scan.opened = innermost :: opened → Takes scan seg rest { scan.pass seg with
      opened
      delimiters := innermost.delimiters
      nodes := innermost.outer ++ [innermost.close (scan.pass seg).nodes (seg.restAfterText rest)] }

theorem takes_of_take (h : scan.take seg rest = .ok scan') : Takes scan seg rest scan' := by
  by_cases hplain : seg.tag.isPlain = true
  · rw [Descent.take_of_plain scan rest hplain] at h
    obtain rfl := Except.ok.inj h
    exact .plain hplain
  rw [take] at h
  cases htag : seg.tag with
  | opening inverted name =>
    rw [htag] at h
    simp only at h
    split at h
    · cases h
    · next hlevel =>
      obtain rfl := Except.ok.inj h
      exact .opening htag (Nat.lt_of_not_le hlevel)
  | closing name =>
    rw [htag] at h
    simp only at h
    split at h
    · cases h
    · next innermost opened hopened =>
      split at h
      · next hname =>
        obtain rfl := Except.ok.inj h
        exact .closing (hname ▸ htag) hopened
      · cases h
  | interpolation | inclusion | comment | delimiters =>
    rw [htag] at hplain
    exact absurd rfl hplain

/-- Behind a segment, the place and the line are those behind its source. -/
theorem passed_of_take (h : scan.take seg rest = .ok scan') :
    scan'.position = scan.position.advanceAll seg.source ∧ scan'.fresh = Segment.startsLine scan.fresh seg.source := by
  cases takes_of_take h with
  | plain | opening | closing => exact ⟨rfl, rfl⟩

/-- `front` has been read, and `rest` is left. -/
structure Consumed (scan : Scan) (front rest : List Char) : Prop where
  position_eq : scan.position = Position.start.advanceAll front
  fresh_eq : scan.fresh = Segment.startsLine true front
  /-- Where padding is dropped behind a tag, the line is dropped to its end. -/
  settled : rest ≠ [] → ∀ c ∈ front.getLast?, isPad c = false

theorem Consumed.past {front : List Char} (h : Consumed scan front (seg.source ++ rest))
    (hfits : seg.Fits scan.delimiters scan.fresh rest) (htake : scan.take seg rest = .ok scan') :
    Consumed scan' (front ++ seg.source) rest := by
  obtain ⟨hposition, hfresh⟩ := passed_of_take htake
  refine ⟨?_, ?_, ?_⟩
  · rw [hposition, h.position_eq, Position.advanceAll_append]
  · rw [hfresh, h.fresh_eq, Segment.startsLine_append]
  · intro hrest c hc
    apply hfits.not_isPad_of_getLast? hrest
    obtain ⟨b, hb, -⟩ := hfits.1.exists_not_isPad
    rwa [List.getLast?_append_of_ne_nil _ (List.ne_nil_of_mem hb)] at hc

/-- In each state that a reading comes by, the text is what has been read and what is left. -/
theorem Reaches.consumed (h : Reaches d source scan rest) : ∃ front, source = front ++ rest ∧ Consumed scan front rest := by
  induction h with
  | start => exact ⟨[], rfl, rfl, rfl, fun _ => nofun⟩
  | @past scan scan' seg s rest _ hnext htake ih =>
    obtain ⟨front, rfl, hconsumed⟩ := ih
    obtain ⟨rfl, hfits⟩ := Segment.next_eq_some_iff.mp hnext
    exact ⟨front ++ seg.source, by rw [List.append_assoc], hconsumed.past hfits htake⟩

end Scan

/-- A text that is no template is refused in a state that its reading comes by. -/
theorem exists_refuses {d : Delimiters} {s : String} {e : ParseError} (h : parse d s = .error e) :
    ∃ scan rest, Scan.Reaches d s.toList scan rest ∧ scan.Refuses rest e :=
  Scan.Reaches.start.exists_refuses h

theorem parse_of_refuses {d : Delimiters} {s : String} {scan : Scan} {rest : List Char} {e : ParseError}
    (hreach : Scan.Reaches d s.toList scan rest) (h : scan.Refuses rest e) : parse d s = .error e := by
  rw [parse, hreach.run_eq, h.run_eq]

end Stencil
