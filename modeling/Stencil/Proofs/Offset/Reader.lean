import Mathlib.Data.List.Forall2
import Stencil.Proofs.Offset.Lap

/-!
# Reading a template by offsets

A third way to read a template: the reader keeps the offset it has come to, and for each open section the offset of its tag and
the offset where its body starts. Step by step it follows `Scan` (`Reader.Follows.step`), so it reads what `parse` reads, faults
and their places included (`Reader.Follows.exists_tags`), and whatever it cuts out of the source is there to be cut out
(`reads_within_bounds`).
-/

namespace Stencil.Offset

open Text

/-- A section whose closing tag is still to come. -/
structure Mark where
  name : String
  inverted : Bool
  /-- The offset of the opening tag. -/
  position : Nat
  /-- The offset of the body. -/
  bodyStart : Nat
  /-- The delimiters in force at the opening tag. -/
  delimiters : Delimiters
  /-- The nodes in front of the section, in the region that holds it. -/
  outer : List Node

/-- How far the reading of a template has come. -/
structure Reader where
  cursor : Nat
  /-- The delimiters in force. -/
  delimiters : Delimiters
  /-- The open sections, innermost first. -/
  opened : List Mark
  /-- The nodes read since the innermost section was opened. -/
  nodes : List Node

/-- The node of a section whose body ends at `stop`. -/
def Mark.close (source : String) (mark : Mark) (body : List Node) (stop : Nat) : Except Halt Node :=
  if mark.inverted then .ok (.inverted mark.name body)
  else do
    let raw ← stretch source.toList mark.bodyStart stop
    return .block mark.name body (String.ofList raw) mark.delimiters

namespace Reader

def start (d : Delimiters) : Reader := ⟨0, d, [], []⟩

def push (r : Reader) (node : Node) : Reader := { r with nodes := r.nodes ++ [node] }

/-- Takes in text and moves to another offset. -/
def pass (r : Reader) (text : List Char) (resume : Nat) : Reader :=
  { r with cursor := resume, nodes := Node.fuse r.nodes (Node.ofText text) }

/-- Takes in a tag when the text in front of it has been taken in. -/
def takeTag (source : String) (r : Reader) (lap : Lap) : Except Halt Reader :=
  match lap.tag with
  | .interpolation name escaped => .ok (r.push (.interpolation name escaped))
  | .comment => .ok (r.push .comment)
  | .inclusion name => do
    let indent ← (if lap.alone then stretch source.toList lap.textEnd lap.start else .ok [])
    return r.push (.inclusion name (String.ofList indent))
  | .delimiters next => .ok { r with delimiters := next }
  | .opening inverted name =>
    if maxOpenSections ≤ r.opened.length then located source lap.start (.error (.tooDeeplyNested name))
    else
      let opened := ⟨name, inverted, lap.start, lap.resume, r.delimiters, r.nodes⟩
      .ok { r with opened := opened :: r.opened, nodes := [] }
  | .closing name =>
    match r.opened with
    | [] => located source lap.start (.error (.unopenedClose name))
    | innermost :: opened =>
      if innermost.name = name then do
        let closed ← innermost.close source r.nodes lap.textEnd
        return { r with opened, delimiters := innermost.delimiters, nodes := innermost.outer ++ [closed] }
      else located source lap.start (.error (.mismatchedClose innermost.name name))

def take (source : String) (r : Reader) (lap : Lap) : Except Halt Reader := do
  let text ← stretch source.toList r.cursor lap.textEnd
  (r.pass text lap.resume).takeTag source lap

def finish (source : String) (r : Reader) : Except Halt (List Node) :=
  match r.opened with
  | [] => do
    let text ← stretch source.toList r.cursor source.utf8ByteSize
    return Node.fuse r.nodes (Node.ofText text)
  | innermost :: _ => located source innermost.position (.error (.unclosedSection innermost.name))

/-- Goes past the next tag, or comes to the end with what has been read. -/
def step (source : String) (r : Reader) : Except Halt (List Node ⊕ Reader) :=
  (nextLap source r.delimiters r.cursor).bind fun
    | none => (r.finish source).map .inl
    | some lap => (r.take source lap).map .inr

/-- Reads to the end, past so many tags at most. -/
def run (source : String) (n : Nat) (r : Reader) : Except Halt (List Node) :=
  match r.step source with
  | .error halt => .error halt
  | .ok (.inl nodes) => .ok nodes
  | .ok (.inr next) =>
    match n with
    | 0 => .error .exhausted
    | n + 1 => run source n next

/-- The reader comes by this state. -/
inductive Reached (source : String) (d : Delimiters) : Reader → Prop
  | start : Reached source d (start d)
  | step {r next : Reader} : Reached source d r → r.step source = .ok (.inr next) → Reached source d next

end Reader

/-- The offsets of a lap are in order, none of them falls inside a character, and reading goes on behind the tag. -/
structure Lap.InOrder (source : String) (cursor : Nat) (lap : Lap) : Prop where
  cursor_le : cursor ≤ lap.textEnd
  textEnd_le : lap.textEnd ≤ lap.start
  start_lt : lap.start < lap.stop
  stop_le : lap.stop ≤ lap.resume
  resume_le : lap.resume ≤ source.utf8ByteSize
  isValid : ∀ offset ∈ [cursor, lap.textEnd, lap.start, lap.stop, lap.resume], String.Pos.Raw.IsValid source ⟨offset⟩

/-- From this state, the reader finds everything where it looks for it, and gets on. -/
structure Reader.InBounds (source : String) (r : Reader) : Prop where
  step_ne : r.step source ≠ .error .misplaced
  cursor_lt : ∀ next, r.step source = .ok (.inr next) → r.cursor < next.cursor
  inOrder : ∀ lap, nextLap source r.delimiters r.cursor = .ok (some lap) → lap.InOrder source r.cursor
  /-- If the next tag closes a section, the body of the section starts in front of where it ends. -/
  bodyStart_le : ∀ lap, nextLap source r.delimiters r.cursor = .ok (some lap) →
    ∀ mark ∈ r.opened, String.Pos.Raw.IsValid source ⟨mark.bodyStart⟩ ∧ mark.bodyStart ≤ lap.textEnd

/-- The mark of an open section, where `front` has been read and `s` is left. -/
structure Mark.Stands (source : String) (front s : List Char) (mark : Mark) (o : OpenSection) : Prop where
  name_eq : mark.name = o.name
  inverted_eq : mark.inverted = o.inverted
  position_eq : Position.ofOffset source mark.position = o.position
  body : ∃ before inner, front = before ++ inner ∧ o.start = inner ++ s ∧ mark.bodyStart = byteSize before
  delimiters_eq : mark.delimiters = o.delimiters
  outer_eq : mark.outer = o.outer

/-- The reader by offsets has come as far as `scan`: `front` has been read, and `s` is left. -/
structure Reader.Follows (source : String) (r : Reader) (scan : Scan) (front s : List Char) : Prop where
  source_eq : source.toList = front ++ s
  position_eq : scan.position = Position.start.advanceAll front
  fresh_eq : scan.fresh = Segment.startsLine true front
  cursor_eq : r.cursor = byteSize front
  delimiters_eq : r.delimiters = scan.delimiters
  opened : List.Forall₂ (Mark.Stands source front s) r.opened scan.opened
  nodes_eq : r.nodes = scan.nodes

variable {source : String} {d : Delimiters} {s rest front : List Char}

section Mark

variable {mark : Mark} {o : OpenSection} {text : List Char}

theorem Mark.Stands.past (h : mark.Stands source front (text ++ s) o) : mark.Stands source (front ++ text) s o := by
  obtain ⟨before, inner, hfront, hstart, hbody⟩ := h.body
  refine { h with body := ⟨before, inner ++ text, ?_, ?_, hbody⟩ }
  · rw [hfront, List.append_assoc]
  · rw [hstart, List.append_assoc]

theorem Mark.Stands.bodyStart_le (h : mark.Stands source front s o) (hsource : source.toList = front ++ s) :
    String.Pos.Raw.IsValid source ⟨mark.bodyStart⟩ ∧ mark.bodyStart ≤ byteSize front := by
  obtain ⟨before, inner, hfront, -, hbody⟩ := h.body
  rw [hbody, isValid_iff]
  refine ⟨⟨before, inner ++ s, ?_, rfl⟩, ?_⟩
  · rw [hsource, hfront, List.append_assoc]
  · rw [hfront, byteSize_append]
    omega

/-- A section ends up as the same node. -/
theorem Mark.Stands.close_eq (h : mark.Stands source front (text ++ s) o) (hsource : source.toList = front ++ (text ++ s))
    (body : List Node) : mark.close source body (byteSize (front ++ text)) = .ok (o.close body s) := by
  obtain ⟨before, inner, hfront, hstart, hbody⟩ := h.body
  have hraw : stretch source.toList mark.bodyStart (byteSize (front ++ text)) = .ok (inner ++ text) := by
    rw [hbody, hfront, List.append_assoc]
    exact stretch_eq s (by rw [hsource, hfront]; simp)
  rw [close, OpenSection.close, h.inverted_eq, h.name_eq, h.delimiters_eq, hraw, hstart, ← List.append_assoc, between_append]
  split <;> rfl

end Mark

/-- A tag takes up two bytes at least, one for each delimiter. -/
theorem two_le_byteSize_of_spelled {seg : Segment} (h : seg.Spelled d) : 2 ≤ byteSize seg.spelling := by
  obtain ⟨blank, content, hspelling, -⟩ := h.spelling
  have hopener : byteSize d.opener.toList ≠ 0 := mt byteSize_eq_zero_iff.mp d.opener_toList_ne_nil
  have hcloser : byteSize d.closer.toList ≠ 0 := mt byteSize_eq_zero_iff.mp d.closer_toList_ne_nil
  rw [hspelling]
  simp only [byteSize_append]
  omega

namespace Reader

variable {r : Reader} {scan : Scan} {seg : Segment}

theorem Follows.start (source : String) (d : Delimiters) :
    (start d).Follows source (Scan.start d) [] source.toList :=
  ⟨rfl, rfl, rfl, rfl, rfl, .nil, rfl⟩

theorem Follows.push (h : r.Follows source scan front s) (node : Node) :
    (r.push node).Follows source (scan.push node) front s := by
  refine { h with nodes_eq := ?_ }
  rw [Reader.push, Scan.push, h.nodes_eq]

theorem Follows.pass (h : r.Follows source scan front (seg.source ++ rest)) :
    (r.pass seg.text (byteSize front + byteSize seg.source)).Follows source (scan.pass seg) (front ++ seg.source) rest where
  source_eq := by rw [h.source_eq, List.append_assoc]
  position_eq := by rw [Scan.pass, h.position_eq, Position.advanceAll_append]
  fresh_eq := by rw [Scan.pass, h.fresh_eq, Segment.startsLine_append]
  cursor_eq := (byteSize_append front seg.source).symm
  delimiters_eq := h.delimiters_eq
  opened := h.opened.imp fun _ _ hmark => hmark.past
  nodes_eq := by rw [Reader.pass, Scan.pass, h.nodes_eq]

/-- The text in front of a tag. -/
theorem Follows.text_eq (h : r.Follows source scan front (seg.source ++ rest)) :
    stretch source.toList r.cursor (Lap.ofSegment (byteSize front) seg).textEnd = .ok seg.text := by
  rw [h.cursor_eq, Lap.ofSegment, ← byteSize_append]
  exact stretch_eq (seg.restAfterText rest) (by rw [h.source_eq, Segment.source_append])

/-- The padding in front of a tag that is alone on its line, and nothing in front of one that is not. -/
theorem Follows.indent_eq {d : Delimiters} {fresh : Bool} (h : r.Follows source scan front (seg.source ++ rest))
    (hfits : seg.Fits d fresh rest) :
    (if (Lap.ofSegment (byteSize front) seg).alone then
      stretch source.toList (Lap.ofSegment (byteSize front) seg).textEnd (Lap.ofSegment (byteSize front) seg).start
    else .ok []) = .ok seg.indent := by
  change (if seg.alone = true then _ else _) = _
  by_cases halone : seg.alone = true
  · rw [if_pos halone, Lap.ofSegment, ← byteSize_append, ← byteSize_append, ← List.append_assoc]
    refine stretch_eq (seg.spelling ++ seg.trailing ++ rest) ?_
    rw [h.source_eq, Segment.source]
    simp
  · have hplaced := hfits.2
    rw [Segment.placed_of_not_alone halone] at hplaced
    rw [if_neg halone, hplaced.1]

theorem Follows.ofOffset_start (h : r.Follows source scan front (seg.source ++ rest)) :
    Position.ofOffset source (Lap.ofSegment (byteSize front) seg).start =
      scan.position.advanceAll (seg.text ++ seg.indent) := by
  have hfront : source.toList = front ++ (seg.text ++ seg.indent) ++ (seg.spelling ++ seg.trailing ++ rest) := by
    rw [h.source_eq, Segment.source]
    simp
  rw [h.position_eq, ← Position.advanceAll_append, ← Position.ofOffset_byteSize hfront, byteSize_append]
  rfl

/-- A fault of a tag is found where the tag starts. -/
theorem Follows.located_eq {α : Type} (h : r.Follows source scan front (seg.source ++ rest)) (fault : ParseFault) :
    (located source (Lap.ofSegment (byteSize front) seg).start (.error fault) : Except Halt α) =
      .error (.fault ⟨fault, scan.position.advanceAll (seg.text ++ seg.indent)⟩) := by
  rw [← h.ofOffset_start]
  rfl

/-- The reader by offsets takes in the tag that `Scan.take` takes in, or finds the same fault. -/
theorem Follows.take (h : r.Follows source scan front (seg.source ++ rest)) {d : Delimiters} {fresh : Bool}
    (hfits : seg.Fits d fresh rest) :
    (∃ e, scan.take seg rest = .error e ∧ r.take source (.ofSegment (byteSize front) seg) = .error (.fault e)) ∨
      ∃ scan' r', scan.take seg rest = .ok scan' ∧ r.take source (.ofSegment (byteSize front) seg) = .ok r' ∧
        r'.Follows source scan' (front ++ seg.source) rest := by
  have hpass := h.pass
  rw [Reader.take, h.text_eq, ok_bind, takeTag, Scan.take]
  have htag : (Lap.ofSegment (byteSize front) seg).tag = seg.tag := rfl
  rw [htag]
  cases seg.tag with
  | interpolation name escaped => exact .inr ⟨_, _, rfl, rfl, hpass.push _⟩
  | comment => exact .inr ⟨_, _, rfl, rfl, hpass.push _⟩
  | inclusion name =>
    simp only [h.indent_eq hfits, ok_bind]
    exact .inr ⟨_, _, rfl, rfl, hpass.push _⟩
  | delimiters next => exact .inr ⟨_, _, rfl, rfl, { hpass with delimiters_eq := rfl }⟩
  | opening inverted name =>
    have hlength : r.opened.length = scan.opened.length := h.opened.length_eq
    by_cases hlevel : maxOpenSections ≤ scan.opened.length
    · exact .inl ⟨_, if_pos hlevel, (if_pos (hlength ▸ hlevel)).trans (h.located_eq _)⟩
    · refine .inr ⟨_, _, if_neg hlevel, if_neg (hlength ▸ hlevel), ?_⟩
      refine { hpass with opened := .cons ?_ hpass.opened, nodes_eq := rfl }
      exact ⟨rfl, rfl, h.ofOffset_start, ⟨front ++ seg.source, [], (List.append_nil _).symm, rfl, hpass.cursor_eq⟩,
        hpass.delimiters_eq, hpass.nodes_eq⟩
  | closing name =>
    have hopened := h.opened
    cases hscan : scan.opened with
    | nil =>
      rw [hscan, List.forall₂_nil_right_iff] at hopened
      simp only [Reader.pass, Scan.pass, hopened, hscan]
      exact .inl ⟨_, rfl, h.located_eq _⟩
    | cons innermost opened =>
      rw [hscan, List.forall₂_cons_right_iff] at hopened
      obtain ⟨mark, marks, hmark, hmarks, hr⟩ := hopened
      simp only [Reader.pass, Scan.pass, hr, hscan, hmark.name_eq]
      by_cases hname : innermost.name = name
      · -- The text in front of the closing tag still belongs to the body.
        have hbehind : seg.source ++ rest = seg.text ++ seg.restAfterText rest := Segment.source_append seg rest
        have hclose : mark.close source (Node.fuse r.nodes (Node.ofText seg.text)) (Lap.ofSegment (byteSize front) seg).textEnd =
            .ok (innermost.close (Node.fuse scan.nodes (Node.ofText seg.text)) (seg.restAfterText rest)) := by
          rw [← h.nodes_eq, Lap.ofSegment, ← byteSize_append]
          exact (hbehind ▸ hmark).close_eq (hbehind ▸ h.source_eq) _
        rw [if_pos hname, if_pos hname, hclose, ok_bind]
        refine .inr ⟨_, _, rfl, rfl, ?_⟩
        exact { hpass with
          delimiters_eq := hmark.delimiters_eq
          opened := hmarks.imp fun _ _ hmark => hmark.past
          nodes_eq := by rw [hmark.outer_eq] }
      · rw [if_neg hname, if_neg hname]
        exact .inl ⟨_, rfl, h.located_eq _⟩

theorem Follows.finish_eq (h : r.Follows source scan front s) :
    r.finish source = (scan.finish s).mapError .fault := by
  have hopened := h.opened
  rw [finish, Scan.finish]
  cases hscan : scan.opened with
  | nil =>
    rw [hscan, List.forall₂_nil_right_iff] at hopened
    simp only [hopened, h.cursor_eq, stretch_end h.source_eq, ok_bind, h.nodes_eq]
    rfl
  | cons innermost opened =>
    rw [hscan, List.forall₂_cons_right_iff] at hopened
    obtain ⟨mark, marks, hmark, -, hr⟩ := hopened
    simp only [hr, located, hmark.position_eq, hmark.name_eq]
    rfl

/-- The next tag is where `Segment.next` finds it. -/
theorem Follows.nextLap_eq (h : r.Follows source scan front s) :
    nextLap source r.delimiters r.cursor =
      match Segment.next scan.delimiters scan.fresh s with
      | .error (before, fault) => .error (.fault ⟨fault, scan.position.advanceAll before⟩)
      | .ok none => .ok none
      | .ok (some (seg, _)) => .ok (some (.ofSegment (byteSize front) seg)) := by
  rw [h.cursor_eq, h.delimiters_eq, h.fresh_eq, h.position_eq]
  exact Offset.nextLap_eq h.source_eq scan.delimiters

/-- A step does what `scan` does with the text that is left: it comes to the same end or to the same fault, or it goes on, with
less left of the text. -/
inductive Steps (source : String) (scan : Scan) (s : List Char) : Except Halt (List Node ⊕ Reader) → Prop
  | halts {e : ParseError} : scan.run s = .error e → Steps source scan s (.error (.fault e))
  | ends {nodes : List Node} : scan.run s = .ok nodes → Steps source scan s (.ok (.inl nodes))
  | past {scan' : Scan} {front rest : List Char} {next : Reader} : scan.run s = scan'.run rest →
    next.Follows source scan' front rest → byteSize rest + 2 ≤ byteSize s → Steps source scan s (.ok (.inr next))

theorem Follows.step (h : r.Follows source scan front s) : Steps source scan s (r.step source) := by
  have hrun := Descent.run_eq scan s
  rw [Reader.step, h.nextLap_eq]
  cases hnext : Segment.next scan.delimiters scan.fresh s with
  | error parts =>
    rw [hnext] at hrun
    exact .halts hrun
  | ok found =>
    rw [hnext] at hrun
    cases found with
    | none =>
      change Steps source scan s ((r.finish source).map .inl)
      change scan.run s = scan.finish s at hrun
      rw [h.finish_eq, ← hrun]
      cases hfinish : scan.run s with
      | error e => exact .halts hfinish
      | ok nodes => exact .ends hfinish
    | some parts =>
      obtain ⟨seg, rest⟩ := parts
      obtain ⟨rfl, hfits⟩ := Segment.next_eq_some_iff.mp hnext
      change Steps source scan _ ((r.take source (.ofSegment (byteSize front) seg)).map .inr)
      change scan.run _ = (scan.take seg rest).bind (·.run rest) at hrun
      obtain ⟨e, htake, hreader⟩ | ⟨scan', r', htake, hreader, hfollows⟩ := h.take hfits
      · rw [hreader]
        rw [htake] at hrun
        exact .halts hrun
      · rw [hreader]
        rw [htake] at hrun
        refine .past hrun hfollows ?_
        have hspelling := two_le_byteSize_of_spelled hfits.1
        rw [Segment.source]
        simp only [byteSize_append]
        omega

/-- Reading by offsets is reading the text, as soon as so many tags are allowed as there are. Each of them takes up two bytes
at least. -/
theorem Follows.exists_tags (h : r.Follows source scan front s) : ∃ tags, 2 * tags ≤ byteSize s ∧
    ∀ n, r.run source n = if tags ≤ n then (scan.run s).mapError .fault else .error .exhausted := by
  induction hsize : byteSize s using Nat.strongRecOn generalizing r scan front s with
  | ind size ih =>
    subst hsize
    have hstep := h.step
    have hrun (n : Nat) := run.eq_def source n r
    generalize r.step source = result at hstep hrun
    cases hstep with
    | halts hscan | ends hscan =>
      -- The first round is the last one.
      refine ⟨0, Nat.zero_le _, fun n => ?_⟩
      rw [hrun, hscan, if_pos (Nat.zero_le n)]
      rfl
    | past hscan hnext hless =>
      obtain ⟨tags, htags, hlater⟩ := ih _ (by omega) hnext rfl
      refine ⟨tags + 1, by omega, fun n => ?_⟩
      rw [hrun, hscan]
      cases n with
      | zero => exact (if_neg (Nat.not_succ_le_zero tags)).symm
      | succ n => simp only [hlater, Nat.succ_le_succ_iff]

theorem Reached.follows (h : Reached source d r) : ∃ scan front s, r.Follows source scan front s := by
  induction h with
  | start => exact ⟨Scan.start d, [], source.toList, .start source d⟩
  | step _ hstep ih =>
    obtain ⟨scan, front, s, hfollows⟩ := ih
    have hsteps := hfollows.step
    rw [hstep] at hsteps
    cases hsteps with
    | past _ hnext _ => exact ⟨_, _, _, hnext⟩

theorem Follows.isValid (h : r.Follows source scan front s) (t t' : List Char) (hs : s = t ++ t') :
    String.Pos.Raw.IsValid source ⟨byteSize front + byteSize t⟩ := by
  rw [isValid_iff]
  exact ⟨front ++ t, t', by rw [h.source_eq, hs, List.append_assoc], byteSize_append front t⟩

theorem Follows.inOrder (h : r.Follows source scan front (seg.source ++ rest)) {d : Delimiters} (hspelled : seg.Spelled d) :
    (Lap.ofSegment (byteSize front) seg).InOrder source r.cursor := by
  have hsize := size_eq h.source_eq
  have hspelling := two_le_byteSize_of_spelled hspelled
  have hsource : seg.source = seg.text ++ seg.indent ++ seg.spelling ++ seg.trailing := rfl
  rw [h.cursor_eq]
  constructor
  case isValid =>
    intro offset hoffset
    simp only [List.mem_cons, List.not_mem_nil, or_false] at hoffset
    rcases hoffset with rfl | rfl | rfl | rfl | rfl
    · exact h.isValid [] _ rfl
    · exact h.isValid seg.text _ (Segment.source_append seg rest)
    · exact h.isValid (seg.text ++ seg.indent) (seg.spelling ++ seg.trailing ++ rest) (by simp [hsource])
    · exact h.isValid (seg.text ++ seg.indent ++ seg.spelling) (seg.trailing ++ rest) (by simp [hsource])
    · exact h.isValid seg.source rest rfl
  all_goals
    simp only [Lap.ofSegment, hsize, hsource, byteSize_append]
    omega

/-- The next tag, if there is one, ends a segment. -/
theorem Follows.exists_segment {lap : Lap} (h : r.Follows source scan front s)
    (hlap : nextLap source r.delimiters r.cursor = .ok (some lap)) :
    ∃ seg rest, s = seg.source ++ rest ∧ seg.Fits scan.delimiters scan.fresh rest ∧ lap = .ofSegment (byteSize front) seg := by
  rw [h.nextLap_eq] at hlap
  cases hnext : Segment.next scan.delimiters scan.fresh s with
  | error parts =>
    rw [hnext] at hlap
    cases hlap
  | ok found =>
    rw [hnext] at hlap
    cases found with
    | none => cases hlap
    | some parts =>
      obtain ⟨seg, rest⟩ := parts
      obtain ⟨hs, hfits⟩ := Segment.next_eq_some_iff.mp hnext
      exact ⟨seg, rest, hs, hfits, (Option.some.inj (Except.ok.inj hlap)).symm⟩

/-- A reader that has come as far as the reading of the text is in bounds. -/
theorem Follows.inBounds (h : r.Follows source scan front s) : r.InBounds source where
  step_ne hstep := by
    have hsteps := h.step
    rw [hstep] at hsteps
    cases hsteps
  cursor_lt next hstep := by
    have hsteps := h.step
    rw [hstep] at hsteps
    cases hsteps with
    | @past scan' front' rest _ _ hnext hless =>
      have hsize := size_eq h.source_eq
      have hsize' := size_eq hnext.source_eq
      rw [h.cursor_eq, hnext.cursor_eq]
      omega
  inOrder lap hlap := by
    obtain ⟨seg, rest, rfl, hfits, rfl⟩ := h.exists_segment hlap
    exact h.inOrder hfits.1
  bodyStart_le lap hlap mark hmark := by
    obtain ⟨seg, rest, rfl, -, rfl⟩ := h.exists_segment hlap
    have hmarks := (List.forall₂_and_left _ _).mp (h.opened.imp fun _ _ hmark => ⟨hmark.bodyStart_le h.source_eq, hmark⟩)
    obtain ⟨hvalid, hle⟩ := hmarks.1 mark hmark
    exact ⟨hvalid, hle.trans (Nat.le_add_right _ _)⟩

end Reader

/-- In no state it comes by does the reader look for something that is not there, and it reads what `parse` reads. It goes past
a number of tags: with fewer allowed it stops short, and with as many or more it comes to its result. There are at most as
many tags as bytes, so none in a template without bytes; in any other, the round that finds no further tag can be counted as
well. -/
theorem reads_within_bounds (d : Delimiters) (source : String) :
    (∀ r, Reader.Reached source d r → r.InBounds source) ∧
      ∃ tags, (∀ n, (Reader.start d).run source n =
          if tags ≤ n then (parse d source).mapError .fault else .error .exhausted) ∧
        tags ≤ source.utf8ByteSize ∧ (source = "" → tags = 0) ∧ (source ≠ "" → tags + 1 ≤ source.utf8ByteSize) := by
  constructor
  · intro r hreached
    obtain ⟨scan, front, s, hfollows⟩ := hreached.follows
    exact hfollows.inBounds
  · obtain ⟨tags, htags, hrun⟩ := (Reader.Follows.start source d).exists_tags
    rw [byteSize_toList] at htags
    refine ⟨tags, hrun, by omega, ?_, ?_⟩
    · rintro rfl
      have hnone : "".utf8ByteSize = 0 := rfl
      omega
    · intro hne
      have hbytes : source.utf8ByteSize ≠ 0 := fun h => hne (String.utf8ByteSize_eq_zero_iff.mp h)
      omega

/-- Two tags are gone past, of which the second closes the section that the first one opens. -/
theorem reads_within_bounds_of_section : ∃ source r, source = "ä\n\x7b\x7b#é\x7d\x7d\nb\n  \x7b\x7b/é\x7d\x7d" ∧
    Reader.Reached source .standard r ∧ r.InBounds source ∧
      nextLap source r.delimiters r.cursor = .ok (some ⟨13, 15, 22, 22, .closing "é", true⟩) ∧
        source ≠ "" ∧ (Reader.start .standard).run source 1 = .error .exhausted ∧
          (parse .standard source).mapError Halt.fault =
            .ok [.literal "ä\n", .block "é" [.literal "b\n"] "b\n" .standard] := by
  have hreached : Reader.Reached "ä\n\x7b\x7b#é\x7d\x7d\nb\n  \x7b\x7b/é\x7d\x7d" .standard
      ⟨11, .standard, [⟨"é", false, 3, 11, .standard, [.literal "ä\n"]⟩], []⟩ := .step .start rfl
  have hne : "ä\n\x7b\x7b#é\x7d\x7d\nb\n  \x7b\x7b/é\x7d\x7d" ≠ "" := by decide
  obtain ⟨hbounds, tags, hrun, -, -, hrounds⟩ :=
    reads_within_bounds .standard "ä\n\x7b\x7b#é\x7d\x7d\nb\n  \x7b\x7b/é\x7d\x7d"
  have htags : tags ≤ 21 := Nat.le_of_succ_le_succ (hrounds hne)
  have hlast := hrun 21
  rw [if_pos htags] at hlast
  refine ⟨_, _, rfl, hreached, hbounds _ hreached, rfl, hne, rfl, ?_⟩
  rw [← hlast]
  rfl

end Stencil.Offset
