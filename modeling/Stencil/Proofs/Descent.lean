import Stencil.Parse
import Stencil.Proofs.Node

/-!
# Recursive descent

A second way to read a template, without a stack: at an opening tag the reader calls itself for the body of the section, one
level further down and with the name that the closing tag must have, and goes on behind the section with the delimiters it
had before. It reads what `parse` reads, faults and their places included: the stack holds what the calls under way still have
to do (`run_eq_read`).
-/

namespace Stencil

open Text

def Tag.inForce (d : Delimiters) : Tag → Delimiters
  | .delimiters next => next
  | _ => d

/-- The tag is no part of a section. -/
def Tag.isPlain : Tag → Bool
  | .opening .. | .closing _ => false
  | _ => true

/-- The node of a tag that is no part of a section. -/
def Segment.nodes (seg : Segment) : List Node :=
  match seg.tag with
  | .interpolation name escaped => [.interpolation name escaped]
  | .inclusion name => [.inclusion name (String.ofList seg.indent)]
  | .comment => [.comment]
  | _ => []

namespace Descent

structure Expected where
  name : String
  /-- The place of the opening tag. -/
  position : Position

structure Place where
  position : Position
  /-- A line starts here. -/
  fresh : Bool
  /-- What is left of the template. -/
  rest : List Char

/-- What has been read of a region: the body of a section, or the whole template. -/
structure Region where
  nodes : List Node
  /-- What is left of the template where the text of the region ends. -/
  stop : List Char
  /-- The place behind the closing tag. -/
  after : Place

/-- A region with at most `n` characters left behind it. -/
def Bounded (n : Nat) : Type := {r : Region // r.after.rest.length ≤ n}

def Bounded.weaken {m n : Nat} (h : m ≤ n) (r : Bounded m) : Bounded n := ⟨r.val, Nat.le_trans r.property h⟩

def Place.start (s : List Char) : Place := ⟨.start, true, s⟩

/-- The place behind the text `s`, with `rest` left. -/
def Place.past (p : Place) (s rest : List Char) : Place :=
  ⟨p.position.advanceAll s, Segment.startsLine p.fresh s, rest⟩

def Place.ofTag (p : Place) (seg : Segment) : Position := p.position.advanceAll (seg.text ++ seg.indent)

/-- Reads the rest of a region that has `nodes` so far, `level` sections deep. -/
def region (expected? : Option Expected) (level : Nat) (d : Delimiters) (nodes : List Node) (p : Place) :
    Except ParseError (Bounded p.rest.length) :=
  match h : Segment.next d p.fresh p.rest with
  | .error (before, fault) => .error ⟨fault, p.position.advanceAll before⟩
  | .ok none =>
    match expected? with
    | none => .ok ⟨⟨Node.fuse nodes (Node.ofText p.rest), [], p⟩, Nat.le_refl _⟩
    | some expected => .error ⟨.unclosedSection expected.name, expected.position⟩
  | .ok (some (seg, rest)) =>
    have hlt := Segment.length_rest_lt h
    let nodes := Node.fuse nodes (Node.ofText seg.text)
    let after := p.past seg.source rest
    match seg.tag with
    | .opening inverted name =>
      if maxOpenSections ≤ level then .error ⟨.tooDeeplyNested name, p.ofTag seg⟩
      else
        match region (some ⟨name, p.ofTag seg⟩) (level + 1) d [] after with
        | .error e => .error e
        | .ok ⟨body, hbody⟩ =>
          have hle := Nat.le_trans hbody (Nat.le_of_lt hlt)
          (region expected? level d (nodes ++ [Node.ofSection inverted name body.nodes (between rest body.stop) d]) body.after).map
            (·.weaken hle)
    | .closing name =>
      match expected? with
      | none => .error ⟨.unopenedClose name, p.ofTag seg⟩
      | some expected =>
        if expected.name = name then .ok ⟨⟨nodes, seg.restAfterText rest, after⟩, Nat.le_of_lt hlt⟩
        else .error ⟨.mismatchedClose expected.name name, p.ofTag seg⟩
    | tag => (region expected? level (tag.inForce d) (nodes ++ seg.nodes) after).map (·.weaken (Nat.le_of_lt hlt))
termination_by p.rest.length
decreasing_by
  · exact hlt
  · exact Nat.lt_of_le_of_lt hbody hlt
  · exact hlt

def read (expected? : Option Expected) (level : Nat) (d : Delimiters) (nodes : List Node) (p : Place) :
    Except ParseError Region :=
  (region expected? level d nodes p).map Subtype.val

def parse (d : Delimiters) (source : String) : Except ParseError (List Node) :=
  (read none 0 d [] (.start source.toList)).map Region.nodes

section Equations

variable {expected? : Option Expected} {level : Nat} {d : Delimiters} {nodes : List Node} {p : Place}
variable {seg : Segment} {rest : List Char}

theorem length_after_le {r : Region} (h : read expected? level d nodes p = .ok r) :
    r.after.rest.length ≤ p.rest.length := by
  rw [read] at h
  cases hregion : region expected? level d nodes p with
  | error e =>
    rw [hregion] at h
    cases h
  | ok bounded =>
    rw [hregion] at h
    rw [← Except.ok.inj h]
    exact bounded.property

private theorem map_weaken {m n : Nat} (h : m ≤ n) (x : Except ParseError (Bounded m)) :
    (x.map (·.weaken h)).map Subtype.val = x.map Subtype.val := by
  cases x <;> rfl

private theorem read_eq :
    read expected? level d nodes p = match Segment.next d p.fresh p.rest with
      | .error (before, fault) => .error ⟨fault, p.position.advanceAll before⟩
      | .ok none =>
        match expected? with
        | none => .ok ⟨Node.fuse nodes (Node.ofText p.rest), [], p⟩
        | some expected => .error ⟨.unclosedSection expected.name, expected.position⟩
      | .ok (some (seg, rest)) =>
        match seg.tag with
        | .opening inverted name =>
          if maxOpenSections ≤ level then .error ⟨.tooDeeplyNested name, p.ofTag seg⟩
          else (read (some ⟨name, p.ofTag seg⟩) (level + 1) d [] (p.past seg.source rest)).bind fun body =>
            read expected? level d (Node.fuse nodes (Node.ofText seg.text) ++
              [Node.ofSection inverted name body.nodes (between rest body.stop) d]) body.after
        | .closing name =>
          match expected? with
          | none => .error ⟨.unopenedClose name, p.ofTag seg⟩
          | some expected =>
            if expected.name = name then
              .ok ⟨Node.fuse nodes (Node.ofText seg.text), seg.restAfterText rest, p.past seg.source rest⟩
            else .error ⟨.mismatchedClose expected.name name, p.ofTag seg⟩
        | tag => read expected? level (tag.inForce d) (Node.fuse nodes (Node.ofText seg.text) ++ seg.nodes)
            (p.past seg.source rest) := by
  unfold read
  rw [region.eq_def]
  split
  · next hnext => simp only [hnext]; rfl
  · next hnext =>
    simp only [hnext]
    cases expected? <;> rfl
  · next seg rest hnext =>
    simp only [hnext]
    cases seg.tag with
    | opening inverted name =>
      simp only
      split
      · rfl
      · cases region (some ⟨name, p.ofTag seg⟩) (level + 1) d [] (p.past seg.source rest) with
        | error e => rfl
        | ok body => exact map_weaken _ _
    | closing name =>
      cases expected? with
      | none => rfl
      | some expected =>
        simp only
        split <;> rfl
    | _ => exact map_weaken _ _

theorem read_of_error {before : List Char} {fault : ParseFault}
    (h : Segment.next d p.fresh p.rest = .error (before, fault)) :
    read expected? level d nodes p = .error ⟨fault, p.position.advanceAll before⟩ := by
  rw [read_eq, h]

theorem read_of_none (h : Segment.next d p.fresh p.rest = .ok none) :
    read expected? level d nodes p =
      match expected? with
      | none => .ok ⟨Node.fuse nodes (Node.ofText p.rest), [], p⟩
      | some expected => .error ⟨.unclosedSection expected.name, expected.position⟩ := by
  rw [read_eq, h]

theorem read_of_opening {inverted : Bool} {name : String}
    (h : Segment.next d p.fresh p.rest = .ok (some (seg, rest))) (htag : seg.tag = .opening inverted name) :
    read expected? level d nodes p =
      if maxOpenSections ≤ level then .error ⟨.tooDeeplyNested name, p.ofTag seg⟩
      else (read (some ⟨name, p.ofTag seg⟩) (level + 1) d [] (p.past seg.source rest)).bind fun body =>
        read expected? level d (Node.fuse nodes (Node.ofText seg.text) ++
          [Node.ofSection inverted name body.nodes (between rest body.stop) d]) body.after := by
  rw [read_eq, h]
  simp only [htag]

theorem read_of_closing {name : String}
    (h : Segment.next d p.fresh p.rest = .ok (some (seg, rest))) (htag : seg.tag = .closing name) :
    read expected? level d nodes p =
      match expected? with
      | none => .error ⟨.unopenedClose name, p.ofTag seg⟩
      | some expected =>
        if expected.name = name then
          .ok ⟨Node.fuse nodes (Node.ofText seg.text), seg.restAfterText rest, p.past seg.source rest⟩
        else .error ⟨.mismatchedClose expected.name name, p.ofTag seg⟩ := by
  rw [read_eq, h]
  simp only [htag]

theorem read_of_plain (h : Segment.next d p.fresh p.rest = .ok (some (seg, rest)))
    (htag : seg.tag.isPlain = true) :
    read expected? level d nodes p =
      read expected? level (seg.tag.inForce d) (Node.fuse nodes (Node.ofText seg.text) ++ seg.nodes)
        (p.past seg.source rest) := by
  rw [read_eq, h]
  simp only
  cases hcases : seg.tag with
  | opening inverted name => simp [hcases, Tag.isPlain] at htag
  | closing name => simp [hcases, Tag.isPlain] at htag
  | _ => rfl

end Equations

/-- What the open sections make of a region that has been read for the innermost of them. -/
def resume : List OpenSection → Region → Except ParseError (List Node)
  | [], r => .ok r.nodes
  | innermost :: opened, r =>
    Scan.run ⟨r.after.position, r.after.fresh, innermost.delimiters, opened,
      innermost.outer ++ [innermost.close r.nodes r.stop]⟩ r.after.rest

def expectedOf (opened : List OpenSection) : Option Expected := opened.head?.map fun s => ⟨s.name, s.position⟩

theorem run_eq (scan : Scan) (s : List Char) :
    scan.run s = match Segment.next scan.delimiters scan.fresh s with
      | .error (before, fault) => .error ⟨fault, scan.position.advanceAll before⟩
      | .ok none => scan.finish s
      | .ok (some (seg, rest)) => (scan.take seg rest).bind (·.run rest) := by
  rw [Scan.run.eq_def]
  split
  · next hnext => simp only [hnext]
  · next hnext => simp only [hnext]
  · next seg rest hnext =>
    simp only [hnext]
    cases scan.take seg rest <;> rfl

theorem take_of_plain (scan : Scan) {seg : Segment} (rest : List Char) (htag : seg.tag.isPlain = true) :
    scan.take seg rest = .ok { scan.pass seg with
      delimiters := seg.tag.inForce scan.delimiters
      nodes := (scan.pass seg).nodes ++ seg.nodes } := by
  unfold Scan.take Segment.nodes
  cases hcases : seg.tag with
  | opening inverted name => simp [hcases, Tag.isPlain] at htag
  | closing name => simp [hcases, Tag.isPlain] at htag
  | delimiters next => simp [Scan.pass, Tag.inForce]
  | _ => rfl

/-- Reading with a stack is reading by descent of the innermost region, and then of what is around it. -/
theorem run_eq_read (opened : List OpenSection) (d : Delimiters) (nodes : List Node) (p : Place) :
    Scan.run ⟨p.position, p.fresh, d, opened, nodes⟩ p.rest =
      (read (expectedOf opened) opened.length d nodes p).bind (resume opened) := by
  induction hn : p.rest.length using Nat.strongRecOn generalizing opened d nodes p with
  | ind n ih =>
    rw [run_eq]
    simp only
    cases hnext : Segment.next d p.fresh p.rest with
    | error e =>
      rw [read_of_error hnext]
      rfl
    | ok found =>
      cases found with
      | none =>
        rw [read_of_none hnext]
        cases opened <;> rfl
      | some parts =>
        obtain ⟨seg, rest⟩ := parts
        have hlt : rest.length < n := hn ▸ Segment.length_rest_lt hnext
        simp only
        cases htag : seg.tag with
        | opening inverted name =>
          have htake : Scan.take ⟨p.position, p.fresh, d, opened, nodes⟩ seg rest =
              if maxOpenSections ≤ opened.length then .error ⟨.tooDeeplyNested name, p.ofTag seg⟩
              else .ok ⟨(p.past seg.source rest).position, (p.past seg.source rest).fresh, d,
                ⟨name, inverted, p.ofTag seg, rest, d, Node.fuse nodes (Node.ofText seg.text)⟩ :: opened, []⟩ := by
            rw [Scan.take, htag]
            rfl
          rw [htake, read_of_opening hnext htag]
          split
          · rfl
          · -- The body is read with one more section on the stack, and what is behind it with that section taken off again.
            refine (ih rest.length hlt _ d [] (p.past seg.source rest) rfl).trans ?_
            change (read (some ⟨name, p.ofTag seg⟩) (opened.length + 1) d [] (p.past seg.source rest)).bind _ = _
            cases hbody : read (some ⟨name, p.ofTag seg⟩) (opened.length + 1) d [] (p.past seg.source rest) with
            | error e => rfl
            | ok body =>
              have hle : body.after.rest.length ≤ rest.length := length_after_le hbody
              exact ih body.after.rest.length (Nat.lt_of_le_of_lt hle hlt) opened d _ body.after rfl
        | closing name =>
          rw [read_of_closing hnext htag]
          cases opened with
          | nil =>
            rw [Scan.take, htag]
            rfl
          | cons innermost opened =>
            have htake : Scan.take ⟨p.position, p.fresh, d, innermost :: opened, nodes⟩ seg rest =
                if innermost.name = name then
                  .ok ⟨(p.past seg.source rest).position, (p.past seg.source rest).fresh, innermost.delimiters, opened,
                    innermost.outer ++
                      [innermost.close (Node.fuse nodes (Node.ofText seg.text)) (seg.restAfterText rest)]⟩
                else .error ⟨.mismatchedClose innermost.name name, p.ofTag seg⟩ := by
              rw [Scan.take, htag]
              rfl
            rw [htake]
            simp only [expectedOf, List.head?_cons, Option.map_some]
            split <;> rfl
        | _ =>
          have hplain : seg.tag.isPlain = true := by rw [htag]; rfl
          rw [take_of_plain _ rest hplain, read_of_plain hnext hplain]
          exact ih rest.length hlt opened _ _ (p.past seg.source rest) rfl

theorem parse_eq_read (d : Delimiters) (source : String) :
    Stencil.parse d source = (read none 0 d [] (.start source.toList)).map Region.nodes := by
  refine (run_eq_read [] d [] (.start source.toList)).trans ?_
  change (read none 0 d [] (.start source.toList)).bind _ = _
  cases read none 0 d [] (.start source.toList) <;> rfl

/-- A stack of open sections reads a template as recursive descent does: the same nodes, or the same fault at the same
place. -/
theorem parse_eq_descent (d : Delimiters) (source : String) : Stencil.parse d source = parse d source :=
  parse_eq_read d source

end Descent
end Stencil
