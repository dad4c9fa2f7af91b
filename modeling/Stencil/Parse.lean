import Stencil.Node
import Stencil.Segment

/-!
# Reading a template

`parse` reads a template segment by segment. The sections that are open stand on a stack, innermost first; each knows the
delimiters in force at its opening tag, which are in force again behind its closing tag, so a change of delimiters inside a
section ends with it.
-/

namespace Stencil

open Text

/-- A section whose closing tag is still to come. -/
structure OpenSection where
  name : String
  inverted : Bool
  /-- The place of the opening tag. -/
  position : Position
  /-- What is left of the template at the start of the body. -/
  start : List Char
  /-- The delimiters in force at the opening tag. -/
  delimiters : Delimiters
  /-- The nodes in front of the section, in the region that holds it. -/
  outer : List Node

/-- How far the reading of a template has come. -/
structure Scan where
  position : Position
  /-- Whether a line starts here. -/
  fresh : Bool
  /-- The delimiters in force. -/
  delimiters : Delimiters
  /-- The open sections, innermost first. -/
  opened : List OpenSection
  /-- The nodes read since the innermost section was opened. -/
  nodes : List Node

def OpenSection.close (s : OpenSection) (body : List Node) (stop : List Char) : Node :=
  if s.inverted then .inverted s.name body
  else .block s.name body (String.ofList (between s.start stop)) s.delimiters

namespace Scan

def start (d : Delimiters) : Scan := ⟨.start, true, d, [], []⟩

/-- Takes the text of a segment in and moves behind the segment. -/
def pass (scan : Scan) (seg : Segment) : Scan :=
  { scan with
    position := scan.position.advanceAll seg.source
    fresh := Segment.startsLine scan.fresh seg.source
    nodes := Node.fuse scan.nodes (Node.ofText seg.text) }

def push (scan : Scan) (node : Node) : Scan := { scan with nodes := scan.nodes ++ [node] }

/-- Takes in a segment that `rest` follows: its text, then its tag. -/
def take (scan : Scan) (seg : Segment) (rest : List Char) : Except ParseError Scan :=
  let tagPosition := scan.position.advanceAll (seg.text ++ seg.indent)
  let scan := scan.pass seg
  match seg.tag with
  | .interpolation name escaped => .ok (scan.push (.interpolation name escaped))
  | .comment => .ok (scan.push .comment)
  | .inclusion name => .ok (scan.push (.inclusion name (String.ofList seg.indent)))
  | .delimiters next => .ok { scan with delimiters := next }
  | .opening inverted name =>
    if maxOpenSections ≤ scan.opened.length then .error ⟨.tooDeeplyNested name, tagPosition⟩
    else
      let opened := ⟨name, inverted, tagPosition, rest, scan.delimiters, scan.nodes⟩
      .ok { scan with opened := opened :: scan.opened, nodes := [] }
  | .closing name =>
    match scan.opened with
    | [] => .error ⟨.unopenedClose name, tagPosition⟩
    | innermost :: opened =>
      if innermost.name = name then
        let closed := innermost.close scan.nodes (seg.restAfterText rest)
        .ok { scan with opened, delimiters := innermost.delimiters, nodes := innermost.outer ++ [closed] }
      else .error ⟨.mismatchedClose innermost.name name, tagPosition⟩

def finish (scan : Scan) (text : List Char) : Except ParseError (List Node) :=
  match scan.opened with
  | [] => .ok (Node.fuse scan.nodes (Node.ofText text))
  | innermost :: _ => .error ⟨.unclosedSection innermost.name, innermost.position⟩

def run (scan : Scan) (s : List Char) : Except ParseError (List Node) :=
  match h : Segment.next scan.delimiters scan.fresh s with
  | .error (before, fault) => .error ⟨fault, scan.position.advanceAll before⟩
  | .ok none => scan.finish s
  | .ok (some (seg, rest)) =>
    have := Segment.length_rest_lt h
    match scan.take seg rest with
    | .error e => .error e
    | .ok scan => run scan rest
termination_by s.length

end Scan

/-- Reads a template that starts with the delimiters `d`. -/
def parse (d : Delimiters) (source : String) : Except ParseError (List Node) := (Scan.start d).run source.toList

end Stencil
