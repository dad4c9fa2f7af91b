import Stencil.Config.Yaml.Token

/-!
# Documents

The tokens of a YAML text as a document: a node, or nothing at all if the text says nothing. A node is a scalar, a sequence, a
mapping, or an alias for another node of the document. More than one document is refused.
-/

namespace Stencil.Config.Yaml

/-- What may be said of a node in front of it. -/
structure Properties where
  /-- The number that aliases know the node by. -/
  anchor : Option Nat := none
  tag : Option String := none
deriving Repr

/-- A part of a document. -/
inductive Node where
  | alias (anchor : Nat)
  | scalar (properties : Properties) (style : Style) (text : String)
  | sequence (properties : Properties) (items : List Node)
  | mapping (properties : Properties) (entries : List (Node × Node))

def Node.empty (properties : Properties) : Node := .scalar properties .plain ""

/-- The reading of a document. -/
structure Reading where
  rest : List Token
  /-- The latest number of each anchor. -/
  anchors : List (String × Nat) := []
  /-- What the handles of tags stand for. -/
  handles : List (String × String) := []

abbrev Read := StateT Reading Option

namespace Read

def peek : Read (Option Token) := return (← get).rest.head?

def skip : Read Unit := modify fun r => { r with rest := r.rest.tail }

def expect (p : Token → Bool) : Read Unit := do
  if (← peek).any p then skip else failure

/-- The number of a new anchor: how many names there were before it. A name that is given again stands for the new node. -/
def anchor (name : String) : Read Nat := do
  let r ← get
  let number := r.anchors.length
  set { r with anchors := (name, number) :: r.anchors.filter (·.1 != name) }
  return number

def anchored (name : String) : Read Nat := do
  match (← get).anchors.lookup name with
  | some number => return number
  | none => failure

def resolve : Tag → Read String
  | .verbatim text => return text
  | .short handle suffix => do
    match (← get).handles.lookup handle with
    | some start => return start ++ suffix
    | none => failure

/-- Reads an anchor and a tag, in either order, each of them or none. -/
def properties : Read Properties := do
  match ← peek with
  | some (.anchor name) =>
    skip
    match ← peek with
    | some (.tag tag) => skip; return { anchor := ← anchor name, tag := ← resolve tag }
    | _ => return { anchor := ← anchor name }
  | some (.tag tag) =>
    skip
    match ← peek with
    | some (.anchor name) => skip; return { anchor := ← anchor name, tag := ← resolve tag }
    | _ => return { tag := ← resolve tag }
  | _ => return {}

/-- A token that stands behind a part of a mapping in a block. -/
def endsPart : Option Token → Bool
  | some .key | some .value | some .blockEnd => true
  | _ => false

/-- A token that stands behind an item of a sequence in a block. -/
def endsItem : Option Token → Bool
  | some .item => true
  | token => endsPart token

/-- A token that stands behind a node between brackets. -/
def endsFlow : Option Token → Bool
  | some .value | some .separator | some .flowSequenceEnd | some .flowMappingEnd => true
  | _ => false

def optional (ends : Option Token → Bool) (read : Read Node) : Read Node := do
  if ends (← peek) then return .empty {} else read

def entry (ends : Option Token → Bool) (read : Read Node) : Read (Node × Node) := do
  let name ← optional ends read
  match ← peek with
  | some .value => skip; return (name, ← optional ends read)
  | _ => return (name, .empty {})

/-- A node without content, which has properties at least. -/
def bare (p : Properties) : Read Node :=
  if p.anchor.isSome || p.tag.isSome then return .empty p else failure

/-! ### Nodes

No node is nested deeper than there are tokens; `n` bounds the nesting and the length of lists. -/

mutual

/-- Reads a node. It may be a block outside brackets only, and as a part of a mapping it may be a sequence at the column of the
mapping. -/
def node (n : Nat) (block part : Bool) : Read Node :=
  match n with
  | 0 => failure
  | n + 1 => do
    if let some (.alias name) ← peek then
      skip
      return .alias (← anchored name)
    let p ← properties
    match ← peek, block with
    | some (.scalar style text), _ => skip; return .scalar p style text
    | some .flowSequence, _ => skip; return .sequence p (← flowItems n)
    | some .flowMapping, _ => skip; return .mapping p (← flowEntries n)
    | some .blockSequence, true =>
      skip
      let items ← blockItems n
      expect (· matches .blockEnd)
      return .sequence p items
    | some .blockMapping, true =>
      skip
      let entries ← blockEntries n
      expect (· matches .blockEnd)
      return .mapping p entries
    | some .item, _ => if part then return .sequence p (← blockItems n) else bare p
    | _, _ => bare p

def blockItems (n : Nat) : Read (List Node) :=
  match n with
  | 0 => failure
  | n + 1 => do
    match ← peek with
    | some .item =>
      skip
      let item ← optional endsItem (node n true false)
      return item :: (← blockItems n)
    | _ => return []

def blockEntries (n : Nat) : Read (List (Node × Node)) :=
  match n with
  | 0 => failure
  | n + 1 => do
    match ← peek with
    | some .key =>
      skip
      let entry ← entry endsPart (node n true true)
      return entry :: (← blockEntries n)
    | _ => return []

/-- Reads the items of a sequence between brackets, and the bracket behind them. An entry of a mapping is an item too. -/
def flowItems (n : Nat) : Read (List Node) :=
  match n with
  | 0 => failure
  | n + 1 => do
    if let some .flowSequenceEnd ← peek then
      skip
      return []
    let item ← match ← peek with
      | some .key => skip; pure (.mapping {} [← entry endsFlow (node n false false)])
      | _ => node n false false
    match ← peek with
    | some .separator => skip; return item :: (← flowItems n)
    | _ => expect (· matches .flowSequenceEnd); return [item]

/-- Reads the entries of a mapping between brackets, and the bracket behind them. A node that is not marked as a key has no
value. -/
def flowEntries (n : Nat) : Read (List (Node × Node)) :=
  match n with
  | 0 => failure
  | n + 1 => do
    if let some .flowMappingEnd ← peek then
      skip
      return []
    let entry ← match ← peek with
      | some .key => skip; entry endsFlow (node n false false)
      | _ => pure (← node n false false, .empty {})
    match ← peek with
    | some .separator => skip; return entry :: (← flowEntries n)
    | _ => expect (· matches .flowMappingEnd); return [entry]

end

end Read
end Stencil.Config.Yaml
