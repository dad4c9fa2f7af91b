import Stencil.Config.Format
import Stencil.Config.Yaml.Node

/-!
# What a document says

A text is at most one document. Its nodes are taken as texts, choices, numbers, lists and entries by these rules: a scalar of
any style is a text; a choice is a text, or a local tag on nothing; only plain scalars are numbers; and a node that is left out
is a list and a mapping without anything in it.
-/

namespace Stencil.Config.Yaml

open Text (strip? natural?)

mutual

/-- The nodes that have an anchor, by its number, in the order in which they start. -/
def Node.anchored : Node → List (Nat × Node)
  | .alias _ => []
  | .scalar p style text => p.anchor.toList.map (·, .scalar p style text)
  | .sequence p items => p.anchor.toList.map (·, .sequence p items) ++ anchoredItems items
  | .mapping p entries => p.anchor.toList.map (·, .mapping p entries) ++ anchoredEntries entries

def anchoredItems : List Node → List (Nat × Node)
  | [] => []
  | item :: items => item.anchored ++ anchoredItems items

def anchoredEntries : List (Node × Node) → List (Nat × Node)
  | [] => []
  | (name, value) :: entries => name.anchored ++ value.anchored ++ anchoredEntries entries

end

/-- A document, which may have no node at all. -/
structure Document where
  root : Option Node := none

namespace Document

/-- What handles stand for unless a directive says otherwise. -/
def standardHandles : List (String × String) := [("!", "!"), ("!!", "tag:yaml.org,2002:")]

/-- What handles stand for under directives: one version at most, which must be known, and each handle once. -/
def handles? (directives : List Directive) : Option (List (String × String)) :=
  let versions := directives.filterMap fun
    | .version major minor => some (major, minor)
    | .handle .. => none
  let handles := directives.filterMap fun
    | .version .. => none
    | .handle name start => some (name, start)
  if versions.length ≤ 1 && versions.all [(1, 1), (1, 2)].contains && (handles.map (·.1)).Nodup then
    some (handles ++ standardHandles)
  else none

def readDirectives : List Token → List Directive × List Token
  | .directive d :: rest =>
    let (directives, rest) := readDirectives rest
    (d :: directives, rest)
  | rest => ([], rest)

/-- Whether a document has no content in front of these tokens. -/
def endsContent : List Token → Bool
  | [] | .directive _ :: _ | .documentStart :: _ | .documentEnd :: _ => true
  | _ => false

/-- Reads the content of a document, after which nothing may follow. -/
def ofContent? (handles : List (String × String)) (tokens : List Token) : Option Document := do
  let (root, r) ← (Read.node (2 * tokens.length + 2) true false).run { rest := tokens, handles }
  if r.rest.all (· matches .documentEnd) then return ⟨root⟩ else failure

/-- The document that tokens make up. Directives need a mark behind them that starts the document. -/
def ofTokens? (tokens : List Token) : Option Document := do
  if tokens.isEmpty then return {}
  let (directives, rest) := readDirectives tokens
  let handles ← handles? directives
  match rest with
  | .documentStart :: rest =>
    if !endsContent rest then ofContent? handles rest
    else if rest.all (· matches .documentEnd) then return ⟨some (.empty {})⟩
    else failure
  | _ => if directives.isEmpty then ofContent? handles rest else failure

def ofText? (text : String) : Option Document := tokensOf? text >>= ofTokens?

/-- The node with that number, the last one if there are several. -/
def target? (d : Document) (anchor : Nat) : Option Node := do
  (← d.root).anchored.reverse.lookup anchor

def follow? (d : Document) : Node → Option Node
  | .alias anchor => d.target? anchor
  | node => some node

end Document

/-! ### What nodes stand for -/

def saysNothing (style : Style) (text : String) : Bool :=
  style == .plain && ["", "~", "null", "Null", "NULL"].contains text

/-- The number that a scalar spells: decimal without needless zeros, or in radix sixteen, eight or two behind a sign for it. A
plus may stand in front. -/
def naturalOf? (text : String) : Option Nat :=
  let spelling := match text.toList with
    | '+' :: s => s
    | s => s
  let marked := [("0x", 16), ("0o", 8), ("0b", 2)].findSome? fun (mark, radix) =>
    (strip? mark.toList spelling).bind (natural? radix)
  let decimal := if 1 < spelling.length && spelling.head? == some '0' then none else natural? 10 spelling
  marked.or decimal

def integerTag : String := "tag:yaml.org,2002:int"

def format (d : Document) : Format Node where
  text? node := do
    match ← d.follow? node with
    | .scalar _ _ text => return text
    | _ => failure
  choice? node := do
    match ← d.follow? node with
    | .scalar p style text =>
      match p.tag.bind (strip? ['!'] ·.toList) with
      | some name => if saysNothing style text then return String.ofList name else failure
      | none => return text
    | _ => failure
  natural? node := do
    match ← d.follow? node with
    | .scalar p style text =>
      if style == .plain || (style == .literal && p.tag == some integerTag) then naturalOf? text else failure
    | _ => failure
  items? node := do
    match ← d.follow? node with
    | .sequence _ items => return items
    | .scalar _ .plain "" => return []
    | _ => failure
  entries? node := do
    match ← d.follow? node with
    | .mapping _ entries => entries.mapM fun (name, value) => do
      match ← d.follow? name with
      | .scalar _ _ text => return (text, value)
      | _ => failure
    | .scalar _ .plain "" => return []
    | _ => failure

end Stencil.Config.Yaml
