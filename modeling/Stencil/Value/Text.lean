import Stencil.Error
import Stencil.Text.Json
import Stencil.Value.Basic

/-!
# Values as text

What a tag writes for a value. Lists and maps are written as JSON without spaces, the entries of maps in the order of their
names; an object among them is written as its items or its text. `plain` is the data that is left when objects have been
replaced so.
-/

namespace Stencil.Value

def bracketed (left : Char) (texts : List String) (right : Char) : String :=
  String.singleton left ++ ",".intercalate texts ++ String.singleton right

def boolText (b : Bool) : String := if b then "true" else "false"

mutual
def json : Value → Except PlainFault String
  | null => .ok "null"
  | bool b => .ok (boolText b)
  | number n => .ok n.text
  | string s => .ok (Text.Json.quote s)
  | list items => do return bracketed '[' (← jsonItems items) ']'
  | map entries => do return bracketed '\x7b' (← jsonEntries entries) '\x7d'
  | object info _ items =>
    if info.isList then do return bracketed '[' (← jsonItems items) ']'
    else match info.text? with
      | some text => .ok (Text.Json.quote text)
      | none => .error (.object info.label)
  | lambda _ => .error .lambda
def jsonItems : List Value → Except PlainFault (List String)
  | [] => .ok []
  | v :: items => do
    let text ← v.json
    return text :: (← jsonItems items)
def jsonEntries : List (String × Value) → Except PlainFault (List String)
  | [] => .ok []
  | (name, v) :: entries => do
    let text ← v.json
    return (Text.Json.quote name ++ ":" ++ text) :: (← jsonEntries entries)
end

def text : Value → Except Error String
  | null => .ok ""
  | bool b => .ok (boolText b)
  | number n => .ok n.text
  | string s => .ok s
  | list items => (list items).json.mapError .serialization
  | map entries => (map entries).json.mapError .serialization
  | object info _ _ =>
    match info.text? with
    | some text => .ok text
    | none => .error (.render (.objectText info.label))
  | lambda _ => .error (.render .lambdaText)

mutual
/-- The value with its objects replaced: by the list of their items, or else by their text. -/
def plain : Value → Except PlainFault Value
  | list items => do return list (← plainItems items)
  | map entries => do return map (← plainEntries entries)
  | object info _ items =>
    if info.isList then do return list (← plainItems items)
    else match info.text? with
      | some text => .ok (string text)
      | none => .error (.object info.label)
  | lambda _ => .error .lambda
  | null => .ok null
  | bool b => .ok (bool b)
  | number n => .ok (number n)
  | string s => .ok (string s)
def plainItems : List Value → Except PlainFault (List Value)
  | [] => .ok []
  | v :: items => do
    let v ← v.plain
    return v :: (← plainItems items)
def plainEntries : List (String × Value) → Except PlainFault (List (String × Value))
  | [] => .ok []
  | (name, v) :: entries => do
    let v ← v.plain
    return (name, v) :: (← plainEntries entries)
end

end Stencil.Value
