import Stencil.Config.Json.Tree
import Stencil.Config.Yaml.Document

/-!
# Options in JSON and YAML

Options read from a text. In JSON they are an object, or an array that gives the fields in their order without names; in YAML a
mapping, or nothing at all for the defaults. A text that is not well formed, or does not fit, is no options.
-/

namespace Stencil

namespace Config

open Json (Tree)

/-- The number that a JSON number spells, if it is written as a natural one. -/
def naturalOfSpelling? (spelling : List Char) : Option Nat := Text.natural? 10 spelling

/-- How JSON trees are taken. A choice is a text, or an object with nothing under the name of the choice. -/
def jsonFormat : Format Tree where
  text?
    | .text s => some s
    | _ => none
  choice?
    | .text s => some s
    | .object [(name, .null)] => some name
    | _ => none
  natural?
    | .number spelling => naturalOfSpelling? spelling
    | _ => none
  items?
    | .array items => some items
    | _ => none
  entries?
    | .object entries => some entries
    | _ => none

def ofJson? : Tree → Option Options
  | .object entries => ofNames? jsonFormat entries
  | .array items => ofPositions? jsonFormat items
  | _ => none

def ofYaml? (d : Yaml.Document) : Option Options :=
  match d.root with
  | none => some {}
  | some root => (Yaml.format d).entries? root >>= ofNames? (Yaml.format d)

end Config

namespace Options

def readJson (text : String) : Except Error Options :=
  match Config.Json.Tree.ofText? text >>= Config.ofJson? with
  | some o => .ok o
  | none => .error (.config .unreadable)

def readYaml (text : String) : Except Error Options :=
  match Config.Yaml.Document.ofText? text >>= Config.ofYaml? with
  | some o => .ok o
  | none => .error (.config .unreadable)

end Options
end Stencil
