import Stencil.Options

/-!
# Options by field

Options are written as named fields, in one of several formats. A `Format` says what the trees of a format stand for; given
one, `Options.ofFields?` reads options off a list of named trees. A field that is not given keeps its default; one that is
unknown, or given twice, makes the whole no options.
-/

namespace Stencil

def EscapeMode.ofName? (name : String) : Option EscapeMode := [html, none].find? (·.name == name)

def MissingTags.ofName? (name : String) : Option MissingTags := [ignore, strict].find? (·.name == name)

def Encoding.ofName? (name : String) : Option Encoding := [utf8, utf8Lossy].find? (·.name == name)

namespace Config

/-- What the trees of a format stand for. Each function answers for the trees that can be taken as such a thing. -/
structure Format (α : Type) where
  text? : α → Option String
  /-- The name of one of several choices. -/
  choice? : α → Option String
  natural? : α → Option Nat
  items? : α → Option (List α)
  /-- Named trees in the order in which they are written; a name may occur more than once. -/
  entries? : α → Option (List (String × α))

/-- What options consist of. -/
inductive Field where
  | escape
  | missingTags
  | delimiters
  | encoding
  | partials
  | maxDepth
deriving DecidableEq, Repr

namespace Field

def all : List Field := [escape, missingTags, delimiters, encoding, partials, maxDepth]

def name : Field → String
  | escape => "escape"
  | missingTags => "missing_tags"
  | delimiters => "delimiters"
  | encoding => "string_encoding"
  | partials => "partials"
  | maxDepth => "max_depth"

def ofName? (name : String) : Option Field := all.find? (·.name == name)

def depthBound : Nat := Nat.pow 2 64

variable {α : Type} (format : Format α)

/-- The options with a field set to what a tree stands for. -/
def set? (field : Field) (tree : α) (o : Options) : Option Options :=
  match field with
  | escape => do return { o with escape := ← (← format.choice? tree) |> EscapeMode.ofName? }
  | missingTags => do return { o with missingTags := ← (← format.choice? tree) |> MissingTags.ofName? }
  | encoding => do return { o with encoding := ← (← format.choice? tree) |> Encoding.ofName? }
  | delimiters => do
    match ← (← format.items? tree).mapM format.text? with
    | [opener, closer] => return { o with opener, closer }
    | _ => failure
  | partials => do
    let pairs ← (← format.entries? tree).mapM fun (name, text) => (format.text? text).map (name, ·)
    return { o with partials := .ofPairs pairs }
  | maxDepth => do
    let maxDepth ← format.natural? tree
    if maxDepth < depthBound then return { o with maxDepth } else failure

end Field

variable {α : Type} (format : Format α)

/-- The options with the given fields, none of them twice. -/
def ofFields? (fields : List (Field × α)) : Option Options :=
  if (fields.map (·.1)).Nodup then fields.foldlM (fun o (field, tree) => field.set? format tree o) {} else none

def ofNames? (entries : List (String × α)) : Option Options := do
  ofFields? format (← entries.mapM fun (name, tree) => (Field.ofName? name).map (·, tree))

/-- The options with fields given without names, in their order. -/
def ofPositions? (trees : List α) : Option Options :=
  if trees.length ≤ Field.all.length then ofFields? format (Field.all.zip trees) else none

end Config
end Stencil
