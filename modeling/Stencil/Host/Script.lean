import Stencil.Host.Basic
import Stencil.Registry

/-!
# Scripted hosts

Hosts given as data: each lambda follows a recipe, partials come from a source, and the memory counts the calls of each lambda
and the loads of each name.
-/

namespace Stencil

/-- What a lambda answers. -/
inductive Recipe where
  /-- One, two, three and so on. -/
  | count
  /-- The values in turn, then the last of them; nothing if there are none. -/
  | results (values : List Value)
  | echo
  | wrap (before after : String)
  | twice (separator : String)
  | upper
  | reverse
  /-- The number of characters. -/
  | length

/-- Where partials come from. -/
inductive Source where
  | table (registry : Registry)
  /-- Takes `start` off the front of a name and puts texts around the rest. -/
  | around (start before after : String)
  | failing (error : Error)
  /-- The texts of a name in turn, then the last of them. -/
  | inTurn (entries : Entries (List String))

def upperAscii (s : String) : String := String.ofList (s.toList.map Char.toUpper)

def getOrLast? {α : Type} (xs : List α) (n : Nat) : Option α := xs[min n (xs.length - 1)]?

def Recipe.answer (n : Nat) (text : String) : Recipe → Value
  | count => .number (.int (n + 1))
  | results values => (getOrLast? values n).getD .null
  | echo => .string text
  | wrap before after => .string (before ++ text ++ after)
  | twice separator => .string (text ++ separator ++ text)
  | upper => .string (upperAscii text)
  | reverse => .string (String.ofList text.toList.reverse)
  | length => .number (.int text.length)

/-- What a source gives for a name after `n` earlier loads of it. -/
def Source.load (n : Nat) (name : String) : Source → Except Error String
  | table registry => registry.load name
  | around start before after =>
    if start.toList.isPrefixOf name.toList then
      .ok (before ++ String.ofList (name.toList.drop start.toList.length) ++ after)
    else .error (.templateNotFound name)
  | failing error => .error error
  | inTurn entries =>
    match (entries.find? name).bind (getOrLast? · n) with
    | some text => .ok text
    | none => .error (.templateNotFound name)

/-- How often each lambda has been called and each name loaded. -/
structure Tally where
  calls : List (Nat × Nat)
  loads : List (String × Nat)
deriving Inhabited

def countOf {α : Type} [BEq α] (key : α) (counts : List (α × Nat)) : Nat := (counts.lookup key).getD 0

def addOne {α : Type} [BEq α] (key : α) (counts : List (α × Nat)) : List (α × Nat) :=
  (key, countOf key counts + 1) :: counts.filter (·.1 != key)

/-- The host of a list of recipes, by the keys of their lambdas, and a source of partials. -/
def Host.ofScript (recipes : List (Nat × Recipe)) (source? : Option Source) : Host Tally where
  answer l text? tally :=
    let recipe := (recipes.lookup l.key).getD (.results [])
    (recipe.answer (countOf l.key tally.calls) (text?.getD ""), { tally with calls := addOne l.key tally.calls })
  loader? := source?.map fun source name tally =>
    (source.load (countOf name tally.loads) name, { tally with loads := addOne name tally.loads })

end Stencil
