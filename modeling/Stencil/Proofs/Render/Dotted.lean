import Stencil.Proofs.Render.Block
import Stencil.Proofs.Resolution

/-!
# Dotted names and nested sections

A dotted name follows its segments from value to value, while nested sections put each of these values on top of the frames,
where the next segment is found. If every value on the way is written once by a section, then a tag with the dotted name does
what a tag with the last segment does inside sections for the others (`dotted_eq_nested`).
-/

namespace Stencil

namespace Value

/-- A map, or an object that is no list and holds. -/
def IsRecord : Value → Prop
  | map _ => True
  | object info fields items => info.isList = false ∧ (object info fields items).holds = true
  | _ => False

theorem IsRecord.isLambda {v : Value} (h : v.IsRecord) : v.isLambda = false := by
  cases v with
  | lambda => exact h.elim
  | _ => rfl

theorem IsRecord.items? {v : Value} (h : v.IsRecord) : v.items? = none := by
  cases v with
  | list => exact h.elim
  | object info fields items => simp [Value.items?, h.1]
  | _ => rfl

/-- A map in which something is found is not empty. -/
theorem IsRecord.holds {v w : Value} {name : String} (h : v.IsRecord) (hlookup : v.lookup name = some w) :
    v.holds = true := by
  cases v with
  | map entries =>
    cases entries with
    | nil => cases hlookup
    | cons entry entries => rfl
  | object info fields items => exact h.2
  | _ => exact h.elim

/-- The names lead from the value to another one, and all values on the way are records. -/
inductive Descends : Value → List String → Value → Prop
  | here (v : Value) : Descends v [] v
  | further {v w r : Value} {name : String} {names : List String} :
    v.IsRecord → v.lookup name = some w → Descends w names r → Descends v (name :: names) r

theorem Descends.leads {v r : Value} {names : List String} (h : v.Descends names r) : v.Leads names r := by
  induction h with
  | here v => exact .here v
  | further _ hlookup _ ih => exact .further hlookup ih

end Value

namespace Context

variable {c : Context} {name first : String} {names others : List String} {v r : Value}

/-- The first name has a value in the frames, from which the others lead on by way of records. -/
def Descends (c : Context) : List String → Value → Prop
  | [], _ => False
  | first :: others, r => ∃ v, c.get? first = some v ∧ v.Descends others r

theorem get?_segment (c : Context) (h : IsSegment name) : c.get? name = c.frames.findSome? (·.lookup name) := by
  have hname : dotted name [] = name := String.intercalate_singleton
  have hget := get?_dotted_eq c (List.forall_mem_singleton.mpr h)
  rw [hname] at hget
  rw [hget]
  exact bind_pure (m := Option) _

theorem Descends.get?_eq (h : c.Descends (first :: others) r) (hsegments : ∀ s ∈ first :: others, IsSegment s) :
    c.get? (dotted first others) = some r := by
  obtain ⟨v, hfirst, hothers⟩ := h
  rw [get?_segment c (hsegments first List.mem_cons_self)] at hfirst
  rw [get?_dotted_eq c hsegments, hfirst]
  exact Value.foldlM_lookup_eq_some_iff.mpr hothers.leads

/-- The names lead on from a record that is put on top of the frames. -/
theorem descends_push (c : Context) (h : v.Descends names r) (hnames : names ≠ []) (hsegments : ∀ s ∈ names, IsSegment s) :
    v.IsRecord ∧ v.holds = true ∧ (c.push v).Descends names r := by
  cases h with
  | here => exact absurd rfl hnames
  | @further _ w _ name names hrecord hlookup hothers =>
    refine ⟨hrecord, hrecord.holds hlookup, w, ?_, hothers⟩
    rw [get?_segment _ (hsegments name List.mem_cons_self), Context.push, List.findSome?_cons_of_isSome]
    · exact hlookup
    · simp [hlookup]

end Context

namespace Render

variable {σ : Type}

/-- A level of nesting is taken or freed. -/
def Event.isNesting : Event → Bool
  | enter .. | leave => true
  | call .. | load .. => false

/-- The state without the levels of nesting that were taken and freed. -/
def State.flat (s : State σ) : State σ := { s with events := s.events.filter (!·.isNesting) }

/-- The result is the same, and so is all that is left behind, apart from the levels of nesting that were taken and freed. -/
def SameEnd (x y : Except Error Unit × State σ) : Prop := x.1 = y.1 ∧ x.2.flat = y.2.flat

/-- From `s`, `x` comes to the result and writes the text, and does nothing else but take and free levels of nesting. -/
def Adds (x : Run σ Unit) (result : Except Error Unit) (text : String) (s : State σ) : Prop :=
  (x s).1 = result ∧ (x s).2.flat = { s.flat with output := s.output ++ text }

namespace Adds

variable {env : Env σ} {x y : Run σ Unit} {result : Except Error Unit} {text more : String} {s : State σ}

theorem sameEnd (hx : Adds x result text s) (hy : Adds y result text s) : SameEnd (x s) (y s) :=
  ⟨hx.1.trans hy.1.symm, hx.2.trans hy.2.symm⟩

theorem congr (h : x s = y s) (hy : Adds y result text s) : Adds x result text s := by
  rw [Adds, h]
  exact hy

theorem nothing (h : x s = (result, s)) : Adds x result "" s := by
  rw [Adds, h, String.append_empty]
  exact ⟨rfl, rfl⟩

theorem bind (hx : Adds x (.ok ()) text s) (hy : ∀ s, Adds y result more s) :
    Adds (x >>= fun _ => y) result (text ++ more) s := by
  rcases hrun : x s with ⟨first, s'⟩
  rw [Adds, hrun] at hx
  obtain ⟨rfl, hflat⟩ := hx
  have houtput : s'.output = s.output ++ text := congrArg State.output hflat
  obtain ⟨hresult, hlater⟩ := hy s'
  rw [Adds, bind_of_ok hrun, hlater, hflat, houtput, String.append_assoc]
  exact ⟨hresult, rfl⟩

theorem forM {α : Type} {f : α → Run σ Unit} {text : α → String} (h : ∀ a s, Adds (f a) (.ok ()) (text a) s)
    (as : List α) (s : State σ) : Adds (as.forM f) (.ok ()) (String.join (as.map text)) s := by
  induction as generalizing s with
  | nil => exact .nothing rfl
  | cons a as ih =>
    rw [List.map_cons, String.join_cons]
    exact (h a s).bind ih

theorem nested {write : List Node → Run σ Unit} {nesting : Nesting} {name : String}
    {x : (List Node → Run σ Unit) → Run σ Unit} (h : Adds (x write) result text (s.note (.enter nesting name))) :
    Adds (Render.nested env (some write) nesting name x) result text s := by
  rcases hrun : x write (s.note (.enter nesting name)) with ⟨first, s'⟩
  rw [Adds, hrun] at h
  rw [Adds, nested_of_eq hrun]
  exact h

theorem framed {frame : Value} (h : Adds x result text { s with context := s.context.push frame }) :
    Adds (withFrame frame x) result text s := by
  let entered : State σ := { s with context := s.context.push frame }
  have hcontext : (x entered).2.context = s.context.push frame := congrArg State.context h.2
  have hback : (x entered).2.context.truncate s.context.size = s.context := by rw [hcontext, Context.truncate_size_push]
  refine ⟨h.1, ?_⟩
  change { (x entered).2.flat with context := (x entered).2.context.truncate s.context.size } = _
  rw [hback, h.2]
  rfl

end Adds

section Tags

variable {env : Env σ} {name : String} {s : State σ} {r : Value}

theorem adds_interpolation (level : Level σ) (hget : s.context.get? name = some r) (hlambda : r.isLambda = false)
    (escaped : Bool) :
    let filter := if escaped then env.settings.escape else env.settings.literal
    Adds (writeNode env level (.interpolation name escaped)) (r.text.map fun _ => ())
      ((r.text.map filter).toOption.getD "") s := by
  intro filter
  have htext : valueText env level name s = (r.text, s) := valueText_of_value (congrArg (valueOf env.settings name) hget) hlambda
  change Adds (valueText env level name >>= fun text => emit (filter text)) _ _ s
  cases hrtext : r.text with
  | error e =>
    rw [hrtext] at htext
    exact .nothing (bind_of_error htext _)
  | ok text =>
    rw [hrtext] at htext
    rw [Adds, bind_of_ok htext]
    exact ⟨rfl, rfl⟩

/-- What a text or a comment writes. -/
def printed : Node → String
  | .literal text => text
  | _ => ""

theorem adds_writeTree {body : List Node} (hbody : ∀ node ∈ body, node.name? = none) (levels : Nat) (s : State σ) :
    Adds (writeTree env levels body) (.ok ()) (String.join (body.map printed)) s := by
  induction body generalizing s with
  | nil =>
    rw [writeTree_eq]
    exact .nothing rfl
  | cons node body ih =>
    obtain ⟨hnode, hbody⟩ := List.forall_mem_cons.mp hbody
    have hfirst : Adds (writeNode env (below env levels) node) (.ok ()) (printed node) s := by
      cases node with
      | literal text => exact ⟨rfl, rfl⟩
      | comment => exact .nothing rfl
      | interpolation | block | inverted | inclusion => cases hnode
    rw [writeTree_cons, List.map_cons, String.join_cons]
    exact hfirst.bind (ih hbody)

section Bodies

variable {body : List Node} (hbody : ∀ node ∈ body, node.name? = none)

include hbody

theorem adds_block (env : Env σ) {levels : Nat} (hlevels : 0 < levels) (hget : s.context.get? name = some r)
    (hlambda : r.isLambda = false) (raw : String) (d : Delimiters) :
    Adds (writeNode env (below env levels) (.block name body raw d)) (.ok ())
      (if r.holds then String.join ((r.items?.getD [r]).map fun _ => String.join (body.map printed)) else "") s := by
  obtain ⟨levels, rfl⟩ := Nat.exists_eq_succ_of_ne_zero (Nat.ne_of_gt hlevels)
  apply Adds.congr (writeBlock_of_value (congrArg (valueOf env.settings name) hget) hlambda body raw d)
  rw [writeOver]
  split
  · apply Adds.nested
    apply Adds.forM
    intro frame s
    exact (adds_writeTree hbody levels _).framed
  · exact .nothing rfl

theorem adds_inverted (env : Env σ) {levels : Nat} (hlevels : 0 < levels) (hget : s.context.get? name = some r) :
    Adds (writeNode env (below env levels) (.inverted name body)) (.ok ())
      (if r.holds then "" else String.join (body.map printed)) s := by
  obtain ⟨levels, rfl⟩ := Nat.exists_eq_succ_of_ne_zero (Nat.ne_of_gt hlevels)
  apply Adds.congr (writeInverted_of_value (congrArg (valueOf env.settings name) hget) body)
  split
  · exact .nothing rfl
  · apply Adds.nested
    exact adds_writeTree hbody levels _

end Bodies

/-- The node is the inner one inside sections for the names. -/
inductive Wraps (inner : Node) : List String → Node → Prop
  | here : Wraps inner [] inner
  | further {names : List String} {node : Node} (name : String) (raw : String) (d : Delimiters) :
    Wraps inner names node → Wraps inner (name :: names) (.block name [node] raw d)

/-- A section over a record adds what the node inside adds, with the record on top of the frames. -/
theorem Adds.block {levels : Nat} {node : Node} {result : Except Error Unit} {text : String}
    (hget : s.context.get? name = some r) (hrecord : r.IsRecord) (hholds : r.holds = true)
    (h : ∀ s' : State σ, s'.context = s.context.push r → Adds (writeNode env (below env levels) node) result text s')
    (raw : String) (d : Delimiters) : Adds (writeNode env (below env (levels + 1)) (.block name [node] raw d)) result text s := by
  apply congr (writeBlock_of_value (congrArg (valueOf env.settings name) hget) hrecord.isLambda [node] raw d)
  rw [writeOver, if_pos hholds, hrecord.items?]
  apply nested
  change Adds (withFrame r (writeTree env levels [node]) >>= fun _ => pure ()) _ _ _
  rw [bind_pure_unit, writeTree_singleton]
  exact (h _ rfl).framed

end Tags

/-- Inside the sections the last name alone leads to the value. -/
theorem adds_of_wraps {env : Env σ} {inner node : Node} {names : List String} {last : String} {r : Value}
    {result : Except Error Unit} {text : String} (spare : Nat)
    (hinner : ∀ (levels : Nat) (s : State σ), spare ≤ levels → s.context.get? last = some r →
      Adds (writeNode env (below env levels) inner) result text s)
    (hwraps : Wraps inner names node) {levels : Nat} {s : State σ} (hsegments : ∀ name ∈ names ++ [last], IsSegment name)
    (hdescends : s.context.Descends (names ++ [last]) r) (hlevels : names.length + spare ≤ levels) :
    Adds (writeNode env (below env levels) node) result text s := by
  induction hwraps generalizing levels s with
  | here =>
    obtain ⟨v, hget, hnone⟩ := hdescends
    cases hnone
    exact hinner levels s (by simpa using hlevels) hget
  | @further names node name raw d _ ih =>
    rw [List.cons_append] at hsegments hdescends
    rw [List.length_cons] at hlevels
    obtain ⟨v, hget, hothers⟩ := hdescends
    obtain ⟨hname, hsegments⟩ := List.forall_mem_cons.mp hsegments
    obtain ⟨levels, rfl⟩ : ∃ n, levels = n + 1 := ⟨levels - 1, by omega⟩
    obtain ⟨hrecord, hholds, hpush⟩ := Context.descends_push s.context hothers (by simp) hsegments
    apply Adds.block hget hrecord hholds
    intro s' hcontext
    rw [← hcontext] at hpush
    exact ih hsegments hpush (by omega)

/-- A tag with a dotted name and the tag with its last segment, inside sections for the others, end the same: for a variable, if
there are levels for these sections, and for a section or an inverted section on texts, if there is one level more. -/
theorem dotted_eq_nested (env : Env σ) {levels : Nat} {s : State σ} {first last : String} {others : List String} {r : Value}
    (hsegments : ∀ name ∈ first :: others ++ [last], IsSegment name)
    (hdescends : s.context.Descends (first :: others ++ [last]) r) (hlambda : r.isLambda = false)
    (hlevels : others.length + 1 ≤ levels) :
    let name := dotted first (others ++ [last])
    let write := fun node => writeNode env (below env levels) node s
    (∀ escaped node, Wraps (.interpolation last escaped) (first :: others) node →
      SameEnd (write (.interpolation name escaped)) (write node)) ∧
    (others.length + 2 ≤ levels → ∀ body, (∀ node ∈ body, node.name? = none) →
      (∀ raw d raw' d' node, Wraps (.block last body raw' d') (first :: others) node →
        SameEnd (write (.block name body raw d)) (write node)) ∧
      ∀ node, Wraps (.inverted last body) (first :: others) node → SameEnd (write (.inverted name body)) (write node)) := by
  intro name write
  have hget : s.context.get? name = some r := hdescends.get?_eq hsegments
  constructor
  · intro escaped node hwraps
    have hinner := adds_of_wraps 0 (fun levels _ _ hlast => adds_interpolation (below env levels) hlast hlambda escaped)
      hwraps hsegments hdescends hlevels
    exact (adds_interpolation _ hget hlambda escaped).sameEnd hinner
  · intro hmore body hbody
    have hlevels : 0 < levels := by omega
    constructor
    · intro raw d raw' d' node hwraps
      have hinner := adds_of_wraps 1 (fun _ _ hspare hlast => adds_block hbody env hspare hlast hlambda raw' d')
        hwraps hsegments hdescends hmore
      exact (adds_block hbody env hlevels hget hlambda raw d).sameEnd hinner
    · intro node hwraps
      have hinner := adds_of_wraps 1 (fun _ _ hspare hlast => adds_inverted hbody env hspare hlast)
        hwraps hsegments hdescends hmore
      exact (adds_inverted hbody env hlevels hget).sameEnd hinner

/-- A map holds an object, which holds the value that is written. -/
theorem dotted_eq_nested_of_object :
    let env : Env Unit := ⟨.standard, ⟨fun _ _ memory => (.null, memory), none⟩⟩
    let object : Value := .object ⟨0, none, false, none, "object"⟩ [("c", .string "<")] []
    let s : State Unit := ⟨.ofValue (.map [("a", .map [("b", object)])]), [], "", (), []⟩
    let inside := fun node => Node.block "a" [.block "b" [node] "" .standard] "" .standard
    let write := fun node => writeNode env (below env 3) node s
    (∀ name ∈ ["a", "b", "c"], IsSegment name) ∧ s.context.Descends ["a", "b", "c"] (.string "<") ∧
      SameEnd (write (.interpolation (dotted "a" ["b", "c"]) true)) (write (inside (.interpolation "c" true))) ∧
      SameEnd (write (.inverted (dotted "a" ["b", "c"]) [.literal "x"])) (write (inside (.inverted "c" [.literal "x"]))) := by
  intro env object s inside write
  have hsegments : ∀ name ∈ ["a", "b", "c"], IsSegment name := by
    intro name hname
    simp only [List.mem_cons, List.not_mem_nil, or_false] at hname
    rcases hname with rfl | rfl | rfl
    all_goals exact ⟨by decide, by decide⟩
  have hdescends : s.context.Descends ["a", "b", "c"] (.string "<") :=
    ⟨.map [("b", object)], rfl, .further trivial rfl (.further ⟨rfl, rfl⟩ rfl (.here _))⟩
  have hwraps (node : Node) : Wraps node ["a", "b"] (inside node) := .further "a" "" .standard (.further "b" "" .standard .here)
  have htags := @dotted_eq_nested Unit env 3 s "a" "c" ["b"] _ hsegments hdescends rfl (by decide)
  have htexts : ∀ node ∈ [Node.literal "x"], node.name? = none := List.forall_mem_singleton.mpr rfl
  exact ⟨hsegments, hdescends, htags.1 true _ (hwraps _), (htags.2 (by decide) _ htexts).2 _ (hwraps _)⟩

end Render
end Stencil
