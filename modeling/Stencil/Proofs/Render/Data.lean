import Stencil.Proofs.Context
import Stencil.Proofs.Depth
import Stencil.Proofs.Render.Job
import Stencil.Renderer

/-!
# Plain data

Data that hold neither lambdas nor objects of the host program can be written, whatever is looked up in them. If no name has to
have a value either, then all that could fail is to open one more section than the settings allow; but a template that has been
read nests no deeper than its reader allows (`render_data`).
-/

namespace Stencil

namespace Value

/-- Data without lambdas and without objects of the host program, nested to any depth. -/
inductive IsData : Value → Prop
  | null : IsData null
  | bool (b : Bool) : IsData (bool b)
  | number (n : Number) : IsData (number n)
  | string (s : String) : IsData (string s)
  | list {items : List Value} : (∀ v ∈ items, IsData v) → IsData (list items)
  | map {entries : List (String × Value)} : (∀ entry ∈ entries, IsData entry.2) → IsData (map entries)

private theorem exists_jsonItems {items : List Value} (h : ∀ v ∈ items, ∃ text, v.json = .ok text) :
    ∃ texts, jsonItems items = .ok texts := by
  induction items with
  | nil => exact ⟨[], rfl⟩
  | cons v items ih =>
    obtain ⟨text, htext⟩ := h v List.mem_cons_self
    obtain ⟨texts, htexts⟩ := ih fun w hw => h w (List.mem_cons_of_mem v hw)
    refine ⟨text :: texts, ?_⟩
    rw [jsonItems, htext, htexts]
    rfl

private theorem exists_jsonEntries {entries : List (String × Value)}
    (h : ∀ entry ∈ entries, ∃ text, entry.2.json = .ok text) : ∃ texts, jsonEntries entries = .ok texts := by
  induction entries with
  | nil => exact ⟨[], rfl⟩
  | cons entry entries ih =>
    obtain ⟨text, htext⟩ := h entry List.mem_cons_self
    obtain ⟨texts, htexts⟩ := ih fun e he => h e (List.mem_cons_of_mem entry he)
    refine ⟨(Text.Json.quote entry.1 ++ ":" ++ text) :: texts, ?_⟩
    rw [jsonEntries, htext, htexts]
    rfl

namespace IsData

variable {v : Value}

theorem exists_json (h : v.IsData) : ∃ text, v.json = .ok text := by
  induction h with
  | null | bool b | number n | string s => exact ⟨_, rfl⟩
  | list _ ih =>
    obtain ⟨texts, htexts⟩ := exists_jsonItems ih
    refine ⟨bracketed '[' texts ']', ?_⟩
    rw [json, htexts]
    rfl
  | map _ ih =>
    obtain ⟨texts, htexts⟩ := exists_jsonEntries ih
    refine ⟨bracketed '\x7b' texts '\x7d', ?_⟩
    rw [json, htexts]
    rfl

/-- A tag can write the value. -/
theorem exists_text (h : v.IsData) : ∃ text, v.text = .ok text := by
  obtain ⟨json, hjson⟩ := h.exists_json
  cases h with
  | null | bool b | number n | string s => exact ⟨_, rfl⟩
  | list | map =>
    refine ⟨json, ?_⟩
    rw [text, hjson]
    rfl

theorem closed : Closed IsData where
  lookup h hlookup := by
    cases h with
    | map hentries => exact prop_of_find? hentries hlookup
    | _ => cases hlookup
  frames h frame hframe := by
    cases h with
    | list hitems => exact hitems frame hframe
    | _ =>
      rw [List.mem_singleton.mp hframe]
      constructor <;> assumption

end IsData
end Value

def Context.IsData (c : Context) : Prop := ∀ frame ∈ c.frames, frame.IsData

namespace Context.IsData

variable {c : Context} {frame v : Value}

theorem push (h : c.IsData) (hframe : frame.IsData) : (c.push frame).IsData := All.push h hframe

theorem get? (h : c.IsData) {name : String} (hget : c.get? name = some v) : v.IsData := All.get? h Value.IsData.closed hget

end Context.IsData

namespace Node

def inclusionOf : Node → List Node
  | inclusion name indent => [.inclusion name indent]
  | _ => []

/-- The partials of a list of nodes, those in bodies included. -/
def inclusions (nodes : List Node) : List Node := collect inclusionOf (fun _ => []) nodes

theorem inclusions_cons (node : Node) (nodes : List Node) :
    inclusions (node :: nodes) = inclusions [node] ++ inclusions nodes := by
  rw [inclusions, collect_cons, inclusions, collect_cons, collect_nil, List.append_nil]
  rfl

end Node

namespace Render

variable {σ α β : Type}

/-- Over data, `x` succeeds with something of which `Q` is true, and leaves data behind. -/
def Succeeds (Q : α → Prop) (x : Run σ α) : Prop :=
  ∀ s, s.context.IsData → ∃ a s', x s = (.ok a, s') ∧ Q a ∧ s'.context.IsData

namespace Succeeds

variable {Q : α → Prop} {R : β → Prop}

theorem pure {a : α} (h : Q a) : Succeeds Q (Pure.pure a : Run σ α) := fun s hs => ⟨a, s, rfl, h, hs⟩

theorem bind {x : Run σ α} {f : α → Run σ β} (hx : Succeeds Q x) (hf : ∀ a, Q a → Succeeds R (f a)) :
    Succeeds R (x >>= f) := by
  intro s hs
  obtain ⟨a, s', hrun, ha, hs'⟩ := hx s hs
  rw [bind_of_ok hrun]
  exact hf a ha s' hs'

theorem forM {f : α → Run σ Unit} {as : List α} (h : ∀ a ∈ as, Succeeds (fun _ => True) (f a)) :
    Succeeds (fun _ => True) (as.forM f) := by
  induction as with
  | nil => exact pure trivial
  | cons a as ih =>
    have hrest := ih fun b hb => h b (List.mem_cons_of_mem a hb)
    exact (h a List.mem_cons_self).bind fun _ _ => hrest

theorem emit (text : String) : Succeeds (fun _ => True) (Render.emit text : Run σ Unit) := fun _ hs =>
  ⟨(), _, rfl, trivial, hs⟩

theorem captured {x : Run σ Unit} (h : Succeeds (fun _ => True) x) : Succeeds (fun _ => True) (Render.captured x) := by
  intro s hs
  obtain ⟨_, s', hrun, -, hs'⟩ := h { s with output := "" } hs
  refine ⟨_, _, captured_of_eq hrun, trivial, ?_⟩
  rw [Context.popTo_eq_truncate]
  exact Context.All.truncate hs' _

theorem withFrame {frame : Value} (hframe : frame.IsData) {x : Run σ Unit} (h : Succeeds (fun _ => True) x) :
    Succeeds (fun _ => True) (Render.withFrame frame x) := by
  intro s hs
  obtain ⟨_, s', hrun, -, hs'⟩ := h { s with context := s.context.push frame } (hs.push hframe)
  refine ⟨(), { s' with context := s'.context.truncate s.context.size }, ?_, trivial, ?_⟩
  · rw [Render.withFrame, hrun]
  · exact Context.All.truncate hs' _

theorem nested (env : Env σ) {write : List Node → Run σ Unit} (nesting : Nesting) (name : String)
    {x : (List Node → Run σ Unit) → Run σ Unit} (h : Succeeds (fun _ => True) (x write)) :
    Succeeds (fun _ => True) (Render.nested env (some write) nesting name x) := by
  intro s hs
  obtain ⟨_, s', hrun, -, hs'⟩ := h (s.note (.enter nesting name)) hs
  exact ⟨_, _, nested_of_eq hrun, trivial, hs'⟩

/-- A name has a value that is data, or no value, which does not matter. -/
theorem resolve {env : Env σ} (hmissing : env.settings.missingTags = .ignore) (name : String) :
    Succeeds Value.IsData (Render.resolve env name) := by
  intro s hs
  rw [Render.resolve, bind_of_ok (get_apply s)]
  cases hget : s.context.get? name with
  | some v => exact ⟨v, s, rfl, hs.get? hget, hs⟩
  | none =>
    rw [hmissing]
    exact ⟨.null, s, rfl, .null, hs⟩

end Succeeds

/-- The job can be done over data with so many levels of nesting to go: what has to be written nests less deep, includes no
partials, and is written over data. -/
def Job.WithinLevels (levels : Nat) : Job → Prop
  | .nothing | .plain _ => True
  | .deeper inner _ => Node.depth inner.nodes < levels ∧ Node.inclusions inner.nodes = [] ∧
      ∀ frames ∈ inner.frames?, ∀ frame ∈ frames, frame.IsData

theorem Job.WithinLevels.mono {levels levels' : Nat} {job : Job} (h : job.WithinLevels levels) (hle : levels ≤ levels') :
    job.WithinLevels levels' := by
  cases job with
  | nothing | plain text => trivial
  | deeper inner filter? => exact ⟨Nat.lt_of_lt_of_le h.1 hle, h.2⟩

section Levels

variable {env : Env σ}

theorem Job.withinLevels_ofBlock {body : List Node} (hbody : Node.inclusions body = []) {v : Value} (hv : v.IsData)
    (name : String) : (Job.ofBlock name body v).WithinLevels (Node.depth body + 1) := by
  rw [ofBlock]
  split
  · refine ⟨Nat.lt_succ_self _, hbody, ?_⟩
    rintro _ ⟨⟩
    exact Value.IsData.closed.frames hv
  · trivial

theorem prepare_succeeds (hmissing : env.settings.missingTags = .ignore)
    (fetch : Inclusion → Run σ (Option (List Node))) {node : Node} (hnode : Node.inclusions [node] = []) :
    Succeeds (Job.WithinLevels (Node.depthNode node)) (prepare env fetch node) := by
  have hbody {body : List Node} (h : Node.inclusions body ++ [] ++ [] = []) : Node.inclusions body = [] := by
    simpa using h
  cases node with
  | literal text => exact .pure trivial
  | comment => exact .pure trivial
  | inclusion name indent => cases hnode
  | interpolation name escaped =>
    refine (Succeeds.resolve hmissing name).bind fun v hv => ?_
    obtain ⟨text, htext⟩ := hv.exists_text
    cases hv with
    | _ =>
      simp only [htext]
      exact .pure trivial
  | block name body raw delimiters =>
    refine (Succeeds.resolve hmissing name).bind fun v hv => ?_
    have hjob := Job.withinLevels_ofBlock (hbody hnode) hv name
    cases hv with
    | _ => exact .pure hjob
  | inverted name body =>
    refine (Succeeds.resolve hmissing name).bind fun v hv => .pure ?_
    split
    · trivial
    · exact ⟨Nat.lt_succ_self _, hbody hnode, nofun⟩

theorem Inner.write_succeeds {inner : Inner} {write : List Node → Run σ Unit}
    (hwrite : Succeeds (fun _ => True) (write inner.nodes)) (hframes : ∀ frames ∈ inner.frames?, ∀ frame ∈ frames, frame.IsData) :
    Succeeds (fun _ => True) (inner.write write) := by
  rw [Inner.write]
  cases h : inner.frames? with
  | none => exact hwrite
  | some frames => exact .forM fun frame hframe => .withFrame (hframes frames h frame hframe) hwrite

/-- A job within the levels that are left can be done, if a template within one level less can be written. -/
theorem Job.write_succeeds {levels : Nat} {job : Job} (h : job.WithinLevels levels)
    (hbelow : ∀ levels', levels = levels' + 1 → ∀ nodes, Node.depth nodes ≤ levels' → Node.inclusions nodes = [] →
      Succeeds (fun _ => True) (writeTree env levels' nodes)) :
    Succeeds (fun _ => True) (job.write env (below env levels)) := by
  cases job with
  | nothing => exact .pure trivial
  | plain text => exact .emit text
  | deeper inner filter? =>
    obtain ⟨hdepth, hinclusions, hframes⟩ := h
    cases levels with
    | zero => cases hdepth
    | succ levels =>
      have hwrite := hbelow levels rfl inner.nodes (Nat.le_of_lt_succ hdepth) hinclusions
      have hnested := Succeeds.nested env inner.nesting inner.name (Inner.write_succeeds hwrite hframes)
      cases filter? with
      | none => exact hnested
      | some filter => exact hnested.captured.bind fun text _ => .emit _

/-- Over data, a template without partials can be written with as many levels as it nests. -/
theorem writeTree_succeeds (hmissing : env.settings.missingTags = .ignore) {levels : Nat} {nodes : List Node}
    (hdepth : Node.depth nodes ≤ levels) (hnodes : Node.inclusions nodes = []) :
    Succeeds (fun _ => True) (writeTree env levels nodes) := by
  induction levels using Nat.strongRecOn generalizing nodes with
  | ind levels ih =>
    have hbelow : ∀ levels', levels = levels' + 1 → ∀ nodes, Node.depth nodes ≤ levels' → Node.inclusions nodes = [] →
        Succeeds (fun _ => True) (writeTree env levels' nodes) := by
      rintro levels' rfl nodes hdepth hnodes
      exact ih levels' (Nat.lt_succ_self levels') hdepth hnodes
    induction nodes with
    | nil =>
      rw [writeTree_eq]
      exact .pure trivial
    | cons node nodes ihnodes =>
      rw [Node.depth_cons] at hdepth
      rw [Node.inclusions_cons, List.append_eq_nil_iff] at hnodes
      have hnode : Succeeds (fun _ => True) (writeNode env (below env levels) node) := by
        rw [writeNode_eq]
        refine (prepare_succeeds hmissing (partialTree env) hnodes.1).bind fun job hjob => ?_
        exact Job.write_succeeds (hjob.mono (by omega)) hbelow
      rw [writeTree_cons]
      exact hnode.bind fun _ _ => ihnodes (by omega) hnodes.2

end Levels
end Render

namespace Renderer

open Render

variable {σ : Type}

/-- A template that names no partials can be rendered over any plain data, unless names have to have values: if the settings
allow as many levels as sections can be open in a template, then they never stop it. -/
theorem render_data {r : Renderer} (hmissing : r.settings.missingTags = .ignore)
    (hdepth : maxOpenSections ≤ r.settings.maxDepth) {source : String} {nodes : List Node}
    (hparse : parse r.settings.delimiters source = .ok nodes) (hnodes : Node.inclusions nodes = []) {data : Value}
    (hdata : data.IsData) (host : Host σ) (memory : σ) :
    ∃ output, (r.renderValue host memory source data).result = .ok output := by
  have hlevels : Node.depth nodes ≤ r.settings.maxDepth := Nat.le_trans (depth_le_of_parse hparse) hdepth
  have hcontext : (Context.ofValue data).IsData := Context.All.ofValue hdata
  have hwrite : Succeeds (fun _ => True) (writeTree ⟨r.settings, host⟩ r.settings.maxDepth nodes) :=
    writeTree_succeeds hmissing hlevels hnodes
  obtain ⟨output, s, hrun, -, -⟩ := hwrite.captured ⟨.ofValue data, [], "", memory, []⟩ hcontext
  refine ⟨output, ?_⟩
  rw [renderValue, renderContext, compile, Template.parse, hparse]
  simp only [renderNodes, hrun]

/-- A list of maps in a map. -/
theorem render_data_of_nested :
    let nodes := [.block "a" [.interpolation "b" true] "\x7b\x7bb\x7d\x7d" .standard]
    let data : Value := .map [("a", .list [.map [("b", .string "<")], .null])]
    let host : Host Unit := ⟨fun _ _ memory => (.null, memory), none⟩
    standard.settings.missingTags = .ignore ∧ maxOpenSections ≤ standard.settings.maxDepth ∧
      parse standard.settings.delimiters "\x7b\x7b#a\x7d\x7d\x7b\x7bb\x7d\x7d\x7b\x7b/a\x7d\x7d" = .ok nodes ∧
      Node.inclusions nodes = [] ∧ data.IsData ∧
      ∃ output, (standard.renderValue host () "\x7b\x7b#a\x7d\x7d\x7b\x7bb\x7d\x7d\x7b\x7b/a\x7d\x7d" data).result = .ok output := by
  have hparse : parse .standard "\x7b\x7b#a\x7d\x7d\x7b\x7bb\x7d\x7d\x7b\x7b/a\x7d\x7d" =
      .ok [.block "a" [.interpolation "b" true] "\x7b\x7bb\x7d\x7d" .standard] := by cbv
  intro nodes data host
  have hnodes : Node.inclusions nodes = [] := rfl
  have hdata : data.IsData := by
    refine .map (List.forall_mem_singleton.mpr (.list (List.forall_mem_cons.mpr ⟨.map ?_, ?_⟩)))
    · exact List.forall_mem_singleton.mpr (.string "<")
    · exact List.forall_mem_singleton.mpr .null
  exact ⟨rfl, Nat.le_refl _, hparse, hnodes, hdata, render_data rfl (Nat.le_refl _) hparse hnodes hdata host ()⟩

end Renderer
end Stencil
