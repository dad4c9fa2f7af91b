import Stencil.Proofs.Plain
import Stencil.Proofs.Render.Restore

/-!
# Sections and inverted sections

A section and an inverted section on the same value complement each other: one of them writes the body and the other does
nothing. Whether a value holds is decided for both alike, while only a section goes through items; an object that claims to hold
and is an empty list slips through between the two (`block_complement`).
-/

namespace Stencil.Render

variable {σ : Type}

section Values

variable {env : Env σ} {level : Level σ} {name : String} {s : State σ} {v : Value}
  (hv : valueOf env.settings name (s.context.get? name) = .ok v)

include hv

theorem resolve_of_value : resolve env name s = (.ok v, s) := by
  rw [resolve_apply, hv]

theorem valueText_of_value (hlambda : v.isLambda = false) : valueText env level name s = (v.text, s) := by
  rw [valueText, bind_of_ok (resolve_of_value hv)]
  cases v with
  | lambda => cases hlambda
  | _ => rfl

theorem writeBlock_of_value (hlambda : v.isLambda = false) (body : List Node) (raw : String) (d : Delimiters) :
    writeBlock env level name body raw d s = writeOver env level name body v s := by
  rw [writeBlock, bind_of_ok (resolve_of_value hv)]
  cases v with
  | lambda => cases hlambda
  | _ => rfl

theorem writeInverted_of_value (body : List Node) : writeInverted env level name body s =
    (if v.holds then pure () else nested env level .block name fun write => write body) s := by
  rw [writeInverted, bind_of_ok (resolve_of_value hv)]

end Values

/-- The frames are left as they were. -/
def KeepsFrames (x : Run σ Unit) : Prop := Leads (fun s s' => s'.context = s.context) x

theorem keepsFrames_writeTree (env : Env σ) (levels : Nat) (nodes : List Node) : KeepsFrames (writeTree env levels nodes) :=
  fun s => ((restores_law env).writeTree levels nodes s).context_eq

/-- Does `x` over other frames and puts back those that were there. -/
def inContext (c : Context) (x : Run σ Unit) : Run σ Unit := fun s =>
  let (result, after) := x { s with context := c }
  (result, { after with context := s.context })

/-- Writes the body over each of the contexts in turn, within one level of nesting, or does nothing if there is none. -/
def writeOverEach (env : Env σ) (level : Level σ) (name : String) (body : List Node) (contexts : List Context) : Run σ Unit :=
  if contexts = [] then pure ()
  else nested env level .block name fun write => contexts.forM fun c => inContext c (write body)

/-- From `s`, `x` comes to the body being written over each of the contexts in turn and to nothing else, whatever is written for
templates one level further down. -/
def Renders (env : Env σ) (name : String) (body : List Node) (contexts : List Context) (x : Level σ → Run σ Unit)
    (s : State σ) : Prop :=
  ∀ write : List Node → Run σ Unit, (∀ nodes, KeepsFrames (write nodes)) →
    x (some write) s = writeOverEach env (some write) name body contexts s

section Frames

variable {x : Run σ Unit} (hx : KeepsFrames x)

include hx

theorem withFrame_eq_inContext (frame : Value) (s : State σ) : withFrame frame x s = inContext (s.context.push frame) x s := by
  let entered : State σ := { s with context := s.context.push frame }
  have hcontext : (x entered).2.context = s.context.push frame := hx entered
  change ((x entered).1, { (x entered).2 with context := (x entered).2.context.truncate s.context.size }) =
    ((x entered).1, { (x entered).2 with context := s.context })
  rw [hcontext, Context.truncate_size_push]

theorem inContext_self (s : State σ) : inContext s.context x s = x s := by
  have hcontext : (x s).2.context = s.context := hx s
  rcases hrun : x s with ⟨result, s'⟩
  rw [hrun] at hcontext
  rw [inContext, hrun, ← hcontext]

/-- The frames of a section are put over the same frames one after the other. -/
theorem forM_withFrame (frames : List Value) (s : State σ) :
    (frames.forM fun frame => withFrame frame x) s = ((frames.map s.context.push).forM fun c => inContext c x) s := by
  induction frames generalizing s with
  | nil => rfl
  | cons frame frames ih =>
    change (withFrame frame x >>= fun _ => frames.forM fun frame => withFrame frame x) s =
      (inContext (s.context.push frame) x >>= fun _ => (frames.map s.context.push).forM fun c => inContext c x) s
    rcases hrun : inContext (s.context.push frame) x s with ⟨result, s'⟩
    have hframe := (withFrame_eq_inContext hx frame s).trans hrun
    have hcontext : s'.context = s.context := congrArg (fun run => run.2.context) hrun.symm
    cases result with
    | error e => rw [bind_of_error hframe, bind_of_error hrun]
    | ok => rw [bind_of_ok hframe, bind_of_ok hrun, ih, hcontext]

end Frames

section Complement

variable {env : Env σ} {name : String} {body : List Node} {s : State σ} {v : Value}

theorem nested_congr {write : List Node → Run σ Unit} {nesting : Nesting} {x y : (List Node → Run σ Unit) → Run σ Unit}
    (h : x write (s.note (.enter nesting name)) = y write (s.note (.enter nesting name))) :
    nested env (some write) nesting name x s = nested env (some write) nesting name y s := by
  rw [nested_of_eq h, nested_of_eq rfl]

theorem writeOverEach_of_ne_nil {level : Level σ} {contexts : List Context} (h : contexts ≠ []) :
    writeOverEach env level name body contexts =
      nested env level .block name fun write => contexts.forM fun c => inContext c (write body) := if_neg h

/-- If the body is written at all, then a failure to write it shows. -/
theorem Renders.eq_nil {x : Level σ → Run σ Unit} {contexts : List Context} (h : Renders env name body contexts x s)
    (hnil : Renders env name body [] x s) : contexts = [] := by
  let fails (_ : List Node) : Run σ Unit := throw (.keyNotFound name)
  have hkeeps (nodes : List Node) : KeepsFrames (fails nodes) := fun _ => rfl
  cases contexts with
  | nil => rfl
  | cons c contexts =>
    have hrun := (h fails hkeeps).symm.trans (hnil fails hkeeps)
    rw [writeOverEach_of_ne_nil (List.cons_ne_nil _ _)] at hrun
    cases congrArg Prod.fst hrun

section Routines

variable (hv : valueOf env.settings name (s.context.get? name) = .ok v)

include hv

theorem renders_inverted_of_holds (hholds : v.holds = true) :
    Renders env name body [] (fun level => writeNode env level (.inverted name body)) s := by
  intro write _
  change writeInverted env (some write) name body s = _
  rw [writeInverted_of_value hv, if_pos hholds]
  rfl

theorem renders_inverted_of_not_holds (hholds : v.holds = false) :
    Renders env name body [s.context] (fun level => writeNode env level (.inverted name body)) s := by
  intro write hwrite
  change writeInverted env (some write) name body s = _
  rw [writeInverted_of_value hv, if_neg (by simp [hholds]), writeOverEach_of_ne_nil (List.cons_ne_nil _ _)]
  apply nested_congr
  let entered := s.note (.enter .block name)
  change write body entered = (inContext entered.context (write body) >>= fun _ => pure ()) entered
  rw [bind_pure_unit, inContext_self (hwrite body)]

variable (hlambda : v.isLambda = false) (raw : String) (d : Delimiters)

include hlambda

theorem renders_block_of_not_holds (hholds : v.holds = false) :
    Renders env name body [] (fun level => writeNode env level (.block name body raw d)) s := by
  intro write _
  change writeBlock env (some write) name body raw d s = _
  rw [writeBlock_of_value hv hlambda, writeOver, if_neg (by simp [hholds])]
  rfl

theorem renders_block_of_holds (hholds : v.holds = true) (hframes : v.items?.getD [v] ≠ []) :
    Renders env name body ((v.items?.getD [v]).map s.context.push)
      (fun level => writeNode env level (.block name body raw d)) s := by
  intro write hwrite
  change writeBlock env (some write) name body raw d s = _
  rw [writeBlock_of_value hv hlambda, writeOver, if_pos hholds, writeOverEach_of_ne_nil (by simpa using hframes)]
  apply nested_congr
  exact forM_withFrame (hwrite body) (v.items?.getD [v]) (s.note (.enter .block name))

end Routines

theorem writeOver_list_singleton (hholds : v.holds = true) (hitems : v.items? = none) (level : Level σ) :
    writeOver env level name body v = writeOver env level name body (.list [v]) := by
  have hlist : (Value.list [v]).holds = true := rfl
  rw [writeOver, writeOver, if_pos hholds, if_pos hlist, hitems]
  rfl

/-- Of a section and an inverted section on the same value, one does nothing. If that is the section, then the inverted section
writes its body once, over the frames that are there; otherwise the section writes it over each item of a list, or else once
over the value, as it does over a list of that value alone. All this is said of any way to write bodies that keeps the frames,
which a level that is free in a rendering does. -/
theorem block_complement (hv : valueOf env.settings name (s.context.get? name) = .ok v) (hlambda : v.isLambda = false)
    (hempty : ¬ (v.holds = true ∧ v.items? = some [])) (body : List Node) (raw : String) (d : Delimiters) :
    let block := fun level => writeNode env level (.block name body raw d)
    let inverted := fun level => writeNode env level (.inverted name body)
    (Renders env name body [s.context] inverted s ↔ Renders env name body [] block s) ∧
      (¬ Renders env name body [s.context] inverted s →
        Renders env name body [] inverted s ∧
          (∀ items, v.items? = some items → items ≠ [] ∧ Renders env name body (items.map s.context.push) block s) ∧
          (v.items? = none → Renders env name body [s.context.push v] block s)) ∧
      (v.holds = true → v.items? = none →
        ∀ level, writeOver env level name body v = writeOver env level name body (.list [v])) ∧
      ∀ levels, 0 < levels → ∃ write, below env levels = some write ∧ ∀ nodes, KeepsFrames (write nodes) := by
  intro block inverted
  have hlevels (levels : Nat) (h : 0 < levels) :
      ∃ write, below env levels = some write ∧ ∀ nodes, KeepsFrames (write nodes) := by
    cases levels with
    | zero => cases h
    | succ levels => exact ⟨_, rfl, keepsFrames_writeTree env levels⟩
  suffices hparts : _ ∧ _ from ⟨hparts.1, hparts.2, writeOver_list_singleton, hlevels⟩
  cases hholds : v.holds with
  | false =>
    have hinverted : Renders env name body [s.context] inverted s := renders_inverted_of_not_holds hv hholds
    have hblock : Renders env name body [] block s := renders_block_of_not_holds hv hlambda raw d hholds
    exact ⟨iff_of_true hinverted hblock, fun hnot => absurd hinverted hnot⟩
  | true =>
    have hframes : v.items?.getD [v] ≠ [] := by
      cases hitems : v.items? with
      | none => simp
      | some items => simpa [hholds, hitems] using hempty
    have hinverted : Renders env name body [] inverted s := renders_inverted_of_holds hv hholds
    have hblock : Renders env name body _ block s := renders_block_of_holds hv hlambda raw d hholds hframes
    constructor
    · apply iff_of_false
      · intro h
        cases h.eq_nil hinverted
      · intro h
        exact hframes (List.map_eq_nil_iff.mp (hblock.eq_nil h))
    · intro _
      refine ⟨hinverted, ?_, ?_⟩
      · intro items hitems
        rw [hitems] at hframes hblock
        exact ⟨hframes, hblock⟩
      · intro hitems
        rw [hitems] at hblock
        exact hblock

/-- A list holds although none of its items does. -/
theorem block_complement_of_falsy_items :
    let env : Env Unit := ⟨.standard, ⟨fun _ _ memory => (.null, memory), none⟩⟩
    let v : Value := .list [.bool false, .null]
    let s : State Unit := ⟨.ofValue (.map [("a", v)]), [], "", (), []⟩
    let inverted := fun level => writeNode env level (.inverted "a" [.literal "x"])
    let block := fun level => writeNode env level (.block "a" [.literal "x"] "x" .standard)
    valueOf env.settings "a" (s.context.get? "a") = .ok v ∧ v.isLambda = false ∧
      ¬ (v.holds = true ∧ v.items? = some []) ∧
      ¬ Renders env "a" [.literal "x"] [s.context] inverted s ∧
      Renders env "a" [.literal "x"] [s.context.push (.bool false), s.context.push .null] block s := by
  intro env v s inverted block
  have hv : valueOf env.settings "a" (s.context.get? "a") = .ok v := rfl
  have hempty : ¬ (v.holds = true ∧ v.items? = some []) := fun h => List.cons_ne_nil _ _ (Option.some.inj h.2)
  have hnot : ¬ Renders env "a" [.literal "x"] [s.context] inverted s := by
    intro h
    cases congrArg Prod.fst (h (fun _ => throw (.keyNotFound "a")) fun _ _ => rfl)
  have hparts := block_complement hv rfl hempty [.literal "x"] "x" .standard
  exact ⟨hv, rfl, hempty, hnot, ((hparts.2.1 hnot).2.1 _ rfl).2⟩

end Complement

end Stencil.Render
