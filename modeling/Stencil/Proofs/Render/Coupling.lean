import Stencil.Proofs.Contents
import Stencil.Proofs.Render.Job

/-!
# Coupled renderings

Two renderings are followed side by side. They may be told different things, find the templates of partials in different ways
and have different levels of nesting to go. What is compared of them can be chosen: which states belong together, what names
may stand for, which templates may be written, and after which failures of the first nothing is asked of the second. If they
agree on what a node comes to (`Agreement`) and their states stay together over frames, levels and outputs (`Coupling`), then
they agree on whole templates (`Coupling.writeWith`).
-/

namespace Stencil.Render

variable {σ α β : Type}

/-- Writes a template as `writeTree` does, where `fetch` finds the templates of partials. -/
def writeWith (env : Env σ) (fetch : Inclusion → Run σ (Option (List Node))) : Nat → List Node → Run σ Unit
  | 0, nodes => nodes.forM fun node => prepare env fetch node >>= Job.write env none
  | levels + 1, nodes => nodes.forM fun node => prepare env fetch node >>= Job.write env (some (writeWith env fetch levels))

theorem writeTree_eq_writeWith (env : Env σ) (levels : Nat) :
    writeTree env levels = writeWith env (partialTree env) levels := by
  induction levels with
  | zero =>
    funext nodes
    rw [writeTree_eq, funext (writeNode_eq env (below env 0))]
    rfl
  | succ levels ih =>
    funext nodes
    rw [writeTree_eq, funext (writeNode_eq env (below env (levels + 1))), writeWith, ← ih]
    rfl

/-- From states that `R` relates, `x` and `y` come to the same result, of which `Q` is true if it is a success, and to such
states again. If `x` fails in a way that is excused, nothing is asked of `y`. -/
def Coupled (excuses : Error → Prop) (R : State σ → State σ → Prop) (Q : α → Prop) (x y : Run σ α) : Prop :=
  ∀ s t, R s t → (∃ e, (x s).1 = .error e ∧ excuses e) ∨
    ((x s).1 = (y t).1 ∧ R (x s).2 (y t).2 ∧ ∀ a, (x s).1 = .ok a → Q a)

namespace Coupled

variable {excuses : Error → Prop} {R : State σ → State σ → Prop} {Q : α → Prop} {Q' : β → Prop}

theorem bind {x y : Run σ α} {f g : α → Run σ β} (hxy : Coupled excuses R Q x y)
    (hfg : ∀ a, Q a → Coupled excuses R Q' (f a) (g a)) : Coupled excuses R Q' (x >>= f) (y >>= g) := by
  intro s t hst
  have hrun := hxy s t hst
  rcases hx : x s with ⟨result, s'⟩
  rcases hy : y t with ⟨result', t'⟩
  rw [hx, hy] at hrun
  cases result with
  | error e =>
    rw [bind_of_error hx]
    rcases hrun with ⟨e', he, hexcused⟩ | ⟨rfl, hafter, -⟩
    · exact .inl ⟨e', congrArg Except.error (Except.error.inj he), hexcused⟩
    · rw [bind_of_error hy]
      exact .inr ⟨rfl, hafter, fun _ => nofun⟩
  | ok a =>
    rcases hrun with ⟨e', he, -⟩ | ⟨rfl, hafter, hQ⟩
    · cases he
    · rw [bind_of_ok hx, bind_of_ok hy]
      exact hfg a (hQ a rfl) s' t' hafter

theorem forM {f g : α → Run σ Unit} {as : List α}
    (hfg : ∀ a ∈ as, Coupled excuses R (fun _ => True) (f a) (g a)) :
    Coupled excuses R (fun _ => True) (as.forM f) (as.forM g) := by
  induction as with
  | nil => exact fun s t hst => .inr ⟨rfl, hst, fun _ _ => trivial⟩
  | cons a as ih =>
    have hrest := ih fun b hb => hfg b (List.mem_cons_of_mem a hb)
    exact (hfg a List.mem_cons_self).bind fun _ _ => hrest

/-- What does not look at the state and leaves it alone. -/
theorem still {x : Run σ α} (result : Except Error α) (hx : ∀ s, x s = (result, s)) (hQ : ∀ a, result = .ok a → Q a) :
    Coupled excuses R Q x x := by
  intro s t hst
  rw [hx, hx]
  exact .inr ⟨rfl, hst, hQ⟩

theorem pure {a : α} (h : Q a) : Coupled excuses R Q (Pure.pure a : Run σ α) (Pure.pure a) :=
  still (.ok a) (fun _ => rfl) fun _ hb => Except.ok.inj hb ▸ h

theorem throw (e : Error) : Coupled excuses R Q (MonadExcept.throw e : Run σ α) (MonadExcept.throw e) :=
  still (.error e) (fun _ => rfl) fun _ => nofun

end Coupled

/-- What lambdas answer has been read from a text. -/
theorem exists_parse_of_answerTree {name : String} {d : Delimiters} {v : Value} {tree : List Node}
    (h : answerTree name d v = .ok tree) : ∃ source, parse d source = .ok tree := by
  rw [answerTree, scalar] at h
  split at h
  · cases htext : v.text with
    | error e =>
      simp only [htext, bind, Except.bind] at h
      cases h
    | ok source =>
      simp only [htext, bind, Except.bind, readTree] at h
      refine ⟨source, ?_⟩
      cases hparse : parse d source with
      | error e =>
        rw [hparse] at h
        cases h
      | ok nodes =>
        rw [hparse] at h
        rw [Except.ok.inj h]
  · cases h

def Env.filter (env : Env σ) (escaped : Bool) : String → String := if escaped then env.settings.escape else env.settings.literal

/-- Both are told to read and to filter alike. -/
structure Env.Matches (env env' : Env σ) : Prop where
  filter_eq : ∀ escaped, env'.filter escaped = env.filter escaped
  delimiters_eq : env'.settings.delimiters = env.settings.delimiters

theorem Env.Matches.refl (env : Env σ) : env.Matches env := ⟨fun _ => rfl, rfl⟩

/-- What is compared of two renderings when they find out what nodes come to. -/
structure Agreement (env env' : Env σ) (fetch fetch' : Inclusion → Run σ (Option (List Node))) where
  /-- The states that belong together. -/
  states : State σ → State σ → Prop
  /-- The failures after which nothing is asked of the second rendering. -/
  excuses : Error → Prop
  /-- What names may stand for. -/
  values : Value → Prop
  /-- The templates that may be written. -/
  trees : List Node → Prop
  /-- The templates of partials. -/
  partials : List Node → Prop
  envs : env.Matches env'
  resolve : ∀ {node}, trees [node] → ∀ name ∈ Node.lookups [node],
    Coupled excuses states values (resolve env name) (resolve env' name)
  call : ∀ {l}, values (.lambda l) → ∀ argument?,
    Coupled excuses states (fun _ => True) (call env l argument?) (call env' l argument?)
  answer : ∀ {l}, values (.lambda l) → ∀ {d source tree}, parse d source = .ok tree → trees tree
  scalar : ∀ {v}, v.isScalar = true → values v
  fetch : ∀ {name indent}, trees [.inclusion name indent] →
    Coupled excuses states (fun tree? => ∀ tree ∈ tree?, partials tree) (fetch ⟨name, indent⟩) (fetch' ⟨name, indent⟩)

namespace Agreement

variable {env env' : Env σ} {fetch fetch' : Inclusion → Run σ (Option (List Node))} (A : Agreement env env' fetch fetch')

/-- What a node can come to. -/
inductive Comes : Node → Job → Prop
  | literal (text : String) : Comes (.literal text) (.plain text)
  | comment : Comes .comment .nothing
  | value (name : String) (escaped : Bool) (text : String) :
    Comes (.interpolation name escaped) (.plain (env.filter escaped text))
  | valueAnswer (name : String) (escaped : Bool) {tree : List Node} (h : A.trees tree) :
    Comes (.interpolation name escaped) (.deeper ⟨.lambda, name, tree, none⟩ (some (env.filter escaped)))
  | block (name : String) (body : List Node) (raw : String) (d : Delimiters) {v : Value} (h : A.values v) :
    Comes (.block name body raw d) (.ofBlock name body v)
  | blockAnswer (name : String) (body : List Node) (raw : String) (d : Delimiters) {l : Lambda} {tree : List Node}
    (hl : A.values (.lambda l)) (harity : l.arity = .unary) (h : A.trees tree) :
    Comes (.block name body raw d) (.deeper ⟨.lambda, name, tree, none⟩ none)
  | inverted (name : String) (body : List Node) : Comes (.inverted name body) (.deeper ⟨.block, name, body, none⟩ none)
  | skipped (name : String) (body : List Node) : Comes (.inverted name body) .nothing
  | inclusion (name indent : String) {tree : List Node} (h : A.partials tree) :
    Comes (.inclusion name indent) (.deeper ⟨.inclusion, name, tree, none⟩ none)
  | missing (name indent : String) : Comes (.inclusion name indent) .nothing

variable {A}

theorem answerTree {Q : β → Prop} {l : Lambda} (hl : A.values (.lambda l)) (argument? : Option String) (name : String)
    (d : Delimiters) {f g : List Node → Run σ β} (hfg : ∀ tree, A.trees tree → Coupled A.excuses A.states Q (f tree) (g tree)) :
    Coupled A.excuses A.states Q (Render.call env l argument? >>= fun v => liftM (Render.answerTree name d v) >>= f)
      (Render.call env' l argument? >>= fun v => liftM (Render.answerTree name d v) >>= g) := by
  refine (A.call hl argument?).bind fun v _ => ?_
  refine (Coupled.still (Q := A.trees) (Render.answerTree name d v) (fun _ => rfl) fun tree htree => ?_).bind hfg
  obtain ⟨source, hparse⟩ := exists_parse_of_answerTree htree
  exact A.answer hl hparse

/-- Both renderings find the same for a node. -/
theorem prepare {node : Node} (h : A.trees [node]) :
    Coupled A.excuses A.states (A.Comes node) (prepare env fetch node) (prepare env' fetch' node) := by
  cases node with
  | literal text => exact .pure (.literal text)
  | comment => exact .pure .comment
  | interpolation name escaped =>
    have hfilter : (if escaped then env'.settings.escape else env'.settings.literal) = env.filter escaped :=
      A.envs.filter_eq escaped
    simp only [Render.prepare, hfilter, A.envs.delimiters_eq]
    refine (A.resolve h name List.mem_cons_self).bind fun v hv => ?_
    cases v with
    | lambda l =>
      simp only
      cases l.arity with
      | unary => exact .throw _
      | nullary => exact answerTree hv none name _ fun tree htree => .pure (.valueAnswer name escaped htree)
    | _ =>
      refine (Coupled.still (Q := fun _ => True) _ (fun _ => rfl) fun _ _ => trivial).bind fun text _ => ?_
      exact .pure (.value name escaped text)
  | block name body raw d =>
    refine (A.resolve h name List.mem_cons_self).bind fun v hv => ?_
    cases v with
    | lambda l =>
      simp only
      cases harity : l.arity with
      | unary => exact answerTree hv (some raw) name d fun tree htree => .pure (.blockAnswer name body raw d hv harity htree)
      | nullary =>
        refine (A.call hv none).bind fun v _ => ?_
        refine (Coupled.still (Q := A.values) (Render.scalar name v) (fun _ => rfl) fun v' hv' => ?_).bind fun v' hv' =>
          .pure (.block name body raw d hv')
        rw [Render.scalar] at hv'
        split at hv'
        · next hscalar => exact Except.ok.inj hv' ▸ A.scalar hscalar
        · cases hv'
    | _ => exact .pure (.block name body raw d hv)
  | inverted name body =>
    refine (A.resolve h name List.mem_cons_self).bind fun v _ => .pure ?_
    cases v.holds with
    | true => exact .skipped name body
    | false => exact .inverted name body
  | inclusion name indent =>
    refine (A.fetch h).bind fun tree? htree? => ?_
    cases tree? with
    | none => exact .pure (.missing name indent)
    | some tree => exact .pure (.inclusion name indent (htree? tree rfl))

end Agreement

/-- Two renderings that agree on what nodes come to, and whose states stay together when they do it. -/
structure Coupling (env env' : Env σ) (fetch fetch' : Inclusion → Run σ (Option (List Node))) extends
    Agreement env env' fetch fetch' where
  trees_cons : ∀ {node nodes}, trees (node :: nodes) → trees [node] ∧ trees nodes
  trees_block : ∀ {name body raw d}, trees [.block name body raw d] → trees body
  trees_inverted : ∀ {name body}, trees [.inverted name body] → trees body
  trees_partial : ∀ {tree}, partials tree → trees tree
  values_frame : ∀ {v}, values v → ∀ frame ∈ v.items?.getD [v], values frame
  output_eq : ∀ {s t}, states s t → s.output = t.output
  write : ∀ {s t}, states s t → ∀ output, states { s with output } { t with output }
  enter : ∀ {s t}, states s t → ∀ nesting name, states (s.note (.enter nesting name)) (t.note (.enter nesting name))
  leave : ∀ {s t}, states s t → states (s.note .leave) (t.note .leave)
  push : ∀ {s t}, states s t → ∀ {frame}, values frame →
    states { s with context := s.context.push frame } { t with context := t.context.push frame }
  truncate : ∀ {s t s' t'}, states s t → states s' t' →
    states { s' with context := s'.context.truncate s.context.size } { t' with context := t'.context.truncate t.context.size }

namespace Coupling

variable {env env' : Env σ} {fetch fetch' : Inclusion → Run σ (Option (List Node))} (C : Coupling env env' fetch fetch')

/-- The runs come to the same and leave the states together. -/
abbrev Tracks (x y : Run σ α) : Prop := Coupled C.excuses C.states (fun _ => True) x y

/-- The job writes a template that may be written, over frames that names may stand for. -/
def Covers : Job → Prop
  | .nothing | .plain _ => True
  | .deeper inner _ => C.trees inner.nodes ∧ ∀ frames ∈ inner.frames?, ∀ frame ∈ frames, C.values frame

/-- What is left of the levels on either side: the second rendering may have more of them if the first is excused for failing
without. -/
def OnLevels : Level σ → Level σ → Prop
  | none, none => env'.settings.maxDepth = env.settings.maxDepth ∨
      ∀ nesting name, C.excuses (.render (.tooDeep nesting name env.settings.maxDepth))
  | none, some _ => ∀ nesting name, C.excuses (.render (.tooDeep nesting name env.settings.maxDepth))
  | some write, some write' => ∀ nodes, C.trees nodes → C.Tracks (write nodes) (write' nodes)
  | some _, none => False

variable {C}

theorem covers_of_comes {node : Node} {job : Job} (hnode : C.trees [node]) (h : C.Comes node job) : C.Covers job := by
  cases h with
  | literal | comment | value | skipped | missing => trivial
  | valueAnswer name escaped htree => exact ⟨htree, nofun⟩
  | block name body raw d hv =>
    rw [Job.ofBlock]
    split
    · refine ⟨C.trees_block hnode, ?_⟩
      rintro _ ⟨⟩
      exact C.values_frame hv
    · trivial
  | blockAnswer name body raw d hl harity htree => exact ⟨htree, nofun⟩
  | inverted name body => exact ⟨C.trees_inverted hnode, nofun⟩
  | inclusion name indent htree => exact ⟨C.trees_partial htree, nofun⟩

theorem emit (text : String) : C.Tracks (emit text) (emit text) := by
  intro s t hst
  have hwritten := C.write hst (s.output ++ text)
  refine .inr ⟨rfl, ?_, fun _ _ => trivial⟩
  change C.states { s with output := s.output ++ text } { t with output := t.output ++ text }
  rwa [C.output_eq hst] at hwritten ⊢

theorem withFrame {x y : Run σ Unit} {frame : Value} (hframe : C.values frame) (h : C.Tracks x y) :
    C.Tracks (withFrame frame x) (withFrame frame y) := by
  intro s t hst
  refine (h _ _ (C.push hst hframe)).imp_right fun ⟨hresult, hafter, _⟩ => ?_
  exact ⟨hresult, C.truncate hst hafter, fun _ _ => trivial⟩

theorem captured {x y : Run σ Unit} (h : C.Tracks x y) : C.Tracks (captured x) (captured y) := by
  intro s t hst
  have hrun := h _ _ (C.write hst "")
  rcases hx : x { s with output := "" } with ⟨result, s'⟩
  rcases hy : y { t with output := "" } with ⟨result', t'⟩
  rw [captured_of_eq hx, captured_of_eq hy]
  rw [hx, hy] at hrun
  rcases hrun with ⟨e, rfl, hexcused⟩ | ⟨rfl, hafter, -⟩
  · exact .inl ⟨e, rfl, hexcused⟩
  · have hrestored := C.truncate hst (C.write hafter s.output)
    refine .inr ⟨?_, ?_, fun _ _ => trivial⟩
    · exact congrArg (fun text => result.map fun _ => text) (C.output_eq hafter)
    · simp only [Context.popTo_eq_truncate]
      rwa [C.output_eq hst] at hrestored ⊢

section Levels

variable {level level' : Level σ} (hlevel : C.OnLevels level level')

include hlevel

theorem nested (nesting : Nesting) (name : String) {x : (List Node → Run σ Unit) → Run σ Unit}
    (hx : ∀ write write', (∀ nodes, C.trees nodes → C.Tracks (write nodes) (write' nodes)) → C.Tracks (x write) (x write')) :
    C.Tracks (nested env level nesting name x) (nested env' level' nesting name x) := by
  intro s t hst
  cases level with
  | none =>
    cases level' with
    | none =>
      rcases hlevel with hdepth | hexcused
      · refine .inr ⟨?_, hst, fun _ => nofun⟩
        change Except.error _ = Except.error (Error.render (.tooDeep nesting name env'.settings.maxDepth))
        rw [hdepth]
      · exact .inl ⟨_, rfl, hexcused nesting name⟩
    | some write' => exact .inl ⟨_, rfl, hlevel nesting name⟩
  | some write =>
    cases level' with
    | none => exact hlevel.elim
    | some write' =>
      refine (hx write write' hlevel _ _ (C.enter hst nesting name)).imp_right fun ⟨hresult, hafter, _⟩ => ?_
      exact ⟨hresult, C.leave hafter, fun _ _ => trivial⟩

theorem job {job : Job} (h : C.Covers job) : C.Tracks (job.write env level) (job.write env' level') := by
  cases job with
  | nothing => exact .pure trivial
  | plain text => exact emit text
  | deeper inner filter? =>
    obtain ⟨hnodes, hframes⟩ := h
    have hnested : C.Tracks (Render.nested env level inner.nesting inner.name inner.write)
        (Render.nested env' level' inner.nesting inner.name inner.write) := by
      refine nested hlevel _ _ fun write write' hwrite => ?_
      rw [Inner.write, Inner.write]
      cases hinner : inner.frames? with
      | none => exact hwrite inner.nodes hnodes
      | some frames => exact .forM fun frame hframe => withFrame (hframes frames hinner frame hframe) (hwrite inner.nodes hnodes)
    cases filter? with
    | none => exact hnested
    | some filter => exact (captured hnested).bind fun text _ => emit (filter text)

theorem nodes {nodes : List Node} (h : C.trees nodes) :
    C.Tracks (nodes.forM fun node => prepare env fetch node >>= Job.write env level)
      (nodes.forM fun node => prepare env' fetch' node >>= Job.write env' level') := by
  induction nodes with
  | nil => exact .pure trivial
  | cons node nodes ih =>
    obtain ⟨hnode, hnodes⟩ := C.trees_cons h
    have hfirst : C.Tracks (prepare env fetch node >>= Job.write env level)
        (prepare env' fetch' node >>= Job.write env' level') :=
      (Agreement.prepare hnode).bind fun j hj => job hlevel (covers_of_comes hnode hj)
    exact hfirst.bind fun _ _ => ih hnodes

end Levels

variable (C)

/-- Coupled renderings come to the same for whole templates. -/
theorem writeWith {levels levels' : Nat}
    (hlevels : levels = levels' ∧ env'.settings.maxDepth = env.settings.maxDepth ∨
      levels ≤ levels' ∧ ∀ nesting name, C.excuses (.render (.tooDeep nesting name env.settings.maxDepth)))
    {nodes : List Node} (h : C.trees nodes) :
    C.Tracks (writeWith env fetch levels nodes) (writeWith env' fetch' levels' nodes) := by
  induction levels generalizing levels' nodes with
  | zero =>
    cases levels' with
    | zero =>
      have hlevel : C.OnLevels none none := hlevels.imp And.right And.right
      exact C.nodes hlevel h
    | succ levels' =>
      -- The first rendering fails where it needs a level, and the second has one.
      rcases hlevels with ⟨hlevels, -⟩ | ⟨-, hexcused⟩
      · cases hlevels
      · have hlevel : C.OnLevels none (some (Render.writeWith env' fetch' levels')) := hexcused
        exact C.nodes hlevel h
  | succ levels ih =>
    cases levels' with
    | zero =>
      rcases hlevels with ⟨hlevels, -⟩ | ⟨hlevels, -⟩
      · cases hlevels
      · cases hlevels
    | succ levels' =>
      have hbelow := hlevels.imp (And.imp_left Nat.succ.inj) (And.imp_left Nat.le_of_succ_le_succ)
      have hlevel : C.OnLevels (some (Render.writeWith env fetch levels)) (some (Render.writeWith env' fetch' levels')) :=
        fun nodes hnodes => ih hbelow hnodes
      exact C.nodes hlevel h

end Coupling

theorem coupled_eq_iff {excuses : Error → Prop} {x y : Run σ α} :
    Coupled excuses (· = ·) (fun _ => True) x y ↔ ∀ s, (∃ e, (x s).1 = .error e ∧ excuses e) ∨ x s = y s := by
  constructor
  · intro h s
    exact (h s s rfl).imp_right fun ⟨hresult, hafter, _⟩ => Prod.ext hresult hafter
  · rintro h s _ rfl
    exact (h s).imp_right fun heq => ⟨congrArg Prod.fst heq, congrArg Prod.snd heq, fun _ _ => trivial⟩

/-- Two renderings that start in the same states and have the same host, told to filter and to read the same. -/
def Coupling.ofEq {settings settings' : Settings} (host : Host σ) (excuses : Error → Prop)
    (henvs : Env.Matches ⟨settings, host⟩ ⟨settings', host⟩)
    (hresolve : ∀ name s, (∃ e, (resolve ⟨settings, host⟩ name s).1 = .error e ∧ excuses e) ∨
      resolve ⟨settings, host⟩ name s = resolve ⟨settings', host⟩ name s)
    (hfetch : ∀ inclusion s, (∃ e, (partialTree ⟨settings, host⟩ inclusion s).1 = .error e ∧ excuses e) ∨
      partialTree ⟨settings, host⟩ inclusion s = partialTree ⟨settings', host⟩ inclusion s) :
    Coupling ⟨settings, host⟩ ⟨settings', host⟩ (partialTree ⟨settings, host⟩) (partialTree ⟨settings', host⟩) where
  states := (· = ·)
  excuses := excuses
  values _ := True
  trees _ := True
  partials _ := True
  envs := henvs
  resolve _ name _ := coupled_eq_iff.mpr (hresolve name)
  call _ _ := coupled_eq_iff.mpr fun _ => .inr rfl
  answer _ _ _ _ _ := trivial
  scalar _ := trivial
  fetch {name indent} _ s t hst :=
    (coupled_eq_iff.mpr (hfetch ⟨name, indent⟩) s t hst).imp_right fun ⟨hresult, hafter, _⟩ =>
      ⟨hresult, hafter, fun _ _ _ _ => trivial⟩
  trees_cons _ := ⟨trivial, trivial⟩
  trees_block _ := trivial
  trees_inverted _ := trivial
  trees_partial _ := trivial
  values_frame _ _ _ := trivial
  output_eq h := congrArg State.output h
  write h _ := by rw [h]
  enter h _ _ := by rw [h]
  leave h := by rw [h]
  push h _ _ := by rw [h]
  truncate h h' := by rw [h, h']

end Stencil.Render
