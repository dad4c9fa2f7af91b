import Stencil.Proofs.Render.Coupling
import Stencil.Proofs.Render.Load

/-!
# Where the output comes from

The output of a rendering is a row of passages. A literal of the template or of a partial writes a passage of its own, and so
does a tag for a value, whatever it had to render for it (`written`). Together they are the output (`output_written`).
-/

namespace Stencil.Render

variable {σ α : Type}

/-- A part of the output. -/
inductive Passage where
  /-- The text of a literal. -/
  | literal (text : String)
  /-- What a tag wrote for its value. -/
  | value (text : String)

namespace Passage

def text : Passage → String
  | literal text => text
  | value text => text

/-- A text that a node writes, rendering nothing for it. -/
def ofPlain : Node → String → Passage
  | .literal _ => literal
  | _ => value

end Passage

def joined (passages : List Passage) : String := String.join (passages.map Passage.text)

/-- The passages that something writes from a state. -/
abbrev Passages (σ : Type) : Type := State σ → List Passage

namespace Passages

def none : Passages σ := fun _ => []

/-- The passages of `x`, and if it succeeds those of what comes after it. -/
def andThen (w : Passages σ) (x : Run σ α) (after : α → Passages σ) : Passages σ := fun s =>
  w s ++ match x s with
    | (.ok a, s') => after a s'
    | (.error _, _) => []

def forM (w : α → Passages σ) (x : α → Run σ Unit) : List α → Passages σ
  | [] => none
  | a :: as => (w a).andThen (x a) fun _ => forM w x as

/-- What a filter makes of a text, in one passage. -/
def filtered (filter : String → String) (x : Run σ String) : Passages σ := fun s =>
  match x s with
  | (.ok text, _) => [.value (filter text)]
  | (.error _, _) => []

def withFrame (frame : Value) (w : Passages σ) : Passages σ := fun s => w { s with context := s.context.push frame }

end Passages

/-- The passages of a template one level further down. -/
def Inner.passages (inner : Inner) (write : List Node → Run σ Unit) (w : List Node → Passages σ) : Passages σ :=
  match inner.frames? with
  | none => w inner.nodes
  | some frames =>
    .forM (fun frame => .withFrame frame (w inner.nodes)) (fun frame => withFrame frame (write inner.nodes)) frames

/-- The passages of the job of a node. A filter makes one passage of what is rendered for it. -/
def Job.passages (env : Env σ) (level : Level σ) (w : List Node → Passages σ) (node : Node) : Job → Passages σ
  | nothing => .none
  | plain text => fun _ => [.ofPlain node text]
  | deeper inner none =>
    match level with
    | none => .none
    | some write => fun s => inner.passages write w (s.note (.enter inner.nesting inner.name))
  | deeper inner (some filter) => .filtered filter (captured (nested env level inner.nesting inner.name inner.write))

def nodePassages (env : Env σ) (level : Level σ) (w : List Node → Passages σ) (node : Node) : Passages σ :=
  .andThen .none (prepare env (partialTree env) node) fun job => job.passages env level w node

/-- The passages that a template writes with so many levels of nesting to go. -/
def written (env : Env σ) : Nat → List Node → Passages σ
  | 0, nodes => .forM (nodePassages env none fun _ => .none) (writeNode env none) nodes
  | levels + 1, nodes =>
    let level := some (writeTree env levels)
    .forM (nodePassages env level (written env levels)) (writeNode env level) nodes

theorem joined_nil : joined [] = "" := String.join_nil

theorem joined_append (a b : List Passage) : joined (a ++ b) = joined a ++ joined b := by
  rw [joined, List.map_append, String.join_append]
  rfl

theorem joined_singleton (passage : Passage) : joined [passage] = passage.text := by
  rw [joined, List.map_singleton, String.join_cons, String.join_nil, String.append_empty]

theorem Passage.text_ofPlain (node : Node) (text : String) : (Passage.ofPlain node text).text = text := by
  cases node with
  | _ => rfl

/-- Finding out what nodes come to keeps what calls and loads keep. -/
def Agreement.keeping {env : Env σ} {P : State σ → Prop} (hcall : ∀ l argument? s, P s → P (Render.call env l argument? s).2)
    (hload : ∀ inclusion s, P s → P (partialTree env inclusion s).2) :
    Agreement env env (partialTree env) (partialTree env) where
  states s t := s = t ∧ P s
  excuses _ := False
  values _ := True
  trees _ := True
  partials _ := True
  envs := .refl env
  resolve := by
    rintro _ - name - s _ ⟨rfl, hs⟩
    rw [resolve_apply]
    exact .inr ⟨rfl, ⟨rfl, hs⟩, fun _ _ => trivial⟩
  call := by
    rintro l - argument? s _ ⟨rfl, hs⟩
    exact .inr ⟨rfl, ⟨rfl, hcall l argument? s hs⟩, fun _ _ => trivial⟩
  answer _ _ _ _ _ := trivial
  scalar _ := trivial
  fetch := by
    rintro name indent - s _ ⟨rfl, hs⟩
    exact .inr ⟨rfl, ⟨rfl, hload ⟨name, indent⟩ s hs⟩, fun _ _ _ _ => trivial⟩

/-- What is found out about a node is not written yet. -/
theorem prepare_output (env : Env σ) (node : Node) (s : State σ) :
    (prepare env (partialTree env) node s).2.output = s.output := by
  have hload (inclusion : Inclusion) (t : State σ) (ht : t.output = s.output) :
      (partialTree env inclusion t).2.output = s.output := by
    obtain ⟨_, _, _, heq⟩ := exists_partialTree_eq env inclusion t
    rw [heq]
    exact ht
  let A : Agreement env env _ _ := .keeping (fun _ _ _ ht => ht) hload
  have hnode : A.trees [node] := trivial
  rcases Agreement.prepare hnode s s ⟨rfl, rfl⟩ with ⟨_, _, he⟩ | ⟨-, ⟨-, houtput⟩, -⟩
  · exact he.elim
  · exact houtput

/-- Doing the job of a node writes good passages, if templates of which `told` is true do. A filter makes a good passage of any
text. -/
def Job.Tells (told : List Node → Prop) (good : Passage → Prop) (node : Node) : Job → Prop
  | nothing => True
  | plain text => good (.ofPlain node text)
  | deeper inner none => told inner.nodes
  | deeper _ (some filter) => ∀ text, good (.value (filter text))

/-- An account of what is written: which templates it is about, and what is said of their passages. -/
structure Account (env : Env σ) extends Coupling env env (partialTree env) (partialTree env) where
  excuses_nothing : ∀ {e}, ¬ excuses e
  told : List Node → Prop
  good : Passage → Prop
  told_cons : ∀ {node nodes}, told (node :: nodes) → told [node] ∧ told nodes
  trees_told : ∀ {nodes}, told nodes → trees nodes
  tells : ∀ {node job}, told [node] → toAgreement.Comes node job → job.Tells told good node

namespace Account

variable {env : Env σ} (A : Account env)

/-- The passages of `x` are what it adds to the output, and what is said of passages is true of them. -/
def Records (x : Run σ α) (w : Passages σ) : Prop :=
  ∀ s, A.states s s → (x s).2.output = s.output ++ joined (w s) ∧ ∀ passage ∈ w s, A.good passage

variable {A}

theorem after {Q : α → Prop} {x : Run σ α} (h : Coupled A.excuses A.states Q x x) {s : State σ} (hs : A.states s s) :
    A.states (x s).2 (x s).2 ∧ ∀ a, (x s).1 = .ok a → Q a := by
  rcases h s s hs with ⟨e, -, he⟩ | ⟨-, hafter⟩
  · exact absurd he A.excuses_nothing
  · exact hafter

theorem bind {Q : α → Prop} {x : Run σ α} {f : α → Run σ Unit} {w : Passages σ} {w' : α → Passages σ}
    (htracks : Coupled A.excuses A.states Q x x) (hx : A.Records x w) (hf : ∀ a, Q a → A.Records (f a) (w' a)) :
    A.Records (x >>= f) (w.andThen x w') := by
  intro s hs
  obtain ⟨houtput, hgood⟩ := hx s hs
  obtain ⟨hafter, hQ⟩ := after htracks hs
  rcases hrun : x s with ⟨result, s'⟩
  rw [hrun] at houtput hafter hQ
  rw [Passages.andThen, hrun]
  cases result with
  | error e =>
    rw [bind_of_error hrun, List.append_nil]
    exact ⟨houtput, hgood⟩
  | ok a =>
    obtain ⟨houtput', hgood'⟩ := hf a (hQ a rfl) s' hafter
    rw [bind_of_ok hrun]
    refine ⟨?_, List.forall_mem_append.mpr ⟨hgood, hgood'⟩⟩
    rw [houtput', houtput, joined_append, String.append_assoc]

theorem still {x : Run σ α} (hx : ∀ s, (x s).2.output = s.output) : A.Records x .none := by
  intro s hs
  refine ⟨?_, List.forall_mem_nil _⟩
  rw [hx, Passages.none, joined_nil, String.append_empty]

theorem forM {x : α → Run σ Unit} {w : α → Passages σ} {as : List α} (htracks : ∀ a ∈ as, A.Tracks (x a) (x a))
    (hx : ∀ a ∈ as, A.Records (x a) (w a)) : A.Records (as.forM x) (.forM w x as) := by
  induction as with
  | nil => exact still fun _ => rfl
  | cons a as ih =>
    have hrest := ih (fun b hb => htracks b (List.mem_cons_of_mem a hb)) fun b hb => hx b (List.mem_cons_of_mem a hb)
    exact bind (htracks a List.mem_cons_self) (hx a List.mem_cons_self) fun _ _ => hrest

theorem withFrame {x : Run σ Unit} {w : Passages σ} {frame : Value} (hframe : A.values frame) (hx : A.Records x w) :
    A.Records (withFrame frame x) (.withFrame frame w) := fun _ hs => hx _ (A.push hs hframe)

section Levels

variable {write : List Node → Run σ Unit} {w : List Node → Passages σ}
  (htracks : ∀ nodes, A.trees nodes → A.Tracks (write nodes) (write nodes))
  (hwrite : ∀ nodes, A.told nodes → A.Records (write nodes) (w nodes))

include htracks hwrite

theorem inner {inner : Inner} (hnodes : A.told inner.nodes)
    (hframes : ∀ frames ∈ inner.frames?, ∀ frame ∈ frames, A.values frame) :
    A.Records (inner.write write) (inner.passages write w) := by
  have htracks := htracks inner.nodes (A.trees_told hnodes)
  rw [Inner.write, Inner.passages]
  cases h : inner.frames? with
  | none => exact hwrite inner.nodes hnodes
  | some frames =>
    refine forM (fun frame hframe => ?_) fun frame hframe => ?_
    · exact Coupling.withFrame (hframes frames h frame hframe) htracks
    · exact withFrame (hframes frames h frame hframe) (hwrite inner.nodes hnodes)

end Levels

section Level

variable {level : Level σ} {w : List Node → Passages σ} (hlevel : A.OnLevels level level)
  (hwrite : ∀ write ∈ level, ∀ nodes, A.told nodes → A.Records (write nodes) (w nodes))

include hlevel hwrite

theorem job {node : Node} {job : Job} (hnode : A.told [node]) (hjob : A.Comes node job) :
    A.Records (job.write env level) (job.passages env level w node) := by
  have hcovers := Coupling.covers_of_comes (A.trees_told hnode) hjob
  have htells := A.tells hnode hjob
  cases job with
  | nothing => exact still fun _ => rfl
  | plain text =>
    intro s _
    refine ⟨?_, List.forall_mem_singleton.mpr htells⟩
    rw [Job.passages, joined_singleton, Passage.text_ofPlain]
    rfl
  | deeper inner filter? =>
    cases filter? with
    | none =>
      cases level with
      | none => exact still fun _ => rfl
      | some write =>
        intro s hs
        exact Account.inner hlevel (hwrite write rfl) htells hcovers.2 _ (A.enter hs inner.nesting inner.name)
    | some filter =>
      intro s _
      rcases hrun : captured (nested env level inner.nesting inner.name inner.write) s with ⟨result, s'⟩
      have houtput : s'.output = s.output := congrArg (fun run => run.2.output) hrun.symm
      rw [Job.passages, Passages.filtered, hrun, Job.write]
      cases result with
      | error e =>
        rw [bind_of_error hrun, joined_nil, String.append_empty]
        exact ⟨houtput, List.forall_mem_nil _⟩
      | ok text =>
        rw [bind_of_ok hrun, joined_singleton, ← houtput]
        exact ⟨rfl, List.forall_mem_singleton.mpr (htells text)⟩

theorem node {node : Node} (hnode : A.told [node]) : A.Records (writeNode env level node) (nodePassages env level w node) := by
  rw [writeNode_eq]
  exact bind (Agreement.prepare (A.trees_told hnode)) (still (prepare_output env node)) fun _ => job hlevel hwrite hnode

theorem nodes {nodes : List Node} (h : A.told nodes) :
    A.Records (nodes.forM (writeNode env level)) (.forM (nodePassages env level w) (writeNode env level) nodes) := by
  induction nodes with
  | nil => exact still fun _ => rfl
  | cons first nodes ih =>
    obtain ⟨hfirst, hnodes⟩ := A.told_cons h
    have htracks : A.Tracks (writeNode env level first) (writeNode env level first) := by
      rw [writeNode_eq]
      have hfirst := A.trees_told hfirst
      exact (Agreement.prepare hfirst).bind fun _ hjob => Coupling.job hlevel (Coupling.covers_of_comes hfirst hjob)
    exact bind htracks (node hlevel hwrite hfirst) fun _ _ => ih hnodes

end Level

variable (A)

/-- The account is right about whole templates. -/
theorem records (levels : Nat) {nodes : List Node} (h : A.told nodes) :
    A.Records (writeTree env levels nodes) (written env levels nodes) := by
  induction levels generalizing nodes with
  | zero =>
    have hlevel : A.OnLevels none none := .inl rfl
    exact Account.nodes hlevel nofun h
  | succ levels ih =>
    have hlevel : A.OnLevels (some (writeTree env levels)) (some (writeTree env levels)) := by
      intro nodes hnodes
      rw [writeTree_eq_writeWith]
      exact A.writeWith (.inl ⟨rfl, rfl⟩) hnodes
    refine Account.nodes hlevel ?_ h
    rintro _ ⟨⟩ nodes hnodes
    exact ih hnodes

end Account

/-- The account that says nothing of the passages but that they are written. -/
def Account.bare (env : Env σ) : Account env where
  toCoupling := .ofEq env.host (fun _ => False) (.refl env) (fun _ _ => .inr rfl) fun _ _ => .inr rfl
  excuses_nothing := id
  told _ := True
  good _ := True
  told_cons _ := ⟨trivial, trivial⟩
  trees_told := id
  tells := by
    rintro node job - -
    rcases job with _ | _ | ⟨_, _ | _⟩
    · trivial
    · trivial
    · trivial
    · exact fun _ => trivial

/-- Everything that is written comes in passages, whether all of the template can be written or not. -/
theorem output_written (env : Env σ) (levels : Nat) (nodes : List Node) (s : State σ) :
    (writeTree env levels nodes s).2.output = s.output ++ joined (written env levels nodes s) :=
  ((Account.bare env).records levels trivial s rfl).1

end Stencil.Render
