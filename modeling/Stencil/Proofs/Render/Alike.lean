import Stencil.Proofs.Render.Coupling
import Stencil.Proofs.Render.Load

/-!
# Renderings side by side

Two renderings are followed side by side. They find the templates of partials in their own way, and the second may have more
levels of nesting to go. If the answer of the loader depends on the name alone, then what the host sees of them is the same:
the output, the calls of lambdas, and the result (`writeWith_follows`).
-/

namespace Stencil

def Host.LoadsByName {σ : Type} (host : Host σ) (answers : String → Except Error String) : Prop :=
  ∀ loader ∈ host.loader?, ∀ name memory, loader name memory = (answers name, memory)

namespace Render

variable {σ α β : Type}

def Env.withDepth (env : Env σ) (depth : Nat) : Env σ := { env with settings := { env.settings with maxDepth := depth } }

def Event.isCall : Event → Bool
  | call .. => true
  | _ => false

def calls (events : List Event) : List Event := events.filter Event.isCall

section Partials

variable (env : Env σ) (answers : String → Except Error String)

/-- What comes of asking for a partial. -/
def found (inclusion : Inclusion) : Except Error (Option (List Node)) :=
  match env.host.loader? with
  | none => .error (.templateNotFound inclusion.name)
  | some _ => templateOf env.settings inclusion (answers inclusion.name)

/-- The partials that have been read are those that would be read again. -/
def State.Sound (s : State σ) : Prop :=
  ∀ inclusion tree, s.partials.lookup inclusion = some tree → found env answers inclusion = .ok (some tree)

/-- Two states that differ only in what has been read and in how many levels of nesting were used. -/
structure Alike (s t : State σ) : Prop where
  context_eq : s.context = t.context
  output_eq : s.output = t.output
  memory_eq : s.memory = t.memory
  calls_eq : calls s.events = calls t.events
  sound_left : s.Sound env answers
  sound_right : t.Sound env answers

/-- A way to find the templates of partials that always comes to what the loader answers. -/
def Fetches (fetch : Inclusion → Run σ (Option (List Node))) : Prop :=
  ∀ inclusion s, s.Sound env answers →
    (fetch inclusion s).1 = found env answers inclusion ∧ Alike env answers s (fetch inclusion s).2

variable {env answers} {s t u : State σ}

theorem Alike.refl (h : s.Sound env answers) : Alike env answers s s := ⟨rfl, rfl, rfl, rfl, h, h⟩

theorem Alike.symm (h : Alike env answers s t) : Alike env answers t s :=
  ⟨h.context_eq.symm, h.output_eq.symm, h.memory_eq.symm, h.calls_eq.symm, h.sound_right, h.sound_left⟩

theorem Alike.trans (h : Alike env answers s t) (h' : Alike env answers t u) : Alike env answers s u where
  context_eq := h.context_eq.trans h'.context_eq
  output_eq := h.output_eq.trans h'.output_eq
  memory_eq := h.memory_eq.trans h'.memory_eq
  calls_eq := h.calls_eq.trans h'.calls_eq
  sound_left := h.sound_left
  sound_right := h'.sound_right

/-- Levels of nesting are not compared. -/
theorem Alike.note (h : Alike env answers s t) {event : Event} (hevent : event.isCall = false) :
    Alike env answers (s.note event) t := by
  have hcalls : calls (s.note event).events = calls s.events := by
    change List.filter Event.isCall (event :: s.events) = _
    rw [List.filter_cons_of_neg (by simp [hevent])]
    rfl
  exact ⟨h.context_eq, h.output_eq, h.memory_eq, hcalls.trans h.calls_eq, h.sound_left, h.sound_right⟩

theorem State.Sound.read {inclusion : Inclusion} {tree : List Node} (h : s.Sound env answers)
    (hfound : found env answers inclusion = .ok (some tree)) :
    ({ s with partials := (inclusion, tree) :: s.partials } : State σ).Sound env answers := by
  intro other tree' hlookup
  rw [lookup_read] at hlookup
  split at hlookup
  · next heq =>
    obtain rfl := Option.some.inj hlookup
    rw [heq]
    exact hfound
  · exact h other tree' hlookup

theorem load_fetches (hloads : env.host.LoadsByName answers) {loader : Loader σ} (hloader : env.host.loader? = some loader) :
    Fetches env answers (load env loader) := by
  intro inclusion s hs
  have hfound : found env answers inclusion = templateOf env.settings inclusion (answers inclusion.name) := by
    rw [found, hloader]
  rw [load_apply, hloads loader hloader, hfound]
  simp only
  cases htemplate : templateOf env.settings inclusion (answers inclusion.name) with
  | error e => exact ⟨rfl, rfl, rfl, rfl, rfl, hs, hs⟩
  | ok tree? =>
    cases tree? with
    | none => exact ⟨rfl, rfl, rfl, rfl, rfl, hs, hs⟩
    | some tree => exact ⟨rfl, rfl, rfl, rfl, rfl, hs, hs.read (hfound.trans htemplate)⟩

theorem partialTree_fetches (hloads : env.host.LoadsByName answers) : Fetches env answers (partialTree env) := by
  intro inclusion s hs
  rw [partialTree, bind_of_ok (get_apply s)]
  cases hlookup : s.partials.lookup inclusion with
  | some tree => exact ⟨(hs inclusion tree hlookup).symm, .refl hs⟩
  | none =>
    simp only
    cases hloader : env.host.loader? with
    | none =>
      rw [found, hloader]
      exact ⟨rfl, .refl hs⟩
    | some loader => exact load_fetches hloads hloader inclusion s hs

end Partials

/-- From states that `R` relates, `x` and `y` come to the same result and to such states again. If `lax` holds, nothing is said
of what `y` does where `x` fails. -/
def Follows (lax : Prop) (R : State σ → State σ → Prop) (x y : Run σ α) : Prop :=
  ∀ s t, R s t → (lax ∧ ∃ e, (x s).1 = .error e) ∨ ((x s).1 = (y t).1 ∧ R (x s).2 (y t).2)

namespace Follows

variable {lax : Prop} {R : State σ → State σ → Prop}

theorem bind {x y : Run σ α} {f g : α → Run σ β} (hxy : Follows lax R x y) (hfg : ∀ a, Follows lax R (f a) (g a)) :
    Follows lax R (x >>= f) (y >>= g) := by
  intro s t hst
  have hrun := hxy s t hst
  rcases hx : x s with ⟨result, s'⟩
  rcases hy : y t with ⟨result', t'⟩
  rw [hx, hy] at hrun
  cases result with
  | error e =>
    rw [bind_of_error hx]
    rcases hrun with ⟨hlax, -⟩ | ⟨rfl, hafter⟩
    · exact .inl ⟨hlax, e, rfl⟩
    · rw [bind_of_error hy]
      exact .inr ⟨rfl, hafter⟩
  | ok a =>
    rcases hrun with ⟨-, e, he⟩ | ⟨rfl, hafter⟩
    · cases he
    · rw [bind_of_ok hx, bind_of_ok hy]
      exact hfg a s' t' hafter

end Follows

/-- Renderings from states that are alike are coupled: names and lambdas come to the same in such states, and so do partials,
whichever way they are found. -/
def Alike.coupling {env : Env σ} {answers : String → Except Error String}
    {fetch fetch' : Inclusion → Run σ (Option (List Node))} (hfetch : Fetches env answers fetch)
    (hfetch' : Fetches env answers fetch') (lax : Prop) (depth depth' : Nat) :
    Coupling (env.withDepth depth) (env.withDepth depth') fetch fetch' where
  states := Alike env answers
  excuses _ := lax
  values _ := True
  trees _ := True
  partials _ := True
  envs := ⟨fun _ => rfl, rfl⟩
  resolve _ name _ s t h := by
    rw [resolve_apply, resolve_apply, h.context_eq]
    exact .inr ⟨rfl, h, fun _ _ => trivial⟩
  call {l} _ argument? s t h := by
    rw [call_apply, call_apply, h.memory_eq]
    have hcalls := congrArg (Event.call l argument? :: ·) h.calls_eq
    exact .inr ⟨rfl, ⟨h.context_eq, h.output_eq, rfl, hcalls, h.sound_left, h.sound_right⟩, fun _ _ => trivial⟩
  answer _ _ _ _ _ := trivial
  scalar _ := trivial
  fetch {name indent} _ s t h := by
    obtain ⟨hresult, hafter⟩ := hfetch ⟨name, indent⟩ s h.sound_left
    obtain ⟨hresult', hafter'⟩ := hfetch' ⟨name, indent⟩ t h.sound_right
    exact .inr ⟨hresult.trans hresult'.symm, hafter.symm.trans (h.trans hafter'), fun _ _ _ _ => trivial⟩
  trees_cons _ := ⟨trivial, trivial⟩
  trees_block _ := trivial
  trees_inverted _ := trivial
  trees_partial _ := trivial
  values_frame _ _ _ := trivial
  output_eq h := h.output_eq
  write h _ := ⟨h.context_eq, rfl, h.memory_eq, h.calls_eq, h.sound_left, h.sound_right⟩
  enter h _ _ := ((h.note rfl).symm.note rfl).symm
  leave h := ((h.note rfl).symm.note rfl).symm
  push h frame _ := ⟨congrArg (·.push frame) h.context_eq, h.output_eq, h.memory_eq, h.calls_eq, h.sound_left, h.sound_right⟩
  truncate h h' := by
    refine ⟨?_, h'.output_eq, h'.memory_eq, h'.calls_eq, h'.sound_left, h'.sound_right⟩
    rw [h'.context_eq, h.context_eq]

/-- Renderings that find the templates of partials in different ways come to the same. If `lax` holds, the second may have more
levels to go. -/
theorem writeWith_follows {env : Env σ} {answers : String → Except Error String}
    {fetch fetch' : Inclusion → Run σ (Option (List Node))} (hfetch : Fetches env answers fetch)
    (hfetch' : Fetches env answers fetch') {lax : Prop} {levels levels' depth depth' : Nat}
    (hlevels : levels = levels' ∧ depth = depth' ∨ lax ∧ levels ≤ levels') (nodes : List Node) :
    Follows lax (Alike env answers) (writeWith (env.withDepth depth) fetch levels nodes)
      (writeWith (env.withDepth depth') fetch' levels' nodes) := by
  let C := Alike.coupling hfetch hfetch' lax depth depth'
  have hlevels : levels = levels' ∧ depth' = depth ∨ levels ≤ levels' ∧ ∀ nesting name,
      C.excuses (.render (.tooDeep nesting name depth)) :=
    hlevels.imp (And.imp_right Eq.symm) fun ⟨hlax, hle⟩ => ⟨hle, fun _ _ => hlax⟩
  have hnodes : C.trees nodes := trivial
  intro s t hst
  rcases C.writeWith hlevels hnodes s t hst with ⟨e, he, hlax⟩ | ⟨hresult, hafter, -⟩
  · exact .inl ⟨hlax, e, he⟩
  · exact .inr ⟨hresult, hafter⟩

theorem writeTree_follows {env : Env σ} {answers : String → Except Error String} (hloads : env.host.LoadsByName answers)
    {lax : Prop} {levels levels' depth depth' : Nat}
    (hlevels : levels = levels' ∧ depth = depth' ∨ lax ∧ levels ≤ levels') (nodes : List Node) :
    Follows lax (Alike env answers) (writeTree (env.withDepth depth) levels nodes)
      (writeTree (env.withDepth depth') levels' nodes) := by
  rw [writeTree_eq_writeWith, writeTree_eq_writeWith]
  exact writeWith_follows (partialTree_fetches hloads) (partialTree_fetches hloads) hlevels nodes

end Render
end Stencil
