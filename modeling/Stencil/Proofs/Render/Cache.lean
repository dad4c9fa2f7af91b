import Stencil.Proofs.Render.Alike
import Stencil.Proofs.Render.Machine

/-!
# Partials that are kept

A partial is read once and kept. If the answer of the loader depends on the name alone, a rendering comes to what it would come
to if every partial were asked for and read each time. Whatever the loader, a partial that has been read is not asked for
again; one that has not been read is asked for each time (`cache_invisible`).
-/

namespace Stencil.Render

variable {σ : Type}

/-- Asks for the template of a partial and does not look at what is kept. -/
def freshTree (env : Env σ) (inclusion : Inclusion) : Run σ (Option (List Node)) :=
  match env.host.loader? with
  | none => throw (.templateNotFound inclusion.name)
  | some loader => load env loader inclusion

theorem freshTree_fetches {env : Env σ} {answers : String → Except Error String} (hloads : env.host.LoadsByName answers) :
    Fetches env answers (freshTree env) := by
  intro inclusion s hs
  rw [freshTree]
  cases hloader : env.host.loader? with
  | none =>
    rw [found, hloader]
    exact ⟨rfl, .refl hs⟩
  | some loader => exact load_fetches hloads hloader inclusion s hs

/-- The partials that are kept are those that have been read, and none was asked for again after that. -/
structure Remembers (s : State σ) : Prop where
  read_iff : ∀ inclusion, .load inclusion true ∈ s.events ↔ s.partials.lookup inclusion ≠ none
  once : s.events.Pairwise fun later earlier =>
    ∀ inclusion read, earlier = .load inclusion true → later ≠ .load inclusion read

namespace Remembers

variable {s s' : State σ}

theorem of_eq (h : Remembers s) (hevents : s'.events = s.events) (hpartials : s'.partials = s.partials) : Remembers s' where
  read_iff := by
    rw [hevents, hpartials]
    exact h.read_iff
  once := by
    rw [hevents]
    exact h.once

theorem note (h : Remembers s) {event : Event} (hevent : ∀ inclusion read, event ≠ .load inclusion read) :
    Remembers (s.note event) where
  read_iff := by
    intro inclusion
    refine Iff.trans ?_ (h.read_iff inclusion)
    exact List.mem_cons.trans (or_iff_right (hevent inclusion true).symm)
  once := .cons (fun _ _ inclusion read _ => hevent inclusion read) h.once

theorem load (env : Env σ) (loader : Loader σ) {inclusion : Inclusion} (h : Remembers s)
    (hlookup : s.partials.lookup inclusion = none) : Remembers (load env loader inclusion s).2 := by
  -- If it had been read before, it would have been kept.
  have hunread : .load inclusion true ∉ s.events := fun hread => (h.read_iff inclusion).mp hread hlookup
  have hasked (read : Bool) : (Event.load inclusion read :: s.events).Pairwise fun later earlier =>
      ∀ inclusion read, earlier = .load inclusion true → later ≠ .load inclusion read := by
    refine .cons ?_ h.once
    rintro _ hearlier other read' rfl heq
    cases heq
    exact hunread hearlier
  rw [load_apply]
  rcases loader inclusion.name s.memory with ⟨answer, memory⟩
  have hfailed : Remembers (State.note (.load inclusion false) { s with memory }) := by
    refine ⟨fun other => ?_, hasked false⟩
    refine Iff.trans ?_ (h.read_iff other)
    exact List.mem_cons.trans (or_iff_right (by simp))
  simp only
  cases templateOf env.settings inclusion answer with
  | error e => exact hfailed
  | ok tree? =>
    cases tree? with
    | none => exact hfailed
    | some tree =>
      refine ⟨fun other => ?_, hasked true⟩
      change .load other true ∈ Event.load inclusion true :: s.events ↔
        List.lookup other ((inclusion, tree) :: s.partials) ≠ none
      rw [lookup_read]
      split
      · next heq => simp [heq]
      · next hne =>
        refine Iff.trans ?_ (h.read_iff other)
        exact List.mem_cons.trans (or_iff_right (by simp [hne]))

end Remembers

theorem remembers_law (env : Env σ) : Law env fun s s' => Remembers s → Remembers s' where
  refl := fun _ h => h
  trans := fun h h' hs => h' (h hs)
  emit := fun _ _ h => h.of_eq rfl rfl
  call := by
    intro l argument? s h
    have hcalled : Remembers (s.note (.call l argument?)) := h.note fun _ _ => nofun
    exact hcalled.of_eq rfl rfl
  load := fun loader _ _ _ hlookup h => h.load env loader hlookup
  nested := fun _ _ _ _ h hs => (h (hs.note fun _ _ => nofun)).note fun _ _ => nofun
  framed := fun _ _ _ h hs => (h (hs.of_eq rfl rfl)).of_eq rfl rfl
  captured := fun _ _ h hs => (h (hs.of_eq rfl rfl)).of_eq rfl rfl

namespace Machine

variable {env : Env σ} {m m' : Machine σ}

theorem remembers_begin {s : State σ} (h : Remembers s) (tasks : List Task) (depth : Nat) (job : Job) :
    Remembers (begin env tasks depth s job).state := by
  cases job with
  | nothing => exact h
  | plain text => exact h.of_eq rfl rfl
  | deeper inner filter? =>
    have hentered : Remembers (s.note (.enter inner.nesting inner.name)) := h.note fun _ _ => nofun
    rw [begin]
    split
    · exact h
    · cases filter? with
      | none => exact hentered
      | some filter => exact hentered.of_eq rfl rfl

theorem remembers_step (h : Remembers m.state) (hstep : Steps env m m') : Remembers m'.state := by
  rcases step_cases hstep with ⟨node, nodes, tasks, depth, s, rfl, rfl⟩ | ⟨tasks, depth, failure?, s, rfl, rfl⟩ |
    ⟨-, -, hevents, hpartials⟩
  · have hprepared := (remembers_law env).prepare node s h
    generalize prepare env (partialTree env) node s = prepared at hprepared
    rcases prepared with ⟨result, s'⟩
    cases result with
    | ok job => exact remembers_begin hprepared _ _ job
    | error e => exact hprepared
  · exact h.note fun _ _ => nofun
  · exact h.of_eq hevents hpartials

theorem remembers_reaches (h : Remembers m.state) (hreaches : Reaches env m m') : Remembers m'.state := by
  induction hreaches with
  | refl => exact h
  | tail _ hstep ih => exact remembers_step ih hstep

end Machine

section Evaluation

variable {env : Env σ} {loader : Loader σ} {inclusion : Inclusion} {s : State σ}

theorem partialTree_of_read (h : Remembers s) (hread : .load inclusion true ∈ s.events) :
    ∃ tree, partialTree env inclusion s = (.ok (some tree), s) := by
  obtain ⟨tree, htree⟩ := Option.ne_none_iff_exists'.mp ((h.read_iff inclusion).mp hread)
  refine ⟨tree, ?_⟩
  rw [partialTree, bind_of_ok (get_apply s), htree]
  rfl

theorem partialTree_of_unread (h : Remembers s) (hloader : env.host.loader? = some loader)
    (hunread : .load inclusion true ∉ s.events) : partialTree env inclusion s = load env loader inclusion s := by
  have hlookup : s.partials.lookup inclusion = none := by
    cases hlookup : s.partials.lookup inclusion with
    | none => rfl
    | some tree =>
      have hread := (h.read_iff inclusion).mpr (hlookup ▸ Option.some_ne_none tree)
      exact absurd hread hunread
  rw [partialTree, bind_of_ok (get_apply s), hlookup, hloader]

theorem load_events (env : Env σ) (loader : Loader σ) (inclusion : Inclusion) (s : State σ) :
    ∃ read, (load env loader inclusion s).2.events = .load inclusion read :: s.events := by
  rw [load_apply]
  simp only
  cases templateOf env.settings inclusion (loader inclusion.name s.memory).1 with
  | error e => exact ⟨false, rfl⟩
  | ok tree? =>
    cases tree? with
    | none => exact ⟨false, rfl⟩
    | some tree => exact ⟨true, rfl⟩

theorem load_of_notFound {name : String} {memory : σ} (hignore : env.settings.missingTags = .ignore)
    (hanswer : loader inclusion.name s.memory = (.error (.templateNotFound name), memory)) :
    load env loader inclusion s = (.ok none, State.note (.load inclusion false) { s with memory }) := by
  have htemplate : templateOf env.settings inclusion (.error (.templateNotFound name)) = .ok none := by
    simp only [templateOf, hignore]
  rw [load_apply, hanswer]
  simp only [htemplate]

end Evaluation

/-- What is kept does not show in a rendering, if the answer of the loader depends on the name alone. Whatever the loader, a
partial that has been read is not asked for again, and one that has not is asked for each time; a name that is not known and
may be missing leaves it unread. -/
theorem cache_invisible (env : Env σ) (context : Context) (memory : σ) (nodes : List Node) :
    let start : State σ := ⟨context, [], "", memory, []⟩
    let kept := writeTree env env.settings.maxDepth nodes start
    let fresh := writeWith env (freshTree env) env.settings.maxDepth nodes start
    (∀ answers, env.host.LoadsByName answers →
      kept.1 = fresh.1 ∧ kept.2.output = fresh.2.output ∧ kept.2.memory = fresh.2.memory ∧
        calls kept.2.events = calls fresh.2.events) ∧
      (kept.2.events.Pairwise fun later earlier =>
        ∀ inclusion read, earlier = .load inclusion true → later ≠ .load inclusion read) ∧
      ∀ m, Machine.Reaches env ⟨[.write nodes], 0, none, start⟩ m → ∀ inclusion nodes tasks,
        m.tasks = .write (.inclusion inclusion.name inclusion.indent :: nodes) :: tasks → m.failure? = none →
          ∀ loader, env.host.loader? = some loader →
            let asked := partialTree env inclusion m.state
            (.load inclusion true ∈ m.state.events → ∃ tree, asked = (.ok (some tree), m.state)) ∧
              (.load inclusion true ∉ m.state.events →
                (∃ read, asked.2.events = .load inclusion read :: m.state.events) ∧
                  ∀ name memory, env.settings.missingTags = .ignore →
                    loader inclusion.name m.state.memory = (.error (.templateNotFound name), memory) →
                    asked = (.ok none, State.note (.load inclusion false) { m.state with memory })) := by
  intro start kept fresh
  have hstart : Remembers start := ⟨fun _ => by simp [start], .nil⟩
  refine ⟨?_, ((remembers_law env).writeTree _ nodes start hstart).once, ?_⟩
  · intro answers hloads
    have hsound : start.Sound env answers := nofun
    have hkept : kept = writeWith env (partialTree env) env.settings.maxDepth nodes start :=
      congrFun (congrFun (writeTree_eq_writeWith env _) nodes) start
    let depth := env.settings.maxDepth
    have hfollows : Follows False (Alike env answers) (writeWith (env.withDepth depth) (partialTree env) depth nodes)
        (writeWith (env.withDepth depth) (freshTree env) depth nodes) :=
      writeWith_follows (partialTree_fetches hloads) (freshTree_fetches hloads) (.inl ⟨rfl, rfl⟩) nodes
    rcases hfollows start start (.refl hsound) with ⟨hlax, -⟩ | ⟨hresult, hafter⟩
    · exact hlax.elim
    · rw [hkept]
      exact ⟨hresult, hafter.output_eq, hafter.memory_eq, hafter.calls_eq⟩
  · intro m hm inclusion nodes tasks htasks hfailure loader hloader asked
    have hremembers := Machine.remembers_reaches hstart hm
    refine ⟨partialTree_of_read hremembers, fun hunread => ?_⟩
    have hasked : asked = load env loader inclusion m.state := partialTree_of_unread hremembers hloader hunread
    rw [hasked]
    exact ⟨load_events env loader inclusion m.state, fun name memory => load_of_notFound⟩

/-- The loader knows one partial; another is missing. -/
theorem cache_invisible_of_two_names :
    let answers : String → Except Error String := fun name =>
      if name = "p" then .ok "\x7b\x7b>q\x7d\x7d" else .error (.templateNotFound name)
    let env : Env Unit := ⟨.standard, fun _ _ memory => (.null, memory), some fun name memory => (answers name, memory)⟩
    let start : State Unit := ⟨.ofValue .null, [], "", (), []⟩
    let nodes : List Node := [.inclusion "p" "", .inclusion "p" " ", .inclusion "p" ""]
    env.host.LoadsByName answers ∧
      (writeTree env env.settings.maxDepth nodes start).1 =
        (writeWith env (freshTree env) env.settings.maxDepth nodes start).1 := by
  intro answers env start nodes
  have hloads : env.host.LoadsByName answers := by
    rintro _ ⟨⟩ name memory
    rfl
  exact ⟨hloads, ((cache_invisible env _ () nodes).1 answers hloads).1⟩

end Stencil.Render
