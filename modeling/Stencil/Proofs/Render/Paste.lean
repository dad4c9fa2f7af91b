import Mathlib
import Stencil.Proofs.Lines
import Stencil.Proofs.Render.Alike
import Stencil.Proofs.Render.Outcome

/-!
# Partials and pasted texts

A partial that is alone on its line writes what its text would write if it stood there in place of the line, indented as far
as the tag. It takes one level of nesting more, and nothing else can be seen of the difference (`render_pasted`).
-/

namespace Stencil

namespace Render

variable {σ : Type}

private theorem emit_append (a b : String) : (emit (a ++ b) : Run σ Unit) = emit a >>= fun _ => emit b := by
  funext s
  change (Except.ok (), { s with output := s.output ++ (a ++ b) }) = (Except.ok (), { s with output := s.output ++ a ++ b })
  rw [String.append_assoc]

/-- Literals that were made one are written as they would be one by one. -/
theorem writeTree_fuse (env : Env σ) (levels : Nat) (a b : List Node) :
    writeTree env levels (Node.fuse a b) = writeTree env levels a >>= fun _ => writeTree env levels b := by
  have hnil : writeTree env levels [] = pure () := by
    rw [writeTree_eq]
    rfl
  induction a with
  | nil => rw [Node.fuse_nil_left, hnil, pure_bind]
  | cons node a ih =>
    cases a with
    | cons node' a =>
      rw [Node.fuse_cons (List.cons_ne_nil _ _), writeTree_cons, writeTree_cons, ih, bind_assoc]
    | nil =>
      -- Only the last node of the first list can be made one with a node of the second.
      rw [writeTree_cons, hnil, bind_assoc]
      simp only [pure_bind]
      cases node with
      | literal x =>
        cases b with
        | nil => rw [Node.fuse_nil_right, writeTree_cons]
        | cons first b =>
          cases first with
          | literal y =>
            rw [Node.fuse_literals, writeTree_cons, writeTree_cons]
            change (emit (x ++ y) >>= _) = (emit x >>= _)
            rw [emit_append, bind_assoc]
            rfl
          | _ => exact writeTree_cons _ _ _ _
      | _ => cases b <;> exact writeTree_cons _ _ _ _

/-- Templates between two others. -/
theorem Follows.fuse {env : Env σ} {answers : String → Except Error String} (hloads : env.host.LoadsByName answers)
    {levels levels' depth depth' : Nat} (hlevels : levels ≤ levels') {nodes nodes' : List Node}
    (h : Follows True (Alike env answers) (writeTree (env.withDepth depth) levels nodes)
      (writeTree (env.withDepth depth') levels' nodes')) (front back : List Node) :
    Follows True (Alike env answers) (writeTree (env.withDepth depth) levels (Node.fuse front (Node.fuse nodes back)))
      (writeTree (env.withDepth depth') levels' (Node.fuse front (Node.fuse nodes' back))) := by
  rw [writeTree_fuse, writeTree_fuse, writeTree_fuse, writeTree_fuse]
  have hsame (nodes : List Node) : Follows True (Alike env answers) (writeTree (env.withDepth depth) levels nodes)
      (writeTree (env.withDepth depth') levels' nodes) :=
    writeTree_follows hloads (.inr ⟨trivial, hlevels⟩) nodes
  exact (hsame front).bind fun _ => h.bind fun _ => hsame back

section Inclusion

variable {env : Env σ} {answers : String → Except Error String} (hloads : env.host.LoadsByName answers)
  {name indent : String} {tree : List Node} (hfound : found env answers ⟨name, indent⟩ = .ok (some tree))

include hloads hfound

private theorem writeNode_inclusion {s : State σ} (hs : s.Sound env answers) (depth : Nat) (level : Level σ) :
    ∃ s', Alike env answers s s' ∧ writeNode (env.withDepth depth) level (.inclusion name indent) s =
      nested (env.withDepth depth) level .inclusion name (fun write => write tree) s' := by
  obtain ⟨hresult, hafter⟩ := partialTree_fetches hloads ⟨name, indent⟩ s hs
  rcases hrun : partialTree env ⟨name, indent⟩ s with ⟨result, s'⟩
  rw [hrun, hfound] at hresult
  rw [hrun] at hafter
  obtain rfl : result = .ok (some tree) := hresult
  refine ⟨s', hafter, ?_⟩
  change (partialTree env ⟨name, indent⟩ >>= _) s = _
  rw [bind_of_ok hrun]

/-- The text of a partial can be written in its place. -/
theorem inclusion_follows (levels depth : Nat) : Follows True (Alike env answers)
    (writeTree (env.withDepth depth) levels [.inclusion name indent]) (writeTree (env.withDepth depth) levels tree) := by
  intro s t hst
  obtain ⟨s', hs', hwrite⟩ := writeNode_inclusion hloads hfound hst.sound_left depth (below (env.withDepth depth) levels)
  rw [writeTree_singleton, hwrite]
  cases levels with
  | zero => exact .inl ⟨trivial, _, rfl⟩
  | succ levels =>
    have hentered : Alike env answers (s'.note (.enter .inclusion name)) t := (hs'.symm.trans hst).note rfl
    have hfollows : Follows True (Alike env answers) (writeTree (env.withDepth depth) levels tree)
        (writeTree (env.withDepth depth) (levels + 1) tree) :=
      writeTree_follows hloads (.inr ⟨trivial, Nat.le_succ levels⟩) tree
    exact (hfollows _ _ hentered).imp_right fun ⟨hresult, hafter⟩ => ⟨hresult, hafter.note rfl⟩

/-- With one more level of nesting, a partial can be written in place of its text. -/
theorem follows_inclusion (levels depth depth' : Nat) : Follows True (Alike env answers)
    (writeTree (env.withDepth depth) levels tree)
    (writeTree (env.withDepth depth') (levels + 1) [.inclusion name indent]) := by
  intro s t hst
  obtain ⟨t', ht', hwrite⟩ :=
    writeNode_inclusion hloads hfound hst.sound_right depth' (below (env.withDepth depth') (levels + 1))
  rw [writeTree_singleton, hwrite]
  have hentered : Alike env answers s (t'.note (.enter .inclusion name)) := ((hst.trans ht').symm.note rfl).symm
  have hfollows : Follows True (Alike env answers) (writeTree (env.withDepth depth) levels tree)
      (writeTree (env.withDepth depth') levels tree) :=
    writeTree_follows hloads (.inr ⟨trivial, Nat.le_refl levels⟩) tree
  exact (hfollows _ _ hentered).imp_right fun ⟨hresult, hafter⟩ => ⟨hresult, (hafter.symm.note rfl).symm⟩

end Inclusion
end Render

namespace Renderer

open Render

variable {σ : Type}

theorem renderNodes_of_eq {r : Renderer} {host : Host σ} {depth : Nat} {nodes : List Node} {memory : σ} {context : Context}
    {run : Except Error Unit × State σ}
    (h : writeTree (Env.withDepth ⟨r.settings, host⟩ depth) depth nodes ⟨context, [], "", memory, []⟩ = run) :
    (r.withDepth depth).renderNodes host memory nodes context = .ofRun run := congrArg Outcome.ofRun h

theorem renderNodes_of_follows {r : Renderer} {host : Host σ} {answers : String → Except Error String}
    {nodes nodes' : List Node} {depth depth' : Nat}
    (h : Follows True (Alike ⟨r.settings, host⟩ answers) (writeTree (Env.withDepth ⟨r.settings, host⟩ depth) depth nodes)
      (writeTree (Env.withDepth ⟨r.settings, host⟩ depth') depth' nodes')) (memory : σ) (context : Context) {output : String}
    (houtput : ((r.withDepth depth).renderNodes host memory nodes context).result = .ok output) :
    ((r.withDepth depth').renderNodes host memory nodes' context).result = .ok output ∧
      calls ((r.withDepth depth').renderNodes host memory nodes' context).trace =
        calls ((r.withDepth depth).renderNodes host memory nodes context).trace := by
  let start : State σ := ⟨context, [], "", memory, []⟩
  have hsound : start.Sound ⟨r.settings, host⟩ answers := nofun
  have hrun := h start start (.refl hsound)
  rcases hx : writeTree (Env.withDepth ⟨r.settings, host⟩ depth) depth nodes start with ⟨result, s⟩
  rcases hy : writeTree (Env.withDepth ⟨r.settings, host⟩ depth') depth' nodes' start with ⟨result', t⟩
  rw [renderNodes_of_eq hx] at houtput ⊢
  rw [renderNodes_of_eq hy]
  rw [hx, hy] at hrun
  cases result with
  | error e => cases houtput
  | ok =>
    rcases hrun with ⟨-, e, he⟩ | ⟨hresult, hafter⟩
    · cases he
    · obtain rfl : Except.ok () = result' := hresult
      have houtput_eq : s.output = t.output := hafter.output_eq
      have hcalls_eq : calls s.events = calls t.events := hafter.calls_eq
      refine ⟨?_, ?_⟩
      · exact (congrArg Except.ok houtput_eq.symm).trans houtput
      · simp only [Outcome.ofRun, calls, List.filter_reverse] at hcalls_eq ⊢
        rw [hcalls_eq]

private theorem ok_of_toOption {α : Type} {x : Except ParseError α} {a : α} (h : x.toOption = some a) : x = .ok a := by
  cases x with
  | error e => cases h
  | ok b => exact congrArg Except.ok (Option.some.inj h)

/-- A partial that is alone on its line behaves like its text, pasted in place of the line with the padding of the tag in front
of every line that holds anything: what is rendered with the partial is rendered with the text, with the same calls of
lambdas, and what is rendered with the text is rendered with the partial if one more level of nesting is allowed. -/
theorem render_pasted {r : Renderer} {host : Host σ} {answers : String → Except Error String}
    (hloads : host.LoadsByName answers) (hloader : host.loader?.isSome = true) {name text before after padding tag : String}
    (hanswer : answers name = .ok text) (htext : Lines r.settings.delimiters text)
    (hbefore : Lines r.settings.delimiters before) (hpadding : ∀ c ∈ padding.toList, Text.isPad c = true)
    (htag : Tag.Spelling r.settings.delimiters (.inclusion name) tag.toList) {nodes : List Node}
    (hafter : parse r.settings.delimiters after = .ok nodes) (memory : σ) (context : Context) :
    let line := padding ++ tag ++ "\n"
    let included := before ++ line ++ after
    let pasted := before ++ Text.indentLines padding text ++ after
    let deeper := r.withDepth (r.settings.maxDepth + 1)
    parse r.settings.delimiters line = .ok [.inclusion name padding] ∧
      (∀ output, (r.renderContext host memory included context).result = .ok output →
        (r.renderContext host memory pasted context).result = .ok output ∧
          calls (r.renderContext host memory pasted context).trace = calls (r.renderContext host memory included context).trace) ∧
      ∀ output, (r.renderContext host memory pasted context).result = .ok output →
        (deeper.renderContext host memory included context).result = .ok output := by
  intro line included pasted deeper
  obtain ⟨hline, hparse⟩ := Lines.inclusion hpadding htag
  obtain ⟨front, -, hbehind⟩ := hbefore.parse_behind
  obtain ⟨tree, htree, hbehindText⟩ := (htext.indented hpadding).parse_behind
  obtain ⟨_, hnodes, hbehindLine⟩ := hline.parse_behind
  obtain rfl := Except.ok.inj (hparse.symm.trans hnodes)
  have hincluded : parse r.settings.delimiters (before ++ line ++ after) =
      .ok (Node.fuse front (Node.fuse [.inclusion name padding] nodes)) := by
    apply ok_of_toOption
    rw [String.append_assoc, hbehind, hbehindLine, hafter]
    rfl
  have hpasted : parse r.settings.delimiters (before ++ Text.indentLines padding text ++ after) =
      .ok (Node.fuse front (Node.fuse tree nodes)) := by
    apply ok_of_toOption
    rw [String.append_assoc, hbehind, hbehindText, hafter]
    rfl
  have hfound : found ⟨r.settings, host⟩ answers ⟨name, padding⟩ = .ok (some tree) := by
    obtain ⟨loader, hloader⟩ := Option.isSome_iff_exists.mp hloader
    have hread : readTree r.settings.delimiters (Text.indentLines padding text) = .ok tree := by
      rw [readTree, htree]
      rfl
    simp only [found, hloader, templateOf, hanswer, hread]
    rfl
  refine ⟨hparse, fun output houtput => ?_, fun output houtput => ?_⟩
  · rw [renderContext_of_parse hincluded] at houtput ⊢
    rw [renderContext_of_parse hpasted]
    have hfollows := inclusion_follows hloads hfound r.settings.maxDepth r.settings.maxDepth
    exact renderNodes_of_follows (hfollows.fuse hloads (Nat.le_refl _) front nodes) memory context houtput
  · have hdeeper : parse deeper.settings.delimiters included = _ := hincluded
    rw [renderContext_of_parse hpasted] at houtput
    rw [renderContext_of_parse hdeeper]
    have hfollows := follows_inclusion hloads hfound r.settings.maxDepth r.settings.maxDepth (r.settings.maxDepth + 1)
    exact (renderNodes_of_follows (hfollows.fuse hloads (Nat.le_succ _) front nodes) memory context houtput).1

/-- A partial of two lines, between two other lines. -/
theorem render_pasted_of_two_lines :
    let answers : String → Except Error String := fun _ => .ok "x\ny\n"
    let host : Host Unit := ⟨fun _ _ memory => (.null, memory), some fun name memory => (answers name, memory)⟩
    let included := "a\n" ++ ("  " ++ "\x7b\x7b>p\x7d\x7d" ++ "\n") ++ "b"
    let pasted := "a\n" ++ Text.indentLines "  " "x\ny\n" ++ "b"
    (standard.renderContext host () included .empty).result = .ok "a\n  x\n  y\nb" ∧
      (standard.renderContext host () pasted .empty).result = .ok "a\n  x\n  y\nb" := by
  intro answers host included pasted
  have hloads : host.LoadsByName answers := by
    rintro _ ⟨⟩ name memory
    rfl
  have hlines (s : String) (huntagged : ¬ Delimiters.standard.opener.toList <:+: s.toList)
      (hlast : s.toList.getLast? = some '\n') : Lines standard.settings.delimiters s :=
    ⟨.inr hlast, .done, s.toList, ⟨rfl, trivial, Nat.zero_le _, huntagged⟩, rfl⟩
  have htext := hlines "x\ny\n" (by decide) (by decide)
  have hbefore := hlines "a\n" (by decide) (by decide)
  have hpadding : ∀ c ∈ "  ".toList, Text.isPad c = true := List.all_eq_true.mp (by decide)
  have hclear : Text.Clear Delimiters.standard.closer.toList ['p'] := Text.clear_cons.mpr ⟨by decide, Text.clear_nil _⟩
  have hname : Tag.Names ['p'] "p" := ⟨by decide, by decide⟩
  have htag : Tag.Spelling standard.settings.delimiters (.inclusion "p") "\x7b\x7b>p\x7d\x7d".toList :=
    ⟨[], ['>', 'p'], rfl, nofun, fun _ hc => Option.some.inj hc ▸ rfl, by decide, .inclusion hname hclear⟩
  have hafter : parse standard.settings.delimiters "b" = .ok [.literal "b"] := by cbv
  have hpasted := render_pasted hloads rfl rfl htext hbefore hpadding htag hafter () .empty
  have hincluded : (standard.renderContext host () included .empty).result = .ok "a\n  x\n  y\nb" := by cbv
  exact ⟨hincluded, (hpasted.2.1 _ hincluded).1⟩

end Renderer
end Stencil
