import Stencil.Proofs.Context
import Stencil.Proofs.Text.Words

/-!
# Resolution of names

A dotted name is resolved in two steps: its first segment picks the innermost frame that has it, and the other segments are
followed from what that frame has under it. There is no way back from the second step to the first, so a frame further out
counts for nothing once a frame has the first segment (`Context.get?_dotted`).
-/

namespace Stencil

/-- What may stand between the dots of a name. -/
structure IsSegment (s : String) : Prop where
  ne_empty : s ≠ ""
  dotless : '.' ∉ s.toList

/-- The name of a first segment and the segments behind it. -/
def dotted (first : String) (others : List String) : String := ".".intercalate (first :: others)

namespace Value

/-- From the value the names lead to another one: each is what the value before it has under a name. -/
inductive Leads : Value → List String → Value → Prop
  | here (v : Value) : Leads v [] v
  | further {v w r : Value} {name : String} {names : List String} :
    v.lookup name = some w → Leads w names r → Leads v (name :: names) r

theorem foldlM_lookup_eq_some_iff {v r : Value} {names : List String} :
    names.foldlM lookup v = some r ↔ Leads v names r := by
  induction names generalizing v with
  | nil =>
    constructor
    · intro h
      rw [← Option.some.inj h]
      exact .here v
    · intro h
      cases h
      rfl
  | cons name names ih =>
    rw [List.foldlM_cons]
    constructor
    · intro h
      obtain ⟨w, hw, hrest⟩ := Option.bind_eq_some_iff.mp h
      exact .further hw (ih.mp hrest)
    · intro h
      cases h with
      | further hw hrest => exact Option.bind_eq_some_iff.mpr ⟨_, hw, ih.mpr hrest⟩

/-- Nothing lies behind a value without names. -/
theorem leads_iff_of_lookup_eq_none {v r : Value} {names : List String} (h : ∀ name, v.lookup name = none) :
    Leads v names r ↔ names = [] ∧ r = v := by
  constructor
  · intro hleads
    cases hleads with
    | here => exact ⟨rfl, rfl⟩
    | further hw _ =>
      rw [h] at hw
      cases hw
  · intro hnil
    obtain ⟨rfl, rfl⟩ := hnil
    exact .here r

/-- Only maps and objects have names. -/
theorem lookup_eq_none {v : Value} (h : v.isScalar = true ∨ ∃ items, v = .list items) (name : String) :
    v.lookup name = none := by
  rcases h with hscalar | ⟨items, rfl⟩
  · cases v with
    | null | bool | number | string => rfl
    | list | map | object | lambda => cases hscalar
  · rfl

end Value

namespace Context

variable {c : Context} {first : String} {others : List String}

theorem segments_dotted (h : ∀ s ∈ first :: others, IsSegment s) : segments (dotted first others) = first :: others := by
  have hdotless : ∀ piece ∈ (first :: others).map String.toList, '.' ∉ piece := by
    intro piece hpiece
    obtain ⟨s, hs, rfl⟩ := List.mem_map.mp hpiece
    exact (h s hs).dotless
  have hsplit := Text.split_intercalate (by simp) hdotless
  rw [segments, dotted, String.toList_intercalate]
  change (Text.split (· == '.') (['.'].intercalate _)).map String.ofList = _
  rw [hsplit, List.map_map]
  simp [Function.comp_def]

theorem dotted_ne_dot (h : ∀ s ∈ first :: others, IsSegment s) : dotted first others ≠ "." := by
  intro hdot
  have hsegments := segments_dotted h
  have hempty : segments "." = ["", ""] := by decide
  rw [hdot, hempty, List.cons.injEq] at hsegments
  exact (h first List.mem_cons_self).ne_empty hsegments.1.symm

theorem get?_dotted_eq (c : Context) (h : ∀ s ∈ first :: others, IsSegment s) :
    c.get? (dotted first others) = (c.frames.findSome? (·.lookup first)).bind (others.foldlM Value.lookup) := by
  rw [get?, if_neg (dotted_ne_dot h), segments_dotted h]
  rfl

/-- The innermost frame that has the first segment. Only frames that lack it stand above. -/
structure Picks (c : Context) (first : String) (above : List Value) (frame : Value) (below : List Value) (found : Value) :
    Prop where
  frames_eq : c.frames = above ++ frame :: below
  above_lack : ∀ g ∈ above, g.lookup first = none
  lookup_eq : frame.lookup first = some found

theorem findSome?_eq_some_iff_picks {found : Value} :
    c.frames.findSome? (·.lookup first) = some found ↔ ∃ above frame below, c.Picks first above frame below found := by
  rw [List.findSome?_eq_some_iff]
  constructor
  · intro h
    obtain ⟨above, frame, below, hframes, hlookup, habove⟩ := h
    exact ⟨above, frame, below, hframes, habove, hlookup⟩
  · intro h
    obtain ⟨above, frame, below, hpicks⟩ := h
    exact ⟨above, frame, below, hpicks.frames_eq, hpicks.lookup_eq, hpicks.above_lack⟩

theorem get?_dotted_eq_some_iff (h : ∀ s ∈ first :: others, IsSegment s) {r : Value} :
    c.get? (dotted first others) = some r ↔
      ∃ above frame below found, c.Picks first above frame below found ∧ found.Leads others r := by
  rw [get?_dotted_eq c h, Option.bind_eq_some_iff]
  constructor
  · intro hget
    obtain ⟨found, hfound, hrest⟩ := hget
    obtain ⟨above, frame, below, hpicks⟩ := findSome?_eq_some_iff_picks.mp hfound
    exact ⟨above, frame, below, found, hpicks, Value.foldlM_lookup_eq_some_iff.mp hrest⟩
  · intro hget
    obtain ⟨above, frame, below, found, hpicks, hleads⟩ := hget
    have hfound := findSome?_eq_some_iff_picks.mpr ⟨above, frame, below, hpicks⟩
    exact ⟨found, hfound, Value.foldlM_lookup_eq_some_iff.mpr hleads⟩

/-- What the frame that is picked has under the first segment decides: the frames below it are never asked. -/
theorem Picks.get?_eq_some_iff {above below : List Value} {frame found : Value} (hpicks : c.Picks first above frame below found)
    (h : ∀ s ∈ first :: others, IsSegment s) {r : Value} :
    c.get? (dotted first others) = some r ↔ found.Leads others r := by
  have hfound := findSome?_eq_some_iff_picks.mpr ⟨above, frame, below, hpicks⟩
  rw [get?_dotted_eq c h, hfound, Option.bind_some, Value.foldlM_lookup_eq_some_iff]

/-- A null that is found is a value as any other, and nothing lies behind it. -/
theorem Picks.get?_of_null {above below : List Value} {frame : Value} (hpicks : c.Picks first above frame below .null)
    (h : ∀ s ∈ first :: others, IsSegment s) :
    c.get? (dotted first others) = if others = [] then some .null else none := by
  have hleads (r : Value) : Value.Leads .null others r ↔ others = [] ∧ r = .null :=
    Value.leads_iff_of_lookup_eq_none (Value.lookup_eq_none (.inl rfl))
  by_cases hnil : others = []
  · have hsome := (hpicks.get?_eq_some_iff h).mpr ((hleads .null).mpr ⟨hnil, rfl⟩)
    rw [hsome, if_pos hnil]
  · rw [if_neg hnil, Option.eq_none_iff_forall_ne_some]
    intro r hget
    have hlead := (hpicks.get?_eq_some_iff h).mp hget
    exact hnil ((hleads r).mp hlead).1

/-- Frames that lack the first segment can be put on and taken off. -/
theorem get?_dotted_append (h : ∀ s ∈ first :: others, IsSegment s) {above : List Value}
    (habove : ∀ g ∈ above, g.lookup first = none) (rest : List Value) :
    get? ⟨above ++ rest⟩ (dotted first others) = get? ⟨rest⟩ (dotted first others) := by
  have hnone : above.findSome? (·.lookup first) = none := List.findSome?_eq_none_iff.mpr habove
  rw [get?_dotted_eq _ h, get?_dotted_eq _ h, List.findSome?_append, hnone, Option.none_or]

/-- One more segment is one more step from what the name stands for. -/
theorem get?_append_segment (c : Context) {a b : String} (ha : a ≠ ".") (hb : IsSegment b) :
    c.get? (a ++ "." ++ b) = (c.get? a).bind (·.lookup b) := by
  have hlist : (a ++ "." ++ b).toList = a.toList ++ '.' :: b.toList := by simp
  have hword : Text.split (· == '.') b.toList = [b.toList] := by
    apply Text.split_eq_singleton
    intro x hx
    rw [beq_eq_false_iff_ne]
    rintro rfl
    exact hb.dotless hx
  have hsegments : segments (a ++ "." ++ b) = segments a ++ [b] := by
    have hsplit := Text.split_append_cons (p := (· == '.')) (beq_self_eq_true '.') a.toList b.toList
    rw [segments, hlist, hsplit, hword, List.map_append, List.map_singleton, String.ofList_toList, segments]
  have hdot : a ++ "." ++ b ≠ "." := by
    intro hdot
    have hlength := congrArg (fun s => s.toList.length) hdot
    have hpos : 0 < b.toList.length := by
      rw [List.length_pos_iff]
      simpa using hb.ne_empty
    simp only [hlist, List.length_append, List.length_cons] at hlength
    change _ = 1 at hlength
    omega
  rw [get?, get?, if_neg hdot, if_neg ha, hsegments]
  cases hfirst : segments a with
  | nil => simp [segments, Text.split_ne_nil] at hfirst
  | cons first others =>
    simp only [List.cons_append]
    cases c.frames.findSome? (·.lookup first) with
    | none => rfl
    | some found =>
      change (others ++ [b]).foldlM Value.lookup found = _
      rw [List.foldlM_append]
      change (others.foldlM Value.lookup found).bind _ = (others.foldlM Value.lookup found).bind _
      congr 1
      funext w
      simp

/-- A dotted name stands for what the innermost frame with its first segment leads to, and for nothing if that frame does not
lead there, whatever the frames below it have. -/
theorem get?_dotted (c : Context) (h : ∀ s ∈ first :: others, IsSegment s) :
    (∀ r, c.get? (dotted first others) = some r ↔
      ∃ above frame below found, c.Picks first above frame below found ∧ found.Leads others r) ∧
    (∀ above frame below found, c.Picks first above frame below found →
      ((∀ r, ¬ found.Leads others r) → c.get? (dotted first others) = none) ∧
      (found = .null → c.get? (dotted first others) = if others = [] then some .null else none) ∧
      ∀ above', (∀ g ∈ above', g.lookup first = none) →
        get? ⟨above' ++ frame :: below⟩ (dotted first others) = c.get? (dotted first others)) ∧
    (∀ v : Value, v.isScalar = true ∨ (∃ items, v = .list items) → v.lookup first = none) ∧
    c.get? "." = c.frames.head? ∧
    ∀ a b, a ≠ "." → IsSegment b → c.get? (a ++ "." ++ b) = (c.get? a).bind (·.lookup b) := by
  refine ⟨fun r => get?_dotted_eq_some_iff h, ?_, fun v hv => Value.lookup_eq_none hv first, rfl,
    fun a b => get?_append_segment c⟩
  intro above frame below found hpicks
  refine ⟨?_, ?_, ?_⟩
  · intro hmiss
    rw [Option.eq_none_iff_forall_ne_some]
    intro r hget
    exact hmiss r ((hpicks.get?_eq_some_iff h).mp hget)
  · rintro rfl
    exact hpicks.get?_of_null h
  · intro above' habove'
    have hframes : c = ⟨above ++ frame :: below⟩ := congrArg Context.mk hpicks.frames_eq
    rw [hframes, get?_dotted_append h habove', get?_dotted_append h hpicks.above_lack]

/-- The frame further out has all of the name, but the frame in front of it has the first segment. -/
theorem get?_dotted_of_shadowed :
    let c : Context := ⟨[.bool true, .map [("a", .map [])], .map [("a", .map [("b", .bool true)])]]⟩
    (∀ s ∈ ["a", "b"], IsSegment s) ∧ c.Picks "a" [.bool true] (.map [("a", .map [])])
      [.map [("a", .map [("b", .bool true)])]] (.map []) ∧ c.get? (dotted "a" ["b"]) = none := by
  intro c
  have hsegments : ∀ s ∈ ["a", "b"], IsSegment s := by
    intro s hs
    simp only [List.mem_cons, List.not_mem_nil, or_false] at hs
    rcases hs with rfl | rfl
    · exact ⟨by decide, by decide⟩
    · exact ⟨by decide, by decide⟩
  have hpicks : c.Picks "a" [.bool true] (.map [("a", .map [])]) [.map [("a", .map [("b", .bool true)])]] (.map []) :=
    ⟨rfl, List.forall_mem_singleton.mpr rfl, rfl⟩
  have hmiss : ∀ r, ¬ Value.Leads (.map []) ["b"] r := by
    intro r hleads
    cases hleads with
    | further hlookup _ => cases hlookup
  exact ⟨hsegments, hpicks, ((get?_dotted c hsegments).2.1 _ _ _ _ hpicks).1 hmiss⟩

end Context
end Stencil
