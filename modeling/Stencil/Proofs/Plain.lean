import Stencil.Value.Text

/-!
# Plain data

Data without objects of the host program are plain as they are, unless they hold a lambda: then they have no plain form
(`plain_cases`).
-/

namespace Stencil.Value

/-- A value is held by another one, however deep, or is that value itself. -/
inductive Within (w : Value) : Value → Prop
  | self : Within w w
  | item {v : Value} {items : List Value} : v ∈ items → Within w v → Within w (list items)
  | entry {entry : String × Value} {entries : List (String × Value)} : entry ∈ entries → Within w entry.2 →
    Within w (map entries)
  | objectField (info : ObjectInfo) {entry : String × Value} {fields : List (String × Value)} (items : List Value) :
    entry ∈ fields → Within w entry.2 → Within w (object info fields items)
  | objectItem (info : ObjectInfo) (fields : List (String × Value)) {v : Value} {items : List Value} : v ∈ items →
    Within w v → Within w (object info fields items)

/-- Something of the kind `p` is held by the value, however deep, or is the value itself. -/
def Has (p : Value → Bool) (v : Value) : Prop := ∃ w, p w = true ∧ Within w v

def isLambda : Value → Bool
  | lambda _ => true
  | _ => false

def isObject : Value → Bool
  | object .. => true
  | _ => false

section Has

variable {p : Value → Bool}

theorem not_has_of_isScalar {v : Value} (hv : v.isScalar = true) (hp : p v = false) : ¬ v.Has p := by
  intro h
  obtain ⟨w, hw, h⟩ := h
  cases h with
  | self =>
    rw [hp] at hw
    cases hw
  | item | entry | objectField | objectItem => cases hv

theorem has_list {items : List Value} (hp : p (list items) = false) : (list items).Has p ↔ ∃ v ∈ items, v.Has p := by
  constructor
  · intro h
    obtain ⟨w, hw, h⟩ := h
    cases h with
    | self =>
      rw [hp] at hw
      cases hw
    | item hv h => exact ⟨_, hv, w, hw, h⟩
  · intro h
    obtain ⟨v, hv, w, hw, h⟩ := h
    exact ⟨w, hw, .item hv h⟩

theorem has_map {entries : List (String × Value)} (hp : p (map entries) = false) :
    (map entries).Has p ↔ ∃ entry ∈ entries, entry.2.Has p := by
  constructor
  · intro h
    obtain ⟨w, hw, h⟩ := h
    cases h with
    | self =>
      rw [hp] at hw
      cases hw
    | entry hentry h => exact ⟨_, hentry, w, hw, h⟩
  · intro h
    obtain ⟨entry, hentry, w, hw, h⟩ := h
    exact ⟨w, hw, .entry hentry h⟩

end Has

mutual
theorem plain_cases (v : Value) (hobject : ¬ v.Has isObject) :
    v.plain = .ok v ∧ ¬ v.Has isLambda ∨ v.plain = .error .lambda ∧ v.Has isLambda := by
  cases v with
  | list items =>
    rw [plain, has_list rfl]
    have hitems : ∀ v ∈ items, ¬ v.Has isObject := fun v hv h => hobject ((has_list rfl).mpr ⟨v, hv, h⟩)
    rcases plainItems_cases items hitems with ⟨hplain, hlambda⟩ | ⟨hplain, hlambda⟩
    · rw [hplain]
      exact .inl ⟨rfl, hlambda⟩
    · rw [hplain]
      exact .inr ⟨rfl, hlambda⟩
  | map entries =>
    rw [plain, has_map rfl]
    have hentries : ∀ entry ∈ entries, ¬ entry.2.Has isObject :=
      fun entry hentry h => hobject ((has_map rfl).mpr ⟨entry, hentry, h⟩)
    rcases plainEntries_cases entries hentries with ⟨hplain, hlambda⟩ | ⟨hplain, hlambda⟩
    · rw [hplain]
      exact .inl ⟨rfl, hlambda⟩
    · rw [hplain]
      exact .inr ⟨rfl, hlambda⟩
  | object info fields items => exact absurd ⟨_, rfl, .self⟩ hobject
  | lambda l => exact .inr ⟨rfl, _, rfl, .self⟩
  | null | bool | number | string =>
    refine .inl ⟨?_, not_has_of_isScalar rfl rfl⟩
    rw [plain]
theorem plainItems_cases (items : List Value) (hobject : ∀ v ∈ items, ¬ v.Has isObject) :
    plainItems items = .ok items ∧ ¬ (∃ v ∈ items, v.Has isLambda) ∨
      plainItems items = .error .lambda ∧ ∃ v ∈ items, v.Has isLambda := by
  cases items with
  | nil => exact .inl ⟨rfl, by simp⟩
  | cons v items =>
    obtain ⟨hobjectV, hobject⟩ := List.forall_mem_cons.mp hobject
    rw [plainItems]
    simp only [List.mem_cons, exists_eq_or_imp]
    rcases plain_cases v hobjectV with ⟨hv, hlambdaV⟩ | ⟨hv, hlambdaV⟩
    · rw [hv]
      rcases plainItems_cases items hobject with ⟨hplain, hlambda⟩ | ⟨hplain, hlambda⟩
      · rw [hplain]
        exact .inl ⟨rfl, not_or.mpr ⟨hlambdaV, hlambda⟩⟩
      · rw [hplain]
        exact .inr ⟨rfl, .inr hlambda⟩
    · rw [hv]
      exact .inr ⟨rfl, .inl hlambdaV⟩
theorem plainEntries_cases (entries : List (String × Value)) (hobject : ∀ entry ∈ entries, ¬ entry.2.Has isObject) :
    plainEntries entries = .ok entries ∧ ¬ (∃ entry ∈ entries, entry.2.Has isLambda) ∨
      plainEntries entries = .error .lambda ∧ ∃ entry ∈ entries, entry.2.Has isLambda := by
  cases entries with
  | nil => exact .inl ⟨rfl, by simp⟩
  | cons entry entries =>
    obtain ⟨name, v⟩ := entry
    obtain ⟨hobjectV, hobject⟩ := List.forall_mem_cons.mp hobject
    rw [plainEntries]
    simp only [List.mem_cons, exists_eq_or_imp]
    rcases plain_cases v hobjectV with ⟨hv, hlambdaV⟩ | ⟨hv, hlambdaV⟩
    · rw [hv]
      rcases plainEntries_cases entries hobject with ⟨hplain, hlambda⟩ | ⟨hplain, hlambda⟩
      · rw [hplain]
        exact .inl ⟨rfl, not_or.mpr ⟨hlambdaV, hlambda⟩⟩
      · rw [hplain]
        exact .inr ⟨rfl, .inr hlambda⟩
    · rw [hv]
      exact .inr ⟨rfl, .inl hlambdaV⟩
end

end Stencil.Value
