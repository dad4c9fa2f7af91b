import Stencil.Proofs.Context
import Stencil.Proofs.Plain

/-!
# Plain forms

The plain form of a value has a list in place of each object that is one, and a text in place of any other object (`replaced`).
There is such a form unless something stands in its way that one reaches in the value: a lambda, or an object that is no list
and has no text. A tag writes a list or a map just as it writes the plain form of it (`plain_exact`).
-/

namespace Stencil

section Traversal

variable {ε α β γ : Type} {as : List α}

theorem mapM_cases {f : α → Except ε β} {g : α → β} {p : α → Prop}
    (h : ∀ a ∈ as, f a = .ok (g a) ∧ p a ∨ (∃ e, f a = .error e) ∧ ¬ p a) :
    as.mapM f = .ok (as.map g) ∧ (∀ a ∈ as, p a) ∨ (∃ e, as.mapM f = .error e) ∧ ¬ ∀ a ∈ as, p a := by
  induction as with
  | nil => exact .inl ⟨rfl, by simp⟩
  | cons a as ih =>
    obtain ⟨ha, has⟩ := List.forall_mem_cons.mp h
    simp only [List.mapM_cons, List.forall_mem_cons, List.map_cons]
    rcases ha with ⟨ha, hp⟩ | ⟨⟨e, he⟩, hp⟩
    · rcases ih has with ⟨has, hps⟩ | ⟨⟨e, he⟩, hps⟩
      · refine .inl ⟨?_, hp, hps⟩
        rw [ha, has]
        rfl
      · refine .inr ⟨⟨e, ?_⟩, fun hall => hps hall.2⟩
        rw [ha, he]
        rfl
    · refine .inr ⟨⟨e, ?_⟩, fun hall => hp hall.1⟩
      rw [he]
      rfl

theorem mapM_eq_ok_self {f : α → Except ε α} (h : ∀ a ∈ as, f a = .ok a) : as.mapM f = .ok as := by
  induction as with
  | nil => rfl
  | cons a as ih =>
    obtain ⟨ha, has⟩ := List.forall_mem_cons.mp h
    rw [List.mapM_cons, ha, ih has]
    rfl

/-- `x` and `y` fail alike, or `f` makes of what the one gives what the other gives. -/
def Meets (x : Except ε β) (f : β → Except ε γ) (y : Except ε γ) : Prop :=
  (∃ b c, x = .ok b ∧ f b = .ok c ∧ y = .ok c) ∨ ∃ e, x = .error e ∧ y = .error e

theorem Meets.mapM {f : α → Except ε β} {g : β → Except ε γ} {h : α → Except ε γ} (hmeets : ∀ a ∈ as, Meets (f a) g (h a)) :
    Meets (as.mapM f) (·.mapM g) (as.mapM h) := by
  induction as with
  | nil => exact .inl ⟨[], [], rfl, rfl, rfl⟩
  | cons a as ih =>
    obtain ⟨ha, has⟩ := List.forall_mem_cons.mp hmeets
    simp only [List.mapM_cons]
    rcases ha with ⟨b, c, hf, hg, hh⟩ | ⟨e, hf, hh⟩
    · rw [hf, hh]
      rcases ih has with ⟨bs, cs, hfs, hgs, hhs⟩ | ⟨e, hfs, hhs⟩
      · rw [hfs, hhs]
        refine .inl ⟨b :: bs, c :: cs, rfl, ?_, rfl⟩
        simp only [List.mapM_cons, hg, hgs]
        rfl
      · rw [hfs, hhs]
        exact .inr ⟨e, rfl, rfl⟩
    · rw [hf, hh]
      exact .inr ⟨e, rfl, rfl⟩

/-- The same, with something made of all three. -/
theorem Meets.map {β' γ' : Type} {x : Except ε β} {f : β → Except ε γ} {y : Except ε γ} (h : Meets x f y) {k : β → β'}
    {k' : γ → γ'} {f' : β' → Except ε γ'} (hf : ∀ b, f' (k b) = (f b).map k') : Meets (x.map k) f' (y.map k') := by
  rcases h with ⟨b, c, rfl, hc, rfl⟩ | ⟨e, rfl, rfl⟩
  · refine .inl ⟨k b, k' c, rfl, ?_, rfl⟩
    rw [hf, hc]
    rfl
  · exact .inr ⟨e, rfl, rfl⟩

end Traversal

namespace Value

/-- What is true of scalars and lambdas, and of a value if it is true of all that the value holds, is true of all values. -/
@[elab_as_elim]
theorem induction {P : Value → Prop} (scalar : ∀ v, v.isScalar = true → P v)
    (list : ∀ items, (∀ v ∈ items, P v) → P (.list items))
    (map : ∀ entries, (∀ entry ∈ entries, P entry.2) → P (.map entries))
    (object : ∀ info fields items, P (.list items) → P (.object info fields items))
    (lambda : ∀ l, P (.lambda l)) (v : Value) : P v := by
  refine Value.rec (motive_1 := P) (motive_2 := fun items => ∀ v ∈ items, P v)
    (motive_3 := fun entries => ∀ entry ∈ entries, P entry.2) (motive_4 := fun entry => P entry.2) ?_ ?_ ?_ ?_ list map
    (fun info fields items _ hitems => object info fields items (list items hitems)) lambda (by simp) ?_ (by simp) ?_ ?_ v
  · exact scalar _ rfl
  · exact fun b => scalar _ rfl
  · exact fun n => scalar _ rfl
  · exact fun s => scalar _ rfl
  · exact fun v items hv hitems => List.forall_mem_cons.mpr ⟨hv, hitems⟩
  · exact fun entry entries hentry hentries => List.forall_mem_cons.mpr ⟨hentry, hentries⟩
  · exact fun name v hv => hv

section Members

theorem plainItems_eq (items : List Value) : plainItems items = items.mapM plain := by
  induction items with
  | nil => rfl
  | cons v items ih => rw [plainItems, List.mapM_cons, ih]

theorem plainEntries_eq (entries : List (String × Value)) :
    plainEntries entries = entries.mapM fun entry => entry.2.plain.map (entry.1, ·) := by
  induction entries with
  | nil => rfl
  | cons entry entries ih =>
    rw [plainEntries, List.mapM_cons, ih]
    cases entry.2.plain with
    | error e => rfl
    | ok p => rfl

theorem jsonItems_eq (items : List Value) : jsonItems items = items.mapM json := by
  induction items with
  | nil => rfl
  | cons v items ih => rw [jsonItems, List.mapM_cons, ih]

theorem jsonEntries_eq (entries : List (String × Value)) :
    jsonEntries entries = entries.mapM fun entry => entry.2.json.map (Text.Json.quote entry.1 ++ ":" ++ ·) := by
  induction entries with
  | nil => rfl
  | cons entry entries ih =>
    rw [jsonEntries, List.mapM_cons, ih]
    cases entry.2.json with
    | error e => rfl
    | ok text => rfl

theorem plain_list (items : List Value) : (list items).plain = (items.mapM plain).map list := by
  rw [plain, plainItems_eq]
  rfl

theorem plain_map (entries : List (String × Value)) :
    (map entries).plain = (entries.mapM fun entry : String × Value => entry.2.plain.map (entry.1, ·)).map map := by
  rw [plain, plainEntries_eq]
  rfl

theorem json_list (items : List Value) : (list items).json = (items.mapM json).map (bracketed '[' · ']') := by
  rw [json, jsonItems_eq]
  rfl

theorem json_map (entries : List (String × Value)) : (map entries).json =
    (entries.mapM fun entry : String × Value => entry.2.json.map (Text.Json.quote entry.1 ++ ":" ++ ·)).map
      (bracketed '\x7b' · '\x7d') := by
  rw [json, jsonEntries_eq]
  rfl

/-- An object that is a list counts as the list of its items. -/
theorem plain_object_list {info : ObjectInfo} (hlist : info.isList = true) (fields : List (String × Value))
    (items : List Value) : (object info fields items).plain = (list items).plain := by
  rw [plain, plain, if_pos hlist]

theorem json_object_list {info : ObjectInfo} (hlist : info.isList = true) (fields : List (String × Value))
    (items : List Value) : (object info fields items).json = (list items).json := by
  rw [json, json, if_pos hlist]

end Members

/-- The value is reached from another one through the items of lists, the entries of maps and the items of objects that are
lists, or it is that one itself. -/
inductive Reached (w : Value) : Value → Prop
  | self : Reached w w
  | item {v : Value} {items : List Value} : v ∈ items → Reached w v → Reached w (list items)
  | entry {entry : String × Value} {entries : List (String × Value)} : entry ∈ entries → Reached w entry.2 →
    Reached w (map entries)
  | objectItem {info : ObjectInfo} (fields : List (String × Value)) {v : Value} {items : List Value} : info.isList = true →
    v ∈ items → Reached w v → Reached w (object info fields items)

/-- The value stands in the way of a plain form. -/
def obstructs : Value → Bool
  | lambda _ => true
  | object info _ _ => !info.isList && info.text?.isNone
  | _ => false

/-- Nothing that is reached from the value stands in the way of a plain form. -/
def Unobstructed (v : Value) : Prop := ∀ w, Reached w v → w.obstructs = false

mutual
/-- The value with a list in place of each object that is one, and with its text in place of any other object. -/
def replaced : Value → Value
  | list items => list (replacedItems items)
  | map entries => map (replacedEntries entries)
  | object info _ items => if info.isList then list (replacedItems items) else string (info.text?.getD "")
  | lambda l => lambda l
  | null => null
  | bool b => bool b
  | number n => number n
  | string s => string s
def replacedItems : List Value → List Value
  | [] => []
  | v :: items => v.replaced :: replacedItems items
def replacedEntries : List (String × Value) → List (String × Value)
  | [] => []
  | (name, v) :: entries => (name, v.replaced) :: replacedEntries entries
end

theorem replacedItems_eq (items : List Value) : replacedItems items = items.map replaced := by
  induction items with
  | nil => rfl
  | cons v items ih => rw [replacedItems, ih, List.map_cons]

theorem replacedEntries_eq (entries : List (String × Value)) :
    replacedEntries entries = entries.map fun entry => (entry.1, entry.2.replaced) := by
  induction entries with
  | nil => rfl
  | cons entry entries ih => rw [replacedEntries, ih, List.map_cons]

theorem replaced_list (items : List Value) : (list items).replaced = list (items.map replaced) := by
  rw [replaced, replacedItems_eq]

theorem replaced_map (entries : List (String × Value)) :
    (map entries).replaced = map (entries.map fun entry => (entry.1, entry.2.replaced)) := by
  rw [replaced, replacedEntries_eq]

theorem replaced_object_list {info : ObjectInfo} (hlist : info.isList = true) (fields : List (String × Value))
    (items : List Value) : (object info fields items).replaced = (list items).replaced := by
  rw [replaced, replaced, if_pos hlist]

section Unobstructed

theorem unobstructed_list (items : List Value) : (list items).Unobstructed ↔ ∀ v ∈ items, v.Unobstructed := by
  constructor
  · intro h v hv w hw
    exact h w (.item hv hw)
  · intro h w hw
    cases hw with
    | self => rfl
    | item hv hw => exact h _ hv w hw

theorem unobstructed_map (entries : List (String × Value)) :
    (map entries).Unobstructed ↔ ∀ entry ∈ entries, entry.2.Unobstructed := by
  constructor
  · intro h entry hentry w hw
    exact h w (.entry hentry hw)
  · intro h w hw
    cases hw with
    | self => rfl
    | entry hentry hw => exact h _ hentry w hw

theorem unobstructed_object_list {info : ObjectInfo} (hlist : info.isList = true) (fields : List (String × Value))
    (items : List Value) : (object info fields items).Unobstructed ↔ (list items).Unobstructed := by
  rw [unobstructed_list]
  constructor
  · intro h v hv w hw
    exact h w (.objectItem fields hlist hv hw)
  · intro h w hw
    cases hw with
    | self => simp [obstructs, hlist]
    | objectItem _ _ hv hw => exact h _ hv w hw

theorem unobstructed_object_text {info : ObjectInfo} (hlist : info.isList = false) (fields : List (String × Value))
    (items : List Value) : (object info fields items).Unobstructed ↔ info.text?.isSome = true := by
  constructor
  · intro h
    simpa [obstructs, hlist] using h _ .self
  · intro h w hw
    cases hw with
    | self => simpa [obstructs, hlist] using h
    | objectItem _ hlist' => simp [hlist] at hlist'

theorem unobstructed_of_isScalar {v : Value} (h : v.isScalar = true) : v.Unobstructed := by
  intro w hw
  cases hw with
  | self =>
    cases v with
    | null | bool | number | string => rfl
    | list | map | object | lambda => cases h
  | item | entry | objectItem => cases h

end Unobstructed

/-- A value has a plain form if nothing stands in the way, and then that is the value with its objects replaced. -/
theorem plain_replaced_cases (v : Value) :
    v.plain = .ok v.replaced ∧ v.Unobstructed ∨ (∃ fault, v.plain = .error fault) ∧ ¬ v.Unobstructed := by
  induction v using induction with
  | scalar v h =>
    refine .inl ⟨?_, unobstructed_of_isScalar h⟩
    cases v with
    | null | bool | number | string => rw [plain, replaced]
    | list | map | object | lambda => cases h
  | list items ih =>
    rw [plain_list, replaced_list, unobstructed_list]
    rcases mapM_cases ih with ⟨hplain, hitems⟩ | ⟨⟨fault, hplain⟩, hitems⟩
    · rw [hplain]
      exact .inl ⟨rfl, hitems⟩
    · rw [hplain]
      exact .inr ⟨⟨fault, rfl⟩, hitems⟩
  | map entries ih =>
    have hentries : ∀ entry ∈ entries,
        entry.2.plain.map (entry.1, ·) = .ok (entry.1, entry.2.replaced) ∧ entry.2.Unobstructed ∨
          (∃ fault, entry.2.plain.map (entry.1, ·) = .error fault) ∧ ¬ entry.2.Unobstructed := by
      intro entry hentry
      rcases ih entry hentry with ⟨hplain, hfree⟩ | ⟨⟨fault, hplain⟩, hfree⟩
      · rw [hplain]
        exact .inl ⟨rfl, hfree⟩
      · rw [hplain]
        exact .inr ⟨⟨fault, rfl⟩, hfree⟩
    rw [plain_map, replaced_map, unobstructed_map]
    rcases mapM_cases hentries with ⟨hplain, hfree⟩ | ⟨⟨fault, hplain⟩, hfree⟩
    · rw [hplain]
      exact .inl ⟨rfl, hfree⟩
    · rw [hplain]
      exact .inr ⟨⟨fault, rfl⟩, hfree⟩
  | object info fields items ih =>
    cases hlist : info.isList with
    | true =>
      rwa [plain_object_list hlist, replaced_object_list hlist, unobstructed_object_list hlist]
    | false =>
      rw [unobstructed_object_text hlist]
      cases htext : info.text? with
      | some text => exact .inl ⟨by simp [plain, replaced, hlist, htext], rfl⟩
      | none => exact .inr ⟨⟨.object info.label, by simp [plain, hlist, htext]⟩, nofun⟩
  | lambda l => exact .inr ⟨⟨.lambda, rfl⟩, fun h => nomatch h _ .self⟩

theorem plain_eq_ok_iff {v p : Value} : v.plain = .ok p ↔ v.Unobstructed ∧ p = v.replaced := by
  rcases v.plain_replaced_cases with ⟨hplain, hfree⟩ | ⟨⟨fault, hplain⟩, hfree⟩
  · simp [hplain, hfree, eq_comm]
  · simp [hplain, hfree]

/-- Nothing is left to replace in a plain form. -/
theorem plain_replaced {v : Value} (h : v.Unobstructed) : v.replaced.plain = .ok v.replaced := by
  induction v using induction with
  | scalar v hscalar =>
    cases v with
    | null | bool | number | string => rw [replaced, plain]
    | list | map | object | lambda => cases hscalar
  | list items ih =>
    rw [unobstructed_list] at h
    have hitems : ∀ p ∈ items.map replaced, p.plain = .ok p := by
      simpa using fun v hv => ih v hv (h v hv)
    rw [replaced_list, plain_list, mapM_eq_ok_self hitems]
    rfl
  | map entries ih =>
    rw [unobstructed_map] at h
    have hentries : ∀ entry ∈ entries.map fun entry => (entry.1, entry.2.replaced),
        entry.2.plain.map (entry.1, ·) = .ok entry := by
      intro _ hmem
      obtain ⟨entry, hentry, rfl⟩ := List.mem_map.mp hmem
      rw [ih entry hentry (h entry hentry)]
      rfl
    rw [replaced_map, plain_map, mapM_eq_ok_self hentries]
    rfl
  | object info fields items ih =>
    cases hlist : info.isList with
    | true =>
      rw [replaced_object_list hlist]
      exact ih ((unobstructed_object_list hlist fields items).mp h)
    | false => simp [replaced, hlist, plain]
  | lambda l => exact absurd (h _ .self) (by simp [obstructs])

/-- No lambda is left in a plain form. -/
theorem allLambdas_of_plain {v p : Value} (h : v.plain = .ok p) : p.AllLambdas fun _ => False := by
  obtain ⟨hfree, rfl⟩ := plain_eq_ok_iff.mp h
  clear h
  induction v using induction with
  | scalar v hscalar =>
    cases v with
    | null | bool | number | string =>
      rw [replaced]
      exact .of_isScalar rfl
    | list | map | object | lambda => cases hscalar
  | list items ih =>
    rw [unobstructed_list] at hfree
    rw [replaced_list]
    exact .list (by simpa using fun v hv => ih v hv (hfree v hv))
  | map entries ih =>
    rw [unobstructed_map] at hfree
    rw [replaced_map]
    refine .map fun entry hentry => ?_
    obtain ⟨entry, hmem, rfl⟩ := List.mem_map.mp hentry
    exact ih entry hmem (hfree entry hmem)
  | object info fields items ih =>
    cases hlist : info.isList with
    | true =>
      rw [replaced_object_list hlist]
      exact ih ((unobstructed_object_list hlist fields items).mp hfree)
    | false =>
      rw [replaced, hlist]
      exact .of_isScalar rfl
  | lambda l => exact absurd (hfree _ .self) (by simp [obstructs])

/-- A value and its plain form are written as the same JSON, and there is a form of the one exactly if the other can be
written. -/
theorem json_plain (v : Value) : Meets v.plain json v.json := by
  induction v using induction with
  | scalar v h =>
    cases v with
    | null | bool | number | string => exact .inl ⟨_, _, by rw [plain], by rw [json], by rw [json]⟩
    | list | map | object | lambda => cases h
  | list items ih =>
    rw [plain_list, json_list]
    exact (Meets.mapM ih).map json_list
  | map entries ih =>
    rw [plain_map, json_map]
    refine Meets.map (Meets.mapM fun entry hentry => ?_) json_map
    exact (ih entry hentry).map fun p => rfl
  | object info fields items ih =>
    cases hlist : info.isList with
    | true => rwa [plain_object_list hlist, json_object_list hlist]
    | false =>
      cases htext : info.text? with
      | some text => exact .inl ⟨.string text, _, by simp [plain, hlist, htext], by rw [json], by simp [json, hlist, htext]⟩
      | none => exact .inr ⟨.object info.label, by simp [plain, hlist, htext], by simp [json, hlist, htext]⟩
  | lambda l => exact .inr ⟨.lambda, by rw [plain], by rw [json]⟩

/-- A list or a map, which a tag writes as JSON. -/
def isCompound : Value → Bool
  | list _ | map _ => true
  | _ => false

theorem text_of_isCompound {v : Value} (h : v.isCompound = true) : v.text = v.json.mapError .serialization := by
  cases v with
  | list | map => rw [text]
  | null | bool | number | string | object | lambda => cases h

theorem isCompound_replaced {v : Value} (h : v.isCompound = true) : v.replaced.isCompound = true := by
  cases v with
  | list | map => simp [replaced, isCompound]
  | null | bool | number | string | object | lambda => cases h

/-- A value has a plain form exactly if nothing stands in the way, and that is the value with its objects replaced: the value
itself if there are none in it, and the plain form of itself. A tag writes a list or a map if it has a plain form, and then it
writes that form the same. -/
theorem plain_exact (v : Value) :
    ((∃ p, v.plain = .ok p) ↔ ∀ w, Reached w v → w.obstructs = false) ∧
      (∀ p, v.plain = .ok p → p = v.replaced ∧ (¬ v.Has isObject → p = v) ∧ p.plain = .ok p) ∧
      (v.isCompound = true →
        (∀ e, v.text = .error e ↔ ∃ fault, e = .serialization fault ∧ v.plain = .error fault) ∧
          ∀ p, v.plain = .ok p → ∃ text, v.text = .ok text ∧ p.text = .ok text) := by
  refine ⟨?_, ?_, ?_⟩
  · simp only [plain_eq_ok_iff, exists_and_left, exists_eq, and_true, Unobstructed]
  · intro p hp
    obtain ⟨hfree, hreplaced⟩ := plain_eq_ok_iff.mp hp
    refine ⟨hreplaced, fun hobject => ?_, hreplaced ▸ plain_replaced hfree⟩
    rcases v.plain_cases hobject with ⟨hself, -⟩ | ⟨hfault, -⟩
    · exact Except.ok.inj (hp.symm.trans hself)
    · cases hp.symm.trans hfault
  · intro hcompound
    rw [text_of_isCompound hcompound]
    rcases v.json_plain with ⟨p, json, hplain, hp, hv⟩ | ⟨fault, hplain, hv⟩
    · have hform : p.isCompound = true := by
        rw [(plain_eq_ok_iff.mp hplain).2]
        exact isCompound_replaced hcompound
      rw [hplain, hv]
      refine ⟨fun e => ?_, ?_⟩
      · change Except.ok json = .error e ↔ _
        simp
      · rintro _ ⟨⟩
        rw [text_of_isCompound hform, hp]
        exact ⟨json, rfl, rfl⟩
    · rw [hplain, hv]
      change (∀ e, Except.error (Error.serialization fault) = .error e ↔ _) ∧ _
      simp [eq_comm]

/-- A list object in a map, with an object that has a text among its items, and with a field that does not matter. -/
theorem plain_exact_of_map :
    let text : Value := .object ⟨0, some "b", false, none, "Text"⟩ [] []
    let v : Value := .map [("a", .object ⟨1, some "c", true, none, "Items"⟩ [("f", .lambda ⟨0, .nullary⟩)] [.null, text])]
    let p : Value := .map [("a", .list [.null, .string "b"])]
    v.isCompound = true ∧ v.plain = .ok p ∧ ∃ written, v.text = .ok written ∧ p.text = .ok written := by
  intro text v p
  have hplain : v.plain = .ok p := rfl
  exact ⟨rfl, hplain, ((plain_exact v).2.2 rfl).2 p hplain⟩

end Value
end Stencil
