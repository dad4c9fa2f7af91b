import Stencil.Context

/-!
# What names stand for

A name stands for something that is held by one of the frames. So what is true of all that frames hold, however deep, is true
of whatever a name stands for (`Context.get?_closed`), and the frames count for no more than what they have under the first
segment of the name (`Context.get?_congr`).
-/

namespace Stencil

namespace Value

/-- What is true of a value is true of what it has under a name, and of what a section on it goes through. -/
structure Closed (P : Value → Prop) : Prop where
  lookup : ∀ {v name w}, P v → v.lookup name = some w → P w
  frames : ∀ {v}, P v → ∀ frame ∈ v.items?.getD [v], P frame

/-- All lambdas in the value are such as `p` says, however deep they are. -/
inductive AllLambdas (p : Lambda → Prop) : Value → Prop
  | null : AllLambdas p null
  | bool (b : Bool) : AllLambdas p (bool b)
  | number (n : Number) : AllLambdas p (number n)
  | string (s : String) : AllLambdas p (string s)
  | list {items : List Value} : (∀ v ∈ items, AllLambdas p v) → AllLambdas p (list items)
  | map {entries : List (String × Value)} : (∀ entry ∈ entries, AllLambdas p entry.2) → AllLambdas p (map entries)
  | object (info : ObjectInfo) {fields : List (String × Value)} {items : List Value} :
    (∀ entry ∈ fields, AllLambdas p entry.2) → (∀ v ∈ items, AllLambdas p v) → AllLambdas p (object info fields items)
  | lambda {l : Lambda} : p l → AllLambdas p (lambda l)

theorem prop_of_find? {P : Value → Prop} {entries : Entries Value} (h : ∀ entry ∈ entries, P entry.2) {name : String}
    {v : Value} (hfind : entries.find? name = some v) : P v := by
  induction entries with
  | nil => cases hfind
  | cons entry entries ih =>
    rw [Entries.find?_cons] at hfind
    split at hfind
    · rw [← Option.some.inj hfind]
      exact h entry List.mem_cons_self
    · exact ih (fun e he => h e (List.mem_cons_of_mem entry he)) hfind

namespace AllLambdas

variable {p : Lambda → Prop}

theorem of_isScalar {v : Value} (h : v.isScalar = true) : v.AllLambdas p := by
  cases v with
  | null | bool | number | string => constructor
  | list | map | object | lambda => cases h

theorem of_lambda {l : Lambda} (h : AllLambdas p (.lambda l)) : p l := by
  cases h with
  | lambda hl => exact hl

theorem closed (p : Lambda → Prop) : Closed (AllLambdas p) where
  lookup h hlookup := by
    cases h with
    | map hentries => exact prop_of_find? hentries hlookup
    | object _ hfields _ => exact prop_of_find? hfields hlookup
    | null | bool | number | string | list | lambda => cases hlookup
  frames {v} h frame hframe := by
    cases hitems : v.items? with
    | none =>
      rw [hitems] at hframe
      rw [List.mem_singleton.mp hframe]
      exact h
    | some items =>
      rw [hitems] at hframe
      cases h with
      | list hlist => exact hlist frame (Option.some.inj hitems ▸ hframe)
      | object info _ hlist =>
        rw [items?] at hitems
        split at hitems
        · exact hlist frame (Option.some.inj hitems ▸ hframe)
        · cases hitems
      | null | bool | number | string | map | lambda => cases hitems

end AllLambdas
end Value

namespace Context

variable {c c' : Context} {name : String} {P : Value → Prop} {v : Value}

def All (P : Value → Prop) (c : Context) : Prop := ∀ frame ∈ c.frames, P frame

namespace All

theorem push (h : c.All P) (hv : P v) : (c.push v).All P := List.forall_mem_cons.mpr ⟨hv, h⟩

theorem truncate (h : c.All P) (n : Nat) : (c.truncate n).All P := fun frame hframe => h frame (List.mem_of_mem_drop hframe)

theorem ofValue (hv : P v) : (ofValue v).All P := List.forall_mem_singleton.mpr hv

end All

/-- The frames count for no more than what they have under the first segment of the name. -/
theorem get?_congr (hname : name ≠ ".") (hfirst : ∀ first ∈ (segments name).head?,
    c'.frames.findSome? (·.lookup first) = c.frames.findSome? (·.lookup first)) : c'.get? name = c.get? name := by
  rw [get?, get?, if_neg hname, if_neg hname]
  cases hsegments : segments name with
  | nil => rfl
  | cons first others =>
    rw [hsegments] at hfirst
    simp only [hfirst first rfl]

private theorem foldlM_lookup_closed (hP : Value.Closed P) {names : List String} {w : Value} (hv : P v)
    (hfold : names.foldlM Value.lookup v = some w) : P w := by
  induction names generalizing v with
  | nil => exact Option.some.inj hfold ▸ hv
  | cons name names ih =>
    rw [List.foldlM_cons] at hfold
    obtain ⟨found, hfound, hrest⟩ := Option.bind_eq_some_iff.mp hfold
    exact ih (hP.lookup hv hfound) hrest

/-- What is true of the innermost frame, and of what the frames have under the first segment, is true of what the name stands
for. -/
theorem get?_closed (hP : Value.Closed P) (htop : name = "." → ∀ frame ∈ c.top?, P frame)
    (hfirst : ∀ first ∈ (segments name).head?, ∀ w, c.frames.findSome? (·.lookup first) = some w → P w)
    (hget : c.get? name = some v) : P v := by
  rw [get?] at hget
  split at hget
  · next hname => exact htop hname v hget
  · split at hget
    · cases hget
    · next first others hsegments =>
      obtain ⟨found, hfound, hrest⟩ := Option.bind_eq_some_iff.mp hget
      rw [hsegments] at hfirst
      exact foldlM_lookup_closed hP (hfirst first rfl found hfound) hrest

theorem All.get? (h : c.All P) (hP : Value.Closed P) (hget : c.get? name = some v) : P v := by
  refine get?_closed hP (fun _ frame hframe => h frame (List.mem_of_mem_head? hframe)) (fun first _ w hw => ?_) hget
  obtain ⟨frame, hframe, hlookup⟩ := List.exists_of_findSome?_eq_some hw
  exact hP.lookup (h frame hframe) hlookup

end Context
end Stencil
