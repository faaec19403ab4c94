import Mathlib.Data.List.Nodup

/-! Dictionaries that keep the order in which their keys came. -/

namespace Dict
set_option autoImplicit true

variable [DecidableEq κ]

/-- `d[k] = v` -/
def set (d : List (κ × α)) (k : κ) (v : α) : List (κ × α) :=
  if k ∈ d.map Prod.fst then d.map fun m => if m.1 = k then (k, v) else m else d ++ [(k, v)]

/-- `d.get(k)` -/
def get (d : List (κ × α)) (k : κ) : Option α := (d.find? fun m => decide (m.1 = k)).map Prod.snd

@[simp] theorem get_nil (k : κ) : get ([] : List (κ × α)) k = none := rfl

theorem get_cons (m : κ × α) (d : List (κ × α)) (k : κ) :
    get (m :: d) k = if m.1 = k then some m.2 else get d k := by
  rw [get, List.find?_cons, get]
  by_cases h : m.1 = k
  · rw [decide_eq_true h, if_pos h]
    rfl
  · rw [decide_eq_false h, if_neg h]

theorem get_isSome (d : List (κ × α)) (k : κ) : (get d k).isSome = true ↔ k ∈ d.map Prod.fst := by
  induction d with
  | nil => exact iff_of_false Bool.false_ne_true List.not_mem_nil
  | cons m d ih =>
    rw [get_cons, List.map_cons, List.mem_cons]
    by_cases h : m.1 = k
    · rw [if_pos h]
      exact iff_of_true rfl (.inl h.symm)
    · rw [if_neg h, ih]
      exact ⟨.inr, fun hk => hk.resolve_left fun he => h he.symm⟩

theorem get_append (d d' : List (κ × α)) (k : κ) : get (d ++ d') k = (get d k).or (get d' k) := by
  induction d with
  | nil => rfl
  | cons m d ih =>
    rw [List.cons_append, get_cons, get_cons, ih]
    by_cases h : m.1 = k
    · rw [if_pos h, if_pos h, Option.some_or]
    · rw [if_neg h, if_neg h]

theorem get_assign (d : List (κ × α)) (k j : κ) (v : α) :
    get (d.map fun m => if m.1 = k then (k, v) else m) j =
      if j = k then (get d j).map fun _ => v else get d j := by
  induction d with
  | nil =>
    rw [List.map_nil, get_nil]
    split <;> rfl
  | cons m d ih =>
    rw [List.map_cons, get_cons, get_cons, ih]
    by_cases hm : m.1 = k
    · rw [if_pos hm, hm]
      by_cases hj : j = k
      · rw [if_pos hj.symm, if_pos hj, if_pos hj.symm, Option.map_some]
      · rw [if_neg fun he => hj he.symm, if_neg hj, if_neg hj, if_neg fun he => hj he.symm]
    · rw [if_neg hm]
      by_cases hj : j = k
      · have hmj : ¬ m.1 = j := fun he => hm (he.trans hj)
        rw [if_neg hmj, if_neg hmj, if_pos hj]
      · rw [if_neg hj, if_neg hj]

theorem get_set (d : List (κ × α)) (k j : κ) (v : α) :
    get (set d k v) j = if j = k then some v else get d j := by
  rw [set]
  by_cases hk : k ∈ d.map Prod.fst
  · rw [if_pos hk, get_assign]
    by_cases hj : j = k
    · obtain ⟨x, hx⟩ := Option.isSome_iff_exists.1 ((get_isSome d k).2 hk)
      rw [if_pos hj, if_pos hj, hj, hx, Option.map_some]
    · rw [if_neg hj, if_neg hj]
  · have hnone : get d k = none := by
      by_contra h
      exact hk ((get_isSome d k).1 (Option.isSome_iff_ne_none.2 h))
    rw [if_neg hk, get_append, get_cons, get_nil]
    by_cases hj : j = k
    · rw [if_pos hj, if_pos hj.symm, hj, hnone, Option.none_or]
    · rw [if_neg hj, if_neg fun he => hj he.symm, Option.or_none]

theorem keys_set (d : List (κ × α)) (k : κ) (v : α) : (set d k v).map Prod.fst =
    if k ∈ d.map Prod.fst then d.map Prod.fst else d.map Prod.fst ++ [k] := by
  rw [set]
  split
  next =>
    rw [List.map_map]
    apply List.map_congr_left
    intro m _
    rw [Function.comp_apply]
    split
    next h => exact h.symm
    next => rfl
  next => rw [List.map_append, List.map_singleton]

/-- Every key stays there once. -/
theorem nodup_keys_set {d : List (κ × α)} (h : (d.map Prod.fst).Nodup) (k : κ) (v : α) :
    ((set d k v).map Prod.fst).Nodup := by
  rw [keys_set]
  split
  next => exact h
  next hk =>
    rw [← List.concat_eq_append]
    exact h.concat hk

theorem get_isSome_set (d : List (κ × α)) (k j : κ) (v : α) :
    (get (set d k v) j).isSome = true ↔ j = k ∨ (get d j).isSome = true := by
  rw [get_set]
  by_cases hj : j = k
  · rw [if_pos hj]
    exact iff_of_true rfl (.inl hj)
  · rw [if_neg hj, or_iff_right hj]

end Dict
