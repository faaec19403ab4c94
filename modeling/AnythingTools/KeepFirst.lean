import Mathlib.Data.List.Nodup
import Mathlib.Data.List.Perm.Basic

namespace KeepFirst
set_option autoImplicit true

variable [DecidableEq κ] {key : α → κ}

/-- The first element of each key. -/
def keepFirst (key : α → κ) : List α → List α
  | [] => []
  | a :: l => a :: (keepFirst key l).filter fun b => decide (key b ≠ key a)

theorem keepFirst_sublist (key : α → κ) (l : List α) : (keepFirst key l).Sublist l := by
  induction l with
  | nil => exact List.Sublist.refl _
  | cons a l ih => exact (List.filter_sublist.trans ih).cons_cons a

theorem keys_keepFirst (key : α → κ) (l : List α) : ((keepFirst key l).map key).Nodup := by
  induction l with
  | nil => exact List.nodup_nil
  | cons a l ih =>
    rw [keepFirst, List.map_cons, List.nodup_cons]
    refine ⟨?_, ih.sublist (List.filter_sublist.map key)⟩
    intro hm
    obtain ⟨b, hb, hk⟩ := List.mem_map.1 hm
    exact of_decide_eq_true (List.mem_filter.1 hb).2 hk

/-- What is kept is what is found first with its key. -/
theorem mem_keepFirst {l : List α} :
    a ∈ keepFirst key l ↔ l.find? (fun b => decide (key b = key a)) = some a := by
  induction l with
  | nil => exact iff_of_false List.not_mem_nil fun h => nomatch h
  | cons c l ih =>
    rw [keepFirst, List.mem_cons, List.mem_filter, ih]
    by_cases hk : key c = key a
    · rw [List.find?_cons_of_pos (by simpa using hk)]
      constructor
      · rintro (rfl | ⟨_, hne⟩)
        · rfl
        · exact absurd hk.symm (of_decide_eq_true hne)
      · intro h
        exact .inl (Option.some.inj h).symm
    · rw [List.find?_cons_of_neg (by simpa using hk)]
      constructor
      · rintro (rfl | ⟨h, _⟩)
        · exact absurd rfl hk
        · exact h
      · exact fun h => .inr ⟨h, decide_eq_true (Ne.symm hk)⟩

/-- An element that is the only one of its key is kept. -/
theorem mem_keepFirst_of_only {l : List α} (ha : a ∈ l) (h : ∀ b ∈ l, key b = key a → b = a) :
    a ∈ keepFirst key l := by
  rw [mem_keepFirst]
  have hsome : (l.find? fun b => decide (key b = key a)).isSome = true := by
    rw [List.find?_isSome]
    exact ⟨a, ha, decide_eq_true rfl⟩
  obtain ⟨b, hb⟩ := Option.isSome_iff_exists.1 hsome
  have hk : key b = key a := by simpa using List.find?_some hb
  rw [hb, h b (List.mem_of_find?_eq_some hb) hk]

theorem mem_keepFirst_id [DecidableEq α] {l : List α} : a ∈ keepFirst id l ↔ a ∈ l :=
  ⟨fun h => (keepFirst_sublist id l).subset h, fun h => mem_keepFirst_of_only h fun _ _ hb => hb⟩

/-- Some elements, each the only one of its key, are what is kept of their keys. -/
theorem filter_keepFirst_perm {l es : List α} {p : α → Bool}
    (hp : ∀ b, p b = true ↔ key b ∈ es.map key) (hn : (es.map key).Nodup) (hmem : ∀ e ∈ es, e ∈ l)
    (honly : ∀ e ∈ es, ∀ b ∈ l, key b = key e → b = e) : ((keepFirst key l).filter p).Perm es := by
  have hkept : ((keepFirst key l).filter p).Nodup :=
    (List.Nodup.of_map key (keys_keepFirst key l)).filter _
  rw [List.perm_ext_iff_of_nodup hkept (List.Nodup.of_map key hn)]
  intro b
  rw [List.mem_filter, hp]
  constructor
  · rintro ⟨hb, hk⟩
    obtain ⟨e, he, hek⟩ := List.mem_map.1 hk
    rw [honly e he b ((keepFirst_sublist key l).subset hb) hek.symm]
    exact he
  · intro hb
    exact ⟨mem_keepFirst_of_only (hmem b hb) (honly b hb), List.mem_map_of_mem hb⟩

/-- In a list in order, what is kept comes before the others of its key. -/
theorem le_of_mem_keepFirst {r : α → α → Prop} {l : List α} (hs : l.Pairwise r)
    (ha : a ∈ keepFirst key l) (hb : b ∈ l) (hk : key b = key a) : b = a ∨ r a b := by
  induction l with
  | nil => cases hb
  | cons c l ih =>
    rw [List.pairwise_cons] at hs
    rw [keepFirst, List.mem_cons, List.mem_filter] at ha
    rcases ha with rfl | ⟨ha, hne⟩
    · rcases List.mem_cons.1 hb with rfl | hb
      · exact .inl rfl
      · exact .inr (hs.1 b hb)
    · rcases List.mem_cons.1 hb with rfl | hb
      · exact absurd hk.symm (of_decide_eq_true hne)
      · exact ih hs.2 ha hb

end KeepFirst
