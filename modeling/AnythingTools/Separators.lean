import Mathlib.Data.List.Infix

namespace Separators
set_option autoImplicit true

/-- The separator cannot begin before the end of the part: not in it, and not in it and a piece of
the separator that follows. -/
def Separable (sep part : List α) : Prop := ¬ sep <:+: part ++ sep.dropLast

instance [DecidableEq α] (sep part : List α) : Decidable (Separable sep part) :=
  inferInstanceAs (Decidable (¬ sep <:+: part ++ sep.dropLast))

/-- A longer part would have the separator in it. -/
theorem Separable.eq_nil_of_append {sep p z x y : List α}
    (hq : Separable sep (p ++ z)) (h : sep ++ x = z ++ (sep ++ y)) : z = [] := by
  by_contra hz
  have hlen : sep.length ≤ (z ++ sep.dropLast).length := by
    have hz' : 0 < z.length := List.length_pos_iff.2 hz
    rw [List.length_append, List.length_dropLast]
    omega
  have hpre : sep <+: z ++ sep.dropLast := by
    refine List.prefix_of_prefix_length_le ⟨x, rfl⟩ ?_ hlen
    rw [h]
    exact (List.prefix_append_right_inj z).2 ((List.dropLast_prefix sep).trans ⟨y, rfl⟩)
  apply hq
  rw [List.append_assoc]
  exact hpre.isInfix.trans (List.suffix_append p _).isInfix

/-- A separable part is read back from what it begins. -/
theorem Separable.append_inj {sep p q x y : List α} (hp : Separable sep p)
    (hq : Separable sep q) (h : p ++ (sep ++ x) = q ++ (sep ++ y)) : p = q ∧ x = y := by
  have he : p = q := by
    rcases List.append_eq_append_iff.1 h with ⟨z, rfl, hz⟩ | ⟨z, rfl, hz⟩
    · rw [Separable.eq_nil_of_append hq hz, List.append_nil]
    · rw [Separable.eq_nil_of_append hp hz, List.append_nil]
  subst he
  exact ⟨rfl, List.append_cancel_left (List.append_cancel_left h)⟩

/-- So it is with a part at the end, read backwards. -/
theorem Separable.append_inj_right {sep p q x y : List α} (hp : Separable sep.reverse p.reverse)
    (hq : Separable sep.reverse q.reverse) (h : x ++ (sep ++ p) = y ++ (sep ++ q)) :
    x = y ∧ p = q := by
  have hr := congrArg List.reverse h
  rw [List.reverse_append, List.reverse_append, List.reverse_append, List.reverse_append,
    List.append_assoc, List.append_assoc] at hr
  obtain ⟨hpq, hxy⟩ := Separable.append_inj hp hq hr
  exact ⟨List.reverse_injective hxy, List.reverse_injective hpq⟩

theorem separable_singleton {a : α} {p : List α} : Separable [a] p ↔ a ∉ p := by
  rw [Separable, List.dropLast_singleton, List.append_nil, List.singleton_infix_iff]

/-- Equally many parts, of which all but the last are separable, are read back from their join. -/
theorem intercalate_inj {sep : List α} {ps qs : List (List α)}
    (hlen : ps.length = qs.length) (hp : ∀ p ∈ ps.dropLast, Separable sep p)
    (hq : ∀ q ∈ qs.dropLast, Separable sep q) :
    sep.intercalate ps = sep.intercalate qs ↔ ps = qs := by
  refine ⟨fun h => ?_, fun h => by rw [h]⟩
  induction ps generalizing qs with
  | nil => exact (List.length_eq_zero_iff.1 hlen.symm).symm
  | cons p ps ih =>
    obtain _ | ⟨q, qs⟩ := qs
    · cases hlen
    · rw [List.length_cons, List.length_cons, Nat.add_right_cancel_iff] at hlen
      obtain _ | ⟨p', ps⟩ := ps
      · rw [List.length_eq_zero_iff.1 hlen.symm] at h ⊢
        rwa [List.intercalate_singleton, List.intercalate_singleton, ← List.singleton_inj] at h
      · obtain _ | ⟨q', qs⟩ := qs
        · cases hlen
        · rw [List.intercalate_cons_cons, List.intercalate_cons_cons, List.append_assoc,
            List.append_assoc] at h
          rw [List.dropLast_cons_cons] at hp hq
          obtain ⟨rfl, hrest⟩ := Separable.append_inj (hp p List.mem_cons_self)
            (hq q List.mem_cons_self) h
          rw [ih hlen (fun r hr => hp r (List.mem_cons_of_mem p hr))
            (fun r hr => hq r (List.mem_cons_of_mem p hr)) hrest]

end Separators
