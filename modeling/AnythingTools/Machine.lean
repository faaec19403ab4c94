import Mathlib.Order.Defs.Unbundled

namespace Machine
set_option autoImplicit true

/-- The state after a sequence of steps, if each of them is possible. -/
def run (step : σ → α → Option σ) (s : σ) (as : List α) : Option σ := as.foldlM step s

/-- Every step of the sequence meets the condition in the state that it is taken in. -/
def Meets (step : σ → α → Option σ) (cond : σ → α → Prop) : σ → List α → Prop
  | _, [] => True
  | s, a :: as => cond s a ∧ ∀ s', step s a = some s' → Meets step cond s' as

/-- The rest of a run is checked in the state that its first step leads to. -/
def decidableMeets (step : σ → α → Option σ) (cond : σ → α → Prop)
    [∀ s a, Decidable (cond s a)] : (s : σ) → (as : List α) → Decidable (Meets step cond s as)
  | _, [] => isTrue trivial
  | s, a :: as =>
    match h : step s a with
    | none =>
      decidable_of_iff (cond s a) (by
        rw [Meets, h]
        simp)
    | some s₁ =>
      have := decidableMeets step cond s₁ as
      decidable_of_iff (cond s a ∧ Meets step cond s₁ as) (by
        rw [Meets, h]
        simp)

instance (step : σ → α → Option σ) (cond : σ → α → Prop) [∀ s a, Decidable (cond s a)] (s : σ)
    (as : List α) : Decidable (Meets step cond s as) := decidableMeets step cond s as

/-- A weaker condition, which may use what is known of the steps themselves. -/
theorem meets_imp {step : σ → α → Option σ} {cond cond' : σ → α → Prop}
    (h : ∀ s, ∀ a ∈ as, cond s a → cond' s a) (hm : Meets step cond s as) :
    Meets step cond' s as := by
  induction as generalizing s with
  | nil => trivial
  | cons a as ih =>
    refine ⟨h s a List.mem_cons_self hm.1, ?_⟩
    intro s' hs'
    exact ih (fun s'' b hb => h s'' b (List.mem_cons_of_mem a hb)) (hm.2 s' hs')

theorem meets_of_forall {step : σ → α → Option σ} {cond : σ → α → Prop}
    (h : ∀ s, ∀ a ∈ as, cond s a) : Meets step cond s as := by
  induction as generalizing s with
  | nil => trivial
  | cons a as ih =>
    exact ⟨h s a List.mem_cons_self, fun s' _ => ih fun s b hb => h s b (List.mem_cons_of_mem a hb)⟩

theorem meets_and {step : σ → α → Option σ} {cond cond' : σ → α → Prop}
    (h : Meets step cond s as) (h' : Meets step cond' s as) :
    Meets step (fun s a => cond s a ∧ cond' s a) s as := by
  induction as generalizing s with
  | nil => trivial
  | cons a as ih => exact ⟨⟨h.1, h'.1⟩, fun s' hs' => ih (h.2 s' hs') (h'.2 s' hs')⟩

/-- Every step of the sequence, taken where the ones before it lead, is as stated. -/
def Always (step : σ → α → Option σ) (post : σ → α → σ → Prop) : σ → List α → Prop
  | _, [] => True
  | s, a :: as => ∀ s', step s a = some s' → post s a s' ∧ Always step post s' as

/-- Where the condition is exactly what makes a step as stated, it is so for every step of a run. -/
theorem always_iff_meets {step : σ → α → Option σ} {cond : σ → α → Prop} {post : σ → α → σ → Prop}
    (h : ∀ s a, (∀ s', step s a = some s' → post s a s') ↔ cond s a) (s : σ) (as : List α) :
    Always step post s as ↔ Meets step cond s as := by
  induction as generalizing s with
  | nil => exact Iff.rfl
  | cons a as ih =>
    rw [Always, Meets, ← h s a]
    apply Iff.intro
    · exact fun hp => ⟨fun s' hs' => (hp s' hs').1, fun s' hs' => (ih s').1 (hp s' hs').2⟩
    · exact fun hm s' hs' => ⟨hm.1 s' hs', (ih s').2 (hm.2 s' hs')⟩

/-- So it is with a condition that is exact in the states with an invariant, which it keeps. -/
theorem always_iff_meets_of_invariant {step : σ → α → Option σ} {cond : σ → α → Prop}
    {Inv : σ → Prop} {post : σ → α → σ → Prop}
    (h : ∀ s a, Inv s → ((∀ s', step s a = some s' → post s a s') ↔ cond s a))
    (hinv : ∀ s a s', cond s a → step s a = some s' → Inv s → Inv s') (hs : Inv s) (as : List α) :
    Always step post s as ↔ Meets step cond s as := by
  induction as generalizing s with
  | nil => exact Iff.rfl
  | cons a as ih =>
    rw [Always, Meets, ← h s a hs]
    apply Iff.intro
    · intro hp
      have hpost (s' : σ) (hs' : step s a = some s') : post s a s' := (hp s' hs').1
      refine ⟨hpost, ?_⟩
      intro s' hs'
      exact (ih (hinv s a s' ((h s a hs).1 hpost) hs' hs)).1 (hp s' hs').2
    · intro hm s' hs'
      exact ⟨hm.1 s' hs', (ih (hinv s a s' ((h s a hs).1 hm.1) hs' hs)).2 (hm.2 s' hs')⟩

/-- What each step under the condition does, every step of a run under the condition does. -/
theorem always_of_meets {step : σ → α → Option σ} {cond : σ → α → Prop} {post : σ → α → σ → Prop}
    (hstep : ∀ s a s', cond s a → step s a = some s' → post s a s')
    (hm : Meets step cond s as) : Always step post s as := by
  induction as generalizing s with
  | nil => trivial
  | cons a as ih =>
    intro s' hs'
    exact ⟨hstep s a s' hm.1 hs', ih (hm.2 s' hs')⟩

/-- What each step under the condition does from a state with the invariant, which it keeps, every
step of a run under the condition does. -/
theorem always_of_invariant {step : σ → α → Option σ} {cond : σ → α → Prop} {Inv : σ → Prop}
    {post : σ → α → σ → Prop}
    (hstep : ∀ s a s', cond s a → step s a = some s' → Inv s → Inv s' ∧ post s a s')
    (hm : Meets step cond s as) (hs : Inv s) : Always step post s as := by
  induction as generalizing s with
  | nil => trivial
  | cons a as ih =>
    intro s' hs'
    obtain ⟨hinv, hpost⟩ := hstep s a s' hm.1 hs' hs
    exact ⟨hpost, ih (hm.2 s' hs') hinv⟩

/-- A step in the middle of such a sequence is as stated. -/
theorem always_at {step : σ → α → Option σ} {post : σ → α → σ → Prop}
    (h : Always step post s (as ++ a :: bs)) (hr : run step s as = some s₁)
    (hs : step s₁ a = some s') : post s₁ a s' := by
  induction as generalizing s with
  | nil =>
    cases hr
    exact (h s' hs).1
  | cons b as ih =>
    rw [run, List.foldlM_cons] at hr
    cases hb : step s b with
    | none =>
      rw [hb] at hr
      cases hr
    | some s₂ =>
      rw [hb] at hr
      exact ih (h s₂ hb).2 hr

theorem run_cons_some {step : σ → α → Option σ} (h : run step s (a :: as) = some s') :
    ∃ s₁, step s a = some s₁ ∧ run step s₁ as = some s' := by
  rw [run, List.foldlM_cons] at h
  cases hs : step s a with
  | none =>
    rw [hs] at h
    cases h
  | some s₁ =>
    rw [hs] at h
    exact ⟨s₁, rfl, h⟩

theorem run_concat_some {step : σ → α → Option σ} (h : run step s (as ++ [a]) = some s') :
    ∃ s₁, run step s as = some s₁ ∧ step s₁ a = some s' := by
  induction as generalizing s with
  | nil =>
    obtain ⟨s₁, h₁, hrest⟩ := run_cons_some h
    cases hrest
    exact ⟨s, rfl, h₁⟩
  | cons b as ih =>
    obtain ⟨s₁, h₁, hrest⟩ := run_cons_some h
    obtain ⟨s₂, h₂, hlast⟩ := ih hrest
    refine ⟨s₂, ?_, hlast⟩
    rw [run, List.foldlM_cons, h₁]
    exact h₂

theorem run_append_some {step : σ → α → Option σ} (h : run step s (as ++ bs) = some s') :
    ∃ s₁, run step s as = some s₁ ∧ run step s₁ bs = some s' := by
  rw [run, List.foldlM_append] at h
  exact Option.bind_eq_some_iff.1 h

/-- What each step under the condition keeps, a run under the condition keeps. -/
theorem run_invariant {step : σ → α → Option σ} {cond : σ → α → Prop} {Inv : σ → Prop}
    (hstep : ∀ s a s', cond s a → step s a = some s' → Inv s → Inv s')
    (hm : Meets step cond s as) (hr : run step s as = some s') (hs : Inv s) : Inv s' := by
  induction as generalizing s with
  | nil =>
    cases hr
    exact hs
  | cons a as ih =>
    obtain ⟨s₁, h₁, hrest⟩ := run_cons_some hr
    exact ih (hm.2 s₁ h₁) hrest (hstep s a s₁ hm.1 h₁ hs)

/-- What each step keeps, a run keeps. -/
theorem run_preserves {step : σ → α → Option σ} {Inv : σ → Prop}
    (hstep : ∀ s a s', step s a = some s' → Inv s → Inv s')
    (hr : run step s as = some s') (hs : Inv s) : Inv s' := by
  induction as generalizing s with
  | nil =>
    cases hr
    exact hs
  | cons a as ih =>
    obtain ⟨s₁, h₁, hrest⟩ := run_cons_some hr
    exact ih hrest (hstep s a s₁ h₁ hs)

/-- A machine whose steps are always possible runs through every sequence. -/
theorem run_total {step : σ → α → Option σ} (h : ∀ s a, ∃ s', step s a = some s') (s : σ)
    (as : List α) : ∃ s', run step s as = some s' := by
  induction as generalizing s with
  | nil => exact ⟨s, rfl⟩
  | cons a as ih =>
    obtain ⟨s₁, h₁⟩ := h s a
    obtain ⟨s', hs'⟩ := ih s₁
    refine ⟨s', ?_⟩
    rw [run, List.foldlM_cons, h₁]
    exact hs'

theorem run_getD {step : σ → α → Option σ} (h : (run step s as).isSome = true) (s₀ : σ) :
    run step s as = some ((run step s as).getD s₀) := by
  obtain ⟨s', hs'⟩ := Option.isSome_iff_exists.1 h
  rw [hs', Option.getD_some]

/-- The machine together with a history, to which each step adds its outputs. -/
def traced (step : σ → α → Option σ) (out : σ → α → List β) (p : σ × List β) (a : α) :
    Option (σ × List β) :=
  (step p.1 a).map fun s => (s, p.2 ++ out p.1 a)

theorem traced_some {step : σ → α → Option σ} {out : σ → α → List β}
    (h : traced step out (s, bs) a = some (s', bs')) :
    step s a = some s' ∧ bs' = bs ++ out s a := by
  rw [traced, Option.map_eq_some_iff] at h
  obtain ⟨s₁, hs₁, h⟩ := h
  cases h
  exact ⟨hs₁, rfl⟩

/-- The history has no effect. -/
theorem run_of_traced {step : σ → α → Option σ} {out : σ → α → List β}
    (h : run (traced step out) (s, bs) as = some (s', bs')) : run step s as = some s' := by
  induction as generalizing s bs with
  | nil =>
    cases h
    rfl
  | cons a as ih =>
    obtain ⟨⟨s₁, bs₁⟩, h₁, hrest⟩ := run_cons_some h
    rw [run, List.foldlM_cons, (traced_some h₁).1]
    exact ih hrest

theorem meets_traced {step : σ → α → Option σ} {cond : σ → α → Prop} (out : σ → α → List β)
    (h : Meets step cond s as) (bs : List β) :
    Meets (traced step out) (fun p => cond p.1) (s, bs) as := by
  induction as generalizing s bs with
  | nil => trivial
  | cons a as ih =>
    refine ⟨h.1, ?_⟩
    rintro ⟨s', bs'⟩ hs'
    exact ih (h.2 s' (traced_some hs').1) bs'

end Machine
