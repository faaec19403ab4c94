import Mathlib.Order.Defs.Unbundled

/-- A computation that keeps what it has done to the state when an exception is raised. -/
abbrev Session (σ ε : Type) := ExceptT ε (StateM σ)

namespace Session
set_option autoImplicit true

/-- The result of a computation and the state it leaves. -/
def exec (m : Session σ ε α) (s : σ) : Except ε α × σ := m.run.run s

/-- The state that a computation leaves. -/
def left (m : Session σ ε α) (s : σ) : σ := (exec m s).2

/-- A statement that changes the state or fails without a trace. -/
def stmt (f : σ → Except ε σ) : Session σ ε Unit := do
  match f (← get) with
  | .ok s => set s
  | .error e => throw e

/-- Go on when an exception is raised. -/
def attempt (m : Session σ ε α) (handler : ε → Session σ ε α) : Session σ ε α := tryCatch m handler

@[simp] theorem exec_pure (a : α) (s : σ) : exec (pure a : Session σ ε α) s = (.ok a, s) := rfl

@[simp] theorem exec_throw (e : ε) (s : σ) :
    exec (throw e : Session σ ε α) s = (.error e, s) := rfl

@[simp] theorem exec_get (s : σ) : exec (get : Session σ ε σ) s = (.ok s, s) := rfl

@[simp] theorem exec_set (s s' : σ) : exec (set s' : Session σ ε PUnit) s = (.ok ⟨⟩, s') := rfl

theorem exec_bind (m : Session σ ε α) (f : α → Session σ ε β) (s : σ) :
    exec (m >>= f) s =
      match exec m s with
      | (.ok a, s') => exec (f a) s'
      | (.error e, s') => (.error e, s') := by
  change ExceptT.bindCont f _ _ = _
  unfold exec
  change ExceptT.bindCont f (m s).1 (m s).2 = match m s with | (.ok a, s') => _ | (.error e, s') => _
  cases h : m s with
  | mk r s' =>
    cases r with
    | ok a => rfl
    | error e => rfl

theorem exec_bind_ok (h : exec m s = (.ok a, s')) : exec (m >>= f) s = exec (f a) s' := by
  rw [exec_bind, h]

theorem exec_bind_error (h : exec m s = (.error e, s')) : exec (m >>= f) s = (.error e, s') := by
  rw [exec_bind, h]

/-- What a successful sequence did. -/
theorem bind_ok (h : exec (m >>= f) s = (.ok b, s')) :
    ∃ a s₁, exec m s = (.ok a, s₁) ∧ exec (f a) s₁ = (.ok b, s') := by
  rw [exec_bind] at h
  cases hm : exec m s with
  | mk r s₁ =>
    rw [hm] at h
    cases r with
    | ok a => exact ⟨a, s₁, rfl, h⟩
    | error e => cases h

theorem exec_stmt (f : σ → Except ε σ) (s : σ) :
    exec (stmt f) s =
      match f s with
      | .ok s' => (.ok (), s')
      | .error e => (.error e, s) := by
  rw [stmt, exec_bind_ok (exec_get s)]
  cases f s <;> rfl

theorem stmt_ok {f : σ → Except ε σ} (h : exec (stmt f) s = (.ok u, s')) : f s = .ok s' := by
  rw [exec_stmt] at h
  cases hf : f s with
  | ok s₁ =>
    rw [hf] at h
    cases h
    rfl
  | error e =>
    rw [hf] at h
    cases h

theorem exec_attempt (m : Session σ ε α) (handler : ε → Session σ ε α) (s : σ) :
    exec (attempt m handler) s =
      match exec m s with
      | (.ok a, s') => (.ok a, s')
      | (.error e, s') => exec (handler e) s' := by
  unfold exec attempt
  change (match (m s).1 with | .ok a => _ | .error e => _ : StateM σ (Except ε α)) (m s).2 =
    match m s with | (.ok a, s') => _ | (.error e, s') => _
  cases h : m s with
  | mk r s' =>
    cases r with
    | ok a => rfl
    | error e => rfl

/-- The computation relates the state before it to the state it leaves, whether or not an
exception is raised. -/
def Frames (R : σ → σ → Prop) (m : Session σ ε α) : Prop := ∀ s, R s (left m s)

section
variable {R : σ → σ → Prop} [IsPreorder σ R]

theorem Frames.pure (a : α) : Frames R (Pure.pure a : Session σ ε α) := fun s => refl_of R s

theorem Frames.throw (e : ε) : Frames R (throw e : Session σ ε α) := fun s => refl_of R s

theorem Frames.get : Frames R (get : Session σ ε σ) := fun s => refl_of R s

theorem Frames.bind {m : Session σ ε α} {f : α → Session σ ε β} (h : Frames R m)
    (h' : ∀ a, Frames R (f a)) : Frames R (m >>= f) := by
  intro s
  have hm := h s
  rw [left] at hm ⊢
  rw [exec_bind]
  cases he : exec m s with
  | mk r s₁ =>
    rw [he] at hm
    cases r with
    | ok a => exact trans_of R hm (h' a s₁)
    | error e => exact hm

theorem Frames.stmt {f : σ → Except ε σ} (h : ∀ s s', f s = .ok s' → R s s') :
    Frames R (stmt f) := by
  intro s
  rw [left, exec_stmt]
  cases hf : f s with
  | ok s' => exact h s s' hf
  | error e => exact refl_of R s

theorem Frames.attempt {m : Session σ ε α} {handler : ε → Session σ ε α} (h : Frames R m)
    (h' : ∀ e, Frames R (handler e)) : Frames R (attempt m handler) := by
  intro s
  have hm := h s
  rw [left] at hm ⊢
  rw [exec_attempt]
  cases he : exec m s with
  | mk r s₁ =>
    rw [he] at hm
    cases r with
    | ok a => exact hm
    | error e => exact trans_of R hm (h' e s₁)

theorem Frames.forM {l : List α} {f : α → Session σ ε PUnit} (h : ∀ a ∈ l, Frames R (f a)) :
    Frames R (l.forM f) := by
  induction l with
  | nil => exact Frames.pure PUnit.unit
  | cons a l ih =>
    change Frames R (f a >>= fun _ => l.forM f)
    apply Frames.bind (h a List.mem_cons_self)
    intro _
    exact ih fun b hb => h b (List.mem_cons_of_mem a hb)

theorem Frames.foldlM {l : List α} {f : β → α → Session σ ε β} (h : ∀ b, ∀ a ∈ l, Frames R (f b a))
    (b : β) : Frames R (l.foldlM f b) := by
  induction l generalizing b with
  | nil => exact Frames.pure b
  | cons a l ih =>
    rw [List.foldlM_cons]
    apply Frames.bind (h b a List.mem_cons_self)
    intro b'
    exact ih (fun b a ha => h b a (List.mem_cons_of_mem _ ha)) b'

end

/-- Whether or not an exception is raised the condition is kept, and a result is as stated. -/
def Ensures (P : σ → Prop) (m : Session σ ε α) (Q : α → Prop) : Prop :=
  ∀ s, P s → P (left m s) ∧ ∀ a, (exec m s).1 = .ok a → Q a

section
variable {P : σ → Prop}

theorem Ensures.pure {Q : α → Prop} (h : Q a) : Ensures P (Pure.pure a : Session σ ε α) Q := by
  intro s hs
  refine ⟨hs, ?_⟩
  intro b hb
  cases hb
  exact h

theorem Ensures.throw (e : ε) (Q : α → Prop) : Ensures P (throw e : Session σ ε α) Q := by
  intro s hs
  refine ⟨hs, ?_⟩
  intro b hb
  cases hb

theorem Ensures.get : Ensures P (get : Session σ ε σ) P := by
  intro s hs
  refine ⟨hs, ?_⟩
  intro b hb
  cases hb
  exact hs

theorem Ensures.set (h : P s') : Ensures P (set s' : Session σ ε PUnit) fun _ => True :=
  fun _ _ => ⟨h, fun _ _ => trivial⟩

theorem Ensures.bind {m : Session σ ε α} {f : α → Session σ ε β} {Q : α → Prop} {Q' : β → Prop}
    (h : Ensures P m Q) (h' : ∀ a, Q a → Ensures P (f a) Q') : Ensures P (m >>= f) Q' := by
  intro s hs
  obtain ⟨hm, hq⟩ := h s hs
  rw [left] at hm ⊢
  rw [exec_bind]
  cases he : exec m s with
  | mk r s₁ =>
    rw [he] at hm hq
    cases r with
    | ok a => exact h' a (hq a rfl) s₁ hm
    | error e =>
      refine ⟨hm, ?_⟩
      intro b hb
      cases hb

theorem Ensures.stmt {f : σ → Except ε σ} (h : ∀ s s', f s = .ok s' → P s → P s') :
    Ensures P (stmt f) fun _ => True := by
  intro s hs
  refine ⟨?_, fun _ _ => trivial⟩
  rw [left, exec_stmt]
  cases hf : f s with
  | ok s' => exact h s s' hf hs
  | error e => exact hs

theorem Ensures.attempt {m : Session σ ε α} {handler : ε → Session σ ε α} {Q : α → Prop}
    (h : Ensures P m Q) (h' : ∀ e, Ensures P (handler e) Q) : Ensures P (attempt m handler) Q := by
  intro s hs
  obtain ⟨hm, hq⟩ := h s hs
  rw [left] at hm ⊢
  rw [exec_attempt]
  cases he : exec m s with
  | mk r s₁ =>
    rw [he] at hm hq
    cases r with
    | ok a => exact ⟨hm, hq⟩
    | error e => exact h' e s₁ hm

theorem Ensures.forM {l : List α} {f : α → Session σ ε PUnit}
    (h : ∀ a ∈ l, Ensures P (f a) fun _ => True) : Ensures P (l.forM f) fun _ => True := by
  induction l with
  | nil => exact Ensures.pure trivial
  | cons a l ih =>
    change Ensures P (f a >>= fun _ => l.forM f) _
    apply Ensures.bind (h a List.mem_cons_self)
    intro _ _
    exact ih fun b hb => h b (List.mem_cons_of_mem a hb)

theorem Ensures.foldlM {l : List α} {f : β → α → Session σ ε β} {Q : β → Prop}
    (h : ∀ b, ∀ a ∈ l, Q b → Ensures P (f b a) Q) (hb : Q b) : Ensures P (l.foldlM f b) Q := by
  induction l generalizing b with
  | nil => exact Ensures.pure hb
  | cons a l ih =>
    rw [List.foldlM_cons]
    apply Ensures.bind (h b a List.mem_cons_self hb)
    intro b' hb'
    exact ih (fun b a ha => h b a (List.mem_cons_of_mem _ ha)) hb'

end

end Session
