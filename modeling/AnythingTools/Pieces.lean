import Mathlib.Data.List.TakeWhile

namespace Pieces
set_option autoImplicit true

/-- A run that is over, unless it is empty. -/
def close (run : List α) (rest : List (List α)) : List (List α) :=
  if run.isEmpty then rest else run :: rest

/-- The longest runs without a separator; `run` is the one that is open. -/
def pieces (p : α → Bool) : (run : List α) → List α → List (List α)
  | run, [] => close run []
  | run, c :: cs => if p c then close run (pieces p [] cs) else pieces p (run ++ [c]) cs

variable {p q : α → Bool}

theorem pieces_sep (h : p c = true) (run cs : List α) :
    pieces p run (c :: cs) = close run (pieces p [] cs) := by
  rw [pieces, if_pos h]

theorem pieces_of_not (h : p c = false) (run cs : List α) :
    pieces p run (c :: cs) = pieces p (run ++ [c]) cs := by
  rw [pieces, h]
  rfl

/-- Separators at the front are not seen. -/
theorem pieces_dropWhile {cs : List α} (h : ∀ c ∈ cs, q c = true → p c = true) :
    pieces p [] (cs.dropWhile q) = pieces p [] cs := by
  induction cs with
  | nil => rfl
  | cons c cs ih =>
    rw [List.forall_mem_cons] at h
    cases hc : q c with
    | true =>
      rw [List.dropWhile_cons_of_pos hc, ih h.2, pieces_sep (h.1 hc)]
      rfl
    | false => rw [List.dropWhile_cons_of_neg (by rw [hc]; exact Bool.false_ne_true)]

theorem pieces_seps {cs : List α} (h : ∀ c ∈ cs, p c = true) (run : List α) :
    pieces p run cs = close run [] := by
  induction cs generalizing run with
  | nil => rfl
  | cons c cs ih =>
    rw [List.forall_mem_cons] at h
    rw [pieces_sep h.1, ih h.2]
    rfl

/-- Nor are those at the end. -/
theorem pieces_append_seps {ds : List α} (h : ∀ c ∈ ds, p c = true) (run cs : List α) :
    pieces p run (cs ++ ds) = pieces p run cs := by
  induction cs generalizing run with
  | nil => exact pieces_seps h run
  | cons c cs ih =>
    cases hc : p c with
    | true => rw [List.cons_append, pieces_sep hc, pieces_sep hc, ih]
    | false => rw [List.cons_append, pieces_of_not hc, pieces_of_not hc, ih]

theorem pieces_ne_nil (h : run ≠ []) (cs : List α) : pieces p run cs ≠ [] := by
  induction cs generalizing run with
  | nil =>
    rw [pieces, close, if_neg (by rwa [List.isEmpty_iff])]
    exact List.cons_ne_nil _ _
  | cons c cs ih =>
    cases hc : p c with
    | true =>
      rw [pieces_sep hc, close, if_neg (by rwa [List.isEmpty_iff])]
      exact List.cons_ne_nil _ _
    | false =>
      rw [pieces_of_not hc]
      exact ih (List.append_ne_nil_of_right_ne_nil _ (List.cons_ne_nil _ _))

theorem pieces_eq_nil_iff {cs : List α} : pieces p [] cs = [] ↔ ∀ c ∈ cs, p c = true := by
  refine ⟨?_, fun h => pieces_seps h []⟩
  intro h
  induction cs with
  | nil => exact List.forall_mem_nil _
  | cons c cs ih =>
    cases hc : p c with
    | true =>
      rw [pieces_sep hc] at h
      exact List.forall_mem_cons.2 ⟨hc, ih h⟩
    | false =>
      rw [pieces_of_not hc] at h
      exact absurd h (pieces_ne_nil (List.cons_ne_nil _ _) cs)

end Pieces
