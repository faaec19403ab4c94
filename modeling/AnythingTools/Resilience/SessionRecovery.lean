import Mathlib.Data.List.Infix
import AnythingTools.Resilience.CircuitBreaker

namespace Resilience
set_option autoImplicit true

/-- What the retry decorator reads off an exception. -/
structure Failure where
  errno : Option Int
  sqlstate : Option String
  text : String
deriving DecidableEq, Repr

def sessionExpiredErrnos : List Int := [390111, 390114, 390188]

def sessionExpiredSqlstates : List String := ["08003", "08006"]

/-- `_is_session_expired`. -/
def isSessionExpired (exc : Failure) : Bool :=
  exc.errno.any (fun errno => sessionExpiredErrnos.contains errno) ||
    exc.sqlstate.any (fun sqlstate => sessionExpiredSqlstates.contains sqlstate) ||
    decide ("390111".toList <:+: exc.text.toList) ||
    decide ("Session no longer exists".toList <:+: exc.text.toList)

/-- The thread: its retry guard, how often the innermost function has run and how often the pool
of the engine was disposed of. -/
structure Thread where
  inRetry : Bool := false
  invocations : Nat := 0
  disposals : Nat := 0
deriving DecidableEq, Repr

/-- A function of the thread that calls it. -/
abbrev Callable (α : Type) := Thread → Outcome α Failure × Thread

/-- The function in the middle: each invocation meets the next of the outcomes. -/
def invoke (outcomes : Nat → Outcome α Failure) : Callable α := fun t =>
  (outcomes t.invocations, { t with invocations := t.invocations + 1 })

/-- The second attempt. The guard is lifted again however it ends. -/
def retry (fn : Callable α) : Callable α := fun t =>
  let (outcome, t) := fn { t with inRetry := true, disposals := t.disposals + 1 }
  (outcome, { t with inRetry := false })

/-- `with_session_recovery`. -/
def withSessionRecovery (maxRetries : Nat) (fn : Callable α) : Callable α := fun t =>
  if t.inRetry then fn t
  else
    match fn t with
    | (.raised exc, t') =>
      if isSessionExpired exc = false then (.raised exc, t')
      else if maxRetries < 1 then (.raised exc, t')
      else retry fn t'
    | done => done

/-- As many wrappers as given around a function. -/
def nest (fn : Callable α) : Nat → Callable α
  | 0 => fn
  | n + 1 => withSessionRecovery 1 (nest fn n)

/-- An invocation after which the next wrapper tries again. -/
def Expired (o : Outcome α Failure) : Prop := ∃ exc, o = .raised exc ∧ isSessionExpired exc = true

/-- What a call of the outermost wrapper comes to. -/
structure Recovered (outcomes : Nat → Outcome α Failure) (n : Nat) (t : Thread)
    (answer : Outcome α Failure × Thread) : Prop where
  once : t.invocations < answer.2.invocations
  bounded : answer.2.invocations ≤ t.invocations + n + 1
  expired : ∀ i, t.invocations ≤ i → i + 1 < answer.2.invocations → Expired (outcomes i)
  last : answer.1 = outcomes (answer.2.invocations - 1)
  disposed : answer.2.disposals + t.invocations + 1 = t.disposals + answer.2.invocations
  guard : answer.2.inRetry = false

/-- Within a retry no wrapper tries again. -/
theorem nest_inRetry (fn : Callable α) (n : Nat) (h : t.inRetry = true) : nest fn n t = fn t := by
  induction n with
  | zero => rfl
  | succ n ih => rw [nest, withSessionRecovery, if_pos h, ih]

theorem withSessionRecovery_expired (h : t.inRetry = false) (hfn : fn t = (.raised exc, t'))
    (he : isSessionExpired exc = true) : withSessionRecovery 1 fn t = retry fn t' := by
  simp only [withSessionRecovery, h, hfn, he, Bool.false_eq_true, if_false]
  rfl

theorem withSessionRecovery_done (h : t.inRetry = false) (hfn : ¬Expired (fn t).1) (n : Nat) :
    withSessionRecovery n fn t = fn t := by
  simp only [withSessionRecovery, h, Bool.false_eq_true, if_false]
  split
  · rename_i exc t' heq
    rw [heq] at hfn ⊢
    rw [if_pos]
    cases he : isSessionExpired exc with
    | false => rfl
    | true => exact absurd ⟨exc, rfl, he⟩ hfn
  · rfl

theorem nest_recovered (outcomes : Nat → Outcome α Failure) (n : Nat) (h : t.inRetry = false) :
    Recovered outcomes n t (nest (invoke outcomes) n t) := by
  induction n with
  | zero =>
    refine ⟨Nat.lt_succ_self _, Nat.le_refl _, ?_, rfl, ?_, h⟩
    · intro i hle hlt
      exact absurd (Nat.lt_of_succ_lt_succ hlt) (Nat.not_lt.2 hle)
    · exact Nat.add_assoc _ _ _
  | succ n ih =>
    by_cases he : Expired (nest (invoke outcomes) n t).1
    · obtain ⟨exc, hexc, hexp⟩ := he
      cases hnest : nest (invoke outcomes) n t with
      | mk answer t' =>
        rw [hnest] at ih hexc
        cases hexc
        rw [nest, withSessionRecovery_expired h hnest hexp, retry, nest_inRetry _ _ rfl]
        have hlast := ih.last
        have hbounded := ih.bounded
        have honce := ih.once
        have hdisposed := ih.disposed
        dsimp only at hlast hbounded honce hdisposed
        refine ⟨Nat.lt_succ_of_lt honce, ?_, ?_, rfl, ?_, rfl⟩
        · simp only [invoke]
          omega
        · intro i hle hlt
          simp only [invoke] at hlt
          by_cases hi : i + 1 < t'.invocations
          · exact ih.expired i hle hi
          · -- the run before the retry, which the inner wrappers answered with
            rw [show i = t'.invocations - 1 by omega, ← hlast]
            exact ⟨exc, rfl, hexp⟩
        · simp only [invoke]
          omega
    · rw [nest, withSessionRecovery_done h he]
      exact ⟨ih.once, Nat.le_succ_of_le ih.bounded, ih.expired, ih.last, ih.disposed, ih.guard⟩

/-- A thread after calls of wrapped functions, nested as deep as given. -/
def thread (outcomes : Nat → Outcome α Failure) (depths : List Nat) : Thread :=
  depths.foldl (fun t n => (nest (invoke outcomes) n t).2) {}

/-- Between the calls the guard is down. -/
theorem thread_guard (outcomes : Nat → Outcome α Failure) (depths : List Nat) :
    (thread outcomes depths).inRetry = false := by
  induction depths using List.reverseRecOn with
  | nil => rfl
  | append_singleton depths n ih =>
    rw [thread, List.foldl_append]
    exact (nest_recovered outcomes n ih).guard

/-- A call of the outermost of `n` wrappers runs the function once and at most `n` times more, each
time after an expired session only, answers as the last run did and leaves the guard down. -/
theorem recovery_bounded (outcomes : Nat → Outcome α Failure) (depths : List Nat) (n : Nat) :
    let t := thread outcomes depths
    let answer := nest (invoke outcomes) n t
    t.invocations < answer.2.invocations ∧ answer.2.invocations ≤ t.invocations + n + 1 ∧
      (∀ i, t.invocations ≤ i → i + 1 < answer.2.invocations → Expired (outcomes i)) ∧
      answer.1 = outcomes (answer.2.invocations - 1) ∧ answer.2.inRetry = false := by
  have h := nest_recovered outcomes n (thread_guard outcomes depths)
  exact ⟨h.once, h.bounded, h.expired, h.last, h.guard⟩

end Resilience
