import Mathlib.Algebra.Order.Field.Rat
import Mathlib.Data.List.Induction
import Mathlib.Data.List.TakeWhile

namespace Resilience
set_option autoImplicit true

inductive BreakerState where
  | closed
  | opened
  | halfOpen
deriving DecidableEq, Repr

/-- What the guarded function does. What is not an `Exception` passes by the breaker uncounted. -/
inductive Outcome (α ε : Type) where
  | returned (result : α)
  | raised (e : ε)
  | interrupted (e : ε)
deriving DecidableEq, Repr

/-- A call with what the clock reads as it comes in and as its function has failed. -/
structure Call (α ε : Type) where
  start : Rat
  finish : Rat
  outcome : Outcome α ε
deriving DecidableEq, Repr

structure CircuitBreaker where
  failureThreshold : Nat := 3
  resetTimeout : Int := 300
  state : BreakerState := .closed
  failureCount : Nat := 0
  lastFailureTime : Rat := 0
deriving DecidableEq, Repr

/-- The breaker that the function is invoked behind, unless the call is refused. -/
def CircuitBreaker.enter (b : CircuitBreaker) (now : Rat) : Option CircuitBreaker :=
  if b.state = .opened then
    if b.resetTimeout < now - b.lastFailureTime then some { b with state := .halfOpen } else none
  else some b

/-- The breaker once the function is done. -/
def CircuitBreaker.settle (b : CircuitBreaker) (c : Call α ε) : CircuitBreaker :=
  match c.outcome with
  | .returned _ =>
    -- in the closed state a success leaves the count as it is
    if b.state = .halfOpen then { b with state := .closed, failureCount := 0 } else b
  | .raised _ =>
    let failed := { b with failureCount := b.failureCount + 1, lastFailureTime := c.finish }
    if failed.failureThreshold ≤ failed.failureCount then { failed with state := .opened }
    else failed
  | .interrupted _ => b

/-- `CircuitBreaker.call`. There is no outcome where the breaker raises `CircuitOpenError`. -/
def CircuitBreaker.call (b : CircuitBreaker) (c : Call α ε) :
    CircuitBreaker × Option (Outcome α ε) :=
  match b.enter c.start with
  | none => (b, none)
  | some admitted => (admitted.settle c, some c.outcome)

def CircuitBreaker.after (b : CircuitBreaker) (cs : List (Call α ε)) : CircuitBreaker :=
  cs.foldl (fun b c => (b.call c).1) b

/-- A call together with the breaker that it found. -/
structure Visit (α ε : Type) where
  found : CircuitBreaker
  call : Call α ε

/-- The calls of a run with the breaker each of them found, the newest first. -/
def CircuitBreaker.visits (b : CircuitBreaker) : List (Call α ε) → List (Visit α ε)
  | [] => []
  | c :: cs => (b.call c).1.visits cs ++ [⟨b, c⟩]

def Visit.failed (v : Visit α ε) : Bool := (v.found.call v.call).2 matches some (.raised _)

def Visit.succeeded (v : Visit α ε) : Bool := (v.found.call v.call).2 matches some (.returned _)

/-- When the last call that failed did so. -/
def lastFailure (vs : List (Visit α ε)) : Option Rat :=
  (vs.find? Visit.failed).map fun v => v.call.finish

theorem after_concat (b : CircuitBreaker) (cs : List (Call α ε)) (c : Call α ε) :
    b.after (cs ++ [c]) = ((b.after cs).call c).1 := by
  rw [CircuitBreaker.after, List.foldl_append]
  rfl

theorem visits_concat (b : CircuitBreaker) (cs : List (Call α ε)) (c : Call α ε) :
    b.visits (cs ++ [c]) = ⟨b.after cs, c⟩ :: b.visits cs := by
  induction cs generalizing b with
  | nil => rfl
  | cons d cs ih =>
    rw [List.cons_append, CircuitBreaker.visits, ih, CircuitBreaker.visits]
    rfl

section

variable {b b' : CircuitBreaker} {c : Call α ε} {vs : List (Visit α ε)}

theorem call_refused (h : b.enter c.start = none) : b.call c = (b, none) := by
  rw [CircuitBreaker.call, h]

theorem call_admitted (h : b.enter c.start = some b') :
    b.call c = (b'.settle c, some c.outcome) := by
  rw [CircuitBreaker.call, h]

theorem enter_some (h : b.enter now = some b') :
    (b.state ≠ .opened ∧ b' = b) ∨
      (b.state = .opened ∧ b.resetTimeout < now - b.lastFailureTime ∧
        b' = { b with state := .halfOpen }) := by
  rw [CircuitBreaker.enter] at h
  split at h
  · rename_i hs
    split at h
    · rename_i ht
      exact .inr ⟨hs, ht, (Option.some.inj h).symm⟩
    · cases h
  · rename_i hs
    exact .inl ⟨hs, (Option.some.inj h).symm⟩

/-- Breakers with the same settings. -/
def SameSettings (b b' : CircuitBreaker) : Prop :=
  b'.failureThreshold = b.failureThreshold ∧ b'.resetTimeout = b.resetTimeout

theorem SameSettings.trans (h : SameSettings b₁ b₂) (h' : SameSettings b₂ b₃) :
    SameSettings b₁ b₃ :=
  ⟨h'.1.trans h.1, h'.2.trans h.2⟩

theorem enter_settings (h : CircuitBreaker.enter b now = some b') : SameSettings b b' := by
  obtain ⟨_, rfl⟩ | ⟨_, _, rfl⟩ := enter_some h
  · exact ⟨rfl, rfl⟩
  · exact ⟨rfl, rfl⟩

theorem settle_settings (b : CircuitBreaker) (c : Call α ε) : SameSettings b (b.settle c) := by
  unfold CircuitBreaker.settle
  cases c.outcome with
  | returned r =>
    dsimp only
    split <;> exact ⟨rfl, rfl⟩
  | raised e =>
    dsimp only
    split <;> exact ⟨rfl, rfl⟩
  | interrupted e => exact ⟨rfl, rfl⟩

theorem call_settings (b : CircuitBreaker) (c : Call α ε) : SameSettings b (b.call c).1 := by
  cases ha : b.enter c.start with
  | none =>
    rw [call_refused ha]
    exact ⟨rfl, rfl⟩
  | some b' =>
    rw [call_admitted ha]
    exact (enter_settings ha).trans (settle_settings b' c)

theorem after_settings (b : CircuitBreaker) (cs : List (Call α ε)) :
    SameSettings b (b.after cs) := by
  induction cs using List.reverseRecOn with
  | nil => exact ⟨rfl, rfl⟩
  | append_singleton cs c ih =>
    rw [after_concat]
    exact ih.trans (call_settings _ c)

/-- How the count, the state and the last failure hang together after a run. -/
structure Sound (vs : List (Visit α ε)) (b : CircuitBreaker) : Prop where
  closed : b.state = .closed → b.failureCount < b.failureThreshold
  tripped : b.state ≠ .closed → b.failureThreshold ≤ b.failureCount
  last : 0 < b.failureCount → lastFailure vs = some b.lastFailureTime

theorem Sound.enter (h : Sound vs b) (ha : b.enter now = some b') : Sound vs b' := by
  obtain ⟨_, rfl⟩ | ⟨hs, _, rfl⟩ := enter_some ha
  · exact h
  · refine ⟨fun hc => (nomatch hc), fun _ => h.tripped ?_, h.last⟩
    rw [hs]
    decide

theorem lastFailure_cons_failed {v : Visit α ε} (h : v.failed = true) (vs : List (Visit α ε)) :
    lastFailure (v :: vs) = some v.call.finish := by
  rw [lastFailure, List.find?_cons_of_pos h]
  rfl

theorem lastFailure_cons_other {v : Visit α ε} (h : v.failed = false) (vs : List (Visit α ε)) :
    lastFailure (v :: vs) = lastFailure vs := by
  rw [lastFailure, List.find?_cons_of_neg (by rw [h]; decide)]
  rfl

theorem Sound.other (h : Sound vs b) {v : Visit α ε} (hv : v.failed = false) :
    Sound (v :: vs) b :=
  ⟨h.closed, h.tripped, fun hc => (lastFailure_cons_other hv vs).trans (h.last hc)⟩

/-- A call that fails is counted and noted, and opens the breaker at the threshold. -/
theorem Sound.counted (h : Sound vs b) {v : Visit α ε} (hv : v.failed = true)
    (ho : v.call.outcome = .raised e) : Sound (v :: vs) (b.settle v.call) := by
  have hlast := lastFailure_cons_failed hv vs
  simp only [CircuitBreaker.settle, ho]
  split
  · rename_i hle
    exact ⟨fun hc => (nomatch hc), fun _ => hle, fun _ => hlast⟩
  · rename_i hlt
    refine ⟨fun _ => Nat.lt_of_not_le hlt, ?_, fun _ => hlast⟩
    intro hs
    exact absurd (Nat.le_succ_of_le (h.tripped hs)) hlt

/-- So does one that comes back, where the breaker was closed or is on trial. -/
theorem Sound.recovered (h : Sound vs b) (hthr : 1 ≤ b.failureThreshold) {v : Visit α ε}
    (hv : v.failed = false) (ho : v.call.outcome = .returned r) :
    Sound (v :: vs) (b.settle v.call) := by
  simp only [CircuitBreaker.settle, ho]
  split
  · exact ⟨fun _ => hthr, fun hs => absurd rfl hs, fun hc => absurd hc (Nat.lt_irrefl 0)⟩
  · exact h.other hv

theorem Sound.call (h : Sound vs b) (hthr : 1 ≤ b.failureThreshold) (c : Call α ε) :
    Sound (⟨b, c⟩ :: vs) (b.call c).1 := by
  cases ha : b.enter c.start with
  | none =>
    have hv : (⟨b, c⟩ : Visit α ε).failed = false := by
      rw [Visit.failed, call_refused ha]
    rw [call_refused ha]
    exact h.other hv
  | some b' =>
    have hb' := h.enter ha
    have hthr' : 1 ≤ b'.failureThreshold := (enter_settings ha).1 ▸ hthr
    rw [call_admitted ha]
    cases ho : c.outcome with
    | returned r =>
      refine hb'.recovered hthr' ?_ ho
      rw [Visit.failed, call_admitted ha, ho]
    | raised e =>
      refine hb'.counted ?_ ho
      rw [Visit.failed, call_admitted ha, ho]
    | interrupted e =>
      have hv : (⟨b, c⟩ : Visit α ε).failed = false := by
        rw [Visit.failed, call_admitted ha, ho]
      simp only [CircuitBreaker.settle, ho]
      exact hb'.other hv

end

/-- A breaker that no call has come through yet. -/
def fresh (failureThreshold : Nat) (resetTimeout : Int) : CircuitBreaker :=
  { failureThreshold, resetTimeout }

theorem sound_after (hthr : 1 ≤ failureThreshold) (resetTimeout : Int) (cs : List (Call α ε)) :
    Sound ((fresh failureThreshold resetTimeout).visits cs)
      ((fresh failureThreshold resetTimeout).after cs) := by
  induction cs using List.reverseRecOn with
  | nil => exact ⟨fun _ => hthr, fun hs => absurd rfl hs, fun hc => absurd hc (Nat.lt_irrefl 0)⟩
  | append_singleton cs c ih =>
    rw [after_concat, visits_concat]
    refine ih.call ?_ c
    rw [(after_settings _ cs).1]
    exact hthr

/-- Whatever the calls so far did: the count is below the threshold where the breaker is closed and
has reached it where it is open, an open breaker lets a function through only when the reset
timeout has passed since the last failure, and a success on trial closes it with nothing counted. -/
theorem breaker_sound (failureThreshold : Nat) (resetTimeout : Int) (cs : List (Call α ε))
    (hthr : 1 ≤ failureThreshold) :
    let b := (fresh failureThreshold resetTimeout).after cs
    (b.state = .closed → b.failureCount < failureThreshold) ∧
      (b.state = .opened → failureThreshold ≤ b.failureCount) ∧
      (∀ c : Call α ε, b.state = .opened → (b.call c).2.isSome = true →
        ∃ t, lastFailure ((fresh failureThreshold resetTimeout).visits cs) = some t ∧
          resetTimeout < c.start - t) ∧
      ∀ (c : Call α ε) (r : α) (b' : CircuitBreaker), b.enter c.start = some b' →
        b'.state = .halfOpen → c.outcome = .returned r →
        (b.call c).1.state = .closed ∧ (b.call c).1.failureCount = 0 := by
  intro b
  have hb := sound_after hthr resetTimeout cs
  have hb_thr : b.failureThreshold = failureThreshold := (after_settings _ cs).1
  have htripped (hs : b.state = .opened) : failureThreshold ≤ b.failureCount := by
    rw [← hb_thr]
    exact hb.tripped (by rw [hs]; decide)
  refine ⟨fun hs => hb_thr ▸ hb.closed hs, htripped, ?_, ?_⟩
  · intro c hs hinvoked
    refine ⟨b.lastFailureTime, hb.last (Nat.lt_of_lt_of_le hthr (htripped hs)), ?_⟩
    cases ha : b.enter c.start with
    | none =>
      rw [call_refused ha] at hinvoked
      cases hinvoked
    | some b' =>
      obtain ⟨hne, _⟩ | ⟨_, ht, _⟩ := enter_some ha
      · exact absurd hs hne
      · rw [show b.resetTimeout = resetTimeout from (after_settings _ cs).2] at ht
        exact ht
  · intro c r b' ha hs ho
    rw [call_admitted ha]
    simp only [CircuitBreaker.settle, ho, hs, if_true, and_self]

/-- Two calls that fail. -/
def twoFailures : List (Call Unit Unit) := [⟨0, 1, .raised ()⟩, ⟨1, 2, .raised ()⟩]

def lateSuccess : Call Unit Unit := ⟨13, 13, .returned ()⟩

theorem breaker_sound_trial :
    ((fresh 2 10).after twoFailures).state = .opened ∧
      (∃ t, lastFailure ((fresh 2 10).visits twoFailures) = some t ∧
        (10 : Int) < lateSuccess.start - t) ∧
      (((fresh 2 10).after twoFailures).call lateSuccess).1.state = .closed := by
  have h := breaker_sound 2 10 twoFailures (by decide)
  have hs : ((fresh 2 10).after twoFailures).state = .opened := by decide +kernel
  exact ⟨hs, h.2.2.1 lateSuccess hs (by decide +kernel),
    (h.2.2.2 lateSuccess () { (fresh 2 10).after twoFailures with state := .halfOpen }
      (by decide +kernel) rfl rfl).1⟩

/-- The calls since the breaker last became closed. -/
def closedStretch (vs : List (Visit α ε)) : List (Visit α ε) :=
  vs.takeWhile fun v => decide (v.found.state = .closed)

/-- How many calls have failed since the last one that succeeded. -/
def failuresInARow (vs : List (Visit α ε)) : Nat :=
  (vs.takeWhile fun v => !v.succeeded).countP Visit.failed

section

variable {b : CircuitBreaker} {c : Call α ε} {v : Visit α ε} {vs : List (Visit α ε)}

theorem call_closed (hs : b.state = .closed) (c : Call α ε) :
    b.call c = (b.settle c, some c.outcome) :=
  call_admitted (by rw [CircuitBreaker.enter, hs, if_neg (by decide)])

theorem succeeded_closed (hs : v.found.state = .closed) :
    v.succeeded = (v.call.outcome matches .returned _) := by
  rw [Visit.succeeded, call_closed hs]
  cases v.call.outcome <;> rfl

theorem failed_closed (hs : v.found.state = .closed) :
    v.failed = (v.call.outcome matches .raised _) := by
  rw [Visit.failed, call_closed hs]
  cases v.call.outcome <;> rfl

theorem closedStretch_cons (hs : v.found.state = .closed) (vs : List (Visit α ε)) :
    closedStretch (v :: vs) = v :: closedStretch vs := by
  simp only [closedStretch, List.takeWhile_cons, hs, decide_true, if_true]

theorem closedStretch_cons_trial (hs : v.found.state ≠ .closed) (vs : List (Visit α ε)) :
    closedStretch (v :: vs) = [] := by
  simp only [closedStretch, List.takeWhile_cons, hs, decide_false, Bool.false_eq_true, if_false]

theorem failuresInARow_success (hv : v.succeeded = true) (vs : List (Visit α ε)) :
    failuresInARow (v :: vs) = 0 := by
  rw [failuresInARow, List.takeWhile_cons_of_neg (by rw [hv]; decide), List.countP_nil]

theorem failuresInARow_other (hv : v.succeeded = false) (vs : List (Visit α ε)) :
    failuresInARow (v :: vs) = failuresInARow vs + if v.failed = true then 1 else 0 := by
  rw [failuresInARow, List.takeWhile_cons_of_pos (by rw [hv]; rfl), List.countP_cons]
  rfl

/-- What a call leaves closed was closed before, or closes on a success. -/
theorem closed_before (h : (b.call c).1.state = .closed) :
    b.state = .closed ∨
      (b.state ≠ .closed ∧ (⟨b, c⟩ : Visit α ε).succeeded = true ∧ (b.call c).1.failureCount = 0) := by
  cases ha : b.enter c.start with
  | none =>
    rw [call_refused ha] at h
    exact .inl h
  | some b' =>
    by_cases hs : b.state = .closed
    · exact .inl hs
    have hb' : b'.state ≠ .closed := by
      obtain ⟨_, rfl⟩ | ⟨_, _, rfl⟩ := enter_some ha
      · exact hs
      · exact fun hc => nomatch hc
    rw [Visit.succeeded, call_admitted ha] at *
    unfold CircuitBreaker.settle at h ⊢
    cases ho : c.outcome with
    | returned r =>
      rw [ho] at h
      dsimp only at h ⊢
      split at h
      · rename_i hhalf
        rw [if_pos hhalf]
        exact .inr ⟨hs, rfl, rfl⟩
      · exact absurd h hb'
    | raised e =>
      rw [ho] at h
      dsimp only at h
      split at h
      · cases h
      · exact absurd h hb'
    | interrupted e =>
      rw [ho] at h
      exact absurd h hb'

/-- The closed breaker opened: the call failed and was the one at the threshold. -/
theorem opened_by (hs : b.state = .closed) (h : (b.call c).1.state = .opened) :
    (⟨b, c⟩ : Visit α ε).failed = true ∧ (⟨b, c⟩ : Visit α ε).succeeded = false ∧
      b.failureThreshold ≤ b.failureCount + 1 := by
  rw [failed_closed hs, succeeded_closed hs]
  rw [call_closed hs] at h
  unfold CircuitBreaker.settle at h
  cases ho : c.outcome with
  | returned r =>
    rw [ho] at h
    dsimp only at h
    rw [if_neg (by rw [hs]; decide), hs] at h
    cases h
  | raised e =>
    rw [ho] at h
    dsimp only at h
    split at h
    · rename_i hle
      exact ⟨rfl, rfl, hle⟩
    · rw [hs] at h
      cases h
  | interrupted e =>
    rw [ho] at h
    dsimp only at h
    rw [hs] at h
    cases h

end

/-- A success that the closed breaker did not clear its count for. -/
def Overlooked (vs : List (Visit α ε)) : Prop :=
  ∃ v ∈ closedStretch vs, v.succeeded = true ∧ 0 < v.found.failureCount

/-- While the breaker is closed, the failures in a row are what it counts, unless it overlooked a
success. -/
structure Tallied (vs : List (Visit α ε)) (b : CircuitBreaker) : Prop where
  below : b.failureCount = 0 ∨ b.failureCount < b.failureThreshold
  row : ¬Overlooked vs → failuresInARow vs = b.failureCount
  fewer : Overlooked vs → failuresInARow vs < b.failureCount

section

variable {b : CircuitBreaker} {c : Call α ε} {v : Visit α ε} {vs : List (Visit α ε)}

theorem overlooked_cons (hs : v.found.state = .closed) (vs : List (Visit α ε)) :
    Overlooked (v :: vs) ↔ (v.succeeded = true ∧ 0 < v.found.failureCount) ∨ Overlooked vs := by
  simp only [Overlooked, closedStretch_cons hs, List.mem_cons, exists_eq_or_imp]

theorem not_overlooked_trial (hs : v.found.state ≠ .closed) (vs : List (Visit α ε)) :
    ¬Overlooked (v :: vs) := by
  rw [Overlooked, closedStretch_cons_trial hs]
  rintro ⟨_, hv, _⟩
  cases hv

theorem Tallied.returned (h : Tallied vs b) (hs : b.state = .closed)
    (ho : c.outcome = .returned r) : Tallied (⟨b, c⟩ :: vs) b := by
  have hv : (⟨b, c⟩ : Visit α ε).succeeded = true := by rw [succeeded_closed hs, ho]
  refine ⟨h.below, ?_, ?_⟩
  · intro hn
    rw [overlooked_cons hs, not_or, not_and] at hn
    rw [failuresInARow_success hv]
    have hzero := hn.1 hv
    dsimp only at hzero
    omega
  · intro hover
    rw [failuresInARow_success hv]
    obtain ⟨_, hpos⟩ | hover := (overlooked_cons hs vs).1 hover
    · exact hpos
    · exact Nat.lt_of_le_of_lt (Nat.zero_le _) (h.fewer hover)

/-- A call that does not succeed adds to the row what it adds to the count. -/
theorem Tallied.unreturned (h : Tallied vs b) (hs : b.state = .closed)
    (hv : (⟨b, c⟩ : Visit α ε).succeeded = false)
    (hcount : b'.failureCount =
      b.failureCount + if (⟨b, c⟩ : Visit α ε).failed = true then 1 else 0)
    (hbelow : b'.failureCount = 0 ∨ b'.failureCount < b'.failureThreshold) :
    Tallied (⟨b, c⟩ :: vs) b' := by
  have hiff : Overlooked (⟨b, c⟩ :: vs) ↔ Overlooked vs := by
    rw [overlooked_cons hs, hv]
    simp
  refine ⟨hbelow, ?_, ?_⟩
  · intro hn
    rw [failuresInARow_other hv, hcount, h.row (fun hover => hn (hiff.2 hover))]
  · intro hover
    rw [failuresInARow_other hv, hcount]
    exact Nat.add_lt_add_right (h.fewer (hiff.1 hover)) _

theorem Tallied.call (h : b.state = .closed → Tallied vs b)
    (hc : (b.call c).1.state = .closed) : Tallied (⟨b, c⟩ :: vs) (b.call c).1 := by
  obtain hs | ⟨hs, hv, hzero⟩ := closed_before hc
  · rw [call_closed hs] at hc ⊢
    have hb := h hs
    have hv := succeeded_closed (v := ⟨b, c⟩) hs
    have hf := failed_closed (v := ⟨b, c⟩) hs
    unfold CircuitBreaker.settle at hc ⊢
    cases ho : c.outcome with
    | returned r =>
      simp only [hs, if_neg (show BreakerState.closed ≠ .halfOpen by decide)]
      exact hb.returned hs ho
    | raised e =>
      rw [ho] at hc
      dsimp only at hc ⊢
      split at hc
      · cases hc
      · rename_i hlt
        rw [if_neg hlt]
        refine hb.unreturned hs (by rw [hv, ho]) ?_ (.inr (Nat.lt_of_not_le hlt))
        rw [hf, ho]
        rfl
    | interrupted e =>
      refine hb.unreturned hs (by rw [hv, ho]) ?_ hb.below
      rw [hf, ho]
      rfl
  · refine ⟨.inl hzero, fun _ => ?_, fun hover => absurd hover (not_overlooked_trial hs vs)⟩
    rw [failuresInARow_success hv, hzero]

end

theorem tallied_after (failureThreshold : Nat) (resetTimeout : Int) (cs : List (Call α ε))
    (hs : ((fresh failureThreshold resetTimeout).after cs).state = .closed) :
    Tallied ((fresh failureThreshold resetTimeout).visits cs)
      ((fresh failureThreshold resetTimeout).after cs) := by
  induction cs using List.reverseRecOn with
  | nil =>
    refine ⟨.inl rfl, fun _ => rfl, ?_⟩
    rintro ⟨_, hv, _⟩
    cases hv
  | append_singleton cs c ih =>
    rw [after_concat] at hs ⊢
    rw [visits_concat]
    exact Tallied.call ih hs

/-- The breaker opens at the end of as many failures in a row as its threshold says, exactly if it
has overlooked no success since it last became closed. -/
theorem opens_after_row_iff (failureThreshold : Nat) (resetTimeout : Int) (cs : List (Call α ε))
    (c : Call α ε) (hclosed : ((fresh failureThreshold resetTimeout).after cs).state = .closed)
    (hopened : ((fresh failureThreshold resetTimeout).after (cs ++ [c])).state = .opened) :
    failureThreshold ≤ failuresInARow ((fresh failureThreshold resetTimeout).visits (cs ++ [c])) ↔
      ¬Overlooked ((fresh failureThreshold resetTimeout).visits cs) := by
  have ht := tallied_after failureThreshold resetTimeout cs hclosed
  have hthr : ((fresh failureThreshold resetTimeout).after cs).failureThreshold
      = failureThreshold := (after_settings _ cs).1
  rw [after_concat] at hopened
  obtain ⟨hfailed, hnot, hle⟩ := opened_by hclosed hopened
  rw [visits_concat, failuresInARow_other hnot, hfailed, if_pos rfl]
  rw [hthr] at hle
  have hbelow := ht.below
  rw [hthr] at hbelow
  apply Iff.intro
  · intro hrow hover
    have := ht.fewer hover
    omega
  · intro hn
    rw [ht.row hn]
    exact hle

theorem opens_after_row_twice :
    2 ≤ failuresInARow ((fresh 2 10).visits twoFailures) ∧
      ¬Overlooked ((fresh 2 10).visits (twoFailures.take 1)) := by
  have h := opens_after_row_iff 2 10 (twoFailures.take 1) ⟨1, 2, .raised ()⟩ (by decide +kernel)
    (by decide +kernel)
  have hrow : 2 ≤ failuresInARow ((fresh 2 10).visits twoFailures) := by decide +kernel
  exact ⟨hrow, h.1 hrow⟩

/-- Every other call fails, a day after the one before. -/
def everyOtherDay : List (Call Unit Unit) :=
  [⟨0, 1, .raised ()⟩, ⟨86400, 86401, .returned ()⟩, ⟨172800, 172801, .raised ()⟩,
    ⟨259200, 259201, .returned ()⟩]

def lastDay : Call Unit Unit := ⟨345600, 345601, .raised ()⟩

theorem isolated_failures_open :
    ((fresh 3 300).after everyOtherDay).state = .closed ∧
      ((fresh 3 300).after (everyOtherDay ++ [lastDay])).state = .opened ∧
      ¬3 ≤ failuresInARow ((fresh 3 300).visits (everyOtherDay ++ [lastDay])) := by
  decide +kernel

end Resilience
