import AnythingTools.Machine
import AnythingTools.Telegram.RateLimiter

namespace Telegram
set_option autoImplicit true

/-- A call as a step of the limiter. -/
def RateLimiter.step (cfg : Limits) (l : RateLimiter) (c : Call) : Option RateLimiter :=
  some (l.call cfg c).1

/-- The limiter after a sequence of calls. -/
def RateLimiter.after (cfg : Limits) (l : RateLimiter) : List Call → RateLimiter
  | [] => l
  | c :: cs => (l.call cfg c).1.after cfg cs

/-- What is reserved after a report lies no earlier than the delay that it reports asks for. -/
def ReportsKept (cfg : Limits) (calls : List Call) : Prop :=
  ∀ before now retryAfter later, calls = before ++ .recordRetryAfter now retryAfter :: later →
    ∀ r ∈ (((({} : RateLimiter).after cfg before).call cfg
        (.recordRetryAfter now retryAfter)).1).reservations cfg later,
      now + retryAfter + 1 / 10 ≤ r.target

/-- A report does not shorten a freeze that is in force. -/
def Prolongs (l : RateLimiter) : Call → Prop
  | .recordRetryAfter now retryAfter =>
    l.frozenUntil ≤ now ∨ l.frozenUntil ≤ now + retryAfter + 1 / 10
  | .waitAndBlock .. => True

instance (l : RateLimiter) (c : Call) : Decidable (Prolongs l c) :=
  match c with
  | .recordRetryAfter .. => inferInstanceAs (Decidable (_ ∨ _))
  | .waitAndBlock .. => isTrue trivial

theorem frozenUntil_le_target (cfg : Limits) (l : RateLimiter) (now : Rat) (chatId : String)
    (isGroup : Bool) : l.frozenUntil ≤ l.target cfg now chatId isGroup := by
  have hlast (target : Rat) :
      l.frozenUntil ≤ if target < l.frozenUntil then l.frozenUntil else target := by
    split
    next => exact le_refl _
    next hle => exact not_lt.1 hle
  exact hlast _

/-- A moment that the clock or the freeze has reached stays so. -/
theorem le_max_call {l : RateLimiter} {c : Call} (hp : Prolongs l c) (hclock : clock ≤ c.now)
    (h : t ≤ max clock l.frozenUntil) : t ≤ max c.now (l.call cfg c).1.frozenUntil := by
  rw [le_max_iff] at h ⊢
  cases c with
  | waitAndBlock now chatId isGroup => exact h.imp_left fun ht => ht.trans hclock
  | recordRetryAfter now retryAfter =>
    rcases h with ht | ht
    · exact .inl (ht.trans hclock)
    · exact hp.imp ht.trans ht.trans

theorem le_target_call {l : RateLimiter} {c : Call} (hclock : clock ≤ c.now) (h : t ≤ max clock l.frozenUntil)
    (hr : r ∈ (l.call cfg c).2) : t ≤ r.target := by
  cases c with
  | recordRetryAfter now retryAfter => cases hr
  | waitAndBlock now chatId isGroup =>
    have he := List.mem_singleton.1 hr
    subst he
    rcases le_max_iff.1 h with ht | ht
    · exact (ht.trans hclock).trans (le_target cfg _ now chatId isGroup).1
    · exact ht.trans (frozenUntil_le_target cfg _ now chatId isGroup)

/-- No later call reserves a send time before it. -/
theorem le_target_run (hclock : (clock :: calls.map Call.now).Pairwise (· ≤ ·))
    (hm : Machine.Meets (RateLimiter.step cfg) Prolongs l calls) (h : t ≤ max clock l.frozenUntil) :
    ∀ r ∈ l.reservations cfg calls, t ≤ r.target := by
  induction calls generalizing clock l with
  | nil =>
    intro r hr
    cases hr
  | cons c cs ih =>
    intro r hr
    rw [List.map_cons, List.pairwise_cons] at hclock
    have hle := hclock.1 c.now List.mem_cons_self
    rcases List.mem_append.1 hr with hr | hr
    · exact le_target_call hle h hr
    · exact ih hclock.2 (hm.2 _ rfl) (le_max_call hm.1 hle h) r hr

/-- If no report shortens a freeze in force, the delay of each report is kept. -/
theorem reportsKept_of_prolongs (cfg : Limits) (calls : List Call)
    (hclock : (calls.map Call.now).Pairwise (· ≤ ·))
    (hm : Machine.Meets (RateLimiter.step cfg) Prolongs {} calls) : ReportsKept cfg calls := by
  intro before now retryAfter later he
  subst he
  generalize ({} : RateLimiter) = l at hm ⊢
  induction before generalizing l with
  | nil => exact le_target_run hclock (hm.2 _ rfl) (le_max_right _ _)
  | cons c cs ih => exact ih (List.pairwise_cons.1 hclock).2 _ (hm.2 _ rfl)

/-- Two senders are told to wait, and one goes on after the shorter delay. -/
def prolonged : List Call :=
  [.recordRetryAfter 0 5, .recordRetryAfter 1 30, .waitAndBlock 2 "42" false]

theorem reportsKept_prolonged : ReportsKept {} prolonged :=
  reportsKept_of_prolongs {} prolonged (by decide +kernel) (by decide +kernel)

/-- The shorter delay is reported last. -/
def shortened : List Call :=
  [.recordRetryAfter 0 30, .recordRetryAfter 1 5, .waitAndBlock 2 "42" false]

theorem not_reportsKept_shortened :
    (shortened.map Call.now).Pairwise (· ≤ ·) ∧ ¬ReportsKept {} shortened := by
  refine ⟨by decide +kernel, ?_⟩
  intro h
  have hle := h [] 0 30 [.recordRetryAfter 1 5, .waitAndBlock 2 "42" false] rfl
    ⟨"42", false, 61 / 10⟩ (by decide +kernel)
  exact absurd hle (by decide +kernel)

end Telegram
