import AnythingTools.Telegram.RetryAfter

namespace Telegram
set_option autoImplicit true

/-- The limiter together with all that it has reserved. -/
def reserving (cfg : Limits) :
    RateLimiter × List Reservation → Call → Option (RateLimiter × List Reservation) :=
  Machine.traced (RateLimiter.step cfg) fun l c => (l.call cfg c).2

/-- Two send times are at least a second apart. -/
def SecondApart (r r' : Reservation) : Prop := r.target + 1 ≤ r'.target ∨ r'.target + 1 ≤ r.target

instance (r r' : Reservation) : Decidable (SecondApart r r') := inferInstanceAs (Decidable (_ ∨ _))

def privates (rs : List Reservation) : List Reservation := rs.filter fun r => !r.isGroup

/-- The private messages reserved so far are a second apart. -/
def PrivatesApart (p : RateLimiter × List Reservation) : Prop :=
  (privates p.2).Pairwise SecondApart

/-- The second after a private message is over by the clock, or the message is not sent later than
the last timestamp, from which a second is counted. -/
def Measured (cfg : Limits) (p : RateLimiter × List Reservation) : Call → Prop
  | .waitAndBlock now _ false => ∀ r ∈ privates p.2, r.target + 1 ≤ now ∨
      ∃ t ∈ (prune (now - cfg.overallTimePeriod) p.1.overallTimestamps).getLast?, r.target ≤ t
  | _ => True

instance (cfg : Limits) (p : RateLimiter × List Reservation) (c : Call) :
    Decidable (Measured cfg p c) :=
  match c with
  | .waitAndBlock _ _ false => inferInstanceAs (Decidable (∀ r ∈ privates p.2, _ ∨ _))
  | .waitAndBlock _ _ true => isTrue trivial
  | .recordRetryAfter .. => isTrue trivial

theorem keepSecond_le_target (cfg : Limits) (l : RateLimiter) (now : Rat) (chatId : String) :
    ∃ target, keepSecond l.overallTimestamps target ≤ l.target cfg now chatId false := by
  have hlast (target : Rat) :
      target ≤ if target < l.frozenUntil then l.frozenUntil else target := by
    split
    next hlt => exact hlt.le
    next => exact le_refl _
  exact ⟨_, hlast _⟩

theorem add_one_le_keepSecond (h : timestamps.getLast? = some t) (target : Rat) :
    t + 1 ≤ keepSecond timestamps target := by
  rw [keepSecond, h]
  exact le_max_right _ _

/-- A private reservation keeps its second to those that it is measured from. -/
theorem apart_of_measured (hm : Measured cfg (l, rs) (.waitAndBlock now chatId false))
    (hr : r ∈ privates rs) :
    r.target + 1 ≤ (l.pruned cfg now chatId false).target cfg now chatId false := by
  rcases hm r hr with hover | ⟨t, ht, hle⟩
  · exact hover.trans (le_target cfg _ now chatId false).1
  · obtain ⟨target, htarget⟩ := keepSecond_le_target cfg (l.pruned cfg now chatId false) now chatId
    calc r.target + 1 ≤ t + 1 := by gcongr
      _ ≤ keepSecond (l.pruned cfg now chatId false).overallTimestamps target :=
        add_one_le_keepSecond ht target
      _ ≤ (l.pruned cfg now chatId false).target cfg now chatId false := htarget

theorem privates_append (rs rs' : List Reservation) :
    privates (rs ++ rs') = privates rs ++ privates rs' := List.filter_append ..

/-- One call keeps the private reservations apart. -/
theorem apart_step {p p' : RateLimiter × List Reservation} (hm : Measured cfg p c)
    (hs : reserving cfg p c = some p') (h : PrivatesApart p) : PrivatesApart p' := by
  cases hs
  rw [PrivatesApart, privates_append]
  cases c with
  | recordRetryAfter now retryAfter =>
    have hnil : privates (p.1.call cfg (.recordRetryAfter now retryAfter)).2 = [] := rfl
    rw [hnil, List.append_nil]
    exact h
  | waitAndBlock now chatId isGroup =>
    cases isGroup with
    | true =>
      have hnil : privates (p.1.call cfg (.waitAndBlock now chatId true)).2 = [] := rfl
      rw [hnil, List.append_nil]
      exact h
    | false =>
      have hone : privates (p.1.call cfg (.waitAndBlock now chatId false)).2 =
          [⟨chatId, false, (p.1.pruned cfg now chatId false).target cfg now chatId false⟩] := rfl
      rw [hone, List.pairwise_append]
      refine ⟨h, List.pairwise_singleton _ _, ?_⟩
      intro r hr r' hr'
      rw [List.mem_singleton.1 hr']
      exact .inl (apart_of_measured hm hr)

theorem snd_reserving (cfg : Limits) (calls : List Call)
    (p : RateLimiter × List Reservation) :
    ∃ l, Machine.run (reserving cfg) p calls = some (l, p.2 ++ p.1.reservations cfg calls) := by
  induction calls generalizing p with
  | nil =>
    refine ⟨p.1, ?_⟩
    rw [RateLimiter.reservations, List.append_nil]
    rfl
  | cons c cs ih =>
    obtain ⟨l, hl⟩ := ih ((p.1.call cfg c).1, p.2 ++ (p.1.call cfg c).2)
    rw [List.append_assoc] at hl
    exact ⟨l, hl⟩

/-- The private reservations of a run are a second apart, if each is measured from those before
it. -/
theorem privates_apart (cfg : Limits) (calls : List Call)
    (hm : Machine.Meets (reserving cfg) (Measured cfg) ({}, []) calls) :
    (privates (({} : RateLimiter).reservations cfg calls)).Pairwise SecondApart := by
  obtain ⟨l, hrun⟩ := snd_reserving cfg calls ({}, [])
  have hstart : PrivatesApart ({}, []) := List.Pairwise.nil
  have hstep : ∀ p c p', Measured cfg p c → reserving cfg p c = some p' → PrivatesApart p →
      PrivatesApart p' := fun _ _ _ => apart_step
  have hkept := Machine.run_invariant hstep hm hrun hstart
  exact hkept

/-- Private messages among those to a group. -/
def mixed : List Call :=
  [.waitAndBlock 0 "42" false, .waitAndBlock 0 "-100" true, .waitAndBlock 0 "43" false,
    .waitAndBlock (1 / 2) "42" false]

theorem privates_apart_mixed :
    (privates (({} : RateLimiter).reservations {} mixed)).Pairwise SecondApart :=
  privates_apart {} mixed (by decide +kernel)

/-- A group that has sent its messages of the minute pushes a private message behind the next of its
own, but another group sends at once. -/
def overtaken : List Call :=
  List.replicate 19 (.waitAndBlock 0 "-100" true) ++
    [.waitAndBlock 0 "42" false, .waitAndBlock (121 / 2) "-200" true,
      .waitAndBlock (121 / 2) "43" false]

theorem not_apart_overtaken :
    (overtaken.map Call.now).Pairwise (· ≤ ·) ∧
      (privates (({} : RateLimiter).reservations {} overtaken)).map Reservation.target =
        [61, 123 / 2] ∧
      ¬(privates (({} : RateLimiter).reservations {} overtaken)).Pairwise SecondApart := by
  refine ⟨by decide +kernel, by decide +kernel, by decide +kernel⟩

end Telegram
