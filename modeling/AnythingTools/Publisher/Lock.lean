import AnythingTools.Publisher.System

namespace Publisher
open JobItems
set_option autoImplicit true

/-- The call has the lock and has not queued the status that gives it back. -/
def Stage.holds : Stage → Bool
  | .delivering => true
  | .computed _ => true
  | .crashed => true
  | _ => false

/-- Between the check-and-set and the return of the pipeline. -/
def Stage.running (stage : Stage) : Bool := stage.holds || decide (stage = .returning)

/-- At most one pipeline is running. -/
def Exclusive (s : System) : Prop := s.calls.countP Stage.running ≤ 1

instance (s : System) : Decidable (Exclusive s) := inferInstanceAs (Decidable (_ ≤ _))

/-- The statement brings a status that the check-and-set takes. -/
def Write.opens : Write → Bool
  | .setBatchStatus status => lockable status
  | _ => false

/-- The writer commits no status that the check-and-set takes while a call has the lock, and no
call tries the lock while another one has given it back and not yet returned. -/
def LockKept (s : System) : SystemEvent → Prop
  | .write => ∀ w ∈ s.queue.head?, w.opens = true → s.calls.any Stage.holds = false
  | .act i => s.calls[i]? = some .locking → .returning ∉ s.calls
  | _ => True

instance (s : System) (e : SystemEvent) : Decidable (LockKept s e) :=
  match e with
  | .write => inferInstanceAs (Decidable (∀ w ∈ s.queue.head?, _))
  | .act _ => inferInstanceAs (Decidable (_ → _))
  | .publish _ => isTrue trivial
  | .edit _ => isTrue trivial
  | .emit _ _ => isTrue trivial
  | .raise _ => isTrue trivial
  | .actEdit _ => isTrue trivial
  | .restart => isTrue trivial

/-- While a call has the lock the status lets no other one in. -/
structure Locked (s : System) : Prop where
  one : Exclusive s
  closed : s.calls.any Stage.holds = true → lockable s.db.batch.status = false

/-- No other step begins to run the pipeline. -/
theorem act_quiet {stage stage' : Stage} (h : stage.act db = some (stage', ws, false)) :
    (stage'.holds = true → stage.holds = true) ∧ (stage'.running = true → stage.running = true) := by
  cases stage with
  | locking =>
    rw [Stage.act] at h
    split at h
    next => cases h
    next =>
      cases h
      exact ⟨id, id⟩
  | checked args status =>
    rw [Stage.act] at h
    split at h
    next =>
      cases h
      exact ⟨id, id⟩
    next =>
      cases h
      exact ⟨id, id⟩
    next =>
      cases h
      exact ⟨id, id⟩
  | loading args =>
    rw [Stage.act] at h
    split at h
    next =>
      cases h
      exact ⟨id, id⟩
    next =>
      cases h
      exact ⟨id, id⟩
  | started args =>
    cases h
    exact ⟨id, id⟩
  | finalizing =>
    cases h
    exact ⟨id, id⟩
  | depleted =>
    cases h
    exact ⟨id, id⟩
  | delivering =>
    cases h
    exact ⟨fun _ => rfl, fun _ => rfl⟩
  | computed status =>
    cases h
    exact ⟨fun _ => rfl, fun _ => rfl⟩
  | crashed =>
    cases h
    exact ⟨fun _ => rfl, fun _ => rfl⟩
  | returning =>
    cases h
    exact ⟨id, fun _ => rfl⟩
  | done => cases h

theorem countP_set_le {p : α → Bool} {l : List α} (h : l[i]? = some a)
    (hp : p b = true → p a = true) : (l.set i b).countP p ≤ l.countP p := by
  induction l generalizing i with
  | nil => cases h
  | cons c l ih =>
    cases i with
    | zero =>
      cases h
      rw [List.set_cons_zero, List.countP_cons, List.countP_cons]
      cases hb : p b with
      | true => rw [hp hb]
      | false => exact Nat.add_le_add_left (Nat.zero_le _) _
    | succ i =>
      rw [List.set_cons_succ, List.countP_cons, List.countP_cons]
      exact Nat.add_le_add_right (ih h) _

theorem countP_set_succ {p : α → Bool} {l : List α} (i : Nat) (b : α) :
    (l.set i b).countP p ≤ l.countP p + 1 := by
  induction l generalizing i with
  | nil => exact Nat.zero_le _
  | cons c l ih =>
    cases i with
    | zero =>
      rw [List.set_cons_zero, List.countP_cons, List.countP_cons]
      split <;> omega
    | succ i =>
      rw [List.set_cons_succ, List.countP_cons, List.countP_cons, Nat.add_right_comm]
      exact Nat.add_le_add_right (ih i) _

theorem any_set {p : α → Bool} {l : List α} (h : l[i]? = some a) (hp : p b = true → p a = true)
    (hany : (l.set i b).any p = true) : l.any p = true := by
  rw [List.any_eq_true] at hany ⊢
  obtain ⟨c, hc, hpc⟩ := hany
  rcases List.mem_or_eq_of_mem_set hc with hc | hc
  · exact ⟨c, hc, hpc⟩
  · rw [hc] at hpc
    exact ⟨a, List.mem_of_getElem? h, hp hpc⟩

theorem locked_move {s : System} (hs : Locked s) (hi : s.calls[i]? = some stage)
    (hh : Stage.holds stage' = true → stage.holds = true)
    (hr : stage'.running = true → stage.running = true) (queue : List Write) :
    Locked { s with queue, calls := s.calls.set i stage' } where
  one := (countP_set_le hi hr).trans hs.one
  closed hany := hs.closed (any_set hi hh hany)

theorem locked_act {s s' : System} (hc : LockKept s (.act i)) (h : s.step (.act i) = some s')
    (hs : Locked s) : Locked s' := by
  rw [System.step] at h
  obtain ⟨stage, hi, h⟩ := Option.bind_eq_some_iff.1 h
  obtain ⟨⟨stage', ws, lock⟩, hact, h⟩ := Option.bind_eq_some_iff.1 h
  cases lock with
  | false =>
    cases h
    obtain ⟨hh, hr⟩ := act_quiet hact
    exact locked_move hs hi hh hr _
  | true =>
    cases h
    obtain ⟨hstage, _, hlock⟩ := act_lock hact
    have hret := hc (by rw [hi, hstage])
    have hfree : s.calls.any Stage.holds = false := by
      rw [Bool.eq_false_iff]
      intro hany
      rw [hs.closed hany] at hlock
      cases hlock
    have hzero : s.calls.countP Stage.running = 0 := by
      rw [List.countP_eq_zero]
      intro c hc hrun
      rw [Stage.running, Bool.or_eq_true, decide_eq_true_eq] at hrun
      rw [List.any_eq_false] at hfree
      rcases hrun with hh | he
      · exact hfree c hc hh
      · exact hret (he ▸ hc)
    constructor
    · have hle := countP_set_succ (p := Stage.running) (l := s.calls) i stage'
      rw [hzero] at hle
      exact hle
    · intro _
      rfl

theorem locked_write {s s' : System} (hc : LockKept s .write) (h : s.step .write = some s')
    (hs : Locked s) : Locked s' := by
  rw [System.step] at h
  split at h
  next w queue hq =>
    cases h
    refine ⟨hs.one, ?_⟩
    intro hany
    cases w with
    | setBatchStatus status =>
      rw [Bool.eq_false_iff]
      intro hl
      rw [LockKept, hq] at hc
      rw [hc _ rfl hl] at hany
      cases hany
    | _ => exact hs.closed hany
  next => cases h

theorem locked_step (s : System) (e : SystemEvent) (s' : System) (hc : LockKept s e)
    (h : s.step e = some s') (hs : Locked s) : Locked s' := by
  cases e with
  | publish args =>
    cases h
    refine ⟨?_, ?_⟩
    · rw [Exclusive, List.countP_append]
      exact hs.one
    · intro hany
      rw [List.any_append, Bool.or_eq_true] at hany
      exact hs.closed (hany.resolve_right Bool.false_ne_true)
  | edit ops =>
    cases h
    exact ⟨hs.one, hs.closed⟩
  | act i => exact locked_act hc h hs
  | emit i w =>
    rw [System.step] at h
    split at h
    next =>
      cases h
      exact ⟨hs.one, hs.closed⟩
    next => cases h
  | raise i =>
    rw [System.step] at h
    split at h
    next hi =>
      cases h
      exact locked_move hs hi (fun _ => rfl) (fun _ => rfl) _
    next => cases h
  | actEdit i =>
    rw [System.step] at h
    obtain ⟨stage, hi, h⟩ := Option.bind_eq_some_iff.1 h
    obtain ⟨⟨stage', ws⟩, hact, h⟩ := Option.bind_eq_some_iff.1 h
    cases h
    exact ⟨hs.one, hs.closed⟩
  | write => exact locked_write hc h hs
  | restart =>
    cases h
    exact ⟨Nat.zero_le 1, fun hany => absurd hany Bool.false_ne_true⟩

/-- As long as nothing opens the lock behind the back of its holder, one pipeline runs at most. -/
theorem exclusive_run (db : Db) (hm : Machine.Meets System.step LockKept { db } es)
    (hr : Machine.run System.step { db } es = some s) : Exclusive s := by
  have hinit : Locked { db } := ⟨Nat.zero_le 1, fun hany => absurd hany Bool.false_ne_true⟩
  exact (Machine.run_invariant locked_step hm hr hinit).one

/-- A call that takes the lock. -/
def lockedBy (i : Nat) (args : Args) : List SystemEvent :=
  [.publish args, .act i, .act i, .act i, .act i]

/-- The article is delivered, the status computed and committed, and the next call finds the batch
published. -/
def oneAfterTheOther : List SystemEvent :=
  lockedBy 0 {} ++ [.emit 0 (.setDetail "a1" .publishedArchive none), .write, .act 0, .act 0,
    .act 0, .write, .publish {}, .act 1, .act 1]

theorem exclusive_oneAfterTheOther : ∃ s,
    Machine.run System.step { db := oneArticle .pending .pending } oneAfterTheOther = some s ∧
      s.calls = [.done, .done] ∧ Exclusive s := by
  have hm : Machine.Meets System.step LockKept { db := oneArticle .pending .pending }
      oneAfterTheOther := by decide
  exact ⟨_, rfl, rfl, exclusive_run _ hm rfl⟩

/-- A call with `finalize` opens the lock of the pipeline that is running. -/
theorem two_pipelines : ¬ ∀ (db : Db) (es : List SystemEvent) (s : System),
    Machine.run System.step { db } es = some s → Exclusive s := by
  intro h
  have hs := h (oneArticle .pending .pending)
    (lockedBy 0 {} ++ [.publish { finalize := true }, .act 1, .act 1, .act 1, .write, .write] ++
      lockedBy 2 { reset := true }) _ rfl
  exact absurd hs (by decide)

end Publisher
