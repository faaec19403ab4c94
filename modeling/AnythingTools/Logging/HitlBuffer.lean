import AnythingTools.Machine
import Mathlib.Algebra.BigOperators.Group.List.Basic
import Mathlib.Algebra.Order.Group.Multiset
import Mathlib.Tactic.Abel

namespace HitlBuffer
set_option autoImplicit true

/-! ### Calls of `dual_log` while a prompt waits -/

/-- A thread. A call reads the flag when it imports it, before it takes the lock; a call that a
flush makes is followed by the others of the flush. -/
inductive Thread (ρ : Type) where
  | idle
  | bound (r : ρ) (active : Bool) (rest : List ρ)
  | direct (r : ρ) (rest : List ρ)
  | waiting
  | flushing (rest : List ρ)
deriving DecidableEq, Repr

/-- `hitl_buffering_active` and `hitl_buffer`, and the records that reach the streams. -/
structure Shared (ρ : Type) where
  active : Bool := false
  buffer : List ρ := []
  emitted : List ρ := []
deriving DecidableEq, Repr

inductive Act (ρ : Type) where
  | log (r : ρ)
  | lock
  | emit
  | prompt
  | answer
  | interrupt
  | next
deriving DecidableEq, Repr

def act (s : Shared ρ) : Thread ρ → Act ρ → Option (Thread ρ × Shared ρ)
  | .idle, .log r => some (.bound r s.active [], s)
  | .bound r true rest, .lock => some (.flushing rest, { s with buffer := s.buffer ++ [r] })
  | .bound r false rest, .lock => some (.direct r rest, s)
  | .direct r rest, .emit => some (.flushing rest, { s with emitted := s.emitted ++ [r] })
  | .idle, .prompt => some (.waiting, { s with active := true })
  | .waiting, .answer => some (.flushing s.buffer, { s with active := false, buffer := [] })
  -- only the end of the input counts as an answer
  | .waiting, .interrupt => some (.idle, s)
  | .flushing (r :: rest), .next => some (.bound r s.active rest, s)
  | .flushing [], .next => some (.idle, s)
  | _, _ => none

structure State (ρ : Type) where
  threads : List (Thread ρ)
  shared : Shared ρ := {}
deriving DecidableEq, Repr

abbrev Event (ρ : Type) := Nat × Act ρ

def step (s : State ρ) (e : Event ρ) : Option (State ρ) :=
  s.threads[e.1]?.bind fun t =>
    (act s.shared t e.2).map fun p => { threads := s.threads.set e.1 p.1, shared := p.2 }

def initial (n : Nat) : State ρ := { threads := List.replicate n .idle }

theorem step_some {s : State ρ} (h : step s (i, a) = some s') :
    ∃ t t', s.threads[i]? = some t ∧ act s.shared t a = some (t', s'.shared) ∧
      s'.threads = s.threads.set i t' := by
  rw [step, Option.bind_eq_some_iff] at h
  obtain ⟨t, ht, h⟩ := h
  rw [Option.map_eq_some_iff] at h
  obtain ⟨p, hp, rfl⟩ := h
  exact ⟨t, p.1, ht, hp, rfl⟩

/-! ### No record is lost or doubled -/

/-- The records that the thread has yet to put somewhere. -/
def Thread.held : Thread ρ → Multiset ρ
  | .bound r _ rest => {r} + rest
  | .direct r rest => {r} + rest
  | .flushing rest => rest
  | .idle | .waiting => 0

def State.inHand (s : State ρ) : Multiset ρ := (s.threads.map Thread.held).sum

def Act.logged : Act ρ → Multiset ρ
  | .log r => {r}
  | .lock | .emit | .prompt | .answer | .interrupt | .next => 0

theorem sum_map_set [AddCommMonoid μ] (f : τ → μ) (ts : List τ) (h : ts[i]? = some t) (t' : τ) :
    ((ts.set i t').map f).sum + f t = (ts.map f).sum + f t' := by
  induction ts generalizing i with
  | nil => cases h
  | cons u ts ih =>
    cases i with
    | zero =>
      cases h
      rw [List.set_cons_zero, List.map_cons, List.map_cons, List.sum_cons, List.sum_cons]
      abel
    | succ i =>
      have hrest := ih h
      rw [List.set_cons_succ, List.map_cons, List.map_cons, List.sum_cons, List.sum_cons, add_assoc,
        hrest, add_assoc]

theorem coe_concat (rs : List ρ) (r : ρ) : ((rs ++ [r] : List ρ) : Multiset ρ) = rs + {r} := by
  rw [← Multiset.coe_add, Multiset.coe_singleton]

/-- The buffer, the streams and the thread that acts have what they had, and what is logged. -/
theorem act_records {s : Shared ρ} (h : act s t a = some (t', s')) :
    (s'.emitted : Multiset ρ) + s'.buffer + t'.held =
      (s.emitted : Multiset ρ) + s.buffer + t.held + a.logged := by
  revert h
  fun_cases act s t a <;> intro h <;> cases h
  case case1 r =>
    rw [Thread.held, Thread.held, Act.logged, Multiset.coe_nil]
    abel
  case case2 r rest =>
    rw [Thread.held, Thread.held, Act.logged, coe_concat]
    abel
  case case3 r rest => exact (add_zero _).symm
  case case4 r rest =>
    rw [Thread.held, Thread.held, Act.logged, coe_concat]
    abel
  case case5 => exact (add_zero _).symm
  case case6 =>
    rw [Thread.held, Thread.held, Act.logged, Multiset.coe_nil]
    abel
  case case7 => exact (add_zero _).symm
  case case8 r rest =>
    rw [Thread.held, Thread.held, Act.logged, ← Multiset.cons_coe, Multiset.singleton_add, add_zero]
  case case9 => exact (add_zero _).symm

/-- The records of the streams, the buffer and the threads. -/
def State.records (s : State ρ) : Multiset ρ :=
  (s.shared.emitted : Multiset ρ) + s.shared.buffer + s.inHand

theorem step_records {s : State ρ} (h : step s e = some s') :
    s'.records = s.records + e.2.logged := by
  obtain ⟨i, a⟩ := e
  obtain ⟨t, t', ht, ha, hs'⟩ := step_some h
  have hact := act_records ha
  have hsum := sum_map_set Thread.held s.threads ht t'
  rw [← hs'] at hsum
  apply add_right_cancel (b := t.held)
  rw [State.records, State.records, State.inHand, State.inHand, add_assoc, hsum]
  calc (s'.shared.emitted : Multiset ρ) + s'.shared.buffer +
        ((s.threads.map Thread.held).sum + t'.held)
      = (s'.shared.emitted : Multiset ρ) + s'.shared.buffer + t'.held +
        (s.threads.map Thread.held).sum := by abel
    _ = _ := by rw [hact]; abel

/-- The records of the calls that are not of a flush. -/
def loggedRecords (es : List (Event ρ)) : Multiset ρ := (es.map fun e => e.2.logged).sum

theorem run_records {s : State ρ} (h : Machine.run step s es = some s') :
    s'.records = s.records + loggedRecords es := by
  induction es generalizing s with
  | nil =>
    cases h
    exact (add_zero _).symm
  | cons e es ih =>
    obtain ⟨s₁, h₁, hrest⟩ := Machine.run_cons_some h
    rw [ih hrest, step_records h₁, loggedRecords, loggedRecords, List.map_cons,
      List.sum_cons, add_assoc]

theorem records_initial (n : Nat) : (initial n : State ρ).records = 0 := by
  have hsum : ((List.replicate n (Thread.idle (ρ := ρ))).map Thread.held).sum = 0 := by
    rw [List.map_replicate, List.sum_replicate]
    exact nsmul_zero n
  rw [State.records, State.inHand, initial, hsum]
  rfl

/-! ### The buffer is emptied by the answer -/

def Thread.hasFoundSet : Thread ρ → Bool
  | .bound _ active _ => active
  | _ => false

def Act.isLock : Act ρ → Bool
  | .lock => true
  | _ => false

/-- A call that has found the flag set takes the lock while it still is. -/
def InTime (s : State ρ) (e : Event ρ) : Prop :=
  e.2.isLock = true → (s.threads[e.1]?).any Thread.hasFoundSet = true → s.shared.active = true

instance (s : State ρ) (e : Event ρ) : Decidable (InTime s e) :=
  inferInstanceAs (Decidable (_ → _ → _))

/-- Nothing is left in the buffer for the next prompt. -/
def Emptied (s : Shared ρ) : Prop := s.active = false → s.buffer = []

theorem act_emptied {s : Shared ρ} (h : act s t a = some (t', s')) (hs : Emptied s) :
    Emptied s' ↔ (a.isLock = true → t.hasFoundSet = true → s.active = true) := by
  revert h
  fun_cases act s t a <;> intro h <;> cases h
  case case1 r => exact iff_of_true hs fun h => by cases h
  case case2 r rest =>
    constructor
    · intro hs' _ _
      rw [← Bool.not_eq_false]
      intro hactive
      exact List.append_ne_nil_of_right_ne_nil _ (List.cons_ne_nil _ _) (hs' hactive)
    · intro hactive h
      rw [hactive rfl rfl] at h
      cases h
  case case3 r rest => exact iff_of_true hs fun _ h => by cases h
  case case4 r rest => exact iff_of_true hs fun h => by cases h
  case case5 => exact iff_of_true (fun h => by cases h) fun h => by cases h
  case case6 => exact iff_of_true (fun _ => rfl) fun h => by cases h
  case case7 => exact iff_of_true hs fun h => by cases h
  case case8 r rest => exact iff_of_true hs fun h => by cases h
  case case9 => exact iff_of_true hs fun h => by cases h

/-- A call that has bound the flag can take the lock. -/
theorem act_lock (s : Shared ρ) (ha : Act.isLock a = true) (ht : Thread.hasFoundSet t = true) :
    (act s t a).isSome = true := by
  cases a with
  | lock =>
    cases t with
    | bound r active rest =>
      cases active with
      | true => rfl
      | false => cases ht
    | _ => cases ht
  | _ => cases ha

theorem emptied_iff_inTime (s : State ρ) (e : Event ρ) (h : Emptied s.shared) :
    (∀ s', step s e = some s' → Emptied s'.shared) ↔ InTime s e := by
  obtain ⟨i, a⟩ := e
  constructor
  · intro hall ha hfound
    obtain ⟨t, ht, hfound⟩ := (Option.any_eq_true _ _).1 hfound
    obtain ⟨p, hp⟩ := Option.isSome_iff_exists.1 (act_lock s.shared ha hfound)
    have hs' : step s (i, a) = some { threads := s.threads.set i p.1, shared := p.2 } := by
      rw [step, ht, Option.bind_some, hp, Option.map_some]
    exact (act_emptied hp h).1 (hall _ hs') ha hfound
  · intro hin s' hs'
    obtain ⟨t, t', ht, hact, _⟩ := step_some hs'
    refine (act_emptied hact h).2 fun ha hfound => hin ha ?_
    rw [ht]
    exact hfound

theorem emptied_step (s : State ρ) (e : Event ρ) (s' : State ρ) (hin : InTime s e)
    (hs' : step s e = some s') (hs : Emptied s.shared) : Emptied s'.shared :=
  (emptied_iff_inTime s e hs).2 hin s' hs'

theorem inHand_idle {s : State ρ} (h : ∀ t ∈ s.threads, t = .idle) : s.inHand = 0 := by
  apply List.sum_eq_zero
  intro held hheld
  obtain ⟨t, ht, rfl⟩ := List.mem_map.1 hheld
  rw [h t ht]
  rfl

/-- A record is logged while a prompt waits, and the answer flushes it. -/
def flushedRun : List (Event Nat) :=
  [(1, .prompt), (0, .log 7), (0, .lock), (0, .next), (1, .answer), (1, .next), (1, .lock),
    (1, .emit), (1, .next)]

/-- A call that is late for the answer leaves its record in the buffer. -/
example : (Machine.run step (initial 2) [(1, .prompt), (0, .log 7), (1, .answer), (0, .lock),
    (0, .next), (1, .next)]).map State.shared = some { buffer := [7] } := by decide

/-! ### The console while a prompt waits -/

/-- The record of a call that has found the flag clear. -/
def Thread.passing : Thread ρ → Multiset ρ
  | .bound r false _ => {r}
  | .direct r _ => {r}
  | _ => 0

def State.onTheWay (s : State ρ) : Multiset ρ := (s.threads.map Thread.passing).sum

def Act.isAnswer : Act ρ → Bool
  | .answer => true
  | _ => false

theorem act_passing {s : Shared ρ} (h : act s t a = some (t', s')) (hactive : s.active = true)
    (ha : a.isAnswer = false) :
    s'.active = true ∧ (s'.emitted : Multiset ρ) + t'.passing = s.emitted + t.passing := by
  revert h
  fun_cases act s t a <;> intro h <;> cases h
  case case1 r =>
    refine ⟨hactive, ?_⟩
    rw [hactive]
    rfl
  case case2 r rest => exact ⟨hactive, rfl⟩
  case case3 r rest => exact ⟨hactive, rfl⟩
  case case4 r rest =>
    refine ⟨hactive, ?_⟩
    rw [coe_concat]
    exact add_zero _
  case case5 => exact ⟨rfl, rfl⟩
  case case6 => cases ha
  case case7 => exact ⟨hactive, rfl⟩
  case case8 r rest =>
    refine ⟨hactive, ?_⟩
    rw [hactive]
    rfl
  case case9 => exact ⟨hactive, rfl⟩

/-- What an act of a thread does to the records in a place and on the way there, the step does. -/
theorem step_onTheWay {s s' : State ρ} (ht : s.threads[i]? = some t)
    (hs' : s'.threads = s.threads.set i t')
    (h : (s'.shared.emitted : Multiset ρ) + t'.passing = s.shared.emitted + t.passing) :
    (s'.shared.emitted : Multiset ρ) + s'.onTheWay = s.shared.emitted + s.onTheWay := by
  have hsum := sum_map_set Thread.passing s.threads ht t'
  rw [← hs'] at hsum
  apply add_right_cancel (b := t.passing)
  rw [State.onTheWay, State.onTheWay, add_assoc, hsum]
  calc (s'.shared.emitted : Multiset ρ) + ((s.threads.map Thread.passing).sum + t'.passing)
      = (s'.shared.emitted : Multiset ρ) + t'.passing + (s.threads.map Thread.passing).sum := by abel
    _ = _ := by rw [h]; abel

theorem step_passing {s : State ρ} (h : step s e = some s') (hactive : s.shared.active = true)
    (ha : e.2.isAnswer = false) : s'.shared.active = true ∧
      (s'.shared.emitted : Multiset ρ) + s'.onTheWay = s.shared.emitted + s.onTheWay := by
  obtain ⟨i, a⟩ := e
  obtain ⟨t, t', ht, hact, hs'⟩ := step_some h
  obtain ⟨hactive', hpassing⟩ := act_passing hact hactive ha
  exact ⟨hactive', step_onTheWay ht hs' hpassing⟩

theorem act_prompt {s : Shared ρ} (h : act s t .prompt = some (t', s')) :
    s'.active = true ∧ (s'.emitted : Multiset ρ) + t'.passing = s.emitted + t.passing := by
  cases t with
  | idle =>
    cases h
    exact ⟨rfl, rfl⟩
  | bound r active rest => cases active <;> cases h
  | direct r rest => cases h
  | waiting => cases h
  | flushing rest => cases rest <;> cases h

/-- From a prompt until its answer, and without end where it is interrupted, only the calls that had
found the flag clear reach the streams. -/
theorem quiet_until_answered {s : State ρ} (hp : step s (i, .prompt) = some s₁)
    (hr : Machine.run step s₁ es = some s') (ha : ∀ e ∈ es, e.2.isAnswer = false) :
    (s'.shared.emitted : Multiset ρ) + s'.onTheWay = s.shared.emitted + s.onTheWay := by
  obtain ⟨t, t', ht, hact, hs₁⟩ := step_some hp
  obtain ⟨hactive, hpassing⟩ := act_prompt hact
  have hprompt := step_onTheWay ht hs₁ hpassing
  have hmeets : Machine.Meets step (fun _ e => e.2.isAnswer = false) s₁ es :=
    Machine.meets_of_forall fun _ => ha
  have hstep (u : State ρ) (e : Event ρ) (u' : State ρ) (hcond : e.2.isAnswer = false)
      (hs : step u e = some u') (hinv : u.shared.active = true ∧
        (u.shared.emitted : Multiset ρ) + u.onTheWay = s.shared.emitted + s.onTheWay) :
      u'.shared.active = true ∧
        (u'.shared.emitted : Multiset ρ) + u'.onTheWay = s.shared.emitted + s.onTheWay := by
    obtain ⟨hactive, hsame⟩ := step_passing hs hinv.1 hcond
    exact ⟨hactive, hsame.trans hinv.2⟩
  exact (Machine.run_invariant hstep hmeets hr ⟨hactive, hprompt⟩).2

/-- Of two records one is on its way when the prompt begins. -/
theorem quiet_until_answered_passing : ∃ s s₁ s' : State Nat, step s (1, .prompt) = some s₁ ∧
    Machine.run step s₁ [(0, .lock), (0, .emit), (0, .next), (0, .log 4), (0, .lock)] = some s' ∧
    s'.shared.emitted = [3] ∧
    (s'.shared.emitted : Multiset Nat) + s'.onTheWay = s.shared.emitted + s.onTheWay := by
  obtain ⟨s, hs⟩ : ∃ s, s = ({ threads := [.bound 3 false [], .idle] } : State Nat) := ⟨_, rfl⟩
  obtain ⟨s₁, hs₁⟩ : ∃ s₁, step s (1, .prompt) = some s₁ := by
    cases hs
    exact ⟨_, rfl⟩
  obtain ⟨s', hs'⟩ : ∃ s', Machine.run step s₁ [(0, .lock), (0, .emit), (0, .next), (0, .log 4),
      (0, .lock)] = some s' := by
    cases hs
    cases hs₁
    exact ⟨_, rfl⟩
  have hemitted : s'.shared.emitted = [3] := by
    cases hs
    cases hs₁
    cases hs'
    rfl
  exact ⟨s, s₁, s', hs₁, hs', hemitted, quiet_until_answered hs₁ hs' (by decide)⟩

end HitlBuffer
