import AnythingTools.Machine
import AnythingTools.Writer.Receipts

namespace Writer
set_option autoImplicit true

/-- What stands in the queue. A task is known by the call that put it. -/
inductive Item where
  | stop
  | task (ticket : Nat) (task : Task)
deriving DecidableEq, Repr

/-- Where the thread of `_writer_thread` is. -/
inductive Phase where
  | created
  | starting
  | polling
  | executing (ticket : Nat) (task : Task)
  | reconnecting
  | expired
  | draining
  | exiting
  | dead
deriving DecidableEq, Repr

def Phase.isAlive : Phase → Bool
  | .created => false
  | .dead => false
  | _ => true

/-- Where a call is in `start_writer`. From `held` on it has the lock. -/
inductive Starting where
  | lock
  | held
  | cleared
  | created
deriving DecidableEq, Repr

/-- A call in progress. The three enqueue functions differ in the task they put. -/
inductive Caller where
  | enqueueCheck (task : Task)
  | enqueueStart (task : Task) (pc : Starting)
  | enqueuePut (task : Task)
  | start (pc : Starting)
  | shutdownEnter
  | shutdownSet
  | shutdownStop
  | shutdownJoin
  | shutdownWait (thread : Nat)
  | returned
deriving DecidableEq, Repr

/-- What the calls and the thread share. -/
structure Shared where
  writeQueue : List Item := []
  shutdownEvent : Bool := false
  writeLock : Option Nat := none
  writerThread : Option Phase := none
  threads : Nat := 0
  consecutiveErrors : Nat := 0
  accepted : List Nat := []
  settled : List Nat := []
deriving DecidableEq, Repr

namespace Shared

def maxsize : Nat := 1000

def isAlive (s : Shared) : Bool := s.writerThread.any Phase.isAlive

/-- The next step of call `i` in `start_writer`, and where it is then. -/
def startWriter (s : Shared) (i : Nat) : Starting → Option (Shared × Option Starting)
  | .lock => if s.writeLock = none then some ({ s with writeLock := some i }, some .held) else none
  | .held =>
    if s.isAlive = true then some ({ s with writeLock := none }, none)
    else some ({ s with shutdownEvent := false }, some .cleared)
  | .cleared =>
    some ({ s with writerThread := some .created, threads := s.threads + 1 }, some .created)
  | .created =>
    some ({ s with writerThread := some .starting, writeLock := none, consecutiveErrors := 0 },
      none)

/-- The next step of call `i`. A full queue rejects a task and holds a stop up. -/
def call (s : Shared) (i : Nat) : Caller → Option (Shared × Caller)
  | .enqueueCheck task =>
    some (s, if s.isAlive = true then .enqueuePut task else .enqueueStart task .lock)
  | .enqueueStart task pc =>
    (s.startWriter i pc).map fun x =>
      (x.1, x.2.elim (Caller.enqueuePut task) (Caller.enqueueStart task))
  | .enqueuePut task =>
    if s.writeQueue.length < maxsize then
      some ({ s with writeQueue := s.writeQueue ++ [.task i task], accepted := i :: s.accepted },
        .returned)
    else some (s, .returned)
  | .start pc => (s.startWriter i pc).map fun x => (x.1, x.2.elim Caller.returned Caller.start)
  | .shutdownEnter => some (s, if s.writerThread = none then .returned else .shutdownSet)
  | .shutdownSet => some ({ s with shutdownEvent := true }, .shutdownStop)
  | .shutdownStop =>
    if s.writeQueue.length < maxsize then
      some ({ s with writeQueue := s.writeQueue ++ [.stop] }, .shutdownJoin)
    else none
  | .shutdownJoin =>
    some (s, if s.writerThread = some .created then .returned else .shutdownWait s.threads)
  | .shutdownWait thread =>
    if s.threads = thread ∧ s.isAlive = true then none else some (s, .returned)
  | .returned => none

/-- The next step of the thread. Opening a connection and a task may succeed or fail. -/
def worker (s : Shared) (ok : Bool) : Option Shared :=
  match s.writerThread with
  | some .starting => some { s with writerThread := some (if ok then .polling else .dead) }
  | some .polling =>
    match s.writeQueue with
    | [] => some { s with writerThread := some .expired }
    | .stop :: rest => some { s with writeQueue := rest, writerThread := some .exiting }
    | .task ticket task :: rest =>
      some { s with writeQueue := rest, writerThread := some (.executing ticket task) }
  | some (.executing ticket task) =>
    if ok then
      if s.writeLock = none then
        some { s with
          writerThread := some .polling, settled := ticket :: s.settled, consecutiveErrors := 0 }
      else none
    else
      match task with
      | .single _ => some { s with writerThread := some .polling, settled := ticket :: s.settled }
      | _ =>
        if 3 ≤ s.consecutiveErrors + 1 then
          some { s with
            writerThread := some .reconnecting, settled := ticket :: s.settled,
            consecutiveErrors := 0 }
        else
          some { s with
            writerThread := some .polling, settled := ticket :: s.settled,
            consecutiveErrors := s.consecutiveErrors + 1 }
  | some .reconnecting => some { s with writerThread := some (if ok then .polling else .dead) }
  | some .expired =>
    some { s with writerThread := some (if s.shutdownEvent then .draining else .polling) }
  | some .draining =>
    some { s with writerThread := some (if s.writeQueue = [] then .exiting else .polling) }
  | some .exiting => some { s with writerThread := some .dead }
  | _ => none

end Shared

/-- The calls made so far and what they share with the thread. -/
structure System where
  shared : Shared := {}
  callers : List Caller := []
deriving DecidableEq, Repr

inductive Event where
  | enqueue (task : Task)
  | startWriter
  | shutdownWriter
  | caller (i : Nat)
  | startFails (i : Nat)
  | worker (ok : Bool)
deriving DecidableEq, Repr

namespace System

def called (s : System) (c : Caller) : System := { s with callers := s.callers ++ [c] }

def moved (s : System) (i : Nat) (x : Shared × Caller) : System :=
  { shared := x.1, callers := s.callers.set i x.2 }

/-- One step of a call or of the thread. -/
def step (s : System) : Event → Option System
  | .enqueue task => some (s.called (.enqueueCheck task))
  | .startWriter => some (s.called (.start .lock))
  | .shutdownWriter => some (s.called .shutdownEnter)
  | .caller i =>
    match s.callers[i]? with
    | some c => (s.shared.call i c).map (s.moved i)
    | none => none
  | .startFails i =>
    match s.callers[i]? with
    | some (.enqueueStart _ .created) => some (s.moved i ({ s.shared with writeLock := none }, .returned))
    | some (.start .created) => some (s.moved i ({ s.shared with writeLock := none }, .returned))
    | _ => none
  | .worker ok => (s.shared.worker ok).map fun shared => { s with shared := shared }

end System

/-- The thread will look at the queue again. -/
def Phase.serves : Phase → Bool
  | .exiting => false
  | p => p.isAlive

def Shared.serves (s : Shared) : Bool := s.writerThread.any Phase.serves

/-- A task that finds room is put before any stop and for a thread that will look again, and no
connection fails to open while a task waits. -/
def served (s : System) : Event → Bool
  | .caller i =>
    match s.callers[i]? with
    | some (.enqueuePut _) =>
      !decide (s.shared.writeQueue.length < Shared.maxsize) ||
        (s.shared.serves && decide (Item.stop ∉ s.shared.writeQueue))
    | _ => true
  | .worker false =>
    (s.shared.writerThread != some .starting && s.shared.writerThread != some .reconnecting) ||
      s.shared.writeQueue.all fun item => item == .stop
  | _ => true

/-- When the thread is dead, every accepted task has been executed and its receipt set. -/
def Delivered (s : Shared) : Prop :=
  s.writerThread = some .dead → ∀ i ∈ s.accepted, i ∈ s.settled

/-- An accepted task is settled, in the queue before any stop, or in the thread's hands. -/
structure Sound (s : Shared) : Prop where
  known : ∀ i ∈ s.accepted, i ∈ s.settled ∨ (∃ task, .task i task ∈ s.writeQueue) ∨
    ∃ task, s.writerThread = some (.executing i task)
  stopped : s.writeQueue.Pairwise fun a b => a = .stop → b = .stop
  idle : s.serves = false → ∀ item ∈ s.writeQueue, item = .stop

/-- What a call in `start_writer` relies on. -/
def Starting.Holds (s : Shared) (i : Nat) : Starting → Prop
  | .lock => True
  | .held => s.writeLock = some i
  | .cleared => s.writeLock = some i ∧ s.isAlive = false
  | .created => s.writeLock = some i ∧ s.writerThread = some .created

def Caller.starting : Caller → Option Starting
  | .enqueueStart _ pc => some pc
  | .start pc => some pc
  | _ => none

def Locked (s : System) : Prop :=
  ∀ i (c : Caller) (pc : Starting), s.callers[i]? = some c → c.starting = some pc →
    pc.Holds s.shared i

theorem Sound.delivered (h : Sound s) : Delivered s := by
  intro hdead i hi
  have hidle := h.idle (by rw [Shared.serves, hdead]; rfl)
  rcases h.known i hi with hsettled | ⟨task, htask⟩ | ⟨task, htask⟩
  · exact hsettled
  · cases hidle _ htask
  · rw [hdead] at htask
    cases htask

/-- A thread that does not serve has nothing left, so another may take its place. -/
theorem Sound.replace (h : Sound s) (hd : s.serves = false)
    (hq : s'.writeQueue = s.writeQueue) (ha : s'.accepted = s.accepted)
    (hs : s'.settled = s.settled) : Sound s' := by
  have hidle := h.idle hd
  constructor
  · intro i hi
    rw [ha] at hi
    rw [hs]
    rcases h.known i hi with hsettled | ⟨task, htask⟩ | ⟨task, htask⟩
    · exact .inl hsettled
    · cases hidle _ htask
    · rw [Shared.serves, htask] at hd
      cases hd
  · rw [hq]
    exact h.stopped
  · rw [hq]
    exact fun _ => hidle

theorem Sound.congr (h : Sound s) (hq : s'.writeQueue = s.writeQueue)
    (ht : s'.writerThread = s.writerThread) (ha : s'.accepted = s.accepted)
    (hs : s'.settled = s.settled) : Sound s' := by
  constructor
  · rw [hq, ht, ha, hs]
    exact h.known
  · rw [hq]
    exact h.stopped
  · rw [Shared.serves, hq, ht]
    exact h.idle

theorem serves_of_isAlive {s : Shared} (h : s.isAlive = false) : s.serves = false := by
  rw [Shared.isAlive] at h
  rw [Shared.serves]
  cases hp : s.writerThread with
  | none => rfl
  | some p =>
    rw [hp] at h
    cases p <;> first | rfl | cases h

theorem Starting.Holds.lock_of_ne {pc : Starting} (h : pc.Holds s i) (hn : s.writeLock ≠ some i) :
    pc = .lock := by
  cases pc with
  | lock => rfl
  | held => exact absurd h hn
  | cleared => exact absurd h.1 hn
  | created => exact absurd h.1 hn

theorem Starting.Holds.congr {pc : Starting} (h : pc.Holds s i)
    (hl : s'.writeLock = s.writeLock) (ht : s'.writerThread = s.writerThread) :
    pc.Holds s' i := by
  cases pc with
  | lock => trivial
  | held => exact hl.trans h
  | cleared => exact ⟨hl.trans h.1, by rw [Shared.isAlive, ht]; exact h.2⟩
  | created => exact ⟨hl.trans h.1, ht.trans h.2⟩

/-- A step in `start_writer`. -/
theorem startWriter_step {s : Shared} {pc : Starting} (hp : pc.Holds s i)
    (h : s.startWriter i pc = some (s', pc')) :
    (Sound s → Sound s') ∧ (∀ q, pc' = some q → q.Holds s' i) ∧
      ∀ j q, j ≠ i → Starting.Holds s j q → Starting.Holds s' j q := by
  have hothers (hlock : s.writeLock = none ∨ s.writeLock = some i) (j : Nat) (q : Starting)
      (hj : j ≠ i) (hq : q.Holds s j) : q.Holds s' j := by
    have hne : s.writeLock ≠ some j := by
      rcases hlock with hl | hl
      · rw [hl]
        exact Option.some_ne_none j ∘ Eq.symm
      · rw [hl]
        exact fun he => hj (Option.some.inj he).symm
    rw [hq.lock_of_ne hne]
    trivial
  cases pc with
  | lock =>
    rw [Shared.startWriter] at h
    split at h
    next hlock =>
      cases h
      refine ⟨fun hs => hs.congr rfl rfl rfl rfl, ?_, hothers (.inl hlock)⟩
      intro q hq
      cases hq
      rfl
    next => cases h
  | held =>
    rw [Shared.startWriter] at h
    split at h
    next =>
      cases h
      refine ⟨fun hs => hs.congr rfl rfl rfl rfl, ?_, hothers (.inr hp)⟩
      intro q hq
      cases hq
    next hdead =>
      cases h
      refine ⟨fun hs => hs.congr rfl rfl rfl rfl, ?_, hothers (.inr hp)⟩
      intro q hq
      cases hq
      exact ⟨hp, eq_false_of_ne_true hdead⟩
  | cleared =>
    cases h
    refine ⟨fun hs => hs.replace (serves_of_isAlive hp.2) rfl rfl rfl, ?_, hothers (.inr hp.1)⟩
    intro q hq
    cases hq
    exact ⟨hp.1, rfl⟩
  | created =>
    cases h
    have hserves : s.serves = false := by
      rw [Shared.serves, hp.2]
      rfl
    refine ⟨fun hs => hs.replace hserves rfl rfl rfl, ?_, hothers (.inr hp.1)⟩
    intro q hq
    cases hq

theorem Sound.put (h : Sound s) (hs : s.serves = true) (hn : Item.stop ∉ s.writeQueue)
    (i : Nat) (task : Task) :
    Sound { s with writeQueue := s.writeQueue ++ [.task i task], accepted := i :: s.accepted } := by
  constructor
  · intro j hj
    rcases List.mem_cons.1 hj with rfl | hj
    · exact .inr (.inl ⟨task, List.mem_append_right _ List.mem_cons_self⟩)
    · rcases h.known j hj with hsettled | ⟨task, htask⟩ | hexecuting
      · exact .inl hsettled
      · exact .inr (.inl ⟨task, List.mem_append_left _ htask⟩)
      · exact .inr (.inr hexecuting)
  · refine List.pairwise_append.2 ⟨h.stopped, List.pairwise_singleton _ _, ?_⟩
    intro a ha b _ hstop
    exact absurd (hstop ▸ ha) hn
  · intro hd
    exact absurd hs (by rw [show s.serves = false from hd]; exact Bool.noConfusion)

theorem Sound.stop (h : Sound s) : Sound { s with writeQueue := s.writeQueue ++ [.stop] } := by
  constructor
  · intro i hi
    rcases h.known i hi with hsettled | ⟨task, htask⟩ | hexecuting
    · exact .inl hsettled
    · exact .inr (.inl ⟨task, List.mem_append_left _ htask⟩)
    · exact .inr (.inr hexecuting)
  · refine List.pairwise_append.2 ⟨h.stopped, List.pairwise_singleton _ _, ?_⟩
    intro a _ b hb _
    exact List.mem_singleton.1 hb
  · intro hd item hitem
    rcases List.mem_append.1 hitem with hitem | hitem
    · exact h.idle hd item hitem
    · exact List.mem_singleton.1 hitem

/-- The thread goes on from a phase without a task. -/
theorem Sound.advance (h : Sound s) (hn : ∀ i task, s.writerThread ≠ some (.executing i task))
    (hq : s'.writeQueue = s.writeQueue) (ha : s'.accepted = s.accepted)
    (hs : s'.settled = s.settled)
    (hidle : s'.serves = false → ∀ item ∈ s.writeQueue, item = .stop) : Sound s' := by
  constructor
  · intro i hi
    rw [ha] at hi
    rw [hs, hq]
    rcases h.known i hi with hsettled | htask | ⟨task, htask⟩
    · exact .inl hsettled
    · exact .inr (.inl htask)
    · exact absurd htask (hn i task)
  · rw [hq]
    exact h.stopped
  · rw [hq]
    exact hidle

/-- The thread takes a stop from the queue. -/
theorem Sound.takeStop (h : Sound s) (hp : s.writerThread = some .polling)
    (hq : s.writeQueue = .stop :: rest) :
    Sound { s with writeQueue := rest, writerThread := some .exiting } := by
  have hstopped := h.stopped
  rw [hq, List.pairwise_cons] at hstopped
  constructor
  · intro i hi
    rcases h.known i hi with hsettled | ⟨task, htask⟩ | ⟨task, htask⟩
    · exact .inl hsettled
    · rw [hq] at htask
      cases hstopped.1 _ ((List.mem_cons.1 htask).resolve_left Item.noConfusion) rfl
    · rw [hp] at htask
      cases htask
  · exact hstopped.2
  · exact fun _ item hitem => hstopped.1 item hitem rfl

/-- The thread takes a task from the queue. -/
theorem Sound.takeTask (h : Sound s) (hp : s.writerThread = some .polling)
    (hq : s.writeQueue = .task ticket task :: rest) :
    Sound { s with writeQueue := rest, writerThread := some (.executing ticket task) } := by
  constructor
  · intro i hi
    rcases h.known i hi with hsettled | ⟨task', htask⟩ | ⟨task', htask⟩
    · exact .inl hsettled
    · rw [hq] at htask
      rcases List.mem_cons.1 htask with he | hrest
      · cases he
        exact .inr (.inr ⟨task, rfl⟩)
      · exact .inr (.inl ⟨task', hrest⟩)
    · rw [hp] at htask
      cases htask
  · have hstopped := h.stopped
    rw [hq, List.pairwise_cons] at hstopped
    exact hstopped.2
  · intro hd
    cases hd

/-- The thread settles the task in its hands and goes on. -/
theorem Sound.settle (h : Sound s) (hp : s.writerThread = some (.executing ticket task))
    (hq : s'.writeQueue = s.writeQueue) (ha : s'.accepted = s.accepted)
    (hs : s'.settled = ticket :: s.settled) (hserves : s'.serves = true) : Sound s' := by
  constructor
  · intro i hi
    rw [ha] at hi
    rw [hs, hq]
    rcases h.known i hi with hsettled | htask | ⟨task', htask⟩
    · exact .inl (List.mem_cons_of_mem _ hsettled)
    · exact .inr (.inl htask)
    · rw [hp] at htask
      cases htask
      exact .inl List.mem_cons_self
  · rw [hq]
    exact h.stopped
  · intro hd
    rw [hserves] at hd
    cases hd

/-- What a step of the thread can do. -/
inductive Moves (s : Shared) (ok : Bool) : Shared → Prop
  | advance (hp : s.writerThread = some p) (halive : p.isAlive = true)
      (hn : ∀ i task, p ≠ .executing i task)
      (hnext : p'.serves = true ∨ p = .exiting ∨ s.writeQueue = [] ∨
        ok = false ∧ (p = .starting ∨ p = .reconnecting)) :
      Moves s ok { s with writerThread := some p' }
  | takeStop (hp : s.writerThread = some .polling) (hq : s.writeQueue = .stop :: rest) :
      Moves s ok { s with writeQueue := rest, writerThread := some .exiting }
  | takeTask (hp : s.writerThread = some .polling) (hq : s.writeQueue = .task ticket task :: rest) :
      Moves s ok { s with writeQueue := rest, writerThread := some (.executing ticket task) }
  | settle (hp : s.writerThread = some (.executing ticket task)) (hserves : p.serves = true)
      (errors : Nat) :
      Moves s ok { s with
        writerThread := some p, settled := ticket :: s.settled, consecutiveErrors := errors }

theorem worker_moves {s : Shared} (h : s.worker ok = some s') : Moves s ok s' := by
  rw [Shared.worker] at h
  cases hp : s.writerThread with
  | none =>
    rw [hp] at h
    cases h
  | some p =>
    rw [hp] at h
    cases p with
    | created => cases h
    | dead => cases h
    | starting =>
      cases h
      cases ok with
      | true => exact .advance hp rfl (fun _ _ => Phase.noConfusion) (.inl rfl)
      | false =>
        exact .advance hp rfl (fun _ _ => Phase.noConfusion) (.inr (.inr (.inr ⟨rfl, .inl rfl⟩)))
    | reconnecting =>
      cases h
      cases ok with
      | true => exact .advance hp rfl (fun _ _ => Phase.noConfusion) (.inl rfl)
      | false =>
        exact .advance hp rfl (fun _ _ => Phase.noConfusion) (.inr (.inr (.inr ⟨rfl, .inr rfl⟩)))
    | expired =>
      cases h
      refine .advance hp rfl (fun _ _ => Phase.noConfusion) (.inl ?_)
      cases s.shutdownEvent <;> rfl
    | draining =>
      cases h
      refine .advance hp rfl (fun _ _ => Phase.noConfusion) ?_
      by_cases hq : s.writeQueue = []
      · exact .inr (.inr (.inl hq))
      · rw [if_neg hq]
        exact .inl rfl
    | exiting =>
      cases h
      exact .advance hp rfl (fun _ _ => Phase.noConfusion) (.inr (.inl rfl))
    | polling =>
      dsimp only at h
      split at h
      next =>
        cases h
        exact .advance hp rfl (fun _ _ => Phase.noConfusion) (.inl rfl)
      next hq =>
        cases h
        exact .takeStop hp hq
      next hq =>
        cases h
        exact .takeTask hp hq
    | executing ticket task =>
      cases ok with
      | true =>
        dsimp only at h
        rw [if_pos rfl] at h
        split at h
        · cases h
          exact .settle hp rfl 0
        · cases h
      | false =>
        cases task with
        | single st =>
          cases h
          exact .settle hp rfl s.consecutiveErrors
        | script sts =>
          dsimp only at h
          rw [if_neg Bool.false_ne_true] at h
          split at h
          · cases h
            exact .settle hp rfl 0
          · cases h
            exact .settle hp rfl _
        | transaction sts =>
          dsimp only at h
          rw [if_neg Bool.false_ne_true] at h
          split at h
          · cases h
            exact .settle hp rfl 0
          · cases h
            exact .settle hp rfl _

theorem Moves.frame {s : Shared} (h : Moves s ok s') :
    s.isAlive = true ∧ s'.writeLock = s.writeLock := by
  rw [Shared.isAlive]
  cases h with
  | advance hp halive =>
    rw [hp]
    exact ⟨halive, rfl⟩
  | takeStop hp =>
    rw [hp]
    exact ⟨rfl, rfl⟩
  | takeTask hp =>
    rw [hp]
    exact ⟨rfl, rfl⟩
  | settle hp =>
    rw [hp]
    exact ⟨rfl, rfl⟩

/-- A step of the thread that crashes only with nothing waiting. -/
theorem Sound.moves (h : Sound s) (hm : Moves s ok s')
    (hcrash : ok = false → s.writerThread = some .starting ∨ s.writerThread = some .reconnecting →
      ∀ item ∈ s.writeQueue, item = .stop) : Sound s' := by
  cases hm with
  | advance hp halive hn hnext =>
    refine h.advance ?_ rfl rfl rfl ?_
    · intro i task he
      rw [hp] at he
      exact hn i task (Option.some.inj he)
    · intro hserves item hitem
      rcases hnext with hnext | rfl | hq | ⟨rfl, hphase⟩
      · rw [Shared.serves, Option.any_some, hnext] at hserves
        cases hserves
      · exact h.idle (by rw [Shared.serves, hp]; rfl) item hitem
      · rw [hq] at hitem
        cases hitem
      · rw [hp] at hcrash
        refine hcrash rfl ?_ item hitem
        exact hphase.imp (congrArg some) (congrArg some)
  | takeStop hp hq => exact h.takeStop hp hq
  | takeTask hp hq => exact h.takeTask hp hq
  | settle hp hserves errors => exact h.settle hp rfl rfl rfl hserves

/-- A step of the thread leaves the calls in `start_writer` what they rely on. -/
theorem Starting.Holds.moves {pc : Starting} (h : pc.Holds s i) (hm : Moves s ok s') :
    pc.Holds s' i := by
  obtain ⟨halive, hlock⟩ := hm.frame
  cases pc with
  | lock => trivial
  | held => exact hlock.trans h
  | cleared =>
    rw [h.2] at halive
    cases halive
  | created =>
    rw [Shared.isAlive, h.2] at halive
    cases halive

/-- A call that is not in `start_writer`. -/
theorem Shared.call_frame {s : Shared} (h : s.call i c = some x) (hc : c.starting = none) :
    x.1.writeLock = s.writeLock ∧ x.1.writerThread = s.writerThread ∧
      ∀ pc, x.2.starting = some pc → pc = .lock := by
  cases c with
  | enqueueCheck task =>
    cases h
    refine ⟨rfl, rfl, ?_⟩
    intro pc hpc
    dsimp only at hpc
    split at hpc
    · cases hpc
    · exact (Option.some.inj hpc).symm
  | enqueueStart task pc => cases hc
  | enqueuePut task =>
    rw [Shared.call] at h
    split at h <;>
    · cases h
      exact ⟨rfl, rfl, fun pc hpc => nomatch hpc⟩
  | start pc => cases hc
  | shutdownEnter =>
    cases h
    refine ⟨rfl, rfl, ?_⟩
    intro pc hpc
    dsimp only at hpc
    split at hpc <;> cases hpc
  | shutdownSet =>
    cases h
    exact ⟨rfl, rfl, fun pc hpc => nomatch hpc⟩
  | shutdownStop =>
    rw [Shared.call] at h
    split at h
    · cases h
      exact ⟨rfl, rfl, fun pc hpc => nomatch hpc⟩
    · cases h
  | shutdownJoin =>
    cases h
    refine ⟨rfl, rfl, ?_⟩
    intro pc hpc
    dsimp only at hpc
    split at hpc <;> cases hpc
  | shutdownWait thread =>
    rw [Shared.call] at h
    split at h
    · cases h
    · cases h
      exact ⟨rfl, rfl, fun pc hpc => nomatch hpc⟩
  | returned => cases h

/-- A call that is not in `start_writer` puts at most one item. -/
theorem Sound.call {s : Shared} (hs : Sound s) (h : s.call i c = some x)
    (hc : c.starting = none)
    (hput : ∀ task, c = .enqueuePut task → s.writeQueue.length < Shared.maxsize →
      s.serves = true ∧ Item.stop ∉ s.writeQueue) : Sound x.1 := by
  cases c with
  | enqueueCheck task =>
    cases h
    exact hs
  | enqueueStart task pc => cases hc
  | enqueuePut task =>
    rw [Shared.call] at h
    split at h
    next hroom =>
      cases h
      obtain ⟨hserves, hstop⟩ := hput task rfl hroom
      exact hs.put hserves hstop i task
    next =>
      cases h
      exact hs
  | start pc => cases hc
  | shutdownEnter =>
    cases h
    exact hs
  | shutdownSet =>
    cases h
    exact hs.congr rfl rfl rfl rfl
  | shutdownStop =>
    rw [Shared.call] at h
    split at h
    · cases h
      exact hs.stop
    · cases h
  | shutdownJoin =>
    cases h
    exact hs
  | shutdownWait thread =>
    rw [Shared.call] at h
    split at h
    · cases h
    · cases h
      exact hs
  | returned => cases h

theorem Locked.moved {s : System} (h : Locked s)
    (hi : ∀ pc : Starting, x.2.starting = some pc → pc.Holds x.1 i)
    (hj : ∀ j (pc : Starting), j ≠ i → pc.Holds s.shared j → pc.Holds x.1 j) :
    Locked (s.moved i x) := by
  intro j c pc hc hpc
  rw [System.moved, List.getElem?_set] at hc
  split at hc
  next hij =>
    subst hij
    split at hc
    · cases hc
      exact hi pc hpc
    · cases hc
  next hij => exact hj j pc (Ne.symm hij) (h j c pc hc hpc)

theorem Locked.called {s : System} (h : Locked s) (hc : ∀ pc, c.starting = some pc → pc = .lock) :
    Locked (s.called c) := by
  intro j c' pc hj hpc
  rw [System.called, List.getElem?_append] at hj
  split at hj
  · exact h j c' pc hj hpc
  · rw [List.getElem?_singleton] at hj
    split at hj
    · cases hj
      rw [hc pc hpc]
      trivial
    · cases hj

/-- A step of a call. -/
theorem call_step {s : System} (hl : Locked s) (hs : Sound s.shared)
    (hcaller : s.callers[i]? = some c) (h : s.shared.call i c = some x)
    (hput : ∀ task, c = .enqueuePut task → s.shared.writeQueue.length < Shared.maxsize →
      s.shared.serves = true ∧ Item.stop ∉ s.shared.writeQueue) :
    Sound x.1 ∧ Locked (s.moved i x) := by
  cases hc : c.starting with
  | none =>
    obtain ⟨hlock, hthread, hnext⟩ := Shared.call_frame h hc
    refine ⟨hs.call h hc hput, hl.moved ?_ ?_⟩
    · intro pc hpc
      rw [hnext pc hpc]
      trivial
    · exact fun j pc _ hold => hold.congr hlock hthread
  | some pc =>
    have hp : pc.Holds s.shared i := hl i c pc hcaller hc
    have hstep : ∃ y, s.shared.startWriter i pc = some y ∧ x.1 = y.1 ∧ x.2.starting = y.2 := by
      cases c with
      | enqueueStart task pc' =>
        cases hc
        obtain ⟨y, hy, rfl⟩ := Option.map_eq_some_iff.1 h
        refine ⟨y, hy, rfl, ?_⟩
        obtain ⟨s', pc'⟩ := y
        cases pc' <;> rfl
      | start pc' =>
        cases hc
        obtain ⟨y, hy, rfl⟩ := Option.map_eq_some_iff.1 h
        refine ⟨y, hy, rfl, ?_⟩
        obtain ⟨s', pc'⟩ := y
        cases pc' <;> rfl
      | _ => cases hc
    obtain ⟨y, hy, hshared, hnext⟩ := hstep
    obtain ⟨hsound, hself, hothers⟩ := startWriter_step hp hy
    rw [hshared]
    refine ⟨hsound hs, hl.moved ?_ ?_⟩
    · rw [hnext, hshared]
      exact hself
    · rw [hshared]
      exact hothers

theorem startFails_step {s : System} (hl : Locked s) (hs : Sound s.shared)
    (hcaller : s.callers[i]? = some c) (hc : c.starting = some .created) :
    Sound { s.shared with writeLock := none } ∧
      Locked (s.moved i ({ s.shared with writeLock := none }, .returned)) := by
  have hp : Starting.created.Holds s.shared i := hl i c _ hcaller hc
  refine ⟨hs.congr rfl rfl rfl rfl, hl.moved (fun pc hpc => nomatch hpc) ?_⟩
  intro j pc hj hold
  have hne : s.shared.writeLock ≠ some j := by
    rw [hp.1]
    exact fun he => hj (Option.some.inj he).symm
  rw [hold.lock_of_ne hne]
  trivial

/-- A step under the condition keeps the invariant. -/
theorem sound_step {s : System} (hserved : served s e = true) (h : s.step e = some s')
    (hinv : Sound s.shared ∧ Locked s) : Sound s'.shared ∧ Locked s' := by
  obtain ⟨hs, hl⟩ := hinv
  cases e with
  | enqueue task =>
    cases h
    exact ⟨hs, hl.called (fun pc hpc => nomatch hpc)⟩
  | startWriter =>
    cases h
    exact ⟨hs, hl.called (fun pc hpc => (Option.some.inj hpc).symm)⟩
  | shutdownWriter =>
    cases h
    exact ⟨hs, hl.called (fun pc hpc => nomatch hpc)⟩
  | caller i =>
    rw [System.step] at h
    cases hcaller : s.callers[i]? with
    | none =>
      rw [hcaller] at h
      cases h
    | some c =>
      rw [hcaller] at h
      obtain ⟨x, hx, rfl⟩ := Option.map_eq_some_iff.1 h
      refine call_step hl hs hcaller hx ?_
      rintro task rfl hroom
      rw [served, hcaller] at hserved
      rw [Bool.or_eq_true, Bool.and_eq_true, decide_eq_true_eq, Bool.not_eq_true',
        decide_eq_false_iff_not] at hserved
      exact hserved.resolve_left (not_not_intro hroom)
  | startFails i =>
    rw [System.step] at h
    split at h
    next hcaller =>
      cases h
      exact startFails_step hl hs hcaller rfl
    next hcaller =>
      cases h
      exact startFails_step hl hs hcaller rfl
    next => cases h
  | worker ok =>
    obtain ⟨s₁, hs₁, rfl⟩ := Option.map_eq_some_iff.1 h
    have hm := worker_moves hs₁
    refine ⟨hs.moves hm ?_, fun j c pc hc hpc => (hl j c pc hc hpc).moves hm⟩
    rintro rfl hphase item hitem
    rw [served, Bool.or_eq_true, Bool.and_eq_true, bne_iff_ne, bne_iff_ne,
      List.all_eq_true] at hserved
    rcases hserved with ⟨hstarting, hreconnecting⟩ | hall
    · exact absurd hphase (not_or_intro hstarting hreconnecting)
    · exact beq_iff_eq.1 (hall item hitem)

/-- In a run whose steps meet the condition, a dead thread leaves no accepted task behind. -/
theorem delivered_of_served
    (hm : Machine.Meets System.step (fun s e => served s e = true) {} es)
    (hr : Machine.run System.step {} es = some s) : Delivered s.shared := by
  have hinit : Sound ({} : System).shared ∧ Locked {} := by
    refine ⟨⟨?_, .nil, ?_⟩, ?_⟩
    · intro i hi
      cases hi
    · intro _ item hitem
      cases hitem
    · intro i c pc hc
      cases hc
  exact (Machine.run_invariant (fun s e s' => sound_step) hm hr hinit).1.delivered

def startedWriter : List Event :=
  [.startWriter, .caller 0, .caller 0, .caller 0, .caller 0, .worker true]

/-- The task is put, then the stop. -/
def orderly : List Event :=
  startedWriter ++ [.enqueue (.single insertRow), .caller 1, .caller 1, .shutdownWriter, .caller 2,
    .caller 2, .caller 2, .caller 2, .worker true, .worker true, .worker true, .worker true,
    .caller 2]

theorem delivered_orderly :
    ((Machine.run System.step {} orderly).getD {}).shared.writerThread = some .dead ∧
      ((Machine.run System.step {} orderly).getD {}).shared.accepted = [1] ∧
      Delivered ((Machine.run System.step {} orderly).getD {}).shared := by
  have hm : Machine.Meets System.step (fun s e => served s e = true) {} orderly := by
    decide +kernel
  have hr : (Machine.run System.step {} orderly).isSome = true := by decide +kernel
  exact ⟨by decide +kernel, by decide +kernel, delivered_of_served hm (Machine.run_getD hr {})⟩

/-- The call sees the thread alive, and puts its task behind the stop of a shutdown. -/
def behindStop : List Event :=
  startedWriter ++ [.enqueue (.single insertRow), .caller 1, .shutdownWriter, .caller 2, .caller 2,
    .caller 2, .caller 1, .caller 2, .worker true, .worker true, .caller 2]

/-- All calls have returned, the thread is dead, and the accepted task is not settled. -/
theorem lost_behindStop :
    ((Machine.run System.step {} behindStop).getD {}).callers =
        [.returned, .returned, .returned] ∧
      ((Machine.run System.step {} behindStop).getD {}).shared.accepted = [1] ∧
      ¬ Delivered ((Machine.run System.step {} behindStop).getD {}).shared := by
  have hdead : ((Machine.run System.step {} behindStop).getD {}).shared.writerThread =
      some .dead := by
    decide +kernel
  have haccepted : ((Machine.run System.step {} behindStop).getD {}).shared.accepted = [1] := by
    decide +kernel
  have hsettled : ((Machine.run System.step {} behindStop).getD {}).shared.settled = [] := by
    decide +kernel
  refine ⟨by decide +kernel, haccepted, ?_⟩
  intro h
  have hlost := h hdead 1 (by rw [haccepted]; exact List.mem_cons_self)
  rw [hsettled] at hlost
  cases hlost

end Writer
