import AnythingTools.Publisher.Progress
import AnythingTools.Publisher.Rules

namespace Publisher
open JobItems
set_option autoImplicit true

/-- A message that has arrived, with the job that sent it. -/
structure Sent where
  jobId : Option String
  channel : Channel
  ulid : String
  index : Nat
  text : String
deriving DecidableEq

def Effect.sent? (jobId : Option String) : Effect → Option Sent
  | .send channel ulid index text .ok => some { jobId, channel, ulid, index, text }
  | _ => none

def sentBy (jobId : Option String) (es : List Effect) : List Sent :=
  es.filterMap (Effect.sent? jobId)

/-- What the writer leaves when it has committed all that a run has queued. -/
def drained (db : Db) (es : List Effect) : Db := view db es (queued es).length

/-- The database, and the messages that have arrived so far. -/
structure World where
  db : Db
  log : List Sent := []

/-- A run of the publisher. Of one that crashes there are the first effects only. -/
structure Execution where
  env : Env
  args : Args := {}
  crash : Option Nat := none

def Execution.effects (cfg : Config) (db : Db) (x : Execution) : List Effect :=
  let es := (run cfg x.env x.args db).1
  match x.crash with
  | some n => es.take n
  | none => es

/-- A run, after which the writer commits what is queued. -/
def World.step (cfg : Config) (w : World) (x : Execution) : Option World :=
  let es := x.effects cfg w.db
  some { db := drained w.db es, log := w.log ++ sentBy x.env.jobId es }

/-- The jobs of the runs. -/
def jobsOf (xs : List Execution) : List String := xs.flatMap fun x => x.env.jobId.toList

/-- Nothing has been sent yet, and the jobs of the runs have no progress. -/
structure Unsent (xs : List Execution) (w : World) : Prop where
  log : w.log = []
  counters : ∀ x ∈ xs, ∀ jobId ∈ x.env.jobId, ∀ channel, ∀ d ∈ w.db.batch.details,
    chunksSent w.db.items jobId channel d.ulid = 0
  kept : TranslationsKept w.db.items

theorem mem_jobsOf (hx : x ∈ xs) (hj : jobId ∈ x.env.jobId) : jobId ∈ jobsOf xs :=
  List.mem_flatMap.2 ⟨x, hx, Option.mem_toList.2 hj⟩

theorem Unsent.counter (h : Unsent xs w) (hj : jobId ∈ jobsOf xs) (channel : Channel)
    (hd : d ∈ w.db.batch.details) : chunksSent w.db.items jobId channel d.ulid = 0 := by
  obtain ⟨x, hx, hj⟩ := List.mem_flatMap.1 hj
  exact h.counters x hx jobId (Option.mem_toList.1 hj) channel d hd

theorem queued_append (es es' : List Effect) : queued (es ++ es') = queued es ++ queued es' :=
  List.filterMap_append

theorem sentBy_append (jobId : Option String) (es es' : List Effect) :
    sentBy jobId (es ++ es') = sentBy jobId es ++ sentBy jobId es' := List.filterMap_append

@[simp] theorem queued_queue (es : List Effect) (w : Write) :
    queued (es ++ [.queue w]) = queued es ++ [w] := queued_append es [.queue w]

@[simp] theorem sentBy_queue (jobId : Option String) (es : List Effect) (w : Write) :
    sentBy jobId (es ++ [.queue w]) = sentBy jobId es := by
  rw [sentBy_append]
  exact List.append_nil _

theorem locked_silent (es : List Effect) (h : e.isLock = false) :
    locked (es ++ [e]) = locked es := by
  rw [locked, locked, List.any_append, List.any_cons, h]
  exact Bool.or_false _

theorem queued_silent (es : List Effect) (h : e.write? = none) : queued (es ++ [e]) = queued es := by
  rw [queued_append, queued, queued, List.filterMap_cons_none h]
  exact List.append_nil _

/-- An effect that is no statement and no lock is not seen in the database. -/
theorem view_silent (db : Db) (es : List Effect) (hw : e.write? = none) (hl : e.isLock = false)
    (n : Nat) : view db (es ++ [e]) n = view db es n := by
  rw [view, view, queued_silent es hw, locked_silent es hl]

theorem drained_silent (db : Db) (es : List Effect) (hw : e.write? = none)
    (hl : e.isLock = false) : drained db (es ++ [e]) = drained db es := by
  rw [drained, queued_silent es hw, view_silent db es hw hl, drained]

/-- The statement that is queued last is the last one to be seen. -/
theorem view_queue (db : Db) (es : List Effect) (w : Write) (n : Nat) :
    view db (es ++ [.queue w]) n = view db es n ∨
      view db (es ++ [.queue w]) n = (drained db es).commit w := by
  by_cases hn : n ≤ (queued es).length
  · left
    rw [view, view, queued_queue, locked_silent es rfl, List.take_append_of_le_length hn]
  · right
    rw [view, queued_queue, locked_silent es rfl, List.take_of_length_le, commitAll_append,
      drained, view, List.take_length, commitAll_cons, commitAll_nil]
    rw [List.length_append, List.length_singleton]
    omega

@[simp] theorem drained_queue (db : Db) (es : List Effect) (w : Write) :
    drained db (es ++ [.queue w]) = (drained db es).commit w := by
  rw [drained, view, queued_queue, locked_silent es rfl, List.take_length, commitAll_append,
    drained, view, List.take_length, commitAll_cons, commitAll_nil]

theorem items_commit_congr {db db' : Db} (h : db.items = db'.items) (w : Write) :
    (db.commit w).items = (db'.commit w).items := by
  cases w with
  | item w =>
    change commit db.items w = commit db'.items w
    rw [h]
  | _ => exact h

theorem items_commitAll_congr {db db' : Db} (h : db.items = db'.items) (ws : List Write) :
    (db.commitAll ws).items = (db'.commitAll ws).items := by
  induction ws generalizing db db' with
  | nil => exact h
  | cons w ws ih => exact ih (items_commit_congr h w)

/-- The lock is not seen in the items. -/
theorem items_view (db : Db) (es : List Effect) (n : Nat) :
    (view db es n).items = (db.commitAll ((queued es).take n)).items := by
  rw [view]
  apply items_commitAll_congr
  split
  next => rfl
  next => rfl

/-- What a crash leaves of the items is what a reader could have seen. -/
theorem items_of_prefix (db : Db) (h : es' <+: es) :
    (drained db es').items = (view db es (queued es').length).items := by
  have hq : (queued es).take (queued es').length = queued es' :=
    (List.prefix_iff_eq_take.1 (h.filterMap Effect.write?)).symm
  rw [drained, items_view, items_view, hq, List.take_length]

/-- What holds at every read of a run so far. -/
def Throughout (P : Db → List Sent → Prop) (jobId : Option String) (w : World)
    (es : List Effect) : Prop :=
  ∀ n, P (view w.db es n) (w.log ++ sentBy jobId es)

section Throughout
variable {P : Db → List Sent → Prop} {w : World}

theorem Throughout.drained (h : Throughout P jobId w es) :
    P (drained w.db es) (w.log ++ sentBy jobId es) := h _

/-- A statement that keeps it keeps it at every read. -/
theorem throughout_queue (h : Throughout P jobId w es)
    (hw : P (Publisher.drained w.db es) (w.log ++ sentBy jobId es) →
      P ((Publisher.drained w.db es).commit write) (w.log ++ sentBy jobId es)) :
    Throughout P jobId w (es ++ [.queue write]) := by
  intro n
  rw [sentBy_queue]
  rcases view_queue w.db es write n with he | he
  · rw [he]
    exact h n
  · rw [he]
    exact hw h.drained

theorem throughout_send (h : Throughout P jobId w es)
    (hw : ∀ db, P db (w.log ++ sentBy jobId es) →
      P db (w.log ++ sentBy jobId (es ++ [.send channel ulid n text outcome]))) :
    Throughout P jobId w (es ++ [.send channel ulid n text outcome]) := by
  intro k
  rw [view_silent w.db es rfl rfl]
  exact hw _ (h k)

/-- Statements that keep it wherever they are committed. -/
theorem throughout_append (h : Throughout P jobId w es)
    (hnew : ∀ e ∈ new, ∃ write, e = .queue write ∧ ∀ db log, P db log → P (db.commit write) log) :
    Throughout P jobId w (es ++ new) := by
  induction new generalizing es with
  | nil => rwa [List.append_nil]
  | cons e new ih =>
    obtain ⟨write, he, hw⟩ := hnew e List.mem_cons_self
    have hfirst : Throughout P jobId w (es ++ [e]) := by
      rw [he]
      exact throughout_queue h (hw _ _)
    rw [List.append_cons]
    exact ih hfirst fun e' he' => hnew e' (List.mem_cons_of_mem e he')

end Throughout

/-! ### What has arrived -/

def Arrived (log : List Sent) (channel : Channel) (ulid : String) (k : Nat) (text : String) :
    Prop :=
  ∃ s ∈ log, s.channel = channel ∧ s.ulid = ulid ∧ s.index = k ∧ s.text = text

/-- The first messages of an article have arrived. -/
structure FirstSent (cfg : Config) (channel : Channel) (a : Article) (t : Translation) (n : Nat)
    (log : List Sent) : Prop where
  le : n ≤ (messages cfg channel a t).length
  sent : ∀ k text, k < n → (messages cfg channel a t)[k]? = some text →
    Arrived log channel a.ulid k text

/-- The link and all chunks of an article have arrived. -/
def Delivered (cfg : Config) (channel : Channel) (a : Article) (log : List Sent) : Prop :=
  ∃ t, FirstSent cfg channel a t (messages cfg channel a t).length log

theorem Arrived.mono (h : Arrived log channel ulid k text) (hs : log ⊆ log') :
    Arrived log' channel ulid k text := by
  obtain ⟨s, hmem, hs'⟩ := h
  exact ⟨s, hs hmem, hs'⟩

theorem FirstSent.mono (h : FirstSent cfg channel a t n log) (hs : log ⊆ log') :
    FirstSent cfg channel a t n log' where
  le := h.le
  sent k text hk ht := (h.sent k text hk ht).mono hs

theorem Delivered.mono (h : Delivered cfg channel a log) (hs : log ⊆ log') :
    Delivered cfg channel a log' := by
  obtain ⟨t, ht⟩ := h
  exact ⟨t, ht.mono hs⟩

theorem firstSent_zero (cfg : Config) (channel : Channel) (a : Article) (t : Translation)
    (log : List Sent) : FirstSent cfg channel a t 0 log where
  le := Nat.zero_le _
  sent _ _ hk := absurd hk (Nat.not_lt_zero _)

/-- The next message arrives. -/
theorem FirstSent.next (h : FirstSent cfg channel a t n log)
    (ht : (messages cfg channel a t)[n]? = some text) (jobId : Option String) :
    FirstSent cfg channel a t (n + 1)
      (log ++ sentBy jobId [.send channel a.ulid n text .ok]) where
  le := (List.getElem?_eq_some_iff.1 ht).1
  sent k text' hk ht' := by
    rcases Nat.lt_succ_iff_lt_or_eq.1 hk with hk | hk
    · exact (h.sent k text' hk ht').mono (List.subset_append_left _ _)
    · rw [hk, ht] at ht'
      refine ⟨_, List.mem_append_right _ List.mem_cons_self, rfl, rfl, hk.symm, ?_⟩
      exact Option.some.inj ht'

/-- An article that has been delivered has at least its link in the log. -/
theorem Delivered.mem (h : Delivered cfg channel a log) :
    ∃ s ∈ log, s.channel = channel ∧ s.ulid = a.ulid := by
  obtain ⟨t, ht⟩ := h
  obtain ⟨s, hmem, hc, hu, _⟩ := ht.sent 0 (link a) (Nat.succ_pos _) rfl
  exact ⟨s, hmem, hc, hu⟩

/-- A run whose statements are committed as they are queued. -/
def promptRun (jobId : String) (telegram : Channel → String → Nat → Outcome) : Execution where
  env := { plainEnv jobId with telegram, lag := fun _ => 100 }

def World.fresh : World := { db := oneArticle .pending .pending }

theorem unsent_fresh (xs : List Execution) : Unsent xs World.fresh where
  log := rfl
  counters _ _ _ _ _ _ _ := rfl
  kept _ hi := absurd hi List.not_mem_nil

end Publisher
