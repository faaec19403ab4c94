import Mathlib.Data.List.Perm.Basic
import AnythingTools.Jobs.System

namespace Jobs
open Calendar
set_option autoImplicit true

def updates (jobId : String) : Write → Bool
  | .insert _ => false
  | .update u _ => decide (u.jobId = jobId)

/-- The thread delivers the stored result of the job. -/
def inFlight (jobId : String) (t : Thread) : Bool :=
  match t.stage with
  | .retry _ => decide (t.jobId = jobId)
  | _ => false

theorem inFlight_iff {t : Thread} :
    inFlight jobId t = true ↔ t.jobId = jobId ∧ ∃ n, t.stage = .retry n := by
  obtain ⟨id, toolName, stage⟩ := t
  cases stage <;> simp [inFlight]

/-- The outcome of a round of delivery of the job; one that raises an exception has failed. -/
def roundOutcome (jobId : String) (s : State) : Event → List Bool
  | .thread i (.delivered success _) => if (s.threads[i]?).any (inFlight jobId) then [success] else []
  | .thread i (.raises _) => if (s.threads[i]?).any (inFlight jobId) then [false] else []
  | _ => []

/-- The writes leave the row of the job alone. -/
def Quiet (jobId : String) (q : List Write) : Prop := ∀ w ∈ q, updates jobId w = false

/-- The job after a first delivery that failed, as `_run_job` leaves it. -/
structure Waiting (jobId : String) (s : State) : Prop where
  row : ∃ job ∈ s.jobs.find jobId, job.status = .pendingCallback ∧ job.retryCount = 1
  writeQueue : Quiet jobId s.writeQueue
  rows : ∀ r ∈ s.rows, r.jobId ≠ jobId
  threads : ∀ t ∈ s.threads, t.jobId = jobId → t.stage = .closing

/-- A poll selects the job only if no round is in flight and no update of the job is pending; its
rounds end without an exception, and their updates are not lost. Nothing else, but polls, retry
threads and the writer, has to do with the job. -/
def RoundsApart (cfg : Config) (jobId : String) (s : State) : Event → Prop
  | .poll now =>
    (∃ r ∈ pollQuery (retryCutoff now cfg.retryDelay) s.jobs, r.jobId = jobId) →
      (∀ t ∈ s.threads, inFlight jobId t = false) ∧ Quiet jobId s.writeQueue
  | .thread i (.delivered _ _) => (s.threads[i]?).any (inFlight jobId) = true →
      s.writeQueue.length < cfg.queueSize
  | .thread i (.raises _) => (s.threads[i]?).any (inFlight jobId) = false
  | .reject => ∀ w ∈ s.writeQueue.head?, updates jobId w = false
  | .delete id _ => id ≠ jobId
  | .resume id _ _ => id ≠ jobId
  | .restart _ => False
  | _ => True

instance (cfg : Config) (jobId : String) (s : State) (e : Event) :
    Decidable (RoundsApart cfg jobId s e) := by
  cases e with
  | thread i a => cases a <;> unfold RoundsApart <;> infer_instance
  | _ =>
    unfold RoundsApart
    unfold Quiet
    infer_instance

/-- What is to hold of the rounds: one at a time, each failed one counted, three at most, and a
successful one kept. -/
structure Delivers (jobId : String) (s : State) (outcomes : List Bool) : Prop where
  oneInFlight : s.threads.countP (inFlight jobId) ≤ 1
  counted : ∃ job, (s.writeQueue.foldl Table.commit s.jobs).find jobId = some job ∧
    job.retryCount = 1 + outcomes.count false ∧
    (job.status = .partialResult ↔ 1 + outcomes.count false = 3) ∧
    (true ∈ outcomes → job.status = .completed)
  atMostThree : 1 + outcomes.count false ≤ 3
  kept : true ∈ outcomes → ∃ job, s.jobs.find jobId = some job ∧ job.status ≠ .partialResult ∧
    job.retryCount = 1 + outcomes.count false

/-- The row counts the failed rounds, and says how the last one ended. -/
structure Settled (job : Job) (outcomes : List Bool) : Prop where
  counted : job.retryCount = 1 + outcomes.count false
  status : job.status = .pendingCallback ∧ true ∉ outcomes ∧ job.retryCount < 3 ∨
    job.status = .completed ∧ true ∈ outcomes ∧ job.retryCount < 3 ∨
    job.status = .partialResult ∧ true ∉ outcomes ∧ job.retryCount = 3

theorem settled_retry (h : Settled job outcomes) (hs : job.status = .pendingCallback)
    (hid : job.jobId = jobId) (success : Bool) (ts : String) :
    Settled ((retryUpdate success job.retryCount jobId ts).apply job) (outcomes ++ [success]) := by
  have hopen : true ∉ outcomes ∧ job.retryCount < 3 := by
    rcases h.status with h | h | h
    · exact h.2
    · exact absurd (hs.symm.trans h.1) (by decide)
    · exact absurd (hs.symm.trans h.1) (by decide)
  obtain ⟨htrue, hlt⟩ := hopen
  have hu : job.jobId = (retryUpdate success job.retryCount jobId ts).jobId := by
    rw [(retryUpdate_jobId success job.retryCount jobId ts).1, hid]
  have hcount := h.counted
  cases success with
  | true =>
    refine ⟨?_, .inr (.inl ⟨?_, ?_, ?_⟩)⟩
    · rw [retryCount_apply hu, List.count_append]
      exact hcount
    · rw [status_apply hu]
      rfl
    · exact List.mem_append_right _ (List.mem_singleton_self _)
    · rw [retryCount_apply hu]
      exact hlt
  | false =>
    have hnot : true ∉ outcomes ++ [false] := by
      rw [List.mem_append, List.mem_singleton]
      rintro (hin | hin)
      · exact htrue hin
      · cases hin
    by_cases h3 : 3 ≤ job.retryCount + 1
    · have hupdate : retryUpdate false job.retryCount jobId ts =
          { jobId, status := some .partialResult, retryCount := some (job.retryCount + 1),
            updatedAt := ts } := by
        rw [retryUpdate, if_neg (by decide), if_pos h3]
      rw [hupdate] at hu ⊢
      refine ⟨?_, .inr (.inr ⟨?_, hnot, ?_⟩)⟩
      · rw [retryCount_apply hu, List.count_append, hcount]
        rfl
      · rw [status_apply hu]
        rfl
      · rw [retryCount_apply hu]
        change job.retryCount + 1 = 3
        omega
    · have hupdate : retryUpdate false job.retryCount jobId ts =
          { jobId, retryCount := some (job.retryCount + 1), updatedAt := ts } := by
        rw [retryUpdate, if_neg (by decide), if_neg h3]
      rw [hupdate] at hu ⊢
      refine ⟨?_, .inl ⟨?_, hnot, ?_⟩⟩
      · rw [retryCount_apply hu, List.count_append, hcount]
        rfl
      · rw [status_apply hu]
        exact hs
      · rw [retryCount_apply hu]
        change job.retryCount + 1 < 3
        omega

theorem find_commit_of_quiet (h : Table.find jobs jobId = some job)
    (hw : updates jobId w = false) : (jobs.commit w).find jobId = some job := by
  cases w with
  | insert sub => rw [find_commit_insert, h, Option.some_or]
  | update u resumes =>
    have hne : u.jobId ≠ jobId := of_decide_eq_false hw
    rw [find_commit_update, h, Option.map_some,
      apply_of_ne (by rw [(find_some h).2]; exact hne.symm)]

theorem find_drained_of_quiet (h : Table.find jobs jobId = some job) (hq : Quiet jobId q) :
    (q.foldl Table.commit jobs).find jobId = some job := by
  induction q generalizing jobs with
  | nil => exact h
  | cons w q ih =>
    exact ih (find_commit_of_quiet h (hq w List.mem_cons_self))
      fun w' hw' => hq w' (List.mem_cons_of_mem w hw')

theorem find_commit_retry (h : Table.find jobs jobId = some job) (success : Bool) (ts : String) :
    (jobs.commit (.update (retryUpdate success job.retryCount jobId ts))).find jobId =
      some ((retryUpdate success job.retryCount jobId ts).apply job) := by
  rw [find_commit_update, h, Option.map_some]

/-- The queue holds no update of the job, or the one of the last round. -/
inductive Account (jobId : String) (job : Job) (outcomes : List Bool) (q : List Write) : Prop where
  | settled (hq : Quiet jobId q) (h : Settled job outcomes)
  | written (q₁ q₂ : List Write) (success : Bool) (ts : String) (before : List Bool)
      (hq : q = q₁ ++ .update (retryUpdate success job.retryCount jobId ts) :: q₂)
      (hq₁ : Quiet jobId q₁) (hq₂ : Quiet jobId q₂) (ho : outcomes = before ++ [success])
      (h : Settled job before) (hs : job.status = .pendingCallback)

theorem updates_retryUpdate (success : Bool) (retryCount : Nat) (jobId ts : String) :
    updates jobId (.update (retryUpdate success retryCount jobId ts)) = true :=
  decide_eq_true (retryUpdate_jobId success retryCount jobId ts).1

theorem account_commit (hjob : Table.find jobs jobId = some job)
    (h : Account jobId job outcomes (w :: q)) :
    ∃ job', (jobs.commit w).find jobId = some job' ∧ Account jobId job' outcomes q ∧
      (updates jobId w = false → job' = job) := by
  cases h with
  | settled hq h =>
    refine ⟨job, find_commit_of_quiet hjob (hq w List.mem_cons_self), ?_, fun _ => rfl⟩
    exact .settled (fun w' hw' => hq w' (List.mem_cons_of_mem w hw')) h
  | written q₁ q₂ success ts before hq hq₁ hq₂ ho h hs =>
    cases q₁ with
    | nil =>
      cases hq
      refine ⟨_, find_commit_retry hjob success ts, ?_, ?_⟩
      · rw [ho]
        exact .settled hq₂ (settled_retry h hs (find_some hjob).2 success ts)
      · intro hw
        rw [updates_retryUpdate] at hw
        cases hw
    | cons w₁ q₁ =>
      cases hq
      refine ⟨job, find_commit_of_quiet hjob (hq₁ w List.mem_cons_self), ?_, fun _ => rfl⟩
      exact .written q₁ q₂ success ts before rfl
        (fun w' hw' => hq₁ w' (List.mem_cons_of_mem w hw')) hq₂ ho h hs

theorem account_lost (hw : updates jobId w = false) (h : Account jobId job outcomes (w :: q)) :
    Account jobId job outcomes q := by
  cases h with
  | settled hq h => exact .settled (fun w' hw' => hq w' (List.mem_cons_of_mem w hw')) h
  | written q₁ q₂ success ts before hq hq₁ hq₂ ho h hs =>
    cases q₁ with
    | nil =>
      cases hq
      rw [updates_retryUpdate] at hw
      cases hw
    | cons w₁ q₁ =>
      cases hq
      exact .written q₁ q₂ success ts before rfl
        (fun w' hw' => hq₁ w' (List.mem_cons_of_mem w hw')) hq₂ ho h hs

theorem Quiet.append {q ws : List Write} (hq : Quiet jobId q) (hws : Quiet jobId ws) :
    Quiet jobId (q ++ ws) := by
  intro w hw
  rcases List.mem_append.1 hw with hw | hw
  · exact hq w hw
  · exact hws w hw

theorem account_append (hws : Quiet jobId ws) (h : Account jobId job outcomes q) :
    Account jobId job outcomes (q ++ ws) := by
  cases h with
  | settled hq h => exact .settled (hq.append hws) h
  | written q₁ q₂ success ts before hq hq₁ hq₂ ho h hs =>
    refine .written q₁ (q₂ ++ ws) success ts before ?_ hq₁ (hq₂.append hws) ho h hs
    rw [hq, List.append_assoc, List.cons_append]

/-- A round that ends while no update of the job is pending. -/
theorem account_round (hq : Quiet jobId q) (h : Account jobId job outcomes q)
    (hs : job.status = .pendingCallback) (success : Bool) (ts : String) :
    Account jobId job (outcomes ++ [success])
      (q ++ [.update (retryUpdate success job.retryCount jobId ts)]) := by
  cases h with
  | settled hq h =>
    have hnil : Quiet jobId [] := fun _ hw => (List.not_mem_nil hw).elim
    exact .written q [] success ts outcomes rfl hq hnil rfl h hs
  | written q₁ q₂ success' ts' before hq' =>
    have hmem : .update (retryUpdate success' job.retryCount jobId ts') ∈ q := by
      rw [hq']
      exact List.mem_append_right _ List.mem_cons_self
    have hw := hq _ hmem
    rw [updates_retryUpdate] at hw
    cases hw

/-- The rounds of the job in a state: a poll's row that is still to be handled, a thread in flight
or a pending update, one of these at a time, and only while the job waits for its delivery. -/
structure Rounds (jobId : String) (s : State) (outcomes : List Bool) (job : Job) : Prop where
  found : s.jobs.find jobId = some job
  row : ∀ r ∈ s.rows, r.jobId = jobId →
    r.status = .pendingCallback ∧ r.retryCount = job.retryCount
  thread : ∀ t ∈ s.threads, t.jobId = jobId → t.stage = .closing ∨ t.stage = .retry job.retryCount
  token : (s.rows.map Job.jobId).count jobId + s.threads.countP (inFlight jobId) +
    s.writeQueue.countP (updates jobId) ≤ 1
  waits : 0 < (s.rows.map Job.jobId).count jobId + s.threads.countP (inFlight jobId) →
    job.status = .pendingCallback
  account : Account jobId job outcomes s.writeQueue

theorem quiet_iff (jobId : String) (q : List Write) :
    Quiet jobId q ↔ q.countP (updates jobId) = 0 := by
  rw [List.countP_eq_zero]
  simp only [Quiet, Bool.not_eq_true]

theorem count_jobId_eq_zero {rows : List Job} (h : ∀ r ∈ rows, r.jobId ≠ jobId) :
    (rows.map Job.jobId).count jobId = 0 := by
  rw [List.count_eq_zero]
  intro hmem
  obtain ⟨r, hr, hid⟩ := List.mem_map.1 hmem
  exact h r hr hid

theorem rounds_of_waiting (h : Waiting jobId s) : ∃ job, Rounds jobId s [] job := by
  obtain ⟨job, hjob, hs, hn⟩ := h.row
  have hrows := count_jobId_eq_zero h.rows
  have hthreads : s.threads.countP (inFlight jobId) = 0 := by
    rw [List.countP_eq_zero]
    intro t ht hfl
    obtain ⟨hid, n, hn⟩ := inFlight_iff.1 hfl
    rw [h.threads t ht hid] at hn
    cases hn
  have hwrites := (quiet_iff jobId s.writeQueue).1 h.writeQueue
  refine ⟨job, hjob, ?_, ?_, by omega, fun _ => hs, .settled h.writeQueue ⟨by rw [hn]; rfl, ?_⟩⟩
  · exact fun r hr hid => absurd hid (h.rows r hr)
  · exact fun t ht hid => .inl (h.threads t ht hid)
  · exact .inl ⟨hs, List.not_mem_nil, by omega⟩

theorem Rounds.enqueue {s : State} (hs : Rounds jobId s outcomes job) (hws : Quiet jobId ws) :
    Rounds jobId (s.enqueue cfg ws) outcomes job := by
  have htake : Quiet jobId (ws.take (cfg.queueSize - s.writeQueue.length)) :=
    fun w hw => hws w (List.mem_of_mem_take hw)
  refine ⟨hs.found, hs.row, hs.thread, ?_, hs.waits, account_append htake hs.account⟩
  have hzero := (quiet_iff jobId _).1 htake
  have htoken := hs.token
  rw [State.enqueue, List.countP_append]
  dsimp only
  omega

theorem status_of_account (h : Account jobId job outcomes q) :
    job.status ∈ [.pendingCallback, .completed, .partialResult] := by
  cases h with
  | settled hq h =>
    rcases h.status with h | h | h
    · rw [h.1]
      decide
    · rw [h.1]
      decide
    · rw [h.1]
      decide
  | written q₁ q₂ success ts before hq hq₁ hq₂ ho h hs =>
    rw [hs]
    decide

theorem rounds_poll {s : State} (hs : Rounds jobId s outcomes job) (hrows : s.rows = [])
    (hc : (∃ r ∈ pollQuery cutoff s.jobs, r.jobId = jobId) →
      (∀ t ∈ s.threads, inFlight jobId t = false) ∧ Quiet jobId s.writeQueue) :
    Rounds jobId { s with rows := pollQuery cutoff s.jobs } outcomes job := by
  have hselected (r : Job) (hr : r ∈ pollQuery cutoff s.jobs) (hid : r.jobId = jobId) :
      r = job ∧ job.status = .pendingCallback := by
    obtain ⟨hmem, hsel⟩ := mem_pollQuery hr
    have hfind := find_of_mem hmem
    rw [hid, hs.found] at hfind
    cases hfind
    have hboth : ∀ status ∈ [JobStatus.queued, .interrupted, .pendingCallback],
        status ∈ [JobStatus.pendingCallback, .completed, .partialResult] →
          status = .pendingCallback := by decide
    exact ⟨rfl, hboth _ (status_of_selects hsel) (status_of_account hs.account)⟩
  have hcount : ((pollQuery cutoff s.jobs).map Job.jobId).count jobId ≤ 1 :=
    List.nodup_iff_count_le_one.1 (nodup_pollQuery cutoff s.jobs) jobId
  have htoken := hs.token
  have hwaits := hs.waits
  rw [hrows, List.map_nil, List.count_nil] at htoken hwaits
  refine ⟨hs.found, ?_, hs.thread, ?_, ?_, hs.account⟩
  · intro r hr hid
    obtain ⟨rfl, hst⟩ := hselected r hr hid
    exact ⟨hst, rfl⟩
  · by_cases hmem : ∃ r ∈ pollQuery cutoff s.jobs, r.jobId = jobId
    · obtain ⟨hthreads, hquiet⟩ := hc hmem
      have h₁ : s.threads.countP (inFlight jobId) = 0 :=
        List.countP_eq_zero.2 fun t ht => by rw [hthreads t ht]; decide
      have h₂ := (quiet_iff jobId s.writeQueue).1 hquiet
      dsimp only
      omega
    · have h₁ := count_jobId_eq_zero fun r hr hid => hmem ⟨r, hr, hid⟩
      dsimp only
      omega
  · intro hpos
    by_cases hmem : ∃ r ∈ pollQuery cutoff s.jobs, r.jobId = jobId
    · obtain ⟨r, hr, hid⟩ := hmem
      exact (hselected r hr hid).2
    · have h₁ := count_jobId_eq_zero fun r hr hid => hmem ⟨r, hr, hid⟩
      exact hwaits (by dsimp only at hpos; omega)

theorem inFlight_threadFor (hst : r.status = .pendingCallback) (hid : r.jobId = jobId) :
    inFlight jobId (threadFor r) = true :=
  inFlight_iff.2 ⟨hid, r.retryCount, if_pos hst⟩

theorem inFlight_of_ne {t : Thread} (h : t.jobId ≠ jobId) : inFlight jobId t = false := by
  rw [← Bool.not_eq_true, inFlight_iff]
  exact fun hfl => h hfl.1

theorem rounds_take {s : State} (hs : Rounds jobId s outcomes job) (hrows : s.rows = r :: rows) :
    Rounds jobId { s with rows, threads := s.threads ++ [threadFor r] } outcomes job := by
  have hr : r ∈ s.rows := by rw [hrows]; exact List.mem_cons_self
  have hmem (r' : Job) (h : r' ∈ rows) : r' ∈ s.rows := by
    rw [hrows]
    exact List.mem_cons_of_mem r h
  have hsum : (rows.map Job.jobId).count jobId + (s.threads ++ [threadFor r]).countP (inFlight jobId) =
      (s.rows.map Job.jobId).count jobId + s.threads.countP (inFlight jobId) := by
    rw [hrows, List.map_cons, List.count_cons, List.countP_append, List.countP_singleton]
    by_cases hid : r.jobId = jobId
    · rw [inFlight_threadFor (hs.row r hr hid).1 hid, if_pos rfl, if_pos (by simpa using hid)]
      omega
    · have hne : inFlight jobId (threadFor r) = false := inFlight_of_ne hid
      rw [hne, if_neg (by decide), if_neg (by simpa using hid)]
      omega
  refine ⟨hs.found, fun r' hr' => hs.row r' (hmem r' hr'), ?_, ?_, ?_, hs.account⟩
  · intro t ht hid
    rcases List.mem_append.1 ht with ht | ht
    · exact hs.thread t ht hid
    · rw [List.mem_singleton.1 ht] at hid ⊢
      obtain ⟨hst, hn⟩ := hs.row r hr hid
      exact .inr (by rw [← hn]; exact if_pos hst)
  · dsimp only
    rw [hsum]
    exact hs.token
  · dsimp only
    rw [hsum]
    exact hs.waits

theorem quiet_take (hs : Rounds jobId s outcomes job) (hrows : s.rows = r :: rows) :
    Quiet jobId (if r.status = .pendingCallback then [] else
      [.update (setStatus .running r.jobId ts)]) := by
  intro w hw
  split at hw
  next => cases hw
  next hst =>
    rw [List.mem_singleton.1 hw]
    refine decide_eq_false ?_
    intro hid
    exact hst (hs.row r (by rw [hrows]; exact List.mem_cons_self) hid).1

theorem act_closing {t : Thread} (h : t.stage = .closing) : t.act errors a = none := by
  obtain ⟨jobId, toolName, stage⟩ := t
  cases h
  cases a <;> rfl

theorem act_retry {t : Thread} (h : t.stage = .retry n)
    (ha : t.act errors a = some (stage, errors', us)) :
    (∃ success ts, a = .delivered success ts ∧ stage = .closing ∧
      us = [retryUpdate success n t.jobId ts]) ∨ ∃ err, a = .raises err := by
  obtain ⟨jobId, toolName, stage'⟩ := t
  cases h
  cases a with
  | record status ts => cases ha
  | returns rawTb ends ts => cases ha
  | delivered success ts =>
    cases ha
    exact .inl ⟨success, ts, rfl, rfl, rfl⟩
  | raises err => exact .inr ⟨err, rfl⟩
  | recordError ts => cases ha

theorem countP_set_same {l : List α} {p : α → Bool} (h : l[i]? = some a) (hp : p b = p a) :
    (l.set i b).countP p = l.countP p := by
  obtain ⟨hi, rfl⟩ := List.getElem?_eq_some_iff.1 h
  have hle : (if p l[i] = true then 1 else 0) ≤ l.countP p := List.boole_getElem_le_countP hi
  rw [List.countP_set hi, hp]
  omega

theorem countP_set_of_true {l : List α} {p : α → Bool} (h : l[i]? = some a) (ha : p a = true)
    (hb : p b = false) : (l.set i b).countP p + 1 = l.countP p := by
  obtain ⟨hi, rfl⟩ := List.getElem?_eq_some_iff.1 h
  have hle : (if p l[i] = true then 1 else 0) ≤ l.countP p := List.boole_getElem_le_countP hi
  rw [if_pos ha] at hle
  rw [List.countP_set hi, ha, hb, if_pos rfl, if_neg (by decide)]
  omega

theorem countP_eraseIdx_of_false {l : List α} {p : α → Bool} (h : l[i]? = some a)
    (ha : p a = false) : (l.eraseIdx i).countP p = l.countP p := by
  obtain ⟨hi, rfl⟩ := List.getElem?_eq_some_iff.1 h
  have hperm := (List.getElem_cons_eraseIdx_perm hi).countP_eq p
  rw [← hperm, List.countP_cons, ha, if_neg (by decide), Nat.add_zero]

/-- A thread of another job. -/
theorem rounds_other {s : State} (hs : Rounds jobId s outcomes job) (ht : s.threads[i]? = some t)
    (hid : t.jobId ≠ jobId) :
    Rounds jobId { s with threads := s.threads.set i { t with stage }, systemErrors } outcomes job := by
  have hcount : (s.threads.set i { t with stage }).countP (inFlight jobId) =
      s.threads.countP (inFlight jobId) :=
    countP_set_same ht (by rw [inFlight_of_ne hid, inFlight_of_ne (by exact hid)])
  refine ⟨hs.found, hs.row, ?_, ?_, ?_, hs.account⟩
  · intro t' ht' hid'
    rcases List.mem_or_eq_of_mem_set ht' with ht' | rfl
    · exact hs.thread t' ht' hid'
    · exact absurd hid' hid
  · dsimp only
    rw [hcount]
    exact hs.token
  · dsimp only
    rw [hcount]
    exact hs.waits

/-- The round of the job ends. -/
theorem rounds_delivered {s : State} (hs : Rounds jobId s outcomes job)
    (ht : s.threads[i]? = some t) (hfl : inFlight jobId t = true)
    (hroom : s.writeQueue.length < cfg.queueSize) (success : Bool) (ts : String) :
    Rounds jobId
      (State.enqueue cfg
        { s with threads := s.threads.set i { t with stage := .closing }, systemErrors }
        [.update (retryUpdate success job.retryCount jobId ts)])
      (outcomes ++ [success]) job := by
  have hclosed : inFlight jobId { t with stage := .closing } = false := rfl
  have hcount := countP_set_of_true ht hfl hclosed
  have htoken := hs.token
  have hquiet : Quiet jobId s.writeQueue := (quiet_iff jobId _).2 (by omega)
  have hst : job.status = .pendingCallback := hs.waits (by omega)
  have htake : [Write.update (retryUpdate success job.retryCount jobId ts)].take
      (cfg.queueSize - s.writeQueue.length) =
        [.update (retryUpdate success job.retryCount jobId ts)] := by
    rw [List.take_of_length_le]
    rw [List.length_singleton]
    omega
  rw [State.enqueue]
  dsimp only
  rw [htake]
  refine ⟨hs.found, hs.row, ?_, ?_, fun _ => hst, account_round hquiet hs.account hst success ts⟩
  · intro t' ht' hid'
    rcases List.mem_or_eq_of_mem_set ht' with ht' | rfl
    · exact hs.thread t' ht' hid'
    · exact .inl rfl
  · dsimp only
    rw [List.countP_append, List.countP_singleton, updates_retryUpdate, if_pos rfl]
    omega

theorem rounds_finish {s : State} (hs : Rounds jobId s outcomes job) (ht : s.threads[i]? = some t)
    (hst : t.stage = .closing) :
    Rounds jobId { s with threads := s.threads.eraseIdx i } outcomes job := by
  have hclosed : inFlight jobId t = false := by
    rw [inFlight, hst]
  have hcount := countP_eraseIdx_of_false ht hclosed
  refine ⟨hs.found, hs.row, ?_, ?_, ?_, hs.account⟩
  · exact fun t' ht' => hs.thread t' (List.mem_of_mem_eraseIdx ht')
  · dsimp only
    rw [hcount]
    exact hs.token
  · dsimp only
    rw [hcount]
    exact hs.waits

theorem rounds_commit {s : State} (hs : Rounds jobId s outcomes job) (hq : s.writeQueue = w :: rest) :
    ∃ job', Rounds jobId { s with jobs := s.jobs.commit w, writeQueue := rest } outcomes job' := by
  have haccount := hs.account
  rw [hq] at haccount
  obtain ⟨job', hfind, haccount', hsame⟩ := account_commit hs.found haccount
  have htoken := hs.token
  rw [hq, List.countP_cons] at htoken
  refine ⟨job', ?_⟩
  by_cases hw : updates jobId w = true
  · rw [if_pos hw] at htoken
    have hrow (r : Job) (hr : r ∈ s.rows) : r.jobId ≠ jobId := by
      intro hid
      have hpos : 0 < (s.rows.map Job.jobId).count jobId :=
        List.count_pos_iff.2 (List.mem_map.2 ⟨r, hr, hid⟩)
      omega
    have hfl (t : Thread) (ht : t ∈ s.threads) : inFlight jobId t = false := by
      have hzero : s.threads.countP (inFlight jobId) = 0 := by omega
      exact Bool.eq_false_iff.2 (List.countP_eq_zero.1 hzero t ht)
    refine ⟨hfind, ?_, ?_, ?_, ?_, haccount'⟩
    · exact fun r hr hid => absurd hid (hrow r hr)
    · intro t ht hid
      rcases hs.thread t ht hid with hst | hst
      · exact .inl hst
      · have htrue : inFlight jobId t = true := inFlight_iff.2 ⟨hid, _, hst⟩
        rw [hfl t ht] at htrue
        cases htrue
    · dsimp only
      omega
    · intro hpos
      dsimp only at hpos
      omega
  · have hfalse : updates jobId w = false := Bool.eq_false_iff.2 hw
    rw [hsame hfalse] at hfind haccount' ⊢
    rw [if_neg hw] at htoken
    exact ⟨hfind, hs.row, hs.thread, htoken, hs.waits, haccount'⟩

theorem rounds_reject {s : State} (hs : Rounds jobId s outcomes job) (hq : s.writeQueue = w :: rest)
    (hw : updates jobId w = false) : Rounds jobId { s with writeQueue := rest } outcomes job := by
  have haccount := hs.account
  have htoken := hs.token
  rw [hq] at haccount
  rw [hq, List.countP_cons, hw, if_neg (by decide)] at htoken
  exact ⟨hs.found, hs.row, hs.thread, htoken, hs.waits, account_lost hw haccount⟩

theorem roundOutcome_of_false {s : State} (h : (s.threads[i]?).any (inFlight jobId) = false)
    (a : Action) : roundOutcome jobId s (.thread i a) = [] := by
  cases a with
  | delivered success ts => rw [roundOutcome, h, if_neg (by decide)]
  | raises err => rw [roundOutcome, h, if_neg (by decide)]
  | _ => rfl

theorem rounds_thread (hc : RoundsApart cfg jobId s (.thread i a))
    (h : act cfg s (.thread i a) = some (s₁, ws)) (hs : Rounds jobId s outcomes job) :
    Rounds jobId (s₁.enqueue cfg ws) (outcomes ++ roundOutcome jobId s (.thread i a)) job := by
  obtain ⟨t, stage, errors, us, ht, ha, rfl, rfl⟩ := act_thread h
  by_cases hid : t.jobId = jobId
  · subst hid
    rcases hs.thread t (List.mem_of_getElem? ht) rfl with hst | hst
    · rw [act_closing hst] at ha
      cases ha
    · have hfl : inFlight t.jobId t = true := inFlight_iff.2 ⟨rfl, _, hst⟩
      have hany : (s.threads[i]?).any (inFlight t.jobId) = true := by
        rw [ht]
        exact hfl
      rcases act_retry hst ha with ⟨success, ts, rfl, rfl, rfl⟩ | ⟨err, rfl⟩
      · rw [roundOutcome, if_pos hany]
        exact rounds_delivered hs ht hfl (hc hany) success ts
      · have hnone : (s.threads[i]?).any (inFlight t.jobId) = false := hc
        rw [hany] at hnone
        cases hnone
  · have hany : (s.threads[i]?).any (inFlight jobId) = false := by
      rw [ht]
      exact inFlight_of_ne hid
    rw [roundOutcome_of_false hany, List.append_nil]
    refine (rounds_other hs ht hid).enqueue ?_
    intro w hw
    obtain ⟨u, hu, rfl⟩ := List.mem_map.1 hw
    refine decide_eq_false ?_
    rw [(updates_act ha u hu).1]
    exact hid

theorem quiet_singleton (h : updates jobId w = false) : Quiet jobId [w] := by
  intro w' hw'
  rw [List.mem_singleton.1 hw']
  exact h

theorem quiet_nil (jobId : String) : Quiet jobId [] := fun _ hw => (List.not_mem_nil hw).elim

/-- What a step does to the rounds of the job. -/
theorem rounds_step (hc : RoundsApart cfg jobId s e) (h : step cfg s e = some s')
    (hs : Rounds jobId s outcomes job) :
    ∃ job', Rounds jobId s' (outcomes ++ roundOutcome jobId s e) job' := by
  obtain ⟨s₁, ws, hact, rfl⟩ := step_some h
  cases e with
  | submit sub =>
    cases hact
    change ∃ job', Rounds jobId _ (outcomes ++ []) job'
    rw [List.append_nil]
    have hsame : Rounds jobId { s with managerStarted := true } outcomes job :=
      ⟨hs.found, hs.row, hs.thread, hs.token, hs.waits, hs.account⟩
    exact ⟨job, hsame.enqueue (quiet_singleton rfl)⟩
  | delete id ts =>
    cases hact
    change ∃ job', Rounds jobId _ (outcomes ++ []) job'
    rw [List.append_nil]
    exact ⟨job, hs.enqueue (quiet_singleton (decide_eq_false hc))⟩
  | resume id report ts =>
    obtain ⟨⟨started, rfl⟩, hws⟩ := act_resume hact
    change ∃ job', Rounds jobId _ (outcomes ++ []) job'
    rw [List.append_nil]
    have hsame : Rounds jobId { s with managerStarted := started } outcomes job :=
      ⟨hs.found, hs.row, hs.thread, hs.token, hs.waits, hs.account⟩
    refine ⟨job, hsame.enqueue ?_⟩
    rcases hws with ⟨-, rfl⟩ | rfl | rfl
    · exact quiet_singleton (decide_eq_false hc)
    · exact quiet_nil jobId
    · exact quiet_singleton (decide_eq_false hc)
  | poll now =>
    obtain ⟨hrows, rfl, rfl⟩ := act_poll hact
    change ∃ job', Rounds jobId _ (outcomes ++ []) job'
    rw [List.append_nil]
    exact ⟨job, (rounds_poll hs hrows hc).enqueue (quiet_nil jobId)⟩
  | take ts =>
    obtain ⟨r, rows, hrows, rfl, rfl⟩ := act_take hact
    change ∃ job', Rounds jobId _ (outcomes ++ []) job'
    rw [List.append_nil]
    exact ⟨job, (rounds_take hs hrows).enqueue (quiet_take hs hrows)⟩
  | thread i a => exact ⟨job, rounds_thread hc hact hs⟩
  | finish i =>
    obtain ⟨t, ht, hst, rfl, rfl⟩ := act_finish hact
    change ∃ job', Rounds jobId _ (outcomes ++ []) job'
    rw [List.append_nil]
    exact ⟨job, (rounds_finish hs ht hst).enqueue (quiet_nil jobId)⟩
  | commit =>
    obtain ⟨w, rest, hq, rfl, rfl⟩ := act_commit hact
    change ∃ job', Rounds jobId _ (outcomes ++ []) job'
    rw [List.append_nil]
    obtain ⟨job', hs'⟩ := rounds_commit hs hq
    exact ⟨job', hs'.enqueue (quiet_nil jobId)⟩
  | reject =>
    obtain ⟨w, rest, hq, rfl, rfl⟩ := act_reject hact
    change ∃ job', Rounds jobId _ (outcomes ++ []) job'
    rw [List.append_nil]
    have hw : updates jobId w = false := hc w (by rw [hq, List.head?_cons]; rfl)
    exact ⟨job, (rounds_reject hs hq hw).enqueue (quiet_nil jobId)⟩
  | restart now => exact hc.elim

theorem delivers_settled (h : Settled job outcomes) :
    job.retryCount = 1 + outcomes.count false ∧
    (job.status = .partialResult ↔ 1 + outcomes.count false = 3) ∧
    (true ∈ outcomes → job.status = .completed) ∧ 1 + outcomes.count false ≤ 3 := by
  have hcount := h.counted
  rcases h.status with ⟨hs, hn, hlt⟩ | ⟨hs, hn, hlt⟩ | ⟨hs, hn, heq⟩
  · refine ⟨hcount, ?_, fun hin => absurd hin hn, by omega⟩
    rw [hs]
    exact ⟨nofun, fun h3 => by omega⟩
  · refine ⟨hcount, ?_, fun _ => hs, by omega⟩
    rw [hs]
    exact ⟨nofun, fun h3 => by omega⟩
  · refine ⟨hcount, ?_, fun hin => absurd hin hn, by omega⟩
    rw [hs]
    exact ⟨fun _ => by omega, fun _ => rfl⟩

theorem delivers_of_rounds (hs : Rounds jobId s outcomes job) : Delivers jobId s outcomes := by
  have htoken := hs.token
  have hflights : s.threads.countP (inFlight jobId) ≤ 1 := by omega
  rcases hs.account with ⟨hq, h⟩ | ⟨q₁, q₂, success, ts, before, hq, hq₁, hq₂, ho, h, hst⟩
  · obtain ⟨hcount, hpartial, hcompleted, hle⟩ := delivers_settled h
    refine ⟨hflights, ⟨job, find_drained_of_quiet hs.found hq, hcount, hpartial, hcompleted⟩, hle, ?_⟩
    intro hin
    exact ⟨job, hs.found, by rw [hcompleted hin]; decide, hcount⟩
  · have hid : job.jobId = jobId := (find_some hs.found).2
    have hafter := settled_retry h hst hid success ts
    rw [← ho] at hafter
    obtain ⟨hcount, hpartial, hcompleted, hle⟩ := delivers_settled hafter
    refine ⟨hflights, ⟨_, ?_, hcount, hpartial, hcompleted⟩, hle, ?_⟩
    · rw [hq, List.foldl_append, List.foldl_cons]
      exact find_drained_of_quiet
        (find_commit_retry (find_drained_of_quiet hs.found hq₁) success ts) hq₂
    · intro hin
      refine ⟨job, hs.found, by rw [hst]; decide, ?_⟩
      -- The job still waited before its last round, so it is that one that succeeded.
      have hbefore : true ∉ before := by
        intro hin'
        rw [(delivers_settled h).2.2.1 hin'] at hst
        cases hst
      rw [ho] at hin ⊢
      have hlast : success = true := by
        rcases List.mem_append.1 hin with hin | hin
        · exact absurd hin hbefore
        · exact (List.mem_singleton.1 hin).symm
      rw [hlast, List.count_append]
      exact h.counted

/-- The rounds of the job, with their outcomes so far. -/
def InRounds (jobId : String) (p : State × List Bool) : Prop := ∃ job, Rounds jobId p.1 p.2 job

theorem inRounds_step (hc : RoundsApart cfg jobId p.1 e)
    (h : Machine.traced (step cfg) (roundOutcome jobId) p e = some p') (hp : InRounds jobId p) :
    InRounds jobId p' := by
  obtain ⟨s, outcomes⟩ := p
  obtain ⟨s', outcomes'⟩ := p'
  obtain ⟨job, hs⟩ := hp
  obtain ⟨hstep, rfl⟩ := Machine.traced_some h
  exact rounds_step hc hstep hs

/-- From a first failed delivery on, as long as polls leave the job alone while a round of it is in
flight or its update pending, and no update is lost, the rounds are one at a time and counted, at
most three fail, and a successful one is kept. -/
theorem rounds_deliver (cfg : Config) (jobId : String) (hs : Waiting jobId s₀)
    (hm : Machine.Meets (step cfg) (RoundsApart cfg jobId) s₀ es)
    (hr : Machine.run (Machine.traced (step cfg) (roundOutcome jobId)) (s₀, []) es = some p) :
    Delivers jobId p.1 p.2 := by
  have hinit : InRounds jobId (s₀, []) := rounds_of_waiting hs
  have hend : InRounds jobId p :=
    Machine.run_invariant (fun _ _ _ hc h hp => inRounds_step hc h hp)
      (Machine.meets_traced _ hm []) hr hinit
  obtain ⟨job, hrounds⟩ := hend
  exact delivers_of_rounds hrounds

theorem waiting_of_idle
    (h : (∃ job ∈ s.jobs.find jobId, job.status = .pendingCallback ∧ job.retryCount = 1) ∧
      s.writeQueue = [] ∧ s.rows = [] ∧ s.threads = []) : Waiting jobId s := by
  obtain ⟨hrow, hq, hrows, hthreads⟩ := h
  refine ⟨hrow, ?_, ?_, ?_⟩
  · rw [hq]
    exact quiet_nil jobId
  · rw [hrows]
    exact fun _ hr => (List.not_mem_nil hr).elim
  · rw [hthreads]
    exact fun _ ht => (List.not_mem_nil ht).elim

/-- A run whose result could not be delivered. -/
def undelivered : List Event :=
  taken ++ [.commit, .thread 0 (.returns "" (some (.ok "12 articles")) "2024-05-01T10:00:07+00:00"),
    .thread 0 (.delivered false "2024-05-01T10:00:08+00:00"), .commit, .finish 0]

/-- The system after it. -/
def afterUndelivered : State := (Machine.run (step {}) State.init undelivered).getD State.init

theorem waiting_afterUndelivered : Waiting "01HX" afterUndelivered :=
  waiting_of_idle (by decide +kernel)

/-- The second of May 2024, so many seconds after midnight. -/
def may2 (seconds : Nat) (h : seconds < 3600) : Instant where
  micros := (739007 * 86400 + seconds) * 1000000
  valid := by
    have hdays := days_eq
    omega

/-- Three polls while the round of the first is in flight; then the three rounds fail. -/
def threePolls : List Event :=
  [.poll (may2 31 (by decide)), .take "2024-05-02T00:00:31+00:00",
    .poll (may2 32 (by decide)), .take "2024-05-02T00:00:32+00:00",
    .poll (may2 33 (by decide)), .take "2024-05-02T00:00:33+00:00",
    .thread 0 (.delivered false "2024-05-02T00:01:00+00:00"),
    .thread 1 (.delivered false "2024-05-02T00:01:01+00:00"),
    .thread 2 (.delivered false "2024-05-02T00:01:02+00:00"), .commit, .commit, .commit]

/-- Four rounds have failed then, and `retry_count` is 2. -/
theorem four_rounds_failed :
    Waiting "01HX" afterUndelivered ∧
      ∃ p, Machine.run (Machine.traced (step {}) (roundOutcome "01HX")) (afterUndelivered, [])
          threePolls = some p ∧
        ((p.1.jobs.find "01HX").map Job.retryCount = some 2 ∧ ¬ Delivers "01HX" p.1 p.2) := by
  have hrun : (Machine.run (Machine.traced (step {}) (roundOutcome "01HX")) (afterUndelivered, [])
      threePolls).map (fun p => ((p.1.jobs.find "01HX").map Job.retryCount, p.2)) =
        some (some 2, [false, false, false]) := by decide +kernel
  obtain ⟨p, hp, hend⟩ := Option.map_eq_some_iff.1 hrun
  rw [Prod.mk.injEq] at hend
  refine ⟨waiting_afterUndelivered, p, hp, hend.1, ?_⟩
  intro h
  have hle := h.atMostThree
  rw [hend.2] at hle
  exact absurd hle (by decide)

/-- A poll, a round that is delivered, and a second poll once that is committed. -/
def onePoll : List Event :=
  [.poll (may2 31 (by decide)), .take "2024-05-02T00:00:31+00:00",
    .thread 0 (.delivered true "2024-05-02T00:01:00+00:00"), .commit, .finish 0,
    .poll (may2 62 (by decide))]

theorem rounds_deliver_once :
    let p := (Machine.run (Machine.traced (step {}) (roundOutcome "01HX")) (afterUndelivered, [])
      onePoll).getD (afterUndelivered, [])
    Delivers "01HX" p.1 p.2 :=
  rounds_deliver {} "01HX" waiting_afterUndelivered (by decide +kernel)
    (Machine.run_getD (by decide +kernel) (afterUndelivered, []))

end Jobs
