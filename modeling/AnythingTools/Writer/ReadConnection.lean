import AnythingTools.Machine
import Mathlib.Data.List.Infix
import Mathlib.Tactic.SplitIfs

namespace ReadConnection
set_option autoImplicit true

/-! ### The writer and the readers -/

/-- A connection. Its unfinished statements hold it at the commits that the first of them saw. -/
structure Conn where
  snapshot : Option Nat := none
deriving DecidableEq, Repr

/-- What a thread has of `get_read_connection`. A call in progress has read the generation. -/
structure Reader where
  conn : Option Conn := none
  lastSeen : Int := -1
  calling : Option Nat := none
deriving DecidableEq, Repr

/-- The writer after it commits a task: the number of the commit, and whether it has a receipt. -/
inductive Phase where
  | idle
  | committed (n : Nat) (tracked : Bool)
  | counted (n : Nat) (tracked : Bool)
deriving DecidableEq, Repr

/-- `counted` has the commits that the generation counts. -/
structure State where
  commits : Nat := 0
  phase : Phase := .idle
  counted : List Nat := []
  resolved : List Nat := []
  readers : Nat → Reader := fun _ => {}

def State.generation (s : State) : Nat := s.counted.length

inductive Act where
  | call
  | ret
  | fail
  | read
  | endRead
  | close
deriving DecidableEq, Repr

inductive Event where
  | commit (tracked : Bool)
  | count
  | resolve
  -- a repaired table, or another process
  | otherCommit
  | reader (t : Nat) (a : Act)
deriving DecidableEq, Repr

/-- The connection that the call goes on with, unless it is older than the generation. -/
def Reader.kept (r : Reader) (gen : Nat) : Option Conn :=
  if r.lastSeen < gen then none else r.conn

def Reader.act (gen commits : Nat) (r : Reader) : Act → Option Reader
  | .call => if r.calling = none then some { r with calling := some gen } else none
  | .ret => r.calling.map fun gen =>
      { conn := some ((r.kept gen).getD {}), lastSeen := gen, calling := none }
  -- no connection can be opened
  | .fail => r.calling.bind fun gen =>
      if r.kept gen = none then some { r with conn := none, calling := none } else none
  | .read =>
    if r.calling = none then
      r.conn.map fun c => { r with conn := some { snapshot := some (c.snapshot.getD commits) } }
    else none
  | .endRead => r.conn.map fun _ => { r with conn := some {} }
  | .close => if r.calling = none then some { r with conn := none } else none

def step (s : State) : Event → Option State
  | .commit tracked =>
    match s.phase with
    | .idle => some { s with commits := s.commits + 1, phase := .committed (s.commits + 1) tracked }
    | _ => none
  | .count =>
    match s.phase with
    | .committed n tracked => some { s with phase := .counted n tracked, counted := s.counted ++ [n] }
    | _ => none
  | .resolve =>
    match s.phase with
    | .counted n tracked =>
      some { s with phase := .idle, resolved := if tracked then n :: s.resolved else s.resolved }
    | _ => none
  | .otherCommit => some { s with commits := s.commits + 1 }
  | .reader t a =>
    ((s.readers t).act s.generation s.commits a).map fun r =>
      { s with readers := fun u => if u = t then r else s.readers u }

/-- The commits that a statement on the connection of the thread sees. -/
def State.sees (s : State) (t : Nat) : Option Nat :=
  (s.readers t).conn.map fun c => c.snapshot.getD s.commits

/-! ### What the readers have seen -/

/-- A connection that is held at some commits sees what the generation counted when its thread last
asked. -/
structure Reader.Sound (counted : List Nat) (r : Reader) : Prop where
  lastSeen_le : r.lastSeen ≤ counted.length
  calling_le : ∀ gen, r.calling = some gen → r.lastSeen ≤ gen ∧ gen ≤ counted.length
  held : ∀ c k, r.conn = some c → c.snapshot = some k → ∀ n ∈ counted.take r.lastSeen.toNat, n ≤ k

structure Sound (s : State) : Prop where
  counted_le : ∀ n ∈ s.counted, n ≤ s.commits
  committed_le : ∀ n tracked, s.phase = .committed n tracked → n ≤ s.commits
  counted_mem : ∀ n tracked, s.phase = .counted n tracked → n ∈ s.counted
  resolved_mem : ∀ n ∈ s.resolved, n ∈ s.counted
  readers : ∀ t, (s.readers t).Sound s.counted

theorem sound_initial : Sound {} := by
  refine ⟨?_, ?_, ?_, ?_, fun t => ⟨?_, ?_, ?_⟩⟩
  · exact fun n hn => absurd hn List.not_mem_nil
  · exact fun n tracked h => by cases h
  · exact fun n tracked h => by cases h
  · exact fun n hn => absurd hn List.not_mem_nil
  · exact Int.negSucc_le_zero 0
  · exact fun gen h => by cases h
  · exact fun c k h => by cases h

theorem Reader.Sound.append (h : Reader.Sound counted r) (n : Nat) : r.Sound (counted ++ [n]) := by
  obtain ⟨hseen, hcalling, hheld⟩ := h
  rw [← Int.toNat_le] at hseen
  refine ⟨?_, ?_, ?_⟩
  · rw [List.length_append]
    omega
  · intro gen hgen
    rw [List.length_append]
    have hle := hcalling gen hgen
    omega
  · rw [List.take_append_of_le_length hseen]
    exact hheld

/-- What a reader does leaves it sound. -/
theorem Reader.Sound.act (h : Reader.Sound counted r) (hcounted : ∀ n ∈ counted, n ≤ commits)
    (ha : r.act counted.length commits a = some r') : r'.Sound counted := by
  obtain ⟨hseen, hcalling, hheld⟩ := h
  cases a with
  | call =>
    rw [Reader.act] at ha
    split_ifs at ha
    cases ha
    refine ⟨hseen, ?_, hheld⟩
    intro gen hgen
    cases hgen
    exact ⟨hseen, Nat.le_refl _⟩
  | ret =>
    rw [Reader.act, Option.map_eq_some_iff] at ha
    obtain ⟨gen, hgen, rfl⟩ := ha
    obtain ⟨hle, hle'⟩ := hcalling gen hgen
    refine ⟨Int.ofNat_le.2 hle', (fun g hg => by cases hg), ?_⟩
    intro c k hc hk n hn
    cases hc
    -- only a connection that has seen the generation is held
    rw [Reader.kept] at hk
    split_ifs at hk with hold
    · cases hk
    · have hsame : r.lastSeen = gen := by omega
      cases hconn : r.conn with
      | none =>
        rw [hconn] at hk
        cases hk
      | some c =>
        rw [hconn] at hk
        exact hheld c k hconn hk n (by rwa [hsame])
  | fail =>
    rw [Reader.act, Option.bind_eq_some_iff] at ha
    obtain ⟨gen, _, ha⟩ := ha
    split_ifs at ha
    cases ha
    exact ⟨hseen, (fun g hg => by cases hg), fun c k hc => by cases hc⟩
  | read =>
    rw [Reader.act] at ha
    split_ifs at ha with hnone
    rw [Option.map_eq_some_iff] at ha
    obtain ⟨c, hc, rfl⟩ := ha
    refine ⟨hseen, hcalling, ?_⟩
    intro c' k hc' hk n hn
    cases hc'
    cases hk
    cases hs : c.snapshot with
    | none => exact hcounted n (List.mem_of_mem_take hn)
    | some k => exact hheld c k hc hs n hn
  | endRead =>
    rw [Reader.act, Option.map_eq_some_iff] at ha
    obtain ⟨c, _, rfl⟩ := ha
    refine ⟨hseen, hcalling, ?_⟩
    intro c' k hc' hk
    cases hc'
    cases hk
  | close =>
    rw [Reader.act] at ha
    split_ifs at ha
    cases ha
    exact ⟨hseen, hcalling, fun c k hc => by cases hc⟩

/-- The step lemma of the invariant. -/
theorem Sound.step (h : Sound s) (hs : step s e = some s') : Sound s' := by
  obtain ⟨hcounted, hcommitted, hmem, hresolved, hreaders⟩ := h
  cases e with
  | commit tracked =>
    rw [ReadConnection.step] at hs
    split at hs
    case h_2 => cases hs
    case h_1 hidle =>
      cases hs
      refine ⟨fun n hn => (hcounted n hn).trans (Nat.le_succ _), ?_, ?_, hresolved, hreaders⟩
      · intro n tracked' hp
        cases hp
        exact Nat.le_refl _
      · intro n tracked' hp
        cases hp
  | count =>
    rw [ReadConnection.step] at hs
    split at hs
    case h_2 => cases hs
    case h_1 n tracked hphase =>
      cases hs
      refine ⟨?_, ?_, ?_, ?_, fun t => (hreaders t).append n⟩
      · exact List.forall_mem_append.2 ⟨hcounted, by simpa using hcommitted n tracked hphase⟩
      · intro m tracked' hp
        cases hp
      · intro m tracked' hp
        cases hp
        exact List.mem_append_right _ (List.mem_singleton_self n)
      · exact fun m hm => List.mem_append_left _ (hresolved m hm)
  | resolve =>
    rw [ReadConnection.step] at hs
    split at hs
    case h_2 => cases hs
    case h_1 n tracked hphase =>
      cases hs
      refine ⟨hcounted, ?_, ?_, ?_, hreaders⟩
      · intro m tracked' hp
        cases hp
      · intro m tracked' hp
        cases hp
      · intro m hm
        dsimp only at hm
        split_ifs at hm
        · rcases List.mem_cons.1 hm with rfl | hm
          · exact hmem m tracked hphase
          · exact hresolved m hm
        · exact hresolved m hm
  | otherCommit =>
    cases hs
    exact ⟨fun n hn => (hcounted n hn).trans (Nat.le_succ _),
      fun n tracked hp => (hcommitted n tracked hp).trans (Nat.le_succ _), hmem, hresolved, hreaders⟩
  | reader t a =>
    rw [ReadConnection.step, Option.map_eq_some_iff] at hs
    obtain ⟨r, ha, rfl⟩ := hs
    refine ⟨hcounted, hcommitted, hmem, hresolved, ?_⟩
    intro u
    dsimp only
    split_ifs with hu
    · exact (hreaders t).act hcounted ha
    · exact hreaders u

theorem counted_grows (hs : step s e = some s') : s.counted <+: s'.counted := by
  cases e with
  | count =>
    rw [ReadConnection.step] at hs
    split at hs <;> cases hs
    exact List.prefix_append _ _
  | otherCommit =>
    cases hs
    exact List.prefix_rfl
  | reader t a =>
    rw [ReadConnection.step, Option.map_eq_some_iff] at hs
    obtain ⟨r, _, rfl⟩ := hs
    exact List.prefix_rfl
  | _ =>
    rw [ReadConnection.step] at hs
    split at hs <;> cases hs
    exact List.prefix_rfl

/-! ### A call after the generation -/

/-- What an act does to the generations that the thread knows. -/
theorem Reader.act_cases {r : Reader} (ha : r.act gen commits a = some r') :
    (a = .call ∧ r'.calling = some gen ∧ r'.lastSeen = r.lastSeen) ∨
      (∃ g, a = .ret ∧ r.calling = some g ∧ r'.calling = none ∧ r'.lastSeen = g) ∨
      (a ≠ .call ∧ a ≠ .ret ∧ (r'.calling = r.calling ∨ r'.calling = none) ∧ r'.lastSeen = r.lastSeen) := by
  cases a with
  | call =>
    rw [Reader.act] at ha
    split_ifs at ha
    cases ha
    exact .inl ⟨rfl, rfl, rfl⟩
  | ret =>
    rw [Reader.act, Option.map_eq_some_iff] at ha
    obtain ⟨g, hg, rfl⟩ := ha
    exact .inr (.inl ⟨g, rfl, hg, rfl, rfl⟩)
  | fail =>
    rw [Reader.act, Option.bind_eq_some_iff] at ha
    obtain ⟨_, _, ha⟩ := ha
    split_ifs at ha
    cases ha
    exact .inr (.inr ⟨Act.noConfusion, Act.noConfusion, .inr rfl, rfl⟩)
  | read =>
    rw [Reader.act] at ha
    split_ifs at ha
    rw [Option.map_eq_some_iff] at ha
    obtain ⟨_, _, rfl⟩ := ha
    exact .inr (.inr ⟨Act.noConfusion, Act.noConfusion, .inl rfl, rfl⟩)
  | endRead =>
    rw [Reader.act, Option.map_eq_some_iff] at ha
    obtain ⟨_, _, rfl⟩ := ha
    exact .inr (.inr ⟨Act.noConfusion, Act.noConfusion, .inl rfl, rfl⟩)
  | close =>
    rw [Reader.act] at ha
    split_ifs at ha
    cases ha
    exact .inr (.inr ⟨Act.noConfusion, Act.noConfusion, .inl rfl, rfl⟩)

/-- The generation has come this far, and a call in progress has read no earlier one. -/
def AsksFrom (gen : Nat) (t : Nat) (s : State) : Prop :=
  gen ≤ s.generation ∧ ∀ g, (s.readers t).calling = some g → gen ≤ g

/-- Nor has the last call that returned. -/
def HasSeen (gen : Nat) (t : Nat) (s : State) : Prop :=
  AsksFrom gen t s ∧ (gen : Int) ≤ (s.readers t).lastSeen

/-- A step leaves the thread alone, or is an act of it. -/
theorem readers_step (hs : step s e = some s') (t : Nat) : s'.readers t = s.readers t ∨
    ∃ a, e = .reader t a ∧ (s.readers t).act s.generation s.commits a = some (s'.readers t) := by
  cases e with
  | reader u a =>
    rw [ReadConnection.step, Option.map_eq_some_iff] at hs
    obtain ⟨r, ha, rfl⟩ := hs
    dsimp only
    split_ifs with htu
    · subst htu
      exact .inr ⟨a, rfl, ha⟩
    · exact .inl rfl
  | otherCommit =>
    cases hs
    exact .inl rfl
  | _ =>
    rw [ReadConnection.step] at hs
    split at hs <;> cases hs
    exact .inl rfl

theorem asksFrom_step (hs : step s e = some s') (h : AsksFrom gen t s) : AsksFrom gen t s' := by
  obtain ⟨hgen, hasks⟩ := h
  refine ⟨hgen.trans (counted_grows hs).length_le, ?_⟩
  rcases readers_step hs t with hr | ⟨a, rfl, ha⟩
  · rwa [hr]
  · intro g hg
    rcases Reader.act_cases ha with ⟨_, hc, _⟩ | ⟨_, _, _, hc, _⟩ | ⟨_, _, hc | hc, _⟩
    · rw [hc] at hg
      cases hg
      exact hgen
    · rw [hc] at hg
      cases hg
    · exact hasks g (hc ▸ hg)
    · rw [hc] at hg
      cases hg

theorem hasSeen_step (hs : step s e = some s') (h : HasSeen gen t s) : HasSeen gen t s' := by
  obtain ⟨hasks, hseen⟩ := h
  refine ⟨asksFrom_step hs hasks, ?_⟩
  rcases readers_step hs t with hr | ⟨a, rfl, ha⟩
  · rwa [hr]
  · rcases Reader.act_cases ha with ⟨_, _, hl⟩ | ⟨g, _, hg, _, hl⟩ | ⟨_, _, _, hl⟩
    · rwa [hl]
    · rw [hl]
      exact Int.ofNat_le.2 (hasks.2 g hg)
    · rwa [hl]

/-- A return leaves its thread with what the call has read. -/
theorem hasSeen_ret (hs : step s (.reader t .ret) = some s') (h : AsksFrom gen t s) :
    HasSeen gen t s' := by
  refine ⟨asksFrom_step hs h, ?_⟩
  rw [step, Option.map_eq_some_iff] at hs
  obtain ⟨r, ha, rfl⟩ := hs
  dsimp only
  rw [if_pos rfl]
  rcases Reader.act_cases ha with ⟨ha, _⟩ | ⟨g, _, hg, _, hl⟩ | ⟨_, ha, _⟩
  · cases ha
  · rw [hl]
    exact Int.ofNat_le.2 (h.2 g hg)
  · exact (ha rfl).elim

theorem asksFrom_call (hs : step s (.reader t .call) = some s') : AsksFrom s.generation t s' := by
  rw [step, Option.map_eq_some_iff] at hs
  obtain ⟨r, ha, rfl⟩ := hs
  refine ⟨Nat.le_refl _, ?_⟩
  intro g hg
  dsimp only at hg
  rw [if_pos rfl] at hg
  rcases Reader.act_cases ha with ⟨_, hc, _⟩ | ⟨_, ha, _⟩ | ⟨ha, _⟩
  · rw [hc] at hg
    cases hg
    exact Nat.le_refl _
  · cases ha
  · exact (ha rfl).elim

/-- A connection of a thread that has seen the generation sees the commits that it counted. -/
theorem Sound.sees (h : Sound s) (hseen : HasSeen gen t s) (hn : n ∈ s.counted.take gen)
    (hk : s.sees t = some k) : n ≤ k := by
  rw [State.sees, Option.map_eq_some_iff] at hk
  obtain ⟨c, hc, rfl⟩ := hk
  cases hs : c.snapshot with
  | none => exact h.counted_le n (List.mem_of_mem_take hn)
  | some k =>
    have hle : gen ≤ (s.readers t).lastSeen.toNat := by
      have hseen := hseen.2
      omega
    exact (h.readers t).held c k hc hs n ((List.take_subset_take_left _ hle) hn)

theorem counted_grows_run (hr : Machine.run step s es = some s') : s.counted <+: s'.counted := by
  have hstep (u : State) (e : Event) (u' : State) (hu : step u e = some u')
      (h : s.counted <+: u.counted) : s.counted <+: u'.counted := h.trans (counted_grows hu)
  have hrun := Machine.run_preserves hstep hr List.prefix_rfl
  exact hrun

/-- A thread that asks for its connection after a write is counted sees the write on the connection
that it gets, and on all that it gets later, whatever the writer, other processes and the threads do
and however long their statements stay open. -/
theorem counted_seen (es es' : List Event) (h : Sound s) (hn : n ∈ s.counted)
    (hr : Machine.run step s (.reader t .call :: es ++ .reader t .ret :: es') = some s')
    (hk : s'.sees t = some k) : n ≤ k := by
  have hsound : Sound s' := Machine.run_preserves (fun _ _ _ hs h => h.step hs) hr h
  have hprefix := counted_grows_run hr
  obtain ⟨s₂, hbefore, hafter⟩ := Machine.run_append_some hr
  obtain ⟨s₁, hcall, hbetween⟩ := Machine.run_cons_some hbefore
  obtain ⟨s₃, hret, hrest⟩ := Machine.run_cons_some hafter
  have hasks : AsksFrom s.generation t s₂ :=
    Machine.run_preserves (fun _ _ _ => asksFrom_step) hbetween (asksFrom_call hcall)
  have hseen : HasSeen s.generation t s' :=
    Machine.run_preserves (fun _ _ _ => hasSeen_step) hrest (hasSeen_ret hret hasks)
  refine hsound.sees hseen ?_ hk
  rw [State.generation, ← List.prefix_iff_eq_take.1 hprefix]
  exact hn

/-- So it is with a write whose receipt is resolved, in every run from the start. -/
theorem resolved_seen (es₀ es es' : List Event) (hr₀ : Machine.run step {} es₀ = some s)
    (hn : n ∈ s.resolved)
    (hr : Machine.run step s (.reader t .call :: es ++ .reader t .ret :: es') = some s')
    (hk : s'.sees t = some k) : n ≤ k := by
  have hsound : Sound s := Machine.run_preserves (fun _ _ _ hs h => h.step hs) hr₀ sound_initial
  exact counted_seen es es' hsound (hsound.resolved_mem n hn) hr hk

/-- The thread still reads from before the write when it asks again. -/
theorem resolved_seen_reading :
    ∃ s s' k, Machine.run step {} [.reader 0 .call, .reader 0 .ret, .reader 0 .read, .commit true,
        .count, .resolve] = some s ∧ 1 ∈ s.resolved ∧ s.sees 0 = some 0 ∧
      Machine.run step s [.reader 0 .call, .otherCommit, .reader 0 .ret] = some s' ∧
      s'.sees 0 = some k ∧ 1 ≤ k := by
  obtain ⟨s, hs⟩ : ∃ s, Machine.run step {} [.reader 0 .call, .reader 0 .ret, .reader 0 .read,
    .commit true, .count, .resolve] = some s := ⟨_, rfl⟩
  obtain ⟨s', hs'⟩ : ∃ s', Machine.run step s [.reader 0 .call, .otherCommit, .reader 0 .ret] =
    some s' := by
      cases hs
      exact ⟨_, rfl⟩
  have hn : 1 ∈ s.resolved := by
    cases hs
    exact List.mem_singleton_self 1
  have hold : s.sees 0 = some 0 := by
    cases hs
    rfl
  have hnew : s'.sees 0 = some 2 := by
    cases hs
    cases hs'
    rfl
  exact ⟨s, s', 2, hs, hn, hold, hs', hnew, resolved_seen _ [.otherCommit] [] hs hn hs' hnew⟩

/-- The commit of a repair counts for nothing, and the reads that are open do not see it. -/
example : ((Machine.run step {} [.reader 0 .call, .reader 0 .ret, .reader 0 .read, .otherCommit,
    .reader 0 .call, .reader 0 .ret]).bind fun s => s.sees 0) = some 0 := rfl

end ReadConnection
