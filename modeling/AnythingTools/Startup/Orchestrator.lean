import Mathlib.Data.List.Nodup
import AnythingTools.Machine

namespace Startup
open Machine
set_option autoImplicit true

structure StartupContext where
  ok : Bool := true
  failures : List String := []
  phasesCompleted : List String := []
deriving DecidableEq, Repr

/-- What has become of a step. A step of a concurrent tier is created before it starts. -/
inductive Phase where
  | idle
  | created
  | started
  | completed
  | failed
deriving DecidableEq, Repr

/-- Where `run` is: before a tier, waiting for one, or at its end. -/
inductive Status where
  | entering (tier : Nat)
  | awaiting (tier : Nat)
  | returned (skipped : Bool)
  | raised (phaseName : String)
deriving DecidableEq, Repr

/-- The names of the steps, tier by tier. -/
abbrev Tiers := List (List String)

def width (tiers : Tiers) (k : Nat) : Nat := (tiers.getD k []).length

def stepName (tiers : Tiers) (k i : Nat) : String := (tiers.getD k []).getD i ""

/-- The phase of each step of each tier. -/
abbrev Phases := Nat → Nat → Phase

def setPhase (f : Phases) (k i : Nat) (p : Phase) : Phases := fun k' i' =>
  if k' = k ∧ i' = i then p else f k' i'

/-- The steps of a tier are created together. -/
def createTier (tiers : Tiers) (f : Phases) (k : Nat) : Phases := fun k' i =>
  if k' = k ∧ i < width tiers k then .created else f k' i

/-- All steps of the tier are completed. -/
def tierDone (tiers : Tiers) (f : Phases) (k : Nat) : Bool :=
  (List.range (width tiers k)).all fun i => decide (f k i = .completed)

structure State where
  ctx : StartupContext
  status : Status
  phase : Phases

def init : State where
  ctx := {}
  status := .entering 0
  phase _ _ := .idle

inductive Event where
  | enter
  | start (tier index : Nat)
  | complete (tier index : Nat)
  | fail (tier index : Nat)
deriving DecidableEq, Repr

/-- The loop of `run` takes the next tier. -/
def enter (tiers : Tiers) (s : State) : Option State :=
  match s.status with
  | .entering k =>
    if k < tiers.length then
      if s.ctx.ok then
        -- nothing is waited for in a tier without steps
        if width tiers k = 0 then some { s with status := .entering (k + 1) }
        else some { s with status := .awaiting k, phase := createTier tiers s.phase k }
      else some { s with status := .returned true }
    else some { s with status := .returned false }
  | _ => none

/-- The end of `_run_step` where the step does not raise. The loop goes on after the last one. -/
def complete (tiers : Tiers) (s : State) (k i : Nat) : State where
  ctx := { s.ctx with phasesCompleted := s.ctx.phasesCompleted ++ [stepName tiers k i] }
  phase := setPhase s.phase k i .completed
  status :=
    if s.status = .awaiting k ∧ tierDone tiers (setPhase s.phase k i .completed) k = true then
      .entering (k + 1)
    else s.status

/-- The end of `_run_step` where the step raises. The first error of a tier is that of `run`; the
other steps of the tier go on. -/
def fail (tiers : Tiers) (s : State) (k i : Nat) : State where
  ctx := { s.ctx with ok := false, failures := s.ctx.failures ++ [stepName tiers k i] }
  phase := setPhase s.phase k i .failed
  status := if s.status = .awaiting k then .raised (stepName tiers k i) else s.status

def step (tiers : Tiers) (s : State) : Event → Option State
  | .enter => enter tiers s
  | .start k i =>
    if s.phase k i = .created then some { s with phase := setPhase s.phase k i .started } else none
  | .complete k i => if s.phase k i = .started then some (complete tiers s k i) else none
  | .fail k i => if s.phase k i = .started then some (fail tiers s k i) else none

@[simp] theorem setPhase_self (f : Phases) (k i : Nat) (p : Phase) : setPhase f k i p k i = p :=
  if_pos ⟨rfl, rfl⟩

theorem setPhase_ne (f : Phases) (p : Phase) (h : ¬ (k' = k ∧ i' = i)) :
    setPhase f k i p k' i' = f k' i' := if_neg h

/-! ### The stages -/

/-- The steps in a phase, in the order in which their names were recorded. -/
structure Records (tiers : Tiers) (f : Phases) (p : Phase) (names : List String)
    (places : List (Nat × Nat)) : Prop where
  names_eq : names = places.map fun q => stepName tiers q.1 q.2
  nodup : places.Nodup
  mem : ∀ k i, (k, i) ∈ places ↔ f k i = p
  tiered : places.Pairwise fun q q' => q.1 ≤ q'.1

/-- The tiers before `k` are done and those after it are not begun. -/
structure At (tiers : Tiers) (f : Phases) (k : Nat) : Prop where
  before : ∀ j < k, ∀ i < width tiers j, f j i = .completed
  after : ∀ j, k < j → ∀ i, f j i = .idle
  inside : ∀ j i, f j i ≠ .idle → i < width tiers j

/-- What holds where `run` is. -/
def Position (tiers : Tiers) (s : State) : Status → Prop
  | .entering k => At tiers s.phase k ∧ (∀ i, s.phase k i = .idle) ∧ s.ctx.failures = []
  | .awaiting k => At tiers s.phase k ∧ s.ctx.failures = []
  | .returned skipped => skipped = false ∧ At tiers s.phase tiers.length ∧ s.ctx.failures = []
  | .raised name => (∃ k, At tiers s.phase k) ∧ s.ctx.failures.head? = some name

structure Staged (tiers : Tiers) (s : State) : Prop where
  position : Position tiers s s.status
  completed : ∃ places, Records tiers s.phase .completed s.ctx.phasesCompleted places
  failed : ∃ places, Records tiers s.phase .failed s.ctx.failures places
  ok : s.ctx.ok = true ↔ s.ctx.failures = []

theorem staged_init (tiers : Tiers) : Staged tiers init where
  position := by
    refine ⟨⟨fun j hj => absurd hj (Nat.not_lt_zero j), fun j _ i => rfl, ?_⟩, fun i => rfl, rfl⟩
    exact fun j i h => absurd rfl h
  completed := by
    refine ⟨[], rfl, List.nodup_nil, fun k i => ?_, List.Pairwise.nil⟩
    exact iff_of_false List.not_mem_nil fun h => Phase.noConfusion h
  failed := by
    refine ⟨[], rfl, List.nodup_nil, fun k i => ?_, List.Pairwise.nil⟩
    exact iff_of_false List.not_mem_nil fun h => Phase.noConfusion h
  ok := ⟨fun _ => rfl, fun _ => rfl⟩

theorem At.not_idle (h : At tiers f k) (hi : f j i ≠ .idle) : j ≤ k := by
  by_contra hlt
  exact hi (h.after j (Nat.lt_of_not_le hlt) i)

/-- A step that is neither idle nor completed is of the tier that is at work. -/
theorem At.tier_eq (h : At tiers f k) (hi : f j i ≠ .idle) (hc : f j i ≠ .completed) : j = k := by
  refine Nat.le_antisymm (h.not_idle hi) (Nat.le_of_not_lt fun hlt => hc ?_)
  exact h.before j hlt i (h.inside j i hi)

/-- In that tier the phases may change. -/
theorem At.set (h : At tiers f k) (hi : i < width tiers k) (p : Phase) :
    At tiers (setPhase f k i p) k where
  before j hj i' hi' := by
    rw [setPhase_ne f p fun he => absurd he.1 (Nat.ne_of_lt hj)]
    exact h.before j hj i' hi'
  after j hj i' := by
    rw [setPhase_ne f p fun he => absurd he.1 (Nat.ne_of_gt hj)]
    exact h.after j hj i'
  inside j i' hne := by
    by_cases he : j = k ∧ i' = i
    · obtain ⟨rfl, rfl⟩ := he
      exact hi
    · rw [setPhase_ne f p he] at hne
      exact h.inside j i' hne

/-- Nothing is recorded of a step that begins. -/
theorem Records.keep (h : Records tiers f p names places) (hq : q ≠ p) (hf : f k i ≠ p) :
    Records tiers (setPhase f k i q) p names places where
  names_eq := h.names_eq
  nodup := h.nodup
  tiered := h.tiered
  mem k' i' := by
    rw [h.mem k' i']
    by_cases he : k' = k ∧ i' = i
    · obtain ⟨rfl, rfl⟩ := he
      rw [setPhase_self]
      exact iff_of_false hf hq
    · rw [setPhase_ne f q he]

/-- A step that ends is recorded last. -/
theorem Records.add (h : Records tiers f p names places) (hf : f k i ≠ p)
    (hk : ∀ j i', f j i' = p → j ≤ k) :
    Records tiers (setPhase f k i p) p (names ++ [stepName tiers k i]) (places ++ [(k, i)]) where
  names_eq := by rw [h.names_eq, List.map_append, List.map_singleton]
  nodup := by
    rw [List.nodup_append]
    refine ⟨h.nodup, List.nodup_singleton _, fun a ha b hb hab => hf ?_⟩
    obtain rfl := List.mem_singleton.1 hb
    subst hab
    exact (h.mem k i).1 ha
  tiered := by
    rw [List.pairwise_append]
    refine ⟨h.tiered, List.pairwise_singleton _ _, fun a ha b hb => ?_⟩
    obtain rfl := List.mem_singleton.1 hb
    exact hk a.1 a.2 ((h.mem a.1 a.2).1 ha)
  mem k' i' := by
    rw [List.mem_append, List.mem_singleton, h.mem k' i', Prod.mk.injEq]
    by_cases he : k' = k ∧ i' = i
    · obtain ⟨rfl, rfl⟩ := he
      rw [setPhase_self]
      exact iff_of_true (.inr ⟨rfl, rfl⟩) rfl
    · rw [setPhase_ne f p he]
      exact or_iff_left he

/-- A step at work changes its phase where its tier is waited for, or after an error. -/
theorem Position.set {status : Status} (h : Position tiers s status) (hi : s.phase k i ≠ .idle)
    (hc : s.phase k i ≠ .completed) (p : Phase) :
    Position tiers { s with phase := setPhase s.phase k i p } status := by
  cases status with
  | entering j =>
    obtain ⟨hat, hidle, -⟩ := h
    obtain rfl := hat.tier_eq hi hc
    exact absurd (hidle i) hi
  | awaiting j =>
    obtain ⟨hat, hfail⟩ := h
    obtain rfl := hat.tier_eq hi hc
    exact ⟨hat.set (hat.inside k i hi) p, hfail⟩
  | returned skipped =>
    obtain ⟨-, hat, -⟩ := h
    obtain rfl := hat.tier_eq hi hc
    have hlt := hat.inside _ i hi
    rw [width, List.getD_eq_getElem?_getD, List.getElem?_eq_none (Nat.le_refl _)] at hlt
    exact absurd hlt (Nat.not_lt_zero i)
  | raised name =>
    obtain ⟨⟨j, hat⟩, hhead⟩ := h
    obtain rfl := hat.tier_eq hi hc
    exact ⟨⟨k, hat.set (hat.inside k i hi) p⟩, hhead⟩

theorem Position.congr {s s' : State} {status : Status} (h : Position tiers s status)
    (hphase : s'.phase = s.phase) (hfail : s'.ctx.failures = s.ctx.failures) :
    Position tiers s' status := by
  cases status <;> simpa only [Position, hphase, hfail] using h

/-! ### Each event -/

theorem At.create (h : At tiers f k) : At tiers (createTier tiers f k) k where
  before j hj i hi := by
    rw [createTier, if_neg fun he => absurd he.1 (Nat.ne_of_lt hj)]
    exact h.before j hj i hi
  after j hj i := by
    rw [createTier, if_neg fun he => absurd he.1 (Nat.ne_of_gt hj)]
    exact h.after j hj i
  inside j i hne := by
    by_cases he : j = k ∧ i < width tiers k
    · obtain ⟨rfl, hi⟩ := he
      exact hi
    · rw [createTier, if_neg he] at hne
      exact h.inside j i hne

theorem Records.create (h : Records tiers f p names places) (hidle : ∀ i, f k i = .idle)
    (hp : .idle ≠ p) (hp' : .created ≠ p) :
    Records tiers (createTier tiers f k) p names places where
  names_eq := h.names_eq
  nodup := h.nodup
  tiered := h.tiered
  mem j i := by
    rw [h.mem j i, createTier]
    split_ifs with he
    · rw [he.1, hidle i]
      exact iff_of_false hp hp'
    · exact Iff.rfl

theorem Staged.enter (h : Staged tiers s) (hs : enter tiers s = some s') : Staged tiers s' := by
  have hpos := h.position
  rw [Startup.enter] at hs
  cases hst : s.status with
  | entering k =>
    rw [hst] at hs hpos
    obtain ⟨hat, hidle, hfail⟩ := hpos
    dsimp only at hs
    split_ifs at hs with hk hok hw <;> cases hs
    · refine ⟨⟨⟨fun j hj i hi => ?_, fun j hj => hat.after j (Nat.lt_of_succ_lt hj), hat.inside⟩,
        fun i => hat.after _ (Nat.lt_succ_self k) i, hfail⟩, h.completed, h.failed, h.ok⟩
      rcases Nat.lt_succ_iff_lt_or_eq.1 hj with hlt | rfl
      · exact hat.before j hlt i hi
      · rw [hw] at hi
        exact absurd hi (Nat.not_lt_zero i)
    · refine ⟨⟨hat.create, hfail⟩, ?_, ?_, h.ok⟩
      · obtain ⟨places, hp⟩ := h.completed
        exact ⟨places, hp.create hidle Phase.noConfusion Phase.noConfusion⟩
      · obtain ⟨places, hp⟩ := h.failed
        exact ⟨places, hp.create hidle Phase.noConfusion Phase.noConfusion⟩
    · exact absurd (h.ok.2 hfail) hok
    · refine ⟨⟨rfl, ⟨fun j hj i hi => hat.before j (Nat.lt_of_lt_of_le hj (Nat.le_of_not_lt hk)) i hi,
        fun j hj i => ?_, hat.inside⟩, hfail⟩, h.completed, h.failed, h.ok⟩
      by_contra hne
      have hi := hat.inside j i hne
      rw [width, List.getD_eq_getElem?_getD, List.getElem?_eq_none (Nat.le_of_lt hj)] at hi
      exact absurd hi (Nat.not_lt_zero i)
  | awaiting k => rw [hst] at hs; cases hs
  | returned b => rw [hst] at hs; cases hs
  | raised n => rw [hst] at hs; cases hs

theorem Staged.start (h : Staged tiers s) (hs : step tiers s (.start k i) = some s') :
    Staged tiers s' := by
  rw [step] at hs
  split_ifs at hs with hc
  cases hs
  have hidle : s.phase k i ≠ .idle := by rw [hc]; exact Phase.noConfusion
  have hdone : s.phase k i ≠ .completed := by rw [hc]; exact Phase.noConfusion
  have hfailed : s.phase k i ≠ .failed := by rw [hc]; exact Phase.noConfusion
  refine ⟨h.position.set hidle hdone .started, ?_, ?_, h.ok⟩
  · obtain ⟨places, hp⟩ := h.completed
    exact ⟨places, hp.keep Phase.noConfusion hdone⟩
  · obtain ⟨places, hp⟩ := h.failed
    exact ⟨places, hp.keep Phase.noConfusion hfailed⟩

theorem tierDone_iff {f : Phases} :
    tierDone tiers f k = true ↔ ∀ i < width tiers k, f k i = .completed := by
  simp only [tierDone, List.all_eq_true, List.mem_range, decide_eq_true_eq]

/-- A tier that is done leads to the next one. -/
theorem At.next (h : At tiers f k) (hd : tierDone tiers f k = true) : At tiers f (k + 1) where
  before j hj i hi := by
    rcases Nat.lt_succ_iff_lt_or_eq.1 hj with hlt | rfl
    · exact h.before j hlt i hi
    · exact tierDone_iff.1 hd i hi
  after j hj := h.after j (Nat.lt_of_succ_lt hj)
  inside := h.inside

theorem Position.at (h : Position tiers s status) : ∃ k, At tiers s.phase k := by
  cases status with
  | entering k => exact ⟨k, h.1⟩
  | awaiting k => exact ⟨k, h.1⟩
  | returned skipped => exact ⟨_, h.2.1⟩
  | raised name => exact h.1

theorem Staged.complete (h : Staged tiers s) (hs : step tiers s (.complete k i) = some s') :
    Staged tiers s' := by
  rw [step] at hs
  split_ifs at hs with hc
  cases hs
  have hidle : s.phase k i ≠ .idle := by rw [hc]; exact Phase.noConfusion
  have hdone : s.phase k i ≠ .completed := by rw [hc]; exact Phase.noConfusion
  have hfailed : s.phase k i ≠ .failed := by rw [hc]; exact Phase.noConfusion
  refine ⟨?_, ?_, ?_, h.ok⟩
  · have hset := h.position.set hidle hdone .completed
    change Position tiers _ (ite _ _ _)
    split_ifs with hlast
    · rw [hlast.1] at hset
      obtain ⟨hat, hfail⟩ := hset
      exact ⟨hat.next hlast.2, fun i => hat.after _ (Nat.lt_succ_self k) i, hfail⟩
    · exact hset.congr rfl rfl
  · obtain ⟨places, hp⟩ := h.completed
    obtain ⟨k₀, hat⟩ := h.position.at
    obtain rfl := hat.tier_eq hidle hdone
    refine ⟨_, hp.add hdone fun j i' hj => hat.not_idle (i := i') ?_⟩
    rw [hj]
    exact Phase.noConfusion
  · obtain ⟨places, hp⟩ := h.failed
    exact ⟨places, hp.keep Phase.noConfusion hfailed⟩

theorem Staged.fail (h : Staged tiers s) (hs : step tiers s (.fail k i) = some s') :
    Staged tiers s' := by
  rw [step] at hs
  split_ifs at hs with hc
  cases hs
  have hidle : s.phase k i ≠ .idle := by rw [hc]; exact Phase.noConfusion
  have hdone : s.phase k i ≠ .completed := by rw [hc]; exact Phase.noConfusion
  have hfailed : s.phase k i ≠ .failed := by rw [hc]; exact Phase.noConfusion
  have hok : false = true ↔ s.ctx.failures ++ [stepName tiers k i] = [] :=
    iff_of_false Bool.false_ne_true (List.append_ne_nil_of_right_ne_nil _ (List.cons_ne_nil _ _))
  refine ⟨?_, ?_, ?_, hok⟩
  · have hset := h.position.set hidle hdone .failed
    have hpos := h.position
    change Position tiers _ (ite _ _ _)
    split_ifs with hawait
    · rw [hawait] at hset
      obtain ⟨hat, hnone⟩ := hset
      refine ⟨⟨k, hat⟩, ?_⟩
      change (s.ctx.failures ++ [stepName tiers k i]).head? = _
      rw [hnone]
      rfl
    · -- only after an error is a step at work that is not waited for
      cases hst : s.status with
      | entering j =>
        rw [hst] at hpos
        obtain rfl := hpos.1.tier_eq hidle hdone
        exact absurd (hpos.2.1 i) hidle
      | awaiting j =>
        rw [hst] at hpos hawait
        exact absurd (congrArg Status.awaiting (hpos.1.tier_eq hidle hdone).symm) hawait
      | returned skipped =>
        rw [hst] at hpos
        obtain rfl := hpos.2.1.tier_eq hidle hdone
        have hlt := hpos.2.1.inside _ i hidle
        rw [width, List.getD_eq_getElem?_getD, List.getElem?_eq_none (Nat.le_refl _)] at hlt
        exact absurd hlt (Nat.not_lt_zero i)
      | raised name =>
        rw [hst] at hset
        obtain ⟨hat, hhead⟩ := hset
        refine ⟨hat, ?_⟩
        change (s.ctx.failures ++ [stepName tiers k i]).head? = _
        rw [List.head?_append, show s.ctx.failures.head? = some name from hhead]
        rfl
  · obtain ⟨places, hp⟩ := h.completed
    exact ⟨places, hp.keep Phase.noConfusion hdone⟩
  · obtain ⟨places, hp⟩ := h.failed
    obtain ⟨k₀, hat⟩ := h.position.at
    obtain rfl := hat.tier_eq hidle hdone
    refine ⟨_, hp.add hfailed fun j i' hj => hat.not_idle (i := i') ?_⟩
    rw [hj]
    exact Phase.noConfusion

theorem staged_run (h : run (step tiers) init events = some s) : Staged tiers s := by
  refine run_preserves (fun s e s' hs hstaged => ?_) h (staged_init tiers)
  cases e with
  | enter => exact hstaged.enter hs
  | start k i => exact hstaged.start hs
  | complete k i => exact hstaged.complete hs
  | fail k i => exact hstaged.fail hs

/-- However the steps of a tier take turns, no step begins before all steps of the earlier tiers
are completed. The completed steps stand in `phases_completed` once each, tier by tier. `run`
returns only when every step is completed, and it never skips a tier; once a step has failed no
later tier begins, and the error that `run` raises is that of the first step that failed. -/
theorem phases_in_order (h : run (step tiers) init events = some s) :
    (∀ k i, s.phase k i ≠ .idle → ∀ j < k, ∀ i' < width tiers j, s.phase j i' = .completed) ∧
    (∃ places, Records tiers s.phase .completed s.ctx.phasesCompleted places) ∧
    (∃ places, Records tiers s.phase .failed s.ctx.failures places) ∧
    (∀ skipped, s.status = .returned skipped → skipped = false ∧ s.ctx.ok = true ∧
      ∀ k, ∀ i < width tiers k, s.phase k i = .completed) ∧
    (∀ name, s.status = .raised name → s.ctx.ok = false ∧ s.ctx.failures.head? = some name) ∧
    ∀ k i, s.phase k i = .failed → ∀ j, k < j → ∀ i', s.phase j i' = .idle := by
  have hstaged := staged_run h
  obtain ⟨k₀, hat⟩ := hstaged.position.at
  refine ⟨fun k i hk j hj => ?_, hstaged.completed, hstaged.failed, fun skipped hst => ?_,
    fun name hst => ?_, fun k i hf j hj => ?_⟩
  · exact hat.before j (Nat.lt_of_lt_of_le hj (hat.not_idle hk))
  · have hpos := hstaged.position
    rw [hst] at hpos
    obtain ⟨hskip, hend, hnone⟩ := hpos
    refine ⟨hskip, hstaged.ok.2 hnone, fun k i hi => ?_⟩
    refine hend.before k (Nat.lt_of_not_le fun hle => ?_) i hi
    rw [width, List.getD_eq_getElem?_getD, List.getElem?_eq_none hle] at hi
    exact absurd hi (Nat.not_lt_zero i)
  · have hpos := hstaged.position
    rw [hst] at hpos
    refine ⟨Bool.eq_false_iff.2 fun hok => ?_, hpos.2⟩
    have hhead := hpos.2
    rw [hstaged.ok.1 hok] at hhead
    cases hhead
  · have hidle : s.phase k i ≠ .idle := by rw [hf]; exact Phase.noConfusion
    have hdone : s.phase k i ≠ .completed := by rw [hf]; exact Phase.noConfusion
    obtain rfl := hat.tier_eq hidle hdone
    exact hat.after j hj

/-- The phases of `run_startup`. -/
def runStartup : Tiers :=
  [["mount_artifacts", "cleanup_zombie_chrome", "cleanup_temp_files", "init_database_layer"],
    ["run_db_migrations"], ["validate_vec0"], ["init_backup"], ["sync_from_backup"],
    ["startup_recovery"], ["load_tool_registry", "warmup_browser"]]

/-- Two steps of the first tier fail, and another one is completed after that. -/
theorem phases_in_order_failed : ∃ s, run (step runStartup) init
    [.enter, .start 0 0, .start 0 1, .start 0 2, .start 0 3, .complete 0 2, .fail 0 3, .fail 0 0,
      .complete 0 1] = some s ∧ s.status = .raised "init_database_layer" ∧
    s.ctx = ⟨false, ["init_database_layer", "mount_artifacts"],
      ["cleanup_temp_files", "cleanup_zombie_chrome"]⟩ ∧
    ∀ k i, s.phase k i = .failed → ∀ j, k < j → ∀ i', s.phase j i' = .idle :=
  ⟨_, rfl, rfl, rfl, (phases_in_order (show run (step runStartup) init [.enter, .start 0 0,
    .start 0 1, .start 0 2, .start 0 3, .complete 0 2, .fail 0 3, .fail 0 0, .complete 0 1] = some _
    from rfl)).2.2.2.2.2⟩

end Startup
