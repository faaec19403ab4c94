import AnythingTools.Displace

namespace Refresh
open Displace
set_option autoImplicit true

/-- A copy that is kept by comparing a source with it and writing what differs. What is written of
an item may depend on the clock. -/
structure Replica (ν γ α : Type) where
  clash : α → α → Bool
  meets : α → γ → Bool
  differs : α → γ → Bool
  stored : ν → γ → Option α
  source : List γ

namespace Replica
variable {ν γ α : Type} (R : Replica ν γ α)

/-- The left join of the source with the copy: what has no partner, or one that differs. -/
def fetch (copy : List α) : List γ :=
  R.source.flatMap fun c =>
    match copy.filter fun r => R.meets r c with
    | [] => [c]
    | partners => (partners.filter fun r => R.differs r c).map fun _ => c

def Wanted (copy : List α) (c : γ) : Prop :=
  (∀ r ∈ copy, R.meets r c = false) ∨ ∃ r ∈ copy, R.meets r c = true ∧ R.differs r c = true

theorem mem_fetch : c ∈ R.fetch copy ↔ c ∈ R.source ∧ R.Wanted copy c := by
  have hmatch (c d : γ) : (d ∈ match copy.filter fun r => R.meets r c with
      | [] => [c]
      | partners => (partners.filter fun r => R.differs r c).map fun _ => c) ↔
      c = d ∧ R.Wanted copy c := by
    cases hf : copy.filter fun r => R.meets r c with
    | nil =>
      dsimp only
      rw [List.mem_singleton, List.filter_eq_nil_iff] at *
      constructor
      · intro h
        exact ⟨h.symm, .inl fun r hr => by simpa using hf r hr⟩
      · exact fun h => h.1.symm
    | cons p ps =>
      dsimp only
      rw [← hf, List.mem_map]
      constructor
      · rintro ⟨r, hr, he⟩
        obtain ⟨hp, hd⟩ := List.mem_filter.1 hr
        obtain ⟨hc, hm⟩ := List.mem_filter.1 hp
        exact ⟨he, .inr ⟨r, hc, hm, hd⟩⟩
      · rintro ⟨he, hnone | ⟨r, hr, hm, hd⟩⟩
        · have hp : p ∈ copy.filter fun r => R.meets r c := by simp [hf]
          obtain ⟨hc, hm⟩ := List.mem_filter.1 hp
          rw [hnone p hc] at hm
          cases hm
        · exact ⟨r, List.mem_filter.2 ⟨List.mem_filter.2 ⟨hr, hm⟩, hd⟩, he⟩
  rw [fetch, List.mem_flatMap]
  constructor
  · rintro ⟨d, hd, hm⟩
    obtain ⟨rfl, hw⟩ := (hmatch d c).1 hm
    exact ⟨hd, hw⟩
  · rintro ⟨hc, hw⟩
    exact ⟨c, hc, (hmatch c c).2 ⟨rfl, hw⟩⟩

theorem wanted_congr {copy copy' : List α} (h : ∀ r, r ∈ copy ↔ r ∈ copy') :
    R.Wanted copy c ↔ R.Wanted copy' c := by
  simp only [Wanted, h]

/-- The fetched items are written, in the order in which they come. -/
def refresh (now : ν) (cs : List γ) (copy : List α) : List α :=
  putAll R.clash copy (cs.filterMap (R.stored now))

/-- What the copy may hold after it: its own that nothing replaces, and what is written. -/
def Candidate (now : ν) (copy : List α) (q : α) : Prop :=
  (q ∈ copy ∧ ∀ c ∈ R.source, R.Wanted copy c → ∀ p, R.stored now c = some p →
    R.clash p q = false) ∨
  ∃ c ∈ R.source, R.Wanted copy c ∧ R.stored now c = some q

/-- Whenever the item is written, it is this that is stored. -/
def Rewrites (c : γ) (q : α) : Prop := ∀ now, R.stored now c = some q

/-- After a refresh each item is settled, in whatever order the items were written. -/
structure Calm (now : ν) (copy : List α) : Prop where
  /-- Of two written items that clash, the one finds itself in what is stored of the other. -/
  apart : ∀ c ∈ R.source, R.Wanted copy c → ∀ c' ∈ R.source, R.Wanted copy c' →
    ∀ p, R.stored now c = some p → ∀ p', R.stored now c' = some p' → R.clash p p' = true →
      p = p' ∨ R.meets p' c = true
  /-- Each item finds something, or is written anew every time without a trace. -/
  met : ∀ c ∈ R.source, ∀ p, R.stored now c = some p →
    (∃ q, R.Candidate now copy q ∧ R.meets q c = true) ∨
      (R.Wanted copy c ∧ ∃ q, R.Rewrites c q ∧ R.clash q q = true)
  /-- What it finds does not differ, or is what it stores itself. -/
  agreed : ∀ c ∈ R.source, ∀ p, R.stored now c = some p → ∀ q, R.Candidate now copy q →
    R.meets q c = true → R.differs q c = true → R.Rewrites c q

/-- What is still wanted is there already. -/
def Settled (copy : List α) : Prop :=
  ∀ c ∈ R.source, R.Wanted copy c → ∀ now p, R.stored now c = some p →
    p ∈ copy ∧ R.clash p p = true

structure Lawful : Prop where
  symm : ∀ a b, R.clash a b = R.clash b a
  total : ∀ now now' c p, R.stored now c = some p → ∃ p', R.stored now' c = some p'
  self : ∀ q c, R.meets q c = true → R.clash q q = true
  trans : ∀ now c c' p q, R.stored now c = some p → R.meets q c = true → R.meets p c' = true →
    R.meets q c' = true

theorem mem_refresh_candidate (hcs : cs.Perm (R.fetch copy)) (hq : q ∈ R.refresh now cs copy) :
    R.Candidate now copy q := by
  rcases mem_putAll.1 hq with ⟨hm, hc⟩ | ⟨as₁, as₂, he, _⟩
  · refine .inl ⟨hm, ?_⟩
    intro c hsrc hw p hp
    apply hc
    exact List.mem_filterMap.2 ⟨c, hcs.mem_iff.2 (R.mem_fetch.2 ⟨hsrc, hw⟩), hp⟩
  · have hmem : q ∈ cs.filterMap (R.stored now) := by
      rw [he]
      simp
    obtain ⟨c, hc, hp⟩ := List.mem_filterMap.1 hmem
    obtain ⟨hsrc, hw⟩ := R.mem_fetch.1 (hcs.mem_iff.1 hc)
    exact .inr ⟨c, hsrc, hw, hp⟩

/-- What nothing replaces stays. -/
theorem mem_refresh_of_kept (hcs : cs.Perm (R.fetch copy)) (hq : q ∈ copy)
    (hk : ∀ c ∈ R.source, R.Wanted copy c → ∀ p, R.stored now c = some p → R.clash p q = false) :
    q ∈ R.refresh now cs copy := by
  refine mem_putAll.2 (.inl ⟨hq, ?_⟩)
  intro p hp
  obtain ⟨c, hc, hs⟩ := List.mem_filterMap.1 hp
  obtain ⟨hsrc, hw⟩ := R.mem_fetch.1 (hcs.mem_iff.1 hc)
  exact hk c hsrc hw p hs

variable {R}

theorem Wanted.of_not_met {copy : List α} (h : ¬ ∃ q ∈ copy, R.meets q c = true) :
    R.Wanted copy c := by
  refine .inl fun q hq => ?_
  by_contra hm
  exact h ⟨q, hq, by simpa using hm⟩

/-- Where something is written that an item meets, it meets something in the end. -/
theorem Calm.met_of_written (hR : R.Lawful) (h : R.Calm now copy) (hcs : cs.Perm (R.fetch copy))
    (hq : ∃ q ∈ cs.filterMap (R.stored now), R.meets q c = true) :
    ∃ q ∈ R.refresh now cs copy, R.meets q c = true := by
  obtain ⟨as₁, p, as₂, he, hm, hlast⟩ := exists_last hq
  have hwritten (a : α) (ha : a ∈ as₁ ++ p :: as₂) :
      ∃ z ∈ R.source, R.Wanted copy z ∧ R.stored now z = some a := by
    rw [← he] at ha
    obtain ⟨z, hz, hs⟩ := List.mem_filterMap.1 ha
    obtain ⟨hsrc, hw⟩ := R.mem_fetch.1 (hcs.mem_iff.1 hz)
    exact ⟨z, hsrc, hw, hs⟩
  refine ⟨p, mem_putAll.2 (.inr ⟨as₁, as₂, he, ?_⟩), hm⟩
  intro a ha
  by_contra hc
  rw [Bool.not_eq_false, hR.symm] at hc
  obtain ⟨z, hz, hwz, hsz⟩ := hwritten p (by simp)
  obtain ⟨z', hz', hwz', hsz'⟩ := hwritten a (by simp [ha])
  rcases h.apart z hz hwz z' hz' hwz' p hsz a hsz' hc with rfl | hmeets
  · exact hlast p ha hm
  · exact hlast a ha (hR.trans now z c p a hsz hmeets hm)

/-- A written item that meets nothing is in the copy. -/
theorem Calm.mem_of_written (hR : R.Lawful) (h : R.Calm now copy) (hcs : cs.Perm (R.fetch copy))
    (hsrc : c ∈ R.source) (hw : R.Wanted copy c) (hp : R.stored now c = some p)
    (hn : ¬ ∃ q ∈ R.refresh now cs copy, R.meets q c = true) : p ∈ R.refresh now cs copy := by
  have hmem : p ∈ cs.filterMap (R.stored now) :=
    List.mem_filterMap.2 ⟨c, hcs.mem_iff.2 (R.mem_fetch.2 ⟨hsrc, hw⟩), hp⟩
  obtain ⟨as₁, p', as₂, he, hp', hlast⟩ := exists_last ⟨p, hmem, Eq.refl p⟩
  subst hp'
  refine mem_putAll.2 (.inr ⟨as₁, as₂, he, ?_⟩)
  intro a ha
  by_contra hc
  rw [Bool.not_eq_false, hR.symm] at hc
  have ha' : a ∈ cs.filterMap (R.stored now) := by
    rw [he]
    simp [ha]
  obtain ⟨z, hz, hs⟩ := List.mem_filterMap.1 ha'
  obtain ⟨hsz, hwz⟩ := R.mem_fetch.1 (hcs.mem_iff.1 hz)
  rcases h.apart c hsrc hw z hsz hwz p hp a hs hc with rfl | hmeets
  · exact hlast p ha rfl
  · exact hn (h.met_of_written hR hcs ⟨a, ha', hmeets⟩)

theorem Calm.settled (hR : R.Lawful) (h : R.Calm now copy) (hcs : cs.Perm (R.fetch copy)) :
    R.Settled (R.refresh now cs copy) := by
  intro c hsrc hw now' p' hp'
  obtain ⟨p, hp⟩ := hR.total now' now c p' hp'
  rcases hw with hnone | ⟨r, hr, hm, hd⟩
  · have hn : ¬ ∃ q ∈ R.refresh now cs copy, R.meets q c = true := by
      rintro ⟨q, hq, hm⟩
      rw [hnone q hq] at hm
      cases hm
    rcases h.met c hsrc p hp with ⟨q, hcand, hm⟩ | ⟨hwanted, q, hrew, hcl⟩
    · rcases hcand with ⟨hq, hk⟩ | ⟨z, hz, hwz, hsz⟩
      · exact absurd ⟨q, R.mem_refresh_of_kept hcs hq hk, hm⟩ hn
      · have hmem : q ∈ cs.filterMap (R.stored now) :=
          List.mem_filterMap.2 ⟨z, hcs.mem_iff.2 (R.mem_fetch.2 ⟨hz, hwz⟩), hsz⟩
        exact absurd (h.met_of_written hR hcs ⟨q, hmem, hm⟩) hn
    · rw [hrew now', Option.some.injEq] at hp'
      subst hp'
      exact ⟨h.mem_of_written hR hcs hsrc hwanted (hrew now) hn, hcl⟩
  · have hrew := h.agreed c hsrc p hp r (R.mem_refresh_candidate hcs hr) hm hd
    rw [hrew now', Option.some.injEq] at hp'
    subst hp'
    exact ⟨hr, hR.self r c hm⟩

/-- A settled copy stays as it is. -/
theorem Settled.refresh_perm (hR : R.Lawful) (h : R.Settled copy) (ha : Apart R.clash copy)
    (hcs : cs.Perm (R.fetch copy)) (now : ν) : (R.refresh now cs copy).Perm copy := by
  apply putAll_perm hR.symm ha
  intro p hp
  obtain ⟨c, hc, hs⟩ := List.mem_filterMap.1 hp
  obtain ⟨hsrc, hw⟩ := R.mem_fetch.1 (hcs.mem_iff.1 hc)
  exact h c hsrc hw now p hs

theorem Settled.congr (h : R.Settled copy) (he : copy.Perm copy') : R.Settled copy' := by
  intro c hsrc hw now p hp
  obtain ⟨hm, hc⟩ := h c hsrc ((R.wanted_congr fun r => he.mem_iff).2 hw) now p hp
  exact ⟨he.mem_iff.1 hm, hc⟩

/-- An item that meets a row of the copy is written in the row's place. -/
structure Keyed (R : Replica ν γ α) (copy : List α) : Prop where
  replaces : ∀ c ∈ R.source, ∀ now p, R.stored now c = some p → ∀ q,
    (q ∈ copy ∨ ∃ z ∈ R.source, ∃ now', R.stored now' z = some q) → R.meets q c = true →
      R.clash q p = true
  meets_stored : ∀ q c now p, R.meets q c = true → R.stored now c = some p → R.meets p c = true
  timeless : ∀ c now now' p p', R.stored now c = some p → R.stored now' c = some p' →
    R.clash p p = true → R.clash p p' = true

/-- A copy that every refresh leaves as it was is settled. -/
theorem settled_of_unchanged (hR : R.Lawful) (ha : Apart R.clash copy)
    (h : ∀ now cs, cs.Perm (R.fetch copy) → (R.refresh now cs copy).Perm copy) :
    R.Settled copy := by
  have hmem (now : ν) (c : γ) (hc : c ∈ R.fetch copy) (p : α) (hp : R.stored now c = some p) :
      p ∈ copy := by
    obtain ⟨l₁, l₂, he⟩ := List.append_of_mem hc
    have hcs : ((l₁ ++ l₂) ++ [c]).Perm (R.fetch copy) := by
      rw [he]
      exact perm_last l₁ l₂ c
    rw [← (h now _ hcs).mem_iff, refresh, List.filterMap_append, List.filterMap_cons, hp]
    exact mem_putAll_last copy _ p
  intro c hsrc hw now p hp
  have hc := R.mem_fetch.2 ⟨hsrc, hw⟩
  refine ⟨hmem now c hc p hp, ?_⟩
  apply clash_of_perm hR.symm ha _ (h now _ (.refl _)) p (List.mem_filterMap.2 ⟨c, hc, hp⟩)
  intro q hq
  obtain ⟨z, hz, hs⟩ := List.mem_filterMap.1 hq
  exact hmem now z hz q hs

theorem stored_of_candidate (h : R.Candidate now copy q) :
    q ∈ copy ∨ ∃ z ∈ R.source, ∃ now', R.stored now' z = some q := by
  rcases h with ⟨hq, _⟩ | ⟨z, hz, _, hs⟩
  · exact .inl hq
  · exact .inr ⟨z, hz, now, hs⟩

/-- If no order of writing leaves work for a second refresh, the copy was calm. -/
theorem calm_of_settled (hR : R.Lawful) (hK : Keyed R copy) (ha : Apart R.clash copy)
    (h : ∀ cs, cs.Perm (R.fetch copy) → R.Settled (R.refresh now cs copy)) :
    R.Calm now copy := by
  have hapart (cs : List γ) : Apart R.clash (R.refresh now cs copy) := ha.putAll hR.symm _
  have hsame {cs : List γ} (hcs : cs.Perm (R.fetch copy)) {c : γ} (hsrc : c ∈ R.source) {q : α}
      (hq : q ∈ R.refresh now cs copy) (hm : R.meets q c = true) {now' : ν} {p : α}
      (hp : R.stored now' c = some p) : R.clash q p = true :=
    hK.replaces c hsrc now' p hp q (stored_of_candidate (R.mem_refresh_candidate hcs hq)) hm
  constructor
  case apart =>
    intro c hsrc hw c' hsrc' hw' p hp p' hp' hc
    by_contra hn
    rw [not_or] at hn
    -- the one is written last, the other right before it
    have hne : c ≠ c' := by
      rintro rfl
      rw [hp, Option.some.injEq] at hp'
      exact hn.1 hp'
    obtain ⟨l₁, l₂, he⟩ := List.append_of_mem (R.mem_fetch.2 ⟨hsrc, hw⟩)
    have hc' : c' ∈ l₁ ++ l₂ := by
      have hm := R.mem_fetch.2 ⟨hsrc', hw'⟩
      rw [he, List.mem_append, List.mem_cons] at hm
      rw [List.mem_append]
      rcases hm with hm | rfl | hm
      · exact .inl hm
      · exact absurd rfl hne
      · exact .inr hm
    obtain ⟨m₁, m₂, he'⟩ := List.append_of_mem hc'
    have hcs : ((m₁ ++ m₂) ++ [c, c']).Perm (R.fetch copy) := by
      have hlast : ((m₁ ++ m₂ ++ [c']) ++ [c]).Perm (l₁ ++ l₂ ++ [c]) := by
        rw [he']
        exact (perm_last m₁ m₂ c').append_right [c]
      rw [List.append_assoc] at hlast
      rw [he]
      exact ((List.Perm.swap c' c []).append_left _).trans (hlast.trans (perm_last l₁ l₂ c))
    have hrefresh : R.refresh now ((m₁ ++ m₂) ++ [c, c']) copy =
        put R.clash (put R.clash (R.refresh now (m₁ ++ m₂) copy) p) p' := by
      rw [refresh, List.filterMap_append, putAll_append]
      simp only [List.filterMap_cons, hp, hp', List.filterMap_nil]
      rfl
    have hp'_mem : p' ∈ R.refresh now ((m₁ ++ m₂) ++ [c, c']) copy := by
      rw [hrefresh]
      exact mem_put.2 (.inr rfl)
    have hnot : ¬ p ∈ R.refresh now ((m₁ ++ m₂) ++ [c, c']) copy := by
      intro hm
      exact hn.1 ((hapart _).eq_of_clash hR.symm hm hp'_mem hc)
    have hunwanted : ¬ R.Wanted (R.refresh now ((m₁ ++ m₂) ++ [c, c']) copy) c :=
      fun hwant => hnot (h _ hcs c hsrc hwant now p hp).1
    obtain ⟨q, hq, hm⟩ : ∃ q ∈ R.refresh now ((m₁ ++ m₂) ++ [c, c']) copy, R.meets q c = true := by
      by_contra hnone
      exact hunwanted (.of_not_met hnone)
    have hqp := hsame hcs hsrc hq hm hp
    rw [hR.symm] at hqp
    rw [hrefresh, mem_put, mem_put] at hq
    rcases hq with ⟨⟨_, hfree⟩ | rfl, hfree'⟩ | rfl
    · rw [hqp] at hfree
      cases hfree
    · rw [hR.symm, hc] at hfree'
      cases hfree'
    · exact hn.2 hm
  case met =>
    intro c hsrc p hp
    by_cases hmet : ∃ q ∈ R.refresh now (R.fetch copy) copy, R.meets q c = true
    · obtain ⟨q, hq, hm⟩ := hmet
      exact .inl ⟨q, R.mem_refresh_candidate (.refl _) hq, hm⟩
    · right
      have hset := h _ (.refl _) c hsrc (.of_not_met hmet)
      obtain ⟨hpm, hcl⟩ := hset now p hp
      refine ⟨.of_not_met ?_, p, ?_, hcl⟩
      · rintro ⟨r, _, hm⟩
        exact hmet ⟨p, hpm, hK.meets_stored r c now p hm hp⟩
      · intro now'
        obtain ⟨p', hp'⟩ := hR.total now now' c p hp
        rw [hp', (hapart _).eq_of_clash hR.symm (hset now' p' hp').1 hpm]
        rw [hR.symm]
        exact hK.timeless c now now' p p' hp hp' hcl
  case agreed =>
    intro c hsrc p hp q hcand hm hd now'
    obtain ⟨cs, hcs, hq⟩ : ∃ cs, cs.Perm (R.fetch copy) ∧ q ∈ R.refresh now cs copy := by
      rcases hcand with ⟨hq, hk⟩ | ⟨z, hz, hwz, hsz⟩
      · exact ⟨_, .refl _, R.mem_refresh_of_kept (.refl _) hq hk⟩
      · obtain ⟨l₁, l₂, he⟩ := List.append_of_mem (R.mem_fetch.2 ⟨hz, hwz⟩)
        refine ⟨(l₁ ++ l₂) ++ [z], ?_, ?_⟩
        · rw [he]
          exact perm_last l₁ l₂ z
        · rw [refresh, List.filterMap_append, List.filterMap_cons, hsz]
          exact mem_putAll_last copy _ q
    obtain ⟨p', hp'⟩ := hR.total now now' c p hp
    have hpm := (h cs hcs c hsrc (.inr ⟨q, hq, hm, hd⟩) now' p' hp').1
    rw [hp', (hapart cs).eq_of_clash hR.symm hq hpm (hsame hcs hsrc hq hm hp')]

end Replica

end Refresh
