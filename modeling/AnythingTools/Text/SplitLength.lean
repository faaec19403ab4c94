import AnythingTools.Text.SplitProgress

namespace Text
open Find Sync
set_option autoImplicit true

/-- The chunks that come out of the merging pass are within a limit exactly if those that go in
are: what is merged fits, and what does not fit is not merged. -/
theorem mergeStep_bounded (maxLength : Nat) (merged : List (List Char)) (chunk : List Char) :
    (∀ c ∈ mergeStep maxLength merged chunk, c.length ≤ maxLength) ↔
      chunk.length ≤ maxLength ∧ ∀ c ∈ merged, c.length ≤ maxLength := by
  cases merged with
  | nil => simp [mergeStep]
  | cons last before =>
    rw [mergeStep]
    split
    · rename_i hmerge
      rw [List.length_append] at hmerge
      rw [List.forall_mem_cons, List.forall_mem_cons, List.length_append]
      have hlast : last.length ≤ maxLength := by omega
      have hchunk : chunk.length ≤ maxLength := by omega
      simp only [hmerge.2, hlast, hchunk, true_and]
    · rw [List.forall_mem_cons]

theorem foldl_mergeStep_bounded (maxLength : Nat) (chunks merged : List (List Char)) :
    (∀ c ∈ chunks.foldl (mergeStep maxLength) merged, c.length ≤ maxLength) ↔
      (∀ c ∈ chunks, c.length ≤ maxLength) ∧ ∀ c ∈ merged, c.length ≤ maxLength := by
  induction chunks generalizing merged with
  | nil => simp
  | cons chunk chunks ih =>
    rw [List.foldl_cons, ih, mergeStep_bounded, List.forall_mem_cons, and_left_comm, and_assoc]

theorem merge_bounded (maxLength : Nat) (chunks : List (List Char)) :
    (∀ c ∈ mergeDelimiterOnlyChunks chunks maxLength, c.length ≤ maxLength) ↔
      ∀ c ∈ chunks, c.length ≤ maxLength := by
  simp only [mergeDelimiterOnlyChunks, List.mem_reverse, foldl_mergeStep_bounded,
    List.not_mem_nil, false_implies, implies_true, and_true]

/-- What is put around the raw text besides its delimiters. -/
def quotePrefix (mode : ParseMode) (p : Part) : List Char :=
  if p.inBq = true ∧ mode = .markdownV2 ∧ p.raw.dropWhile (· = '\n') ≠ [] ∧
    (p.raw.dropWhile (· = '\n')).head? ≠ some '>' then ['>', ' '] else []

theorem length_assembleChunk (mode : ParseMode) (p : Part) :
    (assembleChunk mode p).length =
      p.raw.length + (quotePrefix mode p).length + p.openers.length + p.closers.length := by
  have hraw := congrArg List.length (List.takeWhile_append_dropWhile (p := (· = '\n')) (l := p.raw))
  rw [List.length_append] at hraw
  simp only [assembleChunk, quotePrefix, List.length_append]
  omega

/-- A text that is carried on in a quote begins with a quote sign, so nothing is put before it. -/
theorem quotePrefix_nil (mode : ParseMode) {p : Part}
    (h : p.inBq = true → p.raw = [] ∨ p.raw.head? = some '>') : quotePrefix mode p = [] := by
  rw [quotePrefix, if_neg]
  rintro ⟨hbq, _, hbody, hhead⟩
  obtain hraw | hraw := h hbq
  · rw [hraw] at hbody
    exact hbody rfl
  · obtain ⟨cs, hcs⟩ := List.head?_eq_some_iff.1 hraw
    rw [hcs, List.dropWhile_cons_of_neg (by decide)] at hhead
    exact hhead rfl

section

variable {mode : ParseMode} {maxLength : Nat} {s s₀ : Carry}

theorem Carried.head (h : Carried s) (hbq : s.carryBq = true) : s.remaining.head? = some '>' := by
  have htake := h.quote hbq
  cases hr : s.remaining with
  | nil =>
    rw [hr] at htake
    cases htake
  | cons c cs =>
    rw [hr, List.take_succ_cons] at htake
    rw [List.head?_cons, (List.cons.inj htake).1]

theorem quotePrefix_part (h : Carried s) : quotePrefix mode (s.part mode maxLength) = [] := by
  apply quotePrefix_nil
  intro hbq
  rw [Carry.part, List.take_eq_nil_iff, List.head?_take]
  by_cases h0 : s.cut mode maxLength = 0
  · exact .inl (.inl h0)
  · rw [if_neg h0]
    exact .inr (h.head hbq)

theorem quotePrefix_final (h : Carried s) : quotePrefix mode s.final = [] :=
  quotePrefix_nil mode fun hbq => .inr (h.head hbq)

/-- The carried openers, the raw text up to the cut and the closers of what is open there. -/
theorem length_part (h : Carried s) :
    (assembleChunk mode (s.part mode maxLength)).length =
      s.cut mode maxLength + s.carryOpeners.length +
        (buildClosers (s.chunkStack mode maxLength)).length := by
  rw [length_assembleChunk, quotePrefix_part h, Carry.part, List.length_take,
    Nat.min_eq_left (cut_le_length s)]
  rfl

theorem length_final (h : Carried s) (hne : s.remaining ≠ []) (hc : ¬s.Cuts mode maxLength) :
    (assembleChunk mode s.final).length ≤ maxLength := by
  rw [length_assembleChunk, quotePrefix_final h]
  rw [Carry.Cuts, Carry.cost, not_and, Nat.not_lt] at hc
  have hle := hc hne
  simp only [Carry.final, List.length_nil]
  omega

theorem reached_iff (s t : Carry) :
    Reached mode maxLength s t ↔
      t = s ∨ (s.Cuts mode maxLength ∧ Reached mode maxLength (s.next mode maxLength) t) := by
  apply Iff.intro
  · intro h
    induction h with
    | start => exact .inl rfl
    | next _ hc ih =>
      obtain rfl | ⟨hs, hn⟩ := ih
      · exact .inr ⟨hc, .start⟩
      · exact .inr ⟨hs, .next hn hc⟩
  · rintro (rfl | ⟨hc, h⟩)
    · exact .start
    · exact .of_next hc h

end

section

variable (mode : ParseMode) (maxLength : Nat)

/-- The rounds from one on, with the parts that they assemble. -/
inductive Rounds : Carry → List Part → Prop where
  | done (h : s.remaining = []) : Rounds s []
  | final (hne : s.remaining ≠ []) (hc : ¬s.Cuts mode maxLength) : Rounds s [s.final]
  | cut (hc : s.Cuts mode maxLength) (h : Rounds (s.next mode maxLength) rest) :
      Rounds s (s.part mode maxLength :: rest)

/-- The closers of the delimiters that are open at a cut. -/
def Carry.closers (s : Carry) : List Char := buildClosers (s.chunkStack mode maxLength)

/-- There is room at the cut for the delimiters that were carried in and for those to be closed. -/
def Carry.Fits (s : Carry) : Prop :=
  s.cut mode maxLength + (s.carryOpeners.length + (s.closers mode maxLength).length) ≤ maxLength

instance (s : Carry) : Decidable (s.Fits mode maxLength) := inferInstanceAs (Decidable (_ ≤ _))

end

section

variable {mode : ParseMode} {maxLength : Nat} {s : Carry}

theorem rounds_of_splitLoop (h : splitLoop mode maxLength fuel s = some parts) :
    Rounds mode maxLength s parts := by
  induction fuel generalizing s parts with
  | zero =>
    by_cases hne : s.remaining = []
    · rw [splitLoop_done hne] at h
      exact Option.some.inj h ▸ .done hne
    by_cases hc : s.Cuts mode maxLength
    · rw [splitLoop_zero hc] at h
      cases h
    · rw [splitLoop_final hne hc] at h
      exact Option.some.inj h ▸ .final hne hc
  | succ fuel ih =>
    by_cases hne : s.remaining = []
    · rw [splitLoop_done hne] at h
      exact Option.some.inj h ▸ .done hne
    by_cases hc : s.Cuts mode maxLength
    · rw [splitLoop_succ hc, Option.map_eq_some_iff] at h
      obtain ⟨rest, hrest, rfl⟩ := h
      exact .cut hc (ih hrest)
    · rw [splitLoop_final hne hc] at h
      exact Option.some.inj h ▸ .final hne hc

theorem forall_reached_of_not_cuts {P : Carry → Prop} (hc : ¬s.Cuts mode maxLength) :
    ∀ t, Reached mode maxLength s t → t.Cuts mode maxLength → P t := by
  intro t ht htc
  obtain rfl | ⟨hs, _⟩ := (reached_iff s t).1 ht
  · exact absurd htc hc
  · exact absurd hs hc

theorem forall_reached_of_cuts {P : Carry → Prop} (hc : s.Cuts mode maxLength) :
    (∀ t, Reached mode maxLength s t → t.Cuts mode maxLength → P t) ↔
      P s ∧ ∀ t, Reached mode maxLength (s.next mode maxLength) t → t.Cuts mode maxLength → P t := by
  apply Iff.intro
  · intro h
    exact ⟨h s .start hc, fun t ht => h t (.of_next hc ht)⟩
  · rintro ⟨hs, hrest⟩ t ht htc
    obtain rfl | ⟨_, ht⟩ := (reached_iff s t).1 ht
    · exact hs
    · exact hrest t ht htc

/-- At a newline, the end of a sentence or a blank there is room for closers within the reserve. -/
theorem fits_of_soft
    (hsoft : softSplitPoint s.remaining ((maxLength : Int) - s.cost mode - delimiterBuffer) = some k)
    (hcost : s.cost mode + delimiterBuffer ≤ maxLength)
    (hclosers : (s.closers mode maxLength).length ≤ delimiterBuffer) : s.Fits mode maxLength := by
  have hcut : s.cut mode maxLength ≤ s.splitIdx mode maxLength := cut_le_splitIdx s
  have hsplit : s.splitIdx mode maxLength = k := by
    rw [Carry.splitIdx, findSplitPoint, hsoft, Option.getD_some]
  have hk := (softSplitPoint_some hsoft).le_ceiling (by omega)
  have hopeners : s.carryOpeners.length ≤ s.cost mode := Nat.le_add_right _ _
  rw [Carry.Fits]
  omega

/-- At the limit itself there is room for nothing. -/
theorem fits_hard_iff (hcut : s.cut mode maxLength = maxLength) :
    s.Fits mode maxLength ↔ s.carryOpeners = [] ∧ s.closers mode maxLength = [] := by
  rw [Carry.Fits, hcut, ← List.length_eq_zero_iff, ← List.length_eq_zero_iff]
  omega

theorem rounds_bounded_iff (hs : Carried s) (h : Rounds mode maxLength s parts) :
    (∀ p ∈ parts, (assembleChunk mode p).length ≤ maxLength) ↔
      ∀ t, Reached mode maxLength s t → t.Cuts mode maxLength → t.Fits mode maxLength := by
  induction h with
  | done h =>
    refine iff_of_true (fun p hp => nomatch hp) ?_
    exact forall_reached_of_not_cuts fun hc => hc.1 h
  | final hne hc =>
    refine iff_of_true ?_ (forall_reached_of_not_cuts hc)
    intro p hp
    rw [List.mem_singleton.1 hp]
    exact length_final hs hne hc
  | cut hc _ ih =>
    rw [List.forall_mem_cons, forall_reached_of_cuts hc, ih (carried_next _), length_part hs,
      Nat.add_assoc]
    rfl

end

theorem boundaryLoop_bounded (h : boundaryLoop maxLength fuel text = some chunks) :
    ∀ chunk ∈ chunks, chunk.length ≤ maxLength := by
  induction fuel generalizing text chunks with
  | zero =>
    cases text with
    | nil =>
      cases h
      exact fun _ hc => absurd hc List.not_mem_nil
    | cons c cs => cases h
  | succ fuel ih =>
    cases text with
    | nil =>
      cases h
      exact fun _ hc => absurd hc List.not_mem_nil
    | cons c cs =>
      rw [boundaryLoop] at h
      dsimp only at h
      split at h
      · rename_i hle
        cases h
        exact (Divided.one hle).bounded
      · obtain ⟨rest, hrest, rfl⟩ := Option.map_eq_some_iff.1 h
        rw [List.forall_mem_cons]
        exact ⟨Nat.le_trans (List.length_take_le _ _) (boundary_le _ _), ih hrest⟩

theorem splitBoundaryOnly_bounded (h : splitBoundaryOnly fuel text maxLength = some chunks) :
    ∀ chunk ∈ chunks, chunk.length ≤ maxLength := by
  rw [splitBoundaryOnly] at h
  split at h
  · cases h
    exact fun _ hc => absurd hc List.not_mem_nil
  · split at h
    · rename_i hle
      cases h
      exact (Divided.one hle).bounded
    · exact boundaryLoop_bounded h

theorem smartSplitMessage_boundary {text : List Char} (h : maxLength < text.length) (fuel : Nat) :
    smartSplitMessage fuel text maxLength none = splitBoundaryOnly fuel text maxLength := by
  have hne : text ≠ [] := by
    rintro rfl
    cases h
  unfold smartSplitMessage
  rw [if_neg hne, if_neg (Nat.not_le.2 h)]

/-- The chunks that the splitter returns are within the limit exactly if the delimiters of each cut
fit. -/
theorem smartSplitMessage_bounded_iff (text : List Char) (maxLength : Nat)
    (parseMode : Option ParseMode) (fuel : Nat) (chunks : List (List Char))
    (h : smartSplitMessage fuel text maxLength parseMode = some chunks) :
    (∀ chunk ∈ chunks, chunk.length ≤ maxLength) ↔
      ∀ mode, parseMode = some mode → ∀ s, Reached mode maxLength ⟨text, [], [], false⟩ s →
        s.Cuts mode maxLength → s.Fits mode maxLength := by
  by_cases hlen : maxLength < text.length
  · cases parseMode with
    | none =>
      rw [smartSplitMessage_boundary hlen] at h
      refine iff_of_true (splitBoundaryOnly_bounded h) ?_
      intro mode hmode
      cases hmode
    | some mode =>
      rw [smartSplitMessage_loop hlen, Option.map_eq_some_iff] at h
      obtain ⟨parts, hparts, rfl⟩ := h
      rw [merge_bounded, List.forall_mem_map,
        rounds_bounded_iff (carried_start text) (rounds_of_splitLoop hparts)]
      simp only [Option.some.injEq, forall_eq']
  · refine iff_of_true ?_ ?_
    · rw [smartSplitMessage_short hlen] at h
      cases h
      split
      · intro _ hc
        cases hc
      · exact (Divided.one (Nat.not_lt.1 hlen)).bounded
    · intro mode _
      exact forall_reached_of_not_cuts (not_cuts_start hlen mode)

theorem smartSplitMessage_plain_fits :
    smartSplitMessage 2 (List.replicate 201 'a') 200 (some .markdownV2) =
        some [List.replicate 200 'a', ['a']] ∧
      ∀ s, Reached .markdownV2 200 ⟨List.replicate 201 'a', [], [], false⟩ s →
        s.Cuts .markdownV2 200 → s.Fits .markdownV2 200 := by
  have hrun : smartSplitMessage 2 (List.replicate 201 'a') 200 (some .markdownV2) =
      some [List.replicate 200 'a', ['a']] := by
    decide +kernel
  have hlen : ∀ chunk ∈ [List.replicate 200 'a', ['a']], chunk.length ≤ 200 := by
    rw [List.forall_mem_cons, List.forall_mem_singleton, List.length_replicate]
    exact ⟨Nat.le_refl 200, by decide⟩
  have hfits := smartSplitMessage_bounded_iff (List.replicate 201 'a') 200 (some .markdownV2) 2
    [List.replicate 200 'a', ['a']] hrun
  exact ⟨hrun, hfits.1 hlen .markdownV2 rfl⟩

/-- A bold text without a blank in it. -/
def boldWord : List Char := '*' :: List.replicate 210 'a'

theorem smartSplitMessage_boldWord :
    (smartSplitMessage 2 boldWord 200 (some .markdownV2)).map (List.map List.length) =
      some [201, 12] := by
  decide +kernel

end Text
