import AnythingTools.Text.SmartSplit

namespace Text
open Find
set_option autoImplicit true

/-- What is known of a soft split point: it ends a newline or a blank, within the ceiling. -/
structure Soft (text : List Char) (ceiling : Int) (k : Nat) : Prop where
  pos : 1 ≤ k
  le_length : k ≤ text.length
  le_ceiling : 0 ≤ ceiling → (k : Int) ≤ ceiling
  after : text[k - 1]? = some '\n' ∨ text[k - 1]? = some ' '

section

variable {text word : List Char} {searchStart ceiling effectiveLimit : Int} {hardMax : Nat}

/-- Where a word that ends in a newline or a blank ends. -/
theorem soft_of_rfind (h : rfind text word searchStart ceiling = some i) (hpos : 1 ≤ word.length)
    (hlast : word[word.length - 1]? = some '\n' ∨ word[word.length - 1]? = some ' ') :
    Soft text ceiling (i + word.length) := by
  obtain ⟨_, hle, hpre⟩ := rfind_some h
  refine ⟨by omega, by omega, ?_, ?_⟩
  · intro hnonneg
    obtain ⟨n, rfl⟩ := Int.eq_ofNat_of_zero_le hnonneg
    simp only [clamp_natCast] at hle
    omega
  · have hget : text[i + word.length - 1]? = word[word.length - 1]? := by
      obtain ⟨rest, hrest⟩ := hpre
      rw [show i + word.length - 1 = i + (word.length - 1) by omega, ← List.getElem?_drop, ← hrest,
        List.getElem?_append_left (by omega)]
    rw [hget]
    exact hlast

theorem softSplit_some (h : softSplit text searchStart ceiling = some k) : Soft text ceiling k := by
  rw [softSplit, Option.or_eq_some_iff, Option.or_eq_some_iff] at h
  obtain h | ⟨_, h | ⟨_, h⟩⟩ := h
  · obtain ⟨i, hi, rfl⟩ := Option.map_eq_some_iff.1 h
    exact soft_of_rfind hi (by decide) (.inl rfl)
  · obtain ⟨i, hi, rfl⟩ := Option.map_eq_some_iff.1 h
    obtain ⟨hmem, _⟩ := List.max?_eq_some_iff.1 hi
    obtain ⟨punct, hp, hfind⟩ := List.mem_filterMap.1 hmem
    simp only [List.mem_cons, List.not_mem_nil, or_false] at hp
    obtain rfl | rfl | rfl := hp
    · exact soft_of_rfind hfind (by decide) (.inr rfl)
    · exact soft_of_rfind hfind (by decide) (.inr rfl)
    · exact soft_of_rfind hfind (by decide) (.inr rfl)
  · obtain ⟨i, hi, rfl⟩ := Option.map_eq_some_iff.1 h
    exact soft_of_rfind hi (by decide) (.inr rfl)

theorem softSplitPoint_some (h : softSplitPoint text effectiveLimit = some k) :
    Soft text (min effectiveLimit text.length) k := by
  rw [softSplitPoint, Option.or_eq_some_iff] at h
  obtain h | ⟨_, h⟩ := h
  · exact softSplit_some h
  · exact softSplit_some h

/-- The split point is a soft one or the limit. -/
theorem findSplitPoint_cases (text : List Char) (effectiveLimit : Int) (hardMax : Nat) :
    Soft text (min effectiveLimit text.length) (findSplitPoint text effectiveLimit hardMax) ∨
      (softSplitPoint text effectiveLimit = none ∧
        findSplitPoint text effectiveLimit hardMax = min hardMax text.length) := by
  rw [findSplitPoint]
  cases h : softSplitPoint text effectiveLimit with
  | some k => exact .inl (softSplitPoint_some h)
  | none => exact .inr ⟨rfl, rfl⟩

theorem findSplitPoint_pos (htext : text ≠ []) (hmax : 1 ≤ hardMax) :
    1 ≤ findSplitPoint text effectiveLimit hardMax := by
  obtain h | ⟨_, h⟩ := findSplitPoint_cases text effectiveLimit hardMax
  · exact h.pos
  · have := List.length_pos_iff.2 htext
    omega

theorem findSplitPoint_le (text : List Char) (effectiveLimit : Int) (hardMax : Nat) :
    findSplitPoint text effectiveLimit hardMax ≤ text.length := by
  obtain h | ⟨_, h⟩ := findSplitPoint_cases text effectiveLimit hardMax
  · exact h.le_length
  · omega

/-- The tokens are at most three letters long and have no newline and no blank in them. -/
theorem token_spec (ht : t ∈ sortedTokens mode) : t.length ≤ 3 ∧ '\n' ∉ t ∧ ' ' ∉ t := by
  revert t
  cases mode with
  | markdown => decide
  | markdownV2 => decide

theorem mem_straddled {tokens : List Token} (h : start ∈ straddled text splitIdx tokens) :
    ∃ t ∈ tokens, start < splitIdx ∧ splitIdx < start + t.length ∧ t <+: text.drop start := by
  rw [straddled, List.mem_flatMap] at h
  obtain ⟨t, ht, h⟩ := h
  rw [List.mem_filter] at ht
  rw [List.mem_filterMap] at h
  obtain ⟨offset, hoffset, h⟩ := h
  rw [List.mem_range'_1] at hoffset
  split at h
  · rename_i hat
    cases h
    refine ⟨t, ht.1, by omega, by omega, ?_⟩
    exact List.isPrefixOf_iff_prefix.1 hat.2
  · cases h

/-- A token is only ever straddled by the limit itself. -/
theorem straddled_hard
    (h : start ∈ straddled text (findSplitPoint text effectiveLimit hardMax) (sortedTokens mode)) :
    softSplitPoint text effectiveLimit = none ∧
      findSplitPoint text effectiveLimit hardMax = hardMax ∧ hardMax ≤ start + 2 := by
  obtain ⟨t, ht, hlt, hlen, rest, hrest⟩ := mem_straddled h
  obtain ⟨hthree, hnl, hblank⟩ := token_spec ht
  have hsplit : start + t.length ≤ text.length := by
    have := congrArg List.length hrest
    rw [List.length_append, List.length_drop] at this
    omega
  obtain hsoft | ⟨hnone, hhard⟩ := findSplitPoint_cases text effectiveLimit hardMax
  · -- what stands before a soft split point is in no token
    exfalso
    have hget : text[findSplitPoint text effectiveLimit hardMax - 1]? =
        t[findSplitPoint text effectiveLimit hardMax - 1 - start]? := by
      have hcat : (t ++ rest)[findSplitPoint text effectiveLimit hardMax - 1 - start]? =
          t[findSplitPoint text effectiveLimit hardMax - 1 - start]? :=
        List.getElem?_append_left (by omega)
      rw [← hcat, hrest, List.getElem?_drop]
      congr 1
      omega
    have hafter := hsoft.after
    rw [hget] at hafter
    obtain hc | hc := hafter
    · exact hnl (List.mem_of_getElem? hc)
    · exact hblank (List.mem_of_getElem? hc)
  · refine ⟨hnone, ?_, ?_⟩
    · omega
    · omega

/-- What the rollback returns: the start of a token that is straddled, else the last bracket before
the split point if the next closing parenthesis is not before it, else the split point. -/
theorem rollback_cases (text : List Char) (splitIdx : Nat) (tokens : List Token) :
    rollbackIfInsideAtom text splitIdx tokens ∈ straddled text splitIdx tokens ∨
      (straddled text splitIdx tokens = [] ∧
        ∃ p, rfind text ['['] 0 splitIdx = some (rollbackIfInsideAtom text splitIdx tokens) ∧
          find text ')' (rollbackIfInsideAtom text splitIdx tokens) = some p ∧ splitIdx ≤ p) ∨
      (straddled text splitIdx tokens = [] ∧ rollbackIfInsideAtom text splitIdx tokens = splitIdx ∧
        ∀ b p, rfind text ['['] 0 splitIdx = some b → find text ')' b = some p → p < splitIdx) := by
  unfold rollbackIfInsideAtom
  cases hs : (straddled text splitIdx tokens).head? with
  | some start => exact .inl (List.mem_of_head? hs)
  | none =>
    rw [List.head?_eq_none_iff] at hs
    cases hb : rfind text ['['] 0 splitIdx with
    | none => exact .inr (.inr ⟨hs, rfl, fun b p hb => nomatch hb⟩)
    | some b =>
      dsimp only
      cases hp : find text ')' b with
      | none =>
        refine .inr (.inr ⟨hs, rfl, ?_⟩)
        intro b' p' hb' hp'
        cases hb'
        rw [hp] at hp'
        cases hp'
      | some p =>
        dsimp only
        split
        · rename_i hle
          exact .inr (.inl ⟨hs, p, rfl, hp, hle⟩)
        · rename_i hlt
          refine .inr (.inr ⟨hs, rfl, ?_⟩)
          intro b' p' hb' hp'
          cases hb'
          rw [hp] at hp'
          cases hp'
          exact Nat.lt_of_not_le hlt

theorem rollback_le (text : List Char) (splitIdx : Nat) (tokens : List Token) :
    rollbackIfInsideAtom text splitIdx tokens ≤ splitIdx := by
  obtain h | ⟨_, p, hb, _⟩ | ⟨_, h, _⟩ := rollback_cases text splitIdx tokens
  · obtain ⟨_, _, hlt, _⟩ := mem_straddled h
    exact Nat.le_of_lt hlt
  · obtain ⟨_, hle, _⟩ := rfind_some hb
    rw [clamp_natCast] at hle
    omega
  · exact Nat.le_of_eq h

end

section

variable (mode : ParseMode) (maxLength : Nat)

/-- The text begins with the last bracket before the split point, no closing parenthesis stands
before that point but one after it, and no token is straddled. -/
def Carry.Stuck (s : Carry) : Prop :=
  straddled s.remaining (s.splitIdx mode maxLength) (sortedTokens mode) = [] ∧
    s.remaining.head? = some '[' ∧ '[' ∉ (s.remaining.take (s.splitIdx mode maxLength)).tail ∧
    ')' ∉ s.remaining.take (s.splitIdx mode maxLength) ∧
    ')' ∈ s.remaining.drop (s.splitIdx mode maxLength)

instance (s : Carry) : Decidable (s.Stuck mode maxLength) :=
  inferInstanceAs (Decidable (_ ∧ _))

/-- The rounds that a splitter started with `s₀` comes to. -/
inductive Reached (s₀ : Carry) : Carry → Prop where
  | start : Reached s₀ s₀
  | next (h : Reached s₀ s) (hc : s.Cuts mode maxLength) : Reached s₀ (s.next mode maxLength)

end

section

variable {mode : ParseMode} {maxLength : Nat} {s s₀ : Carry}

/-- A round consumes nothing exactly if it is stuck. -/
theorem cut_eq_zero_iff (hmax : 3 ≤ maxLength) (hs : s.remaining ≠ []) :
    s.cut mode maxLength = 0 ↔ s.Stuck mode maxLength := by
  have hpos : 1 ≤ s.splitIdx mode maxLength := findSplitPoint_pos hs (by omega)
  have hle : s.splitIdx mode maxLength ≤ s.remaining.length := findSplitPoint_le _ _ _
  have hstuck : s.Stuck mode maxLength ↔
      straddled s.remaining (s.splitIdx mode maxLength) (sortedTokens mode) = [] ∧
        rfind s.remaining ['['] 0 (s.splitIdx mode maxLength) = some 0 ∧
        ∃ p, find s.remaining ')' 0 = some p ∧ s.splitIdx mode maxLength ≤ p := by
    rw [Carry.Stuck, rfind_front hpos hle, find_beyond, and_assoc]
  rw [hstuck, Carry.cut]
  obtain h | ⟨hnone, p, hb, hp, hbeyond⟩ | ⟨hnone, heq, hbefore⟩ :=
    rollback_cases s.remaining (s.splitIdx mode maxLength) (sortedTokens mode)
  · apply Iff.intro
    · intro h0
      rw [h0] at h
      obtain ⟨_, _, hthree⟩ := straddled_hard h
      omega
    · rintro ⟨hnone, _⟩
      rw [hnone] at h
      cases h
  · apply Iff.intro
    · intro h0
      rw [h0] at hb hp
      exact ⟨hnone, hb, p, hp, hbeyond⟩
    · rintro ⟨_, hb0, _⟩
      rw [hb] at hb0
      exact Option.some.inj hb0
  · apply Iff.intro
    · intro h0
      omega
    · rintro ⟨_, hb0, p, hp, hbeyond⟩
      exact absurd hbeyond (Nat.not_le.2 (hbefore 0 p hb0 hp))

theorem cut_le_splitIdx (s : Carry) : s.cut mode maxLength ≤ s.splitIdx mode maxLength :=
  rollback_le _ _ _

theorem cut_le_length (s : Carry) : s.cut mode maxLength ≤ s.remaining.length :=
  Nat.le_trans (cut_le_splitIdx s) (findSplitPoint_le _ _ _)

theorem length_next (s : Carry) :
    (s.next mode maxLength).remaining.length = s.remaining.length - s.cut mode maxLength :=
  List.length_drop

/-- A round goes on with less exactly if it is not stuck. -/
theorem next_lt_iff (hmax : 3 ≤ maxLength) (hc : s.Cuts mode maxLength) :
    (s.next mode maxLength).remaining.length < s.remaining.length ↔ ¬s.Stuck mode maxLength := by
  have hpos := List.length_pos_iff.2 hc.1
  have hle : s.cut mode maxLength ≤ s.remaining.length := cut_le_length s
  rw [← cut_eq_zero_iff hmax hc.1, length_next]
  omega

theorem inBlockquoteAt_zero (text : List Char) (mode : ParseMode) :
    inBlockquoteAt text 0 mode =
      (decide (mode = .markdownV2) && decide (text.take 2 = ['>', ' '])) := by
  have hnone : rfind text ['\n'] 0 ((0 : Nat) : Int) = none := by
    rw [rfind, clamp_natCast, Nat.zero_min]
    rfl
  rw [inBlockquoteAt, hnone]
  rfl

/-- What every round is given: the openers of its stack, and a quote only before a quote sign. -/
structure Carried (s : Carry) : Prop where
  openers : s.carryOpeners = buildOpeners s.stack
  quote : s.carryBq = true → s.remaining.take 2 = ['>', ' ']

theorem carried_next (s : Carry) : Carried (s.next mode maxLength) := by
  refine ⟨rfl, ?_⟩
  intro hq
  rw [Carry.next, inBlockquoteAt_zero, Bool.and_eq_true, decide_eq_true_eq, decide_eq_true_eq] at hq
  exact hq.2

theorem carried_start (text : List Char) : Carried ⟨text, [], [], false⟩ :=
  ⟨rfl, fun hq => nomatch hq⟩

theorem Reached.carried (h : Reached mode maxLength ⟨text, [], [], false⟩ s) : Carried s := by
  cases h with
  | start => exact carried_start text
  | next _ _ => exact carried_next _

theorem Reached.of_next (hc : s.Cuts mode maxLength)
    (h : Reached mode maxLength (s.next mode maxLength) t) : Reached mode maxLength s t := by
  induction h with
  | start => exact .next .start hc
  | next _ hc' ih => exact .next ih hc'

theorem splitLoop_done (h : s.remaining = []) (fuel : Nat) :
    splitLoop mode maxLength fuel s = some [] := by
  rw [splitLoop.eq_def]
  dsimp only
  rw [if_pos h]

theorem splitLoop_final (hne : s.remaining ≠ []) (hc : ¬s.Cuts mode maxLength) (fuel : Nat) :
    splitLoop mode maxLength fuel s = some [s.final] := by
  rw [splitLoop.eq_def]
  dsimp only
  rw [if_neg hne, if_neg hc]

theorem splitLoop_zero (hc : s.Cuts mode maxLength) : splitLoop mode maxLength 0 s = none := by
  rw [splitLoop.eq_def]
  dsimp only
  rw [if_neg hc.1, if_pos hc]

theorem splitLoop_succ (hc : s.Cuts mode maxLength) (fuel : Nat) :
    splitLoop mode maxLength (fuel + 1) s =
      (splitLoop mode maxLength fuel (s.next mode maxLength)).map (s.part mode maxLength :: ·) := by
  rw [splitLoop.eq_def]
  dsimp only
  rw [if_neg hc.1, if_pos hc]

/-- Rounds that are never stuck come to an end. -/
theorem splitLoop_some (hmax : 3 ≤ maxLength) (fuel : Nat) (s : Carry)
    (h : ∀ t, Reached mode maxLength s t → t.Cuts mode maxLength → ¬t.Stuck mode maxLength)
    (hfuel : s.remaining.length ≤ fuel) : ∃ parts, splitLoop mode maxLength fuel s = some parts := by
  induction fuel generalizing s with
  | zero => exact ⟨[], splitLoop_done (List.length_eq_zero_iff.1 (Nat.le_zero.1 hfuel)) 0⟩
  | succ fuel ih =>
    by_cases hne : s.remaining = []
    · exact ⟨[], splitLoop_done hne _⟩
    by_cases hc : s.Cuts mode maxLength
    · have hlt := (next_lt_iff hmax hc).2 (h s .start hc)
      obtain ⟨parts, hparts⟩ :=
        ih (s.next mode maxLength) (fun t ht => h t (.of_next hc ht)) (by omega)
      exact ⟨s.part mode maxLength :: parts, by rw [splitLoop_succ hc, hparts, Option.map_some]⟩
    · exact ⟨[s.final], splitLoop_final hne hc _⟩

/-- The rounds of a loop that ends end as well. -/
theorem Reached.ends (h : Reached mode maxLength s t)
    (hloop : ∃ fuel parts, splitLoop mode maxLength fuel s = some parts) :
    ∃ fuel parts, splitLoop mode maxLength fuel t = some parts := by
  induction h with
  | start => exact hloop
  | next _ hc ih =>
    obtain ⟨fuel, parts, hrun⟩ := ih
    cases fuel with
    | zero =>
      rw [splitLoop_zero hc] at hrun
      cases hrun
    | succ fuel =>
      rw [splitLoop_succ hc] at hrun
      obtain ⟨rest, hrest, _⟩ := Option.map_eq_some_iff.1 hrun
      exact ⟨fuel, rest, hrest⟩

theorem scanState_zero (mode : ParseMode) (text : List Char) (skip : Nat) (stack : List Token) :
    scanState mode text 0 skip stack = stack := by
  cases text with
  | nil => rfl
  | cons c cs => rfl

/-- A stuck round leaves to the next what it was given. -/
theorem next_of_stuck (hmax : 3 ≤ maxLength) (hcar : Carried s) (hs : s.remaining ≠ [])
    (h : s.Stuck mode maxLength) : s.next mode maxLength = s := by
  have hcut := (cut_eq_zero_iff hmax hs).2 h
  have hq (hbq : s.remaining.take 2 = ['>', ' ']) : False := by
    have hhead := h.2.1
    obtain ⟨cs, hcs⟩ := List.head?_eq_some_iff.1 hhead
    rw [hcs] at hbq
    cases hbq
  have hfalse : s.carryBq = false := by
    cases hb : s.carryBq with
    | false => rfl
    | true => exact (hq (hcar.quote hb)).elim
  have hbq : inBlockquoteAt s.remaining 0 mode = false := by
    rw [inBlockquoteAt_zero, decide_eq_false hq, Bool.and_false]
  cases s with
  | mk remaining stack carryOpeners carryBq =>
    have hopeners := hcar.openers
    dsimp only at hfalse hbq hopeners
    subst hfalse hopeners
    simp only [Carry.next, Carry.chunkStack, hcut, scanState_zero, List.drop_zero, hbq]

/-- So the loop never ends. -/
theorem splitLoop_stuck (hnext : s.next mode maxLength = s) (hc : s.Cuts mode maxLength)
    (fuel : Nat) : splitLoop mode maxLength fuel s = none := by
  induction fuel with
  | zero => exact splitLoop_zero hc
  | succ fuel ih => rw [splitLoop_succ hc, hnext, ih, Option.map_none]

end

/-- Only a text that is too long goes through the rounds. -/
theorem smartSplitMessage_loop {text : List Char} (h : maxLength < text.length) (fuel : Nat)
    (mode : ParseMode) :
    smartSplitMessage fuel text maxLength (some mode) =
      (splitLoop mode maxLength fuel ⟨text, [], [], false⟩).map fun parts =>
        mergeDelimiterOnlyChunks (parts.map (assembleChunk mode)) maxLength := by
  have hne : text ≠ [] := by
    rintro rfl
    cases h
  rw [smartSplitMessage, if_neg hne, if_neg (Nat.not_le.2 h)]

theorem smartSplitMessage_short {text : List Char} (h : ¬maxLength < text.length) (fuel : Nat)
    (parseMode : Option ParseMode) :
    smartSplitMessage fuel text maxLength parseMode = some (if text = [] then [] else [text]) := by
  unfold smartSplitMessage
  rw [if_pos (Nat.not_lt.1 h)]
  split <;> rfl

theorem not_cuts_start {text : List Char} (h : ¬maxLength < text.length) (mode : ParseMode) :
    ¬Carry.Cuts mode maxLength ⟨text, [], [], false⟩ := by
  rintro ⟨_, hlt⟩
  exact h hlt

theorem reached_short {text : List Char} (h : ¬maxLength < text.length)
    (hs : Reached mode maxLength ⟨text, [], [], false⟩ s) : s = ⟨text, [], [], false⟩ := by
  induction hs with
  | start => rfl
  | next _ hc ih =>
    rw [ih] at hc
    exact absurd hc (not_cuts_start h mode)

/-- The splitter never returns where a round of it is stuck. -/
theorem smartSplitMessage_none (hmax : 3 ≤ maxLength)
    (hs : Reached mode maxLength ⟨text, [], [], false⟩ s) (hc : s.Cuts mode maxLength)
    (h : s.Stuck mode maxLength) (fuel : Nat) :
    smartSplitMessage fuel text maxLength (some mode) = none := by
  have hlen : maxLength < text.length := by
    by_contra hshort
    rw [reached_short hshort hs] at hc
    exact not_cuts_start hshort mode hc
  rw [smartSplitMessage_loop hlen, Option.map_eq_none_iff]
  cases hrun : splitLoop mode maxLength fuel ⟨text, [], [], false⟩ with
  | none => rfl
  | some parts =>
    obtain ⟨fuel', parts', hends⟩ := hs.ends ⟨fuel, parts, hrun⟩
    rw [splitLoop_stuck (next_of_stuck hmax hs.carried hc.1 h) hc] at hends
    cases hends

/-- The splitter returns exactly if no round of it is stuck, and so it is with each round that cuts
going on with less. -/
theorem smartSplitMessage_returns_iff (text : List Char) (mode : ParseMode) (maxLength : Nat)
    (hmax : 3 ≤ maxLength) :
    ((∃ fuel chunks, smartSplitMessage fuel text maxLength (some mode) = some chunks) ↔
        ∀ s, Reached mode maxLength ⟨text, [], [], false⟩ s → s.Cuts mode maxLength →
          ¬s.Stuck mode maxLength) ∧
      ((∀ s, Reached mode maxLength ⟨text, [], [], false⟩ s → s.Cuts mode maxLength →
          (s.next mode maxLength).remaining.length < s.remaining.length) ↔
        ∀ s, Reached mode maxLength ⟨text, [], [], false⟩ s → s.Cuts mode maxLength →
          ¬s.Stuck mode maxLength) := by
  refine ⟨⟨?_, ?_⟩, ?_, ?_⟩
  · rintro ⟨fuel, chunks, hrun⟩ s hs hc hstuck
    rw [smartSplitMessage_none hmax hs hc hstuck] at hrun
    cases hrun
  · intro h
    by_cases hlen : maxLength < text.length
    · obtain ⟨parts, hparts⟩ := splitLoop_some hmax text.length _ h (Nat.le_refl _)
      exact ⟨text.length, _, by rw [smartSplitMessage_loop hlen, hparts, Option.map_some]⟩
    · exact ⟨0, _, smartSplitMessage_short hlen 0 (some mode)⟩
  · intro hlt s hs hc
    exact (next_lt_iff hmax hc).1 (hlt s hs hc)
  · intro h s hs hc
    exact (next_lt_iff hmax hc).2 (h s hs hc)

/-- A link without a blank in it. -/
def longLink : List Char := '[' :: List.replicate 200 'a' ++ [')']

theorem longLink_stuck : Carry.Stuck .markdownV2 200 ⟨longLink, [], [], false⟩ := by
  decide +kernel

theorem smartSplitMessage_longLink_rounds :
    ¬∀ s, Reached .markdownV2 200 ⟨longLink, [], [], false⟩ s → s.Cuts .markdownV2 200 →
      (s.next .markdownV2 200).remaining.length < s.remaining.length := by
  intro h
  exact (smartSplitMessage_returns_iff longLink .markdownV2 200 (by decide)).2.1 h _ .start
    (by decide +kernel) longLink_stuck

theorem smartSplitMessage_longLink :
    ¬∃ fuel chunks, smartSplitMessage fuel longLink 200 (some .markdownV2) = some chunks := by
  rintro ⟨fuel, chunks, hrun⟩
  rw [smartSplitMessage_none (by decide) .start (by decide +kernel) longLink_stuck fuel] at hrun
  cases hrun

end Text
