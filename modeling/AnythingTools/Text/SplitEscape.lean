import AnythingTools.Text.SplitLength

namespace Text
open Find Sync
set_option autoImplicit true

/-- The text ends in a backslash that escapes what comes next. -/
def dangling (text : List Char) : Bool :=
  text.foldl (fun escaped c => !escaped && decide (c = '\\')) false

theorem dangling_append (h : dangling a = false) (b : List Char) :
    dangling (a ++ b) = dangling b := by
  rw [dangling, dangling] at *
  rw [List.foldl_append, h]

theorem dangling_concat {c : Char} (hc : c ≠ '\\') (text : List Char) :
    dangling (text ++ [c]) = false := by
  rw [dangling, List.foldl_append, List.foldl_cons, List.foldl_nil, decide_eq_false hc,
    Bool.and_false]

theorem dangling_take {text : List Char} (hc : text[k - 1]? = some c) (hpos : 1 ≤ k)
    (hne : c ≠ '\\') : dangling (text.take k) = false := by
  obtain ⟨k, rfl⟩ := Nat.exists_eq_add_of_le' hpos
  rw [Nat.add_sub_cancel] at hc
  rw [List.take_add_one, hc]
  exact dangling_concat hne _

/-- What the chunks that are merged are made of: one round of the merging pass, as for the chunks
themselves. -/
def groupStep (mode : ParseMode) (maxLength : Nat) (groups : List (List Part)) (p : Part) :
    List (List Part) :=
  match groups with
  | [] => [[p]]
  | last :: before =>
    if delimiterOnly (assembleChunk mode p) = true ∧
        (last.flatMap (assembleChunk mode) ++ assembleChunk mode p).length ≤ maxLength then
      (last ++ [p]) :: before
    else [p] :: last :: before

/-- The parts of each chunk that the splitter returns. -/
def pieces (fuel : Nat) (text : List Char) (maxLength : Nat) (mode : ParseMode) :
    Option (List (List Part)) :=
  if text = [] then some []
  else if text.length ≤ maxLength then some [[⟨text, [], [], false⟩]]
  else
    (splitLoop mode maxLength fuel ⟨text, [], [], false⟩).map fun parts =>
      (parts.foldl (groupStep mode maxLength) []).reverse

/-- What is left of a chunk without the openers, closers and quote prefixes put in. -/
def rawOf (group : List Part) : List Char := group.flatMap Part.raw

section

variable {mode : ParseMode} {maxLength : Nat} {s : Carry}

theorem assembleChunk_plain (mode : ParseMode) (text : List Char) :
    assembleChunk mode ⟨text, [], [], false⟩ = text := by
  simp [assembleChunk]

theorem groupStep_text (mode : ParseMode) (maxLength : Nat) (groups : List (List Part)) (p : Part) :
    (groupStep mode maxLength groups p).map (List.flatMap (assembleChunk mode)) =
      mergeStep maxLength (groups.map (List.flatMap (assembleChunk mode)))
        (assembleChunk mode p) := by
  cases groups with
  | nil => simp [groupStep, mergeStep]
  | cons last before =>
    rw [groupStep, List.map_cons, mergeStep]
    split
    · rw [List.map_cons, List.flatMap_append, List.flatMap_singleton]
    · rw [List.map_cons, List.map_cons, List.flatMap_singleton]

theorem foldl_groupStep_text (mode : ParseMode) (maxLength : Nat) (parts : List Part)
    (groups : List (List Part)) :
    (parts.foldl (groupStep mode maxLength) groups).map (List.flatMap (assembleChunk mode)) =
      (parts.map (assembleChunk mode)).foldl (mergeStep maxLength)
        (groups.map (List.flatMap (assembleChunk mode))) := by
  induction parts generalizing groups with
  | nil => rfl
  | cons p parts ih => rw [List.foldl_cons, ih, groupStep_text, List.map_cons, List.foldl_cons]

/-- The pieces are those of the chunks that are returned. -/
theorem pieces_text (fuel : Nat) (text : List Char) (maxLength : Nat) (mode : ParseMode) :
    smartSplitMessage fuel text maxLength (some mode) =
      (pieces fuel text maxLength mode).map
        (List.map (List.flatMap (assembleChunk mode))) := by
  by_cases hlen : maxLength < text.length
  · have hne : text ≠ [] := by
      rintro rfl
      cases hlen
    rw [smartSplitMessage_loop hlen, pieces, if_neg hne, if_neg (Nat.not_le.2 hlen),
      Option.map_map]
    congr 1
    funext parts
    rw [Function.comp_apply, List.map_reverse, foldl_groupStep_text]
    rfl
  · rw [smartSplitMessage_short hlen, pieces]
    by_cases hne : text = []
    · rw [if_pos hne, if_pos hne]
      rfl
    · rw [if_neg hne, if_neg hne, if_pos (Nat.not_lt.1 hlen), Option.map_some, List.map_singleton,
        List.flatMap_singleton, assembleChunk_plain]

theorem groupStep_flatten (mode : ParseMode) (maxLength : Nat) (groups : List (List Part))
    (p : Part) :
    (groupStep mode maxLength groups p).reverse.flatten = groups.reverse.flatten ++ [p] := by
  cases groups with
  | nil => rfl
  | cons last before =>
    rw [groupStep]
    split
    · simp only [List.reverse_cons, List.flatten_append, List.flatten_cons, List.flatten_nil,
        List.append_nil, List.append_assoc]
    · simp only [List.reverse_cons, List.flatten_append, List.flatten_cons, List.flatten_nil,
        List.append_nil]

theorem foldl_groupStep_flatten (mode : ParseMode) (maxLength : Nat) (parts : List Part)
    (groups : List (List Part)) :
    (parts.foldl (groupStep mode maxLength) groups).reverse.flatten =
      groups.reverse.flatten ++ parts := by
  induction parts generalizing groups with
  | nil => rw [List.foldl_nil, List.append_nil]
  | cons p parts ih =>
    rw [List.foldl_cons, ih, groupStep_flatten, List.append_assoc, List.singleton_append]

/-- A group that later parts come after stays as it is. -/
theorem foldl_groupStep_older (mode : ParseMode) (maxLength : Nat) (parts : List Part)
    (group : List Part) (older : List (List Part)) :
    ∃ newer, newer ≠ [] ∧
      parts.foldl (groupStep mode maxLength) (group :: older) = newer ++ older := by
  induction parts generalizing group older with
  | nil => exact ⟨[group], List.cons_ne_nil _ _, rfl⟩
  | cons p parts ih =>
    rw [List.foldl_cons, groupStep]
    split
    · exact ih _ _
    · obtain ⟨newer, _, hnewer⟩ := ih [p] (group :: older)
      refine ⟨newer ++ [group], ?_, ?_⟩
      · exact List.append_ne_nil_of_right_ne_nil _ (List.cons_ne_nil _ _)
      · rw [hnewer, List.append_assoc, List.singleton_append]

theorem groupStep_ne_nil (h : ∀ g ∈ groups, g ≠ []) :
    ∀ g ∈ groupStep mode maxLength groups p, g ≠ [] := by
  cases groups with
  | nil => exact List.forall_mem_singleton.2 (List.cons_ne_nil _ _)
  | cons last before =>
    rw [groupStep]
    rw [List.forall_mem_cons] at h
    split
    · rw [List.forall_mem_cons]
      exact ⟨List.append_ne_nil_of_right_ne_nil _ (List.cons_ne_nil _ _), h.2⟩
    · rw [List.forall_mem_cons, List.forall_mem_cons]
      exact ⟨List.cons_ne_nil _ _, h⟩

theorem foldl_groupStep_ne_nil (parts : List Part) (h : ∀ g ∈ groups, g ≠ []) :
    ∀ g ∈ parts.foldl (groupStep mode maxLength) groups, g ≠ [] := by
  induction parts generalizing groups with
  | nil => exact h
  | cons p parts ih => exact ih (groupStep_ne_nil h)

theorem groupStep_last (mode : ParseMode) (maxLength : Nat) (groups : List (List Part)) (p : Part) :
    ∃ group before, groupStep mode maxLength groups p = (group ++ [p]) :: before := by
  cases groups with
  | nil => exact ⟨[], [], rfl⟩
  | cons last before =>
    rw [groupStep]
    split
    · exact ⟨last, before, rfl⟩
    · exact ⟨[], last :: before, rfl⟩

theorem rounds_raw (h : Rounds mode maxLength s parts) : rawOf parts = s.remaining := by
  induction h with
  | done h => exact h.symm
  | final hne hc => exact List.append_nil _
  | cut hc _ ih =>
    rw [rawOf, List.flatMap_cons, ← rawOf, ih]
    exact List.take_append_drop _ _

theorem rounds_eq_nil_iff (h : Rounds mode maxLength s parts) : parts = [] ↔ s.remaining = [] := by
  cases h with
  | done h => exact iff_of_true rfl h
  | final hne hc => exact iff_of_false (List.cons_ne_nil _ _) hne
  | cut hc _ => exact iff_of_false (List.cons_ne_nil _ _) hc.1

/-- A run that comes to an end is not stuck. -/
theorem rounds_not_stuck (hmax : 3 ≤ maxLength) (hcar : Carried s)
    (h : Rounds mode maxLength s parts) (hc : s.Cuts mode maxLength) :
    ¬s.Stuck mode maxLength := by
  induction h with
  | done h => exact absurd h hc.1
  | final _ hn => exact absurd hc hn
  | cut _ _ ih =>
    intro hstuck
    have hnext := next_of_stuck hmax hcar hc.1 hstuck
    rw [hnext] at ih
    exact ih hcar hc hstuck

theorem rounds_cons (h : Rounds mode maxLength s (p :: rest)) :
    (s.remaining ≠ [] ∧ p = s.final ∧ rest = []) ∨
      (s.Cuts mode maxLength ∧ p = s.part mode maxLength ∧
        Rounds mode maxLength (s.next mode maxLength) rest) := by
  cases h with
  | final hne _ => exact .inl ⟨hne, rfl, rfl⟩
  | cut hc h => exact .inr ⟨hc, rfl, h⟩

/-- The rounds after some of the parts. -/
theorem rounds_append (hcar : Carried s) (h : Rounds mode maxLength s (pre ++ post))
    (hpost : post ≠ []) :
    ∃ t, Carried t ∧ Reached mode maxLength s t ∧ Rounds mode maxLength t post := by
  induction pre generalizing s with
  | nil => exact ⟨s, hcar, .start, h⟩
  | cons p pre ih =>
    obtain ⟨_, _, hnil⟩ | ⟨hc, _, h⟩ := rounds_cons h
    · exact absurd (List.append_eq_nil_iff.1 hnil).2 hpost
    · obtain ⟨t, ht, hr, hrounds⟩ := ih (carried_next _) h
      exact ⟨t, ht, .of_next hc hr, hrounds⟩

end

/-- A round that cuts at the limit itself, or at what its split point is moved back to, with a
backslash before the cut that escapes what comes after it. -/
def Carry.SplitsEscape (mode : ParseMode) (maxLength : Nat) (s : Carry) : Prop :=
  (softSplitPoint s.remaining ((maxLength : Int) - s.cost mode - delimiterBuffer) = none ∨
      s.cut mode maxLength < s.splitIdx mode maxLength) ∧
    s.cut mode maxLength < s.remaining.length ∧
    dangling (s.remaining.take (s.cut mode maxLength)) = true

instance (s : Carry) : Decidable (s.SplitsEscape mode maxLength) :=
  inferInstanceAs (Decidable (_ ∧ _))

section

variable {mode : ParseMode} {maxLength : Nat} {s : Carry}

/-- No backslash stands right before a soft split point that is kept. -/
theorem splitsEscape_iff (s : Carry) :
    s.SplitsEscape mode maxLength ↔
      s.cut mode maxLength < s.remaining.length ∧
        dangling (s.remaining.take (s.cut mode maxLength)) = true := by
  apply Iff.intro
  · exact And.right
  · intro h
    refine ⟨?_, h⟩
    by_contra hn
    rw [not_or, Nat.not_lt] at hn
    have hcut : s.cut mode maxLength = s.splitIdx mode maxLength :=
      Nat.le_antisymm (cut_le_splitIdx s) hn.2
    obtain hsoft | ⟨hnone, _⟩ := findSplitPoint_cases s.remaining
      ((maxLength : Int) - s.cost mode - delimiterBuffer) maxLength
    · have hd := h.2
      rw [hcut, Carry.splitIdx] at hd
      obtain hc | hc := hsoft.after
      · rw [dangling_take hc hsoft.pos (by decide)] at hd
        cases hd
      · rw [dangling_take hc hsoft.pos (by decide)] at hd
        cases hd
    · exact hn.1 hnone

theorem rawOf_cons (p : Part) (group : List Part) : rawOf (p :: group) = p.raw ++ rawOf group :=
  List.flatMap_cons

theorem cut_lt_of_rest (h : Rounds mode maxLength (s.next mode maxLength) rest) (hrest : rest ≠ []) :
    s.cut mode maxLength < s.remaining.length := by
  have hne : (s.next mode maxLength).remaining ≠ [] := fun hnil =>
    hrest ((rounds_eq_nil_iff h).2 hnil)
  have hpos := List.length_pos_iff.2 hne
  rw [length_next] at hpos
  omega

theorem rest_of_cut_lt (h : Rounds mode maxLength (s.next mode maxLength) rest)
    (hlt : s.cut mode maxLength < s.remaining.length) : rest ≠ [] := by
  intro hnil
  have hlen := congrArg List.length ((rounds_eq_nil_iff h).1 hnil)
  rw [length_next, List.length_nil] at hlen
  omega

theorem clean_of_not_splitsEscape (h : Rounds mode maxLength (s.next mode maxLength) rest)
    (hs : ¬s.SplitsEscape mode maxLength) (hrest : rest ≠ []) :
    dangling (s.part mode maxLength).raw = false := by
  rw [splitsEscape_iff, not_and, Bool.not_eq_true] at hs
  exact hs (cut_lt_of_rest h hrest)

/-- The boundaries between the parts are clean exactly if no round splits an escape. -/
theorem rounds_clean_iff (h : Rounds mode maxLength s parts) :
    (∀ pre post, parts = pre ++ post → post ≠ [] → dangling (rawOf pre) = false) ↔
      ∀ t, Reached mode maxLength s t → t.Cuts mode maxLength →
        ¬t.SplitsEscape mode maxLength := by
  induction h with
  | done h =>
    refine iff_of_true ?_ (forall_reached_of_not_cuts fun hc => hc.1 h)
    intro pre post heq hpost
    exact absurd (List.append_eq_nil_iff.1 heq.symm).2 hpost
  | final hne hc =>
    refine iff_of_true ?_ (forall_reached_of_not_cuts hc)
    intro pre post heq hpost
    cases pre with
    | nil => rfl
    | cons p pre =>
      rw [List.cons_append] at heq
      exact absurd (List.append_eq_nil_iff.1 (List.cons.inj heq).2.symm).2 hpost
  | @cut rest s hc h ih =>
    rw [forall_reached_of_cuts hc, ← ih]
    apply Iff.intro
    · intro hclean
      have hfirst (hrest : rest ≠ []) : dangling (s.part mode maxLength).raw = false := by
        have hpart := hclean [s.part mode maxLength] rest rfl hrest
        rwa [rawOf_cons, show rawOf [] = [] from rfl, List.append_nil] at hpart
      apply And.intro
      · intro hbad
        rw [splitsEscape_iff] at hbad
        have hdangling := hfirst (rest_of_cut_lt h hbad.1)
        rw [Carry.part, hbad.2] at hdangling
        cases hdangling
      · rintro pre post rfl hpost
        have hrest : pre ++ post ≠ [] := List.append_ne_nil_of_right_ne_nil _ hpost
        have hboth := hclean (s.part mode maxLength :: pre) post rfl hpost
        rwa [rawOf_cons, dangling_append (hfirst hrest)] at hboth
    · rintro ⟨hs, hclean⟩ pre post heq hpost
      cases pre with
      | nil => rfl
      | cons p pre =>
        obtain ⟨rfl, rfl⟩ := List.cons.inj heq
        have hrest : pre ++ post ≠ [] := List.append_ne_nil_of_right_ne_nil _ hpost
        rw [rawOf_cons, dangling_append (clean_of_not_splitsEscape h hs hrest)]
        exact hclean pre post rfl hpost

/-- The first part takes something off the front of what remains. -/
theorem first_raw (hmax : 3 ≤ maxLength) (hcar : Carried s)
    (h : Rounds mode maxLength s (q :: post)) : q.raw ≠ [] ∧ q.raw <+: s.remaining := by
  obtain ⟨hne, rfl, _⟩ | ⟨hc, rfl, _⟩ := rounds_cons h
  · exact ⟨hne, List.prefix_rfl⟩
  · refine ⟨?_, List.take_prefix _ _⟩
    have hcut : s.cut mode maxLength ≠ 0 := by
      rw [Ne, cut_eq_zero_iff hmax hc.1]
      exact rounds_not_stuck hmax hcar h hc
    rw [Carry.part, Ne, List.take_eq_nil_iff, not_or]
    exact ⟨hcut, hc.1⟩

/-- No long token has a bracket in it. -/
theorem bracket_notMem_token (ht : t ∈ sortedTokens mode) (hlen : 1 < t.length) : '[' ∉ t := by
  revert t
  cases mode with
  | markdown => decide
  | markdownV2 => decide

theorem prefix_get {t text : List Char} (h : t <+: text) (hk : k < t.length) :
    text[k]? = t[k]? := by
  obtain ⟨rest, rfl⟩ := h
  exact List.getElem?_append_left hk

/-- A round that begins with a long token does not cut within it. -/
theorem token_le_cut (hmax : 5 ≤ maxLength) (ht : t ∈ sortedTokens mode) (hlen : 1 < t.length)
    (hpre : t <+: s.remaining) : t.length ≤ s.cut mode maxLength := by
  obtain ⟨hthree, hnl, hblank⟩ := token_spec ht
  have hsplit : t.length ≤ s.splitIdx mode maxLength := by
    obtain hsoft | ⟨_, hhard⟩ := findSplitPoint_cases s.remaining
      ((maxLength : Int) - s.cost mode - delimiterBuffer) maxLength
    · rw [← Carry.splitIdx] at hsoft
      by_contra hlt
      have hpos := hsoft.pos
      have hafter := hsoft.after
      rw [prefix_get hpre (by omega)] at hafter
      obtain hc | hc := hafter
      · exact hnl (List.mem_of_getElem? hc)
      · exact hblank (List.mem_of_getElem? hc)
    · have hle := hpre.length_le
      rw [Carry.splitIdx, hhard]
      omega
  obtain h | ⟨_, p, hb, _⟩ | ⟨_, heq, _⟩ :=
    rollback_cases s.remaining (s.splitIdx mode maxLength) (sortedTokens mode)
  · obtain ⟨_, _, hback⟩ := straddled_hard h
    rw [Carry.cut]
    omega
  · obtain ⟨_, _, hat⟩ := rfind_some hb
    rw [singleton_prefix_drop] at hat
    by_contra hlt
    rw [Carry.cut, Nat.not_le] at hlt
    rw [prefix_get hpre hlt] at hat
    exact bracket_notMem_token ht hlen (List.mem_of_getElem? hat)
  · rw [Carry.cut, heq]
    exact hsplit

theorem mem_lstrip {text : List Char} (hc : isSpace c = false) (h : c ∈ text) : c ∈ lstrip text := by
  rw [← List.takeWhile_append_dropWhile (p := isSpace) (l := text), List.mem_append] at h
  obtain h | h := h
  · rw [List.mem_takeWhile_imp h] at hc
    cases hc
  · exact h

theorem mem_strip {text : List Char} (hc : isSpace c = false) (h : c ∈ text) : c ∈ strip text :=
  List.mem_reverse.2 (mem_lstrip hc (List.mem_reverse.2 (mem_lstrip hc h)))

theorem not_delimiterOnly {chunk : List Char} (h : '[' ∈ chunk) : delimiterOnly chunk = false := by
  rw [delimiterOnly, decide_eq_false_iff_not]
  intro hmem
  have hin := mem_strip (by decide) h
  revert hmem hin
  generalize strip chunk = stripped
  intro hmem hin
  simp only [List.mem_cons, List.not_mem_nil, or_false] at hmem
  obtain rfl | rfl | rfl | rfl | rfl := hmem
  · cases hin
  all_goals
    revert hin
    decide

theorem mem_assembleChunk {p : Part} (h : c ∈ p.raw) : c ∈ assembleChunk mode p := by
  rw [← List.takeWhile_append_dropWhile (p := (· = '\n')) (l := p.raw), List.mem_append] at h
  simp only [assembleChunk, List.mem_append]
  obtain h | h := h
  · exact .inl (.inl (.inl (.inl h)))
  · exact .inl (.inr h)

/-- A part with nothing put in is its raw text. -/
theorem assembleChunk_raw {p : Part} (h : (assembleChunk mode p).length ≤ p.raw.length) :
    assembleChunk mode p = p.raw := by
  rw [length_assembleChunk] at h
  have hq : quotePrefix mode p = [] := List.length_eq_zero_iff.1 (by omega)
  have ho : p.openers = [] := List.length_eq_zero_iff.1 (by omega)
  have hc : p.closers = [] := List.length_eq_zero_iff.1 (by omega)
  rw [quotePrefix] at hq
  simp only [assembleChunk, hq, ho, hc, List.append_nil, List.takeWhile_append_dropWhile]

theorem raw_le_text (mode : ParseMode) (p : Part) : p.raw.length ≤ (assembleChunk mode p).length := by
  rw [length_assembleChunk]
  omega

theorem not_delimiterOnly_token (ht : t ∈ sortedTokens mode) (hlen : t.length = 2) :
    delimiterOnly t = false := by
  revert t
  cases mode with
  | markdown => decide
  | markdownV2 => decide

theorem cut_le_group (hcar : Carried s) (group : List Part) :
    s.cut mode maxLength ≤
      ((group ++ [s.part mode maxLength]).flatMap (assembleChunk mode)).length := by
  rw [List.flatMap_append, List.flatMap_singleton, List.length_append, length_part hcar]
  omega

/-- What comes after a cut that splits an escape is not merged onto what comes before it. -/
theorem not_merged (hmax : 5 ≤ maxLength) (hcar : Carried s) (hbad : s.SplitsEscape mode maxLength)
    (h : Rounds mode maxLength (s.next mode maxLength) (q :: post)) (group : List Part) :
    ¬(delimiterOnly (assembleChunk mode q) = true ∧
      ((group ++ [s.part mode maxLength]).flatMap (assembleChunk mode) ++
        assembleChunk mode q).length ≤ maxLength) := by
  rintro ⟨honly, hle⟩
  have hgroup : s.cut mode maxLength ≤
      ((group ++ [s.part mode maxLength]).flatMap (assembleChunk mode)).length :=
    cut_le_group hcar group
  rw [List.length_append] at hle
  obtain ⟨hraw, hpre⟩ := first_raw (by omega) (carried_next s) h
  have hrawlen := List.length_pos_iff.2 hraw
  have htext := raw_le_text mode q
  obtain hcut | ⟨_, p, hb, _⟩ | ⟨_, heq, _⟩ :=
    rollback_cases s.remaining (s.splitIdx mode maxLength) (sortedTokens mode)
  · -- a token that the limit straddles comes after the cut, and fills what the limit leaves
    obtain ⟨t, ht, hlt, hlen, hat⟩ := mem_straddled hcut
    obtain ⟨_, hlimit, hback⟩ := straddled_hard hcut
    rw [← Carry.cut] at hlt hlen hat hback
    have htwo : 1 < t.length := by omega
    have hin : t <+: q.raw := by
      obtain ⟨_, rfl, _⟩ | ⟨_, rfl, _⟩ := rounds_cons h
      · exact hat
      · exact List.prefix_take_iff.2 ⟨hat, token_le_cut hmax ht htwo hat⟩
    have htlen := hin.length_le
    have hq : assembleChunk mode q = q.raw := assembleChunk_raw (by omega)
    have htq : t = q.raw := hin.eq_of_length (by omega)
    rw [hq, ← htq, not_delimiterOnly_token ht (by omega)] at honly
    cases honly
  · -- a bracket comes after the cut
    obtain ⟨_, _, hat⟩ := rfind_some hb
    rw [← Carry.cut, singleton_prefix_drop, ← List.head?_drop] at hat
    have hmem : '[' ∈ q.raw := by
      obtain ⟨c, cs, hcs⟩ := List.exists_cons_of_ne_nil hraw
      obtain ⟨rest, hrest⟩ := hpre
      have hhead : (s.next mode maxLength).remaining.head? = some '[' := hat
      rw [← hrest, hcs, List.cons_append, List.head?_cons] at hhead
      rw [hcs, Option.some.inj hhead]
      exact List.mem_cons_self
    rw [not_delimiterOnly (mem_assembleChunk hmem)] at honly
    cases honly
  · -- the cut is the limit, so what comes before it fills the chunk
    rw [← Carry.cut] at heq
    obtain ⟨hnone | hlt, hin, _⟩ := hbad
    · have hsplit : s.splitIdx mode maxLength = min maxLength s.remaining.length := by
        rw [Carry.splitIdx, findSplitPoint, hnone, Option.getD_none]
      omega
    · omega

/-- So it stays a boundary of the chunks. -/
theorem boundary_of_splitsEscape (hmax : 5 ≤ maxLength) (hcar : Carried s)
    (hbad : s.SplitsEscape mode maxLength)
    (h : Rounds mode maxLength (s.next mode maxLength) (q :: post)) (pre : List Part) :
    ∃ older newer, newer ≠ [] ∧ older.reverse.flatten = pre ++ [s.part mode maxLength] ∧
      (pre ++ s.part mode maxLength :: q :: post).foldl (groupStep mode maxLength) [] =
        newer ++ older := by
  obtain ⟨group, before, hlast⟩ := groupStep_last mode maxLength
    (pre.foldl (groupStep mode maxLength) []) (s.part mode maxLength)
  obtain ⟨newer, hne, hnewer⟩ := foldl_groupStep_older mode maxLength post [q]
    ((group ++ [s.part mode maxLength]) :: before)
  refine ⟨(group ++ [s.part mode maxLength]) :: before, newer, hne, ?_, ?_⟩
  · rw [← hlast, groupStep_flatten, foldl_groupStep_flatten]
    rfl
  · rw [List.foldl_append, List.foldl_cons, List.foldl_cons, hlast, groupStep,
      if_neg (not_merged hmax hcar hbad h group), hnewer]

/-- The boundaries of the chunks are clean exactly if those of the parts are. -/
theorem groups_clean_iff (hmax : 5 ≤ maxLength) (hcar : Carried s)
    (h : Rounds mode maxLength s parts) :
    (∀ pre post, (parts.foldl (groupStep mode maxLength) []).reverse = pre ++ post → post ≠ [] →
        dangling (rawOf pre.flatten) = false) ↔
      ∀ pre post, parts = pre ++ post → post ≠ [] → dangling (rawOf pre) = false := by
  apply Iff.intro
  · -- by the first boundary that is not clean: the round before it splits an escape
    intro hclean pre
    induction pre using List.reverseRecOn with
    | nil => exact fun _ _ _ => rfl
    | append_singleton pre p ih =>
      intro post heq hpost
      rw [List.append_assoc, List.singleton_append] at heq
      have hpre : dangling (rawOf pre) = false := ih (p :: post) heq (List.cons_ne_nil _ _)
      by_contra hdangling
      rw [rawOf, List.flatMap_append, List.flatMap_singleton, ← rawOf, dangling_append hpre,
        Bool.not_eq_false] at hdangling
      rw [heq] at h
      obtain ⟨t, ht, _, hrounds⟩ := rounds_append hcar h (List.cons_ne_nil _ _)
      obtain ⟨_, _, hnil⟩ | ⟨_, rfl, hrest⟩ := rounds_cons hrounds
      · exact hpost hnil
      obtain ⟨q, post, rfl⟩ := List.exists_cons_of_ne_nil hpost
      have hbad : t.SplitsEscape mode maxLength :=
        (splitsEscape_iff t).2 ⟨cut_lt_of_rest hrest hpost, hdangling⟩
      obtain ⟨older, newer, hne, hflat, hfold⟩ :=
        boundary_of_splitsEscape hmax ht hbad hrest pre
      have hboundary := hclean older.reverse newer.reverse
        (by rw [heq, hfold, List.reverse_append]) (by simpa using hne)
      rw [hflat, rawOf, List.flatMap_append, List.flatMap_singleton, ← rawOf,
        dangling_append hpre, hdangling] at hboundary
      cases hboundary
  · intro hclean pre post heq hpost
    have hflat : (parts.foldl (groupStep mode maxLength) []).reverse.flatten = parts :=
      foldl_groupStep_flatten mode maxLength parts []
    rw [heq, List.flatten_append] at hflat
    refine hclean pre.flatten post.flatten hflat.symm ?_
    obtain ⟨g, post, rfl⟩ := List.exists_cons_of_ne_nil hpost
    have hall : ∀ g ∈ parts.foldl (groupStep mode maxLength) [], g ≠ [] :=
      foldl_groupStep_ne_nil parts (List.forall_mem_nil _)
    have hg : g ≠ [] := by
      apply hall
      rw [← List.mem_reverse, heq]
      exact List.mem_append_right _ List.mem_cons_self
    rw [List.flatten_cons]
    exact List.append_ne_nil_of_left_ne_nil hg _

end

theorem rawOf_flatten (groups : List (List Part)) :
    (groups.map rawOf).flatten = rawOf groups.flatten := by
  induction groups with
  | nil => rfl
  | cons g groups ih =>
    rw [List.map_cons, List.flatten_cons, ih, List.flatten_cons, rawOf, rawOf, rawOf,
      List.flatMap_append]

/-- The chunks that the splitter returns give back the text without what was put in, and no
boundary between them splits an escape exactly if no round does. -/
theorem smartSplitMessage_raw_iff (text : List Char) (maxLength fuel : Nat)
    (groups : List (List Part)) (hmax : 5 ≤ maxLength)
    (h : pieces fuel text maxLength .markdownV2 = some groups) :
    smartSplitMessage fuel text maxLength (some .markdownV2) =
        some (groups.map (List.flatMap (assembleChunk .markdownV2))) ∧
      (groups.map rawOf).flatten = text ∧
      ((∀ pre post, groups = pre ++ post → post ≠ [] →
          dangling (pre.map rawOf).flatten = false) ↔
        ∀ s, Reached .markdownV2 maxLength ⟨text, [], [], false⟩ s → s.Cuts .markdownV2 maxLength →
          ¬s.SplitsEscape .markdownV2 maxLength) := by
  refine ⟨by rw [pieces_text, h, Option.map_some], ?_⟩
  simp only [rawOf_flatten]
  rw [pieces] at h
  by_cases hlen : maxLength < text.length
  · have hne : text ≠ [] := by
      rintro rfl
      cases hlen
    rw [if_neg hne, if_neg (Nat.not_le.2 hlen), Option.map_eq_some_iff] at h
    obtain ⟨parts, hparts, rfl⟩ := h
    have hrounds := rounds_of_splitLoop hparts
    refine ⟨?_, ?_⟩
    · rw [foldl_groupStep_flatten]
      exact rounds_raw hrounds
    · rw [groups_clean_iff hmax (carried_start text) hrounds]
      exact rounds_clean_iff hrounds
  · have hvacuous := forall_reached_of_not_cuts
      (P := fun s => ¬s.SplitsEscape .markdownV2 maxLength) (not_cuts_start hlen .markdownV2)
    by_cases hne : text = []
    · rw [if_pos hne] at h
      cases h
      refine ⟨hne.symm, iff_of_true ?_ hvacuous⟩
      intro pre post heq hpost
      exact absurd (List.append_eq_nil_iff.1 heq.symm).2 hpost
    · rw [if_neg hne, if_pos (Nat.not_lt.1 hlen)] at h
      cases h
      refine ⟨List.append_nil text, iff_of_true ?_ hvacuous⟩
      intro pre post heq hpost
      cases pre with
      | nil => rfl
      | cons g pre =>
        rw [List.cons_append] at heq
        exact absurd (List.append_eq_nil_iff.1 (List.cons.inj heq).2.symm).2 hpost

/-- A text that the limit cuts before a backslash. -/
def plainDot : List Char := List.replicate 200 'a' ++ ['\\', '.']

theorem smartSplitMessage_plainDot :
    pieces 2 plainDot 200 .markdownV2 =
        some [[⟨List.replicate 200 'a', [], [], false⟩], [⟨['\\', '.'], [], [], false⟩]] ∧
      ∀ s, Reached .markdownV2 200 ⟨plainDot, [], [], false⟩ s → s.Cuts .markdownV2 200 →
        ¬s.SplitsEscape .markdownV2 200 := by
  have hrun : pieces 2 plainDot 200 .markdownV2 =
      some [[⟨List.replicate 200 'a', [], [], false⟩], [⟨['\\', '.'], [], [], false⟩]] := by
    decide +kernel
  refine ⟨hrun, (smartSplitMessage_raw_iff plainDot 200 2 _ (by decide) hrun).2.2.1 ?_⟩
  intro pre post heq hpost
  obtain _ | ⟨g, _ | ⟨g', pre⟩⟩ := pre
  · rfl
  · rw [← (List.cons.inj heq).1]
    decide +kernel
  · have hnil := (List.cons.inj (List.cons.inj heq).2).2
    exact absurd (List.append_eq_nil_iff.1 hnil.symm).2 hpost

/-- One that it cuts after a backslash. -/
def escapedDot : List Char := List.replicate 199 'a' ++ ['\\', '.']

theorem smartSplitMessage_escapedDot :
    smartSplitMessage 2 escapedDot 200 (some .markdownV2) =
        some [List.replicate 199 'a' ++ ['\\'], ['.']] ∧
      pieces 2 escapedDot 200 .markdownV2 =
        some [[⟨List.replicate 199 'a' ++ ['\\'], [], [], false⟩], [⟨['.'], [], [], false⟩]] ∧
      dangling (List.replicate 199 'a' ++ ['\\']) = true := by
  decide +kernel

end Text
