import AnythingTools.Find
import AnythingTools.Sync.PullToLocal

namespace Text
open Find Sync
set_option autoImplicit true

/-- `str.lstrip`. -/
def lstrip (s : List Char) : List Char := s.dropWhile isSpace

/-- Where the boundary splitter cuts a text that is too long. -/
def boundary (remaining : List Char) (maxLength : Nat) : Nat :=
  (rfind remaining ['\n'] 0 maxLength).getD maxLength

/-- The loop of `_split_boundary_only`, for as long as the fuel lasts. -/
def boundaryLoop (maxLength : Nat) : Nat → List Char → Option (List (List Char))
  | _, [] => some []
  | 0, _ :: _ => none
  | fuel + 1, c :: cs =>
    let remaining := c :: cs
    if remaining.length ≤ maxLength then some [remaining]
    else
      let split := boundary remaining maxLength
      (boundaryLoop maxLength fuel (lstrip (remaining.drop split))).map
        (remaining.take split :: ·)

/-- `_split_boundary_only`. -/
def splitBoundaryOnly (fuel : Nat) (text : List Char) (maxLength : Nat) :
    Option (List (List Char)) :=
  if text = [] then some []
  else if text.length ≤ maxLength then some [text]
  else boundaryLoop maxLength fuel text

/-- The pieces are the text in order, with blanks between them and after them left out. -/
def Covers : List (List Char) → List Char → Prop
  | [], text => text = []
  | chunk :: chunks, text =>
    ∃ gap rest, text = chunk ++ gap ++ rest ∧ (∀ c ∈ gap, isSpace c = true) ∧ Covers chunks rest

section

variable {text : List Char} {maxLength : Nat}

theorem boundary_le (text : List Char) (maxLength : Nat) : boundary text maxLength ≤ maxLength := by
  rw [boundary]
  cases h : rfind text ['\n'] 0 maxLength with
  | none => exact Nat.le_refl _
  | some i =>
    obtain ⟨_, hi, _⟩ := rfind_some h
    simp only [clamp_natCast, List.length_singleton] at hi
    rw [Option.getD_some]
    omega

/-- The cut is at the front only where a newline stands there and no other in reach. -/
theorem boundary_eq_zero_iff (hmax : 1 ≤ maxLength) (hlen : maxLength < text.length) :
    boundary text maxLength = 0 ↔ text.head? = some '\n' ∧ '\n' ∉ (text.take maxLength).tail := by
  rw [← rfind_front hmax (Nat.le_of_lt hlen), boundary]
  cases rfind text ['\n'] 0 maxLength with
  | none => simp [Nat.ne_of_gt hmax]
  | some i => simp

theorem lstrip_length_le (s : List Char) : (lstrip s).length ≤ s.length :=
  (List.dropWhile_sublist _).length_le

theorem lstrip_cons_space (hc : isSpace c = true) (cs : List Char) : lstrip (c :: cs) = lstrip cs :=
  List.dropWhile_cons_of_pos hc

/-- What the loop goes on with is shorter. -/
theorem lstrip_lt (hmax : 1 ≤ maxLength) (hlen : maxLength < text.length) :
    (lstrip (text.drop (boundary text maxLength))).length < text.length := by
  by_cases h0 : boundary text maxLength = 0
  · obtain ⟨hhead, _⟩ := (boundary_eq_zero_iff hmax hlen).1 h0
    obtain ⟨cs, rfl⟩ := List.head?_eq_some_iff.1 hhead
    rw [h0, List.drop_zero, lstrip_cons_space (by decide)]
    exact Nat.lt_succ_of_le (lstrip_length_le cs)
  · refine Nat.lt_of_le_of_lt (lstrip_length_le _) ?_
    rw [List.length_drop]
    omega

/-- What is stripped does not begin with a newline. -/
theorem head?_lstrip (s : List Char) : (lstrip s).head? ≠ some '\n' := by
  intro h
  have hn := List.head?_dropWhile_not isSpace s
  rw [lstrip] at h
  rw [h] at hn
  revert hn
  decide

end

/-- What holds of the chunks of a text. -/
structure Divided (maxLength : Nat) (text : List Char) (chunks : List (List Char)) : Prop where
  bounded : ∀ chunk ∈ chunks, chunk.length ≤ maxLength
  covers : Covers chunks text

theorem Divided.nil (maxLength : Nat) : Divided maxLength [] [] :=
  ⟨fun _ h => (nomatch h), rfl⟩

theorem Divided.one (h : text.length ≤ maxLength) : Divided maxLength text [text] := by
  refine ⟨?_, [], [], ?_, fun _ hc => (nomatch hc), rfl⟩
  · intro chunk hchunk
    rw [List.mem_singleton.1 hchunk]
    exact h
  · rw [List.append_nil, List.append_nil]

theorem Divided.cons {maxLength : Nat} (hsplit : split ≤ maxLength)
    (h : Divided maxLength (lstrip (text.drop split)) chunks) :
    Divided maxLength text (text.take split :: chunks) := by
  refine ⟨?_, (text.drop split).takeWhile isSpace, _, ?_, ?_, h.covers⟩
  · intro chunk hchunk
    obtain rfl | hchunk := List.mem_cons.1 hchunk
    · exact Nat.le_trans (List.length_take_le _ _) hsplit
    · exact h.bounded chunk hchunk
  · rw [List.append_assoc, lstrip, List.takeWhile_append_dropWhile, List.take_append_drop]
  · intro c hc
    exact List.mem_takeWhile_imp hc

/-- The loop ends, and only its first chunk can be empty. -/
theorem boundaryLoop_divided {maxLength : Nat} (hmax : 1 ≤ maxLength) (fuel : Nat)
    (text : List Char) (hfuel : text.length ≤ fuel) :
    ∃ chunks, boundaryLoop maxLength fuel text = some chunks ∧ Divided maxLength text chunks ∧
      ((∀ chunk ∈ chunks, chunk ≠ []) ↔
        ¬(maxLength < text.length ∧ boundary text maxLength = 0)) := by
  induction fuel generalizing text with
  | zero =>
    cases List.length_eq_zero_iff.1 (Nat.le_zero.1 hfuel)
    exact ⟨[], rfl, .nil maxLength, by simp⟩
  | succ fuel ih =>
    cases text with
    | nil => exact ⟨[], rfl, .nil maxLength, by simp⟩
    | cons c cs =>
      by_cases hlen : (c :: cs).length ≤ maxLength
      · refine ⟨[c :: cs], by rw [boundaryLoop, if_pos hlen], .one hlen, ?_⟩
        have hn : ¬maxLength < (c :: cs).length := Nat.not_lt.2 hlen
        simp only [hn, false_and, not_false_iff, iff_true, List.mem_singleton, forall_eq]
        exact List.cons_ne_nil c cs
      · rw [Nat.not_le] at hlen
        have hlt := lstrip_lt hmax hlen
        obtain ⟨chunks, hrun, hdiv, hne⟩ :=
          ih (lstrip ((c :: cs).drop (boundary (c :: cs) maxLength))) (by omega)
        refine ⟨(c :: cs).take (boundary (c :: cs) maxLength) :: chunks, ?_,
          .cons (boundary_le _ _) hdiv, ?_⟩
        · rw [boundaryLoop, if_neg (Nat.not_le.2 hlen)]
          dsimp only
          rw [hrun, Option.map_some]
        · -- the later chunks come off a text that does not begin with a newline
          have hrest : ∀ chunk ∈ chunks, chunk ≠ [] := by
            apply hne.2
            rintro ⟨hlen', h0⟩
            exact head?_lstrip _ ((boundary_eq_zero_iff hmax hlen').1 h0).1
          rw [List.forall_mem_cons, and_iff_left hrest]
          simp only [hlen, true_and, ne_eq, List.take_eq_nil_iff, reduceCtorEq, or_false]

/-- The splitter returns chunks within the limit that are the text in order without the blanks
between them. None of them is empty exactly if a text that is too long does not begin with a
newline that is the only one in reach. -/
theorem splitBoundaryOnly_nonempty_iff (text : List Char) (maxLength fuel : Nat)
    (hmax : 1 ≤ maxLength) (hfuel : text.length ≤ fuel) :
    ∃ chunks, splitBoundaryOnly fuel text maxLength = some chunks ∧
      (∀ chunk ∈ chunks, chunk.length ≤ maxLength) ∧ Covers chunks text ∧
      ((∀ chunk ∈ chunks, chunk ≠ []) ↔
        ¬(maxLength < text.length ∧ text.head? = some '\n' ∧
          '\n' ∉ (text.take maxLength).tail)) := by
  by_cases htext : text = []
  · refine ⟨[], by rw [splitBoundaryOnly, if_pos htext], fun _ h => (nomatch h), htext, ?_⟩
    rw [htext]
    simp
  · by_cases hlen : text.length ≤ maxLength
    · have hone := Divided.one hlen
      refine ⟨[text], by rw [splitBoundaryOnly, if_neg htext, if_pos hlen], hone.bounded,
        hone.covers, ?_⟩
      have hn : ¬maxLength < text.length := Nat.not_lt.2 hlen
      simp only [hn, false_and, not_false_iff, iff_true, List.mem_singleton, forall_eq]
      exact htext
    · obtain ⟨chunks, hrun, hdiv, hne⟩ := boundaryLoop_divided hmax fuel text hfuel
      refine ⟨chunks, by rw [splitBoundaryOnly, if_neg htext, if_neg hlen, hrun], hdiv.bounded,
        hdiv.covers, ?_⟩
      rw [hne, and_congr_right fun hlen' => boundary_eq_zero_iff hmax hlen']

theorem splitBoundaryOnly_words :
    ∃ chunks, splitBoundaryOnly 5 ['a', 'b', '\n', 'c', 'd'] 3 = some chunks ∧
      ∀ chunk ∈ chunks, chunk ≠ [] := by
  obtain ⟨chunks, hrun, _, _, hne⟩ :=
    splitBoundaryOnly_nonempty_iff ['a', 'b', '\n', 'c', 'd'] 3 5 (by decide) (by decide)
  exact ⟨chunks, hrun, hne.2 (by decide)⟩

/-- A newline and a word that fills the limit. -/
theorem splitBoundaryOnly_empty_chunk :
    splitBoundaryOnly 4 ['\n', 'a', 'b', 'c'] 3 = some [[], ['a', 'b', 'c']] := by
  decide

end Text
