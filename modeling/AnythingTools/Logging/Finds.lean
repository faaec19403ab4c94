import AnythingTools.Logging.Redaction

namespace Logging
set_option autoImplicit true

/-! ### The matches in a text -/

/-- A match: the text before it, its first group and what follows that. -/
structure Found where
  before : Text
  head : Text
  value : Text
deriving DecidableEq, Repr

namespace Found

/-- The match in a longer text. -/
def shift (p : Text) (m : Found) : Found := { m with before := p ++ m.before }

/-- Where the value starts. -/
def start (m : Found) : Nat := m.before.length + m.head.length

def stop (m : Found) : Nat := m.start + (word m.value).length

/-- What stands before the value. -/
def front (m : Found) : Text := m.before ++ m.head

@[simp] theorem shift_front (p : Text) (m : Found) : (m.shift p).front = p ++ m.front :=
  List.append_assoc p m.before m.head

@[simp] theorem shift_start (p : Text) (m : Found) : (m.shift p).start = p.length + m.start := by
  rw [start, shift, List.length_append, Nat.add_assoc, ← start]

@[simp] theorem shift_stop (p : Text) (m : Found) : (m.shift p).stop = p.length + m.stop := by
  rw [stop, shift_start, stop, Nat.add_assoc]
  rfl

end Found

/-- The matches that `sub` replaces, `_REDACT_PEEK_PATTERN.finditer(s)`. -/
def finds (t : Text) : List Found :=
  match h : peek t with
  | some (head, v) =>
    have := afterWord_length h
    ⟨[], head, v⟩ :: (finds (afterWord v)).map (Found.shift (head ++ word v))
  | none =>
    match t with
    | [] => []
    | c :: cs => (finds cs).map (Found.shift [c])
termination_by t.length

theorem word_append_afterWord (v : Text) : word v ++ afterWord v = v :=
  List.takeWhile_append_dropWhile

theorem redact_match (h : peek t = some (head, v)) :
    redact t = head ++ (redacted ++ redact (afterWord v)) := by
  rw [redact.eq_def]
  split
  next head' v' h' =>
    rw [h] at h'
    cases h'
    rfl
  next h' =>
    rw [h] at h'
    cases h'

theorem redact_cons (h : peek (c :: cs) = none) : redact (c :: cs) = c :: redact cs := by
  rw [redact.eq_def]
  split
  next h' =>
    rw [h] at h'
    cases h'
  next => rfl

theorem finds_match (h : peek t = some (head, v)) :
    finds t = ⟨[], head, v⟩ :: (finds (afterWord v)).map (Found.shift (head ++ word v)) := by
  rw [finds.eq_def]
  split
  next head' v' h' =>
    rw [h] at h'
    cases h'
    rfl
  next h' =>
    rw [h] at h'
    cases h'

theorem finds_cons (h : peek (c :: cs) = none) :
    finds (c :: cs) = (finds cs).map (Found.shift [c]) := by
  rw [finds.eq_def]
  split
  next h' =>
    rw [h] at h'
    cases h'
  next => rfl

theorem peek_nil : peek [] = none := by decide

@[simp] theorem finds_nil : finds [] = [] := by
  rw [finds.eq_def]
  split
  next h =>
    rw [peek_nil] at h
    cases h
  next => rfl

@[simp] theorem redact_nil : redact [] = [] := by
  rw [redact.eq_def]
  split
  next h =>
    rw [peek_nil] at h
    cases h
  next => rfl

/-- The search over a text: a match goes on behind its value, and anything else one further. -/
theorem search_induct {P : Text → Prop} (hnil : P [])
    (hmatch : ∀ head v, peek (head ++ v) = some (head, v) → IsHead head → StartsWord v →
      P (afterWord v) → P (head ++ v))
    (hcons : ∀ c cs, peek (c :: cs) = none → P cs → P (c :: cs)) (t : Text) : P t := by
  fun_induction finds t with
  | case1 t head v h _ ih =>
    obtain ⟨rfl, hhead, hv⟩ := peek_some h
    exact hmatch head v h hhead hv ih
  | case2 => exact hnil
  | case3 c cs h ih => exact hcons c cs h ih

theorem mem_finds (h : m ∈ finds t) :
    t = m.front ++ m.value ∧ IsHead m.head ∧ StartsWord m.value := by
  induction t using search_induct generalizing m with
  | hnil =>
    rw [finds_nil] at h
    cases h
  | hmatch head v hp hhead hv ih =>
    rw [finds_match hp, List.mem_cons, List.mem_map] at h
    rcases h with rfl | ⟨m', hm', rfl⟩
    · exact ⟨rfl, hhead, hv⟩
    · obtain ⟨ht, hhead', hv'⟩ := ih hm'
      refine ⟨?_, hhead', hv'⟩
      have hvalue : (m'.shift (head ++ word v)).value = m'.value := rfl
      rw [Found.shift_front, hvalue, List.append_assoc, ← ht, List.append_assoc,
        word_append_afterWord]
  | hcons c cs hp ih =>
    rw [finds_cons hp, List.mem_map] at h
    obtain ⟨m', hm', rfl⟩ := h
    obtain ⟨ht, hhead', hv'⟩ := ih hm'
    refine ⟨?_, hhead', hv'⟩
    rw [Found.shift_front, List.append_assoc]
    exact congrArg (c :: ·) ht

/-! ### Words -/

theorem word_append (hw : ∀ c ∈ w, isSpace c = false) (t : Text) : word (w ++ t) = w ++ word t :=
  List.takeWhile_append_of_pos fun c hc => by rw [hw c hc]; rfl

theorem afterWord_append (hw : ∀ c ∈ w, isSpace c = false) (t : Text) :
    afterWord (w ++ t) = afterWord t :=
  List.dropWhile_append_of_pos fun c hc => by rw [hw c hc]; rfl

theorem not_space_of_mem_word (h : c ∈ word v) : isSpace c = false := by
  have hc := List.mem_takeWhile_imp h
  rwa [Bool.not_eq_true'] at hc

theorem word_of_endsWord (h : EndsWord t) : word t = [] := by
  cases t with
  | nil => rfl
  | cons c t =>
    rw [word, List.takeWhile_cons_of_neg]
    rw [h c rfl]
    exact Bool.false_ne_true

theorem afterWord_of_endsWord (h : EndsWord t) : afterWord t = t := by
  have hsplit := word_append_afterWord t
  rwa [word_of_endsWord h] at hsplit

/-- A word ends at a blank, whatever comes behind that. -/
theorem word_append_of_space (hw : ¬ ∀ c ∈ w, isSpace c = false) (t : Text) :
    word (w ++ t) = word w ∧ afterWord (w ++ t) = afterWord w ++ t := by
  have hword : ∀ c ∈ word w, isSpace c = false := fun c hc => not_space_of_mem_word hc
  have hsplit : w ++ t = word w ++ (afterWord w ++ t) := by
    rw [← List.append_assoc, word_append_afterWord]
  have hends : EndsWord (afterWord w ++ t) := by
    cases hafter : afterWord w with
    | nil =>
      have hsame := word_append_afterWord w
      rw [hafter, List.append_nil] at hsame
      rw [hsame] at hword
      exact absurd hword hw
    | cons c rest =>
      have hspace := endsWord_afterWord w
      rw [hafter] at hspace
      exact fun c' hc' => hspace c' hc'
  rw [hsplit, word_append hword, afterWord_append hword, word_of_endsWord hends,
    afterWord_of_endsWord hends, List.append_nil]
  exact ⟨rfl, rfl⟩

/-- The last word of a text, which is empty after a blank. -/
def lastWord (t : Text) : Text := (t.reverse.takeWhile fun c => !isSpace c).reverse

theorem lastWord_suffix (t : Text) : lastWord t <:+ t := by
  rw [lastWord, ← List.reverse_prefix, List.reverse_reverse]
  exact List.takeWhile_prefix _

theorem lastWord_append (x : Text) (hw : ∀ c ∈ w, isSpace c = false) :
    lastWord (x ++ w) = lastWord x ++ w := by
  have hrev : ∀ c ∈ w.reverse, (!isSpace c) = true := by
    intro c hc
    rw [hw c (List.mem_reverse.1 hc)]
    rfl
  rw [lastWord, List.reverse_append, List.takeWhile_append_of_pos hrev, List.reverse_append,
    List.reverse_reverse]
  rfl

theorem lastWord_of_space (x w : Text) (hc : isSpace c = true) :
    lastWord (x ++ c :: w) = lastWord (c :: w) := by
  have hshort : (((c :: w).reverse).takeWhile fun c => !isSpace c).length ≠
      ((c :: w).reverse).length := by
    intro hlength
    have heq := (List.takeWhile_prefix _).eq_of_length hlength
    have hmem : c ∈ ((c :: w).reverse).takeWhile fun c => !isSpace c := by
      rw [heq, List.mem_reverse]
      exact List.mem_cons_self
    have hnot := List.mem_takeWhile_imp hmem
    rw [hc] at hnot
    exact Bool.false_ne_true hnot
  rw [lastWord, lastWord, List.reverse_append, List.takeWhile_append, if_neg hshort]

theorem lastWord_cons (h : ¬ ∀ d ∈ (c :: w : Text), isSpace d = false) :
    lastWord (c :: w) = lastWord w := by
  by_cases hw : ∀ d ∈ w, isSpace d = false
  · have hc : isSpace c = true := by
      by_contra hc
      rw [Bool.not_eq_true] at hc
      exact h (List.forall_mem_cons.2 ⟨hc, hw⟩)
    have hempty : lastWord [c] = [] := by
      rw [lastWord, List.reverse_singleton, List.takeWhile_cons_of_neg, List.reverse_nil]
      rw [hc]
      exact Bool.false_ne_true
    have happend := lastWord_append [c] hw
    have hnil := lastWord_append [] hw
    rw [hempty] at happend
    exact happend.trans hnil.symm
  · push Not at hw
    obtain ⟨d, hd, hspace⟩ := hw
    rw [ne_eq, Bool.not_eq_false] at hspace
    obtain ⟨x, y, rfl⟩ := List.append_of_mem hd
    rw [← List.cons_append, lastWord_of_space _ _ hspace, lastWord_of_space _ _ hspace]

theorem lastWord_of_word (hw : ∀ c ∈ w, isSpace c = false) : lastWord w = w :=
  lastWord_append [] hw

theorem lastWord_suffix_append (x w : Text) : lastWord w <:+ lastWord (x ++ w) := by
  induction x with
  | nil => exact List.suffix_refl _
  | cons c x ih =>
    by_cases h : ∀ d ∈ c :: (x ++ w), isSpace d = false
    · have hw : ∀ d ∈ w, isSpace d = false := fun d hd => h d (by simp [hd])
      rw [List.cons_append, lastWord_of_word h, lastWord_of_word hw, ← List.cons_append]
      exact List.suffix_append _ w
    · rw [List.cons_append, lastWord_cons h]
      exact ih

theorem suffix_lastWord (hw : ∀ c ∈ w, isSpace c = false) (h : w <:+ x) : w <:+ lastWord x := by
  obtain ⟨z, rfl⟩ := h
  rw [lastWord_append z hw]
  exact List.suffix_append _ w

theorem prefix_word (hw : ∀ c ∈ w, isSpace c = false) (h : w <+: x) : w <+: word x := by
  obtain ⟨z, rfl⟩ := h
  rw [word_append hw]
  exact List.prefix_append w _

/-! ### What redaction keeps of a text -/

/-- Nothing of the part of the text behind `before` is replaced. -/
def Kept (t before part : Text) : Prop :=
  ∀ m ∈ finds t, m.stop ≤ before.length ∨ before.length + part.length ≤ m.start

/-- The token shows in a placeholder with what stands directly before it. -/
def Shown (t tok : Text) : Prop := ∃ m ∈ finds t, tok <:+: lastWord m.front ++ redacted

theorem endsWord_rest (v : Text) : EndsWord (redact (afterWord v)) :=
  endsWord_redact (endsWord_afterWord v)

theorem start_of_mem_match {head v : Text} {l : List Found}
    (h : m ∈ ⟨[], head, v⟩ :: l.map (Found.shift (head ++ word v))) : head.length ≤ m.start := by
  rw [List.mem_cons, List.mem_map] at h
  rcases h with rfl | ⟨m', -, rfl⟩
  · exact Nat.le_of_eq (Nat.zero_add _).symm
  · rw [Found.shift_start, List.length_append, Nat.add_assoc]
    exact Nat.le_add_right _ _

theorem prefix_redact (htok : ∀ c ∈ tok, isSpace c = false) (h : tok <+: redact t) :
    (tok <+: t ∧ ∀ m ∈ finds t, tok.length ≤ m.start) ∨
      ∃ m ∈ finds t, (∀ c ∈ m.front, isSpace c = false) ∧ tok <+: m.front ++ redacted := by
  induction t using search_induct generalizing tok with
  | hnil =>
    rw [redact_nil] at h
    exact .inl ⟨h, by simp⟩
  | hmatch head v hp hhead hv ih =>
    rw [redact_match hp] at h
    rw [finds_match hp]
    rcases List.prefix_or_prefix_of_prefix h (List.prefix_append head _) with hle | ⟨w, rfl⟩
    · refine .inl ⟨hle.trans (List.prefix_append head v), ?_⟩
      intro m hm
      exact hle.length_le.trans (start_of_mem_match hm)
    · right
      refine ⟨_, List.mem_cons_self, fun c hc => htok c (List.mem_append_left w hc), ?_⟩
      have hw : ∀ c ∈ w, isSpace c = false := fun c hc => htok c (List.mem_append_right head hc)
      have hword := prefix_word hw (List.prefix_append_right_inj head |>.1 h)
      rw [word_redacted (endsWord_rest v)] at hword
      exact (List.prefix_append_right_inj head).2 hword
  | hcons c cs hp ih =>
    rw [redact_cons hp] at h
    rw [finds_cons hp]
    cases tok with
    | nil => exact .inl ⟨List.nil_prefix, fun m _ => Nat.zero_le _⟩
    | cons d tok =>
      obtain ⟨rfl, hrest⟩ := List.cons_prefix_cons.1 h
      rw [List.forall_mem_cons] at htok
      rcases ih htok.2 hrest with ⟨hcs, hstart⟩ | ⟨m, hm, hfront, hshown⟩
      · refine .inl ⟨List.cons_prefix_cons.2 ⟨rfl, hcs⟩, ?_⟩
        intro m hm
        obtain ⟨m', hm', rfl⟩ := List.mem_map.1 hm
        rw [Found.shift_start, List.length_cons, List.length_singleton, Nat.add_comm 1]
        exact Nat.succ_le_succ (hstart m' hm')
      · right
        refine ⟨_, List.mem_map_of_mem hm, ?_, ?_⟩
        · rw [Found.shift_front, List.singleton_append, List.forall_mem_cons]
          exact ⟨htok.1, hfront⟩
        · rw [Found.shift_front]
          exact List.cons_prefix_cons.2 ⟨rfl, hshown⟩

theorem kept_shift (h : Kept t x tok) (hm : m ∈ (finds t).map (Found.shift p)) :
    m.stop ≤ (p ++ x).length ∨ (p ++ x).length + tok.length ≤ m.start := by
  obtain ⟨m', hm', rfl⟩ := List.mem_map.1 hm
  have hkept := h m' hm'
  rw [Found.shift_stop, Found.shift_start, List.length_append]
  omega

theorem shown_shift (hm : m ∈ finds t) (h : tok <:+: lastWord m.front ++ redacted) (p : Text) :
    ∃ m' ∈ (finds t).map (Found.shift p), tok <:+: lastWord m'.front ++ redacted := by
  refine ⟨_, List.mem_map_of_mem hm, ?_⟩
  obtain ⟨z, hz⟩ := lastWord_suffix_append p m.front
  rw [Found.shift_front, ← hz, List.append_assoc]
  exact h.trans (List.suffix_append z _).isInfix

/-- A token in the redacted text was kept, or shows in a placeholder. -/
theorem infix_redact (hne : tok ≠ []) (htok : ∀ c ∈ tok, isSpace c = false)
    (h : tok <:+: redact t) : (∃ x y, t = x ++ (tok ++ y) ∧ Kept t x tok) ∨ Shown t tok := by
  induction t using search_induct with
  | hnil =>
    rw [redact_nil, List.infix_nil] at h
    exact absurd h hne
  | hmatch head v hp hhead hv ih =>
    rw [redact_match hp, ← List.append_assoc, List.infix_append_iff_ne_nil] at h
    simp only [Shown, Kept, finds_match hp]
    rcases h with h | h | ⟨l, l', -, hl', rfl, -, h⟩
    · rcases List.infix_append_iff.1 h with ⟨x, y, hxy⟩ | h | ⟨l, l', rfl, hl, hl'⟩
      · left
        refine ⟨x, y ++ v, by rw [← hxy]; simp, ?_⟩
        intro m hm
        have hstart := start_of_mem_match hm
        rw [← hxy, List.length_append, List.length_append] at hstart
        omega
      · exact .inr ⟨_, List.mem_cons_self, h.trans (List.suffix_append _ _).isInfix⟩
      · right
        have hlast := suffix_lastWord (fun c hc => htok c (List.mem_append_left l' hc)) hl
        exact ⟨_, List.mem_cons_self,
          List.infix_append_iff.2 (.inr (.inr ⟨l, l', rfl, hlast, hl'⟩))⟩
    · rcases ih h with ⟨x, y, hxy, hkept⟩ | ⟨m, hm, hshown⟩
      · left
        refine ⟨head ++ word v ++ x, y, ?_, ?_⟩
        · rw [List.append_assoc, ← hxy, List.append_assoc, word_append_afterWord]
        · intro m hm
          rcases List.mem_cons.1 hm with rfl | hm
          · rw [Found.stop, Found.start, List.length_append, List.length_append]
            exact .inl (by simp)
          · exact kept_shift hkept hm
      · obtain ⟨m', hm', h'⟩ := shown_shift hm hshown (head ++ word v)
        exact .inr ⟨m', List.mem_cons_of_mem _ hm', h'⟩
    -- The text behind a placeholder starts with a blank.
    · cases l' with
      | nil => exact absurd rfl hl'
      | cons c l' =>
        obtain ⟨z, hz⟩ := h
        have hspace := endsWord_rest v c (by rw [← hz]; rfl)
        rw [htok c (List.mem_append_right l List.mem_cons_self)] at hspace
        exact absurd hspace Bool.false_ne_true
  | hcons c cs hp ih =>
    have hredact := redact_cons hp
    rw [hredact, List.infix_cons_iff, ← hredact] at h
    rcases h with h | h
    · rcases prefix_redact htok h with ⟨⟨y, hy⟩, hstart⟩ | ⟨m, hm, hfront, hshown⟩
      · refine .inl ⟨[], y, hy.symm, ?_⟩
        intro m hm
        right
        rw [List.length_nil, Nat.zero_add]
        exact hstart m hm
      · refine .inr ⟨m, hm, ?_⟩
        rw [lastWord_of_word hfront]
        exact hshown.isInfix
    · simp only [Shown, Kept, finds_cons hp]
      rcases ih h with ⟨x, y, hxy, hkept⟩ | ⟨m, hm, hshown⟩
      · refine .inl ⟨c :: x, y, congrArg (c :: ·) hxy, ?_⟩
        intro m hm
        exact kept_shift hkept hm
      · exact .inr (shown_shift hm hshown [c])

theorem front_ne_nil (h : m ∈ finds t) : m.front ≠ [] := by
  obtain ⟨-, hhead, -⟩ := mem_finds h
  exact List.append_ne_nil_of_right_ne_nil _ (ne_nil_of_isHead hhead)

/-- A match behind a value starts after a blank. -/
theorem front_afterWord (h : m ∈ finds (afterWord v)) :
    ∃ c w, m.front = c :: w ∧ isSpace c = true := by
  obtain ⟨ht, -, -⟩ := mem_finds h
  cases hfront : m.front with
  | nil => exact absurd hfront (front_ne_nil h)
  | cons c w =>
    refine ⟨c, w, rfl, endsWord_afterWord v c ?_⟩
    rw [ht, hfront]
    rfl

theorem front_prefix_redact (h : m ∈ finds t) (hfront : ∀ c ∈ m.front, isSpace c = false) :
    m.front ++ redacted <+: redact t := by
  induction t using search_induct generalizing m with
  | hnil =>
    rw [finds_nil] at h
    cases h
  | hmatch head v hp hhead hv ih =>
    rw [finds_match hp, List.mem_cons, List.mem_map] at h
    rcases h with rfl | ⟨m, hm, rfl⟩
    · rw [redact_match hp, ← List.append_assoc]
      exact List.prefix_append _ _
    · obtain ⟨c, w, hc, hspace⟩ := front_afterWord hm
      rw [Found.shift_front, hc] at hfront
      rw [hfront c (List.mem_append_right _ List.mem_cons_self)] at hspace
      exact absurd hspace Bool.false_ne_true
  | hcons c cs hp ih =>
    rw [finds_cons hp, List.mem_map] at h
    obtain ⟨m, hm, rfl⟩ := h
    rw [Found.shift_front, List.singleton_append, List.forall_mem_cons] at hfront
    rw [redact_cons hp, Found.shift_front]
    exact List.cons_prefix_cons.2 ⟨rfl, ih hm hfront.2⟩

theorem placeholder_in_redact (h : m ∈ finds t) : lastWord m.front ++ redacted <:+: redact t := by
  induction t using search_induct generalizing m with
  | hnil =>
    rw [finds_nil] at h
    cases h
  | hmatch head v hp hhead hv ih =>
    rw [finds_match hp, List.mem_cons, List.mem_map] at h
    rw [redact_match hp, ← List.append_assoc]
    rcases h with rfl | ⟨m, hm, rfl⟩
    · obtain ⟨z, hz⟩ := lastWord_suffix head
      refine List.infix_append_of_infix_left ?_
      refine List.IsSuffix.isInfix ⟨z, ?_⟩
      rw [← List.append_assoc]
      exact congrArg (· ++ redacted) hz
    · obtain ⟨c, w, hc, hspace⟩ := front_afterWord hm
      rw [Found.shift_front, hc, lastWord_of_space _ _ hspace, ← hc]
      exact List.infix_append_of_infix_right (ih hm)
  | hcons c cs hp ih =>
    have h' := h
    rw [finds_cons hp, List.mem_map] at h
    obtain ⟨m, hm, rfl⟩ := h
    by_cases hfront : ∀ d ∈ (m.shift [c]).front, isSpace d = false
    · rw [lastWord_of_word hfront]
      exact (front_prefix_redact h' hfront).isInfix
    · rw [Found.shift_front, List.singleton_append] at hfront ⊢
      rw [lastWord_cons hfront, redact_cons hp]
      exact List.infix_cons (ih hm)

theorem infix_of_shown (h : Shown t tok) : tok <:+: redact t := by
  obtain ⟨m, hm, hshown⟩ := h
  exact hshown.trans (placeholder_in_redact hm)

end Logging
