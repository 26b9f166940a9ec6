import Mathlib.Data.List.Sort
import Mathlib.Data.Prod.Lex

/-!
# Ordered indices

An ordered index lists objects by a key.  An iterator into it is what is left from where it stands: its object is the
first one, the end is the empty list, and to go on is to take the tail.
-/

namespace OrderedIndex

variable {α κ : Type} [LinearOrder κ] (key : α → κ) (rows : List α)

/-- The objects in the order of their keys. -/
def ordered : List α := rows.insertionSort fun a b => key a ≤ key b

/-- From the first object on whose key is not below `k`. -/
def lowerBound (k : κ) : List α := (ordered key rows).dropWhile fun a => key a < k

/-- From the first object on whose key is above `k`. -/
def upperBound (k : κ) : List α := (ordered key rows).dropWhile fun a => key a ≤ k

/-- From the first object on whose key is not below `k` in its leading parts. -/
def prefixBound {π : Type} [LinearOrder π] (lead : α → π) (k : π) : List α :=
  (ordered key rows).dropWhile fun a => lead a < k

variable {key rows} {a b : α} {k : κ}

/-! ## Order -/

theorem mem_ordered : a ∈ ordered key rows ↔ a ∈ rows := List.mem_insertionSort _

theorem ordered_perm : (ordered key rows).Perm rows := List.perm_insertionSort _ _

instance instTotalKey : Std.Total fun a b : α => key a ≤ key b := ⟨fun a b => le_total (key a) (key b)⟩

instance instIsTransKey : IsTrans α fun a b => key a ≤ key b := ⟨fun _ _ _ hab hbc => le_trans hab hbc⟩

theorem pairwise_ordered : (ordered key rows).Pairwise fun a b => key a ≤ key b := List.pairwise_insertionSort _ _

/-- What is dropped from the front of a sorted list is all that has the property, if smaller objects have it too. -/
theorem dropWhile_eq_filter {p : α → Bool} {as : List α} (has : as.Pairwise fun a b => key a ≤ key b)
    (hp : ∀ a b, key a ≤ key b → p b = true → p a = true) : as.dropWhile p = as.filter fun a => !p a := by
  induction as with
  | nil => rfl
  | cons a as ih =>
    obtain ⟨hfirst, hrest⟩ := List.pairwise_cons.mp has
    by_cases ha : p a = true
    · simp [ha, ih hrest]
    · have hall : ∀ b ∈ as, p b = false := by
        intro b hb
        by_contra hpb
        exact ha (hp a b (hfirst b hb) (by simpa using hpb))
      rw [List.dropWhile_cons, if_neg ha, List.filter_cons, if_pos (by simpa using ha)]
      congr 1
      symm
      rw [List.filter_eq_self]
      intro b hb
      simp [hall b hb]

/-- What is taken from its front, likewise. -/
theorem takeWhile_eq_filter {p : α → Bool} {as : List α} (has : as.Pairwise fun a b => key a ≤ key b)
    (hp : ∀ a b, key a ≤ key b → p b = true → p a = true) : as.takeWhile p = as.filter p := by
  induction as with
  | nil => rfl
  | cons a as ih =>
    obtain ⟨hfirst, hrest⟩ := List.pairwise_cons.mp has
    by_cases ha : p a = true
    · simp [ha, ih hrest]
    · rw [List.takeWhile_cons, if_neg ha, List.filter_cons, if_neg ha]
      symm
      rw [List.filter_eq_nil_iff]
      intro b hb hpb
      exact ha (hp a b (hfirst b hb) hpb)

theorem lowerBound_eq_filter : lowerBound key rows k = (ordered key rows).filter fun a => k ≤ key a := by
  unfold lowerBound
  rw [dropWhile_eq_filter pairwise_ordered]
  · congr 1
    funext a
    simp [← not_lt, decide_not]
  · intro a b hab hb
    simp only [decide_eq_true_eq] at hb ⊢
    exact hab.trans_lt hb

theorem mem_lowerBound : a ∈ lowerBound key rows k ↔ a ∈ rows ∧ k ≤ key a := by
  rw [lowerBound_eq_filter, List.mem_filter, mem_ordered, decide_eq_true_eq]

theorem pairwise_lowerBound : (lowerBound key rows k).Pairwise fun a b => key a ≤ key b := by
  rw [lowerBound_eq_filter]
  exact pairwise_ordered.filter _

theorem mem_takeWhile_lowerBound {k' : κ} :
    a ∈ (lowerBound key rows k).takeWhile (fun a => key a < k') ↔ a ∈ rows ∧ k ≤ key a ∧ key a < k' := by
  rw [takeWhile_eq_filter pairwise_lowerBound, List.mem_filter, mem_lowerBound, decide_eq_true_eq, and_assoc]
  intro a b hab hb
  simp only [decide_eq_true_eq] at hb ⊢
  exact hab.trans_lt hb

/-- To go on from one bound to a later one. -/
theorem dropWhile_lowerBound {k' : κ} (hk : k ≤ k') :
    (lowerBound key rows k).dropWhile (fun a => key a < k') = lowerBound key rows k' := by
  rw [dropWhile_eq_filter pairwise_lowerBound, lowerBound_eq_filter, lowerBound_eq_filter, List.filter_filter]
  · apply List.filter_congr
    intro a _
    rw [Bool.eq_iff_iff]
    simp only [Bool.and_eq_true, Bool.not_eq_true', decide_eq_false_iff_not, decide_eq_true_eq, not_lt,
      and_iff_left_iff_imp]
    exact hk.trans
  · intro a b hab hb
    simp only [decide_eq_true_eq] at hb ⊢
    exact hab.trans_lt hb

/-- Where the leading parts of a key grow with it. -/
def Leads {π : Type} [LinearOrder π] (key : α → κ) (lead : α → π) : Prop := ∀ a b, key a ≤ key b → lead a ≤ lead b

theorem Leads.lt_downward {π : Type} [LinearOrder π] {lead : α → π} {p : π} (h : Leads key lead) (a b : α)
    (hab : key a ≤ key b) (hb : decide (lead b < p) = true) : decide (lead a < p) = true :=
  decide_eq_true ((h a b hab).trans_lt (of_decide_eq_true hb))

theorem Leads.le_downward {π : Type} [LinearOrder π] {lead : α → π} {p : π} (h : Leads key lead) (a b : α)
    (hab : key a ≤ key b) (hb : decide (lead b ≤ p) = true) : decide (lead a ≤ p) = true :=
  decide_eq_true ((h a b hab).trans (of_decide_eq_true hb))

theorem prefixBound_eq_filter {π : Type} [LinearOrder π] {lead : α → π} {p : π} (h : Leads key lead) :
    prefixBound key rows lead p = (ordered key rows).filter fun a => p ≤ lead a := by
  unfold prefixBound
  rw [dropWhile_eq_filter pairwise_ordered h.lt_downward]
  congr 1
  funext a
  simp [← not_lt, decide_not]

/-- In a sorted list that begins with a group, the group is what comes first. -/
theorem takeWhile_group {π : Type} [LinearOrder π] {lead : α → π} {p : π} {as : List α} (h : Leads key lead)
    (has : as.Pairwise fun a b => key a ≤ key b) (hlow : ∀ a ∈ as, p ≤ lead a) :
    as.takeWhile (fun a => lead a = p) = as.filter fun a => lead a = p := by
  induction as with
  | nil => rfl
  | cons a as ih =>
    obtain ⟨hfirst, hrest⟩ := List.pairwise_cons.mp has
    by_cases ha : lead a = p
    · simp [ha, ih hrest fun b hb => hlow b (.tail _ hb)]
    · rw [List.takeWhile_cons, if_neg (by simpa using ha), List.filter_cons, if_neg (by simpa using ha)]
      symm
      rw [List.filter_eq_nil_iff]
      intro b hb hpb
      have hle := h a b (hfirst b hb)
      rw [of_decide_eq_true hpb] at hle
      exact ha (le_antisymm hle (hlow a List.mem_cons_self))

theorem mem_prefixBound {π : Type} [LinearOrder π] {lead : α → π} {p : π} (h : Leads key lead) :
    a ∈ prefixBound key rows lead p ↔ a ∈ rows ∧ p ≤ lead a := by
  rw [prefixBound_eq_filter h, List.mem_filter, mem_ordered, decide_eq_true_eq]

/-- From a bound on, as long as it is not passed: the objects that have it. -/
theorem takeWhile_prefixBound {π : Type} [LinearOrder π] {lead : α → π} {p : π} (h : Leads key lead) :
    (prefixBound key rows lead p).takeWhile (fun a => lead a ≤ p) = (ordered key rows).filter fun a => lead a = p := by
  rw [prefixBound_eq_filter h, takeWhile_eq_filter (pairwise_ordered.filter _) h.le_downward, List.filter_filter]
  apply List.filter_congr
  intro a _
  rw [Bool.eq_iff_iff]
  simp only [Bool.and_eq_true, decide_eq_true_eq]
  exact (le_antisymm_iff (a := lead a)).symm

/-! ## The object that is found -/

theorem head?_lowerBound_eq_none : (lowerBound key rows k).head? = none ↔ ∀ a ∈ rows, key a < k := by
  rw [List.head?_eq_none_iff, List.eq_nil_iff_forall_not_mem]
  simp only [mem_lowerBound, not_and, not_le]

/-- The object found is the first of those not below the key. -/
theorem head?_lowerBound (h : (lowerBound key rows k).head? = some a) :
    a ∈ rows ∧ k ≤ key a ∧ ∀ b ∈ rows, k ≤ key b → key a ≤ key b := by
  obtain ⟨rest, hrest⟩ := List.head?_eq_some_iff.mp h
  have ha : a ∈ lowerBound key rows k := by simp [hrest]
  refine ⟨(mem_lowerBound.mp ha).1, (mem_lowerBound.mp ha).2, fun b hb hkb => ?_⟩
  have hmem : b ∈ lowerBound key rows k := mem_lowerBound.mpr ⟨hb, hkb⟩
  have hsorted : (lowerBound key rows k).Pairwise fun a b => key a ≤ key b := pairwise_lowerBound
  rw [hrest] at hmem hsorted
  rcases List.mem_cons.mp hmem with rfl | hmem
  · exact le_rfl
  · exact (List.pairwise_cons.mp hsorted).1 b hmem

/-- Something is found where there is an object not below the key, and it comes no later. -/
theorem exists_head?_lowerBound (ha : a ∈ rows) (hk : k ≤ key a) :
    ∃ b, (lowerBound key rows k).head? = some b ∧ b ∈ rows ∧ k ≤ key b ∧ key b ≤ key a := by
  cases h : (lowerBound key rows k).head? with
  | none => exact absurd hk (not_le.mpr (head?_lowerBound_eq_none.mp h a ha))
  | some b =>
    obtain ⟨hb, hkb, hleast⟩ := head?_lowerBound h
    exact ⟨b, rfl, hb, hkb, hleast a ha hk⟩

/-- Where the key is a group and a rank in it: what is found is the first member of the group that is not below the
rank, or, where there is none, nothing of the group. -/
theorem head?_lowerBound_group {γ δ : Type} [LinearOrder γ] [LinearOrder δ] (group : α → γ) (rank : α → δ)
    (rows : List α) (g : γ) (d : δ) :
    (∃ b, (lowerBound (fun a => toLex (group a, rank a)) rows (toLex (g, d))).head? = some b ∧ b ∈ rows ∧
        group b = g ∧ d ≤ rank b ∧ ∀ c ∈ rows, group c = g → d ≤ rank c → rank b ≤ rank c) ∨
      (∀ c ∈ rows, group c = g → rank c < d) ∧
        ∀ b, (lowerBound (fun a => toLex (group a, rank a)) rows (toLex (g, d))).head? = some b → group b ≠ g := by
  by_cases hmember : ∃ c ∈ rows, group c = g ∧ d ≤ rank c
  · left
    obtain ⟨c, hc, hgroup, hrank⟩ := hmember
    have hkey : toLex (g, d) ≤ toLex (group c, rank c) := Prod.Lex.toLex_le_toLex.mpr (.inr ⟨hgroup.symm, hrank⟩)
    obtain ⟨b, hb, hrows, hlow, hhigh⟩ := @exists_head?_lowerBound α _ _ (fun a => toLex (group a, rank a)) rows c _ hc hkey
    have hg : group b = g := by
      apply le_antisymm
      · rw [← hgroup]
        exact Prod.Lex.monotone_fst _ _ hhigh
      · exact Prod.Lex.monotone_fst _ _ hlow
    refine ⟨b, hb, hrows, hg, ?_, fun c' hc' hg' hd' => ?_⟩
    · have hle := Prod.Lex.toLex_le_toLex.mp hlow
      rw [hg] at hle
      exact hle.elim (fun h => absurd h (lt_irrefl _)) And.right
    · have hle := Prod.Lex.toLex_le_toLex.mp ((head?_lowerBound hb).2.2 c' hc'
        (Prod.Lex.toLex_le_toLex.mpr (.inr ⟨hg'.symm, hd'⟩)))
      rw [hg, hg'] at hle
      exact hle.elim (fun h => absurd h (lt_irrefl _)) And.right
  · right
    push Not at hmember
    refine ⟨hmember, fun b hb hg => ?_⟩
    obtain ⟨hrows, hlow, -⟩ := head?_lowerBound hb
    have hle := Prod.Lex.toLex_le_toLex.mp hlow
    rw [hg] at hle
    exact absurd (hmember b hrows hg) (not_lt.mpr (hle.elim (fun h => absurd h (lt_irrefl _)) And.right))

/-! ## Groups that count down -/

theorem upperBound_eq_filter : upperBound key rows k = (ordered key rows).filter fun a => k < key a := by
  unfold upperBound
  rw [dropWhile_eq_filter pairwise_ordered]
  · congr 1
    funext a
    simp [← not_le, decide_not]
  · intro a b hab hb
    simp only [decide_eq_true_eq] at hb ⊢
    exact hab.trans hb

/-- From a key up to another one. -/
def between (key : α → κ) (rows : List α) (k k' : κ) : List α := (lowerBound key rows k).takeWhile fun a => key a ≤ k'

theorem mem_between {k' : κ} : a ∈ between key rows k k' ↔ a ∈ rows ∧ k ≤ key a ∧ key a ≤ k' := by
  unfold between
  rw [takeWhile_eq_filter pairwise_lowerBound, List.mem_filter, mem_lowerBound, decide_eq_true_eq, and_assoc]
  intro a b hab hb
  simp only [decide_eq_true_eq] at hb ⊢
  exact hab.trans hb

/-- What is found for a key is what there is up to a later one, and what comes after that. -/
theorem lowerBound_eq_append {k' : κ} (hk : k ≤ k') :
    lowerBound key rows k = between key rows k k' ++ upperBound key rows k' := by
  have hrest : upperBound key rows k' = (lowerBound key rows k).dropWhile fun a => key a ≤ k' := by
    rw [dropWhile_eq_filter pairwise_lowerBound, upperBound_eq_filter, lowerBound_eq_filter, List.filter_filter]
    · apply List.filter_congr
      intro a _
      rw [Bool.eq_iff_iff]
      simp only [Bool.and_eq_true, Bool.not_eq_true', decide_eq_false_iff_not, decide_eq_true_eq, not_le]
      exact ⟨fun h => ⟨h, hk.trans h.le⟩, And.left⟩
    · intro a b hab hb
      simp only [decide_eq_true_eq] at hb ⊢
      exact hab.trans hb
  rw [hrest, between, List.takeWhile_append_dropWhile]

/-- The objects of a group stand together, the greater numbers first: their keys are those of their numbers, and no
other key is among these. -/
structure CountsDown (key : α → κ) (member : α → Prop) (number : α → Nat) (keyOf : Nat → κ) : Prop where
  le_iff : ∀ m n, keyOf m ≤ keyOf n ↔ n ≤ m
  inside : ∀ a, member a → key a = keyOf (number a)
  outside : ∀ a, ¬ member a → (∀ n, key a < keyOf n) ∨ ∀ n, keyOf n < key a

section CountsDown

variable {member : α → Prop} {number : α → Nat} {keyOf : Nat → κ}

theorem CountsDown.mem_between (h : CountsDown key member number keyOf) {m n : Nat} :
    a ∈ between key rows (keyOf n) (keyOf m) ↔ a ∈ rows ∧ member a ∧ m ≤ number a ∧ number a ≤ n := by
  rw [OrderedIndex.mem_between]
  refine and_congr_right fun _ => ?_
  by_cases ha : member a
  · rw [h.inside a ha, h.le_iff, h.le_iff]
    exact ⟨fun hle => ⟨ha, hle.2, hle.1⟩, fun hle => ⟨hle.2.2, hle.2.1⟩⟩
  · refine ⟨fun hle => ?_, fun hle => absurd hle.1 ha⟩
    rcases h.outside a ha with hlow | hhigh
    · exact absurd hle.1 (not_le.mpr (hlow n))
    · exact absurd hle.2 (not_le.mpr (hhigh m))

/-- What is found for a number is the member with the greatest number that is not above it. -/
theorem CountsDown.head?_lowerBound (h : CountsDown key member number keyOf) {n : Nat} (ha : a ∈ rows) (hmember : member a)
    (hle : number a ≤ n) (hmost : ∀ b ∈ rows, member b → number b ≤ n → number b ≤ number a) :
    ∃ b, (lowerBound key rows (keyOf n)).head? = some b ∧ b ∈ rows ∧ member b ∧ number b = number a := by
  have hkey : keyOf n ≤ key a := by rwa [h.inside a hmember, h.le_iff]
  obtain ⟨b, hb, hrows, hlow, hhigh⟩ := exists_head?_lowerBound ha hkey
  have hbmember : member b := by
    by_contra hnot
    rcases h.outside b hnot with hbelow | habove
    · exact absurd hlow (not_le.mpr (hbelow n))
    · rw [h.inside a hmember] at hhigh
      exact absurd hhigh (not_le.mpr (habove (number a)))
  rw [h.inside b hbmember, h.le_iff] at hlow
  rw [h.inside b hbmember, h.inside a hmember, h.le_iff] at hhigh
  exact ⟨b, hb, hrows, hbmember, le_antisymm (hmost b hrows hbmember hlow) hhigh⟩

/-- In an index without members, all their bounds are one place. -/
theorem CountsDown.lowerBound_eq_upperBound (h : CountsDown key member number keyOf) (hnone : ∀ a ∈ rows, ¬ member a)
    (m n : Nat) : lowerBound key rows (keyOf n) = upperBound key rows (keyOf m) := by
  rw [lowerBound_eq_filter, upperBound_eq_filter]
  apply List.filter_congr
  intro a ha
  rw [decide_eq_decide]
  rcases h.outside a (hnone a (mem_ordered.mp ha)) with hlow | hhigh
  · exact iff_of_false (not_le.mpr (hlow n)) (hlow m).asymm
  · exact iff_of_true (hhigh n).le (hhigh m)

/-- Past the members there is something if it is above all of them. -/
theorem CountsDown.lowerBound_ne_nil_iff (h : CountsDown key member number keyOf) (hnone : ∀ a ∈ rows, ¬ member a)
    (n : Nat) : lowerBound key rows (keyOf n) ≠ [] ↔ ∃ a ∈ rows, ∀ n, keyOf n < key a := by
  have hmem : lowerBound key rows (keyOf n) ≠ [] ↔ ∃ a, a ∈ lowerBound key rows (keyOf n) :=
    ⟨List.exists_mem_of_ne_nil _, fun ⟨_, ha⟩ => List.ne_nil_of_mem ha⟩
  rw [hmem]
  refine exists_congr fun a => ?_
  rw [mem_lowerBound]
  refine and_congr_right fun ha => ⟨fun hle => ?_, fun hhigh => (hhigh n).le⟩
  rcases h.outside a (hnone a ha) with hlow | hhigh
  · exact absurd hle (not_le.mpr (hlow n))
  · exact hhigh

end CountsDown

end OrderedIndex
