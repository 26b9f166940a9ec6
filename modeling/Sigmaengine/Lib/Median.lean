import Mathlib.Data.List.Sort
import Mathlib.Data.List.Count

/-!
# Medians

The upper median of a list under a key: the element in the middle of the sorted list, the later of the two where their
number is even.  Whoever holds more than half of the list holds the median.
-/

namespace Median

variable {α β : Type} [LinearOrder β] (key : α → β)

/-- Elements in the order of their keys. -/
def byKey (a b : α) : Prop := key a ≤ key b

instance : DecidableRel (byKey key) := fun a b => inferInstanceAs (Decidable (key a ≤ key b))

instance : Std.Total (byKey key) := ⟨fun a b => le_total (key a) (key b)⟩

instance : IsTrans α (byKey key) := ⟨fun _ _ _ h h' => le_trans h h'⟩

def upper (l : List α) : Option α := (l.insertionSort (byKey key))[l.length / 2]?

variable {key} {l : List α} {m : α} {p : α → Bool}

theorem mem_of_upper (h : upper key l = some m) : m ∈ l := by
  have hmem := List.mem_of_getElem? h
  rwa [List.mem_insertionSort] at hmem

theorem upper_ne_none (hl : l ≠ []) : upper key l ≠ none := by
  have hpos := List.length_pos_of_ne_nil hl
  unfold upper
  rw [Ne, List.getElem?_eq_none_iff, List.length_insertionSort]
  omega

/-- The sorted list around the median. -/
theorem exists_split (h : upper key l = some m) :
    ∃ before after, (before ++ m :: after).Perm l ∧ before.length = l.length / 2 ∧
      (∀ a ∈ before, key a ≤ key m) ∧ ∀ a ∈ after, key m ≤ key a := by
  have hsorted := List.pairwise_insertionSort (byKey key) l
  obtain ⟨hlt, hget⟩ := List.getElem?_eq_some_iff.mp h
  have hsplit := List.take_append_drop (l.length / 2) (l.insertionSort (byKey key))
  rw [List.drop_eq_getElem_cons hlt, hget] at hsplit
  rw [← hsplit] at hsorted
  obtain ⟨-, hright, hcross⟩ := List.pairwise_append.mp hsorted
  refine ⟨_, _, hsplit ▸ List.perm_insertionSort (byKey key) l, ?_, ?_, ?_⟩
  · rw [List.length_take]
    omega
  · exact fun a ha => hcross a ha m List.mem_cons_self
  · exact (List.pairwise_cons.mp hright).1

/-- **The median is small** exactly where more than half of the list is. -/
theorem upper_lt_iff {lo : β} (h : upper key l = some m) :
    key m < lo ↔ l.length / 2 < l.countP fun a => key a < lo := by
  obtain ⟨before, after, hperm, hlength, hbefore, hafter⟩ := exists_split h
  rw [← hperm.countP_eq, List.countP_append, List.countP_cons, ← hlength]
  constructor
  · intro hlo
    have hall : before.countP (fun a => key a < lo) = before.length :=
      List.countP_eq_length.mpr fun a ha => by simp [lt_of_le_of_lt (hbefore a ha) hlo]
    simp only [hall, hlo, decide_true, if_true]
    omega
  · intro hcount
    by_contra hlo
    have hnone : after.countP (fun a => key a < lo) = 0 :=
      List.countP_eq_zero.mpr fun a ha => by simp [le_trans (not_lt.mp hlo) (hafter a ha)]
    have hle := List.countP_le_length (p := fun a => key a < lo) (l := before)
    simp only [hnone, hlo, decide_false, Bool.false_eq_true, if_false] at hcount
    omega

/-- **The median is large** exactly where at least half of the list is. -/
theorem lt_upper_iff {hi : β} (h : upper key l = some m) :
    hi < key m ↔ l.length ≤ l.length / 2 + l.countP fun a => hi < key a := by
  obtain ⟨before, after, hperm, hlength, hbefore, hafter⟩ := exists_split h
  have htotal := hperm.length_eq
  rw [List.length_append, List.length_cons] at htotal
  rw [← hperm.countP_eq, List.countP_append, List.countP_cons, ← hlength]
  constructor
  · intro hhi
    have hall : after.countP (fun a => hi < key a) = after.length :=
      List.countP_eq_length.mpr fun a ha => by simp [lt_of_lt_of_le hhi (hafter a ha)]
    simp only [hall, hhi, decide_true, if_true]
    omega
  · intro hcount
    by_contra hhi
    have hnone : before.countP (fun a => hi < key a) = 0 :=
      List.countP_eq_zero.mpr fun a ha => by simp [le_trans (hbefore a ha) (not_lt.mp hhi)]
    have hle := List.countP_le_length (p := fun a => hi < key a) (l := after)
    simp only [hnone, hhi, decide_false, Bool.false_eq_true, if_false] at hcount
    omega

/-- Two properties that exclude each other share the list. -/
theorem countP_add_le {p q : α → Bool} (hpq : ∀ a, p a = true → q a = false) : l.countP p + l.countP q ≤ l.length := by
  have hsplit := List.length_eq_countP_add_countP p (l := l)
  have hle : l.countP q ≤ l.countP fun a => ¬p a = true := by
    apply List.countP_mono_left
    intro a _ hq
    by_cases hp : p a = true
    · rw [hpq a hp] at hq
      exact absurd hq (by simp)
    · simp [hp]
  omega

/-- **The majority holds the median.** -/
theorem upper_mem_interval {lo hi : β} (h : upper key l = some m)
    (hmajority : l.length < 2 * l.countP fun a => lo ≤ key a ∧ key a ≤ hi) : lo ≤ key m ∧ key m ≤ hi := by
  constructor
  · by_contra hlt
    have hcount := (upper_lt_iff h).mp (not_le.mp hlt)
    have hsum := countP_add_le (l := l) (p := fun a => key a < lo) (q := fun a => lo ≤ key a ∧ key a ≤ hi)
      fun a ha => by simp [not_le.mpr (of_decide_eq_true ha)]
    omega
  · by_contra hgt
    have hcount := (lt_upper_iff h).mp (not_le.mp hgt)
    have hsum := countP_add_le (l := l) (p := fun a => hi < key a) (q := fun a => lo ≤ key a ∧ key a ≤ hi)
      fun a ha => by simp [not_le.mpr (of_decide_eq_true ha)]
    omega

end Median
