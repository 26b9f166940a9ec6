import Mathlib.Data.List.Induction
import Mathlib.Data.Nat.ModEq
import Mathlib.Tactic.Common

/-!
# Rings

A ring of `size` slots keeps of a growing list the element that was written to each slot last; an element is written to the
slot of its number.  Of a list that is numbered in a row the ring keeps the last `size` elements.
-/

namespace Sigmaengine

namespace Ring

variable {α : Type} (number : α → Nat) (size : Nat)

/-- The element that was written to the slot last. -/
def lastIn (slot : Nat) (xs : List α) : Option α := (xs.filter fun x => number x % size == slot).getLast?

/-- The elements are numbered from one on. -/
def Numbered (xs : List α) : Prop := ∀ i x, xs[i]? = some x → number x = i + 1

variable {number size} {slot n : Nat} {xs : List α} {x : α}

@[simp] theorem lastIn_nil : lastIn number size slot [] = none := rfl

theorem lastIn_concat : lastIn number size slot (xs ++ [x]) =
    if number x % size = slot then some x else lastIn number size slot xs := by
  unfold lastIn
  rw [List.filter_append]
  by_cases hslot : number x % size = slot
  · rw [if_pos hslot, List.filter_cons_of_pos (by rw [beq_iff_eq]; exact hslot), List.filter_nil]
    exact List.getLast?_concat
  · rw [if_neg hslot, List.filter_cons_of_neg (by rw [beq_iff_eq]; exact hslot), List.filter_nil, List.append_nil]

theorem lastIn_eq_none : lastIn number size slot xs = none ↔ ∀ x ∈ xs, number x % size ≠ slot := by
  rw [lastIn, List.getLast?_eq_none_iff, List.filter_eq_nil_iff]
  simp only [beq_iff_eq, ne_eq]

theorem mem_of_lastIn (h : lastIn number size slot xs = some x) : x ∈ xs ∧ number x % size = slot := by
  obtain ⟨hmem, hslot⟩ := List.mem_filter.mp (List.mem_of_getLast? h)
  exact ⟨hmem, eq_of_beq hslot⟩

theorem Numbered.of_concat (h : Numbered number (xs ++ [x])) : Numbered number xs ∧ number x = xs.length + 1 := by
  refine ⟨fun i y hy => h i y ?_, h _ x List.getElem?_concat_length⟩
  rw [List.getElem?_append_left (List.getElem?_eq_some_iff.mp hy).1]
  exact hy

/-- **The last `size` elements** of a numbered list are in their slots. -/
theorem Numbered.lastIn_recent (h : Numbered number xs) (hpos : 0 < n) (hle : n ≤ xs.length)
    (hrecent : xs.length < n + size) : lastIn number size (n % size) xs = xs[n - 1]? := by
  induction xs using List.reverseRecOn with
  | nil =>
    rw [List.length_nil] at hle
    omega
  | append_singleton xs x ih =>
    obtain ⟨hxs, hx⟩ := h.of_concat
    rw [List.length_append, List.length_singleton] at hle hrecent
    rw [lastIn_concat, hx]
    by_cases hlast : n = xs.length + 1
    · rw [if_pos (by rw [hlast]), hlast, Nat.add_sub_cancel, List.getElem?_concat_length]
    · have hslot : (xs.length + 1) % size ≠ n % size := by
        -- the two numbers differ by less than the ring is long
        intro heq
        have hdvd := (Nat.modEq_iff_dvd' (by omega)).mp (show Nat.ModEq size n (xs.length + 1) from heq.symm)
        have := Nat.le_of_dvd (by omega) hdvd
        omega
      rw [if_neg hslot, ih hxs (by omega) (by omega), List.getElem?_append_left (by omega)]

/-- What a slot keeps has the greatest number of all that were written there. -/
theorem Numbered.le_lastIn (h : Numbered number xs) (hlast : lastIn number size slot xs = some x) :
    ∀ y ∈ xs, number y % size = slot → number y ≤ number x := by
  induction xs using List.reverseRecOn with
  | nil => simp at hlast
  | append_singleton xs z ih =>
    obtain ⟨hxs, hz⟩ := h.of_concat
    have hbelow : ∀ y ∈ xs, number y ≤ number z := by
      intro y hy
      obtain ⟨i, hi⟩ := List.mem_iff_getElem?.mp hy
      have := (List.getElem?_eq_some_iff.mp hi).1
      rw [hxs i y hi, hz]
      omega
    intro y hy hslot
    rw [lastIn_concat] at hlast
    split at hlast
    · cases hlast
      rcases List.mem_append.mp hy with hy | hy
      · exact hbelow y hy
      · rw [List.mem_singleton.mp hy]
    · next hne =>
      rcases List.mem_append.mp hy with hy | hy
      · exact ih hxs hlast y hy hslot
      · rw [List.mem_singleton.mp hy] at hslot
        exact absurd hslot hne

end Ring

end Sigmaengine
