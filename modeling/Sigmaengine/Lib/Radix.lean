import Mathlib.Data.List.TakeWhile
import Mathlib.Data.Nat.Digits.Lemmas
import Mathlib.Tactic.Common

/-!
# Numerals with leading zeros

A list of digits, most significant first, stands for a number and for its leading zeros.  Written in another base with as many
leading zeros it can be read back: the two conversions are inverse to each other.
-/

namespace Sigmaengine

namespace Radix

/-- The zeros at the front, and the digits after them. -/
def leading (ds : List Nat) : List Nat := ds.takeWhile (· == 0)

def significant (ds : List Nat) : List Nat := ds.dropWhile (· == 0)

/-- The number of a list of digits. -/
def value (base : Nat) (ds : List Nat) : Nat := Nat.ofDigits base ds.reverse

/-- The digits of a number, without leading zeros. -/
def digits (base n : Nat) : List Nat := (Nat.digits base n).reverse

/-- The same numeral in another base. -/
def convert (source target : Nat) (ds : List Nat) : List Nat := leading ds ++ digits target (value source ds)

variable {base source target n d : Nat} {ds zeros : List Nat}

theorem leading_append_significant (ds : List Nat) : leading ds ++ significant ds = ds := List.takeWhile_append_dropWhile

theorem mem_leading (h : d ∈ leading ds) : d = 0 := by
  have hzero := List.mem_takeWhile_imp (p := fun x => x == 0) h
  exact eq_of_beq hzero

theorem reverse_leading (ds : List Nat) : (leading ds).reverse = leading ds := by
  rw [List.eq_replicate_of_mem (fun d hd => mem_leading hd : ∀ d ∈ leading ds, d = 0), List.reverse_replicate]

theorem head_significant (h : d ∈ (significant ds).head?) : d ≠ 0 := by
  intro hzero
  have hnot := List.head?_dropWhile_not (· == 0) ds
  unfold significant at h
  rw [Option.mem_def.mp h] at hnot
  simp [hzero] at hnot

/-- Zeros at the front do not count. -/
theorem value_append (hzeros : ∀ d ∈ zeros, d = 0) (ds : List Nat) : value base (zeros ++ ds) = value base ds := by
  have hreplicate : zeros = List.replicate zeros.length 0 := List.eq_replicate_of_mem hzeros
  unfold value
  rw [List.reverse_append, hreplicate, List.reverse_replicate, Nat.ofDigits_append_replicate_zero]

theorem value_concat (base : Nat) (ds : List Nat) (d : Nat) : value base (ds ++ [d]) = value base ds * base + d := by
  unfold value
  rw [List.reverse_concat, Nat.ofDigits_cons, Nat.mul_comm base, Nat.add_comm]

/-- The number as it is read digit by digit. -/
theorem foldl_eq_value (base : Nat) (ds : List Nat) : ds.foldl (fun n d => n * base + d) 0 = value base ds := by
  induction ds using List.reverseRecOn with
  | nil => rfl
  | append_singleton ds d ih => rw [List.foldl_concat, ih, value_concat]

theorem value_digits : value base (digits base n) = n := by
  unfold value digits
  rw [List.reverse_reverse, Nat.ofDigits_digits]

/-- Digits that do not begin with a zero are those of their number. -/
theorem digits_value (hbase : 1 < base) (hds : ∀ d ∈ ds, d < base) (hhead : ∀ d ∈ ds.head?, d ≠ 0) :
    digits base (value base ds) = ds := by
  unfold digits value
  rw [Nat.digits_ofDigits base hbase _ (fun d hd => hds d (List.mem_reverse.mp hd)), List.reverse_reverse]
  intro hne
  rw [List.getLast_reverse]
  exact hhead _ (List.head?_eq_some_head _)

theorem head_digits (h : d ∈ (digits base n).head?) : d ≠ 0 := by
  unfold digits at h
  rw [List.head?_reverse, Option.mem_def] at h
  have hn : n ≠ 0 := by
    rintro rfl
    rw [Nat.digits_zero] at h
    cases h
  rw [List.getLast?_eq_some_getLast (Nat.digits_ne_nil_iff_ne_zero.mpr hn), Option.some.injEq] at h
  rw [← h]
  exact Nat.getLast_digit_ne_zero base hn

theorem mem_digits (hbase : 1 < base) (h : d ∈ digits base n) : d < base :=
  Nat.digits_lt_base hbase (List.mem_reverse.mp h)

theorem leading_append (hzeros : ∀ d ∈ zeros, d = 0) (hhead : ∀ d ∈ ds.head?, d ≠ 0) : leading (zeros ++ ds) = zeros := by
  unfold leading
  rw [List.takeWhile_append_of_pos fun d hd => beq_iff_eq.mpr (hzeros d hd)]
  cases ds with
  | nil => rw [List.takeWhile_nil, List.append_nil]
  | cons d ds =>
    rw [List.takeWhile_cons_of_neg, List.append_nil]
    rw [beq_iff_eq]
    exact hhead d rfl

/-- **What is converted can be converted back.** -/
theorem convert_convert (hsource : 1 < source) (hds : ∀ d ∈ ds, d < source) :
    convert target source (convert source target ds) = ds := by
  have hback : value target (convert source target ds) = value source ds := by
    rw [convert, value_append fun d hd => mem_leading hd, value_digits]
  have hzeros : leading (convert source target ds) = leading ds :=
    leading_append (fun d hd => mem_leading hd) fun d hd => head_digits hd
  have hvalue : value source ds = value source (significant ds) := by
    conv_lhs => rw [← leading_append_significant ds]
    exact value_append (fun d hd => mem_leading hd) _
  have hmem : ∀ d ∈ significant ds, d < source := fun d hd => hds d ((List.dropWhile_sublist _).subset hd)
  rw [convert, hback, hzeros, hvalue, digits_value hsource hmem fun d hd => head_significant hd, leading_append_significant]

theorem mem_convert (htarget : 1 < target) (h : d ∈ convert source target ds) : d < target := by
  rcases List.mem_append.mp h with h | h
  · rw [mem_leading h]
    exact Nat.zero_lt_of_lt htarget
  · exact mem_digits htarget h

end Radix

end Sigmaengine
