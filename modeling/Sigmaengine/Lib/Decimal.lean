import Mathlib.Data.List.Induction
import Mathlib.Tactic.Ring

/-!
# Decimal numerals

Numbers written with ASCII digits, most significant first.  `decimal` prints without leading zeros and
`valueOf` reads any digits back.  A number printed behind a leading one keeps its zeros: `decimal (10 ^ k + n)`
is a one followed by the `k` digits of `n`.
-/

namespace Decimal

/-- ASCII digits only. -/
def Digits (s : List UInt8) : Prop := ∀ c ∈ s, 48 ≤ c ∧ c ≤ 57

/-- The number written by the digits. -/
def valueOf (s : List UInt8) : Nat := s.foldl (fun n c => 10 * n + (c.toNat - 48)) 0

/-- The digits of a number, without leading zeros. -/
def decimal (n : Nat) : List UInt8 := (Nat.toDigits 10 n).map fun c => UInt8.ofNat c.toNat

variable {s t : List UInt8} {n k : Nat}

/-! ## Reading -/

theorem foldl_value (s : List UInt8) (n : Nat) :
    s.foldl (fun n c => 10 * n + (c.toNat - 48)) n = n * 10 ^ s.length + valueOf s := by
  unfold valueOf
  induction s generalizing n with
  | nil => simp
  | cons c s ih =>
    rw [List.foldl_cons, List.foldl_cons, ih, ih (10 * 0 + (c.toNat - 48)), List.length_cons]
    ring

theorem valueOf_append (s t : List UInt8) : valueOf (s ++ t) = valueOf s * 10 ^ t.length + valueOf t := by
  rw [valueOf, List.foldl_append, foldl_value]
  rfl

theorem valueOf_singleton (c : UInt8) : valueOf [c] = c.toNat - 48 := by simp [valueOf]

theorem valueOf_cons (c : UInt8) (s : List UInt8) : valueOf (c :: s) = (c.toNat - 48) * 10 ^ s.length + valueOf s := by
  rw [← List.singleton_append, valueOf_append, valueOf_singleton]

theorem Digits.of_cons {c : UInt8} (h : Digits (c :: s)) : (48 ≤ c.toNat ∧ c.toNat ≤ 57) ∧ Digits s := by
  obtain ⟨hlo, hhi⟩ := h c (.head _)
  exact ⟨⟨UInt8.le_iff_toNat_le.mp hlo, UInt8.le_iff_toNat_le.mp hhi⟩, fun x hx => h x (.tail _ hx)⟩

theorem valueOf_lt (h : Digits s) : valueOf s < 10 ^ s.length := by
  induction s with
  | nil => simp [valueOf]
  | cons c s ih =>
    obtain ⟨⟨hlo, hhi⟩, hs⟩ := h.of_cons
    have hrest := ih hs
    have hhead : (c.toNat - 48) * 10 ^ s.length ≤ 9 * 10 ^ s.length := Nat.mul_le_mul_right _ (by omega)
    rw [valueOf_cons, List.length_cons, pow_succ]
    omega

theorem Digits.append (hs : Digits s) (ht : Digits t) : Digits (s ++ t) := by
  intro c hc
  rcases List.mem_append.mp hc with hc | hc
  · exact hs c hc
  · exact ht c hc

/-- A byte that is no digit does not occur. -/
theorem Digits.not_mem {c : UInt8} (h : Digits s) (hc : ¬ (48 ≤ c ∧ c ≤ 57)) : c ∉ s := fun hmem => hc (h c hmem)

/-! ## Printing -/

theorem digitByte (h : n < 10) : (UInt8.ofNat n.digitChar.toNat).toNat = 48 + n := by
  rw [Nat.toNat_digitChar_of_lt_ten h, UInt8.toNat_ofNat']
  omega

theorem decimal_of_lt (h : n < 10) : decimal n = [UInt8.ofNat n.digitChar.toNat] := by
  unfold decimal
  rw [Nat.toDigits_of_lt_base h]
  rfl

theorem decimal_of_le (h : 10 ≤ n) : decimal n = decimal (n / 10) ++ [UInt8.ofNat (n % 10).digitChar.toNat] := by
  unfold decimal
  rw [Nat.toDigits_of_base_le (by norm_num) h, List.map_append]
  rfl

theorem decimal_ne_nil (n : Nat) : decimal n ≠ [] := by
  unfold decimal
  simp

theorem digits_digitByte (h : n < 10) : Digits [UInt8.ofNat n.digitChar.toNat] := by
  intro c hc
  obtain rfl := List.mem_singleton.mp hc
  have hbyte := digitByte h
  constructor
  · rw [UInt8.le_iff_toNat_le, hbyte]
    exact Nat.le_add_right _ _
  · rw [UInt8.le_iff_toNat_le, hbyte]
    show 48 + n ≤ 57
    omega

theorem digits_decimal (n : Nat) : Digits (decimal n) := by
  induction n using Nat.strongRecOn with
  | ind n ih =>
    by_cases hn : n < 10
    · rw [decimal_of_lt hn]
      exact digits_digitByte hn
    · rw [decimal_of_le (by omega)]
      exact (ih (n / 10) (by omega)).append (digits_digitByte (Nat.mod_lt _ (by norm_num)))

/-- **What is printed is read back.** -/
theorem valueOf_decimal (n : Nat) : valueOf (decimal n) = n := by
  induction n using Nat.strongRecOn with
  | ind n ih =>
    by_cases hn : n < 10
    · rw [decimal_of_lt hn, valueOf_singleton, digitByte hn]
      omega
    · rw [decimal_of_le (by omega), valueOf_append, valueOf_singleton, ih (n / 10) (by omega),
        digitByte (Nat.mod_lt _ (by norm_num))]
      simp only [List.length_singleton, pow_one]
      omega

theorem length_decimal_le_iff (hk : 0 < k) : (decimal n).length ≤ k ↔ n < 10 ^ k := by
  unfold decimal
  rw [List.length_map]
  exact Nat.length_toDigits_le_iff (by norm_num) hk

/-- **Behind a leading one** a number keeps its zeros. -/
theorem decimal_padded (h : n < 10 ^ k) :
    ∃ s, decimal (10 ^ k + n) = 49 :: s ∧ s.length = k ∧ Digits s ∧ valueOf s = n := by
  have hpow : (10 : Nat) ^ (k + 1) = 10 * 10 ^ k := pow_succ' 10 k
  have hlen : (decimal (10 ^ k + n)).length = k + 1 := by
    apply le_antisymm
    · rw [length_decimal_le_iff (by omega)]
      omega
    · by_contra hshort
      cases k with
      | zero => exact hshort (List.length_pos_iff.mpr (decimal_ne_nil _))
      | succ k =>
        have hle : (decimal (10 ^ (k + 1) + n)).length ≤ k + 1 := by omega
        rw [length_decimal_le_iff (by omega)] at hle
        omega
  obtain ⟨c, s, hs⟩ := List.exists_cons_of_ne_nil (decimal_ne_nil (10 ^ k + n))
  have hdigits := digits_decimal (10 ^ k + n)
  have hvalue := valueOf_decimal (10 ^ k + n)
  rw [hs] at hlen hdigits hvalue
  obtain ⟨⟨hlo, hhi⟩, hrest⟩ := hdigits.of_cons
  obtain rfl : s.length = k := by simpa using hlen
  have hsmall := valueOf_lt hrest
  rw [valueOf_cons] at hvalue
  -- the first digit is the only one that reaches the leading power
  have hfirst : c.toNat - 48 = 1 := by
    obtain hzero | hone | hmore : c.toNat - 48 = 0 ∨ c.toNat - 48 = 1 ∨ 2 ≤ c.toNat - 48 := by omega
    · rw [hzero] at hvalue
      omega
    · exact hone
    · have hlarge := Nat.mul_le_mul_right (10 ^ s.length) hmore
      omega
  have hc : c = 49 := UInt8.toNat_inj.mp (show c.toNat = 49 by omega)
  rw [hfirst] at hvalue
  exact ⟨s, by rw [hs, hc], rfl, hrest, by omega⟩

end Decimal
