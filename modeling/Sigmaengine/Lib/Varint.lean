import Mathlib.Data.Nat.Bitwise
import Mathlib.Tactic.Ring

/-!
# Numbers in groups of seven bits

A number below `2 ^ 32` is written in groups of seven bits, least significant first, and every byte but the last
has its high bit set.  Reading shifts in 32 bits, the count taken modulo 32, and stops at the first byte without the
high bit.
-/

namespace Varint

/-- At most `k` groups. -/
def groups : Nat → Nat → List UInt8
  | 0, _ => []
  | k + 1, n => if n < 128 then [UInt8.ofNat n] else UInt8.ofNat (128 + n % 128) :: groups k (n / 128)

/-- Five groups hold 32 bits. -/
def pack (n : Nat) : List UInt8 := groups 5 n

/-- Read on from `value`, with the next group at `shift`. -/
def unpackFrom : Nat → Nat → List UInt8 → Option (Nat × List UInt8)
  | _, _, [] => none
  | shift, value, b :: bs =>
    let value := value ||| ((b.toNat % 128) <<< (shift % 32)) % 2 ^ 32
    if 128 ≤ b.toNat then unpackFrom ((shift + 7) % 256) value bs else some (value, bs)

/-- The number and the bytes behind it. -/
def unpack (bs : List UInt8) : Option (Nat × List UInt8) := unpackFrom 0 0 bs

theorem toNat_ofNat {n : Nat} (h : n < 256) : (UInt8.ofNat n).toNat = n := by
  rw [UInt8.toNat_ofNat']
  omega

/-- A group above the bits read so far adds its value. -/
theorem or_group {value g shift : Nat} (hvalue : value < 2 ^ shift) (hfits : g * 2 ^ shift < 2 ^ 32)
    (hshift : shift < 32) : value ||| (g <<< (shift % 32)) % 2 ^ 32 = value + g * 2 ^ shift := by
  rw [Nat.mod_eq_of_lt hshift, Nat.shiftLeft_eq, Nat.mod_eq_of_lt hfits, Nat.mul_comm g, Nat.or_comm,
    ← Nat.two_pow_add_eq_or_of_lt hvalue, Nat.add_comm]

theorem unpackFrom_groups (rest : List UInt8) (k : Nat) : ∀ j n value, j + k = 4 → value < 2 ^ (7 * j) →
    n < 128 ^ (k + 1) → n * 2 ^ (7 * j) < 2 ^ 32 →
    unpackFrom (7 * j) value (groups (k + 1) n ++ rest) = some (value + n * 2 ^ (7 * j), rest) := by
  induction k with
  | zero =>
    intro j n value hj hvalue hn hfits
    have hsmall : n < 128 := by simpa using hn
    unfold groups
    rw [if_pos hsmall]
    simp only [List.singleton_append, unpackFrom, toNat_ofNat (show n < 256 by omega), Nat.mod_eq_of_lt hsmall]
    rw [if_neg (by omega), or_group hvalue hfits (by omega)]
  | succ k ih =>
    intro j n value hj hvalue hn hfits
    unfold groups
    by_cases hsmall : n < 128
    · rw [if_pos hsmall]
      simp only [List.singleton_append, unpackFrom, toNat_ofNat (show n < 256 by omega), Nat.mod_eq_of_lt hsmall]
      rw [if_neg (by omega), or_group hvalue hfits (by omega)]
    · have hmod : n % 128 < 128 := Nat.mod_lt _ (by decide)
      have hsplit : n = n % 128 + 128 * (n / 128) := (Nat.mod_add_div n 128).symm
      have hpow : (2 : Nat) ^ (7 * (j + 1)) = 128 * 2 ^ (7 * j) := by
        rw [Nat.mul_add, Nat.pow_add]
        ring
      have hlow : n % 128 * 2 ^ (7 * j) < 2 ^ 32 :=
        lt_of_le_of_lt (Nat.mul_le_mul_right _ (Nat.mod_le n 128)) hfits
      have hhigh : n / 128 * 2 ^ (7 * (j + 1)) ≤ n * 2 ^ (7 * j) := by
        rw [hpow, ← Nat.mul_assoc]
        exact Nat.mul_le_mul_right _ (Nat.div_mul_le_self n 128)
      have hread : value + n % 128 * 2 ^ (7 * j) < 2 ^ (7 * (j + 1)) := by
        rw [hpow]
        have hle : n % 128 * 2 ^ (7 * j) ≤ 127 * 2 ^ (7 * j) := Nat.mul_le_mul_right _ (by omega)
        omega
      have hquot : n / 128 < 128 ^ (k + 1) := by
        rw [Nat.div_lt_iff_lt_mul (by decide), ← Nat.pow_succ]
        exact hn
      rw [if_neg hsmall]
      simp only [List.cons_append, unpackFrom, toNat_ofNat (show 128 + n % 128 < 256 by omega),
        Nat.add_mod_left, Nat.mod_mod]
      rw [if_pos (by omega), or_group hvalue hlow (by omega), show (7 * j + 7) % 256 = 7 * (j + 1) by omega,
        ih (j + 1) (n / 128) _ (by omega) hread hquot (lt_of_le_of_lt hhigh hfits)]
      congr 2
      rw [hpow]
      have hvalue' : n * 2 ^ (7 * j) = n % 128 * 2 ^ (7 * j) + n / 128 * (128 * 2 ^ (7 * j)) := by
        conv_lhs => rw [hsplit]
        ring
      omega

/-- **What was written is read**, and what stands behind it is left. -/
theorem unpack_pack {n : Nat} (h : n < 2 ^ 32) (rest : List UInt8) : unpack (pack n ++ rest) = some (n, rest) := by
  have hread := unpackFrom_groups rest 4 0 n 0 rfl (by decide) (by omega) (by simpa using h)
  unfold unpack pack
  simpa using hread

end Varint
