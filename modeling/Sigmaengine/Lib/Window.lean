import Mathlib.Data.Nat.Bitwise
import Mathlib.Data.List.Range

/-!
# Windows of bits

The last `width` bits of a sequence, kept in one number: a new bit comes in at the low end, and the oldest
falls out at the high end.  `ones` counts the ones among them; a counter that adds what comes in and takes off
what falls out keeps in step with it (`ones_push`).
-/

namespace Window

/-- Shift one bit in. -/
def push (width : Nat) (bit : Bool) (w : Nat) : Nat := (w * 2 + bit.toNat) % 2 ^ width

/-- How many of the lowest `width` bits are ones. -/
def ones (width w : Nat) : Nat := (List.range width).countP w.testBit

/-- `n` bits, the first of them a one and the others zeros. -/
def burst (width : Nat) : Nat → Nat → Nat
  | 0, w => w
  | n + 1, w => push width (n == 0) (burst width n w)

variable {width : Nat}

theorem testBit_push_zero (bit : Bool) (w : Nat) : (push (width + 1) bit w).testBit 0 = bit := by
  unfold push
  rw [Nat.testBit_mod_two_pow, Nat.testBit_zero]
  cases bit <;> simp

theorem testBit_push_succ (bit : Bool) (w : Nat) {k : Nat} (hk : k < width) :
    (push (width + 1) bit w).testBit (k + 1) = w.testBit k := by
  unfold push
  have hhalf : (w * 2 + bit.toNat) / 2 = w := by
    cases bit <;> simp only [Bool.toNat_true, Bool.toNat_false] <;> omega
  rw [Nat.testBit_mod_two_pow, Nat.testBit_succ, hhalf]
  simp [hk]

/-- **Counting along**: the bit that comes in is added, and the one that falls out is taken off. -/
theorem ones_push (bit : Bool) (w : Nat) :
    ones (width + 1) (push (width + 1) bit w) + (w.testBit width).toNat = ones (width + 1) w + bit.toNat := by
  have hnew : ones (width + 1) (push (width + 1) bit w) = (List.range width).countP w.testBit + bit.toNat := by
    unfold ones
    rw [List.range_succ_eq_map, List.countP_cons, testBit_push_zero, List.countP_map]
    congr 1
    · apply List.countP_congr
      intro k hk
      rw [Function.comp_apply, Nat.succ_eq_add_one, testBit_push_succ bit w (List.mem_range.mp hk)]
    · cases bit <;> simp
  have hold : ones (width + 1) w = (List.range width).countP w.testBit + (w.testBit width).toNat := by
    unfold ones
    rw [List.range_succ, List.countP_append, List.countP_singleton]
    cases w.testBit width <;> simp
  omega

theorem ones_le (w : Nat) : ones width w ≤ width := by
  simpa [ones] using List.countP_le_length (p := w.testBit) (l := List.range width)

/-- The highest bit tells the upper half of the numbers. -/
theorem testBit_top {w : Nat} (hw : w < 2 ^ (width + 1)) : w.testBit width = decide (2 ^ width ≤ w) := by
  rw [Nat.testBit_eq_decide_div_mod_eq]
  apply decide_eq_decide.mpr
  have hpow : 2 ^ (width + 1) = 2 * 2 ^ width := by rw [Nat.pow_succ, Nat.mul_comm]
  have hpos := Nat.two_pow_pos width
  have hdiv : w / 2 ^ width < 2 := Nat.div_lt_of_lt_mul (by omega)
  have hone : 1 ≤ w / 2 ^ width ↔ 2 ^ width ≤ w := Nat.one_le_div_iff hpos
  rw [← hone]
  generalize w / 2 ^ width = q at hdiv
  omega

/-- After a burst the first of its bits is a one, the later ones are zeros, and before them lies what was there. -/
theorem testBit_burst (n w : Nat) {k : Nat} (hk : k < width + 1) :
    (burst (width + 1) (n + 1) w).testBit k =
      if k < n then false else if k = n then true else w.testBit (k - (n + 1)) := by
  induction n generalizing k with
  | zero =>
    show (push (width + 1) true w).testBit k = _
    cases k with
    | zero => rw [testBit_push_zero, if_neg (Nat.lt_irrefl 0), if_pos rfl]
    | succ k => simp [testBit_push_succ true w (Nat.lt_of_succ_lt_succ hk)]
  | succ n ih =>
    show (push (width + 1) false (burst (width + 1) (n + 1) w)).testBit k = _
    cases k with
    | zero => rw [testBit_push_zero, if_pos (Nat.succ_pos n)]
    | succ k =>
      rw [testBit_push_succ _ _ (Nat.lt_of_succ_lt_succ hk), ih (Nat.lt_of_succ_lt hk)]
      simp

end Window
