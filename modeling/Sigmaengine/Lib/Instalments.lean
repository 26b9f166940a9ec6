import Mathlib.Algebra.BigOperators.Group.List.Basic
import Mathlib.Tactic.Ring

/-!
# Paying a total off in parts

A plan pays `total` in `parts` payments: each of them is `step`, except the last, which is whatever is left.
A plan that is not finished can be ended early, by handing what is left to the payee or back to the payer.
`History` are the records a plan can leave behind; what they add up to follows from it alone.
-/

namespace Instalments

/-- A total, and how it is paid off. -/
structure Plan where
  total : ℤ
  step : ℤ
  parts : ℕ

/-- One entry in the record of a plan. -/
inductive Payout
  | payment (x : ℤ)
  | concluded (x : ℤ)
  | cancelled (x : ℤ)

/-- What the payee gets. -/
def Payout.credited : Payout → ℤ
  | .payment x => x
  | .concluded x => x
  | .cancelled _ => 0

namespace Plan

variable (p : Plan)

/-- What is left after `k` payments of `step`. -/
def rest (k : ℕ) : ℤ := p.total - k * p.step

/-- The payment after `k` others. -/
def part (k : ℕ) : ℤ := if k + 1 = p.parts then p.rest k else p.step

/-- The first `k` payments. -/
def paid (k : ℕ) : List ℤ := (List.range k).map p.part

/-- The records of a plan, and how many payments an unfinished one has made. -/
inductive History : List Payout → Option ℕ → Prop
  | running {k : ℕ} (h : k < p.parts) : History ((p.paid k).map .payment) (some k)
  | finished : History ((p.paid p.parts).map .payment) none
  | concluded {k : ℕ} (h : k < p.parts) : History ((p.paid k).map .payment ++ [.concluded (p.rest k)]) none
  | cancelled {k : ℕ} (h : k < p.parts) : History ((p.paid k).map .payment ++ [.cancelled (p.rest k)]) none

variable {p} {k : ℕ} {es : List Payout} {state : Option ℕ}

/-! ## Payments -/

theorem length_paid : (p.paid k).length = k := by simp [paid]

theorem paid_succ : p.paid (k + 1) = p.paid k ++ [p.part k] := by
  unfold paid
  rw [List.range_succ, List.map_append, List.map_singleton]

theorem part_last (h : k + 1 = p.parts) : p.part k = p.rest k := if_pos h

theorem part_of_lt (h : k + 1 < p.parts) : p.part k = p.step := if_neg (by omega)

theorem rest_succ : p.rest (k + 1) = p.rest k - p.step := by
  unfold rest
  push_cast
  ring

/-- Before the last payment, all payments are alike. -/
theorem paid_of_lt (h : k < p.parts) : p.paid k = List.replicate k p.step := by
  induction k with
  | zero => rfl
  | succ k ih => rw [paid_succ, ih (by omega), part_of_lt h, List.replicate_succ']

theorem sum_paid_of_lt (h : k < p.parts) : (p.paid k).sum = k * p.step := by
  rw [paid_of_lt h, List.sum_replicate, nsmul_eq_mul]

/-- **What is paid and what is left** make up the total. -/
theorem sum_paid_add_rest (h : k < p.parts) : (p.paid k).sum + p.rest k = p.total := by
  rw [sum_paid_of_lt h, rest]
  ring

/-- **All payments** make up the total. -/
theorem sum_paid_parts (h : 0 < p.parts) : (p.paid p.parts).sum = p.total := by
  obtain ⟨k, hk⟩ := Nat.exists_eq_succ_of_ne_zero (Nat.ne_of_gt h)
  have hlast : p.paid p.parts = p.paid k ++ [p.rest k] := by
    rw [hk, paid_succ, part_last (by omega)]
  rw [hlast, List.sum_append, List.sum_singleton]
  exact sum_paid_add_rest (by omega)

theorem sum_credited_paid (k : ℕ) : (((p.paid k).map Payout.payment).map Payout.credited).sum = (p.paid k).sum := by
  rw [List.map_map]
  exact congrArg List.sum (List.map_id _)

/-! ## Records -/

namespace History

/-- The next payment of an unfinished plan; the last one finishes it. -/
theorem pay (h : p.History es (some k)) :
    p.History (es ++ [.payment (p.part k)]) (if k + 1 = p.parts then none else some (k + 1)) := by
  cases h with
  | running hk =>
    have hnext : (p.paid k).map Payout.payment ++ [.payment (p.part k)] = (p.paid (k + 1)).map Payout.payment := by
      rw [paid_succ, List.map_append, List.map_singleton]
    rw [hnext]
    by_cases hlast : k + 1 = p.parts
    · rw [if_pos hlast, hlast]
      exact .finished
    · rw [if_neg hlast]
      exact .running (by omega)

theorem conclude (h : p.History es (some k)) : p.History (es ++ [.concluded (p.rest k)]) none := by
  cases h with
  | running hk => exact .concluded hk

theorem cancel (h : p.History es (some k)) : p.History (es ++ [.cancelled (p.rest k)]) none := by
  cases h with
  | running hk => exact .cancelled hk

theorem lt_of_running (h : p.History es (some k)) : k < p.parts := by
  cases h with
  | running hk => exact hk

theorem length_eq_of_running (h : p.History es (some k)) : es.length = k := by
  cases h with
  | running hk => rw [List.length_map, length_paid]

theorem length_le (h : p.History es state) : es.length ≤ p.parts := by
  cases h with
  | running hk => simpa [length_paid] using hk.le
  | finished => simp [length_paid]
  | concluded hk | cancelled hk =>
    simp only [List.length_append, List.length_map, length_paid, List.length_singleton]
    omega

/-- A plan that is over after payments alone has made all of them. -/
theorem length_eq_of_payments (h : p.History es none) (hpays : ∀ e ∈ es, ∃ x, e = .payment x) :
    es.length = p.parts := by
  cases h with
  | finished => rw [List.length_map, length_paid]
  | concluded hk | cancelled hk =>
    obtain ⟨x, hx⟩ := hpays _ (List.mem_append_right _ (List.mem_singleton.mpr rfl))
    cases hx

/-- **A plan that is over without a refund** has given the payee the total. -/
theorem sum_credited (h : p.History es none) (hparts : 0 < p.parts) (hkept : ∀ x, Payout.cancelled x ∉ es) :
    (es.map Payout.credited).sum = p.total := by
  cases h with
  | finished => rw [sum_credited_paid, sum_paid_parts hparts]
  | concluded hk =>
    rw [List.map_append, List.sum_append, sum_credited_paid]
    simpa [Payout.credited] using sum_paid_add_rest hk
  | cancelled hk => exact absurd (List.mem_append_right _ (List.mem_singleton.mpr rfl)) (hkept _)

/-- Payments before the last are `step`. -/
theorem payment_eq (h : p.History es state) {i : ℕ} {x : ℤ} (hx : es[i]? = some (.payment x)) (hi : i + 1 < p.parts) :
    x = p.step := by
  have hpart : ∀ {k : ℕ}, ((p.paid k).map Payout.payment)[i]? = some (.payment x) → x = p.step := by
    intro k hk
    simp only [paid, List.getElem?_map, Option.map_eq_some_iff] at hk
    obtain ⟨_, ⟨n, hn, rfl⟩, heq⟩ := hk
    obtain ⟨hlt, rfl⟩ := List.getElem?_eq_some_iff.mp hn
    rw [List.getElem_range, part_of_lt hi] at heq
    exact (Payout.payment.inj heq).symm
  have hends : ∀ {k : ℕ} {e : Payout}, (∀ y, e ≠ .payment y) →
      ((p.paid k).map Payout.payment ++ [e])[i]? = some (.payment x) → x = p.step := by
    intro k e he hk
    by_cases hlt : i < ((p.paid k).map Payout.payment).length
    · rw [List.getElem?_append_left hlt] at hk
      exact hpart hk
    · rw [List.getElem?_append_right (not_lt.mp hlt)] at hk
      exact absurd (List.mem_singleton.mp (List.mem_of_getElem? hk)).symm (he x)
  cases h with
  | running hk => exact hpart hx
  | finished => exact hpart hx
  | concluded hk => exact hends (fun y => by simp) hx
  | cancelled hk => exact hends (fun y => by simp) hx

/-- **A refund** is the last entry, and what the payments before it have left over. -/
theorem cancelled_mem (h : p.History es state) {x : ℤ} (hx : Payout.cancelled x ∈ es) :
    ∃ k < p.parts, es = List.replicate k (.payment p.step) ++ [.cancelled x] ∧ x = p.rest k ∧ state = none := by
  have hnone : ∀ k : ℕ, Payout.cancelled x ∉ (p.paid k).map Payout.payment := by
    intro k hmem
    obtain ⟨y, -, hy⟩ := List.mem_map.mp hmem
    cases hy
  cases h with
  | running hk => exact absurd hx (hnone _)
  | finished => exact absurd hx (hnone _)
  | concluded hk =>
    rcases List.mem_append.mp hx with hx | hx
    · exact absurd hx (hnone _)
    · cases List.mem_singleton.mp hx
  | cancelled hk =>
    rcases List.mem_append.mp hx with hx | hx
    · exact absurd hx (hnone _)
    · cases List.mem_singleton.mp hx
      exact ⟨_, hk, by rw [paid_of_lt hk, List.map_replicate], rfl, rfl⟩

end History

end Plan

end Instalments
