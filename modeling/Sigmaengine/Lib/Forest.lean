import Mathlib.Data.Set.Card
import Mathlib.Logic.Relation

/-!
# Trees as a relation from child to parent

`below up a` is everything that leads to `a` along `up`.  Adding a leaf puts it below the nodes above it and
changes nothing else; taking a leaf away is the same step backwards.
-/

namespace Forest

open Relation

variable {ι : Type} {up up' : ι → ι → Prop} {n a x : ι}

/-- What is below `a`, at any distance. -/
def below (up : ι → ι → Prop) (a : ι) : Set ι := {x | TransGen up x a}

/-- Whoever has a parent has it above, and what is above the parent. -/
theorem above_iff {p : ι} (hp : up x p) (huniq : ∀ q, up x q → q = p) :
    TransGen up x a ↔ a = p ∨ TransGen up p a := by
  rw [TransGen.head'_iff]
  constructor
  · rintro ⟨q, hq, hrest⟩
    obtain rfl := huniq q hq
    exact reflTransGen_iff_eq_or_transGen.mp hrest
  · intro h
    exact ⟨p, hp, reflTransGen_iff_eq_or_transGen.mpr h⟩

theorem not_above (hroot : ∀ q, ¬ up x q) : ¬ TransGen up x a := by
  rw [TransGen.head'_iff]
  rintro ⟨q, hq, -⟩
  exact hroot q hq

/-- A rank that falls along `up` falls along every path. -/
theorem rank_lt {rank : ι → Nat} (hrank : ∀ x a, up x a → rank a < rank x) (h : TransGen up x a) :
    rank a < rank x := by
  induction h with
  | single h => exact hrank _ _ h
  | tail _ h ih => exact (hrank _ _ h).trans ih

/-- `up'` is `up` with one more leaf. -/
structure AddsLeaf (up up' : ι → ι → Prop) (n : ι) : Prop where
  old : ∀ x a, x ≠ n → (up' x a ↔ up x a)
  fresh : ∀ a, ¬ up n a
  leaf : ∀ x, ¬ up' x n

namespace AddsLeaf

variable (h : AddsLeaf up up' n)
include h

theorem transGen_iff (hx : x ≠ n) : TransGen up' x a ↔ TransGen up x a := by
  constructor
  · intro hpath
    induction hpath using TransGen.head_induction_on with
    | single hstep => exact .single ((h.old _ _ hx).mp hstep)
    | head hstep _ ih =>
      refine .head ((h.old _ _ hx).mp hstep) (ih ?_)
      rintro rfl
      exact h.leaf _ hstep
  · intro hpath
    induction hpath using TransGen.head_induction_on with
    | single hstep => exact .single ((h.old _ _ hx).mpr hstep)
    | head hstep hrest ih =>
      refine .head ((h.old _ _ hx).mpr hstep) (ih ?_)
      rintro rfl
      exact not_above h.fresh hrest

theorem not_mem_below : n ∉ below up a := not_above h.fresh

theorem below_of_above (ha : TransGen up' n a) : below up' a = insert n (below up a) := by
  ext x
  rw [Set.mem_insert_iff]
  by_cases hx : x = n
  · subst hx
    exact ⟨fun _ => .inl rfl, fun _ => ha⟩
  · exact (h.transGen_iff hx).trans (or_iff_right hx).symm

theorem below_of_not_above (ha : ¬ TransGen up' n a) : below up' a = below up a := by
  ext x
  by_cases hx : x = n
  · subst hx
    exact ⟨fun hpath => absurd hpath ha, fun hpath => absurd hpath h.not_mem_below⟩
  · exact h.transGen_iff hx

/-- **One more leaf**: the nodes above it have one more below them, all others as many as before. -/
theorem ncard_below (hfinite : (below up a).Finite) [Decidable (TransGen up' n a)] :
    (below up' a).ncard = if TransGen up' n a then (below up a).ncard + 1 else (below up a).ncard := by
  split
  next ha =>
    rw [h.below_of_above ha]
    exact Set.ncard_insert_of_notMem h.not_mem_below hfinite
  next ha => rw [h.below_of_not_above ha]

/-- Nothing is below the leaf. -/
theorem below_leaf : below up' n = ∅ := by
  refine Set.eq_empty_iff_forall_notMem.mpr fun x hx => ?_
  obtain ⟨y, -, hy⟩ := TransGen.tail'_iff.mp hx
  exact h.leaf y hy

end AddsLeaf

end Forest
