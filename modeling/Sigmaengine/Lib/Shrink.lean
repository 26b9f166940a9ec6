import Mathlib.Data.List.Basic

/-!
# Leaving out what is not needed

Elements are taken out of a list one at a time, and stay out when the rest still has the property.  Where what is lost is
not regained by taking out more, nothing in the result can be taken out.
-/

namespace Shrink

variable {α : Type} [DecidableEq α] (holds : List α → Prop) [DecidablePred holds]

/-- Take each of the candidates out of the list if the property holds without it. -/
def shrink : List α → List α → List α
  | [], xs => xs
  | c :: cs, xs => if holds (xs.erase c) then shrink cs (xs.erase c) else shrink cs xs

variable {holds} {cs xs : List α}

theorem shrink_sublist : (shrink holds cs xs).Sublist xs := by
  induction cs generalizing xs with
  | nil => exact .refl xs
  | cons c cs ih =>
    unfold shrink
    split
    · exact ih.trans List.erase_sublist
    · exact ih

theorem holds_shrink (h : holds xs) : holds (shrink holds cs xs) := by
  induction cs generalizing xs with
  | nil => exact h
  | cons c cs ih =>
    unfold shrink
    split
    · rename_i hrest
      exact ih hrest
    · exact ih h

/-- **No candidate can be taken out of the result** without a loss. -/
theorem lost_erase_shrink {lost : List α → Prop} (hlost : ∀ ys c, holds ys → ¬ holds (ys.erase c) → lost (ys.erase c))
    (hstays : ∀ ys zs : List α, ys.Sublist zs → lost zs → lost ys) (h : holds xs) (hnodup : xs.Nodup) {c : α}
    (hc : c ∈ cs) (hmem : c ∈ shrink holds cs xs) : lost ((shrink holds cs xs).erase c) := by
  induction cs generalizing xs with
  | nil => cases hc
  | cons x cs ih =>
    unfold shrink at hmem ⊢
    by_cases hx : holds (xs.erase x)
    · rw [if_pos hx] at hmem ⊢
      have hne : c ≠ x := by
        rintro rfl
        exact hnodup.not_mem_erase (shrink_sublist.subset hmem)
      exact ih hx (hnodup.erase x) ((List.mem_cons.mp hc).resolve_left hne) hmem
    · rw [if_neg hx] at hmem ⊢
      by_cases hcx : c = x
      · subst hcx
        exact hstays _ _ (shrink_sublist.erase c) (hlost xs c h hx)
      · exact ih h hnodup ((List.mem_cons.mp hc).resolve_left hcx) hmem

end Shrink
