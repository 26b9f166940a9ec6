import Mathlib.Data.List.Chain
import Mathlib.Logic.Relation

/-!
# Stacks of states to go back to

A machine works on the state on the top of a stack.  A step puts a new state on the top and gives up the states below that
are too far down for what is final; going back drops the top.  `height` counts the steps that led to a state, and `final`
says up to which height a state is final.

Main results: `Moves.forall` for what every step keeps, and `Moves.settled`: no state that a stack still has is below the
final height of a state above it.
-/

namespace History

variable {σ : Type} (Step : σ → σ → Prop) (height final : σ → Nat)

inductive Move : List σ → List σ → Prop
  | step {s s' : σ} {rest : List σ} (h : Step s s') : Move (s :: rest) (s' :: (s :: rest).take (height s' - final s'))
  | forget {s : σ} {rest : List σ} {k : Nat} (h : 0 < k) : Move (s :: rest) ((s :: rest).take k)
  | back {s s' : σ} {rest : List σ} : Move (s :: s' :: rest) (s' :: rest)

def Moves : List σ → List σ → Prop := Relation.ReflTransGen (Move Step height final)

variable {Step height final} {l l' : List σ} {P : σ → Prop}

/-- What a move leaves: a state that was there, or the state of a step from the top. -/
theorem Move.mem_cases (h : Move Step height final l l') {x : σ} (hx : x ∈ l') :
    x ∈ l ∨ ∃ s ∈ l, Step s x := by
  cases h with
  | @step s s' rest h =>
    rcases List.mem_cons.mp hx with rfl | hx
    · exact .inr ⟨s, List.mem_cons_self, h⟩
    · exact .inl (List.mem_of_mem_take hx)
  | forget h => exact .inl (List.mem_of_mem_take hx)
  | back => exact .inl (List.mem_cons_of_mem _ hx)

/-- **What every step keeps** holds of every state of the stack. -/
theorem Moves.forall (h : Moves Step height final l l') (hP : ∀ s s', P s → Step s s' → P s') (hl : ∀ s ∈ l, P s) :
    ∀ s ∈ l', P s := by
  induction h with
  | refl => exact hl
  | tail _ hmove ih =>
    intro x hx
    rcases hmove.mem_cases hx with hx | ⟨s, hs, hstep⟩
    · exact ih x hx
    · exact hP s x (ih s hs) hstep

theorem Moves.mono {Step' : σ → σ → Prop} (h : Moves Step height final l l') (hstep : ∀ s s', Step s s' → Step' s s') :
    Moves Step' height final l l' := by
  induction h with
  | refl => exact .refl
  | tail _ hmove ih =>
    refine ih.tail ?_
    cases hmove with
    | step h => exact .step (hstep _ _ h)
    | forget h => exact .forget h
    | back => exact .back

/-! ## Neighbours -/

/-- Every state of the stack is a step from the one below. -/
def Linked (Step : σ → σ → Prop) (l : List σ) : Prop := l.IsChain fun s' s => Step s s'

theorem Move.linked (h : Move Step height final l l') (hl : Linked Step l) : Linked Step l' := by
  cases h with
  | @step s s' rest h =>
    refine List.IsChain.cons (hl.take _) fun y hy => ?_
    rw [List.head?_take] at hy
    split at hy
    · cases hy
    · rw [Option.mem_def, List.head?_cons, Option.some.injEq] at hy
      rw [← hy]
      exact h
  | forget _ => exact hl.take _
  | back => exact hl.tail

theorem Moves.linked (h : Moves Step height final l l') (hl : Linked Step l) : Linked Step l' := by
  induction h with
  | refl => exact hl
  | tail _ hmove ih => exact hmove.linked ih

/-- What relates a step to the state before it, and passes on, relates every state to those below. -/
theorem Linked.pairwise {R : σ → σ → Prop} (hl : Linked Step l) (hstep : ∀ s s', Step s s' → R s' s)
    (htrans : ∀ a b c, R a b → R b c → R a c) : l.Pairwise R := by
  have : Trans R R R := ⟨fun h h' => htrans _ _ _ h h'⟩
  exact List.isChain_iff_pairwise.mp (List.IsChain.imp (fun s' s h => hstep s s' h) hl)

/-! ## Heights -/

theorem Linked.height_index (hl : Linked Step l) (hheight : ∀ s s', Step s s' → height s' = height s + 1) {s x : σ} {j : Nat}
    (hs : l.head? = some s) (hx : l[j]? = some x) : height s = height x + j := by
  induction l generalizing s j with
  | nil => cases hs
  | cons a l ih =>
    rw [List.head?_cons, Option.some.injEq] at hs
    subst hs
    cases j with
    | zero =>
      rw [List.getElem?_cons_zero, Option.some.injEq] at hx
      rw [hx, Nat.add_zero]
    | succ j =>
      rw [List.getElem?_cons_succ] at hx
      cases l with
      | nil => cases hx
      | cons b l =>
        have hab := hheight _ _ (List.IsChain.rel_head? hl rfl)
        have hrest := ih hl.tail rfl hx
        omega

/-- No state of the stack is below what is final in a state above. -/
def Settled (height final : σ → Nat) (l : List σ) : Prop := l.Pairwise fun s' s => final s' ≤ height s

theorem Move.settled (h : Move Step height final l l') (hheight : ∀ s s', Step s s' → height s' = height s + 1)
    (hlinked : Linked Step l) (hl : Settled height final l) : Settled height final l' := by
  cases h with
  | @step s s' rest h =>
    refine List.pairwise_cons.mpr ⟨fun x hx => ?_, hl.take⟩
    obtain ⟨j, hj⟩ := List.mem_iff_getElem?.mp hx
    have hlt : j < height s' - final s' := by
      have hlen := (List.getElem?_eq_some_iff.mp hj).1
      rw [List.length_take] at hlen
      omega
    rw [List.getElem?_take_of_lt hlt] at hj
    have hindex := hlinked.height_index hheight rfl hj
    have hnext := hheight s s' h
    omega
  | forget _ => exact hl.take
  | back => exact hl.tail

/-- **No state that is still there is below what is final.** -/
theorem Moves.settled (h : Moves Step height final l l') (hheight : ∀ s s', Step s s' → height s' = height s + 1)
    (hlinked : Linked Step l) (hl : Settled height final l) : Settled height final l' := by
  induction h with
  | refl => exact hl
  | tail hmoves hmove ih => exact hmove.settled hheight (Moves.linked hmoves hlinked) ih

end History
