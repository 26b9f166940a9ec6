import Mathlib.Logic.Function.Basic
import Mathlib.Tactic.Common

/-!
# Merkle trees by levels

The nodes of a level are hashed in pairs, and an odd last one moves up unchanged, until one node is left.
The shape of the tree depends on the number of leaves alone, so an injective hash makes the root determine
the leaves among lists of one length (`root_injective`).
-/

namespace Merkle

variable {α : Type*} (h : α → α → α)

/-- The next level. -/
def level : List α → List α
  | a :: b :: xs => h a b :: level xs
  | xs => xs

theorem length_level : ∀ xs : List α, (level h xs).length = xs.length / 2 + xs.length % 2
  | [] => by simp [level]
  | [_] => by simp [level]
  | a :: b :: xs => by
    simp only [level, List.length_cons, length_level xs]
    omega

/-- Pairs do not straddle an even position. -/
theorem level_append : ∀ xs ys : List α, xs.length % 2 = 0 → level h (xs ++ ys) = level h xs ++ level h ys
  | [], ys, _ => rfl
  | [_], ys, heven => by simp at heven
  | a :: b :: xs, ys, heven => by
    have heven' : xs.length % 2 = 0 := by
      simp only [List.length_cons] at heven
      omega
    simp only [level, List.cons_append, level_append xs ys heven']

/-- The root of a nonempty list of leaves. -/
def root : List α → Option α
  | [] => none
  | [a] => some a
  | a :: b :: xs => root (level h (a :: b :: xs))
termination_by xs => xs.length
decreasing_by
  rw [length_level]
  simp only [List.length_cons]
  omega

/-- Going up one level does not change the root. -/
theorem root_level (xs : List α) : root h (level h xs) = root h xs := by
  match xs with
  | [] => rw [level]; rintro _ _ _ ⟨⟩
  | [_] => rw [level]; rintro _ _ _ ⟨⟩
  | a :: b :: xs => rw [← root]

variable {h}

theorem level_injective (hinj : Function.Injective2 h) :
    ∀ xs ys : List α, xs.length = ys.length → level h xs = level h ys → xs = ys
  | [], [], _, _ => rfl
  | [_], [_], _, heq => heq
  | a :: b :: xs, c :: d :: ys, hlen, heq => by
    simp only [level, List.cons.injEq] at heq
    simp only [List.length_cons] at hlen
    obtain ⟨hac, hbd⟩ := hinj heq.1
    rw [hac, hbd, level_injective hinj xs ys (by omega) heq.2]
  | [], _ :: _, hlen, _ => by simp at hlen
  | _ :: _, [], hlen, _ => by simp at hlen
  | [_], _ :: _ :: _, hlen, _ => by simp at hlen
  | _ :: _ :: _, [_], hlen, _ => by simp at hlen

/-- **Injectivity**: lists of one length with one root are equal. -/
theorem root_injective (hinj : Function.Injective2 h) (xs ys : List α) (hlen : xs.length = ys.length)
    (heq : root h xs = root h ys) : xs = ys := by
  induction hn : xs.length using Nat.strongRecOn generalizing xs ys with
  | ind n ih =>
    match xs, ys with
    | [], [] => rfl
    | [a], [b] =>
      simp only [root, Option.some.injEq] at heq
      rw [heq]
    | a :: b :: xs, c :: d :: ys =>
      rw [← root_level, ← root_level h (c :: d :: ys)] at heq
      refine level_injective hinj _ _ hlen (ih _ ?_ _ _ ?_ heq rfl)
      · rw [length_level, ← hn]
        simp only [List.length_cons]
        omega
      · rw [length_level, length_level, hlen]
    | [], _ :: _ => simp at hlen
    | _ :: _, [] => simp at hlen
    | [_], _ :: _ :: _ => simp at hlen
    | _ :: _ :: _, [_] => simp at hlen

end Merkle
