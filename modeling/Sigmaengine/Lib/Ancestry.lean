import Mathlib.Data.List.Chain

/-!
# Ways up in a forest

`up` leads from a node to its parent and `rank` is the height of a node, one more than its parent's.  Two ways up
meet where they reach nodes of the same rank that agree in what is above them (`key`); the first such pair is found
by walking down from the higher node until the ranks agree, and then on both sides at once.
-/

namespace Ancestry

variable {α κ : Type}

/-- The nodes `l` lead from `a` up to `z`, both included. -/
inductive Climb (up : α → Option α) : α → List α → α → Prop
  | here (a : α) : Climb up a [a] a
  | step {a b z : α} {l : List α} (hup : up a = some b) (hclimb : Climb up b l z) : Climb up a (a :: l) z

/-- One is less than the rank below. -/
def Ranked (up : α → Option α) (rank : α → Nat) : Prop := ∀ a b, up a = some b → rank a = rank b + 1

variable {up : α → Option α} {rank : α → Nat} {key : α → κ} {a b p q x y z : α} {l m : List α}

namespace Climb

theorem mem_first (h : Climb up a l z) : a ∈ l := by
  cases h <;> simp

theorem mem_last (h : Climb up a l z) : z ∈ l := by
  induction h with
  | here a => simp
  | step _ _ ih => exact List.mem_cons_of_mem _ ih

theorem head_eq (h : Climb up a l z) : l.head? = some a := by
  cases h <;> rfl

theorem getLast_eq (h : Climb up a l z) : l.getLast? = some z := by
  induction h with
  | here a => rfl
  | step _ hclimb ih =>
    obtain ⟨c, l, rfl⟩ := List.exists_cons_of_ne_nil (List.ne_nil_of_mem hclimb.mem_first)
    rw [List.getLast?_cons_cons, ih]

/-- Every node but the last is followed by its parent. -/
theorem isChain (h : Climb up a l z) : l.IsChain fun x y => up x = some y := by
  induction h with
  | here a => simp
  | step hup hclimb ih =>
    cases hclimb with
    | here b => simpa using hup
    | step hnext hclimb => exact .cons_cons hup ih

/-- A way that leads below the rank of `a` goes through the parent of `a`. -/
theorem through (h : Climb up a l z) (hlt : rank z < rank a) :
    ∃ b m, up a = some b ∧ l = a :: m ∧ Climb up b m z := by
  cases h with
  | here => omega
  | step hup hclimb => exact ⟨_, _, hup, rfl, hclimb⟩

variable (hranked : Ranked up rank)
include hranked

theorem rank_le (h : Climb up a l z) : ∀ x ∈ l, rank z ≤ rank x ∧ rank x ≤ rank a := by
  induction h with
  | here a =>
    intro x hx
    obtain rfl := List.mem_singleton.mp hx
    omega
  | step hup hclimb ih =>
    have hlt := hranked _ _ hup
    intro x hx
    rcases List.mem_cons.mp hx with rfl | hx
    · have hfirst := ih _ hclimb.mem_first
      omega
    · have hbetween := ih x hx
      omega

/-- The ranks fall. -/
theorem falling (h : Climb up a l z) : l.Pairwise fun x y => rank y < rank x := by
  induction h with
  | here a => simp
  | step hup hclimb ih =>
    refine List.pairwise_cons.mpr ⟨fun y hy => ?_, ih⟩
    have hle := (hclimb.rank_le hranked _ hy).2
    have hlt := hranked _ _ hup
    omega

/-- Nodes of the rank of the last one are the last one. -/
theorem eq_last (h : Climb up a l z) (hx : x ∈ l) (hrank : rank x = rank z) : x = z := by
  induction h with
  | here a => exact List.mem_singleton.mp hx
  | step hup hclimb ih =>
    rcases List.mem_cons.mp hx with rfl | hx
    · have hle := (hclimb.rank_le hranked _ hclimb.mem_first).1
      have hlt := hranked _ _ hup
      omega
    · exact ih hx hrank

end Climb

/-! ## Where two ways meet -/

/-- The ways up from `a` and `b` reach nodes of the same rank with the same key. -/
def Meets (up : α → Option α) (rank : α → Nat) (key : α → κ) (a b : α) : Prop :=
  ∃ l m y z, Climb up a l y ∧ Climb up b m z ∧ rank y = rank z ∧ key y = key z

/-- `l` and `m` lead from `a` and `b` to the first nodes of the same rank with the same key. -/
def Nearest (up : α → Option α) (rank : α → Nat) (key : α → κ) (a b : α) (l m : List α) : Prop :=
  ∃ y z, Climb up a l y ∧ Climb up b m z ∧ rank y = rank z ∧ key y = key z ∧
    ∀ x ∈ l, ∀ x' ∈ m, rank x = rank x' → key x = key x' → x = y ∧ x' = z

theorem Nearest.meets (h : Nearest up rank key a b l m) : Meets up rank key a b := by
  obtain ⟨y, z, hl, hm, hrank, hkey, -⟩ := h
  exact ⟨l, m, y, z, hl, hm, hrank, hkey⟩

theorem Nearest.symm (h : Nearest up rank key a b l m) : Nearest up rank key b a m l := by
  obtain ⟨y, z, hl, hm, hrank, hkey, hfirst⟩ := h
  refine ⟨z, y, hm, hl, hrank.symm, hkey.symm, ?_⟩
  intro x hx x' hx' hr hk
  exact (hfirst x' hx' x hx hr.symm hk.symm).symm

theorem Meets.symm (h : Meets up rank key a b) : Meets up rank key b a := by
  obtain ⟨l, m, y, z, hl, hm, hrank, hkey⟩ := h
  exact ⟨m, l, z, y, hm, hl, hrank.symm, hkey.symm⟩

/-- A node above both is a place to meet. -/
theorem Climb.meets (hl : Climb up a l z) (hm : Climb up b m z) : Meets up rank key a b :=
  ⟨l, m, z, z, hl, hm, rfl, rfl⟩

/-- The search ends at nodes of the same rank with the same key. -/
theorem nearest_here (hrank : rank a = rank b) (hkey : key a = key b) : Nearest up rank key a b [a] [b] := by
  refine ⟨a, b, .here a, .here b, hrank, hkey, ?_⟩
  intro x hx x' hx' _ _
  exact ⟨List.mem_singleton.mp hx, List.mem_singleton.mp hx'⟩

variable (hranked : Ranked up rank)
include hranked

/-! ## The steps of the search -/

/-- The higher node steps to its parent. -/
theorem Nearest.cons_left (h : Nearest up rank key p b l m) (hup : up a = some p) (hlt : rank b < rank a) :
    Nearest up rank key a b (a :: l) m := by
  obtain ⟨y, z, hl, hm, hrank, hkey, hfirst⟩ := h
  refine ⟨y, z, .step hup hl, hm, hrank, hkey, ?_⟩
  intro x hx x' hx' hr hk
  rcases List.mem_cons.mp hx with rfl | hx
  · have hle := (hm.rank_le hranked _ hx').2
    omega
  · exact hfirst x hx x' hx' hr hk

theorem Meets.left (h : Meets up rank key a b) (hlt : rank b < rank a) :
    ∃ p, up a = some p ∧ Meets up rank key p b := by
  obtain ⟨l, m, y, z, hl, hm, hrank, hkey⟩ := h
  have hle := (hm.rank_le hranked _ hm.mem_last).2
  have hlow : rank y < rank a := by omega
  obtain ⟨p, l', hup, -, hclimb⟩ := hl.through hlow
  exact ⟨p, hup, l', m, y, z, hclimb, hm, hrank, hkey⟩

/-- At equal ranks with different keys both step to their parents. -/
theorem Nearest.cons_both (h : Nearest up rank key p q l m) (hup : up a = some p) (hup' : up b = some q)
    (hrank : rank a = rank b) (hne : key a ≠ key b) : Nearest up rank key a b (a :: l) (b :: m) := by
  obtain ⟨y, z, hl, hm, hends, hkey, hfirst⟩ := h
  refine ⟨y, z, .step hup hl, .step hup' hm, hends, hkey, ?_⟩
  have hp := hranked _ _ hup
  have hq := hranked _ _ hup'
  intro x hx x' hx' hr hk
  rcases List.mem_cons.mp hx with rfl | hx <;> rcases List.mem_cons.mp hx' with rfl | hx'
  · exact absurd hk hne
  · have hle := (hm.rank_le hranked _ hx').2
    omega
  · have hle := (hl.rank_le hranked _ hx).2
    omega
  · exact hfirst x hx x' hx' hr hk

theorem Meets.both (h : Meets up rank key a b) (hrank : rank a = rank b) (hne : key a ≠ key b) :
    ∃ p q, up a = some p ∧ up b = some q ∧ Meets up rank key p q := by
  obtain ⟨l, m, y, z, hl, hm, hends, hkey⟩ := h
  cases hl with
  | here =>
    -- the way up from `b` ends at the rank of `b`, so at `b`
    have hb := hm.eq_last hranked hm.mem_first (by omega)
    rw [← hb] at hkey
    exact absurd hkey hne
  | step hup hl =>
    have hp := hranked _ _ hup
    have hle := (hl.rank_le hranked _ hl.mem_last).2
    have hlow : rank z < rank b := by omega
    obtain ⟨q, m', hup', -, hm'⟩ := hm.through hlow
    exact ⟨_, q, hup, hup', _, m', y, z, hl, hm', hends, hkey⟩

end Ancestry
