import Mathlib.Data.Finset.Basic
import Mathlib.Data.Set.Insert

/-!
# A set shared out among holders

A whole and the shares that holders have of it: the whole is what the holders hold together, and nothing is held twice.
-/

variable {α ι : Type}

/-- The whole is the disjoint union of the shares of the holders. -/
structure Shared (whole : Finset α) (holders : Set ι) (share : ι → Finset α) : Prop where
  mem_iff : ∀ a, a ∈ whole ↔ ∃ i ∈ holders, a ∈ share i
  disjoint : ∀ i ∈ holders, ∀ j ∈ holders, ∀ a ∈ share i, a ∈ share j → i = j

namespace Shared

variable {whole : Finset α} {holders : Set ι} {share share' : ι → Finset α} {i : ι} {a : α}

theorem congr (h : Shared whole holders share) (hsame : ∀ i ∈ holders, share' i = share i) :
    Shared whole holders share' where
  mem_iff a := by
    rw [h.mem_iff]
    refine exists_congr fun i => and_congr_right fun hi => ?_
    rw [hsame i hi]
  disjoint i hi j hj a := by
    rw [hsame i hi, hsame j hj]
    exact h.disjoint i hi j hj a

/-- Somebody joins who holds nothing. -/
theorem join (h : Shared whole holders share) (hi : share i = ∅) : Shared whole (insert i holders) share where
  mem_iff a := by
    rw [h.mem_iff]
    constructor
    · rintro ⟨j, hj, ha⟩
      exact ⟨j, Set.mem_insert_of_mem i hj, ha⟩
    · rintro ⟨j, rfl | hj, ha⟩
      · simp [hi] at ha
      · exact ⟨j, hj, ha⟩
  disjoint j hj k hk a haj hak := by
    rcases hj with rfl | hj
    · simp [hi] at haj
    · rcases hk with rfl | hk
      · simp [hi] at hak
      · exact h.disjoint j hj k hk a haj hak

variable [DecidableEq α]

/-- A holder is given what nobody holds. -/
theorem give [DecidableEq ι] (h : Shared whole holders share) (hi : i ∈ holders) {items : Finset α} (hnew : ∀ a ∈ items, a ∉ whole)
    (hshare : ∀ j, share' j = if j = i then share j ∪ items else share j) :
    Shared (whole ∪ items) holders share' where
  mem_iff a := by
    rw [Finset.mem_union, h.mem_iff]
    constructor
    · rintro (⟨j, hj, ha⟩ | ha)
      · refine ⟨j, hj, ?_⟩
        rw [hshare]
        split_ifs
        · exact Finset.mem_union_left _ ha
        · exact ha
      · refine ⟨i, hi, ?_⟩
        rw [hshare, if_pos rfl]
        exact Finset.mem_union_right _ ha
    · rintro ⟨j, hj, ha⟩
      rw [hshare] at ha
      split_ifs at ha
      · exact (Finset.mem_union.mp ha).imp_left fun ha => ⟨j, hj, ha⟩
      · exact .inl ⟨j, hj, ha⟩
  disjoint j hj k hk a haj hak := by
    have hheld (l : ι) (hl : l ∈ holders) (ha : a ∈ share' l) : a ∈ share l ∨ l = i ∧ a ∈ items := by
      rw [hshare] at ha
      split_ifs at ha with hli
      · exact (Finset.mem_union.mp ha).imp_right fun ha => ⟨hli, ha⟩
      · exact .inl ha
    rcases hheld j hj haj with haj | ⟨rfl, haj⟩ <;> rcases hheld k hk hak with hak | ⟨rfl, hak⟩
    · exact h.disjoint j hj k hk a haj hak
    · exact absurd ((h.mem_iff a).mpr ⟨j, hj, haj⟩) (hnew a hak)
    · exact absurd ((h.mem_iff a).mpr ⟨k, hk, hak⟩) (hnew a haj)
    · rfl

/-- A holder gives back one thing. -/
theorem take [DecidableEq ι] (h : Shared whole holders share) (hi : i ∈ holders) (ha : a ∈ share i)
    (hshare : ∀ j, share' j = if j = i then (share j).erase a else share j) :
    Shared (whole.erase a) holders share' where
  mem_iff b := by
    rw [Finset.mem_erase, h.mem_iff]
    constructor
    · rintro ⟨hba, j, hj, hb⟩
      refine ⟨j, hj, ?_⟩
      rw [hshare]
      split_ifs
      · exact Finset.mem_erase.mpr ⟨hba, hb⟩
      · exact hb
    · rintro ⟨j, hj, hb⟩
      rw [hshare] at hb
      split_ifs at hb with hji
      · exact ⟨(Finset.mem_erase.mp hb).1, j, hj, (Finset.mem_erase.mp hb).2⟩
      · refine ⟨?_, j, hj, hb⟩
        rintro rfl
        exact hji (h.disjoint j hj i hi b hb ha)
  disjoint j hj k hk b hbj hbk := by
    have hheld (l : ι) (hb : b ∈ share' l) : b ∈ share l := by
      rw [hshare] at hb
      split_ifs at hb
      · exact Finset.mem_of_mem_erase hb
      · exact hb
    exact h.disjoint j hj k hk b (hheld j hbj) (hheld k hbk)

/-- A holder goes, and what it held is no longer held. -/
theorem leave (h : Shared whole holders share) (hi : i ∈ holders) :
    Shared (whole \ share i) (holders \ {i}) share where
  mem_iff a := by
    rw [Finset.mem_sdiff, h.mem_iff]
    constructor
    · rintro ⟨⟨j, hj, ha⟩, hai⟩
      refine ⟨j, ⟨hj, ?_⟩, ha⟩
      rintro rfl
      exact hai ha
    · rintro ⟨j, ⟨hj, hji⟩, ha⟩
      exact ⟨⟨j, hj, ha⟩, fun hai => hji (h.disjoint j hj i hi a ha hai)⟩
  disjoint j hj k hk := h.disjoint j hj.1 k hk.1

end Shared
