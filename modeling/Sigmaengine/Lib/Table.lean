import Mathlib.Algebra.Order.BigOperators.Group.Multiset
import Mathlib.Data.Finsupp.Basic
import Mathlib.Tactic.Abel
import Sigmaengine.Lib.Effect

/-!
# Object tables

A table holds objects under ids that only grow.  Ids are pairwise distinct and below `nextId`, and no
two objects share a key of a unique secondary index (`Clash`), all by construction: `create` and
`modify` refuse a clash, so a lookup by id or by a unique key is a membership.

`Table.sum` adds a weight up over all objects.  Its change under each operation is the change of the
one object the operation touches, in any commutative group.
-/

open Effect

/-- Two objects that share a key of some unique secondary index. -/
class Clash (α : Type) where
  clash : α → α → Bool
  comm : ∀ a b, clash a b = clash b a := by intro a b; first | rfl | simp only [BEq.comm]

/-- The exceptions a table throws. -/
class TableError (ε : Type) where
  couldNotInsert : ε
  couldNotModify : ε
  missing : ε

/-- Objects of one type, listed by increasing id. -/
structure Table (α : Type) [Clash α] where
  rows : List (Nat × α)
  nextId : Nat
  sorted : rows.Pairwise fun a b => a.1 < b.1
  fresh : ∀ r ∈ rows, r.1 < nextId
  distinct : rows.Pairwise fun a b => Clash.clash a.2 b.2 = false

namespace Table

variable {α : Type} [Clash α]

def empty : Table α := ⟨[], 0, List.Pairwise.nil, by simp, List.Pairwise.nil⟩

/-- The object with the given id. -/
def lookup (t : Table α) (id : Nat) : Option α :=
  (t.rows.find? fun r => r.1 == id).map Prod.snd

/-- The first object, by id, that satisfies `p`. -/
def find? (t : Table α) (p : α → Bool) : Option (Nat × α) :=
  t.rows.find? fun r => p r.2

/-- The first object in the order of a secondary index; equal keys keep the order of their ids. -/
def least? (t : Table α) (lt : Nat × α → Nat × α → Bool) : Option (Nat × α) :=
  t.rows.foldl (fun m r =>
    match m with
    | none => some r
    | some b => if lt r b then some r else some b) none

/-- Some object other than `id` clashes with `a`. -/
def clashes (t : Table α) (id : Nat) (a : α) : Bool :=
  t.rows.any fun r => r.1 != id && Clash.clash r.2 a

theorem clash_of_clashes {t : Table α} {id : Nat} {a : α} (h : t.clashes id a = false)
    {r : Nat × α} (hr : r ∈ t.rows) (hid : r.1 ≠ id) : Clash.clash r.2 a = false := by
  have := List.any_eq_false.mp h r hr
  simpa [hid] using this

/-- Append an object under the next id. -/
def insert (t : Table α) (a : α) (h : t.clashes t.nextId a = false) : Table α where
  rows := t.rows ++ [(t.nextId, a)]
  nextId := t.nextId + 1
  sorted := by
    rw [List.pairwise_append]
    refine ⟨t.sorted, List.pairwise_singleton _ _, ?_⟩
    intro x hx y hy
    rw [List.mem_singleton.mp hy]
    exact t.fresh x hx
  fresh := by
    intro r hr
    rcases List.mem_append.mp hr with h | h
    · exact Nat.lt_succ_of_lt (t.fresh r h)
    · rw [List.mem_singleton.mp h]
      exact Nat.lt_succ_self _
  distinct := by
    rw [List.pairwise_append]
    refine ⟨t.distinct, List.pairwise_singleton _ _, ?_⟩
    intro x hx y hy
    rw [List.mem_singleton.mp hy]
    exact clash_of_clashes h hx (Nat.ne_of_lt (t.fresh x hx))

/-- Replace the object with the given id. -/
def replace (t : Table α) (id : Nat) (a : α) (h : t.clashes id a = false) : Table α where
  rows := t.rows.map fun r => if r.1 = id then (r.1, a) else r
  nextId := t.nextId
  sorted := by
    rw [List.pairwise_map]
    refine t.sorted.imp ?_
    intro x y h
    split <;> split <;> exact h
  fresh := by
    intro r hr
    obtain ⟨x, hx, rfl⟩ := List.mem_map.mp hr
    have := t.fresh x hx
    split <;> exact this
  distinct := by
    rw [List.pairwise_map]
    refine (t.sorted.and t.distinct).imp_of_mem ?_
    rintro x y hx hy ⟨hlt, hxy⟩
    by_cases hxid : x.1 = id
    · -- `x` is the replaced object, so `y` is not
      rw [if_pos hxid, if_neg (by omega), Clash.comm]
      exact clash_of_clashes h hy (by omega)
    · rw [if_neg hxid]
      split
      · exact clash_of_clashes h hx hxid
      · exact hxy

/-- Drop the object with the given id. -/
def erase (t : Table α) (id : Nat) : Table α where
  rows := t.rows.filter fun r => r.1 != id
  nextId := t.nextId
  sorted := t.sorted.filter _
  fresh := fun r hr => t.fresh r (List.mem_of_mem_filter hr)
  distinct := t.distinct.filter _

/-- Drop the objects with the given ids, one after the other. -/
def eraseAll (t : Table α) (ids : List Nat) : Table α := ids.foldl erase t

/-- Drop the objects that satisfy `p`. -/
def without (t : Table α) (p : α → Bool) : Table α :=
  t.eraseAll ((t.rows.filter fun r => p r.2).map Prod.fst)

/-- A table with the given objects under the ids 0, 1, …; an object that clashes is left out. -/
def ofList (as : List α) : Table α :=
  as.foldl (fun t a => if h : t.clashes t.nextId a = false then t.insert a h else t) empty

/-- The objects, without their ids. -/
def values (t : Table α) : Multiset α := ↑(t.rows.map Prod.snd)

/-- The sum of a weight over all objects. -/
def sum {M : Type} [AddCommMonoid M] (t : Table α) (w : α → M) : M := (t.values.map w).sum

/-! ## Membership -/

theorem eq_of_mem {t : Table α} {i : Nat} {a b : α} (ha : (i, a) ∈ t.rows)
    (hb : (i, b) ∈ t.rows) : a = b := by
  have hsame := List.Pairwise.forall_of_forall_of_flip
    (R := fun x y : Nat × α => x.1 = y.1 → x.2 = y.2) (fun _ _ _ => rfl)
    (t.sorted.imp fun h e => absurd e (Nat.ne_of_lt h))
    (t.sorted.imp fun h e => absurd e.symm (Nat.ne_of_lt h))
  exact hsame ha hb rfl

/-- Objects that clash are one and the same. -/
theorem eq_of_clash {t : Table α} {r q : Nat × α} (hr : r ∈ t.rows) (hq : q ∈ t.rows)
    (h : Clash.clash r.2 q.2 = true) : r = q := by
  have hsame := List.Pairwise.forall_of_forall_of_flip
    (R := fun x y : Nat × α => Clash.clash x.2 y.2 = true → x = y) (fun _ _ _ => rfl)
    (t.distinct.imp fun hd hc => absurd hc (by rw [hd]; exact Bool.false_ne_true))
    (t.distinct.imp fun hd hc => absurd hc (by rw [Clash.comm, hd]; exact Bool.false_ne_true))
  exact hsame hr hq h

theorem lookup_eq_some {t : Table α} {id : Nat} {a : α} :
    t.lookup id = some a ↔ (id, a) ∈ t.rows := by
  unfold lookup
  constructor
  · intro h
    obtain ⟨r, hr, rfl⟩ := Option.map_eq_some_iff.mp h
    have hid := List.find?_some hr
    have hmem := List.mem_of_find?_eq_some hr
    rw [← beq_iff_eq.mp hid]
    exact hmem
  · intro h
    cases hf : t.rows.find? fun r => r.1 == id with
    | none =>
      have := List.find?_eq_none.mp hf (id, a) h
      simp at this
    | some r =>
      have hid := List.find?_some hf
      have hmem := List.mem_of_find?_eq_some hf
      rw [show r = (id, r.2) from Prod.ext (beq_iff_eq.mp hid) rfl] at hmem
      rw [Option.map_some, eq_of_mem hmem h]

theorem mem_of_find? {t : Table α} {p : α → Bool} {r : Nat × α} (h : t.find? p = some r) :
    r ∈ t.rows ∧ p r.2 = true :=
  ⟨List.mem_of_find?_eq_some h, List.find?_some (p := fun r : Nat × α => p r.2) h⟩

theorem find?_eq_none {t : Table α} {p : α → Bool} (h : t.find? p = none) {r : Nat × α}
    (hr : r ∈ t.rows) : p r.2 = false := by
  have := List.find?_eq_none.mp h r hr
  simpa using this

/-- A search by a unique key finds the object that has it. -/
theorem find?_of_mem {t : Table α} {p : α → Bool} {r : Nat × α} (hr : r ∈ t.rows) (hp : p r.2 = true)
    (hkey : ∀ a, p a = true → Clash.clash a r.2 = true) : t.find? p = some r := by
  cases hf : t.find? p with
  | none =>
    rw [find?_eq_none hf hr] at hp
    cases hp
  | some q =>
    obtain ⟨hq, hpq⟩ := mem_of_find? hf
    exact congrArg some (eq_of_clash hq hr (hkey _ hpq))

theorem mem_insert {t : Table α} {a : α} {h : t.clashes t.nextId a = false} {r : Nat × α} :
    r ∈ (t.insert a h).rows ↔ r ∈ t.rows ∨ r = (t.nextId, a) := by
  simp [insert]

theorem mem_replace {t : Table α} {id : Nat} {a : α} {h : t.clashes id a = false} {r : Nat × α} :
    r ∈ (t.replace id a h).rows ↔
      (r ∈ t.rows ∧ r.1 ≠ id) ∨ (r = (id, a) ∧ ∃ b, (id, b) ∈ t.rows) := by
  simp only [replace, List.mem_map]
  constructor
  · rintro ⟨x, hx, rfl⟩
    by_cases hid : x.1 = id
    · right
      rw [if_pos hid]
      exact ⟨by rw [hid], x.2, by rw [← hid]; exact hx⟩
    · left
      rw [if_neg hid]
      exact ⟨hx, hid⟩
  · rintro (⟨hx, hid⟩ | ⟨rfl, b, hb⟩)
    · exact ⟨r, hx, if_neg hid⟩
    · exact ⟨(id, b), hb, if_pos rfl⟩

theorem mem_erase {t : Table α} {id : Nat} {r : Nat × α} :
    r ∈ (t.erase id).rows ↔ r ∈ t.rows ∧ r.1 ≠ id := by
  simp [erase]

theorem mem_values {t : Table α} {a : α} : a ∈ t.values ↔ ∃ id, (id, a) ∈ t.rows := by
  simp [values]

theorem mem_of_least? {t : Table α} {lt : Nat × α → Nat × α → Bool} {r : Nat × α}
    (h : t.least? lt = some r) : r ∈ t.rows := by
  -- what the fold holds is always one of the rows it has passed or what it started with
  have hfold : ∀ (rows : List (Nat × α)) (m : Option (Nat × α)),
      rows.foldl (fun m r =>
        match m with
        | none => some r
        | some b => if lt r b then some r else some b) m = some r → m = some r ∨ r ∈ rows := by
    intro rows
    induction rows with
    | nil => exact fun m hm => .inl hm
    | cons x xs ih =>
      intro m hm
      rcases ih _ hm with hx | hx
      · cases m with
        | none =>
          cases hx
          exact .inr List.mem_cons_self
        | some b =>
          dsimp only at hx
          split at hx
          · cases hx
            exact .inr List.mem_cons_self
          · exact .inl hx
      · exact .inr (List.mem_cons_of_mem _ hx)
  rcases hfold t.rows none h with hn | hr
  · cases hn
  · exact hr

/-- The first object by a numeric key: no other has a smaller one, and among equals it has the smallest id. -/
theorem least?_le {t : Table α} {k : α → Nat} {lt : Nat × α → Nat × α → Bool}
    (hlt : ∀ a b, lt a b = decide (k a.2 < k b.2)) {r : Nat × α} (h : t.least? lt = some r) {x : Nat × α}
    (hx : x ∈ t.rows) : k r.2 ≤ k x.2 ∧ (k r.2 = k x.2 → r.1 ≤ x.1) := by
  -- the fold holds the first of the rows it has passed, and every later row has a larger id
  have hfold : ∀ (rows : List (Nat × α)), rows.Pairwise (fun a b => a.1 < b.1) → ∀ m : Nat × α,
      (∀ y ∈ rows, m.1 < y.1) →
      rows.foldl (fun m r =>
        match m with
        | none => some r
        | some b => if lt r b then some r else some b) (some m) = some r →
      ∀ y ∈ m :: rows, k r.2 ≤ k y.2 ∧ (k r.2 = k y.2 → r.1 ≤ y.1) := by
    intro rows
    induction rows with
    | nil =>
      intro _ m _ hm y hy
      cases hm
      rw [List.mem_singleton.mp hy]
      exact ⟨le_rfl, fun _ => le_rfl⟩
    | cons z zs ih =>
      intro hsorted m hmz hm y hy
      rw [List.pairwise_cons] at hsorted
      have hz := hmz z List.mem_cons_self
      rw [List.foldl_cons] at hm
      dsimp only at hm
      by_cases hless : k z.2 < k m.2
      · rw [hlt, if_pos (decide_eq_true hless)] at hm
        have hrest := ih hsorted.2 z hsorted.1 hm
        have hrz := hrest z List.mem_cons_self
        rcases List.mem_cons.mp hy with rfl | hy
        · exact ⟨hrz.1.trans hless.le, fun heq => absurd heq (hrz.1.trans_lt hless).ne⟩
        · exact hrest y hy
      · rw [hlt, if_neg (by simpa using hless)] at hm
        have hrest := ih hsorted.2 m (fun y hy => hmz y (List.mem_cons_of_mem _ hy)) hm
        have hrm := hrest m List.mem_cons_self
        rcases List.mem_cons.mp hy with rfl | hy
        · exact hrm
        rcases List.mem_cons.mp hy with rfl | hy
        · refine ⟨hrm.1.trans (not_lt.mp hless), fun heq => (hrm.2 ?_).trans hz.le⟩
          exact le_antisymm hrm.1 (heq ▸ not_lt.mp hless)
        · exact hrest y (List.mem_cons_of_mem _ hy)
  unfold least? at h
  cases hrows : t.rows with
  | nil =>
    rw [hrows] at hx
    cases hx
  | cons z zs =>
    have hsorted := t.sorted
    rw [hrows] at h hx hsorted
    rw [List.pairwise_cons] at hsorted
    exact hfold zs hsorted.2 z hsorted.1 h x hx

/-- The first object by an order that respects a numeric key has the smallest key. -/
theorem least?_key_le {t : Table α} {k : α → Nat} {lt : Nat × α → Nat × α → Bool}
    (hlt : ∀ a b, lt a b = true → k a.2 ≤ k b.2) (hge : ∀ a b, lt a b = false → k b.2 ≤ k a.2)
    {r : Nat × α} (h : t.least? lt = some r) {x : Nat × α} (hx : x ∈ t.rows) : k r.2 ≤ k x.2 := by
  have hfold : ∀ (rows : List (Nat × α)) (m : Nat × α),
      rows.foldl (fun m r =>
        match m with
        | none => some r
        | some b => if lt r b then some r else some b) (some m) = some r →
      ∀ y ∈ m :: rows, k r.2 ≤ k y.2 := by
    intro rows
    induction rows with
    | nil =>
      intro m hm y hy
      cases hm
      rw [List.mem_singleton.mp hy]
    | cons z zs ih =>
      intro m hm y hy
      rw [List.foldl_cons] at hm
      dsimp only at hm
      by_cases hless : lt z m = true
      · rw [if_pos hless] at hm
        have hrest := ih z hm
        rcases List.mem_cons.mp hy with rfl | hy
        · exact (hrest z (.head _)).trans (hlt _ _ hless)
        · exact hrest y hy
      · rw [if_neg hless] at hm
        have hrest := ih m hm
        rcases List.mem_cons.mp hy with rfl | hy
        · exact hrest _ (.head _)
        rcases List.mem_cons.mp hy with rfl | hy
        · exact (hrest m (.head _)).trans (hge _ _ (Bool.eq_false_iff.mpr hless))
        · exact hrest y (.tail _ hy)
  unfold least? at h
  cases hrows : t.rows with
  | nil =>
    rw [hrows] at hx
    cases hx
  | cons z zs =>
    rw [hrows] at h hx
    exact hfold zs z h x hx

theorem rows_of_least?_none {t : Table α} {lt : Nat × α → Nat × α → Bool} (h : t.least? lt = none) : t.rows = [] := by
  have hfold : ∀ (rows : List (Nat × α)) (m : Nat × α),
      (rows.foldl (fun m r =>
        match m with
        | none => some r
        | some b => if lt r b then some r else some b) (some m)).isSome = true := by
    intro rows
    induction rows with
    | nil => exact fun m => rfl
    | cons z zs ih =>
      intro m
      rw [List.foldl_cons]
      dsimp only
      split
      · exact ih z
      · exact ih m
  unfold least? at h
  cases hrows : t.rows with
  | nil => rfl
  | cons z zs =>
    rw [hrows] at h
    have := hfold zs z
    rw [show zs.foldl _ (some z) = none from h] at this
    cases this

theorem lookup_insert (t : Table α) {a : α} (h : t.clashes t.nextId a = false) (id : Nat) :
    (t.insert a h).lookup id = if id = t.nextId then some a else t.lookup id := by
  ext x
  rw [lookup_eq_some, mem_insert]
  by_cases hid : id = t.nextId
  · have hfresh : (id, x) ∉ t.rows := fun hmem => absurd (t.fresh _ hmem) (by simp [hid])
    simp [hid, hid ▸ hfresh, eq_comm]
  · simp [hid, lookup_eq_some]

theorem lookup_erase (t : Table α) (id id' : Nat) :
    (t.erase id).lookup id' = if id' = id then none else t.lookup id' := by
  ext x
  rw [lookup_eq_some, mem_erase]
  by_cases hid : id' = id
  · simp [hid]
  · simp [hid, lookup_eq_some]

theorem lookup_replace {t : Table α} {id : Nat} {a b : α} (ha : t.lookup id = some a)
    (h : t.clashes id b = false) (id' : Nat) :
    (t.replace id b h).lookup id' = if id' = id then some b else t.lookup id' := by
  ext x
  rw [lookup_eq_some, mem_replace]
  have hmem : ∃ c, (id, c) ∈ t.rows := ⟨a, lookup_eq_some.mp ha⟩
  by_cases hid : id' = id
  · simp [hid, hmem, eq_comm]
  · simp [hid, lookup_eq_some]

/-- Replacing an object by one with the same `key` changes no key. -/
theorem map_rows_replace {κ : Type} {t : Table α} {id : Nat} {a b : α} (ha : t.lookup id = some a)
    (h : t.clashes id b = false) {k : α → κ} (hkey : k b = k a) :
    (t.replace id b h).rows.map (fun r => (r.1, k r.2)) = t.rows.map fun r => (r.1, k r.2) := by
  simp only [replace, List.map_map]
  refine List.map_congr_left fun r hr => ?_
  by_cases hid : r.1 = id
  · have hra : r.2 = a := eq_of_mem (i := id) (by rw [← hid]; exact hr) (lookup_eq_some.mp ha)
    simp [hid, hkey, hra]
  · simp [hid]

/-! ## Dropping several objects -/

theorem rows_eraseAll (t : Table α) (ids : List Nat) :
    (t.eraseAll ids).rows = t.rows.filter fun r => !ids.contains r.1 := by
  unfold eraseAll
  induction ids generalizing t with
  | nil => simp
  | cons id ids ih =>
    rw [List.foldl_cons, ih]
    show (t.rows.filter _).filter _ = _
    rw [List.filter_filter]
    refine List.filter_congr fun r _ => ?_
    rw [List.contains_cons, Bool.not_or, Bool.and_comm]
    rfl

theorem rows_without (t : Table α) (p : α → Bool) : (t.without p).rows = t.rows.filter fun r => !p r.2 := by
  unfold without
  rw [rows_eraseAll]
  refine List.filter_congr fun r hr => congrArg (!·) (Bool.eq_iff_iff.mpr ?_)
  rw [List.contains_iff_mem, List.mem_map]
  constructor
  · rintro ⟨q, hq, hid⟩
    rw [List.mem_filter] at hq
    have hqr : q.2 = r.2 := eq_of_mem (i := r.1) (by rw [← hid]; exact hq.1) hr
    rw [← hqr]
    exact hq.2
  · exact fun hp => ⟨r, List.mem_filter.mpr ⟨hr, hp⟩, rfl⟩

theorem mem_without {t : Table α} {p : α → Bool} {r : Nat × α} :
    r ∈ (t.without p).rows ↔ r ∈ t.rows ∧ p r.2 = false := by
  rw [rows_without, List.mem_filter, Bool.not_eq_true']

theorem mem_values_without {t : Table α} {p : α → Bool} {a : α} :
    a ∈ (t.without p).values ↔ a ∈ t.values ∧ p a = false := by
  simp only [mem_values, mem_without, exists_and_right]

theorem length_erase_lt {t : Table α} {r : Nat × α} (h : r ∈ t.rows) :
    (t.erase r.1).rows.length < t.rows.length :=
  List.length_filter_lt_length_iff_exists.mpr ⟨r, h, by simp⟩

/-! ## Objects under a unique key -/

/-- The object that satisfies `p`. -/
def at? (t : Table α) (p : α → Bool) : Option α := (t.find? p).map Prod.snd

/-- No two objects satisfy `p`, because they would clash. -/
def UniqueKey (p : α → Bool) : Prop := ∀ a b, p a = true → p b = true → Clash.clash a b = true

theorem at?_eq_some {t : Table α} {p : α → Bool} (hp : UniqueKey p) {a : α} :
    t.at? p = some a ↔ a ∈ t.values ∧ p a = true := by
  unfold at?
  constructor
  · intro h
    obtain ⟨r, hr, rfl⟩ := Option.map_eq_some_iff.mp h
    obtain ⟨hmem, hpr⟩ := mem_of_find? hr
    exact ⟨mem_values.mpr ⟨r.1, hmem⟩, hpr⟩
  · rintro ⟨hmem, hpa⟩
    obtain ⟨id, hid⟩ := mem_values.mp hmem
    rw [find?_of_mem hid hpa fun b hb => hp b a hb hpa, Option.map_some]

theorem at?_insert {t : Table α} {p : α → Bool} (hp : UniqueKey p) {a : α} (h : t.clashes t.nextId a = false) :
    (t.insert a h).at? p = if p a then some a else t.at? p := by
  ext x
  rw [at?_eq_some hp, mem_values]
  simp only [mem_insert]
  by_cases hpa : p a = true
  · rw [if_pos hpa]
    constructor
    · rintro ⟨⟨id, hmem | heq⟩, hpx⟩
      · have hne : id ≠ t.nextId := Nat.ne_of_lt (t.fresh _ hmem)
        have hclash := clash_of_clashes h hmem hne
        rw [hp x a hpx hpa] at hclash
        cases hclash
      · rw [(Prod.mk.inj heq).2]
    · intro hx
      cases hx
      exact ⟨⟨_, .inr rfl⟩, hpa⟩
  · rw [if_neg hpa, at?_eq_some hp, mem_values]
    constructor
    · rintro ⟨⟨id, hmem | heq⟩, hpx⟩
      · exact ⟨⟨id, hmem⟩, hpx⟩
      · rw [(Prod.mk.inj heq).2] at hpx
        exact absurd hpx hpa
    · rintro ⟨⟨id, hmem⟩, hpx⟩
      exact ⟨⟨id, .inl hmem⟩, hpx⟩

theorem at?_erase {t : Table α} {p : α → Bool} (hp : UniqueKey p) {id : Nat} {a : α} (ha : t.lookup id = some a) :
    (t.erase id).at? p = if p a then none else t.at? p := by
  ext x
  rw [at?_eq_some hp, mem_values]
  simp only [mem_erase]
  have hrow := lookup_eq_some.mp ha
  by_cases hpa : p a = true
  · rw [if_pos hpa]
    constructor
    · rintro ⟨⟨id', hmem, hne⟩, hpx⟩
      exact absurd (congrArg Prod.fst (eq_of_clash hmem hrow (hp x a hpx hpa))) hne
    · intro hx
      cases hx
  · rw [if_neg hpa, at?_eq_some hp, mem_values]
    constructor
    · rintro ⟨⟨id', hmem, -⟩, hpx⟩
      exact ⟨⟨id', hmem⟩, hpx⟩
    · rintro ⟨⟨id', hmem⟩, hpx⟩
      refine ⟨⟨id', hmem, ?_⟩, hpx⟩
      rintro rfl
      rw [eq_of_mem hmem hrow] at hpx
      exact hpa hpx

/-- A change that keeps the key. -/
theorem at?_replace {t : Table α} {p : α → Bool} (hp : UniqueKey p) {id : Nat} {a b : α}
    (ha : t.lookup id = some a) (h : t.clashes id b = false) (hkey : p b = p a) :
    (t.replace id b h).at? p = if p a then some b else t.at? p := by
  ext x
  rw [at?_eq_some hp, mem_values]
  simp only [mem_replace]
  have hrow := lookup_eq_some.mp ha
  by_cases hpa : p a = true
  · rw [if_pos hpa]
    constructor
    · rintro ⟨⟨id', ⟨hmem, hne⟩ | ⟨heq, -⟩⟩, hpx⟩
      · exact absurd (congrArg Prod.fst (eq_of_clash hmem hrow (hp x a hpx hpa))) hne
      · rw [(Prod.mk.inj heq).2]
    · intro hx
      cases hx
      exact ⟨⟨id, .inr ⟨rfl, a, hrow⟩⟩, hkey.trans hpa⟩
  · rw [if_neg hpa, at?_eq_some hp, mem_values]
    constructor
    · rintro ⟨⟨id', ⟨hmem, -⟩ | ⟨heq, -⟩⟩, hpx⟩
      · exact ⟨⟨id', hmem⟩, hpx⟩
      · rw [(Prod.mk.inj heq).2, hkey] at hpx
        exact absurd hpx hpa
    · rintro ⟨⟨id', hmem⟩, hpx⟩
      refine ⟨⟨id', .inl ⟨hmem, ?_⟩⟩, hpx⟩
      rintro rfl
      rw [eq_of_mem hmem hrow] at hpx
      exact hpa hpx

/-! ## The multiset of objects -/

@[simp] theorem values_empty : (empty : Table α).values = 0 := rfl

@[simp] theorem values_insert (t : Table α) (a : α) (h : t.clashes t.nextId a = false) :
    (t.insert a h).values = a ::ₘ t.values := by
  simp only [values, insert, List.map_append, List.map_cons, List.map_nil]
  rw [← Multiset.coe_add, add_comm]
  rfl

omit [Clash α] in
theorem filter_ne_eq_self {xs : List (Nat × α)} {id : Nat} (h : ∀ r ∈ xs, id < r.1) :
    xs.filter (fun r => r.1 != id) = xs := by
  rw [List.filter_eq_self]
  intro r hr
  simpa using Nat.ne_of_gt (h r hr)

/-- The object with an id and the objects that remain when it is dropped. -/
theorem cons_values_erase {t : Table α} {id : Nat} {b : α} (hb : t.lookup id = some b) :
    b ::ₘ (t.erase id).values = t.values := by
  have hmem := lookup_eq_some.mp hb
  have hsorted := t.sorted
  simp only [values, erase]
  generalize t.rows = rows at hmem hsorted
  induction rows with
  | nil => simp at hmem
  | cons x xs ih =>
    obtain ⟨hx, hxs⟩ := List.pairwise_cons.mp hsorted
    rcases List.mem_cons.mp hmem with rfl | hmem
    · rw [List.filter_cons_of_neg (by simp), filter_ne_eq_self hx]
      rfl
    · have hne : x.1 ≠ id := Nat.ne_of_lt (hx _ hmem)
      rw [List.filter_cons_of_pos (by simpa using hne)]
      simp only [List.map_cons, ← Multiset.cons_coe]
      rw [Multiset.cons_swap, ih hmem hxs]

theorem values_replace {t : Table α} {id : Nat} {b : α} (hb : t.lookup id = some b) (a : α)
    (h : t.clashes id a = false) : (t.replace id a h).values = a ::ₘ (t.erase id).values := by
  have hmem := lookup_eq_some.mp hb
  have hsorted := t.sorted
  simp only [values, erase, replace]
  generalize t.rows = rows at hmem hsorted
  induction rows with
  | nil => simp at hmem
  | cons x xs ih =>
    obtain ⟨hx, hxs⟩ := List.pairwise_cons.mp hsorted
    rcases List.mem_cons.mp hmem with rfl | hmem
    · have hrest : xs.map (fun r => if r.1 = id then (r.1, a) else r) = xs := by
        rw [List.map_congr_left (g := fun r => r) ?_, List.map_id']
        intro r hr
        exact if_neg (Nat.ne_of_gt (hx r hr))
      rw [List.filter_cons_of_neg (by simp), filter_ne_eq_self hx, List.map_cons, hrest, if_pos rfl]
      rfl
    · have hne : x.1 ≠ id := Nat.ne_of_lt (hx _ hmem)
      rw [List.filter_cons_of_pos (by simpa using hne)]
      simp only [List.map_cons, if_neg hne, ← Multiset.cons_coe]
      rw [Multiset.cons_swap, ← ih hmem hxs]

theorem map_values_insert {κ : Type} (t : Table α) {a : α} (h : t.clashes t.nextId a = false) (k : α → κ) :
    (t.insert a h).values.map k = k a ::ₘ t.values.map k := by
  rw [values_insert, Multiset.map_cons]

/-- Replacing an object by one with the same `key` leaves the keys as they are. -/
theorem map_values_replace {κ : Type} {t : Table α} {id : Nat} {a b : α} (ha : t.lookup id = some a)
    (h : t.clashes id b = false) {k : α → κ} (hkey : k b = k a) :
    (t.replace id b h).values.map k = t.values.map k := by
  rw [values_replace ha, ← cons_values_erase ha, Multiset.map_cons, Multiset.map_cons, hkey]

/-- Replacing an object changes a count by at most that object. -/
theorem countP_replace {t : Table α} {id : Nat} {b : α} (hb : t.lookup id = some b) (a : α)
    (h : t.clashes id a = false) (p : α → Bool) :
    ((t.replace id a h).rows.countP fun r => p r.2) + (if p b then 1 else 0) =
      (t.rows.countP fun r => p r.2) + if p a then 1 else 0 := by
  have hvalues : ∀ u : Table α, (u.rows.countP fun r => p r.2) = u.values.countP fun x => p x = true := by
    intro u
    rw [values, Multiset.coe_countP, List.countP_map]
    exact List.countP_congr fun r _ => by simp
  rw [hvalues, hvalues, values_replace hb, ← cons_values_erase hb, Multiset.countP_cons, Multiset.countP_cons]
  omega

/-! What holds of every object holds after each operation when it holds of the new one. -/

theorem forall_insert {P : α → Prop} {t : Table α} {a : α} {h : t.clashes t.nextId a = false}
    (ht : ∀ x ∈ t.values, P x) (ha : P a) : ∀ x ∈ (t.insert a h).values, P x := by
  intro x hx
  rw [values_insert, Multiset.mem_cons] at hx
  rcases hx with rfl | hx
  · exact ha
  · exact ht x hx

theorem forall_erase {P : α → Prop} {t : Table α} {id : Nat} (ht : ∀ x ∈ t.values, P x) :
    ∀ x ∈ (t.erase id).values, P x := by
  intro x hx
  obtain ⟨i, hi⟩ := mem_values.mp hx
  exact ht x (mem_values.mpr ⟨i, (mem_erase.mp hi).1⟩)

theorem forall_replace {P : α → Prop} {t : Table α} {id : Nat} {a : α} {h : t.clashes id a = false}
    (ht : ∀ x ∈ t.values, P x) (ha : P a) : ∀ x ∈ (t.replace id a h).values, P x := by
  intro x hx
  obtain ⟨i, hi⟩ := mem_values.mp hx
  rcases mem_replace.mp hi with ⟨hmem, -⟩ | ⟨hx, -⟩
  · exact ht x (mem_values.mpr ⟨i, hmem⟩)
  · cases hx
    exact ha

theorem clashes_eq_false {t : Table α} {id : Nat} {a : α}
    (h : ∀ b ∈ t.values, Clash.clash b a = false) : t.clashes id a = false := by
  refine List.any_eq_false.mpr fun r hr => ?_
  simp [h r.2 (mem_values.mpr ⟨r.1, hr⟩)]

/-- A list without clashes is stored as it is. -/
theorem values_ofList {as : List α} (h : as.Pairwise fun a b => Clash.clash a b = false) :
    (ofList as).values = ↑as := by
  have hfold : ∀ (as : List α) (t : Table α), as.Pairwise (fun a b => Clash.clash a b = false) →
      (∀ b ∈ t.values, ∀ a ∈ as, Clash.clash b a = false) →
      (as.foldl (fun t a => if h : t.clashes t.nextId a = false then t.insert a h else t) t).values =
        t.values + ↑as := by
    intro as
    induction as with
    | nil => simp
    | cons a as ih =>
      intro t hpair hold
      obtain ⟨ha, has⟩ := List.pairwise_cons.mp hpair
      have hc : t.clashes t.nextId a = false :=
        clashes_eq_false fun b hb => hold b hb a List.mem_cons_self
      rw [List.foldl_cons, dif_pos hc, ih _ has ?_, values_insert, ← Multiset.cons_coe,
        Multiset.cons_add, Multiset.add_cons]
      intro b hb c hcs
      rw [values_insert, Multiset.mem_cons] at hb
      rcases hb with rfl | hb
      · exact ha c hcs
      · exact hold b hb c (List.mem_cons_of_mem _ hcs)
  rw [ofList, hfold as empty h (by simp)]
  simp

/-! ## Sums -/

section Sums

variable {G : Type} [AddCommGroup G]

@[simp] theorem sum_empty (w : α → G) : (empty : Table α).sum w = 0 := rfl

@[simp] theorem sum_insert (t : Table α) (a : α) (h : t.clashes t.nextId a = false) (w : α → G) :
    (t.insert a h).sum w = w a + t.sum w := by
  simp [sum]

/-- Erasing an object takes its weight out of the sum. -/
theorem sum_erase {t : Table α} {id : Nat} {b : α} (hb : t.lookup id = some b) (w : α → G) :
    (t.erase id).sum w = t.sum w - w b := by
  unfold sum
  rw [← cons_values_erase hb, Multiset.map_cons, Multiset.sum_cons]
  abel

/-- Replacing an object changes the sum by the difference of the two weights. -/
theorem sum_replace {t : Table α} {id : Nat} {b : α} (hb : t.lookup id = some b) (a : α)
    (h : t.clashes id a = false) (w : α → G) :
    (t.replace id a h).sum w = t.sum w + (w a - w b) := by
  unfold sum
  rw [values_replace hb, ← cons_values_erase hb]
  simp only [Multiset.map_cons, Multiset.sum_cons]
  abel

/-- The amount a table holds under a unique key is the amount of the object with that key. -/
theorem sum_single_apply {κ : Type} {t : Table α} {key : α → κ} {r : Nat × α} (hr : r ∈ t.rows)
    (hkey : ∀ a b, key a = key b → Clash.clash a b = true) (w : α → G) :
    t.sum (fun a => Finsupp.single (key a) (w a)) (key r.2) = w r.2 := by
  have hb := lookup_eq_some.mpr (show (r.1, r.2) ∈ t.rows from hr)
  have hrest : ∀ a ∈ (t.erase r.1).values, Finsupp.single (key a) (w a) (key r.2) = 0 := by
    intro a ha
    obtain ⟨id, hid⟩ := mem_values.mp ha
    obtain ⟨hmem, hne⟩ := mem_erase.mp hid
    refine Finsupp.single_eq_of_ne ?_
    intro heq
    exact hne (congrArg Prod.fst (eq_of_clash hmem hr (hkey _ _ heq.symm)))
  unfold sum
  rw [← cons_values_erase hb, Multiset.map_cons, Multiset.sum_cons, Finsupp.add_apply,
    Finsupp.single_eq_same, ← Finsupp.applyAddHom_apply, map_multiset_sum, Multiset.map_map,
    Multiset.sum_eq_zero, add_zero]
  intro x hx
  obtain ⟨a, ha, rfl⟩ := Multiset.mem_map.mp hx
  exact hrest a ha

/-- The amount a table holds under a key, as a sum over the objects with that key. -/
theorem sum_single_eq_sum_ite {κ : Type} [DecidableEq κ] (t : Table α) (key : α → κ) (w : α → G) (k : κ) :
    t.sum (fun a => Finsupp.single (key a) (w a)) k = t.sum fun a => if key a = k then w a else 0 := by
  unfold sum
  rw [← Finsupp.applyAddHom_apply, map_multiset_sum, Multiset.map_map]
  congr 1
  refine Multiset.map_congr rfl fun a _ => ?_
  rw [Function.comp_apply, Finsupp.applyAddHom_apply, Finsupp.single_apply]

/-- No object weighs more than all of them. -/
theorem le_sum_of_mem [PartialOrder G] [IsOrderedAddMonoid G] {t : Table α} {w : α → G}
    (h : ∀ a ∈ t.values, 0 ≤ w a) {a : α} (ha : a ∈ t.values) : w a ≤ t.sum w := by
  refine Multiset.single_le_sum ?_ _ (Multiset.mem_map_of_mem w ha)
  intro x hx
  obtain ⟨b, hb, rfl⟩ := Multiset.mem_map.mp hx
  exact h b hb

theorem sum_nonneg [PartialOrder G] [IsOrderedAddMonoid G] {t : Table α} {w : α → G}
    (h : ∀ a ∈ t.values, 0 ≤ w a) : 0 ≤ t.sum w := by
  refine Multiset.sum_nonneg ?_
  intro x hx
  obtain ⟨b, hb, rfl⟩ := Multiset.mem_map.mp hx
  exact h b hb

end Sums

/-- An object with the keys of a stored one clashes with no other. -/
theorem clashes_of_keys {t : Table α} {id : Nat} {a b : α} (ha : t.lookup id = some a)
    (hkey : ∀ x, Clash.clash x b = Clash.clash x a) : t.clashes id b = false := by
  refine List.any_eq_false.mpr fun r hr => ?_
  by_cases hid : r.1 = id
  · simp [hid]
  · have hne : Clash.clash r.2 a ≠ true := fun hclash =>
      hid (congrArg Prod.fst (eq_of_clash hr (lookup_eq_some.mp ha) hclash))
    simp [hkey, hne]

/-! ## Keys that are unique by discipline

An index whose keys end in the id accepts two objects with one key; programs that look before they insert
keep such a key unique all the same. -/

section UniqueBy

variable {κ : Type} {key : α → κ}

/-- No two objects have the same `key`. -/
def UniqueBy (key : α → κ) (t : Table α) : Prop := (t.rows.map fun r => key r.2).Nodup

theorem uniqueBy_insert {t : Table α} (ht : UniqueBy key t) {a : α} {h : t.clashes t.nextId a = false}
    (hnew : ∀ r ∈ t.rows, key r.2 ≠ key a) : UniqueBy key (t.insert a h) := by
  unfold UniqueBy insert
  rw [List.map_append, List.nodup_append]
  refine ⟨ht, List.nodup_singleton _, ?_⟩
  intro x hx y hy
  obtain ⟨r, hr, rfl⟩ := List.mem_map.mp hx
  obtain rfl := List.mem_singleton.mp hy
  exact hnew r hr

theorem uniqueBy_erase {t : Table α} (ht : UniqueBy key t) (id : Nat) : UniqueBy key (t.erase id) :=
  ht.sublist (List.filter_sublist.map _)

theorem uniqueBy_replace {t : Table α} (ht : UniqueBy key t) {id : Nat} {a b : α} (ha : t.lookup id = some a)
    {h : t.clashes id b = false} (hkey : key b = key a) : UniqueBy key (t.replace id b h) := by
  have hrows := congrArg (List.map Prod.snd) (map_rows_replace ha h hkey)
  rw [List.map_map, List.map_map] at hrows
  unfold UniqueBy
  have hkeys : (t.replace id b h).rows.map (fun r => key r.2) = t.rows.map fun r => key r.2 := hrows
  rw [hkeys]
  exact ht

/-- Objects with one key are one object. -/
theorem UniqueBy.eq {t : Table α} (ht : UniqueBy key t) {r q : Nat × α} (hr : r ∈ t.rows) (hq : q ∈ t.rows)
    (hkey : key r.2 = key q.2) : r = q :=
  List.inj_on_of_nodup_map ht hr hq hkey

/-- What is left after an object is removed has other keys. -/
theorem UniqueBy.of_mem_erase {t : Table α} (ht : UniqueBy key t) {r : Nat × α} (hr : r ∈ t.rows) {x : α}
    (hx : x ∈ (t.erase r.1).values) : x ∈ t.values ∧ key x ≠ key r.2 := by
  obtain ⟨id, hid⟩ := mem_values.mp hx
  obtain ⟨hmem, hne⟩ := mem_erase.mp hid
  refine ⟨mem_values.mpr ⟨id, hmem⟩, fun hkey => hne ?_⟩
  exact congrArg Prod.fst (ht.eq hmem hr hkey)

/-- After an object is replaced the others have other keys. -/
theorem UniqueBy.of_mem_replace {t : Table α} (ht : UniqueBy key t) {r : Nat × α} (hr : r ∈ t.rows) {b : α}
    {h : t.clashes r.1 b = false} {x : α} (hx : x ∈ (t.replace r.1 b h).values) :
    x = b ∨ x ∈ t.values ∧ key x ≠ key r.2 := by
  obtain ⟨id, hid⟩ := mem_values.mp hx
  rcases mem_replace.mp hid with ⟨hmem, hne⟩ | ⟨heq, -⟩
  · exact .inr ⟨mem_values.mpr ⟨id, hmem⟩, fun hkey => hne (congrArg Prod.fst (ht.eq hmem hr hkey))⟩
  · exact .inl (congrArg Prod.snd heq)

end UniqueBy

section Retains

variable {κ : Type} {key : α → κ}

/-- Every object is still there with its key. -/
def Retains (key : α → κ) (t t' : Table α) : Prop :=
  ∀ id a, t.lookup id = some a → ∃ a', t'.lookup id = some a' ∧ key a' = key a

theorem Retains.refl (t : Table α) : Retains key t t := fun _ a ha => ⟨a, ha, rfl⟩

theorem Retains.trans {t t' t'' : Table α} (h : Retains key t t') (h' : Retains key t' t'') :
    Retains key t t'' := by
  intro id a ha
  obtain ⟨a', ha', hkey⟩ := h id a ha
  obtain ⟨a'', ha'', hkey'⟩ := h' id a' ha'
  exact ⟨a'', ha'', hkey'.trans hkey⟩

theorem retains_insert (t : Table α) {a : α} (h : t.clashes t.nextId a = false) :
    Retains key t (t.insert a h) := by
  intro id b hb
  have hne : id ≠ t.nextId := Nat.ne_of_lt (t.fresh _ (lookup_eq_some.mp hb))
  exact ⟨b, by rw [lookup_insert, if_neg hne, hb], rfl⟩

theorem retains_replace {t : Table α} {id : Nat} {a b : α} (ha : t.lookup id = some a)
    (h : t.clashes id b = false) (hkey : key b = key a) : Retains key t (t.replace id b h) := by
  intro id' c hc
  by_cases hid : id' = id
  · subst hid
    obtain rfl : a = c := Option.some.inj (ha.symm.trans hc)
    exact ⟨b, by rw [lookup_replace ha h, if_pos rfl], hkey⟩
  · exact ⟨c, by rw [lookup_replace ha h, if_neg hid, hc], rfl⟩

/-- Tables with the same keys in the same rows. -/
theorem retains_of_rows {t t' : Table α}
    (h : (t'.rows.map fun r => (r.1, key r.2)) = t.rows.map fun r => (r.1, key r.2)) : Retains key t t' := by
  intro id a ha
  have hmem : (id, key a) ∈ t'.rows.map fun r => (r.1, key r.2) := by
    rw [h]
    exact List.mem_map.mpr ⟨(id, a), lookup_eq_some.mp ha, rfl⟩
  obtain ⟨r, hr, heq⟩ := List.mem_map.mp hmem
  obtain ⟨hid, hkey⟩ := Prod.ext_iff.mp heq
  obtain rfl : r.1 = id := hid
  exact ⟨r.2, lookup_eq_some.mpr hr, hkey⟩

end Retains

/-! ## Programs on one table -/

section Programs

variable {ε : Type} [TableError ε]

/-- Store a new object and return its id. -/
def create (a : α) : Prog ε (Table α) Nat := fun t =>
  if h : t.clashes t.nextId a then .error TableError.couldNotInsert t
  else .ok t.nextId (t.insert a (eq_false_of_ne_true h))

/-- Change an object.  A modifier that throws leaves the object as it was; a result that clashes
with another object is refused and the object is lost. -/
def modify (id : Nat) (f : α → Except ε α) : Prog ε (Table α) Unit := fun t =>
  match t.lookup id with
  | none => .error TableError.missing t
  | some a =>
    match f a with
    | .error e => .error e t
    | .ok b =>
      if h : t.clashes id b then .error TableError.couldNotModify (t.erase id)
      else .ok () (t.replace id b (eq_false_of_ne_true h))

/-- Remove an object. -/
def remove (id : Nat) : Prog ε (Table α) Unit := fun t => .ok () (t.erase id)

theorem create_eq_ok {a : α} {t t' : Table α} {id : Nat} :
    (create a : Prog ε (Table α) Nat) t = .ok id t' ↔
      ∃ h, id = t.nextId ∧ t' = t.insert a h := by
  unfold create
  by_cases h : t.clashes t.nextId a = true
  · simp [h]
  · simp [h, eq_comm]

theorem modify_eq_ok {id : Nat} {f : α → Except ε α} {t t' : Table α} {u : Unit} :
    (modify id f : Prog ε (Table α) Unit) t = .ok u t' ↔
      ∃ a b h, t.lookup id = some a ∧ f a = .ok b ∧ t' = t.replace id b h := by
  unfold modify
  cases hl : t.lookup id with
  | none => simp
  | some a =>
    cases hf : f a with
    | error e => simp [hf]
    | ok b =>
      by_cases h : t.clashes id b = true
      · simp [hf, h]
      · simp [hf, h, eq_comm (b := t')]

omit [TableError ε] in
theorem remove_eq_ok {id : Nat} {t t' : Table α} {u : Unit} :
    (remove id : Prog ε (Table α) Unit) t = .ok u t' ↔ t' = t.erase id := by
  simp [remove, eq_comm]

end Programs

/-! ## Programs on a state that has the table as a part -/

section InState

variable {ε σ : Type} [TableError ε] (l : Part σ (Table α))

def createIn (a : α) : Prog ε σ Nat := within l (create a)

def modifyIn (id : Nat) (f : α → Except ε α) : Prog ε σ Unit := within l (modify id f)

def removeIn (id : Nat) : Prog ε σ Unit := within l (remove id)

def findIn (p : α → Bool) : Prog ε σ (Option (Nat × α)) := do
  let s ← get
  return (l.get s).find? p

def getIn (p : α → Bool) : Prog ε σ (Nat × α) := do
  let s ← get
  ofOption ((l.get s).find? p) TableError.missing

variable {l}

theorem createIn_eq_ok {a : α} {s s' : σ} {id : Nat} :
    (createIn l a : Prog ε σ Nat) s = .ok id s' ↔
      ∃ h, id = (l.get s).nextId ∧ s' = l.set ((l.get s).insert a h) s := by
  simp only [createIn, within_eq_ok, create_eq_ok]
  constructor
  · rintro ⟨t, ⟨hc, hid, rfl⟩, rfl⟩
    exact ⟨hc, hid, rfl⟩
  · rintro ⟨hc, hid, rfl⟩
    exact ⟨_, ⟨hc, hid, rfl⟩, rfl⟩

theorem modifyIn_eq_ok {id : Nat} {f : α → Except ε α} {s s' : σ} {u : Unit} :
    (modifyIn l id f : Prog ε σ Unit) s = .ok u s' ↔
      ∃ a b h, (l.get s).lookup id = some a ∧ f a = .ok b ∧
        s' = l.set ((l.get s).replace id b h) s := by
  simp only [modifyIn, within_eq_ok, modify_eq_ok]
  constructor
  · rintro ⟨t, ⟨a, b, hc, ha, hf, rfl⟩, rfl⟩
    exact ⟨a, b, hc, ha, hf, rfl⟩
  · rintro ⟨a, b, hc, ha, hf, rfl⟩
    exact ⟨_, ⟨a, b, hc, ha, hf, rfl⟩, rfl⟩

omit [TableError ε] in
theorem removeIn_eq_ok {id : Nat} {s s' : σ} {u : Unit} :
    (removeIn l id : Prog ε σ Unit) s = .ok u s' ↔ s' = l.set ((l.get s).erase id) s := by
  simp only [removeIn, within_eq_ok, remove_eq_ok]
  constructor
  · rintro ⟨t, rfl, rfl⟩
    rfl
  · rintro rfl
    exact ⟨_, rfl, rfl⟩

omit [TableError ε] in
theorem each_removeIn (hset : ∀ t t' s, l.set t (l.set t' s) = l.set t s) (ids : List Nat) (s : σ) :
    each (removeIn l) ids s = (.ok () (l.set ((l.get s).eraseAll ids) s) : EStateM.Result ε σ Unit) := by
  induction ids generalizing s with
  | nil => exact congrArg (EStateM.Result.ok ()) (l.set_get s).symm
  | cons id ids ih =>
    have hone : (removeIn l id : Prog ε σ Unit) s = .ok () (l.set ((l.get s).erase id) s) := removeIn_eq_ok.mpr rfl
    unfold each
    rw [bind_of_ok hone, ih, l.get_set, hset]
    rfl

omit [TableError ε] in
theorem findIn_eq_ok {p : α → Bool} {s s' : σ} {o : Option (Nat × α)} :
    (findIn l p : Prog ε σ (Option (Nat × α))) s = .ok o s' ↔
      (l.get s).find? p = o ∧ s = s' := by
  change (EStateM.Result.ok _ _ : EStateM.Result ε σ _) = _ ↔ _
  simp

theorem getIn_eq_ok {p : α → Bool} {s s' : σ} {r : Nat × α} :
    (getIn l p : Prog ε σ (Nat × α)) s = .ok r s' ↔ (l.get s).find? p = some r ∧ s = s' := by
  unfold getIn
  rw [bind_of_ok (get_apply s), ofOption_eq_ok]

omit [TableError ε] in
theorem readOnly_findIn (p : α → Bool) : ReadOnly (findIn l p : Prog ε σ (Option (Nat × α))) :=
  fun _ => rfl

theorem readOnly_getIn (p : α → Bool) : ReadOnly (getIn l p : Prog ε σ (Nat × α)) :=
  readOnly_get.bind fun _ => readOnly_ofOption _ _

omit [TableError ε] in
theorem always_findIn {R : σ → σ → Prop} [Std.Refl R] (p : α → Bool) :
    Always R (findIn l p : Prog ε σ (Option (Nat × α))) :=
  (readOnly_findIn p).always

theorem always_getIn {R : σ → σ → Prop} [Std.Refl R] (p : α → Bool) :
    Always R (getIn l p : Prog ε σ (Nat × α)) :=
  (readOnly_getIn p).always

/-- A change that keeps the unique keys is never refused. -/
theorem modifyIn_returns {id : Nat} {f : α → Except ε α} {a b : α} {s : σ}
    (ha : (l.get s).lookup id = some a) (hf : f a = .ok b)
    (hkey : ∀ x, Clash.clash x b = Clash.clash x a) : ∃ s', modifyIn l id f s = .ok () s' := by
  have hc := clashes_of_keys ha hkey
  exact ⟨_, modifyIn_eq_ok.mpr ⟨a, b, hc, ha, hf, rfl⟩⟩

/-- A refused object is not stored. -/
theorem clean_createIn (a : α) : Clean (createIn l a : Prog ε σ Nat) := by
  intro s e s' hm
  unfold createIn within create at hm
  split at hm
  · cases hm
  · rename_i hcreate
    split at hcreate
    · cases hcreate
      cases hm
      exact l.set_get s
    · cases hcreate

omit [TableError ε] in
theorem clean_removeIn (id : Nat) : Clean (removeIn l id : Prog ε σ Unit) := by
  intro s e s' hm
  cases hm

/-- A change that keeps the unique keys and throws leaves the object as it was. -/
theorem clean_modifyIn {id : Nat} {f : α → Except ε α}
    (hkey : ∀ a b, f a = .ok b → ∀ x, Clash.clash x b = Clash.clash x a) : Clean (modifyIn l id f) := by
  intro s e s' hm
  cases ha : (l.get s).lookup id with
  | none =>
    simp only [modifyIn, within, modify, ha] at hm
    cases hm
    exact l.set_get s
  | some a =>
    cases hf : f a with
    | error e' =>
      simp only [modifyIn, within, modify, ha, hf] at hm
      cases hm
      exact l.set_get s
    | ok b =>
      obtain ⟨t, ht⟩ := modifyIn_returns ha hf (hkey a b hf)
      rw [ht] at hm
      cases hm

/-! ## Errors of the operations -/

variable {e : ε}

theorem avoids_getIn (hmissing : (TableError.missing : ε) ≠ e) (p : α → Bool) :
    Avoids e (getIn l p : Prog ε σ (Nat × α)) := by
  refine avoids_bind avoids_get fun s => ?_
  cases (l.get s).find? p with
  | none => exact avoids_throw hmissing
  | some r => exact avoids_pure r

theorem avoids_createIn (hrefused : (TableError.couldNotInsert : ε) ≠ e) (a : α) :
    Avoids e (createIn l a : Prog ε σ Nat) := by
  refine avoids_within fun t t' h => ?_
  unfold create at h
  split at h
  · cases h
    exact hrefused rfl
  · cases h

omit [TableError ε] in
theorem avoids_removeIn (id : Nat) : Avoids e (removeIn l id : Prog ε σ Unit) := by
  intro s s' h
  cases h

theorem avoids_modifyIn {id : Nat} {f : α → Except ε α} (hmissing : (TableError.missing : ε) ≠ e)
    (hrefused : (TableError.couldNotModify : ε) ≠ e) (hf : ∀ a, f a ≠ .error e) :
    Avoids e (modifyIn l id f : Prog ε σ Unit) := by
  refine avoids_within fun t t' h => ?_
  unfold modify at h
  split at h
  · cases h
    exact hmissing rfl
  next a _ =>
    split at h
    next hfa =>
      cases h
      exact hf a hfa
    next =>
      split at h
      · cases h
        exact hrefused rfl
      · cases h

end InState

end Table
