import Sigmaengine.Chainbase.GenericIndex

/-!
# When `undo` is exact

The records of a session determine the objects at its start (`Tracks`), whatever its calls did and
whether they succeeded.  `undo` gives these objects back unless it gets stuck on the way: an object that
a refused `modify` dropped is gone, and an old key may be held by an object that is still to be restored
or erased.
-/

namespace Chainbase

open Effect GenericIndex

variable {α : Type}

/-! ## Loops -/

/-- The objects when the ids below `k` are done. -/
def upTo (value : Nat → Option α → Option α) (k : Nat) (c : Nat → Option α) : Nat → Option α :=
  fun id => if id < k then value id (c id) else c id

theorem upTo_succ (value : Nat → Option α → Option α) (k : Nat) (c : Nat → Option α) :
    Function.update (upTo value k c) k (value k (upTo value k c k)) = upTo value (k + 1) c := by
  funext id
  by_cases hid : id = k
  · subst hid
    simp [upTo]
  · have hiff : id < k + 1 ↔ id < k := by omega
    simp [upTo, hid, hiff]

/-- **A loop** ends when no round refuses, and every object has its new value then. -/
theorem sweep_eq_some {ok : (Nat → Option α) → Nat → Bool} {value : Nat → Option α → Option α} {n : Nat}
    {c c' : Nat → Option α} :
    sweep ok value n c = some c' ↔ (∀ id < n, ok (upTo value id c) id = true) ∧ c' = upTo value n c := by
  induction n generalizing c' with
  | zero =>
    have hzero : upTo value 0 c = c := by
      funext id
      simp [upTo]
    have hsweep : sweep ok value 0 c = some c := rfl
    rw [hsweep, hzero]
    constructor
    · intro h
      cases h
      exact ⟨fun id hid => absurd hid (Nat.not_lt_zero id), rfl⟩
    · rintro ⟨-, rfl⟩
      rfl
  | succ n ih =>
    have hstep : sweep ok value (n + 1) c = (sweep ok value n c).bind fun d =>
        if ok d n then some (Function.update d n (value n (d n))) else none := by
      simp only [sweep, List.range_succ, List.foldlM_append, List.foldlM_cons, List.foldlM_nil, bind_pure]
      rfl
    rw [hstep, Option.bind_eq_some_iff]
    constructor
    · rintro ⟨d, hd, hlast⟩
      obtain ⟨hok, rfl⟩ := ih.mp hd
      split at hlast
      next hn =>
        cases hlast
        refine ⟨fun id hid => ?_, upTo_succ value n c⟩
        rcases Nat.lt_succ_iff_lt_or_eq.mp hid with hlt | rfl
        · exact hok id hlt
        · exact hn
      next => cases hlast
    · rintro ⟨hok, rfl⟩
      refine ⟨upTo value n c, ih.mpr ⟨fun id hid => hok id (by omega), rfl⟩, ?_⟩
      rw [if_pos (hok n (by omega)), upTo_succ]

/-! ## What the records say -/

/-- The records `r` lead from the objects `c` back to the objects `c₀`. -/
structure Tracks (c₀ : Nat → Option α) (n₀ : Nat) (r : UndoState α) (c : Nat → Option α) (n : Nat) : Prop where
  next : r.oldNextId = n₀
  le : n₀ ≤ n
  bound₀ : ∀ id, n₀ ≤ id → c₀ id = none
  bound : ∀ id, n ≤ id → c id = none
  old : ∀ id v, r.oldValues id = some v → c₀ id = some v ∧ r.removedValues id = none ∧ r.newIds id = false
  removed : ∀ id v, r.removedValues id = some v → c₀ id = some v ∧ c id = none ∧ r.newIds id = false
  new : ∀ id, r.newIds id = true → n₀ ≤ id ∧ id < n
  rest : ∀ id, r.oldValues id = none → r.removedValues id = none → r.newIds id = false → c id = c₀ id

/-- Every object a record speaks of as changed or new is there. -/
def Intact (r : UndoState α) (c : Nat → Option α) : Prop :=
  ∀ id, (r.oldValues id).isSome ∨ r.newIds id = true → (c id).isSome

variable {c₀ c : Nat → Option α} {n₀ n : Nat} {r : UndoState α}

theorem tracks_start {revision : Int} (hbound : ∀ id, n ≤ id → c id = none) :
    Tracks c n { oldNextId := n, revision := revision } c n where
  next := rfl
  le := le_rfl
  bound₀ := hbound
  bound := hbound
  old := by simp
  removed := by simp
  new := by simp
  rest := by simp

namespace Tracks

theorem lt_of_some (h : Tracks c₀ n₀ r c n) {id : Nat} {a : α} (ha : c id = some a) : id < n := by
  by_contra hge
  have := h.bound id (by omega)
  rw [ha] at this
  cases this

theorem lt_of_some₀ (h : Tracks c₀ n₀ r c n) {id : Nat} {a : α} (ha : c₀ id = some a) : id < n₀ := by
  by_contra hge
  have := h.bound₀ id (by omega)
  rw [ha] at this
  cases this

theorem new_none (h : Tracks c₀ n₀ r c n) {i : Nat} (hid : n₀ ≤ i) :
    r.oldValues i = none ∧ r.removedValues i = none := by
  constructor
  · by_contra hne
    obtain ⟨v, hv⟩ := Option.ne_none_iff_exists'.mp hne
    have := h.lt_of_some₀ (h.old i v hv).1
    omega
  · by_contra hne
    obtain ⟨v, hv⟩ := Option.ne_none_iff_exists'.mp hne
    have := h.lt_of_some₀ (h.removed i v hv).1
    omega

theorem removed_none (h : Tracks c₀ n₀ r c n) {id : Nat} {a : α} (ha : c id = some a) :
    r.removedValues id = none := by
  by_contra hne
  obtain ⟨v, hv⟩ := Option.ne_none_iff_exists'.mp hne
  rw [(h.removed id v hv).2.1] at ha
  cases ha

/-- **Creating an object.** -/
theorem onCreate (h : Tracks c₀ n₀ r c n) (a : α) :
    Tracks c₀ n₀ (r.onCreate n) (Function.update c n (some a)) (n + 1) where
  next := h.next
  le := by have := h.le; omega
  bound₀ := h.bound₀
  bound id hid := by
    have hne : id ≠ n := by omega
    rw [Function.update_of_ne hne]
    exact h.bound id (by omega)
  old id v hv := by
    change r.oldValues id = some v at hv
    have hne : id ≠ n := by
      rintro rfl
      rw [(h.new_none h.le).1] at hv
      cases hv
    obtain ⟨h0, hrem, hnew⟩ := h.old id v hv
    refine ⟨h0, hrem, ?_⟩
    simpa [UndoState.onCreate, hne] using hnew
  removed id v hv := by
    change r.removedValues id = some v at hv
    have hne : id ≠ n := by
      rintro rfl
      rw [(h.new_none h.le).2] at hv
      cases hv
    obtain ⟨h0, hc, hnew⟩ := h.removed id v hv
    refine ⟨h0, by rwa [Function.update_of_ne hne], ?_⟩
    simpa [UndoState.onCreate, hne] using hnew
  new id hid := by
    by_cases hne : id = n
    · subst hne
      exact ⟨h.le, by omega⟩
    · have := h.new id (by simpa [UndoState.onCreate, hne] using hid)
      exact ⟨this.1, by omega⟩
  rest id hold hrem hnew := by
    have hne : id ≠ n := by
      rintro rfl
      simp [UndoState.onCreate] at hnew
    rw [Function.update_of_ne hne]
    exact h.rest id hold hrem (by simpa [UndoState.onCreate, hne] using hnew)

/-- **Changing an object**, or losing it: the new value `x` is any. -/
theorem onModify (h : Tracks c₀ n₀ r c n) {id : Nat} {a : α} (ha : c id = some a) (x : Option α) :
    Tracks c₀ n₀ (r.onModify id a) (Function.update c id x) n := by
  have hlt := h.lt_of_some ha
  have hrem := h.removed_none ha
  have hbound : ∀ j, n ≤ j → Function.update c id x j = none := by
    intro j hj
    have hne : j ≠ id := by omega
    rw [Function.update_of_ne hne]
    exact h.bound j hj
  have hremoved : ∀ j v, r.removedValues j = some v → Function.update c id x j = none := by
    intro j v hv
    have hne : j ≠ id := by
      rintro rfl
      rw [hrem] at hv
      cases hv
    rw [Function.update_of_ne hne]
    exact (h.removed j v hv).2.1
  unfold UndoState.onModify
  split
  next hknown =>
    -- the object is new or its old value is recorded already
    refine ⟨h.next, h.le, h.bound₀, hbound, h.old, ?_, h.new, ?_⟩
    · intro j v hv
      exact ⟨(h.removed j v hv).1, hremoved j v hv, (h.removed j v hv).2.2⟩
    · intro j hold hremj hnew
      have hne : j ≠ id := by
        rintro rfl
        simp [hold, hnew] at hknown
      rw [Function.update_of_ne hne]
      exact h.rest j hold hremj hnew
  next hknown =>
    simp only [Bool.or_eq_true, not_or, Bool.not_eq_true, Option.isSome_eq_false_iff, Option.isNone_iff_eq_none]
      at hknown
    have h0 : c₀ id = some a := by rw [← h.rest id hknown.2 hrem hknown.1, ha]
    refine ⟨h.next, h.le, h.bound₀, hbound, ?_, ?_, h.new, ?_⟩
    · intro j v hv
      by_cases hj : j = id
      · subst hj
        simp only [Function.update_self, Option.some.injEq] at hv
        subst hv
        exact ⟨h0, hrem, hknown.1⟩
      · exact h.old j v (by simpa [hj] using hv)
    · intro j v hv
      exact ⟨(h.removed j v hv).1, hremoved j v hv, (h.removed j v hv).2.2⟩
    · intro j hold hremj hnew
      have hne : j ≠ id := by
        rintro rfl
        simp at hold
      rw [Function.update_of_ne hne]
      exact h.rest j (by simpa [hne] using hold) hremj hnew

/-- **Removing an object.** -/
theorem onRemove (h : Tracks c₀ n₀ r c n) {id : Nat} {a : α} (ha : c id = some a) :
    Tracks c₀ n₀ (r.onRemove id a) (Function.update c id none) n := by
  have hlt := h.lt_of_some ha
  have hrem := h.removed_none ha
  have hbound : ∀ j, n ≤ j → Function.update c id none j = none := by
    intro j hj
    have hne : j ≠ id := by omega
    rw [Function.update_of_ne hne]
    exact h.bound j hj
  unfold UndoState.onRemove
  split
  next hnew =>
    -- a new object is forgotten
    obtain ⟨hge, -⟩ := h.new id hnew
    refine ⟨h.next, h.le, h.bound₀, hbound, ?_, ?_, ?_, ?_⟩
    · intro j v hv
      obtain ⟨h0, hremj, hnewj⟩ := h.old j v hv
      have hne : j ≠ id := by
        rintro rfl
        simp [hnew] at hnewj
      exact ⟨h0, hremj, by simpa [hne] using hnewj⟩
    · intro j v hv
      obtain ⟨h0, hc, hnewj⟩ := h.removed j v hv
      have hne : j ≠ id := by
        rintro rfl
        simp [hnew] at hnewj
      exact ⟨h0, by rwa [Function.update_of_ne hne], by simpa [hne] using hnewj⟩
    · intro j hj
      by_cases hne : j = id
      · subst hne
        simp at hj
      · exact h.new j (by simpa [hne] using hj)
    · intro j hold hremj hnewj
      by_cases hne : j = id
      · subst hne
        rw [Function.update_self, h.bound₀ j hge]
      · rw [Function.update_of_ne hne]
        exact h.rest j hold hremj (by simpa [hne] using hnewj)
  next hnew =>
    rw [Bool.not_eq_true] at hnew
    split
    next v hold =>
      -- a changed object is removed with its old value
      obtain ⟨h0, -, -⟩ := h.old id v hold
      refine ⟨h.next, h.le, h.bound₀, hbound, ?_, ?_, h.new, ?_⟩
      · intro j w hw
        have hne : j ≠ id := by
          rintro rfl
          simp at hw
        obtain ⟨h0j, hremj, hnewj⟩ := h.old j w (by simpa [hne] using hw)
        exact ⟨h0j, by simpa [hne] using hremj, hnewj⟩
      · intro j w hw
        by_cases hne : j = id
        · subst hne
          simp only [Function.update_self, hrem, Option.none_or, Option.some.injEq] at hw
          subst hw
          exact ⟨h0, Function.update_self .., hnew⟩
        · obtain ⟨h0j, hcj, hnewj⟩ := h.removed j w (by simpa [hne] using hw)
          exact ⟨h0j, by rwa [Function.update_of_ne hne], hnewj⟩
      · intro j holdj hremj hnewj
        have hne : j ≠ id := by
          rintro rfl
          simp [hrem] at hremj
        rw [Function.update_of_ne hne]
        exact h.rest j (by simpa [hne] using holdj) (by simpa [hne] using hremj) hnewj
    next hold =>
      -- an object the session did not touch
      have h0 : c₀ id = some a := by rw [← h.rest id hold hrem hnew, ha]
      rw [if_neg (by simp [hrem])]
      refine ⟨h.next, h.le, h.bound₀, hbound, ?_, ?_, h.new, ?_⟩
      · intro j w hw
        have hne : j ≠ id := by
          rintro rfl
          rw [hold] at hw
          cases hw
        obtain ⟨h0j, hremj, hnewj⟩ := h.old j w hw
        exact ⟨h0j, by simpa [hne] using hremj, hnewj⟩
      · intro j w hw
        by_cases hne : j = id
        · subst hne
          simp only [Function.update_self, Option.some.injEq] at hw
          subst hw
          exact ⟨h0, Function.update_self .., hnew⟩
        · obtain ⟨h0j, hcj, hnewj⟩ := h.removed j w (by simpa [hne] using hw)
          exact ⟨h0j, by rwa [Function.update_of_ne hne], hnewj⟩
      · intro j holdj hremj hnewj
        have hne : j ≠ id := by
          rintro rfl
          simp at hremj
        rw [Function.update_of_ne hne]
        exact h.rest j holdj (by simpa [hne] using hremj) hnewj

end Tracks

/-! ## What the calls do to the records -/

theorem intact_onCreate (h : Tracks c₀ n₀ r c n) (a : α) :
    Intact (r.onCreate n) (Function.update c n (some a)) ↔ Intact r c := by
  have hnew : r.newIds n = false := by
    by_contra hne
    have := (h.new n (by simpa using hne)).2
    omega
  have hold := (h.new_none h.le).1
  constructor
  · intro hi id hid
    have hne : id ≠ n := by
      rintro rfl
      simp [hnew, hold] at hid
    simpa [hne] using hi id (by simpa [UndoState.onCreate, hne] using hid)
  · intro hi id hid
    by_cases hne : id = n
    · subst hne
      simp
    · rw [Function.update_of_ne hne]
      exact hi id (by simpa [UndoState.onCreate, hne] using hid)

theorem onModify_recorded (r : UndoState α) (id : Nat) (a : α) :
    ((r.onModify id a).oldValues id).isSome ∨ (r.onModify id a).newIds id = true := by
  unfold UndoState.onModify
  split
  next h =>
    rcases Bool.or_eq_true _ _ ▸ h with h | h
    · exact .inr h
    · exact .inl h
  next => simp

theorem onModify_of_ne (r : UndoState α) {id j : Nat} (a : α) (hj : j ≠ id) :
    (r.onModify id a).oldValues j = r.oldValues j ∧ (r.onModify id a).newIds j = r.newIds j := by
  unfold UndoState.onModify
  split
  next => exact ⟨rfl, rfl⟩
  next => simp [hj]

theorem intact_onModify {id : Nat} {a : α} (ha : c id = some a) (x : α) :
    Intact (r.onModify id a) (Function.update c id (some x)) ↔ Intact r c := by
  constructor
  · intro hi j hj
    by_cases hne : j = id
    · subst hne
      simp [ha]
    · have := hi j (by rwa [(onModify_of_ne r a hne).1, (onModify_of_ne r a hne).2])
      rwa [Function.update_of_ne hne] at this
  · intro hi j hj
    by_cases hne : j = id
    · subst hne
      simp
    · rw [(onModify_of_ne r a hne).1, (onModify_of_ne r a hne).2] at hj
      rw [Function.update_of_ne hne]
      exact hi j hj

theorem not_intact_onModify (r : UndoState α) (c : Nat → Option α) (id : Nat) (a : α) :
    ¬ Intact (r.onModify id a) (Function.update c id none) := by
  intro hi
  have := hi id (onModify_recorded r id a)
  simp at this

theorem onRemove_of_ne (r : UndoState α) {id j : Nat} (a : α) (hj : j ≠ id) :
    (r.onRemove id a).oldValues j = r.oldValues j ∧ (r.onRemove id a).newIds j = r.newIds j := by
  unfold UndoState.onRemove
  split
  next => simp [hj]
  next =>
    split
    next => simp [hj]
    next => split <;> exact ⟨rfl, rfl⟩

theorem onRemove_forgets (h : Tracks c₀ n₀ r c n) {id : Nat} {a : α} (ha : c id = some a) :
    (r.onRemove id a).oldValues id = none ∧ (r.onRemove id a).newIds id = false := by
  unfold UndoState.onRemove
  split
  next hnew => exact ⟨(h.new_none (h.new id hnew).1).1, Function.update_self ..⟩
  next hnew =>
    rw [Bool.not_eq_true] at hnew
    split
    next => exact ⟨Function.update_self .., hnew⟩
    next hold =>
      rw [if_neg (by simp [h.removed_none ha])]
      exact ⟨hold, hnew⟩

theorem intact_onRemove (h : Tracks c₀ n₀ r c n) {id : Nat} {a : α} (ha : c id = some a) :
    Intact (r.onRemove id a) (Function.update c id none) ↔ Intact r c := by
  constructor
  · intro hi j hj
    by_cases hne : j = id
    · subst hne
      simp [ha]
    · have := hi j (by rwa [(onRemove_of_ne r a hne).1, (onRemove_of_ne r a hne).2])
      rwa [Function.update_of_ne hne] at this
  · intro hi j hj
    by_cases hne : j = id
    · subst hne
      simp [(onRemove_forgets h ha).1, (onRemove_forgets h ha).2] at hj
    · rw [(onRemove_of_ne r a hne).1, (onRemove_of_ne r a hne).2] at hj
      rw [Function.update_of_ne hne]
      exact hi j hj

/-! ## `undo` -/

/-- The objects when the old values are back. -/
def restored (r : UndoState α) (c : Nat → Option α) : Nat → Option α :=
  fun id => (r.oldValues id).or (c id)

/-- A value out of the restored objects is an old one, or belongs to a new object. -/
theorem restored_eq_some (h : Tracks c₀ n₀ r c n) {id : Nat} {a : α} (ha : restored r c id = some a) :
    c₀ id = some a ∧ r.newIds id = false ∨ r.newIds id = true := by
  by_cases hnew : r.newIds id = true
  · exact .inr hnew
  · rw [Bool.not_eq_true] at hnew
    refine .inl ⟨?_, hnew⟩
    cases hold : r.oldValues id with
    | some v =>
      rw [restored, hold, Option.some_or] at ha
      cases ha
      exact (h.old id _ hold).1
    | none =>
      rw [restored, hold, Option.none_or] at ha
      rw [← h.rest id hold (h.removed_none ha) hnew, ha]

/-- **The second loop** gets through when the new objects are there. -/
theorem eraseNew_eq_some (h : Tracks c₀ n₀ r c n) {d c' : Nat → Option α} :
    eraseNew r n d = some c' ↔
      (∀ id, r.newIds id = true → (d id).isSome) ∧ c' = fun id => if r.newIds id then none else d id := by
  have hend : upTo (fun id x => if r.newIds id then none else x) n d =
      fun id => if r.newIds id then none else d id := by
    funext id
    by_cases hnew : r.newIds id = true
    · simp [upTo, hnew, (h.new id hnew).2]
    · simp [upTo, hnew]
  rw [eraseNew, sweep_eq_some, hend]
  refine and_congr_left fun _ => ?_
  constructor
  · intro hok id hnew
    simpa [hnew, upTo] using hok id (h.new id hnew).2
  · intro hthere id _
    by_cases hnew : r.newIds id = true
    · simpa [hnew, upTo] using hthere id hnew
    · simp [hnew]

variable [Clash α]

/-- No two objects share a key. -/
def Unique (c : Nat → Option α) : Prop :=
  ∀ i j a b, c i = some a → c j = some b → i ≠ j → Clash.clash a b = false

theorem taken_eq_false {id : Nat} {a : α} :
    taken c n id a = false ↔ ∀ j < n, j ≠ id → ∀ b, c j = some b → Clash.clash b a = false := by
  unfold taken
  rw [List.any_eq_false]
  constructor
  · intro h j hj hne b hb
    have := h j (List.mem_range.mpr hj)
    simpa [hne, hb] using this
  · intro h j hj
    by_cases hne : j = id
    · simp [hne]
    · cases hb : c j with
      | none => simp
      | some b => simp [h j (List.mem_range.mp hj) hne b hb]

/-- Keys handed over: an object that was there before and still is had a key that an object with a
greater id holds now. -/
def HandsOver (c₀ c : Nat → Option α) : Prop :=
  ∃ i j a b, i < j ∧ c₀ i = some a ∧ (c i).isSome ∧ c j = some b ∧ Clash.clash b a = true

/-- **The first loop** gets through unless a changed object is gone or its keys are held further up. -/
theorem restoreOld_eq_some (h : Tracks c₀ n₀ r c n) (hu₀ : Unique c₀) {c' : Nat → Option α} :
    restoreOld r n c = some c' ↔
      (∀ id v, r.oldValues id = some v → (c id).isSome ∧
        ∀ j b, id < j → c j = some b → Clash.clash b v = false) ∧ c' = restored r c := by
  have hend : upTo (fun id x => (r.oldValues id).or x) n c = restored r c := by
    funext id
    by_cases hid : id < n
    · simp [upTo, hid, restored]
    · have hle := h.le
      simp [upTo, hid, restored, (h.new_none (i := id) (by omega)).1]
  rw [restoreOld, sweep_eq_some, hend]
  refine and_congr_left fun _ => ?_
  constructor
  · intro hok id v hv
    have hle := h.le
    have hlt := h.lt_of_some₀ (h.old id v hv).1
    have hround := hok id (by omega)
    rw [hv, Option.all_some, Bool.and_eq_true, Bool.not_eq_true', taken_eq_false] at hround
    obtain ⟨hthere, hfree⟩ := hround
    refine ⟨by simpa [upTo] using hthere, fun j b hj hb => ?_⟩
    refine hfree j (h.lt_of_some hb) (by omega) b ?_
    rw [upTo, if_neg (by omega), hb]
  · intro hfree id hid
    cases hv : r.oldValues id with
    | none => rfl
    | some v =>
      obtain ⟨hthere, habove⟩ := hfree id v hv
      have hlt := h.lt_of_some₀ (h.old id v hv).1
      rw [Option.all_some, Bool.and_eq_true, Bool.not_eq_true', taken_eq_false]
      refine ⟨by simpa [upTo] using hthere, fun j hj hne b hb => ?_⟩
      rcases Nat.lt_or_gt_of_ne hne with hbelow | hgt
      · -- further down the objects have their old values already
        rw [upTo, if_pos hbelow] at hb
        rcases restored_eq_some h hb with ⟨h0, -⟩ | hnew
        · exact hu₀ j id b v h0 (h.old id v hv).1 hne
        · have := (h.new j hnew).1
          omega
      · rw [upTo, if_neg (by omega)] at hb
        exact habove j b hgt hb

/-- **The third loop** always gets through: everything it meets is an old object. -/
theorem restoreRemoved_eq_some (h : Tracks c₀ n₀ r c n) (hu₀ : Unique c₀) {c' : Nat → Option α} :
    restoreRemoved r n (fun id => if r.newIds id then none else restored r c id) = some c' ↔ c' = c₀ := by
  have hkept : ∀ id a, (if r.newIds id then none else restored r c id) = some a → c₀ id = some a := by
    intro id a ha
    split at ha
    next => cases ha
    next hnew =>
      rcases restored_eq_some h ha with ⟨h0, -⟩ | hnew'
      · exact h0
      · exact absurd hnew' hnew
  have hend : upTo (fun id x => (r.removedValues id).or x) n
      (fun id => if r.newIds id then none else restored r c id) = c₀ := by
    funext id
    cases hv : r.removedValues id with
    | some v =>
      have hlt := h.lt_of_some₀ (h.removed id v hv).1
      have hle := h.le
      simp [upTo, hv, show id < n by omega, (h.removed id v hv).1]
    | none =>
      have hval : upTo (fun id x => (r.removedValues id).or x) n
          (fun id => if r.newIds id then none else restored r c id) id =
          if r.newIds id then none else restored r c id := by
        simp [upTo, hv]
      rw [hval]
      by_cases hnew : r.newIds id = true
      · rw [if_pos hnew, h.bound₀ id (h.new id hnew).1]
      · rw [if_neg hnew]
        rw [Bool.not_eq_true] at hnew
        cases hold : r.oldValues id with
        | some v => rw [restored, hold, Option.some_or, (h.old id v hold).1]
        | none => rw [restored, hold, Option.none_or, h.rest id hold hv hnew]
  rw [restoreRemoved, sweep_eq_some, hend]
  refine and_iff_right fun id _ => ?_
  cases hv : r.removedValues id with
  | none => rfl
  | some v =>
    obtain ⟨h0, hc, hnew⟩ := h.removed id v hv
    have hold : r.oldValues id = none := by
      by_contra hne
      obtain ⟨w, hw⟩ := Option.ne_none_iff_exists'.mp hne
      have := (h.old id w hw).2.1
      rw [hv] at this
      cases this
    rw [Option.all_some, Bool.and_eq_true, Bool.not_eq_true', taken_eq_false]
    refine ⟨by simp [upTo, hnew, restored, hold, hc], fun j _ hne b hb => ?_⟩
    have h0j : c₀ j = some b := by
      rw [upTo] at hb
      split at hb
      next hlt =>
        cases hvj : r.removedValues j with
        | some w =>
          rw [hvj, Option.some_or] at hb
          cases hb
          exact (h.removed j _ hvj).1
        | none =>
          rw [hvj, Option.none_or] at hb
          exact hkept j b hb
      next => exact hkept j b hb
    exact hu₀ j id b v h0j h0 hne

/-- **What `undo` does**: when nothing is lost and no key was handed over upwards it gives the objects
back, and otherwise it gets stuck. -/
theorem undo_eq_some (h : Tracks c₀ n₀ r c n) (hu₀ : Unique c₀) (hu : Unique c)
    {rs : List (UndoState α)} {revision : Int} {g' : GenericIndex α} :
    undo ⟨c, n, r :: rs, revision⟩ = some g' ↔
      Intact r c ∧ ¬ HandsOver c₀ c ∧ g' = ⟨c₀, n₀, rs, revision - 1⟩ := by
  have hloops : undo ⟨c, n, r :: rs, revision⟩ =
      (restoreOld r n c).bind fun d => (eraseNew r n d).bind fun d => (restoreRemoved r n d).bind fun d =>
        some ⟨d, r.oldNextId, rs, revision - 1⟩ := rfl
  rw [hloops]
  simp only [Option.bind_eq_some_iff, restoreOld_eq_some h hu₀, eraseNew_eq_some h]
  constructor
  · rintro ⟨_, ⟨hfree, rfl⟩, _, ⟨hnew, rfl⟩, _, hlast, hg⟩
    rw [restoreRemoved_eq_some h hu₀] at hlast
    subst hlast
    cases hg
    refine ⟨?_, ?_, by rw [h.next]⟩
    · rintro id (hold | hid)
      · obtain ⟨v, hv⟩ := Option.isSome_iff_exists.mp hold
        exact (hfree id v hv).1
      · have := hnew id hid
        rwa [restored, (h.new_none (h.new id hid).1).1, Option.none_or] at this
    · rintro ⟨i, j, a, b, hlt, h0, hi, hb, hclash⟩
      obtain ⟨x, hx⟩ := Option.isSome_iff_exists.mp hi
      cases hold : r.oldValues i with
      | some v =>
        have := (h.old i v hold).1
        rw [h0] at this
        cases this
        rw [(hfree i _ hold).2 j b hlt hb] at hclash
        cases hclash
      | none =>
        -- an untouched object shares no key with another one
        have hnewi : r.newIds i = false := by
          by_contra hne
          have := (h.new i (by simpa using hne)).1
          have := h.lt_of_some₀ h0
          omega
        have hrest := h.rest i hold (h.removed_none hx) hnewi
        rw [hu j i b a hb (hrest.trans h0) (by omega)] at hclash
        cases hclash
  · rintro ⟨hi, hho, rfl⟩
    refine ⟨_, ⟨fun id v hv => ⟨hi id (.inl (by simp [hv])), fun j b hlt hb => ?_⟩, rfl⟩, _,
      ⟨fun id hid => ?_, rfl⟩, c₀, (restoreRemoved_eq_some h hu₀).mpr rfl, by rw [h.next]⟩
    · by_contra hne
      rw [Bool.not_eq_false] at hne
      exact hho ⟨id, j, v, b, hlt, (h.old id v hv).1, hi id (.inl (by simp [hv])), hb, hne⟩
    · rw [restored, (h.new_none (h.new id hid).1).1, Option.none_or]
      exact hi id (.inr hid)

/-! ## Sessions -/

/-- The call gives an object a key that another object holds. -/
def Op.collides : Op α → GenericIndex α → Bool
  | .modify id f, g => (g.indices id).any fun a => taken g.indices g.nextId id (f a)
  | _, _ => false

/-- No call of a session collides. -/
def collisionFree : List (Op α) → GenericIndex α → Bool
  | [], _ => true
  | op :: ops, g => !op.collides g && collisionFree ops (after (op.run g))

/-- `g` is inside a session that began with `c₀` and `n₀` and has the records `r`. -/
structure Session (c₀ : Nat → Option α) (n₀ : Nat) (rs : List (UndoState α)) (revision : Int)
    (r : UndoState α) (g : GenericIndex α) : Prop where
  stack : g.stack = r :: rs
  revision : g.revision = revision
  tracks : Tracks c₀ n₀ r g.indices g.nextId
  unique : Unique g.indices

theorem Unique.update_some {id : Nat} {a : α} (hu : Unique c) (hbound : ∀ j, n ≤ j → c j = none)
    (h : taken c n id a = false) : Unique (Function.update c id (some a)) := by
  have hfree : ∀ j b, c j = some b → j ≠ id → Clash.clash b a = false := by
    intro j b hb hne
    have hlt : j < n := by
      by_contra hge
      rw [hbound j (by omega)] at hb
      cases hb
    exact taken_eq_false.mp h j hlt hne b hb
  intro i j x y hx hy hne
  by_cases hi : i = id
  · subst hi
    rw [Function.update_self, Option.some.injEq] at hx
    rw [Function.update_of_ne (Ne.symm hne)] at hy
    rw [← hx, Clash.comm]
    exact hfree j y hy (Ne.symm hne)
  · rw [Function.update_of_ne hi] at hx
    by_cases hj : j = id
    · subst hj
      rw [Function.update_self, Option.some.injEq] at hy
      rw [← hy]
      exact hfree i x hx hne
    · rw [Function.update_of_ne hj] at hy
      exact hu i j x y hx hy hne

theorem Unique.update_none (hu : Unique c) (id : Nat) : Unique (Function.update c id none) := by
  intro i j x y hx hy hne
  have hi : i ≠ id := by
    rintro rfl
    simp at hx
  have hj : j ≠ id := by
    rintro rfl
    simp at hy
  rw [Function.update_of_ne hi] at hx
  rw [Function.update_of_ne hj] at hy
  exact hu i j x y hx hy hne

section Session

variable {rs : List (UndoState α)} {revision : Int} {g : GenericIndex α}

/-- **One call**: the session goes on, and nothing is lost unless the call collides. -/
theorem Session.step (h : Session c₀ n₀ rs revision r g) (op : Op α) :
    ∃ r', Session c₀ n₀ rs revision r' (after (op.run g)) ∧
      (Intact r' (after (op.run g)).indices ↔ Intact r g.indices ∧ op.collides g = false) := by
  cases op with
  | emplace a =>
    by_cases htaken : taken g.indices g.nextId g.nextId a = true
    · have hrun : after ((Op.emplace a).run g) = g := by
        simp [Op.run, GenericIndex.emplace, htaken]
      rw [hrun]
      exact ⟨r, h, by simp [Op.collides]⟩
    · rw [Bool.not_eq_true] at htaken
      have hrun : after ((Op.emplace a).run g) = { g with
          indices := Function.update g.indices g.nextId (some a)
          nextId := g.nextId + 1
          stack := record (UndoState.onCreate g.nextId) g.stack } := by
        simp [Op.run, GenericIndex.emplace, htaken]
      rw [hrun]
      refine ⟨r.onCreate g.nextId, ⟨by simp [h.stack, record], h.revision, h.tracks.onCreate a,
        h.unique.update_some h.tracks.bound htaken⟩, ?_⟩
      rw [intact_onCreate h.tracks]
      simp [Op.collides]
  | modify id f =>
    cases ha : g.indices id with
    | none =>
      have hrun : after ((Op.modify id f).run g) = g := by
        simp [Op.run, GenericIndex.modify, ha]
      rw [hrun]
      exact ⟨r, h, by simp [Op.collides, ha]⟩
    | some a =>
      by_cases htaken : taken g.indices g.nextId id (f a) = true
      · have hrun : after ((Op.modify id f).run g) = { g with
            indices := Function.update g.indices id none
            stack := record (UndoState.onModify id a) g.stack } := by
          simp [Op.run, GenericIndex.modify, ha, htaken]
        rw [hrun]
        refine ⟨r.onModify id a, ⟨by simp [h.stack, record], h.revision, h.tracks.onModify ha none,
          h.unique.update_none id⟩, ?_⟩
        simp [not_intact_onModify, Op.collides, ha, htaken]
      · rw [Bool.not_eq_true] at htaken
        have hrun : after ((Op.modify id f).run g) = { g with
            indices := Function.update g.indices id (some (f a))
            stack := record (UndoState.onModify id a) g.stack } := by
          simp [Op.run, GenericIndex.modify, ha, htaken]
        rw [hrun]
        refine ⟨r.onModify id a, ⟨by simp [h.stack, record], h.revision, h.tracks.onModify ha _,
          h.unique.update_some h.tracks.bound htaken⟩, ?_⟩
        rw [intact_onModify ha]
        simp [Op.collides, ha, htaken]
  | remove id =>
    cases ha : g.indices id with
    | none =>
      have hrun : after ((Op.remove id).run g) = g := by
        simp [Op.run, GenericIndex.remove, ha]
      rw [hrun]
      exact ⟨r, h, by simp [Op.collides]⟩
    | some a =>
      have hrun : after ((Op.remove id).run g) = { g with
          indices := Function.update g.indices id none
          stack := record (UndoState.onRemove id a) g.stack } := by
        simp [Op.run, GenericIndex.remove, ha]
      rw [hrun]
      refine ⟨r.onRemove id a, ⟨by simp [h.stack, record], h.revision, h.tracks.onRemove ha,
        h.unique.update_none id⟩, ?_⟩
      rw [intact_onRemove h.tracks ha]
      simp [Op.collides]

/-- **A run of calls.** -/
theorem Session.run (ops : List (Op α)) (h : Session c₀ n₀ rs revision r g) :
    ∃ r', Session c₀ n₀ rs revision r' (Op.runAll ops g) ∧
      (Intact r' (Op.runAll ops g).indices ↔ Intact r g.indices ∧ collisionFree ops g = true) := by
  induction ops generalizing r g with
  | nil => exact ⟨r, h, by simp [Op.runAll, collisionFree]⟩
  | cons op ops ih =>
    obtain ⟨r', h', hi⟩ := h.step op
    obtain ⟨r'', h'', hi'⟩ := ih h'
    refine ⟨r'', h'', ?_⟩
    rw [Op.runAll, hi', hi, collisionFree, Bool.and_eq_true, Bool.not_eq_true', and_assoc]

end Session

theorem unique_ofTable (t : Table α) : Unique t.lookup := by
  intro i j a b ha hb hne
  by_contra hclash
  rw [Bool.not_eq_false] at hclash
  have := Table.eq_of_clash (Table.lookup_eq_some.mp ha) (Table.lookup_eq_some.mp hb) hclash
  exact hne (congrArg Prod.fst this)

theorem lookup_of_ge (t : Table α) {id : Nat} (h : t.nextId ≤ id) : t.lookup id = none := by
  by_contra hne
  obtain ⟨a, ha⟩ := Option.ne_none_iff_exists'.mp hne
  have := t.fresh _ (Table.lookup_eq_some.mp ha)
  omega

/-- **Undo is exact** precisely when no `modify` of the session collided and no object that is still
there passed a key on to an object with a greater id. -/
theorem undo_session_iff (t : Table α) (stack : List (UndoState α)) (revision : Int) (ops : List (Op α)) :
    undo (Op.runAll ops (startUndoSession (ofTable t stack revision))) = some (ofTable t stack revision) ↔
      collisionFree ops (startUndoSession (ofTable t stack revision)) = true ∧
        ¬ HandsOver t.lookup (Op.runAll ops (startUndoSession (ofTable t stack revision))).indices := by
  have hstart : Session t.lookup t.nextId stack (revision + 1)
      { oldNextId := t.nextId, revision := revision + 1 } (startUndoSession (ofTable t stack revision)) :=
    ⟨rfl, rfl, tracks_start fun id hid => lookup_of_ge t hid, unique_ofTable t⟩
  obtain ⟨r, hrun, hi⟩ := hstart.run ops
  have hintact : Intact ({ oldNextId := t.nextId, revision := revision + 1 } : UndoState α)
      (startUndoSession (ofTable t stack revision)).indices := by
    rintro id (h | h) <;> cases h
  generalize Op.runAll ops (startUndoSession (ofTable t stack revision)) = g at hrun hi ⊢
  obtain ⟨c, n, st, rev⟩ := g
  obtain ⟨rfl, rfl, htracks, hunique⟩ := hrun
  rw [undo_eq_some htracks (unique_ofTable t) hunique, hi]
  have hrev : ofTable t stack revision = ⟨t.lookup, t.nextId, stack, revision + 1 - 1⟩ := by
    rw [Int.add_sub_cancel]
    rfl
  constructor
  · rintro ⟨⟨-, hfree⟩, hho, -⟩
    exact ⟨hfree, hho⟩
  · rintro ⟨hfree, hho⟩
    exact ⟨⟨hintact, hfree⟩, hho, hrev⟩

/-- An object with one unique key. -/
structure Keyed where
  key : Nat
deriving DecidableEq

instance : Clash Keyed := ⟨fun a b => a.key == b.key, fun a b => by simp only [BEq.comm]⟩

/-- Objects with the keys 1 and 2. -/
def keyedTable : Table Keyed := Table.ofList [⟨1⟩, ⟨2⟩]

/-- The first object gives its key up and the second takes it: every call succeeds and `undo` throws.
A `modify` that collides is worse, the object it drops is not there to be restored. -/
theorem undo_stuck_on_passed_key :
    collisionFree [.modify 0 fun _ => ⟨3⟩, .modify 1 fun _ => ⟨1⟩]
        (startUndoSession (ofTable keyedTable [] 0)) = true ∧
      (undo (Op.runAll [.modify 0 fun _ => ⟨3⟩, .modify 1 fun _ => ⟨1⟩]
        (startUndoSession (ofTable keyedTable [] 0)))).isNone = true ∧
      (undo (Op.runAll [.modify 0 fun _ => ⟨2⟩]
        (startUndoSession (ofTable keyedTable [] 0)))).isNone = true := by
  decide +kernel

end Chainbase
