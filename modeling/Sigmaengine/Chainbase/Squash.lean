import Sigmaengine.Chainbase.Undo

/-!
# Squash

`squash` merges the records of the newest session into those of the session before.  Per object the
merge is a matrix of what the two sessions did to it; `Cell` has its four rows, and `Cell.merge` says that
the cells compose.  The cells the source calls N/A are excluded by the ids: what is new in a session has
an id no earlier session has seen.

`Stacked` says that every state of the stack leads back from the objects the state above it began with,
and every call keeps it.
-/

namespace Chainbase

open Effect GenericIndex

variable {α : Type}

/-! ## The merge matrix -/

/-- What an entry says of an object that had the value `x₀` and has the value `x`. -/
inductive Cell : Entry α → Option α → Option α → Prop
  | nop (x : Option α) : Cell ⟨none, none, false⟩ x x
  | upd (v : α) (x : Option α) : Cell ⟨some v, none, false⟩ (some v) x
  | del (v : α) : Cell ⟨none, some v, false⟩ (some v) none
  | new (x : Option α) : Cell ⟨none, none, true⟩ none x

/-- **The matrix.** -/
theorem Cell.merge {a b : Entry α} {x₀ x₁ x₂ : Option α} (ha : Cell a x₀ x₁) (hb : Cell b x₁ x₂)
    (hnew : b.new = true → a = ⟨none, none, false⟩) : Cell (a.merge b) x₀ x₂ := by
  cases ha with
  | nop =>
    cases hb with
    | nop => exact .nop _
    | upd v => exact .upd v _
    | del v => exact .del v
    | new => exact .new _
  | upd v =>
    cases hb with
    | nop => exact .upd v _
    | upd => exact .upd v _
    | del => exact .del v
    | new => cases hnew rfl
  | del v =>
    cases hb with
    | nop => exact .del v
    | new => cases hnew rfl
  | new =>
    cases hb with
    | nop => exact .new _
    | upd => exact .new _
    | del => exact .nop _
    | new => cases hnew rfl

variable {c₀ c₁ c : Nat → Option α} {n₀ n₁ n : Nat} {r₁ r : UndoState α}

theorem Tracks.cell (h : Tracks c₀ n₀ r c n) (id : Nat) : Cell (entry r id) (c₀ id) (c id) := by
  unfold entry
  cases hnew : r.newIds id with
  | true =>
    obtain ⟨hold, hrem⟩ := h.new_none (h.new id hnew).1
    rw [hold, hrem, h.bound₀ id (h.new id hnew).1]
    exact .new _
  | false =>
    cases hold : r.oldValues id with
    | some v =>
      obtain ⟨h0, hrem, -⟩ := h.old id v hold
      rw [hrem, h0]
      exact .upd v _
    | none =>
      cases hrem : r.removedValues id with
      | some v =>
        obtain ⟨h0, hc, -⟩ := h.removed id v hrem
        rw [h0, hc]
        exact .del v
      | none =>
        rw [h.rest id hold hrem hnew]
        exact .nop _

theorem tracks_of_cells (hnext : r.oldNextId = n₀) (hle : n₀ ≤ n) (hbound₀ : ∀ id, n₀ ≤ id → c₀ id = none)
    (hbound : ∀ id, n ≤ id → c id = none) (hnew : ∀ id, r.newIds id = true → n₀ ≤ id ∧ id < n)
    (hcell : ∀ id, Cell (entry r id) (c₀ id) (c id)) : Tracks c₀ n₀ r c n where
  next := hnext
  le := hle
  bound₀ := hbound₀
  bound := hbound
  new := hnew
  old id v hv := by
    have h := hcell id
    rw [entry, hv] at h
    generalize r.removedValues id = y, r.newIds id = b, c₀ id = x₀, c id = x at h
    cases h
    exact ⟨rfl, rfl, rfl⟩
  removed id v hv := by
    have h := hcell id
    rw [entry, hv] at h
    generalize r.oldValues id = y, r.newIds id = b, c₀ id = x₀, c id = x at h
    cases h
    exact ⟨rfl, rfl, rfl⟩
  rest id hold hrem hnw := by
    have h := hcell id
    rw [entry, hold, hrem, hnw] at h
    generalize c₀ id = x₀, c id = x at h
    cases h
    rfl

theorem Tracks.entry_of_ge (h : Tracks c₀ n₀ r c n) {id : Nat} (hid : n ≤ id) :
    entry r id = ⟨none, none, false⟩ := by
  have hle := h.le
  have hnew : r.newIds id = false := by
    by_contra hne
    have := (h.new id (by simpa using hne)).2
    omega
  rw [entry, (h.new_none (by omega)).1, (h.new_none (by omega)).2, hnew]

theorem cell_merge (h₁ : Tracks c₀ n₀ r₁ c₁ n₁) (h : Tracks c₁ n₁ r c n) (id : Nat) :
    Cell ((entry r₁ id).merge (entry r id)) (c₀ id) (c id) :=
  (h₁.cell id).merge (h.cell id) fun hnew => h₁.entry_of_ge (h.new id hnew).1

/-- **Merged records** lead back over both sessions. -/
theorem Tracks.merge (h₁ : Tracks c₀ n₀ r₁ c₁ n₁) (h : Tracks c₁ n₁ r c n) :
    Tracks c₀ n₀ (GenericIndex.merge r₁ r) c n := by
  refine tracks_of_cells h₁.next (h₁.le.trans h.le) h₁.bound₀ h.bound ?_ (cell_merge h₁ h)
  intro id hnew
  have hle₁ := h₁.le
  have hle := h.le
  change ((entry r₁ id).merge (entry r id)).new = true at hnew
  by_contra hout
  rw [not_and_or, not_le, not_lt] at hout
  rcases hout with hlow | hhigh
  · -- below `n₀` neither session has new objects
    have hnew₁ : r₁.newIds id = false := by
      by_contra hne
      have := (h₁.new id (by simpa using hne)).1
      omega
    have hnew₂ : r.newIds id = false := by
      by_contra hne
      have := (h.new id (by simpa using hne)).1
      omega
    have hcell₁ := h₁.cell id
    have hcell := h.cell id
    rw [entry, hnew₁] at hcell₁ hnew
    rw [entry, hnew₂] at hcell hnew
    generalize r₁.oldValues id = o₁, r₁.removedValues id = m₁, r.oldValues id = o, r.removedValues id = m,
      c₀ id = x₀, c₁ id = x₁, c id = x at hcell₁ hcell hnew
    cases hcell₁ <;> cases hcell <;> cases hnew
  · rw [h₁.entry_of_ge (by omega), h.entry_of_ge hhigh] at hnew
    cases hnew

theorem Intact.merge (h₁ : Tracks c₀ n₀ r₁ c₁ n₁) (h : Tracks c₁ n₁ r c n) (hi₁ : Intact r₁ c₁)
    (hi : Intact r c) : Intact (GenericIndex.merge r₁ r) c := by
  intro id hid
  have hat₁ := hi₁ id
  have hat := hi id
  have hcell₁ := h₁.cell id
  have hcell := h.cell id
  change (((entry r₁ id).merge (entry r id)).old).isSome ∨ ((entry r₁ id).merge (entry r id)).new = true at hid
  unfold entry at hcell₁ hcell hid
  generalize r₁.oldValues id = o₁, r₁.removedValues id = m₁, r₁.newIds id = b₁, r.oldValues id = o,
    r.removedValues id = m, r.newIds id = b, c₀ id = x₀, c₁ id = x₁, c id = x at hcell₁ hcell hid hat₁ hat
  cases hcell₁ <;> cases hcell <;> simp_all [Entry.merge, Entry.takeOld, Entry.takeNew, Entry.takeRemoved]

/-! ## What a call records -/

/-- What a call records, given the objects before it. -/
inductive Recorded (c : Nat → Option α) (n : Nat) : (UndoState α → UndoState α) → Prop
  | nothing : Recorded c n id
  | create : Recorded c n (UndoState.onCreate n)
  | modify {i : Nat} {a : α} (ha : c i = some a) : Recorded c n (UndoState.onModify i a)
  | remove {i : Nat} {a : α} (ha : c i = some a) : Recorded c n (UndoState.onRemove i a)

theorem record_id (stack : List (UndoState α)) : record id stack = stack := by
  cases stack <;> rfl

/-- A call changes the objects alike on every stack, and records its change in the newest state. -/
theorem Op.after_run [Clash α] (op : Op α) (c : Nat → Option α) (n : Nat) :
    ∃ c' n' f, Recorded c n f ∧
      ∀ stack revision, after (op.run ⟨c, n, stack, revision⟩) = ⟨c', n', record f stack, revision⟩ := by
  cases op with
  | emplace a =>
    by_cases htaken : taken c n n a = true
    · exact ⟨c, n, id, .nothing, fun stack revision => by simp [Op.run, GenericIndex.emplace, htaken, record_id]⟩
    · exact ⟨Function.update c n (some a), n + 1, _, .create, fun stack revision => by
        simp [Op.run, GenericIndex.emplace, htaken]⟩
  | modify i f =>
    cases ha : c i with
    | none =>
      exact ⟨c, n, id, .nothing, fun stack revision => by simp [Op.run, GenericIndex.modify, ha, record_id]⟩
    | some a =>
      by_cases htaken : taken c n i (f a) = true
      · exact ⟨Function.update c i none, n, _, .modify ha, fun stack revision => by
          simp [Op.run, GenericIndex.modify, ha, htaken]⟩
      · exact ⟨Function.update c i (some (f a)), n, _, .modify ha, fun stack revision => by
          simp [Op.run, GenericIndex.modify, ha, htaken]⟩
  | remove i =>
    cases ha : c i with
    | none =>
      exact ⟨c, n, id, .nothing, fun stack revision => by simp [Op.run, GenericIndex.remove, ha, record_id]⟩
    | some a =>
      exact ⟨Function.update c i none, n, _, .remove ha, fun stack revision => by
        simp [Op.run, GenericIndex.remove, ha]⟩

/-! ## Stacks -/

section Stacked

variable [Clash α]

/-- Every state of the stack leads back from the objects the state above it began with.  Without unique
keys nothing is ever lost. -/
def Stacked : (Nat → Option α) → Nat → List (UndoState α) → Prop
  | c, n, [] => Unique c ∧ ∀ id, n ≤ id → c id = none
  | c, n, r :: rs => Unique c ∧ ∃ c₀ n₀, Tracks c₀ n₀ r c n ∧
      ((∀ a b : α, Clash.clash a b = false) → Intact r c) ∧ Stacked c₀ n₀ rs

theorem Stacked.unique {stack : List (UndoState α)} (h : Stacked c n stack) : Unique c := by
  cases stack <;> exact h.1

theorem Stacked.bound {stack : List (UndoState α)} (h : Stacked c n stack) : ∀ id, n ≤ id → c id = none := by
  cases stack with
  | nil => exact h.2
  | cons r rs =>
    obtain ⟨-, c₀, n₀, htracks, -⟩ := h
    exact htracks.bound

theorem Stacked.start {stack : List (UndoState α)} (h : Stacked c n stack) (revision : Int) :
    Stacked c n ({ oldNextId := n, revision := revision } :: stack) := by
  refine ⟨h.unique, c, n, tracks_start h.bound, fun _ id hid => ?_, h⟩
  rcases hid with hid | hid <;> cases hid

/-- States dropped from the bottom are not missed. -/
theorem Stacked.of_isPrefix {stack stack' : List (UndoState α)} (h : Stacked c n stack)
    (hp : stack' <+: stack) : Stacked c n stack' := by
  induction stack' generalizing c n stack with
  | nil => exact ⟨h.unique, h.bound⟩
  | cons r rs ih =>
    obtain ⟨rest, rfl⟩ := hp
    obtain ⟨hu, c₀, n₀, htracks, hi, hrest⟩ := h
    exact ⟨hu, c₀, n₀, htracks, hi, ih hrest ⟨rest, rfl⟩⟩

theorem Op.collides_eq_false (hno : ∀ a b : α, Clash.clash a b = false) (op : Op α) (g : GenericIndex α) :
    op.collides g = false := by
  cases op with
  | modify id f =>
    change ((g.indices id).any fun a => taken g.indices g.nextId id (f a)) = false
    cases g.indices id with
    | none => rfl
    | some a =>
      rw [Option.any_some, taken_eq_false]
      intro j _ _ b _
      exact hno b (f a)
  | _ => rfl

/-- **One call** on a stack. -/
theorem Stacked.step {g : GenericIndex α} (h : Stacked g.indices g.nextId g.stack) (op : Op α) :
    Stacked (after (op.run g)).indices (after (op.run g)).nextId (after (op.run g)).stack := by
  obtain ⟨c, n, stack, revision⟩ := g
  cases stack with
  | nil =>
    -- the objects are the same as inside a session
    obtain ⟨c', n', f, -, hrun⟩ := op.after_run c n
    have hsession : Session c n [] revision { oldNextId := n, revision := revision }
        ⟨c, n, [{ oldNextId := n, revision := revision }], revision⟩ :=
      ⟨rfl, rfl, tracks_start h.2, h.1⟩
    obtain ⟨r', hstep, -⟩ := hsession.step op
    rw [hrun] at hstep ⊢
    exact ⟨hstep.unique, hstep.tracks.bound⟩
  | cons r rs =>
    obtain ⟨hu, c₀, n₀, htracks, hi, hrest⟩ := h
    have hsession : Session c₀ n₀ rs revision r ⟨c, n, r :: rs, revision⟩ := ⟨rfl, rfl, htracks, hu⟩
    obtain ⟨r', hstep, hi'⟩ := hsession.step op
    rw [hstep.stack]
    exact ⟨hstep.unique, c₀, n₀, hstep.tracks, fun hno => hi'.mpr ⟨hi hno, op.collides_eq_false hno _⟩, hrest⟩

/-- **Squashing** a stack. -/
theorem Stacked.squash {g : GenericIndex α} (h : Stacked g.indices g.nextId g.stack) :
    Stacked g.squash.indices g.squash.nextId g.squash.stack := by
  obtain ⟨c, n, stack, revision⟩ := g
  match stack, h with
  | [], h => exact h
  | [r], h => exact ⟨h.unique, h.bound⟩
  | r :: r₁ :: rs, ⟨hu, c₁, n₁, htracks, hi, hu₁, c₀, n₀, htracks₁, hi₁, hrest⟩ =>
    exact ⟨hu, c₀, n₀, htracks₁.merge htracks, fun hno => (hi₁ hno).merge htracks₁ htracks (hi hno), hrest⟩

/-- **Undoing** a session of a stack gives what it began with. -/
theorem undo_of_stacked {r : UndoState α} {rs : List (UndoState α)} {revision : Int} {g' : GenericIndex α}
    {c₀ : Nat → Option α} {n₀ : Nat} (htracks : Tracks c₀ n₀ r c n) (hu : Unique c) (hrest : Stacked c₀ n₀ rs)
    (hg : GenericIndex.undo ⟨c, n, r :: rs, revision⟩ = some g') : g' = ⟨c₀, n₀, rs, revision - 1⟩ :=
  ((undo_eq_some htracks hrest.unique hu).mp hg).2.2

theorem Stacked.call {g g' : GenericIndex α} (h : Stacked g.indices g.nextId g.stack) {call : Call α}
    (hrun : call.run g = some g') : Stacked g'.indices g'.nextId g'.stack := by
  cases call with
  | startUndoSession =>
    cases hrun
    exact h.start _
  | op o =>
    cases hrun
    exact h.step o
  | undo =>
    obtain ⟨c, n, stack, revision⟩ := g
    cases stack with
    | nil =>
      cases hrun
      exact h
    | cons r rs =>
      obtain ⟨hu, c₀, n₀, htracks, -, hrest⟩ := h
      rw [undo_of_stacked htracks hu hrest hrun]
      exact hrest
  | squash =>
    cases hrun
    exact h.squash
  | commit revision =>
    cases hrun
    exact h.of_isPrefix (List.rdropWhile_prefix _ _)

/-- **Every reached stack.** -/
theorem stacked_runAll {calls : List (Call α)} {g g' : GenericIndex α} (h : Stacked g.indices g.nextId g.stack)
    (hrun : Call.runAll calls g = some g') : Stacked g'.indices g'.nextId g'.stack := by
  induction calls generalizing g with
  | nil =>
    cases hrun
    exact h
  | cons call calls ih =>
    obtain ⟨g₁, hcall, hrest⟩ := Option.bind_eq_some_iff.mp hrun
    exact ih (h.call hcall) hrest

theorem stacked_ofTable (t : Table α) (revision : Int) :
    Stacked (ofTable t [] revision).indices (ofTable t [] revision).nextId (ofTable t [] revision).stack :=
  ⟨unique_ofTable t, fun _ hid => lookup_of_ge t hid⟩

end Stacked

/-! ## Squash and undo -/

/-- Objects under the primary id alone. -/
structure ById (α : Type) where
  value : α

instance : Clash (ById α) := ⟨fun _ _ => false, fun _ _ => rfl⟩

theorem unique_byId (c : Nat → Option (ById α)) : Unique c := fun _ _ _ _ _ _ _ => rfl

theorem not_handsOver_byId (c₀ c : Nat → Option (ById α)) : ¬ HandsOver c₀ c := by
  rintro ⟨i, j, a, b, -, -, -, -, h⟩
  cases h

/-- **Squash composes**: by primary id, on every reached stack with two states, `squash` and then `undo`
comes back and is `undo` twice. -/
theorem undo_squash (t : Table (ById α)) (revision : Int) (calls : List (Call (ById α)))
    (g : GenericIndex (ById α)) (hreach : Call.runAll calls (ofTable t [] revision) = some g)
    (hdepth : 2 ≤ g.stack.length) :
    ∃ g', undo (squash g) = some g' ∧ (undo g).bind undo = some g' := by
  have hstacked := stacked_runAll (stacked_ofTable t revision) hreach
  obtain ⟨c, n, stack, rev⟩ := g
  match stack, hstacked, hdepth with
  | r :: r₁ :: rs, ⟨_, c₁, n₁, htracks, hi, _, c₀, n₀, htracks₁, hi₁, _⟩, _ =>
    have hi := hi fun _ _ => rfl
    have hi₁ := hi₁ fun _ _ => rfl
    have hmerged : undo (squash ⟨c, n, r :: r₁ :: rs, rev⟩) = some ⟨c₀, n₀, rs, rev - 1 - 1⟩ :=
      (undo_eq_some (htracks₁.merge htracks) (unique_byId _) (unique_byId _)).mpr
        ⟨hi₁.merge htracks₁ htracks hi, not_handsOver_byId _ _, rfl⟩
    have hfirst : undo ⟨c, n, r :: r₁ :: rs, rev⟩ = some ⟨c₁, n₁, r₁ :: rs, rev - 1⟩ :=
      (undo_eq_some htracks (unique_byId _) (unique_byId _)).mpr ⟨hi, not_handsOver_byId _ _, rfl⟩
    have hsecond : undo ⟨c₁, n₁, r₁ :: rs, rev - 1⟩ = some ⟨c₀, n₀, rs, rev - 1 - 1⟩ :=
      (undo_eq_some htracks₁ (unique_byId _) (unique_byId _)).mpr ⟨hi₁, not_handsOver_byId _ _, rfl⟩
    exact ⟨_, hmerged, by rw [hfirst, Option.bind_some, hsecond]⟩

/-- An object changed in one session, another one created in the next. -/
def nestedSample : GenericIndex (ById Nat) :=
  after ((Op.emplace ⟨9⟩).run (startUndoSession (after ((Op.modify 0 fun _ => ⟨8⟩).run
    (startUndoSession (ofTable (Table.ofList [⟨7⟩]) [] 3))))))

theorem undo_squash_nestedSample :
    2 ≤ nestedSample.stack.length ∧
      ∃ g', undo (squash nestedSample) = some g' ∧ (undo nestedSample).bind undo = some g' :=
  ⟨by decide, undo_squash (Table.ofList [⟨7⟩]) 3
    [.startUndoSession, .op (.modify 0 fun _ => ⟨8⟩), .startUndoSession, .op (.emplace ⟨9⟩)] nestedSample rfl
    (by decide)⟩

/-! ## Squash and recording -/

/-- `on_modify` on one entry. -/
def GenericIndex.Entry.onModify (a : α) (e : Entry α) : Entry α :=
  if e.new || e.old.isSome then e else { e with old := some a }

/-- `on_remove` on one entry. -/
def GenericIndex.Entry.onRemove (a : α) (e : Entry α) : Entry α :=
  if e.new then { e with new := false }
  else match e.old with
    | some v => { e with old := none, removed := e.removed.or (some v) }
    | none => { e with removed := e.removed.or (some a) }

theorem entry_merge (p r : UndoState α) (id : Nat) :
    entry (GenericIndex.merge p r) id = (entry p id).merge (entry r id) := rfl

theorem entry_onCreate (r : UndoState α) (i id : Nat) :
    entry (r.onCreate i) id = if id = i then { entry r i with new := true } else entry r id := by
  by_cases h : id = i
  · subst h
    simp [entry, UndoState.onCreate]
  · simp [entry, UndoState.onCreate, h]

theorem entry_onModify (r : UndoState α) (i : Nat) (a : α) (id : Nat) :
    entry (r.onModify i a) id = if id = i then (entry r i).onModify a else entry r id := by
  unfold UndoState.onModify
  split
  next hknown =>
    by_cases h : id = i
    · subst h
      simp only [entry, Entry.onModify, hknown, if_true]
    · simp [h]
  next hknown =>
    by_cases h : id = i
    · subst h
      simp [entry, Entry.onModify, hknown]
    · simp [entry, h]

theorem entry_onRemove (r : UndoState α) (i : Nat) (a : α) (id : Nat) :
    entry (r.onRemove i a) id = if id = i then (entry r i).onRemove a else entry r id := by
  unfold UndoState.onRemove
  split
  next hnew =>
    by_cases h : id = i
    · subst h
      simp [entry, Entry.onRemove, hnew]
    · simp [entry, h]
  next hnew =>
    split
    next v hold =>
      by_cases h : id = i
      · subst h
        simp [entry, Entry.onRemove, hnew, hold]
      · simp [entry, h]
    next hold =>
      split
      next hrem =>
        obtain ⟨v, hv⟩ := Option.isSome_iff_exists.mp hrem
        by_cases h : id = i
        · subst h
          simp [entry, Entry.onRemove, hnew, hold, hv]
        · simp [h]
      next hrem =>
        rw [Option.not_isSome_iff_eq_none] at hrem
        by_cases h : id = i
        · subst h
          simp [entry, Entry.onRemove, hnew, hold, hrem]
        · simp [entry, h]

theorem onModify_header (r : UndoState α) (i : Nat) (a : α) :
    (r.onModify i a).oldNextId = r.oldNextId ∧ (r.onModify i a).revision = r.revision := by
  unfold UndoState.onModify
  split
  next => exact ⟨rfl, rfl⟩
  next => exact ⟨rfl, rfl⟩

theorem onRemove_header (r : UndoState α) (i : Nat) (a : α) :
    (r.onRemove i a).oldNextId = r.oldNextId ∧ (r.onRemove i a).revision = r.revision := by
  unfold UndoState.onRemove
  split
  next => exact ⟨rfl, rfl⟩
  next =>
    split
    next => exact ⟨rfl, rfl⟩
    next => split <;> exact ⟨rfl, rfl⟩

theorem Cell.merge_onModify {e : Entry α} {x : Option α} {a : α} (h : Cell e x (some a)) (p : Entry α) :
    p.merge (e.onModify a) = (p.merge e).onModify a := by
  obtain ⟨old, removed, new⟩ := p
  cases h <;> cases new <;> cases old <;> rfl

theorem Cell.merge_onRemove {e : Entry α} {x : Option α} {a : α} (h : Cell e x (some a)) {p : Entry α}
    (hp : e.new = true → p.new = false) : p.merge (e.onRemove a) = (p.merge e).onRemove a := by
  obtain ⟨old, removed, new⟩ := p
  cases h with
  | nop => cases new <;> cases old <;> rfl
  | upd => cases new <;> cases old <;> rfl
  | new =>
    cases hp rfl
    cases old <;> rfl

theorem undoState_ext {r r' : UndoState α} (hnext : r.oldNextId = r'.oldNextId) (hrev : r.revision = r'.revision)
    (h : ∀ id, entry r id = entry r' id) : r = r' := by
  obtain ⟨old, removed, new, next, rev⟩ := r
  obtain ⟨old', removed', new', next', rev'⟩ := r'
  cases hnext
  cases hrev
  have hold : old = old' := funext fun id => congrArg Entry.old (h id)
  have hremoved : removed = removed' := funext fun id => congrArg Entry.removed (h id)
  have hnew : new = new' := funext fun id => congrArg Entry.new (h id)
  rw [hold, hremoved, hnew]

/-- **Recording commutes with merging**: what a call records in the merged state is what it records in
the newer one. -/
theorem merge_recorded {p : UndoState α} {f : UndoState α → UndoState α} (h : Tracks c₁ n₁ r c n)
    (hp : ∀ id, p.newIds id = true → id < n₁) (hf : Recorded c n f) :
    GenericIndex.merge p (f r) = f (GenericIndex.merge p r) := by
  have hfresh : ∀ id, (entry r id).new = true → (entry p id).new = false := by
    intro id hnew
    by_contra hne
    have := hp id ((Bool.not_eq_false _).mp hne)
    have := (h.new id hnew).1
    omega
  cases hf with
  | nothing => rfl
  | create =>
    refine undoState_ext rfl rfl fun id => ?_
    rw [entry_merge, entry_onCreate, entry_onCreate]
    by_cases hid : id = n
    · subst hid
      rw [if_pos rfl, if_pos rfl, entry_merge, h.entry_of_ge le_rfl]
      obtain ⟨old, removed, new⟩ := entry p id
      cases new <;> cases old <;> rfl
    · rw [if_neg hid, if_neg hid, entry_merge]
  | modify ha =>
    rename_i i a
    refine undoState_ext (onModify_header (GenericIndex.merge p r) i a).1.symm
      (onModify_header (GenericIndex.merge p r) i a).2.symm fun id => ?_
    rw [entry_merge, entry_onModify, entry_onModify]
    by_cases hid : id = i
    · subst hid
      have hcell := h.cell id
      rw [ha] at hcell
      rw [if_pos rfl, if_pos rfl, entry_merge, hcell.merge_onModify]
    · rw [if_neg hid, if_neg hid, entry_merge]
  | remove ha =>
    rename_i i a
    refine undoState_ext (onRemove_header (GenericIndex.merge p r) i a).1.symm
      (onRemove_header (GenericIndex.merge p r) i a).2.symm fun id => ?_
    rw [entry_merge, entry_onRemove, entry_onRemove]
    by_cases hid : id = i
    · subst hid
      have hcell := h.cell id
      rw [ha] at hcell
      rw [if_pos rfl, if_pos rfl, entry_merge, hcell.merge_onRemove (hfresh id)]
    · rw [if_neg hid, if_neg hid, entry_merge]

section Neutral

variable [Clash α]

/-- The same calls inside one more session and directly. -/
structure Alongside (p : UndoState α) (rs : List (UndoState α)) (g d : GenericIndex α) : Prop where
  session : ∃ c₁ n₁ r, Tracks c₁ n₁ r g.indices g.nextId ∧ Unique g.indices ∧
    (∀ id, p.newIds id = true → id < n₁) ∧ g.stack = r :: p :: rs ∧ d.stack = GenericIndex.merge p r :: rs
  indices : d.indices = g.indices
  nextId : d.nextId = g.nextId
  revision : d.revision + 1 = g.revision

theorem Alongside.step {p : UndoState α} {rs : List (UndoState α)} {g d : GenericIndex α}
    (h : Alongside p rs g d) (op : Op α) : Alongside p rs (after (op.run g)) (after (op.run d)) := by
  obtain ⟨⟨c₁, n₁, r, htracks, hu, hp, hstack, hstackd⟩, hindices, hnext, hrev⟩ := h
  obtain ⟨c, n, stack, revision⟩ := g
  obtain ⟨c', n', stack', revision'⟩ := d
  cases hindices
  cases hnext
  cases hstack
  cases hstackd
  obtain ⟨c', n', f, hf, hrun⟩ := op.after_run c n
  have hsession : Session c₁ n₁ (p :: rs) revision r ⟨c, n, r :: p :: rs, revision⟩ := ⟨rfl, rfl, htracks, hu⟩
  obtain ⟨r', hstep, -⟩ := hsession.step op
  rw [hrun] at hstep ⊢
  rw [hrun]
  have hr : r' = f r := (List.cons.inj hstep.stack).1.symm
  subst hr
  exact ⟨⟨c₁, n₁, f r, hstep.tracks, hstep.unique, hp, rfl,
    congrArg (· :: rs) (merge_recorded htracks hp hf).symm⟩, rfl, rfl, hrev⟩

theorem Alongside.run {p : UndoState α} {rs : List (UndoState α)} (ops : List (Op α)) {g d : GenericIndex α}
    (h : Alongside p rs g d) : Alongside p rs (Op.runAll ops g) (Op.runAll ops d) := by
  induction ops generalizing g d with
  | nil => exact h
  | cons op ops ih => exact ih (h.step op)

theorem Alongside.squash_eq {p : UndoState α} {rs : List (UndoState α)} {g d : GenericIndex α}
    (h : Alongside p rs g d) : squash g = d := by
  obtain ⟨⟨c₁, n₁, r, -, -, -, hstack, hstackd⟩, hindices, hnext, hrev⟩ := h
  obtain ⟨c, n, stack, revision⟩ := g
  obtain ⟨c', n', stack', revision'⟩ := d
  cases hindices
  cases hnext
  cases hstack
  cases hstackd
  have hdown : revision - 1 = revision' := by
    change revision' + 1 = revision at hrev
    omega
  rw [squash, hdown]

theorem runAll_revision (ops : List (Op α)) (g : GenericIndex α) : (Op.runAll ops g).revision = g.revision := by
  induction ops generalizing g with
  | nil => rfl
  | cons op ops ih =>
    obtain ⟨c', n', f, -, hrun⟩ := op.after_run g.indices g.nextId
    rw [Op.runAll, ih, hrun g.stack g.revision]

theorem runAll_length (ops : List (Op α)) (g : GenericIndex α) :
    (Op.runAll ops g).stack.length = g.stack.length := by
  induction ops generalizing g with
  | nil => rfl
  | cons op ops ih =>
    obtain ⟨c', n', f, -, hrun⟩ := op.after_run g.indices g.nextId
    rw [Op.runAll, ih, hrun g.stack g.revision]
    cases g.stack <;> rfl

/-- **Squash is neutral** exactly inside another session: on an empty stack the squashed session leaves
the revision one too high. -/
theorem squash_neutral_iff (t : Table α) (revision : Int) (calls : List (Call α)) (g : GenericIndex α)
    (hreach : Call.runAll calls (ofTable t [] revision) = some g) (ops : List (Op α)) :
    squash (Op.runAll ops (startUndoSession g)) = Op.runAll ops g ↔ g.stack ≠ [] := by
  have hstacked := stacked_runAll (stacked_ofTable t revision) hreach
  constructor
  · intro heq hempty
    have hlength := runAll_length ops (startUndoSession g)
    have hrev := runAll_revision ops (startUndoSession g)
    have hrev' := runAll_revision ops g
    rw [← heq] at hrev'
    generalize Op.runAll ops (startUndoSession g) = d at hlength hrev hrev'
    obtain ⟨c, n, stack, rev⟩ := d
    rw [startUndoSession, hempty] at hlength
    obtain ⟨r, rfl⟩ := List.length_eq_one_iff.mp hlength
    change rev = g.revision + 1 at hrev
    change rev = g.revision at hrev'
    omega
  · intro hne
    obtain ⟨c, n, stack, rev⟩ := g
    cases stack with
    | nil => exact absurd rfl hne
    | cons p rs =>
      have hbound := hstacked.bound
      obtain ⟨hu, c₀, n₀, htracks, -, -⟩ := hstacked
      have hstart : Alongside p rs (startUndoSession ⟨c, n, p :: rs, rev⟩) ⟨c, n, p :: rs, rev⟩ := by
        refine ⟨⟨c, n, { oldNextId := n, revision := rev + 1 }, tracks_start hbound, hu,
          fun id hid => (htracks.new id hid).2, rfl, ?_⟩, rfl, rfl, rfl⟩
        refine congrArg (· :: rs) (undoState_ext rfl rfl fun id => ?_)
        rw [entry_merge]
        obtain ⟨old, removed, new⟩ := entry p id
        cases new <;> cases old <;> rfl
      exact (hstart.run ops).squash_eq

/-- Inside a session. -/
theorem squash_neutral_nestedSample :
    squash (Op.runAll [.remove 0] (startUndoSession nestedSample)) = Op.runAll [.remove 0] nestedSample := by
  have hnonempty : nestedSample.stack ≠ [] := List.ne_nil_of_length_pos (by decide)
  have hneutral := squash_neutral_iff (α := ById Nat) (Table.ofList [⟨7⟩]) 3
    [.startUndoSession, .op (.modify 0 fun _ => ⟨8⟩), .startUndoSession, .op (.emplace ⟨9⟩)] nestedSample rfl
    [.remove 0]
  exact hneutral.mpr hnonempty

/-- Without a session around it. -/
theorem squash_alone_keeps_revision :
    (squash (Op.runAll [.emplace ⟨5⟩] (startUndoSession (ofTable keyedTable [] 0)))).revision = 1 ∧
      (Op.runAll [.emplace ⟨5⟩] (ofTable keyedTable [] 0)).revision = 0 := by
  decide +kernel

end Neutral

end Chainbase
