import Mathlib.Data.List.DropRight
import Mathlib.Logic.Function.Basic
import Sigmaengine.Lib.Table

/-!
# `generic_index`

One index of the database: objects by id, the id of the next object, and a stack of undo states.  An
undo state does not copy the objects; it records what was changed, created and removed since the session
began, and `undo` replays these records against the container.

The maps of an undo state are partial functions of the id; their loops run through the ids upwards.
What the code leaves undefined (`modify` and `erase` at `end()`) has no result here.
-/

namespace Chainbase

open Effect

/-- The records of one session. -/
structure UndoState (α : Type) where
  oldValues : Nat → Option α := fun _ => none
  removedValues : Nat → Option α := fun _ => none
  newIds : Nat → Bool := fun _ => false
  oldNextId : Nat
  revision : Int

/-- The stack is listed from the newest state to the oldest. -/
structure GenericIndex (α : Type) where
  indices : Nat → Option α
  nextId : Nat
  stack : List (UndoState α) := []
  revision : Int := 0

/-- What `emplace` and `modify` throw, and the use of an object that is not there. -/
inductive Fault
  | couldNotInsert
  | couldNotModify
  | missing
deriving DecidableEq

variable {α : Type}

/-- Some object below `n` other than `id` holds a key of `a`. -/
def taken [Clash α] (c : Nat → Option α) (n id : Nat) (a : α) : Bool :=
  (List.range n).any fun j => j != id && (c j).any fun b => Clash.clash b a

/-! ## Recording -/

/-- `on_create`. -/
def UndoState.onCreate (id : Nat) (r : UndoState α) : UndoState α :=
  { r with newIds := Function.update r.newIds id true }

/-- `on_modify`: the first value since the session began is kept, unless the object is new. -/
def UndoState.onModify (id : Nat) (a : α) (r : UndoState α) : UndoState α :=
  if r.newIds id || (r.oldValues id).isSome then r
  else { r with oldValues := Function.update r.oldValues id (some a) }

/-- `on_remove`. -/
def UndoState.onRemove (id : Nat) (a : α) (r : UndoState α) : UndoState α :=
  if r.newIds id then { r with newIds := Function.update r.newIds id false }
  else match r.oldValues id with
    | some v =>
      { r with
        oldValues := Function.update r.oldValues id none
        removedValues := Function.update r.removedValues id ((r.removedValues id).or (some v)) }
    | none =>
      if (r.removedValues id).isSome then r
      else { r with removedValues := Function.update r.removedValues id (some a) }

/-- Record in the newest state, if there is one. -/
def record (f : UndoState α → UndoState α) : List (UndoState α) → List (UndoState α)
  | [] => []
  | r :: rs => f r :: rs

namespace GenericIndex

/-! ## Objects -/

section Unique

variable [Clash α]

def emplace (a : α) : Prog Fault (GenericIndex α) Unit := fun g =>
  if taken g.indices g.nextId g.nextId a then .error .couldNotInsert g
  else .ok () { g with
    indices := Function.update g.indices g.nextId (some a)
    nextId := g.nextId + 1
    stack := record (UndoState.onCreate g.nextId) g.stack }

/-- The container drops an object whose new keys are taken. -/
def modify (id : Nat) (f : α → α) : Prog Fault (GenericIndex α) Unit := fun g =>
  match g.indices id with
  | none => .error .missing g
  | some a =>
    let stack := record (UndoState.onModify id a) g.stack
    if taken g.indices g.nextId id (f a) then
      .error .couldNotModify { g with indices := Function.update g.indices id none, stack := stack }
    else .ok () { g with indices := Function.update g.indices id (some (f a)), stack := stack }

end Unique

def remove (id : Nat) : Prog Fault (GenericIndex α) Unit := fun g =>
  match g.indices id with
  | none => .error .missing g
  | some a => .ok () { g with
      indices := Function.update g.indices id none
      stack := record (UndoState.onRemove id a) g.stack }

/-! ## Sessions -/

def startUndoSession (g : GenericIndex α) : GenericIndex α :=
  { g with
    stack := { oldNextId := g.nextId, revision := g.revision + 1 } :: g.stack
    revision := g.revision + 1 }

/-- A loop over the ids below `n`: a round may refuse, and otherwise gives one object a new value. -/
def sweep (ok : (Nat → Option α) → Nat → Bool) (value : Nat → Option α → Option α) (n : Nat)
    (c : Nat → Option α) : Option (Nat → Option α) :=
  (List.range n).foldlM
    (fun c id => if ok c id then some (Function.update c id (value id (c id))) else none) c

/-- The first loop of `undo`: changed objects get their old values back.  The object must still be
there, and its old keys must be free. -/
def restoreOld [Clash α] (r : UndoState α) (n : Nat) : (Nat → Option α) → Option (Nat → Option α) :=
  sweep (fun c id => (r.oldValues id).all fun v => (c id).isSome && !taken c n id v)
    (fun id x => (r.oldValues id).or x) n

/-- The second loop: new objects are erased. -/
def eraseNew (r : UndoState α) (n : Nat) : (Nat → Option α) → Option (Nat → Option α) :=
  sweep (fun c id => !r.newIds id || (c id).isSome) (fun id x => if r.newIds id then none else x) n

/-- The third loop: removed objects are put back. -/
def restoreRemoved [Clash α] (r : UndoState α) (n : Nat) : (Nat → Option α) → Option (Nat → Option α) :=
  sweep (fun c id => (r.removedValues id).all fun v => (c id).isNone && !taken c n id v)
    (fun id x => (r.removedValues id).or x) n

/-- `undo`; without a result when it throws or is undefined. -/
def undo [Clash α] (g : GenericIndex α) : Option (GenericIndex α) :=
  match g.stack with
  | [] => some g
  | r :: rs => do
    let c ← restoreOld r g.nextId g.indices
    let c ← eraseNew r g.nextId c
    let c ← restoreRemoved r g.nextId c
    some { indices := c, nextId := r.oldNextId, stack := rs, revision := g.revision - 1 }

/-- What an undo state has about one object. -/
structure Entry (α : Type) where
  old : Option α
  removed : Option α
  new : Bool

def entry (r : UndoState α) (id : Nat) : Entry α := ⟨r.oldValues id, r.removedValues id, r.newIds id⟩

/-- The first loop of `squash` on one object: an old value is taken over unless the older state has one
or the object is new in it. -/
def Entry.takeOld (state : Entry α) (e : Entry α) : Entry α :=
  if e.new || e.old.isSome then e else { e with old := state.old }

/-- The second loop: new objects stay new. -/
def Entry.takeNew (state : Entry α) (e : Entry α) : Entry α := { e with new := e.new || state.new }

/-- The third loop: an object that was new is forgotten, one that was changed is removed with its
oldest value. -/
def Entry.takeRemoved (state : Entry α) (e : Entry α) : Entry α :=
  match state.removed with
  | none => e
  | some v =>
    if e.new then { e with new := false }
    else match e.old with
      | some x => { e with old := none, removed := e.removed.or (some x) }
      | none => { e with removed := e.removed.or (some v) }

/-- One object through the three loops. -/
def Entry.merge (prev state : Entry α) : Entry α := state.takeRemoved (state.takeNew (state.takeOld prev))

/-- The older state after the newer one has been merged into it. -/
def merge (prev state : UndoState α) : UndoState α where
  oldValues id := ((entry prev id).merge (entry state id)).old
  removedValues id := ((entry prev id).merge (entry state id)).removed
  newIds id := ((entry prev id).merge (entry state id)).new
  oldNextId := prev.oldNextId
  revision := prev.revision

/-- `squash`: a single state is dropped, and the revision stays. -/
def squash (g : GenericIndex α) : GenericIndex α :=
  match g.stack with
  | [] => g
  | [_] => { g with stack := [] }
  | state :: prev :: rs => { g with stack := merge prev state :: rs, revision := g.revision - 1 }

/-- `commit`: the oldest states up to `revision` are dropped. -/
def commit (revision : Int) (g : GenericIndex α) : GenericIndex α :=
  { g with stack := g.stack.rdropWhile fun r => r.revision ≤ revision }

end GenericIndex

/-! ## Calls -/

/-- The calls that change objects. -/
inductive Op (α : Type)
  | emplace (a : α)
  | modify (id : Nat) (f : α → α)
  | remove (id : Nat)

namespace Op

variable [Clash α]

def run : Op α → Prog Fault (GenericIndex α) Unit
  | .emplace a => GenericIndex.emplace a
  | .modify id f => GenericIndex.modify id f
  | .remove id => GenericIndex.remove id

/-- Calls in order; one that throws is caught and the next one is made. -/
def runAll : List (Op α) → GenericIndex α → GenericIndex α
  | [], g => g
  | op :: ops, g => runAll ops (after (op.run g))

end Op

/-- The calls on an index. -/
inductive Call (α : Type)
  | startUndoSession
  | op (o : Op α)
  | undo
  | squash
  | commit (revision : Int)

namespace Call

variable [Clash α]

def run : Call α → GenericIndex α → Option (GenericIndex α)
  | .startUndoSession, g => some g.startUndoSession
  | .op o, g => some (after (o.run g))
  | .undo, g => g.undo
  | .squash, g => some g.squash
  | .commit revision, g => some (g.commit revision)

/-- Calls in order, as long as `undo` comes back. -/
def runAll : List (Call α) → GenericIndex α → Option (GenericIndex α)
  | [], g => some g
  | call :: calls, g => (call.run g).bind (runAll calls)

end Call

/-- The index over the objects of a table. -/
def GenericIndex.ofTable [Clash α] (t : Table α) (stack : List (UndoState α)) (revision : Int) :
    GenericIndex α where
  indices := t.lookup
  nextId := t.nextId
  stack := stack
  revision := revision

end Chainbase
