import Sigmaengine.Protocol.Block

/-!
# The fork database

`fork_database.cpp`.  Items are shared: the index, the head and the callers each hold pointers to them, and an
item knows its parent by a weak pointer, which leads nowhere once nobody holds the parent.  `items` are all items
ever made, and a pointer is a place in it.  `_unlinked_index` is left out: the one line that fills it stands behind
a `throw`.
-/

namespace Sigmaengine

open Effect

structure ForkItem where
  data : SignedBlock
  id : BlockId
  prev : Option Nat := none
  invalid : Bool := false

/-- `fork_item::num`. -/
def ForkItem.num (i : ForkItem) : Nat := i.data.blockNum

structure ForkDatabase where
  items : List ForkItem := []
  /-- `_index`, in the order of insertion. -/
  index : List Nat := []
  head : Option Nat := none
  maxSize : Nat := 1024
  /-- The shared pointers held outside. -/
  held : List Nat := []

namespace ForkDatabase

variable (cd : Codec) (db : ForkDatabase)

def item (h : Nat) : Option ForkItem := db.items[h]?

/-- Someone holds the item. -/
def alive (h : Nat) : Bool := db.index.contains h || db.head == some h || db.held.contains h

/-- `item->prev.lock()`. -/
def parent (h : Nat) : Option Nat := ((db.item h).bind (·.prev)).filter db.alive

/-- `item->data.block_num()`. -/
def num (h : Nat) : Nat := ((db.item h).map (·.data.blockNum)).getD 0

/-- `item->data.previous`. -/
def previous (h : Nat) : BlockId := ((db.item h).map (·.data.previous)).getD {}

def hasId (id : BlockId) (h : Nat) : Bool := ((db.item h).map (·.id)) == some id

/-- `_index.get<block_id>().find( id )`. -/
def find (id : BlockId) : Option Nat := db.index.find? (db.hasId id)

/-- `_index.insert( item )`, which fails when the id is there. -/
def insert (i : ForkItem) : ForkDatabase :=
  { db with
    items := db.items ++ [i]
    index := if (db.find i.id).isSome then db.index else db.index ++ [db.items.length] }

def headItem : Option ForkItem := db.head.bind db.item

abbrev M := Prog Error ForkDatabase

/-! ## What changes the database -/

def reset : M Unit := modify fun db => { db with head := none, index := [] }

def popBlock : M Unit := do
  let db ← get
  let head ← ofOption db.head (.assertion "cannot pop an empty fork database")
  let prev ← ofOption (db.parent head) (.assertion "popping head block would leave fork DB empty")
  modify fun db => { db with head := some prev }

def startBlock (b : SignedBlock) : M Unit := do
  let db ← get
  modify fun d => { d.insert { data := b, id := b.id cd } with head := some db.items.length }

/-- The item a new block is put on: an item without a head to compare with, or without a previous block, stands
on its own. -/
def linkTo (b : SignedBlock) : M (Option Nat) := do
  let db ← get
  if db.head.isSome && b.previous != {} then do
    let prev ← ofOption (db.find b.previous) (.assertion "block does not link to known chain")
    fcAssert (!((db.item prev).any (·.invalid))) "!(*itr)->invalid"
    return some prev
  else return none

def checkAge (b : SignedBlock) : M Unit := do
  let db ← get
  match db.headItem with
  | none => return ()
  | some head => fcAssert (head.num - db.maxSize < b.blockNum) "attempting to push a block that is too old"

/-- The new item enters the index, and is the head when it is higher. -/
def add (i : ForkItem) : ForkDatabase :=
  { db.insert i with head := if db.headItem.all (·.num < i.num) then some db.items.length else db.head }

/-- `_push_block`; `push_block` answers the head. -/
def pushBlock (b : SignedBlock) : M (Option Nat) := do
  checkAge b
  let prev ← linkTo b
  modify fun db => db.add { data := b, id := b.id cd, prev := prev }
  let db ← get
  return db.head

/-- The blocks that are too far behind the head leave the index. -/
def setMaxSize (s : Nat) : M Unit := modify fun db =>
  match db.headItem with
  | none => { db with maxSize := s }
  | some head => { db with maxSize := s, index := db.index.filter fun h => head.num - s ≤ db.num h }

theorem setMaxSize_cases (s : Nat) (db : ForkDatabase) : after (setMaxSize s db) = { db with maxSize := s } ∨
    ∃ head, after (setMaxSize s db) =
      { db with maxSize := s, index := db.index.filter fun h => ForkItem.num head - s ≤ db.num h } := by
  unfold setMaxSize
  rw [modify_apply, after_ok]
  cases db.headItem with
  | none => exact .inl rfl
  | some head => exact .inr ⟨head, rfl⟩

def setHead (h : Option Nat) : M Unit := modify fun db => { db with head := h }

def remove (id : BlockId) : M Unit := modify fun db => { db with index := db.index.filter (!db.hasId id ·) }

/-! ## Lookups by number -/

/-- `fetch_block_by_number`. -/
def fetchBlockByNumber (n : Nat) : List Nat := db.index.filter fun h => db.num h == n

/-- `walk_main_branch_to_num`, with at most `fuel` steps down. -/
def walkMainBranchToNum (n : Nat) : Nat → Option Nat → Option Nat
  | 0, _ => none
  | fuel + 1, next => next.bind fun h => if n < db.num h then walkMainBranchToNum n fuel (db.parent h) else some h

/-- `fetch_block_on_main_branch_by_number`. -/
def fetchBlockOnMainBranchByNumber (n : Nat) : Option Nat :=
  match db.fetchBlockByNumber n with
  | [] => none
  | [h] => some h
  | _ =>
    if (db.headItem.map (·.num)).getD 0 < n then none
    else db.walkMainBranchToNum n ((db.headItem.map (·.num)).getD 0 + 1) db.head

/-! ## `fetch_branch_from` -/

/-- `while( branch->data.block_num() > num )`: the items that are passed, and the item where this ends. -/
def walkDown (lost : Error) (num : Nat) : Nat → Nat → Except Error (List Nat × Nat)
  | fuel, branch =>
    if num < db.num branch then
      match fuel with
      | 0 => .error .diverged
      | fuel + 1 =>
        match db.parent branch with
        | none => .error lost
        | some prev => (walkDown lost num fuel prev).map fun r => (branch :: r.1, r.2)
    else .ok ([], branch)

/-- The rest from equal heights: both sides step until their previous ids are equal, and the two items where
they are come last. -/
def walkTogether : Nat → Nat → Nat → Except Error (List Nat × List Nat)
  | fuel, first, second =>
    if db.previous first ≠ db.previous second then
      match fuel with
      | 0 => .error .diverged
      | fuel + 1 =>
        match db.parent first with
        | none => .error (.assertion "first_branch")
        | some p =>
          match db.parent second with
          | none => .error (.assertion "second_branch")
          | some q => (walkTogether fuel p q).map fun r => (first :: r.1, second :: r.2)
    else .ok ([first], [second])

/-- `fetch_branch_from`, with at most `fuel` rounds for each loop. -/
def fetchBranchFrom (fuel : Nat) (first second : BlockId) : Except Error (List Nat × List Nat) :=
  match db.find first with
  | none => .error (.assertion "first_branch_itr != _index.get<block_id>().end()")
  | some firstBranch =>
    match db.find second with
    | none => .error (.assertion "second_branch_itr != _index.get<block_id>().end()")
    | some secondBranch => do
      let (passed, firstBranch) ← db.walkDown (.assertion "first_branch") (db.num secondBranch) fuel firstBranch
      let (passed', secondBranch) ←
        db.walkDown (.assertion "second_branch") (db.num firstBranch) fuel secondBranch
      let (last, last') ← db.walkTogether fuel firstBranch secondBranch
      return (passed ++ last, passed' ++ last')

/-! ## Runs -/

/-- A call, or a pointer that someone takes or gives back. -/
inductive Call
  | reset
  | popBlock
  | startBlock (b : SignedBlock)
  | pushBlock (b : SignedBlock)
  | setMaxSize (s : Nat)
  | setHead (h : Option Nat)
  | remove (id : BlockId)
  | hold (h : Nat)
  | release (h : Nat)

/-- What one can hold a pointer to. -/
def Call.possible : Call → Bool
  | .setHead (some h) | .hold h => db.alive h
  | _ => true

def perform : Call → M Unit
  | .reset => reset
  | .popBlock => popBlock
  | .startBlock b => startBlock cd b
  | .pushBlock b => do
    let _ ← pushBlock cd b
  | .setMaxSize s => setMaxSize s
  | .setHead h => setHead h
  | .remove id => remove id
  | .hold h => modify fun db => { db with held := h :: db.held }
  | .release h => modify fun db => { db with held := db.held.erase h }

/-- The database after a call, whether it returns or throws. -/
def step (c : Call) : ForkDatabase := if c.possible db then after (perform cd c db) else db

end ForkDatabase

end Sigmaengine
