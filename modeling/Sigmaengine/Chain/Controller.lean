import Sigmaengine.Chain.Block
import Sigmaengine.Chain.ForkDatabase
import Sigmaengine.Storage.BlockLogIndex

/-!
# The database with its forks

`database.cpp` with what it keeps beside its objects: the undo sessions, the fork database, the block log, the pending
transactions and the `_current_*` counters.  A session keeps the objects as they were when it started, in the order they had
then; chainbase links an object it puts back behind the others of the same date, in the two indices of the token plugin that
are sorted by a date alone, and nothing is said here about that order.  The block log is the list of its blocks
(`BlockLog.readBlockByNum_eq`).
-/

namespace Sigmaengine

open Effect

/-- `operation_object`, without its time and its packed operation. -/
structure OperationObject where
  trxId : Nat
  block : Nat
  trxInBlock : Nat
  opInTrx : Nat
  virtualOp : Nat
deriving DecidableEq

/-- What chainbase keeps, and can put back. -/
structure Objects where
  database : Database
  /-- `operation_index`, in the order of creation. -/
  operations : List OperationObject := []
  /-- The blocks of the main chain.  No index keeps them; they are here for what is said about the chain. -/
  chain : List SignedBlock := []
  /-- A block of the chain threw and could not be undone.  No index keeps this either. -/
  torn : Bool := false

/-- `_current_trx_id` and the counters after it. -/
structure Counters where
  trxId : Nat := 0
  blockNum : Nat := 0
  trxInBlock : Nat := 0
  opInTrx : Nat := 0
  virtualOp : Nat := 0

structure Controller where
  objects : Objects
  counters : Counters := {}
  /-- The objects as they were when the open and pushed sessions started, the last one first. -/
  undoStack : List Objects := []
  revision : Nat := 0
  forkDb : ForkDatabase := {}
  blockLog : List SignedBlock := []
  pendingTx : List SignedTransaction := []
  poppedTx : List SignedTransaction := []
  /-- `_pending_tx_session.valid()`. -/
  pendingTxSession : Bool := false

abbrev ControllerM := Prog Error Controller

def databasePart : Part Controller Database :=
  ⟨fun c => c.objects.database, fun d c => { c with objects := { c.objects with database := d } }, fun _ _ => rfl,
    fun _ => rfl⟩

def forkDbPart : Part Controller ForkDatabase :=
  ⟨Controller.forkDb, fun f c => { c with forkDb := f }, fun _ _ => rfl, fun _ => rfl⟩

def onDatabase {α : Type} (m : ChainM α) : ControllerM α := within databasePart m

def onForkDb {α : Type} (m : ForkDatabase.M α) : ControllerM α := within forkDbPart m

/-- What plugins keep of the operations they are told of.  Of a virtual operation only the number of objects created for
it is of interest. -/
structure Recorder where
  /-- How many objects the plugins create for an operation at a location. -/
  objects : Operation → OperationObject → List OperationObject → Nat
  /-- The virtual operations that the evaluator of an operation pushes. -/
  evaluated : Database → Operation → List Nat
  /-- The virtual operations that are pushed after the transactions of a block. -/
  processed : Database → SignedBlock → List Nat

/-- What signs the blocks of a producer. -/
structure SigningKey where
  publicKey : PublicKey
  sign : SignedBlockHeader → Nat

namespace Controller

def headBlockId (c : Controller) : BlockId := c.objects.database.core.dgp.headBlockId

def headBlockNum (c : Controller) : Nat := c.objects.database.core.dgp.headBlockNumber

def lastIrreversibleBlockNum (c : Controller) : Nat := c.objects.database.core.dgp.lastIrreversibleBlockNum

/-- Do what the destructors do when the body throws. -/
def cleanup {α : Type} (undo : ControllerM Unit) (m : ControllerM α) : ControllerM α := fun c =>
  match m c with
  | .ok a c' => .ok a c'
  | .error e c' => .error e (after (undo c'))

/-! ## Sessions -/

def startUndoSession : ControllerM Unit := modify fun c =>
  { c with undoStack := c.objects :: c.undoStack, revision := c.revision + 1 }

/-- `undo`, which does nothing on an empty stack. -/
def undo : ControllerM Unit := modify fun c =>
  match c.undoStack with
  | [] => c
  | o :: rest => { c with objects := o, undoStack := rest, revision := c.revision - 1 }

/-- `squash`; the last state of the stack goes without a change of the revision. -/
def squash : ControllerM Unit := modify fun c =>
  match c.undoStack with
  | [] => c
  | [_] => { c with undoStack := [] }
  | _ :: rest => { c with undoStack := rest, revision := c.revision - 1 }

/-- `commit`: the sessions up to the revision leave the stack. -/
def commit (revision : Nat) : ControllerM Unit := modify fun c =>
  { c with undoStack := c.undoStack.take (c.revision - revision) }

/-- `undo` for the session of a block that throws: where its session is gone, because the block is irreversible by then, what
the block has done stays. -/
def undoBlock : ControllerM Unit := do
  if (← get).undoStack.isEmpty then modify fun c => { c with objects := { c.objects with torn := true } }
  else undo

/-- `auto temp_session = start_undo_session( true ); …; temp_session.squash();` -/
def inTempSession (m : ControllerM Unit) : ControllerM Unit := do
  startUndoSession
  cleanup undo m
  squash

/-- `_pending_tx_session.reset()`. -/
def resetPendingTxSession : ControllerM Unit := do
  if (← get).pendingTxSession then undo else pure ()
  modify fun c => { c with pendingTxSession := false }

/-! ## Operations and transactions -/

variable (env : Env) (rec : Recorder) (node : Node)

/-- Create the objects of an operation that is at the location of the counters. -/
def notify (virtualOp : Nat) (n : OperationObject → List OperationObject → Nat) : ControllerM Unit := modify fun c =>
  let k := c.counters
  let o : OperationObject := ⟨k.trxId, k.blockNum, k.trxInBlock, k.opInTrx, virtualOp⟩
  { c with objects := { c.objects with
    operations := c.objects.operations ++ List.replicate (n o c.objects.operations) o } }

/-- `push_virtual_operation`. -/
def pushVirtualOperation (n : Nat) : ControllerM Unit := do
  modify fun c => { c with counters := { c.counters with virtualOp := (c.counters.virtualOp + 1) % 65536 } }
  notify (← get).counters.virtualOp fun _ _ => n

/-- `apply_operation`. -/
def applyOperation (op : Operation) : ControllerM Unit := do
  notify 0 (rec.objects op)
  each pushVirtualOperation (rec.evaluated (← get).objects.database op)
  onDatabase (Sigmaengine.applyOperation env node op)

def setCounters (f : Counters → Counters) : ControllerM Unit := modify fun c => { c with counters := f c.counters }

/-- `_apply_transaction`. -/
def applyTransaction (trx : SignedTransaction) : ControllerM Unit := do
  setCounters fun k => { k with trxId := env.codec.transactionId trx, virtualOp := 0 }
  onDatabase (onCore (admitTransaction env node trx))
  setCounters fun k => { k with opInTrx := 0 }
  each (fun op => do
    applyOperation env rec node op
    setCounters fun k => { k with opInTrx := (k.opInTrx + 1) % 65536 }) trx.operations
  setCounters fun k => { k with trxId := 0 }

/-! ## Blocks -/

/-- `_apply_block` up to the transactions; returns the signing bobserver. -/
def beginBlock (b : SignedBlock) : ControllerM Nat := do
  onDatabase (onCore (fcAssert (node.skip.merkleCheck || b.transactionMerkleRoot == b.calculateMerkleRoot env.codec)
    "Merkle check failed"))
  let signing ← onDatabase (onCore (validateBlockHeader env node b))
  setCounters fun k => { k with blockNum := b.blockNum, trxInBlock := 0, virtualOp := 0 }
  onDatabase (onCore do
    let s ← get
    fcAssert (env.codec.blockPackSize b ≤ s.dgp.maximumBlockSize) "Block Size is too Big"
    modify fun s => { s with dgp := { s.dgp with currentBobserver := b.bobserverName } }
    each (processHeaderExtension b.bobserverName) b.extensions
    return signing.1)

/-- The number of the last block of the log. -/
def logHeadNum (c : Controller) : Nat := (c.blockLog.getLast?.map fun b => b.blockNum).getD 0

/-- The next block of the log. -/
def appendToLog (n : Nat) : ControllerM Unit := do
  let c ← get
  let item ← ofOption ((c.forkDb.fetchBlockOnMainBranchByNumber n).bind c.forkDb.item)
    (.assertion "Current fork in the fork database does not contain the last_irreversible_block")
  fcAssert (c.blockLog.length == (item.data.blockNum + 4294967295) % 4294967296)
    "Append to index file occuring at wrong position."
  modify fun c => { c with blockLog := c.blockLog ++ [item.data] }

/-- Output to the block log. -/
def logIrreversible : ControllerM Unit := do
  let c ← get
  if node.skip.blockLog then pure ()
  else each appendToLog (List.range' (c.logHeadNum + 1) (c.lastIrreversibleBlockNum - c.logHeadNum))

/-- `update_last_irreversible_block`, after the number in the database is updated. -/
def settleIrreversible : ControllerM Unit := do
  let c ← get
  commit c.lastIrreversibleBlockNum
  logIrreversible node
  onForkDb (ForkDatabase.setMaxSize ((c.headBlockNum + 4294967296 - c.lastIrreversibleBlockNum + 1) % 4294967296))

/-- `_apply_block` up to the new irreversible number. -/
def applyBlockHead (b : SignedBlock) : ControllerM Unit := do
  let signing ← beginBlock env node b
  each (fun trx => do
    applyTransaction env rec node trx
    setCounters fun k => { k with trxInBlock := (k.trxInBlock + 1) % 65536 }) b.transactions
  setCounters fun k => { k with virtualOp := 0 }
  onDatabase (onCore do
    updateGlobalDynamicData env node b
    updateSigningBobserver signing b
    updateLastIrreversibleBlock)
  modify fun c => { c with objects := { c.objects with chain := c.objects.chain ++ [b] } }

/-- `_apply_block` after `update_last_irreversible_block`. -/
def applyBlockTail (b : SignedBlock) : ControllerM Unit := do
  each pushVirtualOperation (rec.processed (← get).objects.database b)
  onDatabase (Sigmaengine.applyBlockTail env b)

/-- `_apply_block`. -/
def applyBlock (b : SignedBlock) : ControllerM Unit := do
  applyBlockHead env rec node b
  settleIrreversible node
  applyBlockTail env rec b

/-- `apply_block`. -/
def applyCheckpointed (b : SignedBlock) : ControllerM Unit := do
  fcAssert (node.checkpoints.admits env.codec b) "Block did not match checkpoint"
  applyBlock env rec (node.atBlock b.blockNum) b

/-- `fetch_block_by_id`. -/
def fetchBlockById (c : Controller) (id : BlockId) : Option SignedBlock :=
  match (c.forkDb.find id).bind c.forkDb.item with
  | some item => some item.data
  | none => (blockAt c.blockLog id.num).filter fun b => b.id env.codec == id

/-- `fetch_block_by_number`. -/
def fetchBlockByNumber (c : Controller) (n : Nat) : Option SignedBlock :=
  match c.forkDb.fetchBlockByNumber n with
  | [h] => (c.forkDb.item h).map (·.data)
  | _ => blockAt c.blockLog n

/-- `pop_block`. -/
def popBlock : ControllerM Unit := do
  resetPendingTxSession
  let c ← get
  let block ← ofOption (c.fetchBlockById env c.headBlockId) (.assertion "there are no blocks to pop")
  onForkDb ForkDatabase.popBlock
  undo
  modify fun c => { c with poppedTx := block.transactions ++ c.poppedTx }

/-- `while( head_block_id() != previous ) pop_block();`  Each round takes the head of the fork database one item down. -/
def popUntil (previous : BlockId) : ControllerM Unit := do
  let c ← get
  loop .diverged (do
    let c ← get
    if c.headBlockId = previous then pure false
    else do
      popBlock env
      pure true) (c.forkDb.items.length + 2)

/-- `auto session = start_undo_session( true ); apply_block( … ); session.push();` -/
def pushOnHead (b : SignedBlock) : ControllerM Unit := do
  startUndoSession
  cleanup undoBlock (applyCheckpointed env rec node b)

/-- Back to the old branch, after the first of `rest` has failed. -/
def returnToBranch (second rest : List ForkItem) (front : Option Nat) (ancestor : BlockId) : ControllerM Unit := do
  each (fun i => onForkDb (ForkDatabase.remove (i.data.id env.codec))) rest
  onForkDb (ForkDatabase.setHead front)
  popUntil env ancestor
  each (fun i => pushOnHead env rec node i.data) second.reverse

/-- Push all blocks on the new fork. -/
def pushBranch (second : List ForkItem) (front : Option Nat) (ancestor : BlockId) : List ForkItem → ControllerM Unit
  | [] => pure ()
  | i :: rest => fun c =>
    match pushOnHead env rec node i.data c with
    | .ok _ c' => pushBranch second front ancestor rest c'
    | .error e c' => (do
        returnToBranch env rec node second (i :: rest) front ancestor
        throw e) c'

/-- The pointers to the items of the branches are held as long as the switch takes. -/
def switchFork (newHead : ForkItem) : ControllerM Unit := do
  let c ← get
  let branches ← checked (c.forkDb.fetchBranchFrom 4294967296 (newHead.data.id env.codec) c.headBlockId)
  let first := branches.1.filterMap c.forkDb.item
  let second := branches.2.filterMap c.forkDb.item
  let ancestor : BlockId := (second.getLast?.map fun i => i.data.previous).getD {}
  onForkDb (modify fun f => { f with held := branches.1 ++ branches.2 })
  cleanup (onForkDb (modify fun f => { f with held := [] })) do
    popUntil env ancestor
    pushBranch env rec node second branches.2.head? ancestor first.reverse
  onForkDb (modify fun f => { f with held := [] })

def pushNewBlock (b : SignedBlock) : ControllerM Unit :=
  cleanup (onForkDb (ForkDatabase.remove (b.id env.codec))) (pushOnHead env rec node b)

/-- `_push_block`. -/
def pushBlockOnFork (b : SignedBlock) : ControllerM Bool := do
  if node.skip.forkDb then do
    pushNewBlock env rec node b
    return false
  else do
    let head ← onForkDb (ForkDatabase.pushBlock env.codec b)
    let c ← get
    let newHead ← ofOption (head.bind c.forkDb.item) (.assertion "_head")
    if newHead.data.previous ≠ c.headBlockId then
      if c.headBlockNum < newHead.num then do
        switchFork env rec node newHead
        return true
      else return false
    else do
      pushNewBlock env rec node b
      return false

/-! ## Pending transactions -/

/-- `_push_transaction`. -/
def pushPending (trx : SignedTransaction) : ControllerM Unit := do
  if (← get).pendingTxSession then pure ()
  else do
    startUndoSession
    modify fun c => { c with pendingTxSession := true }
  inTempSession do
    applyTransaction env rec node trx
    modify fun c => { c with pendingTx := c.pendingTx ++ [trx] }

/-- `push_transaction`. -/
def pushTransaction (trx : SignedTransaction) : ControllerM Unit := do
  let c ← get
  fcAssert (env.codec.transactionPackSize trx ≤
      (c.objects.database.core.dgp.maximumBlockSize + 4294967296 - 256) % 4294967296)
    "fc::raw::pack_size(trx) <= (get_dynamic_global_properties().maximum_block_size - 256)"
  pushPending env rec { node with isProducing := true } trx

/-- `is_known_transaction`. -/
def isKnownTransaction (c : Controller) (trx : SignedTransaction) : Bool :=
  (c.objects.database.core.transactions.find? fun t => t.trxId == env.codec.transactionId trx).isSome

/-- Push the transactions that are not known; those that are refused are dropped. -/
def restore (trxs : List SignedTransaction) : ControllerM Unit :=
  each (fun trx => do
    if (← get).isKnownTransaction env trx then pure () else attempt (pushPending env rec node trx)) trxs

/-- `without_pending_transactions`. -/
def withoutPendingTransactions {α : Type} (m : ControllerM α) : ControllerM α := do
  let pending := (← get).pendingTx
  modify fun c => { c with pendingTx := [] }
  resetPendingTxSession
  let restorer : ControllerM Unit := do
    restore env rec node (← get).poppedTx
    modify fun c => { c with poppedTx := [] }
    restore env rec node pending
  let a ← cleanup restorer m
  restorer
  return a

/-- `push_block`. -/
def pushBlock (b : SignedBlock) : ControllerM Bool :=
  withoutPendingTransactions env rec node (pushBlockOnFork env rec node b)

/-! ## Production -/

/-- `fc::raw::pack_size( signed_block_header() ) + 4`. -/
def maxBlockHeaderSize : Nat := 115

/-- Apply a pending transaction for the block; it is left out when it throws. -/
def includeTransaction (trx : SignedTransaction) : ControllerM Bool := fun c =>
  match inTempSession (applyTransaction env rec node trx) c with
  | .ok _ c' => .ok true c'
  | .error _ c' => .ok false c'

/-- The pending transactions that go into the block. -/
def assemble (time : TimePointSec) (limit : Nat) : List SignedTransaction → Nat → ControllerM (List SignedTransaction)
  | [], _ => return []
  | trx :: trxs, total =>
    if trx.expiration < time ∨ limit ≤ total + env.codec.transactionPackSize trx then assemble time limit trxs total
    else do
      if ← includeTransaction env rec node trx then do
        let rest ← assemble time limit trxs (total + env.codec.transactionPackSize trx)
        return trx :: rest
      else assemble time limit trxs total

/-- The version and the vote on the next hardfork that the producer's object does not have yet. -/
def headerExtensions (s : Core) (bobserver : BobserverObject) : List HeaderExtension :=
  let hfp := s.hardforkProperty
  let vote (n : Nat) : HeaderExtension := .hardforkVersionVote (hardforkVersion n).1 (hardforkTime n)
  (if bobserver.runningVersion ≠ (hardforkVersion numHardforks).1 then [.version (hardforkVersion numHardforks).1] else []) ++
    if !bobserver.isBproducer then []
    else if hfp.currentHardforkVersion < hardforkVersion numHardforks ∧
        (bobserver.hardforkVersionVote ≠ hardforkVersion (hfp.lastHardfork + 1) ∨
          bobserver.hardforkTimeVote ≠ hardforkTime (hfp.lastHardfork + 1)) then [vote (hfp.lastHardfork + 1)]
    else if hfp.currentHardforkVersion = hardforkVersion numHardforks ∧
        hardforkVersion numHardforks < bobserver.hardforkVersionVote then [vote hfp.lastHardfork]
    else []

/-- `_generate_block` up to the block that it pushes. -/
def proposeBlock (time : TimePointSec) (owner : AccountName) (key : SigningKey) : ControllerM SignedBlock := do
  let c ← get
  let s := c.objects.database.core
  fcAssert (0 < getSlotAtTime s time) "slot_num > 0"
  fcAssert (.ofBytes (getScheduledBobserver s (getSlotAtTime s time)).toBytes == owner)
    "scheduled_bobserver == bobserver_owner"
  let bobserver ← onDatabase (onCore (getBobserver owner))
  fcAssert (node.skip.bobserverSignature || bobserver.2.signingKey == key.publicKey)
    "bobserver_obj.signing_key == block_signing_private_key.get_public_key()"
  resetPendingTxSession
  startUndoSession
  modify fun c => { c with pendingTxSession := true }
  let trxs ← assemble env rec node time s.dgp.maximumBlockSize (← get).pendingTx maxBlockHeaderSize
  resetPendingTxSession
  let c ← get
  let bobserver ← onDatabase (onCore (getBobserver owner))
  let unsigned : SignedBlock :=
    { previous := c.headBlockId, timestamp := time, bobserver := owner.toBytes, transactionMerkleRoot := 0,
      extensions := headerExtensions c.objects.database.core bobserver.2, bobserverSignature := 0, transactions := trxs }
  let rooted := { unsigned with transactionMerkleRoot := unsigned.calculateMerkleRoot env.codec }
  let block := if node.skip.bobserverSignature then rooted
    else { rooted with bobserverSignature := key.sign rooted.toSignedBlockHeader }
  fcAssert (node.skip.blockSizeCheck || env.codec.blockPackSize block ≤ maxBlockSize)
    "fc::raw::pack_size(pending_block) <= SIGMAENGINE_MAX_BLOCK_SIZE"
  return block

/-- `generate_block`. -/
def generateBlock (time : TimePointSec) (owner : AccountName) (key : SigningKey) : ControllerM SignedBlock := do
  let block ← proposeBlock env rec node time owner key
  let _ ← pushBlock env rec node block
  return block

/-! ## Runs -/

inductive Call
  | pushBlock (node : Node) (b : SignedBlock)
  | pushTransaction (node : Node) (trx : SignedTransaction)
  | generateBlock (node : Node) (time : TimePointSec) (owner : AccountName) (key : SigningKey)
  | popBlock

/-- A call runs to its end, whether it returns or throws. -/
def perform : Call → ControllerM Unit
  | .pushBlock node b => do
    let _ ← pushBlock env rec node b
  | .pushTransaction node trx => pushTransaction env rec node trx
  | .generateBlock node time owner key => do
    let _ ← generateBlock env rec node time owner key
  | .popBlock => popBlock env

def step (c : Controller) (call : Call) : Controller := after (perform env rec call c)

/-- A node that starts from genesis. -/
def start (initPublicKey : PublicKey) : Controller := { objects := { database := genesis initPublicKey } }

end Controller

end Sigmaengine
