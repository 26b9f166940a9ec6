import Sigmaengine.Chain.Schedule
import Sigmaengine.Token.Evaluators

/-!
# Applying operations, transactions and blocks

The custom operations with their interpreter, `_apply_transaction` and `_apply_block`.  A block is
applied in two parts, because `update_last_irreversible_block` also writes outside the database
(undo history, block log, fork database): `applyBlockHead` ends with the new irreversible number,
`applyBlockTail` is everything after it.
-/

namespace Sigmaengine

open Effect Table

/-- The plugins whose operations travel inside custom operations. -/
inductive Plugin
  | dapp
  | token
deriving DecidableEq

/-- What a custom operation carries. -/
inductive Payload
  | json (text : Bytes)
  | binary (data : Bytes)

/-- Everything the chain code calls that this development does not look into. -/
structure Env where
  fc : TextRules
  codec : Codec
  fundArithmetic : FundArithmetic
  tokenInterest : Token.TokenInterest
  /-- `get_inner_operation`; `none` when it throws. -/
  decodeDapp : Payload → Option (List Dapp.DappOperation)
  decodeToken : Payload → Option (List Token.TokenOperation)
  /-- The plugins of the node, in the order their handlers were connected. -/
  plugins : List Plugin

variable (env : Env) (node : Node)

/-! ## Custom operations -/

/-- `apply_operations`: validate, compare the authorities with those of the outer operation, then
evaluate in order; the session undoes everything when one of them throws. -/
def applyOperations {ω : Type} (validate : ω → List Check)
    (required : RequiredAuthorities → ω → RequiredAuthorities) (evaluate : ω → ChainM Unit)
    (ops : List ω) (outer : RequiredAuthorities) : ChainM Unit :=
  atomically do
    each (fun op => checked (runChecks (validate op))) ops
    let inner := ops.foldl required {}
    fcAssert (inner.owner == outer.owner) "inner_owner == outer_owner"
    fcAssert (inner.active == outer.active) "inner_active == outer_active"
    fcAssert (inner.posting == outer.posting) "inner_posting == outer_posting"
    fcAssert (inner.other == outer.other) "inner_other == outer_other"
    each evaluate ops

def applyDappPayload (payload : Payload) (outer : RequiredAuthorities) : ChainM Unit := do
  let ops ← ofOption (env.decodeDapp payload) .parse
  applyOperations (Dapp.DappOperation.validate env.fc) Dapp.DappOperation.getRequiredAuthorities
    (Dapp.dappEvaluator env.fc) ops outer

def applyTokenPayload (payload : Payload) (outer : RequiredAuthorities) : ChainM Unit := do
  let ops ← ofOption (env.decodeToken payload) .parse
  applyOperations (Token.TokenOperation.validate env.fc) Token.TokenOperation.getRequiredAuthorities
    (Token.tokenEvaluator env.tokenInterest) ops outer

/-- The interpreter registered under an id; an unknown id is ignored. -/
def interpret (id : Bytes) (payload : Payload) (outer : RequiredAuthorities) : ChainM Unit :=
  if id = ascii ['d', 'a', 'p', 'p'] ∧ Plugin.dapp ∈ env.plugins then
    applyDappPayload env payload outer
  else if id = ascii ['t', 'o', 'k', 'e', 'n'] ∧ Plugin.token ∈ env.plugins then
    applyTokenPayload env payload outer
  else pure ()

/-- `do_apply` of the three custom operations: outside of production an exception is swallowed. -/
def customPayloadEvaluator (op : Operation) (id : Bytes) (payload : Payload) (size : Nat)
    (text : String) : ChainM Unit := do
  fcAssert (!node.isProducing || size ≤ 8192) text
  let outer := op.getRequiredAuthorities {}
  if node.isProducing then interpret env id payload outer
  else attempt (interpret env id payload outer)

/-! ## Operations and transactions -/

/-- `apply_operation`: the evaluator registered for the operation. -/
def applyOperation (op : Operation) : ChainM Unit :=
  match op with
  | .transfer o => onCore (transferEvaluator node o)
  | .accountCreate o => onCore (accountCreateEvaluator o)
  | .accountUpdate o => onCore (accountUpdateEvaluator o)
  | .bobserverUpdate o => onCore (bobserverUpdateEvaluator o)
  | .custom o => onCore (customEvaluator node o)
  | .customJson o =>
    customPayloadEvaluator env node op o.id (.json o.json) o.json.length
      "custom_json_operation json must be less than 8k"
  | .requestAccountRecovery o => onCore (requestAccountRecoveryEvaluator o)
  | .recoverAccount o => onCore (recoverAccountEvaluator o)
  | .changeRecoveryAccount o => onCore (changeRecoveryAccountEvaluator o)
  | .customBinary o =>
    customPayloadEvaluator env node op o.id (.binary o.payload) o.payload.length
      "custom_binary_operation data must be less than 8k"
  | .declineVotingRights o => onCore (declineVotingRightsEvaluator o)
  | .resetAccount _ => throw (.assertion "Reset Account Operation is currently disabled.")
  | .setResetAccount _ => throw (.assertion "Set Reset Account Operation is currently disabled.")
  | .updateBproducer o => onCore (updateBproducerEvaluator o)
  | .exceptBobserver o => onCore (exceptBobserverEvaluator o)
  | .accountAuth o => onCore (accountAuthEvaluator o)
  | .print o => onCore (printEvaluator o)
  | .burn o => onCore (burnEvaluator o)
  | .transferSavings o => onCore (transferSavingsEvaluator node o)
  | .cancelTransferSavings o => onCore (cancelTransferSavingsEvaluator o)
  | .conclusionTransferSavings o => onCore (conclusionTransferSavingsEvaluator o)
  | .stakingFund o => onCore (stakingFundEvaluator env.fundArithmetic o)
  | .conclusionStaking o => onCore (conclusionStakingEvaluator o)
  | .transferFund o => onCore (transferFundEvaluator o)
  | .setFundInterest o => onCore (setFundInterestEvaluator env.fundArithmetic o)
  | .returnStakingFund o => onCore (returnStakingFundEvaluator o)
  | .customJsonDapp o =>
    customPayloadEvaluator env node op o.id (.json o.payload) o.payload.length
      "custom_json_dapp_operation json must be less than 8k"
  | .setBlacklistAccount o => onCore (setBlacklistAccountEvaluator o)
  | .virtual => throw (.assertion "no registered evaluator for this operation")

/-- The getters `_apply_transaction` hands to the authority check; they turn the string into a name. -/
def authorityGetters (s : Core) : AuthorityGetters where
  getActive n := (s.accountAuthorities.find? fun a => a.account == .ofBytes n).map fun r => r.2.active
  getOwner n := (s.accountAuthorities.find? fun a => a.account == .ofBytes n).map fun r => r.2.owner
  getPosting n := (s.accountAuthorities.find? fun a => a.account == .ofBytes n).map fun r => r.2.posting

def checkSignatures (trx : SignedTransaction) : CoreM Unit := do
  let s ← get
  if node.skip.transactionSignatures || node.skip.authorityCheck then pure ()
  else do
    let keys ← checked (trx.getSignatureKeys env.codec)
    let required := trx.operations.foldl (fun r op => op.getRequiredAuthorities r) {}
    checked (verifyAuthority (authorityGetters s) required keys)

/-- TaPoS and expiration, which make no sense before the first block. -/
def checkExpiration (trx : SignedTransaction) : CoreM Unit := do
  let s ← get
  if s.dgp.headBlockNumber = 0 then pure ()
  else do
    fcAssert (node.skip.taposCheck || trx.refBlockPrefix == (s.blockSummaries trx.refBlockNum).word)
      "trx.ref_block_prefix == tapos_block_summary.block_id._hash[1]"
    fcAssert (trx.expiration ≤ addSeconds s.dgp.time maxTimeUntilExpiration)
      "trx.expiration <= now + fc::seconds(SIGMAENGINE_MAX_TIME_UNTIL_EXPIRATION)"
    fcAssert (s.dgp.time < trx.expiration) "now < trx.expiration"

/-- The record that keeps a transaction from being applied twice. -/
def recordTransaction (trx : SignedTransaction) : CoreM Unit :=
  if node.skip.transactionDupeCheck then pure ()
  else do
    let _ ← createIn Index.transactions
      { trxId := env.codec.transactionId trx, expiration := trx.expiration }

/-- Everything `_apply_transaction` does before it evaluates the operations. -/
def admitTransaction (trx : SignedTransaction) : CoreM Unit := do
  checked (if node.skip.validate then .ok () else runChecks (trx.validate env.fc))
  let s ← get
  fcAssert (node.skip.transactionDupeCheck ||
    (s.transactions.find? fun t => t.trxId == env.codec.transactionId trx).isNone)
    "Duplicate transaction check failed"
  checkSignatures env node trx
  checkExpiration node trx
  recordTransaction env node trx

def applyTransaction (trx : SignedTransaction) : ChainM Unit := do
  onCore (admitTransaction env node trx)
  each (applyOperation env node) trx.operations

/-! ## Blocks -/

/-- `validate_block_header`. -/
def validateBlockHeader (b : SignedBlock) : CoreM (Nat × BobserverObject) := do
  let s ← get
  fcAssert (s.dgp.headBlockId == b.previous) "head_block_id() == next_block.previous"
  fcAssert (s.dgp.time < b.timestamp) "head_block_time() < next_block.timestamp"
  let bobserver ← getBobserver b.bobserverName
  fcAssert (node.skip.bobserverSignature ||
    env.codec.signee b.toSignedBlockHeader == some bobserver.2.signingKey)
    "next_block.validate_signee( bobserver.signing_key )"
  let slot := getSlotAtTime s b.timestamp
  fcAssert (node.skip.bobserverScheduleCheck || 0 < slot) "slot_num > 0"
  -- the scheduled name is kept as a `string` before it is compared
  fcAssert (node.skip.bobserverScheduleCheck ||
    bobserver.2.account == .ofBytes (getScheduledBobserver s slot).toBytes) "Bobserver produced block at wrong time"
  return bobserver

def processHeaderExtension (bobserver : AccountName) : HeaderExtension → CoreM Unit
  | .void => pure ()
  | .version v => do
    let b ← getBobserver bobserver
    if v = b.2.runningVersion then pure ()
    else modifyIn Index.bobservers b.1 fun o => .ok { o with runningVersion := v }
  | .hardforkVersionVote v t => do
    let b ← getBobserver bobserver
    -- the vote is compared with its revision and stored without it
    if v = b.2.hardforkVersionVote.1 ∧ t = b.2.hardforkTimeVote then pure ()
    else modifyIn Index.bobservers b.1 fun o =>
      .ok { o with hardforkVersionVote := v.toHardfork, hardforkTimeVote := t }

/-- Charge the slots `1 .. missed` to their bobservers, unless it is the producer of this block. -/
def countMissed (producer : AccountName) : Nat → CoreM Unit
  | 0 => pure ()
  | missed + 1 => do
    countMissed producer missed
    let s ← get
    let b ← getBobserver (getScheduledBobserver s (missed + 1))
    if b.2.account = producer then pure ()
    else modifyIn Index.bobservers b.1 fun o =>
      .ok { o with totalMissed := (o.totalMissed + 1) % 4294967296 }

/-- Shift one slot into the 128-bit participation window. -/
def shiftSlot (filled : Bool) (d : DynamicGlobalPropertyObject) : DynamicGlobalPropertyObject :=
  let out := if 2 ^ 127 ≤ d.recentSlotsFilled then 1 else 0
  let in_ := if filled then 1 else 0
  { d with
    participationCount := (d.participationCount + 256 - out + in_) % 256
    recentSlotsFilled := (d.recentSlotsFilled * 2 + in_) % 2 ^ 128 }

/-- `n` slots: the block's own first, then the missed ones. -/
def shiftSlots : Nat → DynamicGlobalPropertyObject → DynamicGlobalPropertyObject
  | 0, d => d
  | n + 1, d => shiftSlot (n == 0) (shiftSlots n d)

def updateGlobalDynamicData (b : SignedBlock) : CoreM Unit := do
  let s ← get
  let missed :=
    if s.dgp.time = 0 then 0 else (getSlotAtTime s b.timestamp + 4294967295) % 4294967296
  countMissed b.bobserverName missed
  -- `missed_blocks + 1` is again a 32-bit number
  let slots := (missed + 1) % 4294967296
  modify fun s =>
    let d := shiftSlots slots s.dgp
    { s with dgp := { d with
      headBlockNumber := b.blockNum
      headBlockId := b.id env.codec
      time := b.timestamp
      currentAslot := s.dgp.currentAslot + slots } }
  let s ← get
  fcAssert (node.skip.undoHistoryCheck ||
    (s.dgp.headBlockNumber + 4294967296 - s.dgp.lastIrreversibleBlockNum) % 4294967296 < maxUndoHistory)
    "The database does not have enough undo history to support a blockchain with so many missed blocks."

def updateSigningBobserver (signing : Nat) (b : SignedBlock) : CoreM Unit := do
  let s ← get
  modifyIn Index.bobservers signing fun o =>
    .ok { o with
      lastAslot := s.dgp.currentAslot + getSlotAtTime s b.timestamp
      lastConfirmedBlockNum := b.blockNum }

/-- The number three quarters of the scheduled bobservers have confirmed. -/
def confirmedBy (bobservers : List BobserverObject) : Nat :=
  let nums := bobservers.map fun b => b.lastConfirmedBlockNum
  (nums.insertionSort (· ≤ ·)).getD (2500 * nums.length / 10000) 0 % 4294967296

/-- The part of `update_last_irreversible_block` that writes the database. -/
def updateLastIrreversibleBlock : CoreM Unit := do
  let s ← get
  if s.dgp.headBlockNumber < startMinerVotingBlock then
    modify fun s => { s with dgp := { s.dgp with
      lastIrreversibleBlockNum :=
        if numBobservers < s.dgp.headBlockNumber then s.dgp.headBlockNumber - numBobservers
        else s.dgp.lastIrreversibleBlockNum } }
  else do
    let bobservers ← getBobservers (scheduledBobservers s)
    modify fun s => { s with dgp := { s.dgp with
      lastIrreversibleBlockNum := max s.dgp.lastIrreversibleBlockNum (confirmedBy bobservers) } }

def createBlockSummary (b : SignedBlock) : CoreM Unit :=
  modify fun s => { s with
    blockSummaries := fun i => if i = b.blockNum % 65536 then b.id env.codec else s.blockSummaries i }

def TransactionObject.before (a b : Nat × TransactionObject) : Bool :=
  a.2.expiration < b.2.expiration

/-- Drop the transaction that expired first. -/
def clearExpiredTransaction : CoreM Bool := do
  let s ← get
  match s.transactions.least? TransactionObject.before with
  | none => pure false
  | some (id, t) =>
    if t.expiration < s.dgp.time then do
      removeIn Index.transactions id
      pure true
    else pure false

def clearExpiredTransactions : CoreM Unit := do
  let s ← get
  loop .diverged clearExpiredTransaction (s.transactions.rows.length + 1)

/-- The checks on the block itself and the header extensions; returns the signing bobserver. -/
def applyBlockHeader (b : SignedBlock) : CoreM Nat := do
  fcAssert (node.skip.merkleCheck || b.transactionMerkleRoot == b.calculateMerkleRoot env.codec)
    "Merkle check failed"
  let signing ← validateBlockHeader env node b
  let s ← get
  fcAssert (env.codec.blockPackSize b ≤ s.dgp.maximumBlockSize) "Block Size is too Big"
  modify fun s => { s with dgp := { s.dgp with currentBobserver := b.bobserverName } }
  each (processHeaderExtension b.bobserverName) b.extensions
  return signing.1

/-- `_apply_block` up to the new `last_irreversible_block_num`. -/
def applyBlockHead (b : SignedBlock) : ChainM Unit := do
  let signing ← onCore (applyBlockHeader env node b)
  each (applyTransaction env node) b.transactions
  onCore do
    updateGlobalDynamicData env node b
    updateSigningBobserver signing b
    updateLastIrreversibleBlock

/-- The per-block routines on the chain's own objects. -/
def postProcess : CoreM Unit := do
  clearNullAccountBalance
  processFunds
  processSavingsWithdraws
  processFundWithdraws
  accountRecoveryProcessing

/-- The handlers of `applied_block`: an exception stops the remaining ones and is swallowed. -/
def notifyAppliedBlock : ChainM Unit :=
  attempt (each (fun p =>
    match p with
    | .dapp => Dapp.onApplyBlock
    | .token => Token.onApplyBlock) env.plugins)

/-- The steps between `update_last_irreversible_block` and the per-block routines. -/
def prepareBlock (b : SignedBlock) : CoreM Unit := do
  createBlockSummary env b
  clearExpiredTransactions
  updateBobserverSchedule

/-- `_apply_block` after `update_last_irreversible_block`. -/
def applyBlockTail (b : SignedBlock) : ChainM Unit := do
  onCore do
    prepareBlock env b
    postProcess
    processHardforks
  notifyAppliedBlock env

/-- `_apply_block`, as far as the database goes. -/
def applyBlock (b : SignedBlock) : ChainM Unit := do
  applyBlockHead env node b
  applyBlockTail env b

/-! ## Checkpoints -/

/-- The flags that `apply_block` sets up to the last checkpoint. -/
def checkpointFlags : SkipFlags where
  bobserverSignature := true
  transactionSignatures := true
  transactionDupeCheck := true
  forkDb := true
  blockSizeCheck := true
  taposCheck := true
  authorityCheck := true
  undoHistoryCheck := true
  bobserverScheduleCheck := true
  validate := true

/-- The number of the last checkpoint; where that is for the null id, no checkpoint counts. -/
def Checkpoints.last (cs : Checkpoints) : Option Nat :=
  (cs.entries.getLast?.filter fun c => c.2 != {}).map Prod.fst

/-- The checkpoint for the number of the block, if there is one, is for this block. -/
def Checkpoints.admits (cs : Checkpoints) (cd : Codec) (b : SignedBlock) : Bool :=
  cs.last.isNone || (cs.entries.find? fun c => c.1 == b.blockNum).all fun c => b.id cd == c.2

/-- The node with the flags that a block of this number is applied with. -/
def Node.atBlock (node : Node) (num : Nat) : Node :=
  if node.checkpoints.last.any fun last => num ≤ last then { node with skip := checkpointFlags } else node

/-- `apply_block`: `_apply_block` as the checkpoints of the node have it. -/
def applyCheckpointed (b : SignedBlock) : ChainM Unit := do
  onCore (fcAssert (node.checkpoints.admits env.codec b) "Block did not match checkpoint")
  applyBlock env (node.atBlock b.blockNum) b

/-! ## Genesis -/

/-- A `uint64_t` stored as `int64_t`. -/
def toInt64Bits (n : Nat) : Int := Int.bmod n 18446744073709551616

/-- `-1.0`. -/
def minusOne : Double := 0xbff0000000000000

/-- The accounts genesis creates; the last one gets the initial supply. -/
def genesisAccounts (initPublicKey : PublicKey) (supply : Nat) : List AccountObject :=
  [{ name := minerAccount }, { name := nullAccount }, { name := tempAccount },
    { name := initMinerName, memoKey := initPublicKey, balance := toInt64Bits supply }]

/-- The one common fund. -/
def depositFund : CommonFundObject :=
  { name := .ofBytes depositFundName, percentInterest := fun _ _ => minusOne, lastUpdate := genesisTime }

/-- `init_genesis`. -/
def initGenesis (initPublicKey : PublicKey) (supply : Nat) : Database where
  core :=
    { accounts := Table.ofList (genesisAccounts initPublicKey supply)
      accountAuthorities := Table.ofList
        [{ account := minerAccount, owner := { weightThreshold := 1 }, active := { weightThreshold := 1 } },
          { account := nullAccount, owner := { weightThreshold := 1 }, active := { weightThreshold := 1 } },
          { account := tempAccount },
          { account := initMinerName, owner := .ofKey initPublicKey, active := .ofKey initPublicKey,
            posting := .ofKey initPublicKey }]
      ownerAuthorityHistory := Table.empty
      accountRecoveryRequests := Table.empty
      changeRecoveryAccountRequests := Table.empty
      declineVotingRightsRequests := Table.empty
      accountAuths := Table.empty
      savingsWithdraws := Table.empty
      fundWithdraws := Table.empty
      commonFunds := Table.ofList [depositFund]
      dappRewardFund := { lastUpdate := genesisTime }
      bobservers := Table.ofList [{ account := initMinerName, signingKey := initPublicKey }]
      bobserverSchedule :=
        { currentShuffledBobservers := initMinerName :: List.replicate (numBobservers - 1) default }
      hardforkProperty := { processedHardforks := [genesisTime] }
      transactions := Table.empty
      blockSummaries := fun _ => {}
      dgp :=
        { currentBobserver := initMinerName, time := genesisTime,
          recentSlotsFilled := 2 ^ 128 - 1, participationCount := 128,
          currentSupply := toInt64Bits supply, maximumBlockSize := maxBlockSize } }
  dapp :=
    { dapps := Table.empty, comments := Table.empty, commentVotes := Table.empty,
      users := Table.empty, votes := Table.empty }
  feeVotes := Table.empty
  dappTransactionFeeSymbol := sgtSymbol
  token :=
    { tokens := Table.empty, balances := Table.empty, funds := Table.empty,
      stakingInterests := Table.empty, fundWithdraws := Table.empty,
      savingsWithdraws := Table.empty, bySavingsNextDate := [] }

/-- The state every chain starts from. -/
def genesis (initPublicKey : PublicKey) : Database := initGenesis initPublicKey initSupply

end Sigmaengine
