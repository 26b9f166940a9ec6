import Sigmaengine.Chain.Objects

/-!
# The database: lookups and adjustments

The accessors of `database.cpp` that evaluators and block processing share: lookups that throw when
nothing is found, and the `adjust_*` functions, each of which adds one checked amount to one field.
-/

namespace Sigmaengine

open Effect Table

/-- Programs on the chain's own indices. -/
abbrev CoreM (α : Type) := Prog Error Core α

/-! ## The indices as parts of the state -/

namespace Index

def accounts : Part Core (Table AccountObject) :=
  ⟨Core.accounts, fun t s => { s with accounts := t }, fun _ _ => rfl, fun _ => rfl⟩

def accountAuthorities : Part Core (Table AccountAuthorityObject) :=
  ⟨Core.accountAuthorities, fun t s => { s with accountAuthorities := t }, fun _ _ => rfl, fun _ => rfl⟩

def ownerAuthorityHistory : Part Core (Table OwnerAuthorityHistoryObject) :=
  ⟨Core.ownerAuthorityHistory, fun t s => { s with ownerAuthorityHistory := t }, fun _ _ => rfl,
    fun _ => rfl⟩

def accountRecoveryRequests : Part Core (Table AccountRecoveryRequestObject) :=
  ⟨Core.accountRecoveryRequests, fun t s => { s with accountRecoveryRequests := t }, fun _ _ => rfl,
    fun _ => rfl⟩

def changeRecoveryAccountRequests : Part Core (Table ChangeRecoveryAccountRequestObject) :=
  ⟨Core.changeRecoveryAccountRequests, fun t s => { s with changeRecoveryAccountRequests := t },
    fun _ _ => rfl, fun _ => rfl⟩

def declineVotingRightsRequests : Part Core (Table DeclineVotingRightsRequestObject) :=
  ⟨Core.declineVotingRightsRequests, fun t s => { s with declineVotingRightsRequests := t },
    fun _ _ => rfl, fun _ => rfl⟩

def accountAuths : Part Core (Table AccountAuthObject) :=
  ⟨Core.accountAuths, fun t s => { s with accountAuths := t }, fun _ _ => rfl, fun _ => rfl⟩

def savingsWithdraws : Part Core (Table SavingsWithdrawObject) :=
  ⟨Core.savingsWithdraws, fun t s => { s with savingsWithdraws := t }, fun _ _ => rfl, fun _ => rfl⟩

def fundWithdraws : Part Core (Table FundWithdrawObject) :=
  ⟨Core.fundWithdraws, fun t s => { s with fundWithdraws := t }, fun _ _ => rfl, fun _ => rfl⟩

def commonFunds : Part Core (Table CommonFundObject) :=
  ⟨Core.commonFunds, fun t s => { s with commonFunds := t }, fun _ _ => rfl, fun _ => rfl⟩

def dappRewardFund : Part Core DappRewardFundObject :=
  ⟨Core.dappRewardFund, fun t s => { s with dappRewardFund := t }, fun _ _ => rfl, fun _ => rfl⟩

def bobservers : Part Core (Table BobserverObject) :=
  ⟨Core.bobservers, fun t s => { s with bobservers := t }, fun _ _ => rfl, fun _ => rfl⟩

def bobserverSchedule : Part Core BobserverScheduleObject :=
  ⟨Core.bobserverSchedule, fun t s => { s with bobserverSchedule := t }, fun _ _ => rfl, fun _ => rfl⟩

def hardforkProperty : Part Core HardforkPropertyObject :=
  ⟨Core.hardforkProperty, fun t s => { s with hardforkProperty := t }, fun _ _ => rfl, fun _ => rfl⟩

def transactions : Part Core (Table TransactionObject) :=
  ⟨Core.transactions, fun t s => { s with transactions := t }, fun _ _ => rfl, fun _ => rfl⟩

def blockSummaries : Part Core (Nat → BlockId) :=
  ⟨Core.blockSummaries, fun t s => { s with blockSummaries := t }, fun _ _ => rfl, fun _ => rfl⟩

def dgp : Part Core DynamicGlobalPropertyObject :=
  ⟨Core.dgp, fun t s => { s with dgp := t }, fun _ _ => rfl, fun _ => rfl⟩

end Index

/-! ## Node settings -/

/-- `validation_steps`, one field per flag; unset by default. -/
structure SkipFlags where
  bobserverSignature : Bool := false
  transactionSignatures : Bool := false
  transactionDupeCheck : Bool := false
  forkDb : Bool := false
  blockSizeCheck : Bool := false
  taposCheck : Bool := false
  authorityCheck : Bool := false
  merkleCheck : Bool := false
  undoHistoryCheck : Bool := false
  bobserverScheduleCheck : Bool := false
  validate : Bool := false
  blockLog : Bool := false

/-- `_checkpoints`: block ids by number. -/
structure Checkpoints where
  entries : List (Nat × BlockId)
  sorted : entries.Pairwise fun a b => a.1 < b.1

instance : Inhabited Checkpoints := ⟨⟨[], .nil⟩⟩

/-- What is local to a node: its flags, its `_black_list`, whether it is producing, and its checkpoints. -/
structure Node where
  skip : SkipFlags := {}
  blackList : List Bytes := []
  isProducing : Bool := false
  checkpoints : Checkpoints := default

def Node.isBlacklist (node : Node) (account : AccountName) : Bool :=
  node.blackList.any fun b => FixedString.ofBytes b == account

/-! ## Lookups -/

def headBlockTime : CoreM TimePointSec := return (← get).dgp.time

def headBlockNum : CoreM Nat := return (← get).dgp.headBlockNumber

def getAccount (name : AccountName) : CoreM (Nat × AccountObject) :=
  getIn Index.accounts fun a => a.name == name

/-- The account objects of a list of names all exist. -/
def getAccounts (names : List AccountName) : CoreM Unit :=
  each (fun n => do let _ ← getAccount n) names

def getBobserver (name : AccountName) : CoreM (Nat × BobserverObject) :=
  getIn Index.bobservers fun b => b.account == name

def getAccountAuthority (name : AccountName) : CoreM (Nat × AccountAuthorityObject) :=
  getIn Index.accountAuthorities fun a => a.account == name

def getSavingsWithdraw (owner : AccountName) (requestId : Nat) : CoreM (Nat × SavingsWithdrawObject) :=
  getIn Index.savingsWithdraws fun s => s.from_ == owner && s.requestId == requestId

/-- The fund name is compared as a C string. -/
def getFundWithdraw (owner : AccountName) (fundName : Bytes) (requestId : Nat) :
    CoreM (Nat × FundWithdrawObject) :=
  getIn Index.fundWithdraws fun f =>
    f.from_ == owner && cStr f.fundName == cStr fundName && f.requestId == requestId

/-- A fund is looked up by the first sixteen bytes of the name. -/
def getCommonFund (name : Bytes) : CoreM (Nat × CommonFundObject) :=
  getIn Index.commonFunds fun f => f.name == FixedString.ofBytes name

def getBalance (a : AccountObject) (symbol : AssetSymbol) : Except Error Asset :=
  if symbol = sgtSymbol then .ok ⟨a.balance, sgtSymbol⟩ else .error (.assertion "invalid symbol")

/-- The account with the given name has at least `amount`: the guard most debits start with. -/
def requireBalance (a : AccountObject) (amount : Asset) (text : String) : CoreM Unit := do
  let balance ← checked (getBalance a amount.symbol)
  let enough ← checked (balance.ge amount)
  fcAssert enough text

/-! ## Adjustments -/

/-- An amount of `SGT_SYMBOL`. -/
def sgt (amount : Int) : Asset := ⟨amount, sgtSymbol⟩

/-- Add `delta` to a field that holds `SGT_SYMBOL`, as the `switch` of every `adjust_*` does. -/
def adjust (field : Int) (delta : Asset) : Except Error Int :=
  if delta.symbol = sgtSymbol then safeAdd field delta.amount else .error (.assertion "invalid symbol")

def adjustBalance (account : Nat) (delta : Asset) : CoreM Unit :=
  modifyIn Index.accounts account fun a =>
    (adjust a.balance delta).map fun n => { a with balance := n }

def adjustSavingsBalance (account : Nat) (delta : Asset) : CoreM Unit :=
  modifyIn Index.accounts account fun a =>
    (adjust a.savingsBalance delta).map fun n => { a with savingsBalance := n }

def adjustFundBalance (name : Bytes) (delta : Asset) : CoreM Unit := do
  let fund ← getCommonFund name
  modifyIn Index.commonFunds fund.1 fun f =>
    (adjust f.fundBalance delta).map fun n => { f with fundBalance := n }

def adjustFundWithdrawBalance (name : Bytes) (delta : Asset) : CoreM Unit := do
  let fund ← getCommonFund name
  modifyIn Index.commonFunds fund.1 fun f =>
    (adjust f.fundWithdrawReady delta).map fun n => { f with fundWithdrawReady := n }

def adjustDappRewardFundBalance (delta : Asset) : CoreM Unit := do
  let s ← get
  let n ← checked (adjust s.dappRewardFund.fundBalance delta)
  modify fun s => { s with dappRewardFund := { fundBalance := n, lastUpdate := s.dgp.time } }

/-- The `assert` on the sign is compiled out of a release build. -/
def adjustSupply (delta : Asset) : CoreM Unit := do
  let s ← get
  let n ← checked (adjust s.dgp.currentSupply delta)
  modify fun s => { s with dgp := { s.dgp with currentSupply := n } }

theorem adjust_eq_ok {field n : Int} {delta : Asset} (h : adjust field delta = .ok n) :
    delta.symbol = sgtSymbol ∧ safeAdd field delta.amount = .ok n := by
  unfold adjust at h
  split at h
  · exact ⟨‹_›, h⟩
  · cases h

/-! ## Per-block routines -/

/-- Take a positive balance off the null account and add it to the total to be burnt. -/
def takeNullBalance (null : Nat × AccountObject) (total : Int) : CoreM Int :=
  if 0 < null.2.balance then do
    let total ← checked (safeAdd total null.2.balance)
    let delta ← checked (sgt null.2.balance).neg
    adjustBalance null.1 delta
    return total
  else pure total

/-- The same for its savings. -/
def takeNullSavings (null : Nat × AccountObject) (total : Int) : CoreM Int :=
  if 0 < null.2.savingsBalance then do
    let total ← checked (safeAdd total null.2.savingsBalance)
    let delta ← checked (sgt null.2.savingsBalance).neg
    adjustSavingsBalance null.1 delta
    return total
  else pure total

def clearNullAccountBalance : CoreM Unit := do
  let null ← getAccount nullAccount
  let total ← takeNullBalance null 0
  let total ← takeNullSavings null total
  if 0 < total then do
    let delta ← checked (sgt total).neg
    adjustSupply delta
  else pure ()

/-- The account a bobserver is rewarded on. -/
def rewardAccount (b : BobserverObject) : AccountName :=
  if b.bpOwner.size = 0 then b.account
  else if b.isBproducer then b.bpOwner
  else b.account

def processFunds : CoreM Unit := do
  let props := (← get).dgp
  let bobserver ← getBobserver props.currentBobserver
  let account ← getAccount (rewardAccount bobserver.2)
  let reward := (← get).dappRewardFund.fundBalance
  if 0 < reward then do
    let delta ← checked (sgt reward).neg
    adjustDappRewardFundBalance delta
    adjustBalance account.1 (sgt reward)
  else pure ()

/-- Pay `amount` of an account's savings out to its balance, after checking that they suffice. -/
def paySavings (account : Nat × AccountObject) (amount : Int) : CoreM Unit := do
  fcAssert (amount ≤ account.2.savingsBalance) "savings_balance >= amount"
  adjustBalance account.1 (sgt amount)
  let delta ← checked (sgt amount).neg
  adjustSavingsBalance account.1 delta

/-- The schedule after one more instalment. -/
def nextInstalment (w : SavingsWithdrawObject) (rest : Int) : SavingsWithdrawObject :=
  { w with
    amount := rest
    splitPayOrder := w.splitPayOrder + 1
    complete := addSeconds w.complete transferSavingsCycle }

/-- The front of `by_complete_from_rid`, where `idx.begin()` points. -/
def frontOf (t : Table SavingsWithdrawObject) : Option Nat := (t.least? SavingsWithdrawObject.before).map Prod.fst

def firstSavingsWithdraw : CoreM (Option Nat) := do
  let s ← get
  return frontOf s.savingsWithdraws

/-- The last payment of a schedule: whatever is still unpaid. -/
def payFinal (id : Nat) (w : SavingsWithdrawObject) : CoreM (Option Nat) := do
  let to_ ← getAccount w.to_
  paySavings to_ w.amount
  removeIn Index.savingsWithdraws id
  firstSavingsWithdraw

/-- An earlier payment: a fixed part of the total, and a new object for the next month.  The iterator has gone
back to the front before the new object is there. -/
def payInstalment (id : Nat) (w : SavingsWithdrawObject) : CoreM (Option Nat) := do
  let to_ ← getAccount w.to_
  let monthly ← checked (safeDiv w.totalAmount w.splitPayMonth.toNat)
  paySavings to_ monthly
  removeIn Index.savingsWithdraws id
  let next ← firstSavingsWithdraw
  let rest ← checked (safeSub w.amount monthly)
  let _ ← createIn Index.savingsWithdraws (nextInstalment w rest)
  return next

/-- One round of `process_savings_withdraws`, at the object `id`; the answer is where the iterator goes on. -/
def processSavingsWithdraw (id : Nat) : CoreM (Option Nat) := do
  let s ← get
  let w ← ofOption (s.savingsWithdraws.lookup id) .notFound
  if s.dgp.time < w.complete then pure none
  else if w.splitPayOrder = w.splitPayMonth then payFinal id w
  else payInstalment id w

/-- Every schedule comes up at most 256 times: its order is a byte that runs up to its month. -/
def processSavingsWithdraws : CoreM Unit := do
  let s ← get
  let first ← firstSavingsWithdraw
  follow .diverged processSavingsWithdraw (256 * s.savingsWithdraws.rows.length + 1) first

/-- Pay a stake out of its fund. -/
def payFundWithdraw (id : Nat) (w : FundWithdrawObject) : CoreM Unit := do
  let account ← getAccount w.from_
  adjustBalance account.1 (sgt w.amount)
  let delta ← checked (sgt w.amount).neg
  adjustFundBalance w.fundName delta
  adjustFundWithdrawBalance w.fundName delta
  removeIn Index.fundWithdraws id

/-- One round of `process_fund_withdraws`; a fund that lacks balance ends the whole routine. -/
def processFundWithdraw : CoreM Bool := do
  let s ← get
  match s.fundWithdraws.least? FundWithdrawObject.before with
  | none => pure false
  | some (id, w) =>
    if s.dgp.time < w.complete then pure false
    else do
      let fund ← getCommonFund w.fundName
      if fund.2.fundBalance < w.amount then pure false
      else do
        payFundWithdraw id w
        pure true

def processFundWithdraws : CoreM Unit := do
  let s ← get
  loop .diverged processFundWithdraw (s.fundWithdraws.rows.length + 1)

/-- The orders of `by_expiration` and `by_effective_date`. -/
def AccountRecoveryRequestObject.before (a b : Nat × AccountRecoveryRequestObject) : Bool :=
  a.2.expires < b.2.expires

def ChangeRecoveryAccountRequestObject.before (a b : Nat × ChangeRecoveryAccountRequestObject) : Bool :=
  a.2.effectiveOn < b.2.effectiveOn

/-- Drop the first recovery request when it has expired. -/
def clearRecoveryRequest : CoreM Bool := do
  let s ← get
  match s.accountRecoveryRequests.least? AccountRecoveryRequestObject.before with
  | none => pure false
  | some (id, r) =>
    if r.expires ≤ s.dgp.time then do
      removeIn Index.accountRecoveryRequests id
      pure true
    else pure false

/-- Drop the oldest owner authority when it is out of the recovery period. -/
def clearOwnerHistory : CoreM Bool := do
  let s ← get
  match s.ownerAuthorityHistory.rows.head? with
  | none => pure false
  | some (id, h) =>
    if addSeconds h.lastValidTime ownerAuthRecoveryPeriod < s.dgp.time then do
      removeIn Index.ownerAuthorityHistory id
      pure true
    else pure false

/-- Apply the first change of a recovery account that has come into effect. -/
def applyRecoveryChange : CoreM Bool := do
  let s ← get
  match s.changeRecoveryAccountRequests.least? ChangeRecoveryAccountRequestObject.before with
  | none => pure false
  | some (id, r) =>
    if r.effectiveOn ≤ s.dgp.time then do
      let account ← getAccount r.accountToRecover
      modifyIn Index.accounts account.1 fun a => .ok { a with recoveryAccount := r.recoveryAccount }
      removeIn Index.changeRecoveryAccountRequests id
      pure true
    else pure false

def accountRecoveryProcessing : CoreM Unit := do
  let s ← get
  loop .diverged clearRecoveryRequest (s.accountRecoveryRequests.rows.length + 1)
  loop .diverged clearOwnerHistory (s.ownerAuthorityHistory.rows.length + 1)
  loop .diverged applyRecoveryChange (s.changeRecoveryAccountRequests.rows.length + 1)

/-! ## Supply audit -/

/-- `get_total_supply`: the checked sum over accounts and common funds. -/
def getTotalSupply (s : Core) : Except Error Int := do
  let total ← s.accounts.rows.foldl (fun acc r => do
    let n ← acc
    let n ← safeAdd n r.2.balance
    safeAdd n r.2.savingsBalance) (.ok 0)
  s.commonFunds.rows.foldl (fun acc r => do
    let n ← acc
    safeAdd n r.2.fundBalance) (.ok total)

/-- `validate_invariants`. -/
def validateInvariants : CoreM Unit := do
  let s ← get
  let total ← checked (getTotalSupply s)
  fcAssert (s.dgp.currentSupply == total) "gpo.current_supply == total_supply"

end Sigmaengine
