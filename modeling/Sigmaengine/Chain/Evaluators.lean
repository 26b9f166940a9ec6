import Sigmaengine.Chain.Database

/-!
# Core evaluators

One definition per `do_apply` of `sigmaengine_evaluator.cpp`, apart from the custom operations, which
run plugin code and come with the interpreter.
-/

namespace Sigmaengine

open Effect Table

variable (node : Node)

/-- The double arithmetic of the staking fund. -/
structure FundArithmetic where
  /-- `fc::to_double`. -/
  toDouble : Bytes → Option Double
  /-- `percent_interest > -1.0`. -/
  aboveMinusOne : Double → Bool
  /-- `asset((amount * percent_interest)/100.0, SGT_SYMBOL)`: the conversion to `int64_t` included. -/
  interest : Int → Double → Int64

variable (fa : FundArithmetic)

/-! ## Root operations -/

/-- The operation names the root account, under the same memo key where that is compared. -/
def requireRoot (root : AccountName) (compareKey : Bool) : CoreM Unit := do
  let origin ← getAccount rootAccount
  let bypass ← getAccount root
  fcAssert (origin.2.name == bypass.2.name) "origin.name == bypass.name"
  fcAssert (!compareKey || origin.2.memoKey == bypass.2.memoKey) "origin.memo_key == bypass.memo_key"

def bobserverUpdateEvaluator (o : BobserverUpdateOperation) : CoreM Unit := do
  requireRoot o.root false
  let _ ← getAccount o.owner
  fcAssert (o.url.length ≤ maxBobserverUrlLength) "URL is too long"
  let found ← findIn Index.bobservers fun b => b.account == o.owner
  match found with
  | some (id, _) =>
    modifyIn Index.bobservers id fun b =>
      .ok { b with url := o.url, signingKey := o.blockSigningKey, isExcepted := false }
  | none => do
    let now ← headBlockTime
    let _ ← createIn Index.bobservers
      { account := o.owner, bpOwner := o.owner, url := o.url, signingKey := o.blockSigningKey,
        created := now, isExcepted := false }

def updateBproducerEvaluator (o : UpdateBproducerOperation) : CoreM Unit := do
  requireRoot o.root false
  let bobserver ← getBobserver o.bobserver
  fcAssert (!bobserver.2.isExcepted) "excepted bobserver !!!!"
  let s ← get
  fcAssert (!o.approve || s.dgp.currentBproducerCount < maxVotedBobservers) "max bproducer !!!!"
  if o.approve = bobserver.2.isBproducer then pure ()
  else do
    modifyIn Index.bobservers bobserver.1 fun b => .ok { b with isBproducer := o.approve }
    modify fun s => { s with dgp := { s.dgp with
      currentBproducerCount :=
        if o.approve then (s.dgp.currentBproducerCount + 1) % 4294967296
        else (s.dgp.currentBproducerCount + 4294967295) % 4294967296 } }

def exceptBobserverEvaluator (o : ExceptBobserverOperation) : CoreM Unit := do
  requireRoot o.root false
  let bobserver ← getBobserver o.bobserver
  fcAssert (!bobserver.2.isBproducer) "itr->is_bproducer == false"
  modifyIn Index.bobservers bobserver.1 fun b => .ok { b with isExcepted := true }

def setBlacklistAccountEvaluator (o : SetBlacklistAccountOperation) : CoreM Unit := do
  requireRoot o.root true
  let account ← getAccount o.account
  if account.2.banned = o.banned then pure ()
  else modifyIn Index.accounts account.1 fun a => .ok { a with banned := o.banned }

/-- The entry `[usertype][month]` of an interest table, replaced. -/
def setInterest (table : Nat → Nat → Double) (usertype month : Nat) (d : Double) :
    Nat → Nat → Double :=
  fun u m => if u = usertype ∧ m = month then d else table u m

def setFundInterestEvaluator (o : SetFundInterestOperation) : CoreM Unit := do
  requireRoot o.root true
  let fund ← getCommonFund o.fundName
  let now ← headBlockTime
  let d ← ofOption (fa.toDouble o.percentInterest) .parse
  modifyIn Index.commonFunds fund.1 fun f =>
    .ok { f with
      percentInterest := setInterest f.percentInterest o.usertype.toNat (o.month - 1).toNat d
      lastUpdate := now }

def printEvaluator (o : SupplyOperation) : CoreM Unit := do
  requireRoot o.root true
  let account ← getAccount o.account
  adjustBalance account.1 o.amount
  adjustSupply o.amount

def burnEvaluator (o : SupplyOperation) : CoreM Unit := do
  requireRoot o.root true
  let account ← getAccount o.account
  let delta ← checked o.amount.neg
  adjustBalance account.1 delta
  adjustSupply delta

/-! ## Accounts and authorities -/

/-- Every account an authority refers to exists. -/
def checkAuthorityAccounts (a : Authority) : CoreM Unit := getAccounts (a.accountAuths.map Prod.fst)

def accountCreateEvaluator (o : AccountCreateOperation) : CoreM Unit := do
  checkAuthorityAccounts o.owner
  checkAuthorityAccounts o.active
  checkAuthorityAccounts o.posting
  let now ← headBlockTime
  let _ ← createIn Index.accounts
    { name := o.newAccountName, memoKey := o.memoKey, created := now, mined := false,
      recoveryAccount := o.creator, jsonMetadata := o.jsonMetadata }
  let _ ← createIn Index.accountAuthorities
    { account := o.newAccountName, owner := o.owner, active := o.active, posting := o.posting }

/-- `update_owner_authority`: the old owner authority goes to the history. -/
def updateOwnerAuthority (account : AccountName) (owner : Authority) : CoreM Unit := do
  let now ← headBlockTime
  let old ← getAccountAuthority account
  let _ ← createIn Index.ownerAuthorityHistory
    { account := account, previousOwnerAuthority := old.2.owner, lastValidTime := now }
  modifyIn Index.accountAuthorities old.1 fun a => .ok { a with owner := owner, lastOwnerUpdate := now }

def hasHardfork (hardfork : Nat) : CoreM Bool :=
  return hardfork < (← get).hardforkProperty.processedHardforks.length

/-- `SIGMAENGINE_HARDFORK_0_1`. -/
def hardfork01 : Nat := 1

/-- The owner part of an account update. -/
def updateOwner (account : AccountName) (auth : AccountAuthorityObject) :
    Option Authority → CoreM Unit
  | none => pure ()
  | some owner => do
    let now ← headBlockTime
    fcAssert (auth.lastOwnerUpdate + ownerUpdateLimit < now)
      "Owner authority can only be updated once an hour."
    checkAuthorityAccounts owner
    updateOwnerAuthority account owner

def checkOptionalAuthority : Option Authority → CoreM Unit
  | none => pure ()
  | some a => checkAuthorityAccounts a

def accountUpdateEvaluator (o : AccountUpdateOperation) : CoreM Unit := do
  let forked ← hasHardfork hardfork01
  fcAssert (!forked || o.account ≠ tempAccount) "Cannot update temp account."
  checked (runChecks (o.posting.map validateAuthority).toList)
  let account ← getAccount o.account
  let auth ← getAccountAuthority o.account
  updateOwner account.2.name auth.2 o.owner
  checkOptionalAuthority o.active
  checkOptionalAuthority o.posting
  let now ← headBlockTime
  modifyIn Index.accounts account.1 fun a =>
    .ok { a with
      memoKey := if o.memoKey = {} then a.memoKey else o.memoKey
      lastAccountUpdate := now
      jsonMetadata := if o.jsonMetadata.isEmpty then a.jsonMetadata else o.jsonMetadata }
  if o.active.isSome || o.posting.isSome then
    modifyIn Index.accountAuthorities auth.1 fun a =>
      .ok { a with active := o.active.getD a.active, posting := o.posting.getD a.posting }
  else pure ()

def accountAuthEvaluator (o : AccountAuthOperation) : CoreM Unit := do
  let _ ← getAccount o.account
  let now ← headBlockTime
  let found ← findIn Index.accountAuths fun a =>
    a.account == o.account && cStr a.authType == cStr o.authType
  match found with
  | none => do
    let _ ← createIn Index.accountAuths
      { account := o.account, authType := o.authType, authToken := o.authToken,
        regDate := addSeconds now 32400 }
  | some (id, _) =>
    modifyIn Index.accountAuths id fun a =>
      .ok { a with authToken := o.authToken, regDate := addSeconds now 32400 }

/-- `custom_operation` only carries data. -/
def customEvaluator (o : CustomOperation) : CoreM Unit :=
  fcAssert (!node.isProducing || o.data.length ≤ 8192) "custom_operation data must be less than 8k"

/-- The order of `by_vote_name`: most votes first, then by name. -/
def BobserverObject.byVoteName (a b : Nat × BobserverObject) : Bool :=
  b.2.votes < a.2.votes || b.2.votes == a.2.votes && a.2.account.lt b.2.account

/-- A new or changed request carries an authority that can be satisfied and whose accounts exist. -/
def checkRecoveryAuthority (a : Authority) : CoreM Unit := do
  fcAssert (!a.isImpossible) "Cannot recover using an impossible authority."
  checkAuthorityAccounts a

/-- An account without a recovery account is recovered by the top bobserver. -/
def checkRecoveryPartner (account : AccountObject) (partner : AccountName) : CoreM Unit := do
  let s ← get
  if account.recoveryAccount.size ≠ 0 then
    fcAssert (account.recoveryAccount == partner)
      "Cannot recover an account that does not have you as there recovery partner."
  else
    fcAssert ((s.bobservers.least? BobserverObject.byVoteName).map (fun r => r.2.account) ==
        some partner) "Top bobserver must recover an account with no recovery partner."

def requestAccountRecoveryEvaluator (o : RequestAccountRecoveryOperation) : CoreM Unit := do
  let account ← getAccount o.accountToRecover
  checkRecoveryPartner account.2 o.recoveryAccount
  let s ← get
  let expires := addSeconds s.dgp.time accountRecoveryRequestExpirationPeriod
  let found ← findIn Index.accountRecoveryRequests fun r => r.accountToRecover == o.accountToRecover
  match found with
  | none => do
    fcAssert (!o.newOwnerAuthority.isImpossible) "Cannot recover using an impossible authority."
    fcAssert (o.newOwnerAuthority.weightThreshold ≠ 0) "Cannot recover using an open authority."
    checkAuthorityAccounts o.newOwnerAuthority
    let _ ← createIn Index.accountRecoveryRequests
      { accountToRecover := o.accountToRecover, newOwnerAuthority := o.newOwnerAuthority,
        expires := expires }
  | some (id, _) =>
    if o.newOwnerAuthority.weightThreshold = 0 then removeIn Index.accountRecoveryRequests id
    else do
      checkRecoveryAuthority o.newOwnerAuthority
      modifyIn Index.accountRecoveryRequests id fun r =>
        .ok { r with newOwnerAuthority := o.newOwnerAuthority, expires := expires }

def recoverAccountEvaluator (o : RecoverAccountOperation) : CoreM Unit := do
  let account ← getAccount o.accountToRecover
  let now ← headBlockTime
  fcAssert (account.2.lastAccountRecovery + ownerUpdateLimit < now)
    "Owner authority can only be updated once an hour."
  let found ← findIn Index.accountRecoveryRequests fun r => r.accountToRecover == o.accountToRecover
  match found with
  | none => throw (.assertion "There are no active recovery requests for this account.")
  | some (id, request) => do
    fcAssert (request.newOwnerAuthority == o.newOwnerAuthority)
      "New owner authority does not match recovery request."
    let s ← get
    fcAssert (s.ownerAuthorityHistory.rows.any fun h =>
        h.2.account == o.accountToRecover && h.2.previousOwnerAuthority == o.recentOwnerAuthority)
      "Recent authority not found in authority history."
    removeIn Index.accountRecoveryRequests id
    updateOwnerAuthority account.2.name o.newOwnerAuthority
    modifyIn Index.accounts account.1 fun a => .ok { a with lastAccountRecovery := now }

def changeRecoveryAccountEvaluator (o : ChangeRecoveryAccountOperation) : CoreM Unit := do
  let _ ← getAccount o.newRecoveryAccount
  let account ← getAccount o.accountToRecover
  let now ← headBlockTime
  let effectiveOn := addSeconds now ownerAuthRecoveryPeriod
  let found ← findIn Index.changeRecoveryAccountRequests fun r =>
    r.accountToRecover == o.accountToRecover
  match found with
  | none => do
    let _ ← createIn Index.changeRecoveryAccountRequests
      { accountToRecover := o.accountToRecover, recoveryAccount := o.newRecoveryAccount,
        effectiveOn := effectiveOn }
  | some (id, _) =>
    if account.2.recoveryAccount ≠ o.newRecoveryAccount then
      modifyIn Index.changeRecoveryAccountRequests id fun r =>
        .ok { r with recoveryAccount := o.newRecoveryAccount, effectiveOn := effectiveOn }
    else removeIn Index.changeRecoveryAccountRequests id

def declineVotingRightsEvaluator (o : DeclineVotingRightsOperation) : CoreM Unit := do
  let account ← getAccount o.account
  let now ← headBlockTime
  let found ← findIn Index.declineVotingRightsRequests fun r => r.account == account.1
  match o.decline, found with
  | true, some _ => throw (.assertion "Cannot create new request because one already exists.")
  | true, none => do
    let _ ← createIn Index.declineVotingRightsRequests
      { account := account.1, effectiveDate := addSeconds now ownerAuthRecoveryPeriod }
  | false, none => throw (.assertion "Cannot cancel the request because it does not exist.")
  | false, some (id, _) => removeIn Index.declineVotingRightsRequests id

/-! ## Transfers, savings and staking -/

/-- The sender is neither banned on the chain nor on the node's own list. -/
def requireNotBanned (a : AccountObject) (name : AccountName) : CoreM Unit := do
  fcAssert (!a.banned) "Account has been banned."
  fcAssert (!node.isBlacklist name) "Account has been banned."

def transferEvaluator (o : TransferOperation) : CoreM Unit := do
  let from_ ← getAccount o.from_
  let to_ ← getAccount o.to_
  requireBalance from_.2 o.amount "Account does not have sufficient funds for transfer."
  requireNotBanned node from_.2 o.from_
  let delta ← checked o.amount.neg
  adjustBalance from_.1 delta
  adjustBalance to_.1 o.amount

/-- The schedule a `transfer_savings` opens; the code stores what the operation says. -/
def TransferSavingsOperation.toObject (o : TransferSavingsOperation) : SavingsWithdrawObject where
  from_ := o.from_
  to_ := o.to_
  memo := o.memo
  requestId := o.requestId
  amount := o.amount.amount
  totalAmount := o.amount.amount
  splitPayOrder := o.splitPayOrder
  splitPayMonth := o.splitPayMonth
  complete := o.complete

def transferSavingsEvaluator (o : TransferSavingsOperation) : CoreM Unit := do
  let from_ ← getAccount o.from_
  let to_ ← getAccount o.to_
  requireBalance from_.2 o.amount "_db.get_balance( from, amount.symbol ) >= amount"
  let now ← headBlockTime
  fcAssert (now < o.complete) "op.complete > _db.head_block_time()"
  requireNotBanned node from_.2 o.from_
  let delta ← checked o.amount.neg
  adjustBalance from_.1 delta
  adjustSavingsBalance to_.1 o.amount
  let _ ← createIn Index.savingsWithdraws o.toObject

/-- End a schedule: credit `receiver` with what is still unpaid and take it off the savings. -/
def endSavings (id : Nat) (w : SavingsWithdrawObject) (receiver : AccountName) : CoreM Unit := do
  let to_ ← getAccount w.to_
  fcAssert (w.amount ≤ to_.2.savingsBalance) "savings_balance >= swo.amount"
  let account ← getAccount receiver
  adjustBalance account.1 (sgt w.amount)
  let delta ← checked (sgt w.amount).neg
  adjustSavingsBalance to_.1 delta
  removeIn Index.savingsWithdraws id

def cancelTransferSavingsEvaluator (o : CancelTransferSavingsOperation) : CoreM Unit := do
  let w ← getSavingsWithdraw o.from_ o.requestId
  fcAssert (w.2.to_ == o.to_) "swo.to == op.to"
  let covered ← checked (o.amount.ge (sgt w.2.amount))
  fcAssert covered "op.amount >= swo.amount"
  endSavings w.1 w.2 w.2.from_

def conclusionTransferSavingsEvaluator (o : ConclusionTransferSavingsOperation) : CoreM Unit := do
  let w ← getSavingsWithdraw o.from_ o.requestId
  fcAssert (w.2.to_ == o.to_) "swo.to == op.to"
  endSavings w.1 w.2 w.2.to_

def stakingFundEvaluator (o : StakingFundOperation) : CoreM Unit := do
  let from_ ← getAccount o.from_
  requireBalance from_.2 o.amount "_db.get_balance( from, amount.symbol ) >= amount"
  let fund ← getCommonFund o.fundName
  let percent := fund.2.percentInterest o.usertype.toNat (o.month - 1).toNat
  fcAssert (fa.aboveMinusOne percent) "percent_interest > -1.0"
  let delta ← checked o.amount.neg
  adjustBalance from_.1 delta
  adjustFundBalance o.fundName o.amount
  let now ← headBlockTime
  let due ← checked (o.amount.add (sgt (fa.interest o.amount.amount percent).toInt))
  adjustFundWithdrawBalance o.fundName due
  let _ ← createIn Index.fundWithdraws
    { from_ := o.from_, fundName := o.fundName, memo := o.memo, requestId := o.requestId,
      amount := due.amount, complete := addSeconds now (30 * o.month.toNat * secondsPerDay) }

/-- Pay a staking deposit back before its time, on the order of root. -/
def endStaking (owner : AccountName) (fundName : Bytes) (requestId : Nat) : CoreM Unit := do
  let w ← getFundWithdraw owner fundName requestId
  let fund ← getCommonFund fundName
  fcAssert (w.2.amount ≤ fund.2.fundBalance) "fund_balance >= dwo.amount"
  let account ← getAccount owner
  adjustBalance account.1 (sgt w.2.amount)
  let delta ← checked (sgt w.2.amount).neg
  adjustFundBalance fundName delta
  adjustFundWithdrawBalance fundName delta
  removeIn Index.fundWithdraws w.1

def conclusionStakingEvaluator (o : ConclusionStakingOperation) : CoreM Unit := do
  requireRoot o.root true
  endStaking o.from_ o.fundName o.requestId

def returnStakingFundEvaluator (o : ReturnStakingFundOperation) : CoreM Unit := do
  requireRoot o.root true
  endStaking o.to_ o.fundName o.requestId

def transferFundEvaluator (o : TransferFundOperation) : CoreM Unit := do
  let from_ ← getAccount o.from_
  requireBalance from_.2 o.amount "Account does not have sufficient funds for transfer."
  adjustFundBalance o.fundName o.amount
  let delta ← checked o.amount.neg
  adjustBalance from_.1 delta

end Sigmaengine
