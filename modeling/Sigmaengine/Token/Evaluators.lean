import Sigmaengine.Dapp.Evaluators

/-!
# Token plugin: evaluators and block processing

`token_util.hpp`, `token_evaluators.cpp` and the applied-block handler of `token_plugin.cpp`.
-/

namespace Sigmaengine.Token

open Sigmaengine Effect Table

abbrev TokenM (α : Type) := Prog Error TokenIndices α

namespace Index

def tokens : Part TokenIndices (Table TokenObject) :=
  ⟨TokenIndices.tokens, fun t s => { s with tokens := t }, fun _ _ => rfl, fun _ => rfl⟩

def balances : Part TokenIndices (Table TokenBalanceObject) :=
  ⟨TokenIndices.balances, fun t s => { s with balances := t }, fun _ _ => rfl, fun _ => rfl⟩

def funds : Part TokenIndices (Table TokenFundObject) :=
  ⟨TokenIndices.funds, fun t s => { s with funds := t }, fun _ _ => rfl, fun _ => rfl⟩

def stakingInterests : Part TokenIndices (Table TokenStakingInterestObject) :=
  ⟨TokenIndices.stakingInterests, fun t s => { s with stakingInterests := t }, fun _ _ => rfl,
    fun _ => rfl⟩

def fundWithdraws : Part TokenIndices (Table TokenFundWithdrawObject) :=
  ⟨TokenIndices.fundWithdraws, fun t s => { s with fundWithdraws := t }, fun _ _ => rfl, fun _ => rfl⟩

def savingsWithdraws : Part TokenIndices (Table TokenSavingsWithdrawObject) :=
  ⟨TokenIndices.savingsWithdraws, fun t s => { s with savingsWithdraws := t }, fun _ _ => rfl,
    fun _ => rfl⟩

end Index

/-- What the token code reads of the core: the head time and which accounts exist. -/
structure CoreView where
  now : TimePointSec
  hasAccount : AccountName → Bool

def coreView (c : Core) : CoreView :=
  ⟨c.dgp.time, fun name => (c.accounts.find? fun a => a.name == name).isSome⟩

/-- Run token code with a view of the core. -/
def withView {α : Type} (m : CoreView → TokenM α) : ChainM α := do
  let s ← get
  onToken (m (coreView s.core))

/-! ## `token_util` -/

/-- The two amounts of a balance object. -/
inductive Side
  | balance
  | savings

namespace Side

def read : Side → TokenBalanceObject → Asset
  | .balance, b => b.balance
  | .savings, b => b.savingsBalance

def other : Side → TokenBalanceObject → Asset
  | .balance, b => b.savingsBalance
  | .savings, b => b.balance

def write (now : TimePointSec) : Side → Asset → TokenBalanceObject → TokenBalanceObject
  | .balance, a, b => { b with balance := a, lastUpdated := now }
  | .savings, a, b => { b with savingsBalance := a, lastUpdated := now }

/-- A fresh balance object with `delta` on this side and nothing on the other. -/
def open_ (now : TimePointSec) (account : AccountName) (token : TokenName) (delta : Asset) :
    Side → TokenBalanceObject
  | .balance => ⟨account, token, delta, ⟨0, delta.symbol⟩, now⟩
  | .savings => ⟨account, token, ⟨0, delta.symbol⟩, delta, now⟩

def lackText : Side → String
  | .balance => "Balances lack"
  | .savings => "Savings balances lack"

def missingText : Side → String
  | .balance => "$account account doesn't have $token token balance."
  | .savings => "$account account doesn't have $token token savings balance."

end Side

/-- Add a checked amount to one side of a balance object. -/
def addSide (v : CoreView) (side : Side) (id : Nat) (delta : Asset) : TokenM Unit :=
  modifyIn Index.balances id fun b =>
    ((side.read b).add delta).map fun a => side.write v.now a b

/-- A debit: the object goes when it is emptied, and must cover the amount otherwise. -/
def debitSide (v : CoreView) (side : Side) (found : Option (Nat × TokenBalanceObject)) (delta : Asset) :
    TokenM Unit := do
  let b ← ofOption found (.assertion side.missingText)
  fcAssert ((side.read b.2).symbol == delta.symbol) "invalid symbol"
  let owed ← checked delta.neg
  if (side.other b.2).amount = 0 ∧ side.read b.2 = owed then removeIn Index.balances b.1
  else do
    let enough ← checked ((side.read b.2).ge owed)
    fcAssert enough side.lackText
    addSide v side b.1 delta

/-- A credit: the object is created when there is none. -/
def creditSide (v : CoreView) (side : Side) (account : AccountName) (token : TokenName)
    (found : Option (Nat × TokenBalanceObject)) (delta : Asset) : TokenM Unit :=
  match found with
  | none => do
    let _ ← createIn Index.balances (side.open_ v.now account token delta)
  | some b => do
    fcAssert ((side.read b.2).symbol == delta.symbol) "invalid symbol"
    addSide v side b.1 delta

/-- `adjust_token_balance` and `adjust_token_savings_balance` are mirror images of each other. -/
def adjustSide (v : CoreView) (side : Side) (account : AccountName) (token : TokenName)
    (delta : Asset) : TokenM Unit := do
  let found ← findIn Index.balances fun b => b.account == account && b.token == token
  fcAssert (v.hasAccount account) "No accounts"
  if delta.amount < 0 then debitSide v side found delta
  else creditSide v side account token found delta

def adjustTokenBalance (v : CoreView) (account : AccountName) (token : TokenName) (delta : Asset) :
    TokenM Unit :=
  adjustSide v .balance account token delta

def adjustTokenSavingsBalance (v : CoreView) (account : AccountName) (token : TokenName)
    (delta : Asset) : TokenM Unit :=
  adjustSide v .savings account token delta

/-- The fund has enough for a debit; a credit passes. -/
def covers (field delta : Asset) : Except Error Bool :=
  if 0 ≤ delta.amount then .ok true
  else match delta.neg with
    | .error e => .error e
    | .ok owed => field.ge owed

/-- A fund object with both amounts moved. -/
def moveFund (now : TimePointSec) (delta withdrawDelta : Asset) (f : TokenFundObject) :
    Except Error TokenFundObject :=
  match f.balance.add delta, f.withdrawBalance.add withdrawDelta with
  | .ok b, .ok w => .ok { f with balance := b, withdrawBalance := w, lastUpdated := now }
  | .error e, _ => .error e
  | _, .error e => .error e

def adjustTokenFundBalance (v : CoreView) (token : TokenName) (fund : FundName)
    (delta withdrawDelta : Asset) : TokenM Unit := do
  let found ← findIn Index.funds fun f => f.token == token && f.fundName == fund
  let f ← ofOption found (.assertion "There isn't $token/$fund fund.")
  fcAssert (f.2.balance.symbol == delta.symbol) "Invalid symbol"
  let enough ← checked (covers f.2.balance delta)
  fcAssert enough "Balances lack."
  let enough ← checked (covers f.2.withdrawBalance withdrawDelta)
  fcAssert enough "Withdraw balances lack."
  modifyIn Index.funds f.1 (moveFund v.now delta withdrawDelta)

/-! ## Symbols -/

/-- Byte `i` of a symbol, least significant first. -/
def symbolByte (symbol : AssetSymbol) (i : Nat) : Nat := symbol / 256 ^ i % 256

/-- `asset::symbol_name`: the characters after the decimals, ended by a zero byte. -/
def symbolName (symbol : AssetSymbol) : Except Error Bytes :=
  if symbolByte symbol 7 = 0 then
    .ok (((List.range 6).map fun i => UInt8.ofNat (symbolByte symbol (i + 1))).takeWhile (· != 0))
  else .error (.assertion "a[7] == 0")

/-- `asset::precision`. -/
def precision (symbol : AssetSymbol) : Except Error Int :=
  if symbolByte symbol 0 < 15 then .ok (10 ^ symbolByte symbol 0) else .error (.assertion "result < 15")

/-- The symbol made from upper-cased letters; a `char` is sign-extended to 64 bits. -/
def makeSymbol (upper : Bytes) : AssetSymbol :=
  ((upper.zipIdx.foldl (fun acc (c, i) =>
    acc ||| ((c.toUInt64 ||| (if 128 ≤ c then 0xffffffffffffff00 else 0)) <<<
      (UInt64.ofNat (8 * (i + 1))))) (6 : UInt64))).toNat

/-- No stored token uses the name; reading a stored symbol can itself fail. -/
def symbolUnused (upper : Bytes) : List (Nat × TokenObject) → Except Error Unit
  | [] => .ok ()
  | (_, t) :: ts =>
    match symbolName t.initSupply.symbol with
    | .error e => .error e
    | .ok name =>
      if name = upper then .error (.assertion "$symbol is already in use by another token.")
      else symbolUnused upper ts

/-! ## Tokens -/

/-- The token with the given name. -/
def requireToken (name : TokenName) : TokenM (Nat × TokenObject) := do
  let found ← findIn Index.tokens fun t => t.name == name
  ofOption found (.assertion "There isn't $token token.")

/-- The token with the given symbol. -/
def requireSymbol (symbol : AssetSymbol) : TokenM (Nat × TokenObject) := do
  let found ← findIn Index.tokens fun t => t.symbol == symbol
  ofOption found (.assertion "There isn't token information about $symbol.")

/-- Set the publisher's balance of a new token; the code overwrites a balance that is there. -/
def openBalance (v : CoreView) (op : CreateTokenOperation) (supply : Asset) : TokenM Unit := do
  let found ← findIn Index.balances fun b => b.account == op.publisher && b.token == op.name
  match found with
  | none => do
    let _ ← createIn Index.balances (Side.balance.open_ v.now op.publisher op.name supply)
  | some (id, _) =>
    modifyIn Index.balances id fun b => .ok { b with balance := supply, lastUpdated := v.now }

def storeToken (v : CoreView) (op : CreateTokenOperation) : TokenM Unit := do
  let found ← findIn Index.tokens fun t => t.dappName == op.dappName
  fcAssert found.isNone "dapp is already had a token."
  let found ← findIn Index.tokens fun t => t.name == op.name
  fcAssert found.isNone "$name token is exist."
  let upper := toUpper op.symbolName
  let symbol := makeSymbol upper
  let sgtName ← checked (symbolName sgtSymbol)
  fcAssert (upper != sgtName) "Symbol can't use $pia."
  let s ← get
  checked (symbolUnused upper s.tokens.rows)
  let unit ← checked (precision symbol)
  let supply : Asset := ⟨op.initSupplyAmount * unit, symbol⟩
  let _ ← createIn Index.tokens
    { name := op.name, symbol := symbol, publisher := op.publisher, dappName := op.dappName,
      initSupply := supply, totalBalance := supply, created := v.now, lastUpdated := v.now }
  openBalance v op supply

def createTokenEvaluator (op : CreateTokenOperation) : ChainM Unit := do
  let dapp ← onDapp (Dapp.requireDapp op.dappName "There isn't $name dapp.")
  fcAssert (dapp.2.owner == op.publisher) "token creator isn't owner of dapp."
  fcAssert (dapp.2.dappKey == op.dappKey) "Dapp key is invalid."
  onDapp (Dapp.requireApproved dapp.2)
  withDappFee dapp.2.owner (withView fun v => storeToken v op)

/-- Credit the publisher with newly issued tokens. -/
def creditIssue (v : CoreView) (op : IssueTokenOperation) : TokenM Unit := do
  let found ← findIn Index.balances fun b => b.account == op.publisher && b.token == op.name
  match found with
  | none => do
    let _ ← createIn Index.balances (Side.balance.open_ v.now op.publisher op.name op.reissueAmount)
  | some (id, _) => addSide v .balance id op.reissueAmount

def issueToken (v : CoreView) (op : IssueTokenOperation) (token : Nat × TokenObject) : TokenM Unit := do
  fcAssert (token.2.symbol == op.reissueAmount.symbol) "Token symbol error"
  let unit ← checked (precision op.reissueAmount.symbol)
  let total ← checked (op.reissueAmount.add token.2.totalBalance)
  let fits ← checked (total.le ⟨tokenMax * unit, op.reissueAmount.symbol⟩)
  fcAssert fits "The sum of total supply and reissue amount is over max. Max is $max and the sum is $total."
  modifyIn Index.tokens token.1 fun t =>
    (t.totalBalance.add op.reissueAmount).map fun a => { t with totalBalance := a, lastUpdated := v.now }
  creditIssue v op

def issueTokenEvaluator (op : IssueTokenOperation) : ChainM Unit := do
  let token ← onToken (requireToken op.name)
  let dapp ← onDapp (Dapp.requireDapp token.2.dappName "There isn't $name dapp.")
  fcAssert (dapp.2.owner == op.publisher) "Token publisher isn't owner of dapp."
  fcAssert (dapp.2.dappKey == op.dappKey) "Dapp key is invalid."
  withDappFee dapp.2.owner (withView fun v => issueToken v op token)

def transferToken (v : CoreView) (op : TransferTokenOperation) (token : TokenName) : TokenM Unit := do
  let delta ← checked op.amount.neg
  adjustTokenBalance v op.from_ token delta
  adjustTokenBalance v op.to_ token op.amount

def transferTokenEvaluator (op : TransferTokenOperation) : ChainM Unit := do
  let token ← onToken (requireSymbol op.amount.symbol)
  withDappFee token.2.publisher (withView fun v => transferToken v op token.2.name)

def burnToken (v : CoreView) (op : BurnTokenOperation) (token : Nat × TokenObject) : TokenM Unit := do
  let delta ← checked op.amount.neg
  adjustTokenBalance v op.account token.2.name delta
  modifyIn Index.tokens token.1 fun t =>
    (t.totalBalance.sub op.amount).map fun a => { t with totalBalance := a }

def burnTokenEvaluator (op : BurnTokenOperation) : ChainM Unit := do
  let token ← onToken (requireSymbol op.amount.symbol)
  let dapp ← onDapp (Dapp.requireDapp token.2.dappName "There isn't dapp of $token")
  fcAssert (dapp.2.owner == op.account) "$account isn't owner of DApp"
  withDappFee dapp.2.owner (withView fun v => burnToken v op token)

/-! ## Funds and staking -/

/-- Take the initial balance off the publisher, when there is one. -/
def takeInitBalance (v : CoreView) (op : SetupTokenFundOperation) (token : TokenName) : TokenM Unit :=
  if 0 < op.initFundBalance.amount then do
    let delta ← checked op.initFundBalance.neg
    adjustTokenBalance v op.tokenPublisher token delta
  else pure ()

/-- A fund that exists already is left as it is. -/
def openFund (v : CoreView) (op : SetupTokenFundOperation) (symbol : AssetSymbol) :
    Option (Nat × TokenFundObject) → TokenM Unit
  | some _ => pure ()
  | none => do
    let _ ← createIn Index.funds
      { token := op.token, fundName := op.fundName, balance := op.initFundBalance,
        withdrawBalance := ⟨0, symbol⟩, created := v.now, lastUpdated := v.now }

def setupTokenFund (v : CoreView) (op : SetupTokenFundOperation) (token : TokenObject) : TokenM Unit := do
  let found ← findIn Index.funds fun f => f.token == op.token && f.fundName == op.fundName
  takeInitBalance v op token.name
  openFund v op token.symbol found

def setupTokenFundEvaluator (op : SetupTokenFundOperation) : ChainM Unit := do
  let token ← onToken (requireToken op.token)
  fcAssert (token.2.publisher == op.tokenPublisher) "$p isn't publisher of token."
  fcAssert (token.2.symbol == op.initFundBalance.symbol) "token_itr->symbol == op.init_fund_balance.symbol"
  withDappFee token.2.publisher (withView fun v => setupTokenFund v op token.2)

/-- Digits to a number, most significant first. -/
def digits : Nat → Bytes → Option Nat
  | n, [] => some n
  | n, c :: cs => if isDigit c then digits (10 * n + (c.toNat - 48)) cs else none

/-- `fc::to_int64`: an optional sign and at least one digit, in range. -/
def toInt64 (s : Bytes) : Except Error Int :=
  let parsed : Option Int :=
    match cStr s with
    | [] => none
    | c :: cs =>
      if c = 45 then if cs = [] then none else (digits 0 cs).map fun n => -(n : Int)
      else if c = 43 then if cs = [] then none else (digits 0 cs).map fun n => (n : Int)
      else (digits 0 (c :: cs)).map fun n => (n : Int)
  match parsed with
  | some n => if InInt64 n then .ok n else .error .parse
  | none => .error .parse

/-- Arithmetic on a plain `int64_t` wraps around. -/
def wrapInt64 (n : Int) : Int := Int.bmod n 18446744073709551616

/-- The rate as the evaluator reads it: thousandths, with the fraction padded to three digits. -/
def parseRate (s : Bytes) : Except Error Int :=
  if s.contains 46 then do
    let intpart := s.takeWhile (· != 46)
    let frac := (fromDot s).drop 1
    let padded :=
      if frac ≠ [] ∧ frac.length ≤ stakingInterestPrecisionDigits then
        frac ++ List.replicate (stakingInterestPrecisionDigits - frac.length) 48
      else frac
    let whole ← toInt64 intpart
    let part ← toInt64 (49 :: padded)
    return wrapInt64 (wrapInt64 (wrapInt64 (whole * stakingInterestPrecision) + part)
      - stakingInterestPrecision)
  else do
    let whole ← toInt64 s
    return wrapInt64 (whole * stakingInterestPrecision)

/-- Store, change or, for the rate -1, remove the interest of a month. -/
def storeInterest (v : CoreView) (op : SetTokenStakingInterestOperation) (rate : Int) : TokenM Unit := do
  let found ← findIn Index.stakingInterests fun i => i.token == op.token && i.month == op.month
  if rate = -stakingInterestPrecision then do
    let i ← ofOption found (.assertion "No staking interest to remove")
    removeIn Index.stakingInterests i.1
  else do
    fcAssert (0 ≤ rate) "interest rate error"
    match found with
    | none => do
      let _ ← createIn Index.stakingInterests
        { token := op.token, month := op.month, percentInterestRate := rate.toNat,
          created := v.now, lastUpdated := v.now }
    | some (id, _) =>
      modifyIn Index.stakingInterests id fun i =>
        .ok { i with percentInterestRate := rate.toNat, lastUpdated := v.now }

def setTokenStakingInterestEvaluator (op : SetTokenStakingInterestOperation) : ChainM Unit := do
  let token ← onToken (requireToken op.token)
  fcAssert (token.2.publisher == op.tokenPublisher) "$p isn't publisher of token."
  withDappFee token.2.publisher do
    let rate ← checked (parseRate op.percentInterestRate)
    withView fun v => storeInterest v op rate

def transferTokenFund (v : CoreView) (op : TransferTokenFundOperation) : TokenM Unit := do
  let delta ← checked op.amount.neg
  adjustTokenBalance v op.from_ op.token delta
  adjustTokenFundBalance v op.token op.fundName op.amount ⟨0, op.amount.symbol⟩

def transferTokenFundEvaluator (op : TransferTokenFundOperation) : ChainM Unit := do
  let token ← onToken (requireToken op.token)
  fcAssert (token.2.publisher == op.from_) "$from isn't publisher of token."
  withDappFee token.2.publisher (withView fun v => transferTokenFund v op)

/-- `(amount * (rate / 1000)) / 100.0` in `double`, converted back to `int64_t`. -/
abbrev TokenInterest := Int → Nat → Int64

variable (interest : TokenInterest)

def stakeToken (v : CoreView) (op : StakingTokenFundOperation) (token : TokenObject) : TokenM Unit := do
  let found ← findIn Index.fundWithdraws fun w =>
    w.from_ == op.from_ && w.token == op.token && w.fundName == op.fundName &&
      w.requestId == op.requestId
  fcAssert found.isNone "Request id $r_id is using"
  let rate ← findIn Index.stakingInterests fun i => i.token == op.token && i.month == op.month
  let rate ← ofOption rate (.assertion "$n-month staking is not possible")
  let due ← checked (op.amount.add
    ⟨(interest op.amount.amount rate.2.percentInterestRate).toInt, token.symbol⟩)
  let delta ← checked op.amount.neg
  adjustTokenBalance v op.from_ token.name delta
  adjustTokenFundBalance v op.token op.fundName op.amount due
  let _ ← createIn Index.fundWithdraws
    { from_ := op.from_, token := op.token, fundName := op.fundName, memo := op.memo,
      requestId := op.requestId, amount := due,
      complete := addSeconds v.now (30 * op.month.toNat * secondsPerDay), created := v.now }

def stakingTokenFundEvaluator (op : StakingTokenFundOperation) : ChainM Unit := do
  let token ← onToken (requireToken op.token)
  withDappFee token.2.publisher (withView fun v => stakeToken interest v op token.2)

/-! ## Savings -/

/-- The next date of the object with the given id. -/
def dateOf (t : Table TokenSavingsWithdrawObject) (id : Nat) : TimePointSec :=
  ((t.lookup id).map fun w => w.nextDate).getD 0

/-- Insertion after every entry that is not later. -/
def insertByDate (t : Table TokenSavingsWithdrawObject) (id : Nat) : List Nat → List Nat
  | [] => [id]
  | x :: xs =>
    if dateOf t id < dateOf t x then id :: x :: xs else x :: insertByDate t id xs

/-- The entry after `id`. -/
def entryAfter (id : Nat) : List Nat → Option Nat
  | [] => none
  | x :: xs => if x = id then xs.head? else entryAfter id xs

/-- The entry before `id`. -/
def entryBefore (id : Nat) (order : List Nat) : Option Nat := entryAfter id order.reverse

/-- An object whose date changed stays between its neighbours if it fits there and moves otherwise. -/
def relink (t : Table TokenSavingsWithdrawObject) (id : Nat) (order : List Nat) : List Nat :=
  let early := (entryBefore id order).any fun x => dateOf t id < dateOf t x
  let late := (entryAfter id order).any fun x => dateOf t x < dateOf t id
  if early || late then insertByDate t id (order.filter (· != id)) else order

def createSavings (w : TokenSavingsWithdrawObject) : TokenM Unit := do
  let id ← createIn Index.savingsWithdraws w
  modify fun s => { s with bySavingsNextDate := insertByDate s.savingsWithdraws id s.bySavingsNextDate }

def removeSavings (id : Nat) : TokenM Unit := do
  removeIn Index.savingsWithdraws id
  modify fun s => { s with bySavingsNextDate := s.bySavingsNextDate.filter (· != id) }

def modifySavings (id : Nat) (f : TokenSavingsWithdrawObject → Except Error TokenSavingsWithdrawObject) :
    TokenM Unit := do
  modifyIn Index.savingsWithdraws id f
  modify fun s => { s with bySavingsNextDate := relink s.savingsWithdraws id s.bySavingsNextDate }

def transferTokenSavings (v : CoreView) (op : TransferTokenSavingsOperation) (token : TokenName) :
    TokenM Unit := do
  fcAssert (v.now < op.nextDate) "op.next_date > _db.head_block_time()"
  let delta ← checked op.amount.neg
  adjustTokenBalance v op.from_ token delta
  adjustTokenSavingsBalance v op.to_ token op.amount
  createSavings
    { from_ := op.from_, to_ := op.to_, token := op.token, amount := op.amount,
      totalAmount := op.amount, splitPayOrder := 1, splitPayMonth := op.splitPayMonth,
      memo := op.memo, requestId := op.requestId, nextDate := op.nextDate, created := v.now,
      lastUpdated := v.now }

def transferTokenSavingsEvaluator (op : TransferTokenSavingsOperation) : ChainM Unit := do
  let token ← onToken (requireToken op.token)
  withDappFee token.2.publisher (withView fun v => transferTokenSavings v op token.2.name)

/-- End a schedule: what is still unpaid goes from the savings of the recipient to `receiver`. -/
def endTokenSavings (v : CoreView) (op : EndTokenSavingsOperation) (toSender : Bool) : TokenM Unit := do
  let found ← findIn Index.savingsWithdraws fun w =>
    w.token == op.token && w.from_ == op.from_ && w.to_ == op.to_ && w.requestId == op.requestId
  let w ← ofOption found (.assertion "No withdraw information")
  let delta ← checked w.2.amount.neg
  adjustTokenSavingsBalance v w.2.to_ op.token delta
  adjustTokenBalance v (if toSender then op.from_ else w.2.to_) op.token w.2.amount
  removeSavings w.1

def endTokenSavingsEvaluator (op : EndTokenSavingsOperation) (toSender : Bool) : ChainM Unit := do
  let token ← onToken (requireToken op.token)
  withDappFee token.2.publisher (withView fun v => endTokenSavings v op toSender)

def cancelTransferTokenSavingsEvaluator (op : EndTokenSavingsOperation) : ChainM Unit :=
  endTokenSavingsEvaluator op true

def concludeTransferTokenSavingsEvaluator (op : EndTokenSavingsOperation) : ChainM Unit :=
  endTokenSavingsEvaluator op false

def tokenEvaluator : TokenOperation → ChainM Unit
  | .createToken op => createTokenEvaluator op
  | .issueToken op => issueTokenEvaluator op
  | .transferToken op => transferTokenEvaluator op
  | .burnToken op => burnTokenEvaluator op
  | .setupTokenFund op => setupTokenFundEvaluator op
  | .setTokenStakingInterest op => setTokenStakingInterestEvaluator op
  | .transferTokenFund op => transferTokenFundEvaluator op
  | .stakingTokenFund op => stakingTokenFundEvaluator interest op
  | .transferTokenSavings op => transferTokenSavingsEvaluator op
  | .cancelTransferTokenSavings op => cancelTransferTokenSavingsEvaluator op
  | .concludeTransferTokenSavings op => concludeTransferTokenSavingsEvaluator op

/-! ## Block processing -/

/-- One round of `process_token_fund_withdraw`. -/
def processTokenFundWithdrawStep (v : CoreView) : TokenM Bool := do
  let s ← get
  match s.fundWithdraws.least? TokenFundWithdrawObject.before with
  | none => pure false
  | some (id, w) =>
    if v.now < w.complete then pure false
    else do
      let delta ← checked w.amount.neg
      adjustTokenFundBalance v w.token w.fundName delta delta
      adjustTokenBalance v w.from_ w.token w.amount
      removeIn Index.fundWithdraws id
      pure true

def processTokenFundWithdraw (v : CoreView) : TokenM Unit := do
  let s ← get
  loop .diverged (processTokenFundWithdrawStep v) (s.fundWithdraws.rows.length + 1)

/-- Pay `amount` of the recipient's savings out. -/
def payTokenSavings (v : CoreView) (w : TokenSavingsWithdrawObject) (amount : Asset) : TokenM Unit := do
  let delta ← checked amount.neg
  adjustTokenSavingsBalance v w.to_ w.token delta
  adjustTokenBalance v w.to_ w.token amount

/-- The schedule after one more instalment. -/
def nextTokenInstalment (v : CoreView) (monthly : Asset) (w : TokenSavingsWithdrawObject) :
    Except Error TokenSavingsWithdrawObject :=
  (w.amount.sub monthly).map fun rest =>
    { w with
      amount := rest
      splitPayOrder := w.splitPayOrder + 1
      nextDate := addSeconds w.nextDate transferSavingsCycle
      lastUpdated := v.now }

/-- The instalment at the cursor; the answer is the cursor of the next round. -/
def processTokenSavings (v : CoreView) (id : Nat) (w : TokenSavingsWithdrawObject) :
    TokenM (Option Nat) :=
  if w.splitPayOrder = w.splitPayMonth then do
    payTokenSavings v w w.amount
    removeSavings id
    return (← get).bySavingsNextDate.head?
  else do
    let monthly ← checked (safeDiv w.totalAmount.amount w.splitPayMonth.toNat)
    payTokenSavings v w ⟨monthly, w.totalAmount.symbol⟩
    modifySavings id (nextTokenInstalment v ⟨monthly, w.totalAmount.symbol⟩)
    return entryAfter id (← get).bySavingsNextDate

/-- The loop of `process_token_savings_withdraws`: the iterator follows an object that is moved, so
the walk goes on behind its new place. -/
def processTokenSavingsFrom (v : CoreView) : Nat → Option Nat → TokenM Unit
  | _, none => pure ()
  | 0, some _ => throw .diverged
  | fuel + 1, some id => do
    let s ← get
    let w ← ofOption (s.savingsWithdraws.lookup id) .notFound
    if v.now < w.nextDate then pure ()
    else do
      let next ← processTokenSavings v id w
      processTokenSavingsFrom v fuel next

def processTokenSavingsWithdraws (v : CoreView) : TokenM Unit := do
  let s ← get
  processTokenSavingsFrom v (256 * s.savingsWithdraws.rows.length + 1) s.bySavingsNextDate.head?

/-- `token_plugin_impl::on_apply_block`. -/
def onApplyBlock : ChainM Unit := do
  withView processTokenFundWithdraw
  withView processTokenSavingsWithdraws

end Sigmaengine.Token
