import Sigmaengine.Dapp.Objects

/-!
# Token plugin: objects and operations

`token_objects.hpp` and `token_operations.hpp`.  The order of `by_savings_next_date`, which is not
unique and moves an object when its date changes, is kept as a list of ids beside the table.
-/

namespace Sigmaengine.Token

open Sigmaengine

structure TokenObject where
  name : TokenName
  symbol : AssetSymbol
  publisher : AccountName
  dappName : DappName
  initSupply : Asset
  totalBalance : Asset
  created : TimePointSec
  lastUpdated : TimePointSec

instance : Clash TokenObject where
  clash a b := a.name == b.name || a.symbol == b.symbol

structure TokenBalanceObject where
  account : AccountName
  token : TokenName
  balance : Asset
  savingsBalance : Asset
  lastUpdated : TimePointSec

instance : Clash TokenBalanceObject where
  clash a b := a.account == b.account && a.token == b.token

structure TokenFundObject where
  token : TokenName
  fundName : FundName
  balance : Asset
  withdrawBalance : Asset
  created : TimePointSec
  lastUpdated : TimePointSec

instance : Clash TokenFundObject where
  clash a b := a.token == b.token && a.fundName == b.fundName

structure TokenStakingInterestObject where
  token : TokenName
  month : UInt8
  percentInterestRate : Nat
  created : TimePointSec
  lastUpdated : TimePointSec

instance : Clash TokenStakingInterestObject where
  clash a b := a.token == b.token && a.month == b.month

structure TokenFundWithdrawObject where
  from_ : AccountName
  token : TokenName
  fundName : FundName
  memo : Bytes
  requestId : Nat
  amount : Asset
  complete : TimePointSec
  created : TimePointSec

instance : Clash TokenFundWithdrawObject where
  clash a b := a.from_ == b.from_ && a.token == b.token && a.fundName == b.fundName &&
      a.requestId == b.requestId

/-- `by_complete`: equal dates keep the order of insertion, which is the order of the ids. -/
def TokenFundWithdrawObject.before (a b : Nat × TokenFundWithdrawObject) : Bool :=
  a.2.complete < b.2.complete

structure TokenSavingsWithdrawObject where
  from_ : AccountName
  to_ : AccountName
  token : TokenName
  requestId : Nat
  amount : Asset
  totalAmount : Asset
  memo : Bytes
  splitPayOrder : UInt8
  splitPayMonth : UInt8
  nextDate : TimePointSec
  created : TimePointSec
  lastUpdated : TimePointSec

instance : Clash TokenSavingsWithdrawObject where
  clash a b := a.token == b.token && a.from_ == b.from_ && a.to_ == b.to_ &&
      a.requestId == b.requestId

/-- The indices of the token plugin. -/
structure TokenIndices where
  tokens : Table TokenObject
  balances : Table TokenBalanceObject
  funds : Table TokenFundObject
  stakingInterests : Table TokenStakingInterestObject
  fundWithdraws : Table TokenFundWithdrawObject
  savingsWithdraws : Table TokenSavingsWithdrawObject
  bySavingsNextDate : List Nat

/-! ## Operations -/

structure CreateTokenOperation where
  name : TokenName
  symbolName : Bytes
  publisher : AccountName
  dappKey : PublicKey
  dappName : DappName
  initSupplyAmount : Int

structure IssueTokenOperation where
  name : TokenName
  publisher : AccountName
  dappKey : PublicKey
  reissueAmount : Asset

structure TransferTokenOperation where
  from_ : AccountName
  to_ : AccountName
  amount : Asset
  memo : Bytes

structure BurnTokenOperation where
  account : AccountName
  amount : Asset

structure SetupTokenFundOperation where
  tokenPublisher : AccountName
  token : TokenName
  fundName : FundName
  initFundBalance : Asset

structure SetTokenStakingInterestOperation where
  tokenPublisher : AccountName
  token : TokenName
  month : UInt8
  percentInterestRate : Bytes

structure TransferTokenFundOperation where
  from_ : AccountName
  token : TokenName
  fundName : FundName
  amount : Asset
  memo : Bytes

structure StakingTokenFundOperation where
  from_ : AccountName
  token : TokenName
  fundName : FundName
  requestId : Nat
  amount : Asset
  memo : Bytes
  month : UInt8

structure TransferTokenSavingsOperation where
  token : TokenName
  from_ : AccountName
  to_ : AccountName
  requestId : Nat
  amount : Asset
  splitPayMonth : UInt8
  memo : Bytes
  nextDate : TimePointSec

/-- `cancel_transfer_token_savings_operation` and `conclude_transfer_token_savings_operation`. -/
structure EndTokenSavingsOperation where
  token : TokenName
  from_ : AccountName
  to_ : AccountName
  requestId : Nat

inductive TokenOperation
  | createToken (op : CreateTokenOperation)
  | issueToken (op : IssueTokenOperation)
  | transferToken (op : TransferTokenOperation)
  | burnToken (op : BurnTokenOperation)
  | setupTokenFund (op : SetupTokenFundOperation)
  | setTokenStakingInterest (op : SetTokenStakingInterestOperation)
  | transferTokenFund (op : TransferTokenFundOperation)
  | stakingTokenFund (op : StakingTokenFundOperation)
  | transferTokenSavings (op : TransferTokenSavingsOperation)
  | cancelTransferTokenSavings (op : EndTokenSavingsOperation)
  | concludeTransferTokenSavings (op : EndTokenSavingsOperation)

/-- `boost::to_lower_copy` on ASCII. -/
def toLower (s : Bytes) : Bytes := s.map fun c => if 65 ≤ c && c ≤ 90 then c + 32 else c

/-- `boost::to_upper_copy` on ASCII. -/
def toUpper (s : Bytes) : Bytes := s.map fun c => if 97 ≤ c && c ≤ 122 then c - 32 else c

def prohibitedNames : List Bytes :=
  [ascii ['s', 'i', 'g', 'm', 'a', 'e', 'n', 'g', 'i', 'n', 'e'], ascii ['s', 'n', 'a', 'c']]

variable (fc : TextRules)

def tokenGiven (token : TokenName) : Check := ⟨0 < token.size, "Token name $n is invalid."⟩

def fundGiven (fund : FundName) : Check := ⟨0 < fund.size, "Fund name $f is invalid."⟩

def notNegative (amount : Asset) : Check :=
  ⟨0 ≤ amount.amount, "transfer amount should be lager than 0."⟩

def CreateTokenOperation.validate (op : CreateTokenOperation) : List Check :=
  [⟨0 < op.name.size, "name.size() > 0"⟩, validateAccountName op.publisher,
    ⟨0 < op.dappName.size, "dapp_name.size() > 0"⟩,
    ⟨0 < op.symbolName.length && op.symbolName.length < 8,
      "Symbol character is less than 8 digits."⟩,
    ⟨!prohibitedNames.contains (toLower op.name.toBytes), "Name can't use $name."⟩,
    ⟨0 ≤ op.initSupplyAmount, "Initial supply amount should be same or larger than 0."⟩,
    ⟨op.initSupplyAmount ≤ tokenMax, "Initial supply amount is over max (90,000,000,000)."⟩]

def IssueTokenOperation.validate (op : IssueTokenOperation) : List Check :=
  [⟨0 < op.name.size, "name.size() > 0"⟩, validateAccountName op.publisher,
    ⟨0 < op.reissueAmount.amount, "Initial supply amount should be larger than 0."⟩]

def TransferTokenOperation.validate (op : TransferTokenOperation) : List Check :=
  [validateAccountName op.from_, validateAccountName op.to_, notNegative op.amount] ++
    validateMemo fc op.memo

def BurnTokenOperation.validate (op : BurnTokenOperation) : List Check :=
  [validateAccountName op.account, ⟨0 ≤ op.amount.amount, "amount.amount >= 0"⟩]

def SetupTokenFundOperation.validate (op : SetupTokenFundOperation) : List Check :=
  [validateAccountName op.tokenPublisher, tokenGiven op.token, fundGiven op.fundName,
    ⟨0 ≤ op.initFundBalance.amount, "Initial fund balance should be same 0 or greater than"⟩]

/-- The characters from the first dot on, the dot included. -/
def fromDot (s : Bytes) : Bytes := s.dropWhile (· != 46)

def SetTokenStakingInterestOperation.validate (op : SetTokenStakingInterestOperation) : List Check :=
  [validateAccountName op.tokenPublisher, tokenGiven op.token,
    ⟨0 < op.month, "Month is greater than 0."⟩,
    ⟨0 < op.percentInterestRate.length, "percent_interest_rate.size() > 0"⟩,
    ⟨!op.percentInterestRate.contains 46 ||
        (fromDot op.percentInterestRate).length ≤ stakingInterestPrecisionDigits,
      "decimal of interest rate is error. $i"⟩]

def TransferTokenFundOperation.validate (op : TransferTokenFundOperation) : List Check :=
  [validateAccountName op.from_, tokenGiven op.token, notNegative op.amount] ++ validateMemo fc op.memo

def StakingTokenFundOperation.validate (op : StakingTokenFundOperation) : List Check :=
  [validateAccountName op.from_, tokenGiven op.token, fundGiven op.fundName, notNegative op.amount,
    ⟨0 < op.month, "Month is greater than 0."⟩] ++ validateMemo fc op.memo

def TransferTokenSavingsOperation.validate (op : TransferTokenSavingsOperation) : List Check :=
  [validateAccountName op.from_, validateAccountName op.to_, tokenGiven op.token,
    ⟨0 < op.amount.amount, "amount.amount > 0"⟩,
    ⟨transferSavingsMinMonth ≤ op.splitPayMonth.toNat && op.splitPayMonth.toNat ≤ transferSavingsMaxMonth,
      "split_pay_month >= SIGMAENGINE_TRANSFER_SAVINGS_MIN_MONTH"⟩] ++ validateMemo fc op.memo

def TokenOperation.validate : TokenOperation → List Check
  | .createToken op => op.validate
  | .issueToken op => op.validate
  | .transferToken op => op.validate fc
  | .burnToken op => op.validate
  | .setupTokenFund op => op.validate
  | .setTokenStakingInterest op => op.validate
  | .transferTokenFund op => op.validate fc
  | .stakingTokenFund op => op.validate fc
  | .transferTokenSavings op => op.validate fc
  | .cancelTransferTokenSavings op => [validateAccountName op.from_]
  | .concludeTransferTokenSavings op => [validateAccountName op.from_]

omit fc

def TokenOperation.getRequiredAuthorities (r : RequiredAuthorities) :
    TokenOperation → RequiredAuthorities
  | .createToken op => r.addOther [.ofKey op.dappKey]
  | .issueToken op => r.addOther [.ofKey op.dappKey]
  | .transferToken op => r.addActive [op.from_]
  | .burnToken op => r.addActive [op.account]
  | .setupTokenFund op => r.addActive [op.tokenPublisher]
  | .setTokenStakingInterest op => r.addActive [op.tokenPublisher]
  | .transferTokenFund op => r.addActive [op.from_]
  | .stakingTokenFund op => r.addActive [op.from_]
  | .transferTokenSavings op => r.addActive [op.from_]
  | .cancelTransferTokenSavings op => r.addActive [op.from_]
  | .concludeTransferTokenSavings op => r.addActive [op.from_]

end Sigmaengine.Token
