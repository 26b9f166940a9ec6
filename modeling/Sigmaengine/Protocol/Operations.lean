import Sigmaengine.Protocol.Types

/-!
# Core operations

The operations of `sigmaengine_operations.hpp` with their `validate` and the authorities they ask for.
A `validate` is the list of its assertions in the order the source makes them.
-/

namespace Sigmaengine

/-! ## Code outside this development -/

/-- Text predicates of `fc` that `validate` and the evaluators call. -/
structure TextRules where
  isUtf8 : Bytes → Bool
  isValidJson : Bytes → Bool

/-! ## Assertions -/

/-- One `FC_ASSERT` of a `validate`. -/
structure Check where
  holds : Bool
  text : String

/-- The first failing assertion is thrown. -/
def runChecks : List Check → Except Error Unit
  | [] => .ok ()
  | c :: cs => if c.holds then runChecks cs else .error (.assertion c.text)

theorem runChecks_eq_ok {cs : List Check} {u : Unit} :
    runChecks cs = .ok u ↔ ∀ c ∈ cs, c.holds = true := by
  induction cs with
  | nil => simp [runChecks]
  | cons c cs ih =>
    unfold runChecks
    by_cases h : c.holds = true
    · simp [h, ih]
    · simp [h]

def validateAccountName (name : AccountName) : Check :=
  ⟨isValidAccountName name.toBytes, "Account name $n is invalid"⟩

def validateAuthority (a : Authority) : Check :=
  ⟨a.accountAuths.all fun item => isValidAccountName item.1.toBytes,
    "is_valid_account_name( item.first )"⟩

def validateMemo (fc : TextRules) (memo : Bytes) : List Check :=
  [⟨memo.length < maxMemoSize, "Memo is too large"⟩, ⟨fc.isUtf8 memo, "Memo is not UTF8"⟩]

def validateJsonMetadata (fc : TextRules) (json : Bytes) : List Check :=
  [⟨json.isEmpty || fc.isUtf8 json, "JSON Metadata not formatted in UTF8"⟩,
    ⟨json.isEmpty || fc.isValidJson json, "JSON Metadata not valid JSON"⟩]

/-! ## Required authorities -/

/-- Insertion into a `flat_set`, kept sorted and without repetition. -/
def flatInsert (a : AccountName) : List AccountName → List AccountName
  | [] => [a]
  | b :: bs => if a = b then b :: bs else if a.lt b then a :: b :: bs else b :: flatInsert a bs

/-- What `operation_get_required_authorities` collects. -/
structure RequiredAuthorities where
  active : List AccountName := []
  owner : List AccountName := []
  posting : List AccountName := []
  other : List Authority := []
deriving DecidableEq

namespace RequiredAuthorities

def addActive (r : RequiredAuthorities) (as : List AccountName) : RequiredAuthorities :=
  { r with active := as.foldl (fun s a => flatInsert a s) r.active }

def addOwner (r : RequiredAuthorities) (as : List AccountName) : RequiredAuthorities :=
  { r with owner := as.foldl (fun s a => flatInsert a s) r.owner }

def addPosting (r : RequiredAuthorities) (as : List AccountName) : RequiredAuthorities :=
  { r with posting := as.foldl (fun s a => flatInsert a s) r.posting }

def addOther (r : RequiredAuthorities) (as : List Authority) : RequiredAuthorities :=
  { r with other := r.other ++ as }

end RequiredAuthorities

/-! ## The operations -/

structure AccountCreateOperation where
  creator : AccountName
  newAccountName : AccountName
  owner : Authority
  active : Authority
  posting : Authority
  memoKey : PublicKey
  jsonMetadata : Bytes

structure AccountUpdateOperation where
  account : AccountName
  owner : Option Authority
  active : Option Authority
  posting : Option Authority
  memoKey : PublicKey
  jsonMetadata : Bytes

structure TransferOperation where
  from_ : AccountName
  to_ : AccountName
  amount : Asset
  memo : Bytes

structure BobserverUpdateOperation where
  root : AccountName
  owner : AccountName
  url : Bytes
  blockSigningKey : PublicKey

structure CustomOperation where
  requiredAuths : List AccountName
  data : Bytes

structure CustomJsonOperation where
  requiredAuths : List AccountName
  requiredPostingAuths : List AccountName
  id : Bytes
  json : Bytes

/-- The fields `custom_json_dapp_operation` and `custom_binary_operation` have in common; the payload
is the text of the first and the data of the second. -/
structure CustomDappOperation where
  requiredOwnerAuths : List AccountName
  requiredActiveAuths : List AccountName
  requiredPostingAuths : List AccountName
  requiredAuths : List Authority
  id : Bytes
  payload : Bytes

structure RequestAccountRecoveryOperation where
  recoveryAccount : AccountName
  accountToRecover : AccountName
  newOwnerAuthority : Authority

structure RecoverAccountOperation where
  accountToRecover : AccountName
  newOwnerAuthority : Authority
  recentOwnerAuthority : Authority

structure ResetAccountOperation where
  resetAccount : AccountName
  accountToReset : AccountName
  newOwnerAuthority : Authority

structure SetResetAccountOperation where
  account : AccountName
  currentResetAccount : AccountName
  resetAccount : AccountName

structure ChangeRecoveryAccountOperation where
  accountToRecover : AccountName
  newRecoveryAccount : AccountName

structure DeclineVotingRightsOperation where
  account : AccountName
  decline : Bool

structure UpdateBproducerOperation where
  root : AccountName
  bobserver : AccountName
  approve : Bool

structure ExceptBobserverOperation where
  root : AccountName
  bobserver : AccountName

structure AccountAuthOperation where
  account : AccountName
  authType : Bytes
  authToken : Bytes

/-- `print_operation` and `burn_operation` have the same fields. -/
structure SupplyOperation where
  root : AccountName
  account : AccountName
  amount : Asset

structure TransferSavingsOperation where
  from_ : AccountName
  requestId : Nat
  to_ : AccountName
  amount : Asset
  splitPayOrder : UInt8
  splitPayMonth : UInt8
  memo : Bytes
  complete : TimePointSec

structure CancelTransferSavingsOperation where
  from_ : AccountName
  to_ : AccountName
  amount : Asset
  requestId : Nat

structure ConclusionTransferSavingsOperation where
  from_ : AccountName
  to_ : AccountName
  requestId : Nat

structure StakingFundOperation where
  from_ : AccountName
  fundName : Bytes
  requestId : Nat
  amount : Asset
  memo : Bytes
  usertype : UInt8
  month : UInt8

structure ConclusionStakingOperation where
  root : AccountName
  from_ : AccountName
  fundName : Bytes
  requestId : Nat

structure ReturnStakingFundOperation where
  root : AccountName
  fundName : Bytes
  requestId : Nat
  to_ : AccountName

structure TransferFundOperation where
  from_ : AccountName
  fundName : Bytes
  amount : Asset
  memo : Bytes

structure SetFundInterestOperation where
  root : AccountName
  fundName : Bytes
  usertype : UInt8
  month : UInt8
  percentInterest : Bytes

structure SetBlacklistAccountOperation where
  root : AccountName
  account : AccountName
  banned : Bool

/-- `operation`; the virtual operations, which no transaction can carry past `validate`, are one
constructor. -/
inductive Operation
  | transfer (op : TransferOperation)
  | accountCreate (op : AccountCreateOperation)
  | accountUpdate (op : AccountUpdateOperation)
  | bobserverUpdate (op : BobserverUpdateOperation)
  | custom (op : CustomOperation)
  | customJson (op : CustomJsonOperation)
  | requestAccountRecovery (op : RequestAccountRecoveryOperation)
  | recoverAccount (op : RecoverAccountOperation)
  | changeRecoveryAccount (op : ChangeRecoveryAccountOperation)
  | customBinary (op : CustomDappOperation)
  | declineVotingRights (op : DeclineVotingRightsOperation)
  | resetAccount (op : ResetAccountOperation)
  | setResetAccount (op : SetResetAccountOperation)
  | updateBproducer (op : UpdateBproducerOperation)
  | exceptBobserver (op : ExceptBobserverOperation)
  | accountAuth (op : AccountAuthOperation)
  | print (op : SupplyOperation)
  | burn (op : SupplyOperation)
  | transferSavings (op : TransferSavingsOperation)
  | cancelTransferSavings (op : CancelTransferSavingsOperation)
  | conclusionTransferSavings (op : ConclusionTransferSavingsOperation)
  | stakingFund (op : StakingFundOperation)
  | conclusionStaking (op : ConclusionStakingOperation)
  | transferFund (op : TransferFundOperation)
  | setFundInterest (op : SetFundInterestOperation)
  | returnStakingFund (op : ReturnStakingFundOperation)
  | customJsonDapp (op : CustomDappOperation)
  | setBlacklistAccount (op : SetBlacklistAccountOperation)
  | virtual

/-! ## `validate` -/

variable (fc : TextRules)

def AccountCreateOperation.validate (op : AccountCreateOperation) : List Check :=
  [validateAccountName op.newAccountName, validateAuthority op.owner, validateAuthority op.active] ++
    validateJsonMetadata fc op.jsonMetadata

def AccountUpdateOperation.validate (op : AccountUpdateOperation) : List Check :=
  validateAccountName op.account :: validateJsonMetadata fc op.jsonMetadata

def TransferOperation.validate (op : TransferOperation) : List Check :=
  [validateAccountName op.from_, validateAccountName op.to_,
    ⟨0 < op.amount.amount, "Cannot transfer a negative amount (aka: stealing)"⟩] ++
    validateMemo fc op.memo

def BobserverUpdateOperation.validate (op : BobserverUpdateOperation) : List Check :=
  [validateAccountName op.owner, ⟨0 < op.url.length, "URL size must be greater than 0"⟩,
    ⟨fc.isUtf8 op.url, "URL is not valid UTF8"⟩]

def CustomOperation.validate (op : CustomOperation) : List Check :=
  [⟨0 < op.requiredAuths.length, "at least on account must be specified"⟩]

def CustomJsonOperation.validate (op : CustomJsonOperation) : List Check :=
  [⟨0 < op.requiredAuths.length + op.requiredPostingAuths.length,
      "at least on account must be specified"⟩,
    ⟨op.id.length ≤ 32, "id is too long"⟩,
    ⟨fc.isUtf8 op.json, "JSON Metadata not formatted in UTF8"⟩,
    ⟨fc.isValidJson op.json, "JSON Metadata not valid JSON"⟩]

/-- The number of accounts and authorities a dapp operation names. -/
def CustomDappOperation.authCount (op : CustomDappOperation) : Nat :=
  op.requiredOwnerAuths.length + op.requiredActiveAuths.length + op.requiredPostingAuths.length +
    op.requiredAuths.length

/-- `custom_json_dapp_operation::validate`. -/
def CustomDappOperation.validateJson (op : CustomDappOperation) : List Check :=
  ⟨0 < op.authCount, "at least on account must be specified"⟩ ::
    op.requiredAuths.map validateAuthority ++
    [⟨op.id.length ≤ 32, "id is too long"⟩,
      ⟨fc.isUtf8 op.payload, "JSON Metadata not formatted in UTF8"⟩,
      ⟨fc.isValidJson op.payload, "JSON Metadata not valid JSON"⟩]

/-- `custom_binary_operation::validate`. -/
def CustomDappOperation.validateBinary (op : CustomDappOperation) : List Check :=
  [⟨0 < op.authCount, "at least on account must be specified"⟩,
    ⟨op.id.length ≤ 32, "id is too long"⟩] ++ op.requiredAuths.map validateAuthority

def RequestAccountRecoveryOperation.validate (op : RequestAccountRecoveryOperation) : List Check :=
  [validateAccountName op.recoveryAccount, validateAccountName op.accountToRecover,
    validateAuthority op.newOwnerAuthority]

def RecoverAccountOperation.validate (op : RecoverAccountOperation) : List Check :=
  [validateAccountName op.accountToRecover,
    ⟨op.newOwnerAuthority ≠ op.recentOwnerAuthority,
      "Cannot set new owner authority to the recent owner authority"⟩,
    ⟨!op.newOwnerAuthority.isImpossible, "new owner authority cannot be impossible"⟩,
    ⟨!op.recentOwnerAuthority.isImpossible, "recent owner authority cannot be impossible"⟩,
    ⟨op.newOwnerAuthority.weightThreshold ≠ 0, "new owner authority cannot be trivial"⟩,
    validateAuthority op.newOwnerAuthority, validateAuthority op.recentOwnerAuthority]

def ChangeRecoveryAccountOperation.validate (op : ChangeRecoveryAccountOperation) : List Check :=
  [validateAccountName op.accountToRecover, validateAccountName op.newRecoveryAccount]

def ResetAccountOperation.validate (op : ResetAccountOperation) : List Check :=
  [validateAccountName op.resetAccount, validateAccountName op.accountToReset,
    ⟨!op.newOwnerAuthority.isImpossible, "new owner authority cannot be impossible"⟩,
    ⟨op.newOwnerAuthority.weightThreshold ≠ 0, "new owner authority cannot be trivial"⟩,
    validateAuthority op.newOwnerAuthority]

def SetResetAccountOperation.validate (op : SetResetAccountOperation) : List Check :=
  [validateAccountName op.account,
    ⟨op.currentResetAccount.size == 0 || isValidAccountName op.currentResetAccount.toBytes,
      "Account name $n is invalid"⟩,
    validateAccountName op.resetAccount,
    ⟨op.currentResetAccount ≠ op.resetAccount, "new reset account cannot be current reset account"⟩]

/-- `print_operation::validate` and `burn_operation::validate`. -/
def SupplyOperation.validate (op : SupplyOperation) : List Check :=
  [validateAccountName op.account, ⟨0 < op.amount.amount, "amount cannot be negative"⟩]

def TransferSavingsOperation.validate (op : TransferSavingsOperation) : List Check :=
  [validateAccountName op.from_, validateAccountName op.to_,
    ⟨0 < op.amount.amount, "amount.amount > 0"⟩,
    ⟨op.amount.symbol = sgtSymbol, "amount.symbol == SGT_SYMBOL"⟩] ++ validateMemo fc op.memo

def StakingFundOperation.validate (op : StakingFundOperation) : List Check :=
  [validateAccountName op.from_, ⟨0 < op.fundName.length, "fund_name.size() > 0"⟩,
    ⟨0 < op.amount.amount, "amount.amount > 0"⟩,
    ⟨op.amount.symbol = sgtSymbol, "amount.symbol == SGT_SYMBOL"⟩,
    ⟨op.usertype ≤ 1, "usertype >= 0 && usertype <= 1"⟩,
    ⟨1 ≤ op.month && op.month ≤ 12, "month >= 1 && month <= 12"⟩] ++ validateMemo fc op.memo

def ConclusionStakingOperation.validate (op : ConclusionStakingOperation) : List Check :=
  [validateAccountName op.from_, ⟨0 < op.fundName.length, "fund_name.size() > 0"⟩]

def ReturnStakingFundOperation.validate (op : ReturnStakingFundOperation) : List Check :=
  [validateAccountName op.to_, ⟨0 < op.fundName.length, "fund_name.size() > 0"⟩]

def TransferFundOperation.validate (op : TransferFundOperation) : List Check :=
  [validateAccountName op.from_, ⟨0 < op.fundName.length, "fund_name.size() >0"⟩,
    ⟨0 < op.amount.amount, "Cannot transfer a negative amount (aka: stealing)"⟩,
    ⟨op.amount.symbol = sgtSymbol, "amount.symbol == SGT_SYMBOL"⟩] ++ validateMemo fc op.memo

def SetFundInterestOperation.validate (op : SetFundInterestOperation) : List Check :=
  [validateAccountName op.root, ⟨0 < op.fundName.length, "fund_name.size() > 0"⟩,
    ⟨op.usertype ≤ 1, "usertype >= 0 && usertype <= 1"⟩,
    ⟨1 ≤ op.month && op.month ≤ 12, "month >= 1 && month <= 12"⟩,
    ⟨0 < op.percentInterest.length, "percent_interest.size() > 0"⟩]

def SetBlacklistAccountOperation.validate (op : SetBlacklistAccountOperation) : List Check :=
  [validateAccountName op.root, validateAccountName op.account]

/-- `operation_validate`. -/
def Operation.validate : Operation → List Check
  | .transfer op => op.validate fc
  | .accountCreate op => op.validate fc
  | .accountUpdate op => op.validate fc
  | .bobserverUpdate op => op.validate fc
  | .custom op => op.validate
  | .customJson op => op.validate fc
  | .requestAccountRecovery op => op.validate
  | .recoverAccount op => op.validate
  | .changeRecoveryAccount op => op.validate
  | .customBinary op => op.validateBinary
  | .declineVotingRights op => [validateAccountName op.account]
  | .resetAccount op => op.validate
  | .setResetAccount op => op.validate
  | .updateBproducer op => [validateAccountName op.bobserver]
  | .exceptBobserver op => [validateAccountName op.bobserver]
  | .accountAuth op => [validateAccountName op.account]
  | .print op => op.validate
  | .burn op => op.validate
  | .transferSavings op => op.validate fc
  | .cancelTransferSavings op => [validateAccountName op.from_]
  | .conclusionTransferSavings op => [validateAccountName op.from_]
  | .stakingFund op => op.validate fc
  | .conclusionStaking op => op.validate
  | .transferFund op => op.validate fc
  | .setFundInterest op => op.validate
  | .returnStakingFund op => op.validate
  | .customJsonDapp op => op.validateJson fc
  | .setBlacklistAccount op => op.validate
  | .virtual => [⟨false, "This is a virtual operation"⟩]

/-- Every assertion of the operation's `validate` holds. -/
def Operation.Valid (op : Operation) : Prop := ∀ c ∈ op.validate fc, c.holds = true

omit fc

/-- `operation_get_required_authorities`. -/
def Operation.getRequiredAuthorities (r : RequiredAuthorities) : Operation → RequiredAuthorities
  | .transfer op => r.addActive [op.from_]
  | .accountCreate op => r.addActive [op.creator]
  | .accountUpdate op => if op.owner.isSome then r.addOwner [op.account] else r.addActive [op.account]
  | .bobserverUpdate op => r.addActive [op.root]
  | .custom op => r.addActive op.requiredAuths
  | .customJson op => (r.addActive op.requiredAuths).addPosting op.requiredPostingAuths
  | .requestAccountRecovery op => r.addActive [op.recoveryAccount]
  | .recoverAccount op => r.addOther [op.newOwnerAuthority, op.recentOwnerAuthority]
  | .changeRecoveryAccount op => r.addOwner [op.accountToRecover]
  | .customBinary op | .customJsonDapp op =>
    (((r.addActive op.requiredActiveAuths).addOwner op.requiredOwnerAuths).addPosting
      op.requiredPostingAuths).addOther op.requiredAuths
  | .declineVotingRights op => r.addOwner [op.account]
  | .resetAccount op => r.addActive [op.resetAccount]
  | .setResetAccount op =>
    if op.currentResetAccount.size ≠ 0 then r.addOwner [op.account] else r.addPosting [op.account]
  | .updateBproducer op => r.addActive [op.root]
  | .exceptBobserver op => r.addActive [op.root]
  | .accountAuth op => r.addActive [op.account]
  | .print op | .burn op => r.addActive [op.root]
  | .transferSavings op => r.addActive [op.from_]
  | .cancelTransferSavings op => r.addActive [op.from_]
  | .conclusionTransferSavings op => r.addActive [op.from_]
  | .stakingFund op => r.addActive [op.from_]
  | .conclusionStaking op => r.addActive [op.root]
  | .transferFund op => r.addActive [op.from_]
  | .setFundInterest op => r.addActive [op.root]
  | .returnStakingFund op => r.addActive [op.root]
  | .setBlacklistAccount op => r.addActive [op.root]
  | .virtual => r

end Sigmaengine
