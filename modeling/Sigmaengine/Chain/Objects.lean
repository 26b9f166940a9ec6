import Sigmaengine.Protocol.Block

/-!
# Chain objects

The objects the chain keeps in its indices (`account_object.hpp`, `bobserver_objects.hpp`,
`sigmaengine_objects.hpp`, `global_property_object.hpp`, ...) and, for each, which unique secondary
keys two objects may not share.  Balances of accounts and common funds carry `SGT_SYMBOL` by
construction and are plain integers here.
-/

namespace Sigmaengine

structure AccountObject where
  name : AccountName
  memoKey : PublicKey := {}
  jsonMetadata : Bytes := []
  lastAccountUpdate : TimePointSec := 0
  created : TimePointSec := 0
  mined : Bool := true
  recoveryAccount : AccountName := default
  resetAccount : AccountName := nullAccount
  lastAccountRecovery : TimePointSec := 0
  balance : Int := 0
  savingsBalance : Int := 0
  banned : Bool := false
  postCount : Nat := 0
  lastPost : TimePointSec := 0
  lastRootPost : TimePointSec := 0

/-- `by_name` is unique; the other indices end in the id. -/
instance : Clash AccountObject where
  clash a b := a.name == b.name

structure AccountAuthorityObject where
  account : AccountName
  owner : Authority := {}
  active : Authority := {}
  posting : Authority := {}
  lastOwnerUpdate : TimePointSec := 0

/-- Every index of the authorities ends in the id. -/
instance : Clash AccountAuthorityObject where
  clash _ _ := false

structure OwnerAuthorityHistoryObject where
  account : AccountName
  previousOwnerAuthority : Authority
  lastValidTime : TimePointSec

instance : Clash OwnerAuthorityHistoryObject where
  clash _ _ := false

structure AccountRecoveryRequestObject where
  accountToRecover : AccountName
  newOwnerAuthority : Authority
  expires : TimePointSec

instance : Clash AccountRecoveryRequestObject where
  clash _ _ := false

structure ChangeRecoveryAccountRequestObject where
  accountToRecover : AccountName
  recoveryAccount : AccountName
  effectiveOn : TimePointSec

instance : Clash ChangeRecoveryAccountRequestObject where
  clash _ _ := false

structure DeclineVotingRightsRequestObject where
  account : Nat
  effectiveDate : TimePointSec

instance : Clash DeclineVotingRightsRequestObject where
  clash a b := a.account == b.account

/-- A C string ends at its first zero byte; `strcmp_less` compares up to there. -/
def cStr (s : Bytes) : Bytes := s.takeWhile (· != 0)

structure AccountAuthObject where
  account : AccountName
  authType : Bytes
  authToken : Bytes
  regDate : TimePointSec

instance : Clash AccountAuthObject where
  clash a b := a.account == b.account && cStr a.authType == cStr b.authType

structure SavingsWithdrawObject where
  from_ : AccountName
  to_ : AccountName
  memo : Bytes
  requestId : Nat
  amount : Int
  totalAmount : Int
  splitPayOrder : UInt8
  splitPayMonth : UInt8
  complete : TimePointSec
deriving DecidableEq

/-- `by_from_rid`; two objects equal in `by_complete_from_rid` are equal there too. -/
instance : Clash SavingsWithdrawObject where
  clash a b := a.from_ == b.from_ && a.requestId == b.requestId

/-- The order of `by_complete_from_rid`. -/
def SavingsWithdrawObject.before (a b : Nat × SavingsWithdrawObject) : Bool :=
  a.2.complete < b.2.complete || a.2.complete == b.2.complete &&
    (a.2.from_.lt b.2.from_ || a.2.from_ == b.2.from_ && a.2.requestId < b.2.requestId)

structure FundWithdrawObject where
  from_ : AccountName
  fundName : Bytes
  memo : Bytes
  requestId : Nat
  amount : Int
  complete : TimePointSec

/-- `by_from_id` compares the fund names as C strings. -/
instance : Clash FundWithdrawObject where
  clash a b := a.from_ == b.from_ && cStr a.fundName == cStr b.fundName && a.requestId == b.requestId

/-- `std::less< shared_string >` compares bytes as unsigned characters. -/
def bytesLt : Bytes → Bytes → Bool
  | _, [] => false
  | [], _ :: _ => true
  | a :: as, b :: bs => a < b || a == b && bytesLt as bs

/-- The order of `by_complete_from`. -/
def FundWithdrawObject.before (a b : Nat × FundWithdrawObject) : Bool :=
  a.2.complete < b.2.complete || a.2.complete == b.2.complete &&
    (a.2.from_.lt b.2.from_ || a.2.from_ == b.2.from_ &&
      (bytesLt a.2.fundName b.2.fundName || a.2.fundName == b.2.fundName && a.1 < b.1))

structure CommonFundObject where
  name : CommonFundName
  fundBalance : Int := 0
  fundWithdrawReady : Int := 0
  percentInterest : Nat → Nat → Double
  lastUpdate : TimePointSec

instance : Clash CommonFundObject where
  clash a b := a.name == b.name

structure DappRewardFundObject where
  fundBalance : Int := 0
  lastUpdate : TimePointSec := 0

structure BobserverObject where
  account : AccountName
  created : TimePointSec := 0
  url : Bytes := []
  totalMissed : Nat := 0
  lastAslot : Nat := 0
  lastConfirmedBlockNum : Nat := 0
  signingKey : PublicKey := {}
  votes : Int := 0
  runningVersion : Version := 0
  hardforkVersionVote : HardforkVersion := default
  hardforkTimeVote : TimePointSec := genesisTime
  isBproducer : Bool := false
  isExcepted : Bool := false
  bpOwner : AccountName := default

instance : Clash BobserverObject where
  clash a b := a.account == b.account

structure BobserverScheduleObject where
  nextShuffleBlockNum : Nat := 1
  currentShuffledBobservers : List AccountName
  numScheduledBobservers : Nat := 1
  majorityVersion : Version := 0
  maxVotedBobservers : Nat := maxVotedBobservers
  hardforkRequiredBobservers : Nat := hardforkRequiredBobservers

structure HardforkPropertyObject where
  processedHardforks : List TimePointSec
  lastHardfork : Nat := 0
  currentHardforkVersion : HardforkVersion := default
  nextHardfork : HardforkVersion := default
  nextHardforkTime : TimePointSec := 0

structure TransactionObject where
  trxId : Nat
  expiration : TimePointSec

instance : Clash TransactionObject where
  clash a b := a.trxId == b.trxId

structure DynamicGlobalPropertyObject where
  headBlockNumber : Nat := 0
  headBlockId : BlockId := {}
  time : TimePointSec := 0
  currentBobserver : AccountName
  currentSupply : Int := 0
  maximumBlockSize : Nat := 0
  currentAslot : Nat := 0
  recentSlotsFilled : Nat := 0
  participationCount : Nat := 0
  dappTransactionFee : Int := 0
  lastIrreversibleBlockNum : Nat := 0
  currentBproducerCount : Nat := 0
  lastDappVotingAggregationTime : TimePointSec := 0

/-- The indices of the chain itself. -/
structure Core where
  accounts : Table AccountObject
  accountAuthorities : Table AccountAuthorityObject
  ownerAuthorityHistory : Table OwnerAuthorityHistoryObject
  accountRecoveryRequests : Table AccountRecoveryRequestObject
  changeRecoveryAccountRequests : Table ChangeRecoveryAccountRequestObject
  declineVotingRightsRequests : Table DeclineVotingRightsRequestObject
  accountAuths : Table AccountAuthObject
  savingsWithdraws : Table SavingsWithdrawObject
  fundWithdraws : Table FundWithdrawObject
  commonFunds : Table CommonFundObject
  dappRewardFund : DappRewardFundObject
  bobservers : Table BobserverObject
  bobserverSchedule : BobserverScheduleObject
  hardforkProperty : HardforkPropertyObject
  transactions : Table TransactionObject
  blockSummaries : Nat → BlockId
  dgp : DynamicGlobalPropertyObject

end Sigmaengine
