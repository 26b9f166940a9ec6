import Sigmaengine.Lib.Table

/-!
# Protocol types and constants

The value types shared by operations and chain objects (`protocol/types.hpp`, `asset.hpp`,
`fixed_string.hpp`, `authority.hpp`, `config.hpp`) and the checked 64-bit arithmetic of `fc/safe.hpp`.
Amounts are integers; every sum and difference the code forms goes through the range check.
-/

namespace Sigmaengine

open Effect

/-- A `std::string`: bytes, no encoding implied. -/
abbrev Bytes := List UInt8

/-- Text of the source as bytes. -/
def ascii (cs : List Char) : Bytes := cs.map fun c => UInt8.ofNat c.toNat

/-! ## Exceptions -/

/-- What the code throws.  `$x` in a text stands for the interpolated value. -/
inductive Error
  | assertion (text : String)
  | overflow
  | underflow
  | divideByZero
  | couldNotInsert
  | couldNotModify
  | notFound
  | parse
  | diverged
deriving DecidableEq, Repr

instance : TableError Error := ⟨.couldNotInsert, .couldNotModify, .notFound⟩

/-- `FC_ASSERT`. -/
def fcAssert {σ : Type} (c : Bool) (text : String) : Prog Error σ Unit :=
  Effect.assert c (.assertion text)

theorem fcAssert_eq_ok {σ : Type} {c : Bool} {text : String} {s s' : σ} {u : Unit} :
    (fcAssert c text : Prog Error σ Unit) s = .ok u s' ↔ c = true ∧ s = s' :=
  assert_eq_ok

/-! ## `safe<int64_t>` -/

def int64Min : Int := -9223372036854775808
def int64Max : Int := 9223372036854775807

/-- A value of `int64_t`. -/
def InInt64 (a : Int) : Prop := int64Min ≤ a ∧ a ≤ int64Max

instance (a : Int) : Decidable (InInt64 a) := inferInstanceAs (Decidable (_ ∧ _))

def safeAdd (a b : Int) : Except Error Int :=
  if 0 < b ∧ int64Max - b < a then .error .overflow
  else if b < 0 ∧ a < int64Min - b then .error .underflow
  else .ok (a + b)

def safeSub (a b : Int) : Except Error Int :=
  if 0 < b ∧ a < int64Min + b then .error .underflow
  else if b < 0 ∧ int64Max + b < a then .error .overflow
  else .ok (a - b)

def safeNeg (a : Int) : Except Error Int :=
  if a = int64Min then .error .overflow else .ok (-a)

/-- C++ division truncates towards zero. -/
def safeDiv (a b : Int) : Except Error Int :=
  if b = 0 then .error .divideByZero
  else if a = int64Min ∧ b = -1 then .error .overflow
  else .ok (a.tdiv b)

theorem safeAdd_eq_ok {a b c : Int} (h : safeAdd a b = .ok c) : c = a + b := by
  unfold safeAdd at h
  split at h
  · cases h
  · split at h
    · cases h
    · cases h
      rfl

theorem safeSub_eq_ok {a b c : Int} (h : safeSub a b = .ok c) : c = a - b := by
  unfold safeSub at h
  split at h
  · cases h
  · split at h
    · cases h
    · cases h
      rfl

theorem safeNeg_eq_ok {a c : Int} (h : safeNeg a = .ok c) : c = -a := by
  unfold safeNeg at h
  split at h
  · cases h
  · cases h
    rfl

theorem safeAdd_of_inInt64 {a b : Int} (h : InInt64 (a + b)) : safeAdd a b = .ok (a + b) := by
  obtain ⟨hlo, hhi⟩ := h
  unfold safeAdd
  rw [if_neg (by omega), if_neg (by omega)]

theorem safeSub_of_inInt64 {a b : Int} (h : InInt64 (a - b)) : safeSub a b = .ok (a - b) := by
  obtain ⟨hlo, hhi⟩ := h
  unfold safeSub
  rw [if_neg (by omega), if_neg (by omega)]

/-- A checked credit does not pass the largest value. -/
theorem le_of_safeAdd {a b c : Int} (hb : 0 < b) (h : safeAdd a b = .ok c) : a + b ≤ int64Max := by
  unfold safeAdd at h
  split at h
  · cases h
  · omega

/-- A checked sum does not pass the largest value when its left operand does not. -/
theorem safeAdd_le {a b c : Int} (ha : a ≤ int64Max) (h : safeAdd a b = .ok c) : a + b ≤ int64Max := by
  by_cases hb : 0 < b
  · exact le_of_safeAdd hb h
  · omega

/-! ## Names -/

/-- `fixed_string`: up to `w` characters, stored big-endian and padded with zero bytes. -/
structure FixedString (w : Nat) where
  data : BitVec (8 * w)
deriving DecidableEq, Repr

namespace FixedString

variable {w : Nat}

/-- Longer texts are cut off at `w` bytes. -/
def ofBytes (s : Bytes) : FixedString w :=
  ⟨BitVec.ofNat _ ((s.take w).foldl (fun n b => 256 * n + b.toNat) 0 * 256 ^ (w - s.length))⟩

instance : Inhabited (FixedString w) := ⟨⟨0⟩⟩

/-- The `w` stored bytes. -/
def raw (s : FixedString w) : Bytes :=
  (List.range w).map fun i => UInt8.ofNat (s.data.toNat / 256 ^ (w - 1 - i) % 256)

/-- `operator std::string`: all `w` bytes when the last one is not zero, else up to the first zero. -/
def toBytes (s : FixedString w) : Bytes :=
  if s.data.toNat % 256 ≠ 0 then s.raw else s.raw.takeWhile (· != 0)

def size (s : FixedString w) : Nat := s.toBytes.length

/-- `operator <`: the stored words as one big-endian number. -/
def lt (a b : FixedString w) : Bool := a.data.toNat < b.data.toNat

end FixedString

abbrev AccountName := FixedString 64
abbrev TokenName := FixedString 64
abbrev DappName := FixedString 32
abbrev FundName := FixedString 32
abbrev CommonFundName := FixedString 16

/-- `time_point_sec`: seconds since the epoch in 32 bits. -/
abbrev TimePointSec := Nat

/-- Adding seconds to a `time_point_sec` wraps. -/
def addSeconds (t : TimePointSec) (d : Nat) : TimePointSec := (t + d) % 4294967296

/-- A compressed public key; the zero key is `public_key_type()`. -/
structure PublicKey where
  data : Nat := 0
deriving DecidableEq, Repr

instance : Inhabited PublicKey := ⟨{}⟩

/-- The bit pattern of a C `double`. -/
abbrev Double := UInt64

/-! ## Assets -/

abbrev AssetSymbol := Nat

structure Asset where
  amount : Int
  symbol : AssetSymbol
deriving DecidableEq, Repr

/-- `SGT_SYMBOL`: six decimals and the letters TNC. -/
def sgtSymbol : AssetSymbol := 6 + 84 * 2 ^ 8 + 78 * 2 ^ 16 + 67 * 2 ^ 24

namespace Asset

/-- `operator +=`, `operator +`. -/
def add (a b : Asset) : Except Error Asset :=
  if a.symbol = b.symbol then
    (safeAdd a.amount b.amount).map fun n => ⟨n, a.symbol⟩
  else .error (.assertion "symbol == o.symbol")

/-- `operator -=`, `operator -`. -/
def sub (a b : Asset) : Except Error Asset :=
  if a.symbol = b.symbol then
    (safeSub a.amount b.amount).map fun n => ⟨n, a.symbol⟩
  else .error (.assertion "symbol == o.symbol")

/-- Unary minus. -/
def neg (a : Asset) : Except Error Asset :=
  (safeNeg a.amount).map fun n => ⟨n, a.symbol⟩

/-- `operator >=`, which refuses to compare different symbols. -/
def ge (a b : Asset) : Except Error Bool :=
  if a.symbol = b.symbol then .ok (b.amount ≤ a.amount)
  else .error (.assertion "a.symbol == b.symbol")

/-- `operator <=` is `(a == b) || (a < b)`. -/
def le (a b : Asset) : Except Error Bool :=
  if a = b then .ok true
  else if a.symbol = b.symbol then .ok (a.amount < b.amount)
  else .error (.assertion "a.symbol == b.symbol")

theorem add_eq_ok {a b c : Asset} (h : a.add b = .ok c) :
    a.symbol = b.symbol ∧ safeAdd a.amount b.amount = .ok c.amount ∧ c.symbol = a.symbol := by
  unfold add at h
  split at h
  · rename_i hs
    cases hadd : safeAdd a.amount b.amount with
    | error e => rw [hadd] at h; cases h
    | ok n => rw [hadd] at h; cases h; exact ⟨hs, rfl, rfl⟩
  · cases h

theorem sub_eq_ok {a b c : Asset} (h : a.sub b = .ok c) :
    a.symbol = b.symbol ∧ safeSub a.amount b.amount = .ok c.amount ∧ c.symbol = a.symbol := by
  unfold sub at h
  split at h
  · rename_i hs
    cases hsub : safeSub a.amount b.amount with
    | error e => rw [hsub] at h; cases h
    | ok n => rw [hsub] at h; cases h; exact ⟨hs, rfl, rfl⟩
  · cases h

theorem neg_eq_ok {a b : Asset} (h : a.neg = .ok b) :
    b.amount = -a.amount ∧ b.symbol = a.symbol := by
  unfold neg at h
  cases hneg : safeNeg a.amount with
  | error e => rw [hneg] at h; cases h
  | ok n => rw [hneg] at h; cases h; exact ⟨safeNeg_eq_ok hneg, rfl⟩

end Asset

/-! ## Authorities -/

structure Authority where
  weightThreshold : Nat := 0
  accountAuths : List (AccountName × Nat) := []
  keyAuths : List (PublicKey × Nat) := []
deriving DecidableEq, Repr

instance : Inhabited Authority := ⟨{}⟩

namespace Authority

/-- `authority( 1, key, 1 )`. -/
def ofKey (k : PublicKey) : Authority := { weightThreshold := 1, keyAuths := [(k, 1)] }

def isImpossible (a : Authority) : Bool :=
  (a.accountAuths.map Prod.snd).sum + (a.keyAuths.map Prod.snd).sum < a.weightThreshold

end Authority

def isLetter (c : UInt8) : Bool := (97 ≤ c && c ≤ 122) || (65 ≤ c && c ≤ 90)
def isDigit (c : UInt8) : Bool := 48 ≤ c && c ≤ 57

/-- `is_valid_account_name`: 3 to 64 characters, a letter first, a letter or digit last, letters,
digits and hyphens between. -/
def isValidAccountName (name : Bytes) : Bool :=
  3 ≤ name.length && name.length ≤ 64 &&
    (name.head?.map isLetter).getD false &&
    (name.getLast?.map fun c => isLetter c || isDigit c).getD false &&
    (name.drop 1).dropLast.all fun c => isLetter c || isDigit c || c == 45

/-! ## Constants of `config.hpp` -/

def nullAccount : AccountName := .ofBytes (ascii ['n', 'u', 'l', 'l'])
def minerAccount : AccountName := .ofBytes (ascii ['m', 'i', 'n', 'e', 'r', 's'])
def tempAccount : AccountName := .ofBytes (ascii ['t', 'e', 'm', 'p'])
def rootAccount : AccountName := .ofBytes (ascii ['r', 'o', 'o', 't'])
def initMinerName : AccountName :=
  .ofBytes (ascii ['c', 'h', 'a', 'i', 'n', 'm', 'a', 'k', 'e', 'r'])
def depositFundName : Bytes := ascii ['d', 'e', 'p', 'o', 's', 'i', 't']

def genesisTime : TimePointSec := 1571116444
def initSupply : Nat := 0
def blockInterval : Nat := 3
def numBobservers : Nat := 21
def startMinerVotingBlock : Nat := 864000
def maxVotedBobservers : Nat := 17
def hardforkRequiredBobservers : Nat := 17
def hardforkRequiredBobserversHf2 : Nat := 11
def minFeeds : Nat := 7
def maxFeedAgeSeconds : Nat := 604800
def maxTimeUntilExpiration : Nat := 3600
def maxMemoSize : Nat := 2048
def maxPermlinkLength : Nat := 256
def maxBobserverUrlLength : Nat := 2048
def maxUndoHistory : Nat := 10000
def maxBlockSize : Nat := 13107200 * 6000 % 4294967296
def secondsPerDay : Nat := 86400
def ownerAuthRecoveryPeriod : Nat := 30 * secondsPerDay
def accountRecoveryRequestExpirationPeriod : Nat := secondsPerDay
def ownerUpdateLimit : Nat := 5
def transferSavingsCycle : Nat := 30 * secondsPerDay
def maxCommentDepth : Nat := 65535
def minRootCommentInterval : Nat := 3
def minReplyInterval : Nat := 3
def stakingInterestPrecisionDigits : Nat := 3
def stakingInterestPrecision : Int := 1000
def tokenMax : Int := 90000000000
def transferSavingsMinMonth : Nat := 1
def transferSavingsMaxMonth : Nat := 24

end Sigmaengine
