import Mathlib.Data.List.Sort
import Mathlib.Data.List.Dedup
import Sigmaengine.Chain.Evaluators

/-!
# Slots, schedule and hardforks

`get_slot_time`, `get_slot_at_time`, `get_scheduled_bobserver`, `bobserver_schedule.cpp` and the
hardfork processing of `database.cpp`.
-/

namespace Sigmaengine

open Effect Table

/-! ## Slots -/

def getSlotTime (s : Core) (slot : Nat) : TimePointSec :=
  if slot = 0 then 0
  else if s.dgp.headBlockNumber = 0 then addSeconds s.dgp.time (slot * blockInterval)
  else addSeconds (s.dgp.time / blockInterval * blockInterval) (slot * blockInterval)

def getSlotAtTime (s : Core) (t : TimePointSec) : Nat :=
  if t < getSlotTime s 1 then 0 else (t - getSlotTime s 1) / blockInterval + 1

def getScheduledBobserver (s : Core) (slot : Nat) : AccountName :=
  let wso := s.bobserverSchedule
  wso.currentShuffledBobservers.getD
    ((s.dgp.currentAslot + slot) % wso.numScheduledBobservers) default

/-! ## Shuffling -/

/-- The generator both shuffles draw from. -/
def xorshift (nowHi : UInt64) (i : Nat) : UInt64 :=
  let k := nowHi + UInt64.ofNat i * 2685821657736338717
  let k := k ^^^ (k >>> 12)
  let k := k ^^^ (k <<< 25)
  let k := k ^^^ (k >>> 27)
  k * 2685821657736338717

def swapAt {α : Type} (xs : List α) (i j : Nat) : List α :=
  match xs[i]?, xs[j]? with
  | some a, some b => (xs.set i b).set j a
  | _, _ => xs

/-- Swap position `i` with a drawn position in `[i, n)`, for the `left` positions up to `n`. -/
def shuffleFrom {α : Type} (nowHi : UInt64) (n : Nat) : Nat → List α → List α
  | 0, xs => xs
  | left + 1, xs =>
    let i := n - (left + 1)
    shuffleFrom nowHi n left (swapAt xs i (i + (xorshift nowHi i).toNat % (n - i)))

def shuffle {α : Type} (nowHi : UInt64) (n : Nat) (xs : List α) : List α := shuffleFrom nowHi n n xs

/-! ## The schedule of a round -/

/-- The bobservers in the order of `by_name`. -/
def byName (s : Core) : List BobserverObject :=
  (s.bobservers.rows.map Prod.snd).insertionSort fun a b => a.account.data.toNat ≤ b.account.data.toNat

/-- An excepted bobserver loses its signing key. -/
def shutdownExcepted : CoreM Unit := do
  let s ← get
  each (fun r => modifyIn Index.bobservers r.1 fun b => .ok { b with signingKey := {} })
    (s.bobservers.rows.filter fun r => r.2.isExcepted && r.2.signingKey != {})

/-- The block producers with a key, by name, up to the limit. -/
def selectedBp (s : Core) : List AccountName :=
  (((byName s).filter fun b => b.isBproducer && b.signingKey != {}).map fun b => b.account).take
    s.bobserverSchedule.maxVotedBobservers

/-- The other bobservers with a key, by name. -/
def availableBobservers (s : Core) : List AccountName :=
  ((byName s).filter fun b => b.signingKey != {} && !(selectedBp s).contains b.account).map
    fun b => b.account

/-- Block producers first, then drawn bobservers up to twenty-one. -/
def activeBobservers (s : Core) : List AccountName :=
  let bp := selectedBp s
  let available := availableBobservers s
  let nowHi := UInt64.ofNat (s.dgp.time * 4294967296)
  let drawn := shuffle nowHi available.length (List.range available.length)
  bp ++ (drawn.take (min (numBobservers - bp.length) available.length)).filterMap
    fun j => available[j]?

/-- The bobservers of the round that ends. -/
def scheduledBobservers (s : Core) : List AccountName :=
  (List.range s.bobserverSchedule.numScheduledBobservers).map fun i =>
    s.bobserverSchedule.currentShuffledBobservers.getD i default

/-- Look the names up in order. -/
def getBobservers : List AccountName → CoreM (List BobserverObject)
  | [] => pure []
  | n :: ns => do
    let b ← getBobserver n
    let bs ← getBobservers ns
    return b.2 :: bs

/-- The highest version that enough bobservers run at least. -/
def majorityVersion (required : Nat) (current : Version) (versions : List Version) : Version :=
  ((versions.dedup.insertionSort (· ≥ ·)).find? fun v =>
    decide (required ≤ versions.countP fun w => v ≤ w)).getD current

/-- Votes are ordered by version and then by time. -/
def voteLe (a b : HardforkVersion × TimePointSec) : Prop := a.1 < b.1 ∨ a.1 = b.1 ∧ a.2 ≤ b.2

instance (a b : HardforkVersion × TimePointSec) : Decidable (voteLe a b) :=
  inferInstanceAs (Decidable (_ ∨ _))

/-- The first hardfork vote with enough bobservers behind it. -/
def hardforkMajority (required : Nat) (votes : List (HardforkVersion × TimePointSec)) :
    Option (HardforkVersion × TimePointSec) :=
  (votes.dedup.insertionSort voteLe).find? fun v => required ≤ votes.count v

def setNextHardfork (votes : List (HardforkVersion × TimePointSec)) : CoreM Unit :=
  modify fun s =>
    { s with hardforkProperty :=
      match hardforkMajority s.bobserverSchedule.hardforkRequiredBobservers votes with
      | some (v, t) => { s.hardforkProperty with nextHardfork := v, nextHardforkTime := t }
      | none => { s.hardforkProperty with nextHardfork := s.hardforkProperty.currentHardforkVersion } }

/-- The schedule object of the new round. -/
def newSchedule (s : Core) (active : List AccountName) (versions : List Version) :
    BobserverScheduleObject :=
  let old := s.bobserverSchedule
  let num := max active.length 1
  let nowHi := UInt64.ofNat (s.dgp.time * 4294967296)
  { old with
    currentShuffledBobservers :=
      shuffle nowHi num (active ++ List.replicate (numBobservers - active.length) default)
    numScheduledBobservers := num
    nextShuffleBlockNum := (s.dgp.headBlockNumber + num) % 4294967296
    majorityVersion := majorityVersion old.hardforkRequiredBobservers old.majorityVersion versions }

def updateBobserverSchedule4 : CoreM Unit := do
  shutdownExcepted
  let s ← get
  let active := activeBobservers s
  let bobservers ← getBobservers (scheduledBobservers s)
  setNextHardfork (bobservers.map fun b => (b.hardforkVersionVote, b.hardforkTimeVote))
  modify fun s =>
    { s with bobserverSchedule := newSchedule s active (bobservers.map fun b => b.runningVersion) }

def updateBobserverSchedule : CoreM Unit := do
  let num ← headBlockNum
  if num % numBobservers = 0 then updateBobserverSchedule4 else pure ()

/-! ## Hardforks -/

/-- `SIGMAENGINE_NUM_HARDFORKS`. -/
def numHardforks : Nat := 1

/-- `_hardfork_versions`: 0.0 and 0.1. -/
def hardforkVersion (hardfork : Nat) : HardforkVersion := ⟨hardfork * 65536, Nat.mul_mod_left _ _⟩

/-- `_hardfork_times`. -/
def hardforkTime (hardfork : Nat) : TimePointSec := if hardfork = 0 then genesisTime else 1522644600

def applyHardfork (hardfork : Nat) : CoreM Unit := do
  let hfp := (← get).hardforkProperty
  fcAssert (hardfork = hfp.lastHardfork + 1) "Hardfork being applied out of order"
  fcAssert (hfp.processedHardforks.length = hardfork) "Hardfork being applied out of order"
  modify fun s => { s with hardforkProperty := { s.hardforkProperty with
    processedHardforks := s.hardforkProperty.processedHardforks ++ [hardforkTime hardfork]
    lastHardfork := hardfork
    currentHardforkVersion := hardforkVersion hardfork } }

/-- One round of the loop over voted hardforks. -/
def votedHardforkStep : CoreM Bool := do
  let s ← get
  let hfp := s.hardforkProperty
  if hardforkVersion hfp.lastHardfork < hfp.nextHardfork ∧ hfp.nextHardforkTime ≤ s.dgp.time then
    if hfp.lastHardfork < numHardforks then do
      applyHardfork (hfp.lastHardfork + 1)
      pure true
    else throw (.assertion "unknown_hardfork_exception")
  else pure false

/-- One round of the loop over the timed hardforks before the first one. -/
def timedHardforkStep : CoreM Bool := do
  let s ← get
  let hfp := s.hardforkProperty
  if hfp.lastHardfork < numHardforks ∧ hardforkTime (hfp.lastHardfork + 1) ≤ s.dgp.time ∧
      hfp.lastHardfork < hardfork01 then do
    applyHardfork (hfp.lastHardfork + 1)
    pure true
  else pure false

def processHardforks : CoreM Unit := do
  let forked ← hasHardfork hardfork01
  if forked then loop .diverged votedHardforkStep (numHardforks + 1)
  else loop .diverged timedHardforkStep (numHardforks + 1)

end Sigmaengine
