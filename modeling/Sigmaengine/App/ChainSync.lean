import Sigmaengine.Consensus.BlockSummaries
import Sigmaengine.Consensus.ForkSwitch
import Sigmaengine.Consensus.Irreversible

/-!
# Synchronisation with a peer

A node that is behind sends a synopsis of its chain: ids at numbers that get closer and closer to the head.  The peer looks for
the last of them on its own main chain and answers with the ids from there on.

Main results: `getBlockchainSynopsis_main` and `getBlockIds_of_synopsis`.
-/

namespace Sigmaengine

open Effect Table History

/-! ## The delegate of the p2p code -/

/-- What `application_impl` throws. -/
inductive SyncError
  | assertion (text : String)
  | chain (e : Error)
  | peerIsOnAnUnreachableFork
  | blockOlderThanUndoHistory
  | undefined
  | diverged
deriving DecidableEq, Repr

namespace Controller

variable (env : Env) (c : Controller)

/-- `is_known_block`. -/
def isKnownBlock (id : BlockId) : Bool := (c.fetchBlockById env id).isSome

/-- `get_block_id_for_num`. -/
def getBlockIdForNum (n : Nat) : Except SyncError BlockId :=
  if findBlockIdForNum env.codec c n = {} then .error (.assertion "bid != block_id_type()")
  else .ok (findBlockIdForNum env.codec c n)

/-- `is_included_block`. -/
def isIncludedBlock (id : BlockId) : Except SyncError Bool := (getBlockIdForNum env c id.num).map fun main => id == main

/-- `get_block_ids_on_fork`, with at most `fuel` rounds for the loops of `fetch_branch_from`. -/
def getBlockIdsOnFork (fuel : Nat) (headOfFork : BlockId) : Except SyncError (List BlockId) :=
  match c.forkDb.fetchBranchFrom fuel c.headBlockId headOfFork with
  | .error e => .error (.chain e)
  | .ok (first, second) =>
    match first.getLast? with
    | none => .error .undefined
    | some last =>
      .ok ((second.filterMap fun h => (c.forkDb.item h).map fun i => i.id) ++
        [((c.forkDb.item last).map fun i => i.data.previous).getD {}])

/-- What a synopsis is made of: the main chain up to `nonForkHigh`, then the fork. -/
structure SynopsisRange where
  low : Nat
  nonForkHigh : Nat
  high : Nat
  forkHistory : List BlockId

/-- The range for a reference point; there is none for an empty chain. -/
def synopsisRange (fuel : Nat) (referencePoint : BlockId) : Except SyncError (Option SynopsisRange) :=
  if referencePoint = {} then
    if c.headBlockNum = 0 then .ok none
    else .ok (some ⟨c.lastIrreversibleBlockNum, c.headBlockNum, c.headBlockNum, []⟩)
  else
    match isIncludedBlock env c referencePoint with
    | .error e => .error e
    | .ok true => .ok (some ⟨min c.lastIrreversibleBlockNum referencePoint.num, referencePoint.num, referencePoint.num, []⟩)
    | .ok false =>
      match getBlockIdsOnFork c fuel referencePoint with
      | .error e => .error e
      | .ok history =>
        let forkHistory := history.dropLast.reverse
        let nonForkHigh := (history.getLast?.getD {}).num
        if nonForkHigh < c.lastIrreversibleBlockNum then .error .blockOlderThanUndoHistory
        else .ok (some ⟨c.lastIrreversibleBlockNum, nonForkHigh, nonForkHigh + forkHistory.length, forkHistory⟩)

/-- The numbers that the loop goes through, in 32 bits: half of what is left is skipped each time. -/
def synopsisNumbers (high trueHigh : Nat) : Nat → Nat → Option (List Nat)
  | 0, _ => none
  | fuel + 1, low =>
    let next := (low + (trueHigh + 4294967296 - low + 2) % 4294967296 / 2) % 4294967296
    if next ≤ high then (synopsisNumbers high trueHigh fuel next).map (low :: ·) else some [low]

/-- The id at a number, from the main chain or from the fork. -/
def synopsisId (r : SynopsisRange) (n : Nat) : Except SyncError BlockId :=
  if n ≤ r.nonForkHigh then getBlockIdForNum env c n
  else
    match r.forkHistory[n - r.nonForkHigh - 1]? with
    | none => .error .undefined
    | some id => .ok id

/-- `get_blockchain_synopsis`. -/
def getBlockchainSynopsis (fuel : Nat) (referencePoint : BlockId) (numberOfBlocksAfterReferencePoint : Nat) :
    Except SyncError (List BlockId) :=
  match synopsisRange env c fuel referencePoint with
  | .error e => .error e
  | .ok none => .ok []
  | .ok (some r) =>
    let low := if r.low = 0 then 1 else r.low
    let trueHigh := (r.high + numberOfBlocksAfterReferencePoint) % 4294967296
    match synopsisNumbers r.high trueHigh fuel low with
    | none => .error .diverged
    | some nums => nums.mapM (synopsisId env c r)

/-- The last id of the synopsis that is on the main chain; the synopsis is given from its end on. -/
def lastKnownBlock : List BlockId → Except SyncError BlockId
  | [] => .error .peerIsOnAnUnreachableFork
  | id :: rest =>
    if id = {} then .ok id
    else if !isKnownBlock env c id then lastKnownBlock rest
    else
      match isIncludedBlock env c id with
      | .error e => .error e
      | .ok true => .ok id
      | .ok false => lastKnownBlock rest

/-- Up to `limit` ids from a number on; there is no block zero. -/
def blockIdsFrom : Nat → Nat → Nat → Except SyncError (List BlockId)
  | 0, _, _ => .ok []
  | rounds + 1, limit, n =>
    if c.headBlockNum < n ∨ limit = 0 then .ok []
    else if n = 0 then blockIdsFrom rounds limit (n + 1)
    else
      match getBlockIdForNum env c n with
      | .error e => .error e
      | .ok id => (blockIdsFrom rounds (limit - 1) (n + 1)).map (id :: ·)

/-- `get_block_ids`: the ids and `remaining_item_count`. -/
def getBlockIds (blockchainSynopsis : List BlockId) (limit : Nat) : Except SyncError (List BlockId × Nat) :=
  if c.headBlockNum = 0 then .ok ([], 0)
  else
    match (if blockchainSynopsis = [] ∨ blockchainSynopsis = [{}] then .ok {}
      else lastKnownBlock env c blockchainSynopsis.reverse) with
    | .error e => .error e
    | .ok lastKnown =>
      match blockIdsFrom env c (c.headBlockNum + 1) limit lastKnown.num with
      | .error e => .error e
      | .ok result =>
        match result.getLast? with
        | none => .ok (result, 0)
        | some last => .ok (result, if last.num < c.headBlockNum then c.headBlockNum - last.num else 0)

/-! ## The numbers of a synopsis -/

/-- Numbers from `low` on that get closer to `trueHigh` and do not pass `high`. -/
structure Approaches (low high trueHigh : Nat) (nums : List Nat) : Prop where
  start : nums.head? = some low
  increasing : nums.Pairwise (· < ·)
  within : ∀ n ∈ nums, low ≤ n ∧ n ≤ high
  ends : trueHigh = high → nums.getLast? = some high
  few : 2 ^ (nums.length - 1) ≤ trueHigh - low + 1

theorem Approaches.cons {low next high trueHigh : Nat} {nums : List Nat} (h : Approaches next high trueHigh nums)
    (hnext : next = low + (trueHigh - low + 2) / 2) (hlow : low ≤ high) (hhigh : high ≤ trueHigh) (hmore : next ≤ high) :
    Approaches low high trueHigh (low :: nums) where
  start := rfl
  increasing := List.pairwise_cons.mpr ⟨fun n hn => by have := (h.within n hn).1; omega, h.increasing⟩
  within n hn := by
    rcases List.mem_cons.mp hn with rfl | hn
    · exact ⟨Nat.le_refl _, hlow⟩
    · have := h.within n hn
      omega
  ends htrue := by
    rw [List.getLast?_cons, h.ends htrue]
    rfl
  few := by
    have hne : nums.length ≠ 0 := by
      intro hzero
      have hstart := h.start
      rw [List.length_eq_zero_iff.mp hzero] at hstart
      cases hstart
    have hfew := h.few
    have hpow : 2 ^ ((low :: nums).length - 1) = 2 * 2 ^ (nums.length - 1) := by
      rw [List.length_cons, Nat.add_sub_cancel, ← pow_succ', Nat.sub_add_cancel (by omega)]
    omega

/-- **The loop ends**, and its numbers approach the end of the chain. -/
theorem synopsisNumbers_approaches {low high trueHigh fuel : Nat} (hpos : 0 < low) (hlow : low ≤ high)
    (hhigh : high ≤ trueHigh) (hbound : trueHigh + 1 < 4294967296) (hfuel : high < fuel + low) :
    ∃ nums, synopsisNumbers high trueHigh fuel low = some nums ∧ Approaches low high trueHigh nums := by
  induction fuel generalizing low with
  | zero => omega
  | succ fuel ih =>
    have hnext : (low + (trueHigh + 4294967296 - low + 2) % 4294967296 / 2) % 4294967296 =
        low + (trueHigh - low + 2) / 2 := by omega
    rw [synopsisNumbers, hnext]
    by_cases hmore : low + (trueHigh - low + 2) / 2 ≤ high
    · obtain ⟨nums, hnums, happroaches⟩ := ih (by omega) hmore (by omega)
      rw [if_pos hmore, hnums]
      exact ⟨low :: nums, rfl, happroaches.cons rfl hlow hhigh hmore⟩
    · rw [if_neg hmore]
      refine ⟨[low], rfl, rfl, List.pairwise_singleton _ _, fun n hn => ?_, fun htrue => ?_, ?_⟩
      · rw [List.mem_singleton.mp hn]
        exact ⟨Nat.le_refl _, hlow⟩
      · have : low = high := by omega
        rw [this]
        rfl
      · exact Nat.le_add_left _ _

/-! ## Ids of the main chain -/

/-- The id of the block with this number. -/
def mainId (n : Nat) : BlockId := tipId env.codec (c.objects.chain.take n)

/-- The log holds the beginning of the main chain, up to the blocks that the ring tells. -/
def LogReaches : Prop := c.blockLog <+: c.objects.chain ∧ c.objects.chain.length ≤ c.blockLog.length + 65536

/-- The head, the ring and the log tell the main chain. -/
structure Served : Prop where
  anchored : Anchored env.codec c.objects
  summarised : Summarised env.codec c.objects.chain c.objects.database.core
  log : LogReaches c
  irreversible : c.lastIrreversibleBlockNum ≤ c.headBlockNum

variable {env c} {rec : Recorder} {key : PublicKey} {calls : List Call}

theorem irreversible_run
    (hcalls : Traces.Each (step env rec) (fun c call => call.Brings env rec SignedBlock.Timed c) (start key) calls)
    (htorn : (Traces.run (step env rec) (start key) calls).objects.torn = false) :
    (Traces.run (step env rec) (start key) calls).lastIrreversibleBlockNum ≤
      (Traces.run (step env rec) (start key) calls).headBlockNum := by
  have hall := reach_untorn (P := fun o => IrreversibleSound o.database.core) hcalls (irreversibleSound_genesis key)
    (fun o o' b ho hb _ ⟨node, happly⟩ => by
      obtain ⟨S, -⟩ := blockStages happly
      exact (ho.block hb S).1) htorn
  obtain ⟨honChain, -⟩ := run_follows hcalls (holds_start key) (onChain_start key)
  obtain ⟨top, rest, htop, -, haccepts⟩ := honChain.top
  have hsound := hall top (by rw [htop]; exact List.mem_cons_self)
  have hclock := sameClock_of_accepts haccepts
  unfold lastIrreversibleBlockNum headBlockNum
  rw [hclock.lastIrreversibleBlockNum, hclock.headBlockNumber]
  exact hsound.le_head

theorem served_run
    (hcalls : Traces.Each (step env rec) (fun c call => call.Brings env rec SignedBlock.Timed c) (start key) calls)
    (htorn : (Traces.run (step env rec) (start key) calls).objects.torn = false)
    (hlog : LogReaches (Traces.run (step env rec) (start key) calls)) :
    Served env (Traces.run (step env rec) (start key) calls) :=
  ⟨(anchored_run hcalls).2, (summarised_run hcalls htorn).2, hlog, irreversible_run hcalls htorn⟩

namespace Served

variable (h : Served env c) {n : Nat}

include h

theorem headBlockNum : c.headBlockNum = c.objects.chain.length := h.anchored.headNum

theorem bounded : c.objects.chain.length + 1 < 4294967296 := by
  have helapsed := h.anchored.elapsed.trans_lt h.anchored.bounded
  have hgenesis : 1 < genesisTime := by decide
  simp only [TimePointSec] at *
  omega

/-- The block with a number, and its id. -/
theorem block (hpos : 0 < n) (hle : n ≤ c.objects.chain.length) :
    ∃ b, c.objects.chain[n - 1]? = some b ∧ b.id env.codec = mainId env c n ∧ (mainId env c n).num = n := by
  have hlt : n - 1 < c.objects.chain.length := by omega
  have hb := List.getElem?_eq_getElem hlt
  have hid : mainId env c n = (c.objects.chain[n - 1]).id env.codec := by
    unfold mainId
    conv_lhs => rw [← Nat.sub_add_cancel (show 1 ≤ n from hpos)]
    rw [List.take_succ_eq_append_getElem hlt, tipId_append]
  refine ⟨_, hb, hid.symm, ?_⟩
  rw [hid]
  have hnum := (h.anchored.blocks _ _ hb).2.1
  exact hnum.trans (by omega)

theorem mainId_ne (hpos : 0 < n) (hle : n ≤ c.objects.chain.length) : mainId env c n ≠ {} := by
  obtain ⟨b, -, -, hnum⟩ := h.block hpos hle
  intro hzero
  rw [hzero] at hnum
  exact hpos.ne hnum

/-- The id of every block of the main chain is found: the newest ones in the ring, the others in the log. -/
theorem findBlockIdForNum (hpos : 0 < n) (hle : n ≤ c.objects.chain.length) :
    findBlockIdForNum env.codec c n = mainId env c n := by
  obtain ⟨b, hb, hid, -⟩ := h.block hpos hle
  unfold Controller.findBlockIdForNum
  rw [if_neg hpos.ne', h.summarised (n % 65536)]
  by_cases hrecent : c.objects.chain.length < n + 65536
  · obtain ⟨b', hb', hnum, hsummary⟩ := h.anchored.summaryOf hpos hle hrecent
    rw [hb, Option.some.injEq] at hb'
    subst hb'
    rw [hsummary, if_pos (show (b.id env.codec).num = n from hnum), hid]
  · split
    · next hnum =>
      -- whatever the slot has, with this number it is of the chain
      unfold summaryOf at hnum ⊢
      cases hlast : Ring.lastIn (fun b : SignedBlock => b.blockNum) 65536 (n % 65536) c.objects.chain with
      | none =>
        rw [hlast] at hnum
        exact absurd hnum hpos.ne
      | some b' =>
        rw [hlast] at hnum
        obtain ⟨hmem, -⟩ := Ring.mem_of_lastIn hlast
        have hnumber := (h.anchored.blocks _ _ hb).2.1
        have hsame : b' = b := h.anchored.eq_of_number hmem (List.mem_of_getElem? hb)
          ((show b'.blockNum = n from hnum).trans (by omega))
        rw [hsame]
        exact hid
    · have hlogged : n - 1 < c.blockLog.length := by
        have := h.log.2
        omega
      obtain ⟨rest, hrest⟩ := h.log.1
      have hstored : blockAt c.blockLog n = some b := by
        rw [blockAt, if_neg hpos.ne', ← hb, ← hrest, List.getElem?_append_left hlogged]
      rw [hstored]
      exact hid

theorem getBlockIdForNum (hpos : 0 < n) (hle : n ≤ c.objects.chain.length) :
    getBlockIdForNum env c n = .ok (mainId env c n) := by
  unfold Controller.getBlockIdForNum
  rw [h.findBlockIdForNum hpos hle, if_neg (h.mainId_ne hpos hle)]

/-! ## The synopsis -/

/-- The range for the whole chain, or for a reference point on the main chain. -/
theorem synopsisRange {high fuel : Nat} {referencePoint : BlockId} (hpos : 0 < high) (hle : high ≤ c.objects.chain.length)
    (href : referencePoint = {} ∧ high = c.objects.chain.length ∨ referencePoint = mainId env c high) :
    synopsisRange env c fuel referencePoint = .ok (some ⟨min c.lastIrreversibleBlockNum high, high, high, []⟩) := by
  unfold Controller.synopsisRange
  rcases href with ⟨rfl, rfl⟩ | rfl
  · have hbelow := h.irreversible
    rw [h.headBlockNum] at hbelow
    rw [if_pos rfl, h.headBlockNum, if_neg hpos.ne', Nat.min_eq_left hbelow]
  · obtain ⟨-, -, -, hnum⟩ := h.block hpos hle
    have hincluded : isIncludedBlock env c (mainId env c high) = .ok true := by
      unfold isIncludedBlock
      rw [hnum, h.getBlockIdForNum hpos hle, Except.map, beq_self_eq_true]
    rw [if_neg (h.mainId_ne hpos hle), hincluded]
    dsimp only
    rw [hnum]

theorem mapM_synopsisId {low high : Nat} {nums : List Nat} (hnums : ∀ n ∈ nums, 0 < n ∧ n ≤ high)
    (hle : high ≤ c.objects.chain.length) :
    nums.mapM (synopsisId env c ⟨low, high, high, []⟩) = .ok (nums.map (mainId env c)) := by
  induction nums with
  | nil => rfl
  | cons n nums ih =>
    obtain ⟨hpos, hhigh⟩ := hnums n List.mem_cons_self
    have hid : synopsisId env c ⟨low, high, high, []⟩ n = .ok (mainId env c n) := by
      unfold synopsisId
      rw [if_pos hhigh, h.getBlockIdForNum hpos (hhigh.trans hle)]
    rw [List.mapM_cons, hid, ih fun m hm => hnums m (List.mem_cons_of_mem n hm)]
    rfl

theorem getBlockchainSynopsis {high fuel : Nat} {referencePoint : BlockId} (after : Nat) (hpos : 0 < high)
    (hle : high ≤ c.objects.chain.length)
    (href : referencePoint = {} ∧ high = c.objects.chain.length ∨ referencePoint = mainId env c high)
    (hafter : high + after + 1 < 4294967296) (hfuel : high < fuel) :
    ∃ nums, Approaches (max 1 (min c.lastIrreversibleBlockNum high)) high (high + after) nums ∧
      getBlockchainSynopsis env c fuel referencePoint after = .ok (nums.map (mainId env c)) := by
  have hlow : (if min c.lastIrreversibleBlockNum high = 0 then 1 else min c.lastIrreversibleBlockNum high) =
      max 1 (min c.lastIrreversibleBlockNum high) := by
    split <;> omega
  have hword : (high + after) % 4294967296 = high + after := Nat.mod_eq_of_lt (by omega)
  obtain ⟨nums, hnums, happroaches⟩ := @synopsisNumbers_approaches (max 1 (min c.lastIrreversibleBlockNum high)) high
    (high + after) fuel (by omega) (by omega) (by omega) (by omega) (by omega)
  refine ⟨nums, happroaches, ?_⟩
  unfold Controller.getBlockchainSynopsis
  rw [h.synopsisRange hpos hle href]
  dsimp only
  rw [hlow, hword, hnums]
  refine h.mapM_synopsisId (fun n hn => ?_) hle
  have := happroaches.within n hn
  omega

/-! ## The answer -/

/-- The loop over the synopsis, when all known blocks of it are at numbers of the main chain. -/
theorem lastKnownBlock {ids : List BlockId}
    (hids : ∀ id ∈ ids, id ≠ {} ∧ (isKnownBlock env c id = true → 0 < id.num ∧ id.num ≤ c.objects.chain.length)) :
    lastKnownBlock env c ids =
      match ids.find? fun id => isKnownBlock env c id && id == mainId env c id.num with
      | none => .error .peerIsOnAnUnreachableFork
      | some id => .ok id := by
  induction ids with
  | nil => rfl
  | cons id ids ih =>
    obtain ⟨hne, hknown⟩ := hids id List.mem_cons_self
    have ih := ih fun id' hid' => hids id' (List.mem_cons_of_mem id hid')
    rw [Controller.lastKnownBlock, if_neg hne]
    by_cases hk : isKnownBlock env c id = true
    · obtain ⟨hpos, hle⟩ := hknown hk
      rw [hk, Bool.not_true, if_neg Bool.false_ne_true]
      unfold isIncludedBlock
      rw [h.getBlockIdForNum hpos hle, Except.map]
      by_cases hmain : (id == mainId env c id.num) = true
      · rw [hmain, List.find?_cons_of_pos (by rw [hk, hmain]; rfl)]
      · rw [Bool.eq_false_iff.mpr hmain, List.find?_cons_of_neg (by rw [hk, Bool.true_and]; exact hmain), ← ih]
    · rw [Bool.eq_false_iff.mpr hk, Bool.not_false, if_pos rfl, List.find?_cons_of_neg, ih]
      rw [Bool.eq_false_iff.mpr hk, Bool.false_and]
      exact Bool.false_ne_true

theorem blockIdsFrom {rounds limit : Nat} (hpos : 0 < n) (hrounds : c.objects.chain.length < rounds + n) :
    blockIdsFrom env c rounds limit n =
      .ok ((List.range' n (min limit (c.objects.chain.length + 1 - n))).map (mainId env c)) := by
  induction rounds generalizing limit n with
  | zero =>
    have hnone : min limit (c.objects.chain.length + 1 - n) = 0 := by omega
    rw [hnone]
    rfl
  | succ rounds ih =>
    rw [Controller.blockIdsFrom, h.headBlockNum]
    by_cases hend : c.objects.chain.length < n ∨ limit = 0
    · have hnone : min limit (c.objects.chain.length + 1 - n) = 0 := by omega
      rw [if_pos hend, hnone]
      rfl
    · have hmore : min limit (c.objects.chain.length + 1 - n) =
          min (limit - 1) (c.objects.chain.length + 1 - (n + 1)) + 1 := by omega
      rw [if_neg hend, if_neg hpos.ne', h.getBlockIdForNum hpos (by omega), ih (Nat.succ_pos n) (by omega), hmore,
        List.range'_succ, List.map_cons]
      rfl

/-- What follows once the last known block is at number `n`. -/
theorem answer {ids : List BlockId} {limit : Nat} {id : BlockId} (hids : ids ≠ [] ∧ ids ≠ [{}]) (hpos : 0 < n)
    (hle : n ≤ c.objects.chain.length) (hlimit : 0 < limit) (hlast : Controller.lastKnownBlock env c ids.reverse = .ok id)
    (hnum : id.num = n) :
    getBlockIds env c ids limit =
      .ok ((List.range' n (min limit (c.objects.chain.length + 1 - n))).map (mainId env c),
        c.objects.chain.length + 1 - n - min limit (c.objects.chain.length + 1 - n)) := by
  have hcount : 0 < min limit (c.objects.chain.length + 1 - n) := by omega
  have hend : ((List.range' n (min limit (c.objects.chain.length + 1 - n))).map (mainId env c)).getLast? =
      some (mainId env c (n + min limit (c.objects.chain.length + 1 - n) - 1)) := by
    rw [List.getLast?_map, List.getLast?_range', if_neg hcount.ne', Option.map_some]
  obtain ⟨-, -, -, hlastNum⟩ := h.block (n := n + min limit (c.objects.chain.length + 1 - n) - 1) (by omega) (by omega)
  unfold getBlockIds
  rw [h.headBlockNum, if_neg (by omega), if_neg (not_or.mpr hids), hlast]
  dsimp only
  rw [hnum, h.blockIdsFrom hpos (by omega)]
  dsimp only
  rw [hend]
  dsimp only
  rw [hlastNum]
  congr 2
  split <;> omega

end Served

/-! ## Two nodes -/

/-- The block that the asking node has at this number is known to the peer and on its main chain. -/
def Common (env : Env) (asking peer : Controller) (n : Nat) : Prop :=
  isKnownBlock env peer (mainId env asking n) = true ∧ mainId env asking n = mainId env peer n

/-- **The answer to a synopsis** begins with the last common block of it. -/
theorem getBlockIds_common {asking peer : Controller} {nums : List Nat} {limit low : Nat} (hasking : Served env asking)
    (hpeer : Served env peer) (hstart : nums.head? = some low) (hincreasing : nums.Pairwise (· < ·))
    (hwithin : ∀ n ∈ nums, 0 < n ∧ n ≤ asking.objects.chain.length)
    (hknown : ∀ n ∈ nums, isKnownBlock env peer (mainId env asking n) = true → n ≤ peer.objects.chain.length)
    (hcommon : Common env asking peer low) (hlimit : 0 < limit) :
    ∃ k ∈ nums, Common env asking peer k ∧ k ≤ peer.objects.chain.length ∧
      (∀ n ∈ nums, k < n → ¬ Common env asking peer n) ∧
      getBlockIds env peer (nums.map (mainId env asking)) limit =
        .ok ((List.range' k (min limit (peer.objects.chain.length + 1 - k))).map (mainId env peer),
          peer.objects.chain.length + 1 - k - min limit (peer.objects.chain.length + 1 - k)) := by
  have hlow : low ∈ nums := List.mem_of_mem_head? hstart
  have hnum : ∀ n ∈ nums, (mainId env asking n).num = n := by
    intro n hn
    obtain ⟨-, -, -, hnum⟩ := hasking.block (hwithin n hn).1 (hwithin n hn).2
    exact hnum
  have hids : ∀ id ∈ nums.reverse.map (mainId env asking), id ≠ {} ∧
      (isKnownBlock env peer id = true → 0 < id.num ∧ id.num ≤ peer.objects.chain.length) := by
    intro id hid
    obtain ⟨n, hn, rfl⟩ := List.mem_map.mp hid
    have hn := List.mem_reverse.mp hn
    refine ⟨hasking.mainId_ne (hwithin n hn).1 (hwithin n hn).2, fun hk => ?_⟩
    rw [hnum n hn]
    exact ⟨(hwithin n hn).1, hknown n hn hk⟩
  have hlast := hpeer.lastKnownBlock hids
  rw [List.find?_map] at hlast
  have hfound : ∀ n ∈ nums, ((fun id => isKnownBlock env peer id && id == mainId env peer id.num) ∘ mainId env asking) n = true ↔
      Common env asking peer n := by
    intro n hn
    rw [Function.comp_apply, hnum n hn, Bool.and_eq_true, beq_iff_eq]
    rfl
  cases hfind : nums.reverse.find? ((fun id => isKnownBlock env peer id && id == mainId env peer id.num) ∘
      mainId env asking) with
  | none =>
    have hnone := List.find?_eq_none.mp hfind low (List.mem_reverse.mpr hlow)
    exact absurd ((hfound low hlow).mpr hcommon) hnone
  | some k =>
    obtain ⟨hk, later, earlier, hsplit, hlater⟩ := List.find?_eq_some_iff_append.mp hfind
    have hmem : k ∈ nums := by
      rw [← List.mem_reverse, hsplit]
      simp
    have hcommonK := (hfound k hmem).mp hk
    have hle := hknown k hmem hcommonK.1
    have hne : nums.map (mainId env asking) ≠ [] ∧ nums.map (mainId env asking) ≠ [{}] := by
      refine ⟨fun hnil => ?_, fun hzero => ?_⟩
      · rw [List.map_eq_nil_iff.mp hnil] at hmem
        exact absurd hmem List.not_mem_nil
      · have hin := List.mem_map_of_mem (f := mainId env asking) hmem
        rw [hzero, List.mem_singleton] at hin
        exact hasking.mainId_ne (hwithin k hmem).1 (hwithin k hmem).2 hin
    rw [hfind, Option.map_some] at hlast
    refine ⟨k, hmem, hcommonK, hle, fun n hn hlt hcommonN => ?_, ?_⟩
    · -- the numbers fall from the end of the synopsis on, so `n` was looked at before `k`
      have hfalling := List.pairwise_reverse.mpr hincreasing
      have hn' := List.mem_reverse.mpr hn
      rw [hsplit] at hn' hfalling
      have hearlier := (List.pairwise_cons.mp (List.pairwise_append.mp hfalling).2.1).1
      rcases List.mem_append.mp hn' with hn' | hn'
      · have hnot := hlater n hn'
        rw [(hfound n hn).mpr hcommonN] at hnot
        cases hnot
      · rcases List.mem_cons.mp hn' with rfl | hn'
        · exact Nat.lt_irrefl _ hlt
        · exact absurd (hearlier n hn') (Nat.not_lt_of_lt hlt)
    · refine hpeer.answer hne (hwithin k hmem).1 hle hlimit ?_ (hnum k hmem)
      rw [← List.map_reverse]
      exact hlast

/-- **A synopsis** of the whole main chain, or of the part up to a block of it, is made of ids of the main chain at growing
numbers, from the last irreversible block on; there are few of them, and the last one is the head or the reference. -/
theorem getBlockchainSynopsis_main (env : Env) (rec : Recorder) (key : PublicKey) (calls : List Call) {c : Controller}
    (hc : c = Traces.run (step env rec) (start key) calls)
    (hcalls : Traces.Each (step env rec) (fun c call => call.Brings env rec SignedBlock.Timed c) (start key) calls)
    (hlog : LogReaches c) (referencePoint : BlockId) (high after fuel : Nat) (hpos : 0 < high)
    (hle : high ≤ c.objects.chain.length)
    (href : referencePoint = {} ∧ high = c.objects.chain.length ∨ referencePoint = mainId env c high)
    (hafter : high + after + 1 < 4294967296) (hfuel : high < fuel) :
    c.objects.torn = true ∨
      ∃ nums, Approaches (max 1 (min c.lastIrreversibleBlockNum high)) high (high + after) nums ∧
        getBlockchainSynopsis env c fuel referencePoint after = .ok (nums.map (mainId env c)) := by
  subst hc
  cases htorn : (Traces.run (step env rec) (start key) calls).objects.torn with
  | true => exact .inl rfl
  | false => exact .inr ((served_run hcalls htorn hlog).getBlockchainSynopsis after hpos hle href hafter hfuel)

/-- **Two nodes synchronise**: the peer answers the synopsis of a node with the ids of its own main chain, one after the other,
from the last common block of the synopsis on, and counts exactly what is left. -/
theorem getBlockIds_of_synopsis (env : Env) (rec rec' : Recorder) (key key' : PublicKey) (calls calls' : List Call)
    {asking peer : Controller} (hasking : asking = Traces.run (step env rec) (start key) calls)
    (hpeer : peer = Traces.run (step env rec') (start key') calls')
    (hcalls : Traces.Each (step env rec) (fun c call => call.Brings env rec SignedBlock.Timed c) (start key) calls)
    (hcalls' : Traces.Each (step env rec') (fun c call => call.Brings env rec' SignedBlock.Timed c) (start key') calls')
    (hlog : LogReaches asking) (hlog' : LogReaches peer) (fuel limit : Nat) (hlimit : 0 < limit)
    (hblocks : 0 < asking.objects.chain.length) (hfuel : asking.objects.chain.length < fuel)
    (hcommon : Common env asking peer (max 1 asking.lastIrreversibleBlockNum)) :
    asking.objects.torn = true ∨ peer.objects.torn = true ∨
      ∃ nums : List Nat, getBlockchainSynopsis env asking fuel {} 0 = .ok (nums.map (mainId env asking)) ∧
        ((∀ n ∈ nums, isKnownBlock env peer (mainId env asking n) = true → n ≤ peer.objects.chain.length) →
          ∃ k remaining : Nat, k ∈ nums ∧ Common env asking peer k ∧ (∀ n ∈ nums, k < n → ¬ Common env asking peer n) ∧
            getBlockIds env peer (nums.map (mainId env asking)) limit =
              .ok ((List.range' k (min limit (peer.objects.chain.length + 1 - k))).map (mainId env peer), remaining) ∧
            remaining + min limit (peer.objects.chain.length + 1 - k) + k = peer.objects.chain.length + 1) := by
  cases htorn : asking.objects.torn with
  | true => exact .inl rfl
  | false =>
  cases htorn' : peer.objects.torn with
  | true => exact .inr (.inl rfl)
  | false =>
  have haskingServed : Served env asking := by
    subst hasking
    exact served_run hcalls htorn hlog
  have hpeerServed : Served env peer := by
    subst hpeer
    exact served_run hcalls' htorn' hlog'
  obtain ⟨nums, happroaches, hsynopsis⟩ := haskingServed.getBlockchainSynopsis 0 hblocks (Nat.le_refl _) (.inl ⟨rfl, rfl⟩)
    haskingServed.bounded hfuel
  have hbelow := haskingServed.irreversible
  rw [haskingServed.headBlockNum] at hbelow
  rw [Nat.min_eq_left hbelow] at happroaches
  have hwithin : ∀ n ∈ nums, 0 < n ∧ n ≤ asking.objects.chain.length := by
    intro n hn
    have := happroaches.within n hn
    omega
  refine .inr (.inr ⟨nums, hsynopsis, fun hknown => ?_⟩)
  obtain ⟨k, hk, hcommonK, hle, hlater, hanswer⟩ := getBlockIds_common haskingServed hpeerServed happroaches.start
    happroaches.increasing hwithin hknown hcommon hlimit
  exact ⟨k, _, hk, hcommonK, hlater, hanswer, by omega⟩

/-- A node with the first block of the longer branch, and one that has switched to this branch. -/
def sideCalls : List Call := [.pushBlock {} sideBlock]

def sideNode : Controller := Traces.run (step sampleEnv sampleRecorder) (start ⟨1⟩) sideCalls

def switchedCalls : List Call := forkedCalls ++ [.pushBlock {} tipBlock]

def switchedNode : Controller := Traces.run (step sampleEnv sampleRecorder) (start ⟨1⟩) switchedCalls

theorem sideCalls_bring : Traces.Each (step sampleEnv sampleRecorder) (fun c call => call.Brings sampleEnv sampleRecorder SignedBlock.Timed c)
    (start ⟨1⟩) sideCalls :=
  Traces.each_cons.mpr ⟨(by decide : genesisTime + 3 * 2 < 4294967296), Traces.each_nil⟩

theorem switchedCalls_bring : Traces.Each (step sampleEnv sampleRecorder) (fun c call => call.Brings sampleEnv sampleRecorder SignedBlock.Timed c)
    (start ⟨1⟩) switchedCalls :=
  Traces.each_cons.mpr ⟨(by decide : genesisTime + 3 * 1 < 4294967296),
    Traces.each_cons.mpr ⟨(by decide : genesisTime + 3 * 2 < 4294967296),
      Traces.each_cons.mpr ⟨(by decide : genesisTime + 3 * 3 < 4294967296), Traces.each_nil⟩⟩⟩

theorem logReaches_of_empty (hlog : c.blockLog.length = 0) (hchain : c.objects.chain.length ≤ 65536) : LogReaches c := by
  rw [LogReaches, List.length_eq_zero_iff.mp hlog]
  exact ⟨List.nil_prefix, hchain⟩

theorem sideNode_log : LogReaches sideNode := logReaches_of_empty (by decide +kernel) (by decide +kernel)

theorem switchedNode_log : LogReaches switchedNode := logReaches_of_empty (by decide +kernel) (by decide +kernel)

theorem sideNode_length : sideNode.objects.chain.length = 1 := by decide +kernel

theorem getBlockchainSynopsis_main_sample : sideNode.objects.torn = false ∧ (sideNode.objects.torn = true ∨
    ∃ nums, Approaches (max 1 (min sideNode.lastIrreversibleBlockNum 1)) 1 (1 + 0) nums ∧
      getBlockchainSynopsis sampleEnv sideNode 2 {} 0 = .ok (nums.map (mainId sampleEnv sideNode))) :=
  ⟨by decide +kernel, getBlockchainSynopsis_main sampleEnv sampleRecorder ⟨1⟩ sideCalls (by rw [sideNode]) sideCalls_bring
    sideNode_log {} 1 0 2 (by decide) sideNode_length.ge (.inl ⟨rfl, sideNode_length.symm⟩) (by decide) (by decide)⟩

theorem getBlockIds_of_synopsis_sample :
    sideNode.objects.torn = false ∧ switchedNode.objects.torn = false ∧
      (sideNode.objects.torn = true ∨ switchedNode.objects.torn = true ∨
        ∃ nums : List Nat, getBlockchainSynopsis sampleEnv sideNode 2 {} 0 = .ok (nums.map (mainId sampleEnv sideNode)) ∧
          ((∀ n ∈ nums, isKnownBlock sampleEnv switchedNode (mainId sampleEnv sideNode n) = true →
              n ≤ switchedNode.objects.chain.length) →
            ∃ k remaining : Nat, k ∈ nums ∧ Common sampleEnv sideNode switchedNode k ∧
              (∀ n ∈ nums, k < n → ¬ Common sampleEnv sideNode switchedNode n) ∧
              getBlockIds sampleEnv switchedNode (nums.map (mainId sampleEnv sideNode)) 100 =
                .ok ((List.range' k (min 100 (switchedNode.objects.chain.length + 1 - k))).map
                  (mainId sampleEnv switchedNode), remaining) ∧
              remaining + min 100 (switchedNode.objects.chain.length + 1 - k) + k = switchedNode.objects.chain.length + 1)) :=
  ⟨by decide +kernel, by decide +kernel, getBlockIds_of_synopsis sampleEnv sampleRecorder sampleRecorder ⟨1⟩ ⟨1⟩ sideCalls
    switchedCalls (by rw [sideNode]) (by rw [switchedNode]) sideCalls_bring switchedCalls_bring sideNode_log switchedNode_log
    2 100 (by decide) (by decide +kernel) (by decide +kernel) ⟨by decide +kernel, by decide +kernel⟩⟩

end Controller

end Sigmaengine
