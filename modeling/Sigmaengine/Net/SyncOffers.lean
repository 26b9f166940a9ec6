import Sigmaengine.Net.Handshake

/-!
# Offers of sync blocks

A peer that answers a request for ids also says how many blocks follow them.  The node works out when the last of these
would be due and drops a peer whose offer lies too far ahead.  Both times are sums in 32 bits, and the number of blocks
is the peer's: the check is right as far as the sums fall into the same period of `2 ^ 32` seconds, or compare the same
way without the periods.
-/

namespace Graphene

/-! ## Sums in 32 bits -/

/-- Two times that compare as their remainders do. -/
def ComparesExactly (limit offered : Nat) : Prop :=
  limit / 4294967296 = offered / 4294967296 ∨
    limit / 4294967296 < offered / 4294967296 ∧ limit % 4294967296 < offered % 4294967296 ∨
    offered / 4294967296 < limit / 4294967296 ∧ offered % 4294967296 ≤ limit % 4294967296

theorem mod_lt_mod_iff (limit offered : Nat) :
    (limit % 4294967296 < offered % 4294967296 ↔ limit < offered) ↔ ComparesExactly limit offered := by
  unfold ComparesExactly
  have hlimit := Nat.div_add_mod limit 4294967296
  have hoffered := Nat.div_add_mod offered 4294967296
  have hl := Nat.mod_lt limit (by omega : 0 < 4294967296)
  have ho := Nat.mod_lt offered (by omega : 0 < 4294967296)
  constructor
  · intro h
    by_contra hne
    omega
  · intro h
    omega

theorem comparesExactly_of_lt {limit offered : Nat} (hlimit : limit < 4294967296) (hoffered : offered < 4294967296) :
    ComparesExactly limit offered := by
  left
  rw [Nat.div_eq_of_lt hlimit, Nat.div_eq_of_lt hoffered]

/-! ## The check -/

namespace NodeState

variable (ctx : Context) (s : NodeState) (p : PeerId) (itemType totalRemaining : Nat) (hashes : List ItemHash)

/-- The peer has nothing that the node does not have, and the synchronisation with it ends. -/
def saysUpToDate : Bool :=
  totalRemaining == 0 &&
    (match hashes with
      | [] => true
      | [only] => ctx.hasItem ⟨itemType, only⟩
      | _ => false) &&
    (s.peers p).idsOfItemsToGet.isEmpty && (s.peers p).numberOfUnfetchedItemIds == 0

/-- An answer that passes the earlier checks of its handler and does not end the synchronisation. -/
structure OfferStands : Prop where
  asked : ∃ synopsis, (s.peers p).itemIdsRequestedFromPeer = some synopsis ∧ buildsOn synopsis hashes = true
  sequential : isSequential hashes = true
  goesOn : saysUpToDate ctx s p itemType totalRemaining hashes = false

/-- The ids of the answer are on the list of the peer. -/
def offerRecorded : NodeState :=
  let other := match hashes with
    | [] => false
    | front :: _ => s.isFirstItemForOtherPeer p front
  s.modifyPeer p (listed ctx itemType totalRemaining other hashes)

/-- When the last block that is offered would be due, and when that is too late. -/
def timeOfLastOfferedBlock : Nat :=
  ((offerRecorded ctx s p itemType totalRemaining hashes).peers p).lastBlockTimeDelegateHasSeen +
    totalRemaining * blockInterval

def latestPlausibleTime (ctx : Context) : Nat := ctx.getBlockchainNow + futureSyncBlocksGracePeriodSec

/-- The node asks the peer for more ids, and the delegate has no synopsis to ask with. -/
def nextRequestFails : Prop :=
  let s := offerRecorded ctx s p itemType totalRemaining hashes
  (if totalRemaining = 0 then (s.peers p).idsOfItemsToGet = []
    else (s.peers p).idsOfItemsToGet.length ≤ minBlockIdsToPrefetch) ∧
    createBlockchainSynopsisForPeer ctx (s.peers p) = .error .olderThanUndoHistory

/-- The peer is on the closing list whatever it offers: it was before, or the next request to it fails. -/
def ClosedAnyway : Prop :=
  p ∈ s.closingConnections ∨ nextRequestFails ctx s p itemType totalRemaining hashes

variable {ctx s p itemType totalRemaining hashes}

theorem isFirstItemForOtherPeer_modifyPeer (f : PeerConnection → PeerConnection) (front : ItemHash) :
    (s.modifyPeer p f).isFirstItemForOtherPeer p front = s.isFirstItemForOtherPeer p front := by
  unfold isFirstItemForOtherPeer
  congr 1
  funext q
  by_cases hq : q = p <;> simp [modifyPeer, hq]

/-- What the handler does with an offer that stands. -/
theorem onBlockchainItemIdsInventoryMessage_eq (hstands : OfferStands ctx s p itemType totalRemaining hashes) :
    s.onBlockchainItemIdsInventoryMessage ctx p itemType totalRemaining hashes =
      let s' := offerRecorded ctx s p itemType totalRemaining hashes
      if latestPlausibleTime ctx % 4294967296 <
          timeOfLastOfferedBlock ctx s p itemType totalRemaining hashes % 4294967296 then
        s'.disconnectFromPeer p
      else if totalRemaining != 0 then
        if minBlockIdsToPrefetch < (s'.peers p).idsOfItemsToGet.length then s'
        else s'.fetchNextBatchOfItemIdsFromPeer ctx p
      else if (s'.peers p).idsOfItemsToGet.isEmpty then s'.fetchNextBatchOfItemIdsFromPeer ctx p
      else s' := by
  obtain ⟨⟨synopsis, hasked, hbuilds⟩, hsequential, hgoesOn⟩ := hstands
  have hanswered : (s.modifyPeer p fun q => { q with itemIdsRequestedFromPeer := none }).peers p =
      { s.peers p with itemIdsRequestedFromPeer := none } := by simp [modifyPeer]
  unfold onBlockchainItemIdsInventoryMessage
  rw [hasked]
  dsimp only
  rw [hsequential, hbuilds, hanswered]
  simp only [Bool.not_true, Bool.or_self, Bool.false_eq_true, if_false, modifyPeer_modifyPeer,
    isFirstItemForOtherPeer_modifyPeer]
  refine (if_neg (Bool.not_eq_true _ ▸ hgoesOn)).trans ?_
  rw [Nat.add_mod_mod]
  rfl

theorem offerRecorded_closingConnections :
    (offerRecorded ctx s p itemType totalRemaining hashes).closingConnections = s.closingConnections := rfl

theorem fetchNextBatchOfItemIdsFromPeer_closes_iff (s : NodeState) :
    p ∈ (s.fetchNextBatchOfItemIdsFromPeer ctx p).closingConnections ↔
      p ∈ s.closingConnections ∨ createBlockchainSynopsisForPeer ctx (s.peers p) = .error .olderThanUndoHistory := by
  unfold fetchNextBatchOfItemIdsFromPeer
  split
  · rename_i synopsis hsynopsis
    simp [modifyPeer, hsynopsis]
  · rename_i hsynopsis
    simp [disconnectFromPeer, movePeerToClosingList, hsynopsis]
  · rename_i fault hfault hsynopsis
    rw [hsynopsis, Except.error.injEq]
    exact ⟨.inl, fun h => h.resolve_right hfault⟩

/-- After an offer that stands, the peer is on the closing list if the 32-bit sums say so, or anyway. -/
theorem offer_closes_iff (hstands : OfferStands ctx s p itemType totalRemaining hashes) :
    p ∈ (s.onBlockchainItemIdsInventoryMessage ctx p itemType totalRemaining hashes).closingConnections ↔
      latestPlausibleTime ctx % 4294967296 <
          timeOfLastOfferedBlock ctx s p itemType totalRemaining hashes % 4294967296 ∨
        ClosedAnyway ctx s p itemType totalRemaining hashes := by
  rw [onBlockchainItemIdsInventoryMessage_eq hstands]
  unfold ClosedAnyway nextRequestFails
  dsimp only
  by_cases hlate : latestPlausibleTime ctx % 4294967296 <
      timeOfLastOfferedBlock ctx s p itemType totalRemaining hashes % 4294967296
  · rw [if_pos hlate]
    simp [hlate, disconnectFromPeer, movePeerToClosingList]
  rw [if_neg hlate]
  by_cases htotal : totalRemaining = 0
  · subst htotal
    by_cases hempty : ((offerRecorded ctx s p itemType 0 hashes).peers p).idsOfItemsToGet = []
    · simp [hlate, hempty, fetchNextBatchOfItemIdsFromPeer_closes_iff, offerRecorded_closingConnections]
    · simp [hlate, hempty, offerRecorded_closingConnections]
  · by_cases hmany : minBlockIdsToPrefetch <
        ((offerRecorded ctx s p itemType totalRemaining hashes).peers p).idsOfItemsToGet.length
    · simp [hlate, htotal, hmany, offerRecorded_closingConnections]
    · simp [hlate, htotal, hmany, fetchNextBatchOfItemIdsFromPeer_closes_iff, offerRecorded_closingConnections,
        Nat.not_lt.mp hmany]

/-! ## When implausible offers are refused -/

/-- **An offer that stands is refused exactly if it is implausible, where the two times compare as their 32-bit sums
do.**  A peer that is closed anyway is refused rightly only if its offer is implausible. -/
theorem implausible_offer_refused_iff (hstands : OfferStands ctx s p itemType totalRemaining hashes) :
    (p ∈ (s.onBlockchainItemIdsInventoryMessage ctx p itemType totalRemaining hashes).closingConnections ↔
        latestPlausibleTime ctx < timeOfLastOfferedBlock ctx s p itemType totalRemaining hashes) ↔
      ¬ ClosedAnyway ctx s p itemType totalRemaining hashes ∧
          ComparesExactly (latestPlausibleTime ctx) (timeOfLastOfferedBlock ctx s p itemType totalRemaining hashes) ∨
        ClosedAnyway ctx s p itemType totalRemaining hashes ∧
          latestPlausibleTime ctx < timeOfLastOfferedBlock ctx s p itemType totalRemaining hashes := by
  rw [offer_closes_iff hstands]
  by_cases hclosed : ClosedAnyway ctx s p itemType totalRemaining hashes
  · simp [hclosed]
  · simp only [hclosed, or_false, not_false_eq_true, true_and, false_and]
    exact mod_lt_mod_iff _ _

end NodeState

/-- A node that has seen a block of a minute ago. -/
def recentContext : Context :=
  { quietContext with getBlockTime := fun _ => 1700000000, getBlockchainNow := 1700000060 }

/-- The peer that has become active, and is asked for ids. -/
def askingNode : NodeState :=
  ([.accept, .acceptConnection 0 3, .message 0 (.hello ⟨7, 9, .value 7, .value 0, .value 5⟩),
    .message 0 .address].map fun e => (⟨recentContext, e⟩ : Call)).foldl (next lonelyNode) .init

theorem implausible_offer_refused_eager :
    (0 ∈ (askingNode.onBlockchainItemIdsInventoryMessage recentContext 0 blockMessageType 100000
        [⟨1, 5⟩]).closingConnections ↔
      NodeState.latestPlausibleTime recentContext <
        NodeState.timeOfLastOfferedBlock recentContext askingNode 0 blockMessageType 100000 [⟨1, 5⟩]) := by
  refine (NodeState.implausible_offer_refused_iff ⟨⟨[], ?_, ?_⟩, ?_, ?_⟩).mpr (.inl ⟨?_, ?_⟩)
  · decide +kernel
  · decide +kernel
  · decide +kernel
  · decide +kernel
  · rintro (h | ⟨-, h⟩)
    · exact absurd h (by decide +kernel)
    · have hsome : (createBlockchainSynopsisForPeer recentContext ((NodeState.offerRecorded recentContext askingNode 0
          blockMessageType 100000 [⟨1, 5⟩]).peers 0)).isOk = true := by decide +kernel
      rw [h] at hsome
      simp [Except.isOk, Except.toBool] at hsome
  · apply comparesExactly_of_lt <;> decide +kernel

/-- **A boast goes unnoticed.**  The peer offers 1431655766 more blocks, which take until 2159; three times that many
seconds are two seconds in 32 bits. -/
theorem boast_is_believed :
    NodeState.OfferStands recentContext askingNode 0 blockMessageType 1431655766 [⟨1, 5⟩] ∧
      0 ∉ (askingNode.onBlockchainItemIdsInventoryMessage recentContext 0 blockMessageType 1431655766
        [⟨1, 5⟩]).closingConnections ∧
      NodeState.latestPlausibleTime recentContext <
        NodeState.timeOfLastOfferedBlock recentContext askingNode 0 blockMessageType 1431655766 [⟨1, 5⟩] := by
  refine ⟨⟨⟨[], ?_, ?_⟩, ?_, ?_⟩, ?_, ?_⟩
  · decide +kernel
  · decide +kernel
  · decide +kernel
  · decide +kernel
  · decide +kernel
  · decide +kernel

end Graphene
