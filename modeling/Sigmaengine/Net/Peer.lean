import Mathlib.Data.Finset.Basic

/-!
# Connections of the p2p node

What `node_impl` keeps for each connection and for all of them together, and the messages that peers send.  Fields
that only serve the log, the statistics, the database of potential peers or the sockets are left out.
-/

namespace Graphene

/-- Microseconds, as in `fc::time_point`. -/
abbrev Time := Nat

/-- `fc::time_point_sec` of a time. -/
def seconds (t : Time) : Nat := t / 1000000

/-- `fc::ripemd160`.  The first word of a block id is the number of the block. -/
structure ItemHash where
  number : UInt32
  rest : Nat
deriving DecidableEq

def ItemHash.zero : ItemHash := ⟨0, 0⟩

structure ItemId where
  itemType : Nat
  itemHash : ItemHash
deriving DecidableEq

def trxMessageType : Nat := 1000
def blockMessageType : Nat := 1001

/-- `fc::ecc::public_key_data`, of node keys and node ids; zero before the hello. -/
abbrev NodeId := Nat

abbrev ChainId := Nat
abbrev SharedSecret := Nat
abbrev CompactSignature := Nat

/-! ## Constants -/

def blockInterval : Nat := 3
def messageCacheDurationInBlocks : Nat := 20
def futureSyncBlocksGracePeriodSec : Nat := 60 * 60
def maxInventorySizeInMinutes : Nat := 2
def maxTrxPerSecond : Nat := 1000
def maxItemsPerPeerDuringNormalOperation : Nat := 1
def minBlockIdsToPrefetch : Nat := 10000

/-! ## A connection -/

inductive PeerConnectionDirection
  | unknown
  | inbound
  | outbound
deriving DecidableEq

inductive OurConnectionState
  | disconnected
  | justConnected
  | connectionAccepted
  | connectionRejected
deriving DecidableEq

inductive TheirConnectionState
  | disconnected
  | justConnected
  | connectionAccepted
  | connectionRejected
deriving DecidableEq

structure TimestampedItemId where
  item : ItemId
  timestamp : Nat
deriving DecidableEq

/-- A set of items with the time each was inserted at; inserting one again changes nothing. -/
abbrev TimestampedItems := List TimestampedItemId

namespace TimestampedItems

def has (l : TimestampedItems) (item : ItemId) : Bool := l.any fun t => t.item == item

def add (l : TimestampedItems) (item : ItemId) (timestamp : Nat) : TimestampedItems :=
  if l.has item then l else ⟨item, timestamp⟩ :: l

def without (l : TimestampedItems) (item : ItemId) : TimestampedItems := l.filter fun t => t.item != item

/-- Drop what is older than `oldest`. -/
def since (l : TimestampedItems) (oldest : Nat) : TimestampedItems := l.filter fun t => oldest ≤ t.timestamp

end TimestampedItems

/-- `peer_connection`. -/
structure PeerConnection where
  direction : PeerConnectionDirection := .unknown
  ourState : OurConnectionState := .disconnected
  theirState : TheirConnectionState := .disconnected
  sharedSecret : SharedSecret := 0
  /-- The connection is opened to find out whether another node is behind a firewall. -/
  performingFirewallCheck : Bool := false
  nodePublicKey : NodeId := 0
  nodeId : NodeId := 0
  chainId : Option ChainId := none
  lastKnownForkBlockNumber : Nat := 0
  idsOfItemsToGet : List ItemHash := []
  idsOfItemsBeingProcessed : Finset ItemHash := ∅
  numberOfUnfetchedItemIds : Nat := 0
  peerNeedsSyncItemsFromUs : Bool := true
  weNeedSyncItemsFromPeer : Bool := true
  /-- The synopsis of the request that is not answered yet. -/
  itemIdsRequestedFromPeer : Option (List ItemHash) := none
  syncItemsRequestedFromPeer : Finset ItemHash := ∅
  lastBlockDelegateHasSeen : ItemHash := .zero
  lastBlockTimeDelegateHasSeen : Nat := 0
  inhibitFetchingSyncBlocks : Bool := false
  inventoryPeerAdvertisedToUs : TimestampedItems := []
  inventoryAdvertisedToPeer : TimestampedItems := []
  itemsRequestedFromPeer : List ItemId := []
  transactionFetchingInhibitedUntil : Time := 0

namespace PeerConnection

variable (p : PeerConnection)

def busy : Bool :=
  !p.itemsRequestedFromPeer.isEmpty || !decide (p.syncItemsRequestedFromPeer = ∅) || p.itemIdsRequestedFromPeer.isSome

def idle : Bool := !p.busy

def isTransactionFetchingInhibited (now : Time) : Bool := now < p.transactionFetchingInhibitedUntil

/-- Expire old items in both directions. -/
def clearOldInventory (now : Time) : PeerConnection :=
  let oldest := seconds (now - maxInventorySizeInMinutes * 60 * 1000000)
  { p with
    inventoryPeerAdvertisedToUs := p.inventoryPeerAdvertisedToUs.since oldest
    inventoryAdvertisedToPeer := p.inventoryAdvertisedToPeer.since oldest }

def isInventoryAdvertisedToUsListFullForTransactions : Bool :=
  maxInventorySizeInMinutes * maxTrxPerSecond * 60 < p.inventoryPeerAdvertisedToUs.length

/-- There is room for a few more blocks. -/
def isInventoryAdvertisedToUsListFull : Bool :=
  maxInventorySizeInMinutes * maxTrxPerSecond * 60 + (maxInventorySizeInMinutes + 1) * 60 / blockInterval <
    p.inventoryPeerAdvertisedToUs.length

end PeerConnection

/-! ## Messages -/

/-- An entry of the `user_data` of a hello; to read one that has not the right type throws. -/
inductive UserDatum (α : Type)
  | missing
  | malformed
  | value (a : α)

structure HelloMessage where
  nodePublicKey : NodeId
  signedSharedSecret : CompactSignature
  nodeId : UserDatum NodeId
  lastKnownForkBlockNumber : UserDatum Nat
  chainId : UserDatum ChainId

inductive RejectionReasonCode
  | unspecified
  | differentChain
  | alreadyConnected
  | connectedToSelf
  | notAcceptingConnections
  | blocked
  | invalidHelloMessage
  | clientTooOld
deriving DecidableEq

/-- A block as it comes in a message; nothing makes the id agree with the block. -/
structure BlockMessage where
  blockId : ItemHash
  blockNum : Nat
  timestamp : Nat
deriving DecidableEq

/-- The messages a peer may send.  Those that `on_message` answers without touching what is modelled here are one. -/
inductive Message
  | hello (m : HelloMessage)
  | connectionAccepted
  | connectionRejected (reason : RejectionReasonCode)
  | address
  | fetchBlockchainItemIds (itemType : Nat) (synopsis : List ItemHash)
  | blockchainItemIdsInventory (itemType : Nat) (totalRemaining : Nat) (hashes : List ItemHash)
  | fetchItems (itemType : Nat) (hashes : List ItemHash)
  | itemNotAvailable (item : ItemId)
  | itemIdsInventory (itemType : Nat) (hashes : List ItemHash)
  | block (hash : ItemHash) (m : BlockMessage)
  /-- A message of a type that the switch does not name, such as a transaction. -/
  | ordinary (item : ItemId)
  | other

/-! ## The node -/

abbrev PeerId := Nat

/-- An item to be fetched, in order of sequence number; the timestamp is when it was last heard of. -/
structure PrioritizedItemId where
  item : ItemId
  sequenceNumber : UInt32
  timestamp : Time
deriving DecidableEq

/-- Neither goes before the other: the difference of the 32-bit numbers, read as signed, is not positive either way. -/
def PrioritizedItemId.equivalent (a b : PrioritizedItemId) : Bool :=
  a.item.itemType == b.item.itemType &&
    (a.sequenceNumber - b.sequenceNumber == 0 || a.sequenceNumber - b.sequenceNumber == 2147483648)

/-- The state of `node_impl`. -/
structure NodeState where
  peers : PeerId → PeerConnection
  /-- The connections made so far. -/
  nextPeer : PeerId
  /-- Connections whose read loop runs. -/
  reading : Finset PeerId
  handshakingConnections : Finset PeerId
  /-- In the order of iteration, which is any. -/
  activeConnections : List PeerId
  closingConnections : Finset PeerId
  terminatingConnections : Finset PeerId
  /-- Connections whose `on_connection_closed` has begun, and those for which it is over. -/
  lost : Finset PeerId
  closed : Finset PeerId
  activeSyncRequests : Finset ItemHash
  newReceivedSyncItems : List BlockMessage
  receivedSyncItems : List BlockMessage
  /-- Sync blocks that the delegate is at work on. -/
  handleMessageCallsInProgress : List BlockMessage
  suspendFetchingSyncBlocks : Bool
  itemsToFetch : List PrioritizedItemId
  itemsToFetchSequenceCounter : UInt32
  recentlyFailedItems : TimestampedItems
  newInventory : List ItemId
  messageIdsCurrentlyBeingProcessed : Finset ItemHash
  /-- Blocks and other messages of normal operation that the delegate is at work on. -/
  blocksBeingHandled : List (PeerId × ItemHash × BlockMessage)
  messagesBeingHandled : List (PeerId × ItemId)
  mostRecentBlocksAccepted : List ItemHash

def NodeState.init : NodeState where
  peers := fun _ => {}
  nextPeer := 0
  reading := ∅
  handshakingConnections := ∅
  activeConnections := []
  closingConnections := ∅
  terminatingConnections := ∅
  lost := ∅
  closed := ∅
  activeSyncRequests := ∅
  newReceivedSyncItems := []
  receivedSyncItems := []
  handleMessageCallsInProgress := []
  suspendFetchingSyncBlocks := false
  itemsToFetch := []
  itemsToFetchSequenceCounter := 0
  recentlyFailedItems := []
  newInventory := []
  messageIdsCurrentlyBeingProcessed := ∅
  blocksBeingHandled := []
  messagesBeingHandled := []
  mostRecentBlocksAccepted := []

/-- What does not change while the node runs.  `recoverKey` is the key that signed the shared secret. -/
structure NodeIdentity where
  nodeId : NodeId
  chainId : ChainId
  recoverKey : SharedSecret → CompactSignature → Option NodeId

/-- What the node finds when it does something: the time, what its delegate and its message cache answer, and
parameters that can be set at any time. -/
structure Context where
  now : Time
  hasItem : ItemId → Bool
  getBlockTime : ItemHash → Nat
  getBlockchainNow : Nat
  headBlockNum : Nat
  /-- `none` where the delegate throws `block_older_than_undo_history`. -/
  getBlockchainSynopsis : ItemHash → Nat → Option (List ItemHash)
  /-- `none` where the delegate throws `peer_is_on_an_unreachable_fork`. -/
  getBlockIds : List ItemHash → Option (List ItemHash × Nat)
  /-- A message from the cache or the delegate; of a block, its id. -/
  getMessage : ItemId → Option (Option ItemHash)
  hardForkBlockNumbers : List Nat
  allowedPeers : List NodeId
  maximumNumberOfConnections : Nat
  maximumNumberOfBlocksToHandleAtOneTime : Nat
  maximumNumberOfSyncBlocksToPrefetch : Nat
  maximumBlocksPerPeerDuringSyncing : Nat

end Graphene
