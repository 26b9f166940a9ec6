import Mathlib.Data.Finset.Card
import Sigmaengine.Net.Peer

/-!
# The p2p node

The handlers of `node_impl`, the loops it runs, and the transition system they make up: `NodeState.step` is what one
message, one round of a loop or one answer of the delegate does.  All of it runs in one thread, and where a handler
waits for the delegate to process an item, what happens before and after are two steps.  The delegate's short answers
inside a handler (`has_item`, `get_block_time`, `get_blockchain_synopsis`, `get_block_ids`, `get_head_block_id`) let other
tasks run in the code too; here the handler that asks for one is a single step.  A loop may make a round at any time, so
nothing is modelled of what wakes it up.
-/

namespace Graphene

namespace NodeState

variable (s : NodeState)

def modifyPeer (p : PeerId) (f : PeerConnection → PeerConnection) : NodeState :=
  { s with peers := fun q => if q = p then f (s.peers q) else s.peers q }

/-! ## Lists of connections -/

def movePeerToActiveList (p : PeerId) : NodeState :=
  { s with
    activeConnections := s.activeConnections.insert p
    handshakingConnections := s.handshakingConnections.erase p
    closingConnections := s.closingConnections.erase p
    terminatingConnections := s.terminatingConnections.erase p }

def movePeerToClosingList (p : PeerId) : NodeState :=
  { s with
    activeConnections := s.activeConnections.filter fun q => q != p
    handshakingConnections := s.handshakingConnections.erase p
    closingConnections := insert p s.closingConnections
    terminatingConnections := s.terminatingConnections.erase p }

def movePeerToTerminatingList (p : PeerId) : NodeState :=
  { s with
    activeConnections := s.activeConnections.filter fun q => q != p
    handshakingConnections := s.handshakingConnections.erase p
    closingConnections := s.closingConnections.erase p
    terminatingConnections := insert p s.terminatingConnections }

def removePeerFromLists (p : PeerId) : NodeState :=
  { s with
    activeConnections := s.activeConnections.filter fun q => q != p
    handshakingConnections := s.handshakingConnections.erase p
    closingConnections := s.closingConnections.erase p
    terminatingConnections := s.terminatingConnections.erase p }

/-- The peer is told why and moved to the closing list; the connection stays until it is lost. -/
def disconnectFromPeer (p : PeerId) : NodeState := s.movePeerToClosingList p

/-- The read loop ends, by itself or because a handler throws; this is the first half of `on_connection_closed`, up to
where it tells the delegate. -/
def connectionLost (p : PeerId) : NodeState :=
  { s.removePeerFromLists p with reading := s.reading.erase p, lost := insert p s.lost }

/-! ## Items to fetch -/

def isItemInAnyPeersInventory (item : ItemId) : Bool :=
  s.activeConnections.any fun p => (s.peers p).inventoryPeerAdvertisedToUs.has item

def isToBeFetched (item : ItemId) : Bool := s.itemsToFetch.any fun e => e.item == item

/-- Insert under the next sequence number.  Both indices are unique: an item that is there is not inserted again, nor
is one whose sequence number is equivalent to another of its type. -/
def insertItemToFetch (now : Time) (item : ItemId) : NodeState :=
  let e : PrioritizedItemId := ⟨item, s.itemsToFetchSequenceCounter, now⟩
  let later (x : PrioritizedItemId) : Bool :=
    x.item.itemType < item.itemType ||
      x.item.itemType == item.itemType && decide (x.sequenceNumber - e.sequenceNumber < 2147483648)
  { s with
    itemsToFetchSequenceCounter := s.itemsToFetchSequenceCounter + 1
    itemsToFetch :=
      if s.isToBeFetched item || s.itemsToFetch.any e.equivalent then s.itemsToFetch
      else s.itemsToFetch.takeWhile (fun x => !later x) ++ e :: s.itemsToFetch.dropWhile fun x => !later x }

/-- Another peer has it too, so it can be expected to be around for longer. -/
def refreshItemToFetch (now : Time) (item : ItemId) : NodeState :=
  { s with itemsToFetch := s.itemsToFetch.map fun e => if e.item == item then { e with timestamp := now } else e }

def eraseItemsToFetch (items : List ItemId) : NodeState :=
  { s with itemsToFetch := s.itemsToFetch.filter fun e => !items.contains e.item }

end NodeState

/-! ## Synchronisation: the synopsis -/

/-- Why no synopsis comes back: the delegate throws, an index is out of the range of the list, the loop never ends. -/
inductive SynopsisFault
  | olderThanUndoHistory
  | outOfRange
  | endless
deriving DecidableEq

/-- The loop that adds the missing numbers, in unsigned arithmetic.  Without fuel it has gone through more numbers
than there are. -/
def synopsisLoop (ids : List ItemHash) (first high : UInt32) :
    Nat → UInt32 → List ItemHash → Except SynopsisFault (List ItemHash)
  | 0, _, _ => .error .endless
  | fuel + 1, low, synopsis =>
    let low' := low + (high - low + 2) / 2
    if first ≤ low then
      match ids[(low - first).toNat]? with
      | none => .error .outOfRange
      | some id => if low' ≤ high then synopsisLoop ids first high fuel low' (synopsis ++ [id]) else .ok (synopsis ++ [id])
    else if low' ≤ high then synopsisLoop ids first high fuel low' synopsis
    else .ok synopsis

/-- `create_blockchain_synopsis_for_peer`, from the answer of the delegate on. -/
def completeSynopsis (ids synopsis : List ItemHash) : Except SynopsisFault (List ItemHash) :=
  if ids.length % 4294967296 = 0 then .ok synopsis
  else
    let first := (ids.headD .zero).number
    let high := first + UInt32.ofNat ids.length - 1
    let low := match synopsis with
      | [] => 1
      | id :: _ => id.number
    synopsisLoop ids first high 4294967297 low synopsis

def createBlockchainSynopsisForPeer (ctx : Context) (peer : PeerConnection) : Except SynopsisFault (List ItemHash) :=
  match ctx.getBlockchainSynopsis peer.lastBlockDelegateHasSeen (peer.idsOfItemsToGet.length % 4294967296) with
  | none => .error .olderThanUndoHistory
  | some synopsis => completeSynopsis peer.idsOfItemsToGet synopsis

namespace NodeState

variable (ctx : Context) (s : NodeState)

/-- After the two faults of the code's own the node is in no state at all; they leave the model where it is. -/
def fetchNextBatchOfItemIdsFromPeer (p : PeerId) : NodeState :=
  match createBlockchainSynopsisForPeer ctx (s.peers p) with
  | .ok synopsis => s.modifyPeer p fun q => { q with itemIdsRequestedFromPeer := some synopsis }
  | .error .olderThanUndoHistory => s.disconnectFromPeer p
  | .error _ => s

def startSynchronizingWithPeer (p : PeerId) : NodeState :=
  let s := s.modifyPeer p fun q =>
    { q with
      idsOfItemsToGet := []
      numberOfUnfetchedItemIds := 0
      weNeedSyncItemsFromPeer := true
      lastBlockDelegateHasSeen := .zero
      lastBlockTimeDelegateHasSeen := ctx.getBlockTime .zero
      inhibitFetchingSyncBlocks := false }
  s.fetchNextBatchOfItemIdsFromPeer ctx p

def newPeerJustAdded (p : PeerId) : NodeState := s.startSynchronizingWithPeer ctx p

end NodeState

/-! ## Synchronisation: lists of ids -/

/-- The numbers of the ids go up one by one. -/
def isSequential : List ItemHash → Bool
  | [] => true
  | front :: rest => (rest.zipIdx 1).all fun x => x.1.number == front.number + UInt32.ofNat x.2

/-- The list builds on the synopsis it answers; an empty synopsis asks for all blocks. -/
def buildsOn (synopsis : List ItemHash) : List ItemHash → Bool
  | [] => true
  | front :: _ => if synopsis.isEmpty then front.number == 1 else synopsis.contains front

/-- Pop off what the delegate has; the last one popped is the last block it has seen. -/
def popSeen (ctx : Context) (itemType : Nat) (peer : PeerConnection) : List ItemHash → PeerConnection × List ItemHash
  | [] => (peer, [])
  | front :: rest =>
    if ctx.hasItem ⟨itemType, front⟩ then
      popSeen ctx itemType { peer with lastBlockDelegateHasSeen := front,
                                       lastBlockTimeDelegateHasSeen := ctx.getBlockTime front } rest
    else (peer, front :: rest)

/-- Pop off the back until `front` is there. -/
def popBack (front : ItemHash) (ids : List ItemHash) : List ItemHash :=
  (ids.reverse.dropWhile fun id => id != front).reverse

/-- Put a list of ids behind the ones the peer has given before. -/
def spliceIds (ctx : Context) (itemType : Nat) (firstOfOther : Bool) (hashes : List ItemHash) (peer : PeerConnection) :
    PeerConnection :=
  match hashes with
  | [] => peer
  | front :: rest =>
    if peer.idsOfItemsToGet.isEmpty then
      if firstOfOther then { peer with idsOfItemsToGet := hashes }
      else
        let popped := popSeen ctx itemType peer hashes
        { popped.1 with idsOfItemsToGet := popped.2 }
    else
      match popBack front peer.idsOfItemsToGet with
      | [] =>
        -- the peer has switched forks, and none of the old ids is on the new one
        { peer with
          idsOfItemsToGet := rest
          lastBlockDelegateHasSeen := front
          lastBlockTimeDelegateHasSeen := ctx.getBlockTime front }
      | ids => { peer with idsOfItemsToGet := ids.dropLast ++ hashes }

namespace NodeState

variable (ctx : Context) (s : NodeState)

def isFirstItemForOtherPeer (p : PeerId) (front : ItemHash) : Bool :=
  s.activeConnections.any fun q => q != p && (s.peers q).idsOfItemsToGet.head? == some front

def onBlockchainItemIdsInventoryMessage (p : PeerId) (itemType totalRemaining : Nat) (hashes : List ItemHash) :
    NodeState :=
  match (s.peers p).itemIdsRequestedFromPeer with
  | none => s
  | some synopsis =>
    if !isSequential hashes || !buildsOn synopsis hashes then s.disconnectFromPeer p
    else
      let s := s.modifyPeer p fun q => { q with itemIdsRequestedFromPeer := none }
      let upToDate := totalRemaining == 0 &&
        (match hashes with
          | [] => true
          | [only] => ctx.hasItem ⟨itemType, only⟩
          | _ => false) &&
        (s.peers p).idsOfItemsToGet.isEmpty && (s.peers p).numberOfUnfetchedItemIds == 0
      if upToDate then s.modifyPeer p fun q => { q with weNeedSyncItemsFromPeer := false }
      else
        let other := match hashes with
          | [] => false
          | front :: _ => s.isFirstItemForOtherPeer p front
        let s := s.modifyPeer p fun q =>
          { spliceIds ctx itemType other hashes q with numberOfUnfetchedItemIds := totalRemaining }
        let peer := s.peers p
        let minimumTimeOfLastOfferedBlock :=
          (peer.lastBlockTimeDelegateHasSeen + totalRemaining * blockInterval % 4294967296) % 4294967296
        if (ctx.getBlockchainNow + futureSyncBlocksGracePeriodSec) % 4294967296 < minimumTimeOfLastOfferedBlock then
          s.disconnectFromPeer p
        else if totalRemaining != 0 then
          if minBlockIdsToPrefetch < peer.idsOfItemsToGet.length then s
          else s.fetchNextBatchOfItemIdsFromPeer ctx p
        else if peer.idsOfItemsToGet.isEmpty then s.fetchNextBatchOfItemIdsFromPeer ctx p
        else s

/-! ## Handshake -/

def isAlreadyConnectedToId (node : NodeIdentity) (id : NodeId) : Prop :=
  id = node.nodeId ∨ (∃ p ∈ s.activeConnections, id = (s.peers p).nodeId) ∨
    ∃ p ∈ s.handshakingConnections, id = (s.peers p).nodeId

instance (node : NodeIdentity) (id : NodeId) : Decidable (s.isAlreadyConnectedToId node id) :=
  inferInstanceAs (Decidable (_ ∨ _))

def isAcceptingNewConnections : Bool :=
  s.handshakingConnections.card + s.activeConnections.length ≤ ctx.maximumNumberOfConnections

/-- The first known hard fork after a block, or 0. -/
def getNextKnownHardForkBlockNumber (blockNumber : Nat) : Nat :=
  (ctx.hardForkBlockNumbers.find? fun n => blockNumber < n).getD 0

/-- There is a hard fork before the block `current` that the peer does not know. -/
def knowsTooFewForks (lastKnown current : Nat) : Bool :=
  lastKnown != 0 && getNextKnownHardForkBlockNumber ctx lastKnown != 0 &&
    getNextKnownHardForkBlockNumber ctx lastKnown < current

def reject (p : PeerId) : NodeState := s.modifyPeer p fun q => { q with theirState := .connectionRejected }

def accept (p : PeerId) : NodeState := s.modifyPeer p fun q => { q with theirState := .connectionAccepted }

/-- Read an entry of the user data into the connection; to read one that has not the right type throws. -/
def parseUserDatum {α : Type} (p : PeerId) (datum : UserDatum α) (store : α → PeerConnection → PeerConnection) :
    Except NodeState NodeState :=
  match datum with
  | .missing => .ok s
  | .malformed => .error s
  | .value a => .ok (s.modifyPeer p (store a))

def parseHelloUserDataForPeer (p : PeerId) (m : HelloMessage) : Except NodeState NodeState := do
  let s ← s.parseUserDatum p m.nodeId fun id q => { q with nodeId := id }
  let s ← s.parseUserDatum p m.lastKnownForkBlockNumber fun n q => { q with lastKnownForkBlockNumber := n }
  s.parseUserDatum p m.chainId fun id q => { q with chainId := some id }

/-- What `on_hello_message` decides for a peer that has said nothing so far. -/
def decideHello (node : NodeIdentity) (p : PeerId) (alreadyConnected signed : Bool) : NodeState :=
  let peer := s.peers p
  if !signed then (s.reject p).disconnectFromPeer p
  else if knowsTooFewForks ctx peer.lastKnownForkBlockNumber ctx.headBlockNum then (s.reject p).disconnectFromPeer p
  else if peer.chainId != some node.chainId then (s.reject p).disconnectFromPeer p
  else if alreadyConnected then s.reject p
  else if !ctx.allowedPeers.isEmpty && !ctx.allowedPeers.contains peer.nodeId then s.reject p
  else if !s.isAcceptingNewConnections ctx then s.reject p
  else s.accept p

def onHelloMessage (node : NodeIdentity) (p : PeerId) (m : HelloMessage) : NodeState :=
  let peerNodeId := match m.nodeId with
    | .value id => id
    | _ => m.nodePublicKey
  let alreadyConnected := decide (s.isAlreadyConnectedToId node peerNodeId)
  match node.recoverKey (s.peers p).sharedSecret m.signedSharedSecret with
  | none => s.connectionLost p
  | some expected =>
    let s := s.modifyPeer p fun q => { q with nodePublicKey := m.nodePublicKey, nodeId := m.nodePublicKey }
    match s.parseHelloUserDataForPeer p m with
    | .error s => s.connectionLost p
    | .ok s =>
      if (s.peers p).theirState = .justConnected then
        s.decideHello ctx node p alreadyConnected (m.nodePublicKey == expected)
      else s.disconnectFromPeer p

def onConnectionAcceptedMessage (p : PeerId) : NodeState :=
  s.modifyPeer p fun q => { q with ourState := .connectionAccepted }

def onConnectionRejectedMessage (p : PeerId) (reason : RejectionReasonCode) : NodeState :=
  if (s.peers p).ourState = .justConnected then
    let s := if reason = .connectedToSelf then s.movePeerToClosingList p else s
    s.modifyPeer p fun q => { q with ourState := .connectionRejected }
  else s.connectionLost p

def onAddressMessage (p : PeerId) : NodeState :=
  if p ∈ s.handshakingConnections then
    if (s.peers p).ourState = .connectionRejected then s.disconnectFromPeer p
    else if (s.peers p).theirState = .connectionRejected then s.disconnectFromPeer p
    else (s.movePeerToActiveList p).newPeerJustAdded ctx p
  else s

/-- The answer to the request holds nothing the peer does not have. -/
def peerIsInSync (synopsis available : List ItemHash) : Bool :=
  match available with
  | [] => true
  | [only] => synopsis.contains only
  | _ => false

def onFetchBlockchainItemIdsMessage (p : PeerId) (itemType : Nat) (synopsis : List ItemHash) : NodeState :=
  let available := ((ctx.getBlockIds synopsis).getD ([], 0)).1
  let inSync := peerIsInSync synopsis available
  let disconnectFromInhibitedPeer := inSync && !available.isEmpty && (s.peers p).inhibitFetchingSyncBlocks
  let s := s.modifyPeer p fun q => { q with peerNeedsSyncItemsFromUs := !inSync }
  let s :=
    match synopsis.getLast? with
    | none => s
    | some peersLastItemSeen =>
      if !(s.peers p).weNeedSyncItemsFromPeer && !ctx.hasItem ⟨itemType, peersLastItemSeen⟩ then
        s.startSynchronizingWithPeer ctx p
      else s
  if disconnectFromInhibitedPeer then s.disconnectFromPeer p
  else if (s.peers p).direction = .inbound ∧ p ∈ s.handshakingConnections then
    (s.movePeerToActiveList p).newPeerJustAdded ctx p
  else s

/-! ## Items on request -/

/-- The last of the items that is found, where they are asked for as blocks. -/
def lastBlockMessageSent (itemType : Nat) (hashes : List ItemHash) : Option (Option ItemHash) :=
  if itemType = blockMessageType then (hashes.filterMap fun h => ctx.getMessage ⟨itemType, h⟩).getLast? else none

/-- The peer has then seen the last block we sent; to read another message as a block throws. -/
def onFetchItemsMessage (p : PeerId) (itemType : Nat) (hashes : List ItemHash) : NodeState :=
  match lastBlockMessageSent ctx itemType hashes with
  | none => s
  | some none => s.connectionLost p
  | some (some blockId) =>
    s.modifyPeer p fun q =>
      { q with lastBlockDelegateHasSeen := blockId, lastBlockTimeDelegateHasSeen := ctx.getBlockTime blockId }

/-- The peer does not have an item after all: another one that has it is to be asked.  A sync item it was asked for is
taken off its list only. -/
def onItemNotAvailableMessage (p : PeerId) (item : ItemId) : NodeState :=
  if (s.peers p).itemsRequestedFromPeer.contains item then
    let s := s.modifyPeer p fun q =>
      { q with
        itemsRequestedFromPeer := q.itemsRequestedFromPeer.filter fun x => x != item
        inventoryPeerAdvertisedToUs := q.inventoryPeerAdvertisedToUs.without item }
    if s.isItemInAnyPeersInventory item then s.insertItemToFetch ctx.now item else s
  else if item.itemHash ∈ (s.peers p).syncItemsRequestedFromPeer then
    let s := s.modifyPeer p fun q =>
      { q with syncItemsRequestedFromPeer := q.syncItemsRequestedFromPeer.erase item.itemHash }
    if (s.peers p).peerNeedsSyncItemsFromUs then s.modifyPeer p fun q => { q with inhibitFetchingSyncBlocks := true }
    else s.disconnectFromPeer p
  else s

def weAdvertisedToAPeer (item : ItemId) : Bool :=
  s.activeConnections.any fun q => (s.peers q).inventoryAdvertisedToPeer.has item

def weRequestedFromAPeer (item : ItemId) : Bool :=
  s.activeConnections.any fun q => (s.peers q).itemsRequestedFromPeer.contains item

/-- We are at work on the item, or have it. -/
def hasOrProcesses (item : ItemId) : Bool :=
  decide (item.itemHash ∈ s.messageIdsCurrentlyBeingProcessed) || s.newInventory.contains item ||
    s.weAdvertisedToAPeer item

/-- The peer has advertised too much. -/
def floodedBy (p : PeerId) (itemType : Nat) : Bool :=
  itemType == trxMessageType && (s.peers p).isInventoryAdvertisedToUsListFullForTransactions ||
    (s.peers p).isInventoryAdvertisedToUsListFull

/-- An item that is new to us goes into the inventory of the peer and, if nobody has been asked for it, into the list of
items to fetch. -/
def recordAdvertised (p : PeerId) (item : ItemId) : NodeState :=
  let requested := s.weRequestedFromAPeer item
  let s := s.modifyPeer p fun q =>
    { q with inventoryPeerAdvertisedToUs := q.inventoryPeerAdvertisedToUs.add item (seconds ctx.now) }
  if requested then s
  else if s.recentlyFailedItems.has item then s
  else if s.isToBeFetched item then s.refreshItemToFetch ctx.now item
  else s.insertItemToFetch ctx.now item

/-- The loop over the advertised items; a flood of them ends it. -/
def recordInventory (p : PeerId) (itemType : Nat) : List ItemHash → NodeState → NodeState
  | [], s => s
  | hash :: rest, s =>
    if s.hasOrProcesses ⟨itemType, hash⟩ then recordInventory p itemType rest s
    else if s.floodedBy p itemType then s
    else recordInventory p itemType rest (s.recordAdvertised ctx p ⟨itemType, hash⟩)

def clearOldInventory (p : PeerId) : NodeState := s.modifyPeer p fun q => q.clearOldInventory ctx.now

def onItemIdsInventoryMessage (p : PeerId) (itemType : Nat) (hashes : List ItemHash) : NodeState :=
  recordInventory ctx p itemType hashes (s.clearOldInventory ctx p)

/-! ## A connection is closed -/

/-- Whatever was asked for and has not come is to be asked for again, where another peer has it. -/
def rescheduleItems (items : List ItemId) : NodeState :=
  items.foldl (fun s item => if s.isItemInAnyPeersInventory item then s.insertItemToFetch ctx.now item else s) s

/-- The second half of `on_connection_closed`. -/
def onConnectionClosed (p : PeerId) : NodeState :=
  let s := { s with
    activeSyncRequests := s.activeSyncRequests \ (s.peers p).syncItemsRequestedFromPeer
    lost := s.lost.erase p
    closed := insert p s.closed }
  s.rescheduleItems ctx (s.peers p).itemsRequestedFromPeer

/-! ## Items that come -/

/-- `push_back` of the circular buffer, whose capacity is `GRAPHENE_NET_DEFAULT_MAX_CONNECTIONS`. -/
def pushAccepted (accepted : List ItemHash) (blockId : ItemHash) : List ItemHash :=
  (accepted ++ [blockId]).drop (accepted.length + 1 - 200)

def broadcast (item : ItemId) (blockId : Option ItemHash) : NodeState :=
  { s with
    mostRecentBlocksAccepted := blockId.elim s.mostRecentBlocksAccepted (pushAccepted s.mostRecentBlocksAccepted)
    newInventory := s.newInventory.insert item }

def forEachPeer (ps : List PeerId) (f : NodeState → PeerId → NodeState) : NodeState := ps.foldl f s

/-- The peers that a hard fork at the block `num` leaves behind. -/
def leftBehind (num : Nat) : List PeerId :=
  if ctx.hardForkBlockNumbers.contains num then
    s.activeConnections.filter fun q => knowsTooFewForks ctx (s.peers q).lastKnownForkBlockNumber (num + 1)
  else []

/-- The end of `process_block_during_normal_operation` for a block that is valid. -/
def blockValidated (hash : ItemHash) (m : BlockMessage) : NodeState :=
  let item : ItemId := ⟨blockMessageType, hash⟩
  let seen (s : NodeState) (q : PeerId) : NodeState :=
    let s :=
      if (s.peers q).inventoryPeerAdvertisedToUs.has item then
        s.modifyPeer q fun peer =>
          { peer with lastBlockDelegateHasSeen := m.blockId, lastBlockTimeDelegateHasSeen := m.timestamp }
      else s
    s.clearOldInventory ctx q
  let s := s.forEachPeer s.activeConnections seen
  let s := s.broadcast item (some m.blockId)
  s.forEachPeer (s.leftBehind ctx m.blockNum) disconnectFromPeer

/-- `process_block_during_normal_operation`, up to the call of the delegate if there is one. -/
def processBlockDuringNormalOperation (p : PeerId) (hash : ItemHash) (m : BlockMessage) : NodeState :=
  if s.mostRecentBlocksAccepted.contains m.blockId then s.blockValidated ctx hash m
  else
    { s with
      messageIdsCurrentlyBeingProcessed := insert hash s.messageIdsCurrentlyBeingProcessed
      blocksBeingHandled := (p, hash, m) :: s.blocksBeingHandled }

def processBlockMessage (p : PeerId) (hash : ItemHash) (m : BlockMessage) : NodeState :=
  let item : ItemId := ⟨blockMessageType, hash⟩
  if (s.peers p).itemsRequestedFromPeer.contains item then
    let s := s.modifyPeer p fun q =>
      { q with itemsRequestedFromPeer := q.itemsRequestedFromPeer.filter fun x => x != item }
    s.processBlockDuringNormalOperation ctx p hash m
  else if m.blockId ∈ (s.peers p).syncItemsRequestedFromPeer then
    let s := s.modifyPeer p fun q =>
      { q with syncItemsRequestedFromPeer := q.syncItemsRequestedFromPeer.erase m.blockId }
    let s := { s with
      activeSyncRequests := s.activeSyncRequests.erase m.blockId
      newReceivedSyncItems := m :: s.newReceivedSyncItems }
    let peer := s.peers p
    if peer.idle && decide (0 < peer.numberOfUnfetchedItemIds) &&
        decide (peer.idsOfItemsToGet.length < minBlockIdsToPrefetch) then
      s.fetchNextBatchOfItemIdsFromPeer ctx p
    else s
  else s.disconnectFromPeer p

def processOrdinaryMessage (p : PeerId) (item : ItemId) : NodeState :=
  if (s.peers p).itemsRequestedFromPeer.contains item then
    let s := s.modifyPeer p fun q =>
      { q with itemsRequestedFromPeer := q.itemsRequestedFromPeer.filter fun x => x != item }
    { s with messagesBeingHandled := (p, item) :: s.messagesBeingHandled }
  else s.disconnectFromPeer p

end NodeState

/-- How the call of the delegate for a block of normal operation ends: it is accepted, and contains these transactions;
it does not link; it is invalid; or the connection is deleted meanwhile and its task cancelled. -/
inductive BlockOutcome
  | accepted (transactions : List ItemHash)
  | unlinkable
  | invalid
  | canceled

def BlockOutcome.isAccepted : BlockOutcome → Bool
  | .accepted _ => true
  | _ => false

/-- What the delegate says of a block of the synchronisation. -/
inductive SyncBlockOutcome
  | accepted
  | olderThanUndoHistory
  | invalid
deriving DecidableEq

namespace NodeState

variable (ctx : Context) (s : NodeState)

/-- The delegate has answered about a block.  Only a block it accepts is taken off the list of what is being
processed. -/
def blockHandled (p : PeerId) (hash : ItemHash) (m : BlockMessage) (outcome : BlockOutcome) : NodeState :=
  let s := { s with blocksBeingHandled := s.blocksBeingHandled.erase (p, hash, m) }
  match outcome with
  | .accepted transactions =>
    let s := { s with
      messageIdsCurrentlyBeingProcessed := s.messageIdsCurrentlyBeingProcessed.erase hash
      mostRecentBlocksAccepted := pushAccepted s.mostRecentBlocksAccepted m.blockId }
    let s := s.eraseItemsToFetch (transactions.map fun h => ⟨trxMessageType, h⟩)
    s.blockValidated ctx hash m
  | .unlinkable => s.startSynchronizingWithPeer ctx p
  | .invalid =>
    let offered := s.activeConnections.filter fun q => (s.peers q).idsOfItemsToGet.head? == some m.blockId
    s.forEachPeer (offered.insert p) disconnectFromPeer
  -- the read loop ends with it, and tells nobody
  | .canceled => { s with reading := s.reading.erase p }

/-- The delegate has answered about another message; one that it rejects is not to be fetched again for a while. -/
def messageHandled (p : PeerId) (item : ItemId) (accepted : Bool) : NodeState :=
  let s := { s with messagesBeingHandled := s.messagesBeingHandled.erase (p, item) }
  if accepted then s.broadcast item none
  else { s with recentlyFailedItems := s.recentlyFailedItems.add item (seconds ctx.now) }

/-- Nothing more is known of what this peer has. -/
def hasNewlyEmptyItemList (q : PeerId) : Bool :=
  (s.peers q).idsOfItemsToGet.isEmpty && (s.peers q).numberOfUnfetchedItemIds == 0 &&
    decide ((s.peers q).idsOfItemsBeingProcessed = ∅)

def noLongerProcessing (q : PeerId) (blockId : ItemHash) : NodeState :=
  s.modifyPeer q fun peer => { peer with idsOfItemsBeingProcessed := peer.idsOfItemsBeingProcessed.erase blockId }

/-- `send_sync_block_to_node_delegate`, after the answer of the delegate. -/
def syncBlockHandled (m : BlockMessage) (outcome : SyncBlockOutcome) : NodeState :=
  let s := { s with handleMessageCallsInProgress := s.handleMessageCallsInProgress.erase m }
  match outcome with
  | .accepted =>
    let s := { s with mostRecentBlocksAccepted := pushAccepted s.mostRecentBlocksAccepted m.blockId }
    let peersToDisconnect := s.leftBehind ctx m.blockNum
    let others := s.activeConnections.filter fun q => !peersToDisconnect.contains q
    let nothingListed (q : PeerId) : Bool :=
      (s.peers q).idsOfItemsToGet.isEmpty && decide ((s.peers q).idsOfItemsBeingProcessed = ∅)
    let peersWeNeedToSyncTo := others.filter fun q =>
      nothingListed q && !(s.peers q).peerNeedsSyncItemsFromUs && !(s.peers q).weNeedSyncItemsFromPeer
    let offering := others.filter fun q => !nothingListed q && m.blockId ∈ (s.peers q).idsOfItemsBeingProcessed
    let s := s.forEachPeer offering fun s q =>
      (s.noLongerProcessing q m.blockId).modifyPeer q fun peer =>
        { peer with lastBlockDelegateHasSeen := m.blockId, lastBlockTimeDelegateHasSeen := m.timestamp }
    let peersWithNewlyEmptyItemLists := offering.filter s.hasNewlyEmptyItemList
    let s := s.forEachPeer peersToDisconnect disconnectFromPeer
    let s := s.forEachPeer peersWithNewlyEmptyItemLists (fetchNextBatchOfItemIdsFromPeer ctx)
    s.forEachPeer peersWeNeedToSyncTo (startSynchronizingWithPeer ctx)
  | .olderThanUndoHistory =>
    s.forEachPeer (s.activeConnections.filter fun q => m.blockId ∈ (s.peers q).idsOfItemsBeingProcessed) fun s q =>
      s.modifyPeer q fun peer => { peer with inhibitFetchingSyncBlocks := true }
  | .invalid =>
    s.forEachPeer (s.activeConnections.filter fun q => m.blockId ∈ (s.peers q).idsOfItemsBeingProcessed)
      disconnectFromPeer

/-- The active peers whose list begins with a block. -/
def peersOffering (blockId : ItemHash) : List PeerId :=
  s.activeConnections.filter fun q => (s.peers q).idsOfItemsToGet.head? == some blockId

/-- A block at the front of a list is on its way to the delegate. -/
def startProcessing (q : PeerId) (blockId : ItemHash) : NodeState :=
  s.modifyPeer q fun peer =>
    { peer with
      idsOfItemsToGet := peer.idsOfItemsToGet.tail
      idsOfItemsBeingProcessed := insert blockId peer.idsOfItemsBeingProcessed }

/-- A round of `process_backlog_of_sync_blocks`; the answer says whether a block goes to the delegate. -/
def processBacklogRound : NodeState × Bool :=
  let s := { s with
    receivedSyncItems := s.newReceivedSyncItems.reverse ++ s.receivedSyncItems
    newReceivedSyncItems := [] }
  match s.receivedSyncItems.find? fun m => !(s.peersOffering m.blockId).isEmpty with
  | none => (s, false)
  | some m =>
    let s := s.forEachPeer (s.peersOffering m.blockId) fun s q => s.startProcessing q m.blockId
    if s.mostRecentBlocksAccepted.contains m.blockId then
      let offering := s.activeConnections.filter fun q => m.blockId ∈ (s.peers q).idsOfItemsBeingProcessed
      let s := s.forEachPeer offering fun s q => s.noLongerProcessing q m.blockId
      (s.forEachPeer (offering.filter s.hasNewlyEmptyItemList) (fetchNextBatchOfItemIdsFromPeer ctx), false)
    else
      ({ s with
          receivedSyncItems := s.receivedSyncItems.erase m
          handleMessageCallsInProgress := m :: s.handleMessageCallsInProgress }, true)

/-- Every round that goes on takes one block off the list. -/
def processBacklogLoop : Nat → NodeState → NodeState
  | 0, s => s
  | fuel + 1, s =>
    let r := s.processBacklogRound ctx
    if ctx.maximumNumberOfBlocksToHandleAtOneTime ≤ r.1.handleMessageCallsInProgress.length then
      if ctx.maximumNumberOfSyncBlocksToPrefetch ≤ r.1.receivedSyncItems.length then
        { r.1 with suspendFetchingSyncBlocks := true }
      else r.1
    else if r.2 then processBacklogLoop fuel r.1
    else r.1

def processBacklogOfSyncBlocks : NodeState :=
  if ctx.maximumNumberOfBlocksToHandleAtOneTime ≤ s.handleMessageCallsInProgress.length then s
  else
    processBacklogLoop ctx (s.newReceivedSyncItems.length + s.receivedSyncItems.length + 1)
      { s with suspendFetchingSyncBlocks := false }

/-! ## Loops -/

def haveAlreadyReceivedSyncItem (hash : ItemHash) : Bool :=
  s.receivedSyncItems.any (fun m => m.blockId == hash) || s.newReceivedSyncItems.any fun m => m.blockId == hash

/-- What to request from a peer: ids on its list that are not there, not requested, and not in `taken`. -/
def chooseSyncItems (limit : Nat) : List ItemHash → List ItemHash → Finset ItemHash → List ItemHash
  | [], chosen, _ => chosen
  | id :: ids, chosen, taken =>
    if !s.haveAlreadyReceivedSyncItem id && id ∉ taken && id ∉ s.activeSyncRequests then
      if limit ≤ chosen.length + 1 then chosen ++ [id]
      else chooseSyncItems limit ids (chosen ++ [id]) (insert id taken)
    else chooseSyncItems limit ids chosen taken

/-- The requests of one round of `fetch_sync_items_loop`, peer after peer. -/
def scheduleSyncItems : List PeerId → Finset ItemHash → List (PeerId × List ItemHash)
  | [], _ => []
  | p :: ps, taken =>
    let peer := s.peers p
    if peer.weNeedSyncItemsFromPeer && peer.idle && !peer.inhibitFetchingSyncBlocks then
      let chosen := s.chooseSyncItems ctx.maximumBlocksPerPeerDuringSyncing peer.idsOfItemsToGet [] taken
      if chosen.isEmpty then scheduleSyncItems ps taken
      else (p, chosen) :: scheduleSyncItems ps (taken ∪ chosen.toFinset)
    else scheduleSyncItems ps taken

def requestSyncItemsFromPeer (p : PeerId) (items : List ItemHash) : NodeState :=
  { s.modifyPeer p fun q => { q with syncItemsRequestedFromPeer := q.syncItemsRequestedFromPeer ∪ items.toFinset } with
    activeSyncRequests := s.activeSyncRequests ∪ items.toFinset }

/-- A round of `fetch_sync_items_loop`. -/
def fetchSyncItems : NodeState :=
  if s.suspendFetchingSyncBlocks then s
  else (s.scheduleSyncItems ctx s.activeConnections ∅).foldl (fun s r => s.requestSyncItemsFromPeer r.1 r.2) s

/-- The idle peers with what they are to be asked for, those with the fewest items first. -/
abbrev ItemsByPeer := List (PeerId × List ItemId)

/-- A peer that has the item, and is not to be asked for too many others. -/
def canProvide (item : ItemId) (r : PeerId × List ItemId) : Bool :=
  r.2.length < maxItemsPerPeerDuringNormalOperation &&
    (s.peers r.1).inventoryPeerAdvertisedToUs.has item &&
    !(item.itemType == trxMessageType && (s.peers r.1).isTransactionFetchingInhibited ctx.now)

/-- Give the peer one item more, and its place in the order. -/
def assign (item : ItemId) (r : PeerId × List ItemId) (l : ItemsByPeer) : ItemsByPeer :=
  let rest := l.erase r
  rest.takeWhile (fun x => x.2.length ≤ r.2.length + 1) ++ (r.1, r.2 ++ [item]) ::
    rest.dropWhile fun x => x.2.length ≤ r.2.length + 1

/-- The items of the list in order: an old one is dropped, one that a peer can provide is requested. -/
def fetchItemsFrom (oldest : Time) : List PrioritizedItemId → ItemsByPeer → NodeState → NodeState
  | [], _, s => s
  | e :: rest, l, s =>
    if e.timestamp < oldest then fetchItemsFrom oldest rest l (s.eraseItemsToFetch [e.item])
    else
      match l.find? (s.canProvide ctx e.item) with
      | none => fetchItemsFrom oldest rest l s
      | some r =>
        let s := s.modifyPeer r.1 fun q => { q with itemsRequestedFromPeer := q.itemsRequestedFromPeer.insert e.item }
        fetchItemsFrom oldest rest (assign e.item r l) (s.eraseItemsToFetch [e.item])

/-- A round of `fetch_items_loop`. -/
def fetchItems : NodeState :=
  let oldest := ctx.now - blockInterval * messageCacheDurationInBlocks * 1000000
  let idle := s.activeConnections.filter fun p => (s.peers p).idle
  fetchItemsFrom ctx oldest s.itemsToFetch (idle.map fun p => (p, [])) s

/-- Advertise to one peer what it has not got from us or told us about. -/
def advertiseTo (items : List ItemId) (p : PeerId) : NodeState :=
  let s :=
    if (s.peers p).peerNeedsSyncItemsFromUs then s
    else
      s.modifyPeer p fun q =>
        { q with
          inventoryAdvertisedToPeer :=
            (items.filter fun item => !q.inventoryPeerAdvertisedToUs.has item).foldl
              (fun l item => l.add item (seconds ctx.now)) q.inventoryAdvertisedToPeer }
  s.clearOldInventory ctx p

/-- A round of `advertise_inventory_loop`. -/
def advertiseInventory : NodeState :=
  let items := s.newInventory
  { s with newInventory := [] }.forEachPeer s.activeConnections fun s p => s.advertiseTo ctx items p

/-- What `fetch_updated_peer_lists_loop` does on the side: forget failures of a quarter of an hour ago. -/
def pruneRecentlyFailedItems : NodeState :=
  { s with recentlyFailedItems := s.recentlyFailedItems.since (seconds (ctx.now - 15 * 60 * 1000000)) }

end NodeState

/-! ## The transition system -/

inductive Event
  /-- `accept_loop` has a new connection. -/
  | accept
  /-- `accept_connection_task` has exchanged keys with it. -/
  | acceptConnection (p : PeerId) (secret : SharedSecret)
  | initiateConnectTo (firewallCheck : Bool)
  /-- `connect_to_task` is done; without a secret the attempt has failed. -/
  | connectTo (p : PeerId) (secret : Option SharedSecret)
  | message (p : PeerId) (m : Message)
  | connectionLost (p : PeerId)
  | connectionClosed (p : PeerId)
  | blockHandled (p : PeerId) (hash : ItemHash) (m : BlockMessage) (outcome : BlockOutcome)
  | messageHandled (p : PeerId) (item : ItemId) (accepted : Bool)
  | syncBlockHandled (m : BlockMessage) (outcome : SyncBlockOutcome)
  | processBacklogOfSyncBlocks
  | fetchSyncItems
  | fetchItems
  | advertiseInventory
  | pruneRecentlyFailedItems
  /-- `terminate_inactive_connections_loop`, or a change of the parameters, drops a peer. -/
  | disconnect (p : PeerId)
  | terminate (p : PeerId)
  /-- The client hands an item over, to be advertised. -/
  | broadcast (item : ItemId) (blockId : Option ItemHash)
  | syncFrom (currentHeadBlock : ItemHash)
  /-- The active connections come in another order. -/
  | rehash (order : List PeerId)

namespace NodeState

variable (node : NodeIdentity) (ctx : Context) (s : NodeState)

def newPeer (firewallCheck : Bool) : NodeState :=
  { s with
    peers := fun q => if q = s.nextPeer then { performingFirewallCheck := firewallCheck } else s.peers q
    nextPeer := s.nextPeer + 1
    handshakingConnections := insert s.nextPeer s.handshakingConnections }

/-- Keys are exchanged, and the read loop starts. -/
def established (p : PeerId) (direction : PeerConnectionDirection) (secret : SharedSecret) : NodeState :=
  { s.modifyPeer p fun q =>
      { q with
        direction := direction
        ourState := .justConnected
        theirState := .justConnected
        sharedSecret := secret } with
    reading := insert p s.reading }

def onMessage (p : PeerId) : Message → NodeState
  | .hello m => s.onHelloMessage ctx node p m
  | .connectionAccepted => s.onConnectionAcceptedMessage p
  | .connectionRejected reason => s.onConnectionRejectedMessage p reason
  | .address => s.onAddressMessage ctx p
  | .fetchBlockchainItemIds itemType synopsis => s.onFetchBlockchainItemIdsMessage ctx p itemType synopsis
  | .blockchainItemIdsInventory itemType totalRemaining hashes =>
    s.onBlockchainItemIdsInventoryMessage ctx p itemType totalRemaining hashes
  | .fetchItems itemType hashes => s.onFetchItemsMessage ctx p itemType hashes
  | .itemNotAvailable item => s.onItemNotAvailableMessage ctx p item
  | .itemIdsInventory itemType hashes => s.onItemIdsInventoryMessage ctx p itemType hashes
  | .block hash m => s.processBlockMessage ctx p hash m
  | .ordinary item => s.processOrdinaryMessage p item
  | .other => s

/-- A connection attempt that is still to be made. -/
def connecting (p : PeerId) : Prop := p < s.nextPeer ∧ (s.peers p).theirState = .disconnected

instance (p : PeerId) : Decidable (s.connecting p) := inferInstanceAs (Decidable (_ ∧ _))

/-- **One step** of the node; an event that cannot occur leaves the state as it is. -/
def step : Event → NodeState
  | .accept => s.newPeer false
  | .acceptConnection p secret => if s.connecting p then s.established p .inbound secret else s
  | .initiateConnectTo firewallCheck => s.newPeer firewallCheck
  | .connectTo p secret =>
    if s.connecting p then
      match secret with
      | none => s.removePeerFromLists p
      | some secret =>
        let s := s.established p .outbound secret
        if (s.peers p).performingFirewallCheck then s.removePeerFromLists p else s
    else s
  | .message p m => if p ∈ s.reading then s.onMessage node ctx p m else s
  | .connectionLost p => if p ∈ s.reading then s.connectionLost p else s
  | .connectionClosed p => if p ∈ s.lost then s.onConnectionClosed ctx p else s
  | .blockHandled p hash m outcome =>
    if (p, hash, m) ∈ s.blocksBeingHandled then s.blockHandled ctx p hash m outcome else s
  | .messageHandled p item accepted =>
    if (p, item) ∈ s.messagesBeingHandled then s.messageHandled ctx p item accepted else s
  | .syncBlockHandled m outcome =>
    if m ∈ s.handleMessageCallsInProgress then s.syncBlockHandled ctx m outcome else s
  | .processBacklogOfSyncBlocks => s.processBacklogOfSyncBlocks ctx
  | .fetchSyncItems => s.fetchSyncItems ctx
  | .fetchItems => s.fetchItems ctx
  | .advertiseInventory => s.advertiseInventory ctx
  | .pruneRecentlyFailedItems => s.pruneRecentlyFailedItems ctx
  | .disconnect p => if p < s.nextPeer then s.disconnectFromPeer p else s
  | .terminate p => if p < s.nextPeer then s.movePeerToTerminatingList p else s
  | .broadcast item blockId => s.broadcast item blockId
  | .syncFrom currentHeadBlock => { s with mostRecentBlocksAccepted := [currentHeadBlock] }
  | .rehash order => if order.Perm s.activeConnections then { s with activeConnections := order } else s

end NodeState

/-- An event, and what the node finds when it comes. -/
structure Call where
  ctx : Context
  event : Event

def next (node : NodeIdentity) (s : NodeState) (c : Call) : NodeState := s.step node c.ctx c.event

end Graphene
