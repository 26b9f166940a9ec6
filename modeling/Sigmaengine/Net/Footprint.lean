import Sigmaengine.Net.Node

/-!
# What a step of the node touches

The state falls into four parts: where the connections stand, the lists of ids to synchronise to, the requests for sync
blocks, and the items of normal operation.  `NodeState.Kept X s s'` says that on the way from `s` to `s'` all parts but
those in `X` are kept, up to connections that leave and entries that go.  Every handler has its footprint, and
`step_kept` puts them together.
-/

namespace Graphene

inductive Part
  | links
  | lists
  | sync
  | items
deriving DecidableEq

/-- The parts of a connection that are not in `X` are kept; its list of ids may lose ids at the front. -/
structure PeerConnection.Kept (X : Finset Part) (c c' : PeerConnection) : Prop where
  links : .links ∉ X → c'.direction = c.direction ∧ c'.theirState = c.theirState ∧ c'.chainId = c.chainId
  lists : .lists ∉ X → c'.idsOfItemsToGet <:+ c.idsOfItemsToGet
  sync : .sync ∉ X → c'.syncItemsRequestedFromPeer = c.syncItemsRequestedFromPeer
  items : .items ∉ X → c'.itemsRequestedFromPeer = c.itemsRequestedFromPeer ∧
    ∀ x, c'.inventoryPeerAdvertisedToUs.has x → c.inventoryPeerAdvertisedToUs.has x

/-- An active peer is on no other list. -/
def NodeState.Apart (s : NodeState) : Prop :=
  ∀ p ∈ s.activeConnections, p ∉ s.handshakingConnections ∧ p ∉ s.closingConnections ∧ p ∉ s.terminatingConnections

/-- Connections may leave the lists, and be lost where they were read from. -/
structure NodeState.LinksKept (s s' : NodeState) : Prop where
  nextPeer : s'.nextPeer = s.nextPeer
  reading : s'.reading ⊆ s.reading
  handshaking : s'.handshakingConnections ⊆ s.handshakingConnections
  active : s'.activeConnections ⊆ s.activeConnections
  lost : ∀ q ∈ s'.lost, q ∈ s.lost ∨
    q ∈ s.reading ∧ q ∉ s'.reading ∧ q ∉ s'.handshakingConnections ∧ q ∉ s'.activeConnections
  closed : s'.closed = s.closed
  apart : s.Apart → s'.Apart

structure NodeState.Kept (X : Finset Part) (s s' : NodeState) : Prop where
  peers : ∀ q < s.nextPeer, (s.peers q).Kept X (s'.peers q)
  nextPeer : s.nextPeer ≤ s'.nextPeer
  links : .links ∉ X → s.LinksKept s'
  sync : .sync ∉ X → s'.activeSyncRequests = s.activeSyncRequests
  items : .items ∉ X → s'.itemsToFetch = s.itemsToFetch ∧
    s'.itemsToFetchSequenceCounter = s.itemsToFetchSequenceCounter ∧ s'.recentlyFailedItems = s.recentlyFailedItems

variable {X Y : Finset Part}

namespace PeerConnection

variable {c c' c'' : PeerConnection}

theorem Kept.refl (X : Finset Part) (c : PeerConnection) : c.Kept X c := by
  constructor <;> simp

theorem Kept.trans (h : c.Kept X c') (h' : c'.Kept X c'') : c.Kept X c'' where
  links hX := by
    obtain ⟨hd, ht, hc⟩ := h.links hX
    obtain ⟨hd', ht', hc'⟩ := h'.links hX
    exact ⟨hd'.trans hd, ht'.trans ht, hc'.trans hc⟩
  lists hX := (h'.lists hX).trans (h.lists hX)
  sync hX := (h'.sync hX).trans (h.sync hX)
  items hX := ⟨(h'.items hX).1.trans (h.items hX).1, fun x hx => (h.items hX).2 x ((h'.items hX).2 x hx)⟩

theorem Kept.mono (h : c.Kept X c') (hXY : X ⊆ Y) : c.Kept Y c' where
  links hY := h.links fun hX => hY (hXY hX)
  lists hY := h.lists fun hX => hY (hXY hX)
  sync hY := h.sync fun hX => hY (hXY hX)
  items hY := h.items fun hX => hY (hXY hX)

theorem has_since {l : TimestampedItems} {oldest : Nat} {x : ItemId} (h : (l.since oldest).has x) : l.has x := by
  simp only [TimestampedItems.has, TimestampedItems.since, List.any_eq_true, List.mem_filter] at h ⊢
  obtain ⟨t, ⟨ht, -⟩, hx⟩ := h
  exact ⟨t, ht, hx⟩

theorem clearOldInventory_kept (now : Time) : c.Kept X (c.clearOldInventory now) := by
  constructor <;> intro _ <;> simp only [clearOldInventory, and_self, List.suffix_rfl, true_and]
  intro x hx
  exact has_since hx

end PeerConnection

namespace NodeState

variable {s s' s'' : NodeState} {p : PeerId} {ctx : Context} {node : NodeIdentity}

theorem LinksKept.refl (s : NodeState) : s.LinksKept s := by
  constructor <;> simp +contextual

theorem LinksKept.trans (h : s.LinksKept s') (h' : s'.LinksKept s'') : s.LinksKept s'' where
  nextPeer := h'.nextPeer.trans h.nextPeer
  reading := le_trans h'.reading h.reading
  handshaking := le_trans h'.handshaking h.handshaking
  active := List.Subset.trans h'.active h.active
  lost q hq := by
    rcases h'.lost q hq with hq' | ⟨hr, hr', hh, ha⟩
    · rcases h.lost q hq' with hq'' | ⟨hr, hr', hh, ha⟩
      · exact .inl hq''
      · exact .inr ⟨hr, fun hm => hr' (h'.reading hm), fun hm => hh (h'.handshaking hm), fun hm => ha (h'.active hm)⟩
    · exact .inr ⟨h.reading hr, hr', hh, ha⟩
  closed := h'.closed.trans h.closed
  apart hapart := h'.apart (h.apart hapart)

/-- Where none of the fields is touched. -/
theorem LinksKept.of_eq
    (h : (s'.nextPeer, s'.reading, s'.handshakingConnections, s'.activeConnections, s'.closingConnections,
        s'.terminatingConnections, s'.lost, s'.closed) =
      (s.nextPeer, s.reading, s.handshakingConnections, s.activeConnections, s.closingConnections,
        s.terminatingConnections, s.lost, s.closed)) : s.LinksKept s' := by
  simp only [Prod.mk.injEq] at h
  obtain ⟨hn, hr, hh, ha, hclosing, hterminating, hl, hc⟩ := h
  constructor <;> simp +contextual [Apart, hn, hr, hh, ha, hclosing, hterminating, hl, hc]

theorem Kept.refl (X : Finset Part) (s : NodeState) : s.Kept X s where
  peers _ _ := PeerConnection.Kept.refl X _
  nextPeer := le_refl _
  links _ := LinksKept.refl s
  sync _ := rfl
  items _ := ⟨rfl, rfl, rfl⟩

theorem Kept.trans (h : s.Kept X s') (h' : s'.Kept X s'') : s.Kept X s'' where
  peers q hq := (h.peers q hq).trans (h'.peers q (hq.trans_le h.nextPeer))
  nextPeer := h.nextPeer.trans h'.nextPeer
  links hX := (h.links hX).trans (h'.links hX)
  sync hX := (h'.sync hX).trans (h.sync hX)
  items hX := by
    obtain ⟨hf, hc, hr⟩ := h.items hX
    obtain ⟨hf', hc', hr'⟩ := h'.items hX
    exact ⟨hf'.trans hf, hc'.trans hc, hr'.trans hr⟩

theorem Kept.mono (h : s.Kept X s') (hXY : X ⊆ Y) : s.Kept Y s' where
  peers q hq := (h.peers q hq).mono hXY
  nextPeer := h.nextPeer
  links hY := h.links fun hX => hY (hXY hX)
  sync hY := h.sync fun hX => hY (hXY hX)
  items hY := h.items fun hX => hY (hXY hX)

theorem Kept.weaken (h : s.Kept ∅ s') : s.Kept X s' := h.mono (Finset.empty_subset X)

/-! ## Single updates -/

theorem modifyPeer_kept {f : PeerConnection → PeerConnection} (h : (s.peers p).Kept X (f (s.peers p))) :
    s.Kept X (s.modifyPeer p f) where
  peers q _ := by
    by_cases hq : q = p
    · subst hq
      simpa [modifyPeer] using h
    · simpa [modifyPeer, hq] using PeerConnection.Kept.refl X _
  nextPeer := le_refl _
  links _ := LinksKept.of_eq rfl
  sync _ := rfl
  items _ := ⟨rfl, rfl, rfl⟩

@[simp] theorem modifyPeer_modifyPeer (f g : PeerConnection → PeerConnection) :
    (s.modifyPeer p f).modifyPeer p g = s.modifyPeer p fun c => g (f c) := by
  simp only [modifyPeer, NodeState.mk.injEq, and_true]
  funext q
  by_cases hq : q = p <;> simp [hq]

@[simp] theorem modifyPeer_id : (s.modifyPeer p fun c => c) = s := by
  simp [modifyPeer]

/-- Connections leave the lists. -/
theorem kept_of_linksKept (hpeers : s'.peers = s.peers) (hlinks : s.LinksKept s')
    (hsync : s'.activeSyncRequests = s.activeSyncRequests)
    (hitems : (s'.itemsToFetch, s'.itemsToFetchSequenceCounter, s'.recentlyFailedItems) =
      (s.itemsToFetch, s.itemsToFetchSequenceCounter, s.recentlyFailedItems)) : s.Kept X s' where
  peers q _ := by
    rw [hpeers]
    exact PeerConnection.Kept.refl X _
  nextPeer := hlinks.nextPeer.ge
  links _ := hlinks
  sync _ := hsync
  items _ := by simpa using hitems

/-- Fields that belong to no part are changed. -/
theorem kept_of_eq (hpeers : s'.peers = s.peers)
    (hlinks : (s'.nextPeer, s'.reading, s'.handshakingConnections, s'.activeConnections, s'.closingConnections,
        s'.terminatingConnections, s'.lost, s'.closed) =
      (s.nextPeer, s.reading, s.handshakingConnections, s.activeConnections, s.closingConnections,
        s.terminatingConnections, s.lost, s.closed))
    (hsync : s'.activeSyncRequests = s.activeSyncRequests)
    (hitems : (s'.itemsToFetch, s'.itemsToFetchSequenceCounter, s'.recentlyFailedItems) =
      (s.itemsToFetch, s.itemsToFetchSequenceCounter, s.recentlyFailedItems)) : s.Kept X s' :=
  kept_of_linksKept hpeers (LinksKept.of_eq hlinks) hsync hitems

theorem disconnectFromPeer_kept : s.Kept X (s.disconnectFromPeer p) := by
  refine kept_of_linksKept rfl ?_ rfl rfl
  constructor <;> simp +contextual [Apart, disconnectFromPeer, movePeerToClosingList, Finset.erase_subset]

theorem movePeerToTerminatingList_kept : s.Kept X (s.movePeerToTerminatingList p) := by
  refine kept_of_linksKept rfl ?_ rfl rfl
  constructor <;> simp +contextual [Apart, movePeerToTerminatingList, Finset.erase_subset]

theorem removePeerFromLists_kept : s.Kept X (s.removePeerFromLists p) := by
  refine kept_of_linksKept rfl ?_ rfl rfl
  constructor <;> simp +contextual [Apart, removePeerFromLists, Finset.erase_subset]

theorem connectionLost_linksKept (hp : p ∈ s.reading) : s.LinksKept (s.connectionLost p) := by
  constructor <;> simp +contextual [Apart, connectionLost, removePeerFromLists, Finset.erase_subset]
  exact .inr hp

theorem connectionLost_kept (hp : .links ∉ X → p ∈ s.reading) : s.Kept X (s.connectionLost p) where
  peers _ _ := PeerConnection.Kept.refl X _
  nextPeer := le_refl _
  links hX := connectionLost_linksKept (hp hX)
  sync _ := rfl
  items _ := ⟨rfl, rfl, rfl⟩

theorem forEachPeer_kept {f : NodeState → PeerId → NodeState} (h : ∀ (s : NodeState) q, s.Kept X (f s q))
    (ps : List PeerId) :
    s.Kept X (s.forEachPeer ps f) := by
  induction ps generalizing s with
  | nil => exact Kept.refl X s
  | cons p ps ih => exact (h s p).trans ih

/-! ## Synchronisation -/

theorem fetchNextBatchOfItemIdsFromPeer_kept : s.Kept X (s.fetchNextBatchOfItemIdsFromPeer ctx p) := by
  unfold fetchNextBatchOfItemIdsFromPeer
  split
  · apply modifyPeer_kept
    constructor <;> simp
  · exact disconnectFromPeer_kept
  · exact Kept.refl X s

theorem startSynchronizingWithPeer_kept : s.Kept X (s.startSynchronizingWithPeer ctx p) := by
  refine Kept.trans (modifyPeer_kept ?_) fetchNextBatchOfItemIdsFromPeer_kept
  constructor <;> simp

theorem popSeen_kept (ctx : Context) (itemType : Nat) (hashes : List ItemHash) (c : PeerConnection) :
    c.Kept X (popSeen ctx itemType c hashes).1 := by
  induction hashes generalizing c with
  | nil => exact PeerConnection.Kept.refl X c
  | cons front rest ih =>
    unfold popSeen
    split
    · refine PeerConnection.Kept.trans ?_ (ih _)
      constructor <;> simp
    · exact PeerConnection.Kept.refl X c

theorem spliceIds_kept (ctx : Context) (itemType : Nat) (other : Bool) (hashes : List ItemHash) (c : PeerConnection) :
    c.Kept {.lists} (spliceIds ctx itemType other hashes c) := by
  cases hashes with
  | nil => exact PeerConnection.Kept.refl _ c
  | cons front rest =>
    unfold spliceIds
    dsimp only
    split_ifs
    · constructor <;> simp
    · refine (popSeen_kept ctx itemType (front :: rest) c).trans ?_
      constructor <;> simp
    · split <;> constructor <;> simp

/-- The connection, with the ids of an answer on its list. -/
def listed (ctx : Context) (itemType totalRemaining : Nat) (other : Bool) (hashes : List ItemHash) (c : PeerConnection) :
    PeerConnection :=
  { spliceIds ctx itemType other hashes { c with itemIdsRequestedFromPeer := none } with
    numberOfUnfetchedItemIds := totalRemaining }

theorem listed_kept (ctx : Context) (itemType totalRemaining : Nat) (other : Bool) (hashes : List ItemHash)
    (c : PeerConnection) : c.Kept {.lists} (listed ctx itemType totalRemaining other hashes c) := by
  have hanswered : c.Kept {.lists} { c with itemIdsRequestedFromPeer := none } := by constructor <;> simp
  refine (hanswered.trans (spliceIds_kept ctx itemType other hashes _)).trans ?_
  constructor <;> simp [listed]

/-- What an answer with ids does: at most, they are put on the list of the connection. -/
theorem onBlockchainItemIdsInventoryMessage_cases (ctx : Context) (s : NodeState) (p : PeerId)
    (itemType totalRemaining : Nat) (hashes : List ItemHash) :
    s.Kept ∅ (s.onBlockchainItemIdsInventoryMessage ctx p itemType totalRemaining hashes) ∨
      isSequential hashes = true ∧ ∃ other, (s.modifyPeer p (listed ctx itemType totalRemaining other hashes)).Kept ∅
        (s.onBlockchainItemIdsInventoryMessage ctx p itemType totalRemaining hashes) := by
  unfold onBlockchainItemIdsInventoryMessage
  split
  · exact .inl (Kept.refl _ s)
  · have hanswered : s.Kept ∅ (s.modifyPeer p fun q => { q with itemIdsRequestedFromPeer := none }) := by
      apply modifyPeer_kept
      constructor <;> simp
    dsimp only
    simp only [modifyPeer_modifyPeer]
    split_ifs with hbad
    · exact .inl disconnectFromPeer_kept
    · refine .inl (modifyPeer_kept ?_)
      constructor <;> simp
    all_goals
      have hsequential : isSequential hashes = true := by
        simp only [Bool.or_eq_true, Bool.not_eq_true', not_or, Bool.not_eq_false] at hbad
        exact hbad.1
      right
      refine ⟨hsequential, ?_⟩
      apply Exists.intro
    · exact disconnectFromPeer_kept
    · exact Kept.refl _ _
    · exact fetchNextBatchOfItemIdsFromPeer_kept
    · exact fetchNextBatchOfItemIdsFromPeer_kept
    · exact Kept.refl _ _

theorem onBlockchainItemIdsInventoryMessage_kept (itemType totalRemaining : Nat) (hashes : List ItemHash) :
    s.Kept {.lists} (s.onBlockchainItemIdsInventoryMessage ctx p itemType totalRemaining hashes) := by
  rcases onBlockchainItemIdsInventoryMessage_cases ctx s p itemType totalRemaining hashes with h | ⟨-, other, h⟩
  · exact h.weaken
  · exact Kept.trans (modifyPeer_kept (listed_kept ctx itemType totalRemaining other hashes _)) h.weaken

/-! ## Handshake -/

theorem movePeerToActiveList_kept : s.Kept {.links} (s.movePeerToActiveList p) where
  peers _ _ := PeerConnection.Kept.refl _ _
  nextPeer := le_refl _
  links hX := absurd (Finset.mem_singleton_self _) hX
  sync _ := rfl
  items _ := ⟨rfl, rfl, rfl⟩

theorem reject_kept : s.Kept {.links} (s.reject p) := by
  apply modifyPeer_kept
  constructor <;> simp

theorem decideHello_kept (alreadyConnected signed : Bool) :
    s.Kept {.links} (s.decideHello ctx node p alreadyConnected signed) := by
  unfold decideHello
  dsimp only
  split_ifs
  · exact reject_kept.trans disconnectFromPeer_kept
  · exact reject_kept.trans disconnectFromPeer_kept
  · exact reject_kept.trans disconnectFromPeer_kept
  · exact reject_kept
  · exact reject_kept
  · exact reject_kept
  · apply modifyPeer_kept
    constructor <;> simp

/-- What an entry of the user data makes of the connection. -/
def stored {α : Type} (datum : UserDatum α) (store : α → PeerConnection → PeerConnection) :
    PeerConnection → PeerConnection :=
  match datum with
  | .value a => store a
  | _ => fun c => c

theorem parseUserDatum_cases {α : Type} (datum : UserDatum α) (store : α → PeerConnection → PeerConnection) :
    s.parseUserDatum p datum store = .error s ∨
      s.parseUserDatum p datum store = .ok (s.modifyPeer p (stored datum store)) := by
  cases datum with
  | missing => exact .inr (congrArg Except.ok modifyPeer_id.symm)
  | malformed => exact .inl rfl
  | value a => exact .inr rfl

theorem stored_kept {α : Type} {store : α → PeerConnection → PeerConnection} (h : ∀ a (c : PeerConnection),
    c.Kept X (store a c)) (datum : UserDatum α) (c : PeerConnection) : c.Kept X (stored datum store c) := by
  cases datum with
  | value a => exact h a c
  | _ => exact PeerConnection.Kept.refl X c

/-- The connection, with the chain id of the hello if it has one. -/
def withChainId (m : HelloMessage) : PeerConnection → PeerConnection :=
  stored m.chainId fun id q => { q with chainId := some id }

theorem withChainId_kept (m : HelloMessage) (c : PeerConnection) : c.Kept {.links} (withChainId m c) := by
  refine stored_kept ?_ m.chainId c
  intros
  constructor <;> simp

/-- A hello is read into the connection: where an entry throws, nothing that matters has changed; else the chain id is
there. -/
theorem parseHelloUserDataForPeer_cases (m : HelloMessage) :
    ∃ f : PeerConnection → PeerConnection, (∀ c : PeerConnection, c.Kept ∅ (f c)) ∧
      (s.parseHelloUserDataForPeer p m = .error (s.modifyPeer p f) ∨
        s.parseHelloUserDataForPeer p m = .ok (s.modifyPeer p fun c => withChainId m (f c))) := by
  let id : PeerConnection → PeerConnection := stored m.nodeId fun id q => { q with nodeId := id }
  let fork : PeerConnection → PeerConnection :=
    stored m.lastKnownForkBlockNumber fun n q => { q with lastKnownForkBlockNumber := n }
  have hid (c : PeerConnection) : c.Kept ∅ (id c) := stored_kept (by intros; constructor <;> simp) _ c
  have hfork (c : PeerConnection) : c.Kept ∅ (fork c) := stored_kept (by intros; constructor <;> simp) _ c
  unfold parseHelloUserDataForPeer
  rcases parseUserDatum_cases (s := s) (p := p) m.nodeId fun id q => { q with nodeId := id } with h | h
  · refine ⟨fun c => c, fun c => PeerConnection.Kept.refl ∅ c, .inl ?_⟩
    rw [h, modifyPeer_id]
    rfl
  rw [h]
  change ∃ f, _ ∧ ((parseUserDatum _ _ _ _ >>= _) = _ ∨ (parseUserDatum _ _ _ _ >>= _) = _)
  rcases parseUserDatum_cases (s := s.modifyPeer p id) (p := p) m.lastKnownForkBlockNumber
    fun n q => { q with lastKnownForkBlockNumber := n } with h | h
  · refine ⟨id, hid, .inl ?_⟩
    rw [h]
    rfl
  rw [h, modifyPeer_modifyPeer]
  change ∃ f, _ ∧ (parseUserDatum _ _ _ _ = _ ∨ parseUserDatum _ _ _ _ = _)
  refine ⟨fun c => fork (id c), fun c => (hid c).trans (hfork _), ?_⟩
  rcases parseUserDatum_cases (s := s.modifyPeer p fun c => fork (id c)) (p := p) m.chainId
    fun id q => { q with chainId := some id } with h | h
  · exact .inl h
  · rw [modifyPeer_modifyPeer] at h
    exact .inr h

theorem onHelloMessage_kept (m : HelloMessage) : s.Kept {.links} (s.onHelloMessage ctx node p m) := by
  unfold onHelloMessage
  dsimp only
  split
  · exact connectionLost_kept (by simp)
  · have hnamed : s.Kept {.links}
        (s.modifyPeer p fun q => { q with nodePublicKey := m.nodePublicKey, nodeId := m.nodePublicKey }) := by
      apply modifyPeer_kept
      constructor <;> simp
    refine hnamed.trans ?_
    generalize (s.modifyPeer p fun q => { q with nodePublicKey := m.nodePublicKey, nodeId := m.nodePublicKey }) = t
    obtain ⟨f, hf, h | h⟩ := parseHelloUserDataForPeer_cases (s := t) (p := p) m
    · rw [h]
      exact (modifyPeer_kept ((hf _).mono (by simp))).trans (connectionLost_kept (by simp))
    · have hread : t.Kept {.links} (t.modifyPeer p fun c => withChainId m (f c)) :=
        modifyPeer_kept (((hf _).mono (by simp)).trans (withChainId_kept m _))
      rw [h]
      refine hread.trans ?_
      dsimp only
      split_ifs
      · exact decideHello_kept _ _
      · exact disconnectFromPeer_kept

theorem onConnectionAcceptedMessage_kept : s.Kept X (s.onConnectionAcceptedMessage p) := by
  apply modifyPeer_kept
  constructor <;> simp

theorem onConnectionRejectedMessage_kept (hp : p ∈ s.reading) (reason : RejectionReasonCode) :
    s.Kept X (s.onConnectionRejectedMessage p reason) := by
  have hrejected (s : NodeState) : s.Kept X (s.modifyPeer p fun q => { q with ourState := .connectionRejected }) := by
    apply modifyPeer_kept
    constructor <;> simp
  unfold onConnectionRejectedMessage
  dsimp only
  split_ifs
  · exact Kept.trans disconnectFromPeer_kept (hrejected _)
  · exact hrejected s
  · exact connectionLost_kept fun _ => hp

theorem onAddressMessage_kept : s.Kept {.links} (s.onAddressMessage ctx p) := by
  unfold onAddressMessage
  split_ifs
  · exact disconnectFromPeer_kept
  · exact disconnectFromPeer_kept
  · exact movePeerToActiveList_kept.trans startSynchronizingWithPeer_kept
  · exact Kept.refl _ s

/-- Where a request for ids does not make the peer active, it touches nothing. -/
theorem onFetchBlockchainItemIdsMessage_cases (ctx : Context) (hp : p < s.nextPeer) (itemType : Nat)
    (synopsis : List ItemHash) :
    s.Kept ∅ (s.onFetchBlockchainItemIdsMessage ctx p itemType synopsis) ∨
      (s.peers p).direction = .inbound ∧ ∃ t, s.Kept ∅ t ∧ p ∈ t.handshakingConnections ∧
        s.onFetchBlockchainItemIdsMessage ctx p itemType synopsis =
          (t.movePeerToActiveList p).newPeerJustAdded ctx p := by
  -- what comes after the answer, from the state `u` it leaves
  have hafter (u : NodeState) (hu : s.Kept ∅ u) (inhibited : Bool) : ∀ s', s' =
        (if inhibited then u.disconnectFromPeer p
        else if (u.peers p).direction = .inbound ∧ p ∈ u.handshakingConnections then
          (u.movePeerToActiveList p).newPeerJustAdded ctx p
        else u) → s.Kept ∅ s' ∨
      (s.peers p).direction = .inbound ∧ ∃ t, s.Kept ∅ t ∧ p ∈ t.handshakingConnections ∧
        s' = (t.movePeerToActiveList p).newPeerJustAdded ctx p := by
    rintro s' rfl
    split_ifs with hinhibited hinbound
    · exact .inl (hu.trans disconnectFromPeer_kept)
    · have hdirection := ((hu.peers p hp).links (by simp)).1
      exact .inr ⟨hdirection ▸ hinbound.1, u, hu, hinbound.2, rfl⟩
    · exact .inl hu
  refine hafter _ ?_ _ _ rfl
  have hneeds (x : Bool) : s.Kept ∅ (s.modifyPeer p fun q => { q with peerNeedsSyncItemsFromUs := x }) := by
    apply modifyPeer_kept
    constructor <;> simp
  split
  · exact hneeds _
  · split_ifs
    · exact (hneeds _).trans startSynchronizingWithPeer_kept
    · exact hneeds _

theorem onFetchBlockchainItemIdsMessage_kept (hp : p < s.nextPeer) (itemType : Nat) (synopsis : List ItemHash) :
    s.Kept {.links} (s.onFetchBlockchainItemIdsMessage ctx p itemType synopsis) := by
  rcases onFetchBlockchainItemIdsMessage_cases ctx hp itemType synopsis with h | ⟨-, t, ht, -, h⟩
  · exact h.weaken
  · rw [h]
    exact (ht.weaken.trans movePeerToActiveList_kept).trans startSynchronizingWithPeer_kept

/-! ## Items -/

theorem insertItemToFetch_kept (now : Time) (item : ItemId) : s.Kept {.items} (s.insertItemToFetch now item) where
  peers _ _ := PeerConnection.Kept.refl _ _
  nextPeer := le_refl _
  links _ := LinksKept.of_eq rfl
  sync _ := rfl
  items hX := absurd (Finset.mem_singleton_self _) hX

theorem refreshItemToFetch_kept (now : Time) (item : ItemId) : s.Kept {.items} (s.refreshItemToFetch now item) where
  peers _ _ := PeerConnection.Kept.refl _ _
  nextPeer := le_refl _
  links _ := LinksKept.of_eq rfl
  sync _ := rfl
  items hX := absurd (Finset.mem_singleton_self _) hX

theorem eraseItemsToFetch_kept (items : List ItemId) : s.Kept {.items} (s.eraseItemsToFetch items) where
  peers _ _ := PeerConnection.Kept.refl _ _
  nextPeer := le_refl _
  links _ := LinksKept.of_eq rfl
  sync _ := rfl
  items hX := absurd (Finset.mem_singleton_self _) hX

theorem onFetchItemsMessage_kept (hp : p ∈ s.reading) (itemType : Nat) (hashes : List ItemHash) :
    s.Kept X (s.onFetchItemsMessage ctx p itemType hashes) := by
  unfold onFetchItemsMessage
  split
  · exact Kept.refl X s
  · exact connectionLost_kept fun _ => hp
  · apply modifyPeer_kept
    constructor <;> simp

/-- An item that was asked for is not there. -/
theorem itemNotAvailable_kept (item : ItemId) (hitem : item ∈ (s.peers p).itemsRequestedFromPeer) :
    s.Kept {.items} (s.onItemNotAvailableMessage ctx p item) := by
  have htaken : s.Kept {.items} (s.modifyPeer p fun q =>
      { q with
        itemsRequestedFromPeer := q.itemsRequestedFromPeer.filter fun x => x != item
        inventoryPeerAdvertisedToUs := q.inventoryPeerAdvertisedToUs.without item }) := by
    apply modifyPeer_kept
    constructor <;> simp
  unfold onItemNotAvailableMessage
  rw [if_pos (List.contains_iff_mem.mpr hitem)]
  dsimp only
  split_ifs
  · exact htaken.trans (insertItemToFetch_kept _ _)
  · exact htaken

/-- A sync block that was asked for is not there, or nobody asked for the item. -/
theorem syncItemNotAvailable_kept (item : ItemId) (hitem : item ∉ (s.peers p).itemsRequestedFromPeer) :
    s.Kept {.sync} (s.onItemNotAvailableMessage ctx p item) := by
  have htaken : s.Kept {.sync} (s.modifyPeer p fun q =>
      { q with syncItemsRequestedFromPeer := q.syncItemsRequestedFromPeer.erase item.itemHash }) := by
    apply modifyPeer_kept
    constructor <;> simp
  unfold onItemNotAvailableMessage
  rw [if_neg (fun h => hitem (List.contains_iff_mem.mp h))]
  dsimp only
  split_ifs
  · refine htaken.trans (modifyPeer_kept ?_)
    constructor <;> simp
  · exact htaken.trans disconnectFromPeer_kept
  · exact Kept.refl _ s

theorem recordAdvertised_kept (item : ItemId) : s.Kept {.items} (s.recordAdvertised ctx p item) := by
  have hrecorded : s.Kept {.items} (s.modifyPeer p fun q =>
      { q with inventoryPeerAdvertisedToUs := q.inventoryPeerAdvertisedToUs.add item (seconds ctx.now) }) := by
    apply modifyPeer_kept
    constructor <;> simp
  unfold recordAdvertised
  dsimp only
  split_ifs
  · exact hrecorded
  · exact hrecorded
  · exact hrecorded.trans (refreshItemToFetch_kept _ _)
  · exact hrecorded.trans (insertItemToFetch_kept _ _)

theorem recordInventory_kept (itemType : Nat) (hashes : List ItemHash) :
    s.Kept {.items} (recordInventory ctx p itemType hashes s) := by
  induction hashes generalizing s with
  | nil => exact Kept.refl _ s
  | cons hash rest ih =>
    unfold recordInventory
    split_ifs
    · exact ih
    · exact Kept.refl _ s
    · exact (recordAdvertised_kept _).trans ih

theorem clearOldInventory_kept : s.Kept X (s.clearOldInventory ctx p) :=
  modifyPeer_kept (PeerConnection.clearOldInventory_kept ctx.now)

theorem onItemIdsInventoryMessage_kept (itemType : Nat) (hashes : List ItemHash) :
    s.Kept {.items} (s.onItemIdsInventoryMessage ctx p itemType hashes) :=
  clearOldInventory_kept.trans (recordInventory_kept itemType hashes)

theorem rescheduleItems_kept (items : List ItemId) : s.Kept {.items} (s.rescheduleItems ctx items) := by
  induction items generalizing s with
  | nil => exact Kept.refl _ s
  | cons item rest ih =>
    refine Kept.trans ?_ ih
    dsimp only
    split_ifs
    · exact insertItemToFetch_kept _ _
    · exact Kept.refl _ s

theorem broadcast_kept (item : ItemId) (blockId : Option ItemHash) : s.Kept X (s.broadcast item blockId) :=
  kept_of_eq rfl rfl rfl rfl

/-! ## Blocks -/

/-- The peer has the block, as far as the delegate knows. -/
theorem seen_kept (blockId : ItemHash) (time : Nat) : s.Kept X (s.modifyPeer p fun peer =>
    { peer with lastBlockDelegateHasSeen := blockId, lastBlockTimeDelegateHasSeen := time }) := by
  apply modifyPeer_kept
  constructor <;> simp

theorem blockValidated_kept (hash : ItemHash) (m : BlockMessage) : s.Kept X (s.blockValidated ctx hash m) := by
  unfold blockValidated
  refine Kept.trans (forEachPeer_kept ?_ _) (Kept.trans (broadcast_kept _ _) (forEachPeer_kept ?_ _))
  · intro s q
    dsimp only
    split_ifs
    · exact (seen_kept _ _).trans clearOldInventory_kept
    · exact clearOldInventory_kept
  · intro s q
    exact disconnectFromPeer_kept

theorem processBlockDuringNormalOperation_kept (hash : ItemHash) (m : BlockMessage) :
    s.Kept X (s.processBlockDuringNormalOperation ctx p hash m) := by
  unfold processBlockDuringNormalOperation
  split_ifs
  · exact blockValidated_kept hash m
  · exact kept_of_eq rfl rfl rfl rfl

/-- A block that was asked for in normal operation has come. -/
theorem processBlockMessage_kept (hash : ItemHash) (m : BlockMessage)
    (hitem : (⟨blockMessageType, hash⟩ : ItemId) ∈ (s.peers p).itemsRequestedFromPeer) :
    s.Kept {.items} (s.processBlockMessage ctx p hash m) := by
  unfold processBlockMessage
  dsimp only
  rw [if_pos (List.contains_iff_mem.mpr hitem)]
  refine Kept.trans (modifyPeer_kept ?_) (processBlockDuringNormalOperation_kept hash m)
  constructor <;> simp

theorem syncRequests_kept (hpeers : s'.peers = s.peers)
    (hlinks : (s'.nextPeer, s'.reading, s'.handshakingConnections, s'.activeConnections, s'.closingConnections,
        s'.terminatingConnections, s'.lost, s'.closed) =
      (s.nextPeer, s.reading, s.handshakingConnections, s.activeConnections, s.closingConnections,
        s.terminatingConnections, s.lost, s.closed))
    (hitems : (s'.itemsToFetch, s'.itemsToFetchSequenceCounter, s'.recentlyFailedItems) =
      (s.itemsToFetch, s.itemsToFetchSequenceCounter, s.recentlyFailedItems)) : s.Kept {.sync} s' where
  peers q _ := by
    rw [hpeers]
    exact PeerConnection.Kept.refl _ _
  nextPeer := (Prod.ext_iff.1 hlinks).1.ge
  links _ := LinksKept.of_eq hlinks
  sync hX := absurd (Finset.mem_singleton_self _) hX
  items _ := by simpa using hitems

/-- A sync block has come, or one that nobody asked for. -/
theorem processSyncBlockMessage_kept (hash : ItemHash) (m : BlockMessage)
    (hitem : (⟨blockMessageType, hash⟩ : ItemId) ∉ (s.peers p).itemsRequestedFromPeer) :
    s.Kept {.sync} (s.processBlockMessage ctx p hash m) := by
  have htaken : s.Kept {.sync} (s.modifyPeer p fun q =>
      { q with syncItemsRequestedFromPeer := q.syncItemsRequestedFromPeer.erase m.blockId }) := by
    apply modifyPeer_kept
    constructor <;> simp
  have hreceived : s.Kept {.sync} { s.modifyPeer p fun q =>
        { q with syncItemsRequestedFromPeer := q.syncItemsRequestedFromPeer.erase m.blockId } with
      activeSyncRequests := s.activeSyncRequests.erase m.blockId
      newReceivedSyncItems := m :: s.newReceivedSyncItems } := htaken.trans (syncRequests_kept rfl rfl rfl)
  unfold processBlockMessage
  dsimp only
  rw [if_neg (fun h => hitem (List.contains_iff_mem.mp h))]
  split_ifs
  · exact hreceived.trans fetchNextBatchOfItemIdsFromPeer_kept
  · exact hreceived
  · exact disconnectFromPeer_kept

theorem processOrdinaryMessage_kept (item : ItemId) : s.Kept {.items} (s.processOrdinaryMessage p item) := by
  have htaken : s.Kept {.items} (s.modifyPeer p fun q =>
      { q with itemsRequestedFromPeer := q.itemsRequestedFromPeer.filter fun x => x != item }) := by
    apply modifyPeer_kept
    constructor <;> simp
  unfold processOrdinaryMessage
  dsimp only
  split_ifs
  · exact htaken.trans (kept_of_eq rfl rfl rfl rfl)
  · exact disconnectFromPeer_kept

theorem blockHandled_kept (hash : ItemHash) (m : BlockMessage) (outcome : BlockOutcome) :
    s.Kept {.items} (s.blockHandled ctx p hash m outcome) := by
  unfold blockHandled
  cases outcome with
  | accepted transactions =>
    refine Kept.trans ?_ (blockValidated_kept hash m)
    refine Kept.trans ?_ (eraseItemsToFetch_kept _)
    exact kept_of_eq rfl rfl rfl rfl
  | unlinkable =>
    refine Kept.trans ?_ startSynchronizingWithPeer_kept
    exact kept_of_eq rfl rfl rfl rfl
  | invalid =>
    refine Kept.trans ?_ (forEachPeer_kept (fun s q => disconnectFromPeer_kept) _)
    exact kept_of_eq rfl rfl rfl rfl
  | canceled =>
    refine kept_of_linksKept rfl ?_ rfl rfl
    constructor <;> simp +contextual [Apart, Finset.erase_subset]

theorem messageHandled_kept (item : ItemId) (accepted : Bool) :
    s.Kept {.items} (s.messageHandled ctx p item accepted) := by
  unfold messageHandled
  dsimp only
  split_ifs
  · exact kept_of_eq rfl rfl rfl rfl
  · constructor <;> simp [LinksKept.of_eq, PeerConnection.Kept.refl]

theorem noLongerProcessing_kept (blockId : ItemHash) : s.Kept X (s.noLongerProcessing p blockId) := by
  apply modifyPeer_kept
  constructor <;> simp

theorem syncBlockHandled_kept (m : BlockMessage) (outcome : SyncBlockOutcome) :
    s.Kept X (s.syncBlockHandled ctx m outcome) := by
  unfold syncBlockHandled
  cases outcome with
  | accepted =>
    refine Kept.trans ?_ (forEachPeer_kept (fun s q => startSynchronizingWithPeer_kept) _)
    refine Kept.trans ?_ (forEachPeer_kept (fun s q => fetchNextBatchOfItemIdsFromPeer_kept) _)
    refine Kept.trans ?_ (forEachPeer_kept (fun s q => disconnectFromPeer_kept) _)
    refine Kept.trans ?_ (forEachPeer_kept (fun s q => (noLongerProcessing_kept _).trans (seen_kept _ _)) _)
    exact kept_of_eq rfl rfl rfl rfl
  | olderThanUndoHistory =>
    refine Kept.trans ?_ (forEachPeer_kept (fun s q => modifyPeer_kept ?_) _)
    · exact kept_of_eq rfl rfl rfl rfl
    · constructor <;> simp
  | invalid =>
    refine Kept.trans ?_ (forEachPeer_kept (fun s q => disconnectFromPeer_kept) _)
    exact kept_of_eq rfl rfl rfl rfl

theorem startProcessing_kept (blockId : ItemHash) : s.Kept X (s.startProcessing p blockId) := by
  apply modifyPeer_kept
  constructor <;> simp [List.tail_suffix]

theorem processBacklogRound_kept : s.Kept X (s.processBacklogRound ctx).1 := by
  have hmerged : s.Kept X { s with
      receivedSyncItems := s.newReceivedSyncItems.reverse ++ s.receivedSyncItems
      newReceivedSyncItems := [] } := kept_of_eq rfl rfl rfl rfl
  have hstarted (m : BlockMessage) := fun s => (forEachPeer_kept (s := s) (X := X)
    (f := fun s q => s.startProcessing q m.blockId) (fun s q => startProcessing_kept _))
  unfold processBacklogRound
  dsimp only
  split
  · exact hmerged
  · split_ifs
    · refine Kept.trans ?_ (forEachPeer_kept (fun s q => fetchNextBatchOfItemIdsFromPeer_kept) _)
      refine Kept.trans ?_ (forEachPeer_kept (fun s q => noLongerProcessing_kept _) _)
      exact hmerged.trans (hstarted _ _ _)
    · exact (hmerged.trans (hstarted _ _ _)).trans (kept_of_eq rfl rfl rfl rfl)

theorem processBacklogLoop_kept (fuel : Nat) : s.Kept X (processBacklogLoop ctx fuel s) := by
  induction fuel generalizing s with
  | zero => exact Kept.refl X s
  | succ fuel ih =>
    unfold processBacklogLoop
    dsimp only
    split_ifs
    · exact processBacklogRound_kept.trans (kept_of_eq rfl rfl rfl rfl)
    · exact processBacklogRound_kept
    · exact processBacklogRound_kept.trans ih
    · exact processBacklogRound_kept

theorem processBacklogOfSyncBlocks_kept : s.Kept X (s.processBacklogOfSyncBlocks ctx) := by
  unfold processBacklogOfSyncBlocks
  split_ifs
  · exact Kept.refl X s
  · refine Kept.trans ?_ (processBacklogLoop_kept _)
    exact kept_of_eq rfl rfl rfl rfl

/-! ## Loops -/

theorem requestSyncItemsFromPeer_kept (items : List ItemHash) :
    s.Kept {.sync} (s.requestSyncItemsFromPeer p items) := by
  have hrequested : s.Kept {.sync} (s.modifyPeer p fun q =>
      { q with syncItemsRequestedFromPeer := q.syncItemsRequestedFromPeer ∪ items.toFinset }) := by
    apply modifyPeer_kept
    constructor <;> simp
  exact hrequested.trans (syncRequests_kept rfl rfl rfl)

theorem fetchSyncItems_kept : s.Kept {.sync} (s.fetchSyncItems ctx) := by
  have hrequests (rs : List (PeerId × List ItemHash)) (s : NodeState) :
      s.Kept {.sync} (rs.foldl (fun s r => s.requestSyncItemsFromPeer r.1 r.2) s) := by
    induction rs generalizing s with
    | nil => exact Kept.refl _ s
    | cons r rs ih => exact (requestSyncItemsFromPeer_kept r.2).trans (ih _)
  unfold fetchSyncItems
  split_ifs
  · exact Kept.refl _ s
  · exact hrequests _ s

theorem fetchItemsFrom_kept (oldest : Time) (es : List PrioritizedItemId) (l : ItemsByPeer) :
    s.Kept {.items} (fetchItemsFrom ctx oldest es l s) := by
  induction es generalizing s l with
  | nil => exact Kept.refl _ s
  | cons e rest ih =>
    unfold fetchItemsFrom
    split_ifs
    · exact (eraseItemsToFetch_kept _).trans (ih _)
    · split
      · exact ih l
      · refine Kept.trans (modifyPeer_kept ?_) ((eraseItemsToFetch_kept _).trans (ih _))
        constructor <;> simp

theorem fetchItems_kept : s.Kept {.items} (s.fetchItems ctx) := fetchItemsFrom_kept _ _ _

theorem advertiseTo_kept (items : List ItemId) : s.Kept X (s.advertiseTo ctx items p) := by
  unfold advertiseTo
  dsimp only
  split_ifs
  · exact clearOldInventory_kept
  · refine Kept.trans (modifyPeer_kept ?_) clearOldInventory_kept
    constructor <;> simp

theorem advertiseInventory_kept : s.Kept X (s.advertiseInventory ctx) := by
  unfold advertiseInventory
  refine Kept.trans ?_ (forEachPeer_kept (fun t q => advertiseTo_kept s.newInventory) _)
  exact kept_of_eq rfl rfl rfl rfl

theorem pruneRecentlyFailedItems_kept : s.Kept {.items} (s.pruneRecentlyFailedItems ctx) := by
  constructor <;> simp [pruneRecentlyFailedItems, LinksKept.of_eq, PeerConnection.Kept.refl]

/-! ## Connections come and go -/

theorem newPeer_kept (firewallCheck : Bool) : s.Kept {.links} (s.newPeer firewallCheck) where
  peers q hq := by
    simpa [newPeer, hq.ne] using PeerConnection.Kept.refl _ _
  nextPeer := Nat.le_succ _
  links hX := absurd (Finset.mem_singleton_self _) hX
  sync _ := rfl
  items _ := ⟨rfl, rfl, rfl⟩

theorem established_kept (direction : PeerConnectionDirection) (secret : SharedSecret) :
    s.Kept {.links} (s.established p direction secret) where
  peers q _ := by
    by_cases hq : q = p
    · constructor <;> simp [established, modifyPeer, hq]
    · simpa [established, modifyPeer, hq] using PeerConnection.Kept.refl _ _
  nextPeer := le_refl _
  links hX := absurd (Finset.mem_singleton_self _) hX
  sync _ := rfl
  items _ := ⟨rfl, rfl, rfl⟩

end NodeState

/-! ## All events -/

def Message.touches : Message → Finset Part
  | .hello _ | .address | .fetchBlockchainItemIds _ _ => {.links}
  | .blockchainItemIdsInventory _ _ _ => {.lists}
  | .itemNotAvailable _ | .block _ _ => {.sync, .items}
  | .itemIdsInventory _ _ | .ordinary _ => {.items}
  | .connectionAccepted | .connectionRejected _ | .fetchItems _ _ | .other => ∅

def Event.touches : Event → Finset Part
  | .accept | .acceptConnection _ _ | .initiateConnectTo _ | .connectTo _ _ => {.links}
  | .message _ m => m.touches
  | .connectionClosed _ => {.links, .sync, .items}
  | .blockHandled _ _ _ _ | .messageHandled _ _ _ | .fetchItems | .pruneRecentlyFailedItems => {.items}
  | .fetchSyncItems => {.sync}
  | _ => ∅

namespace NodeState

variable {s : NodeState} {p : PeerId} {ctx : Context} {node : NodeIdentity}

theorem onMessage_kept (node : NodeIdentity) (ctx : Context) (hp : p ∈ s.reading) (hknown : p < s.nextPeer) (m : Message) :
    s.Kept m.touches (s.onMessage node ctx p m) := by
  cases m with
  | hello m => exact onHelloMessage_kept m
  | connectionAccepted => exact onConnectionAcceptedMessage_kept
  | connectionRejected reason => exact onConnectionRejectedMessage_kept hp reason
  | address => exact onAddressMessage_kept
  | fetchBlockchainItemIds itemType synopsis => exact onFetchBlockchainItemIdsMessage_kept hknown itemType synopsis
  | blockchainItemIdsInventory itemType totalRemaining hashes =>
    exact onBlockchainItemIdsInventoryMessage_kept itemType totalRemaining hashes
  | fetchItems itemType hashes => exact onFetchItemsMessage_kept hp itemType hashes
  | itemNotAvailable item =>
    by_cases hitem : item ∈ (s.peers p).itemsRequestedFromPeer
    · exact (itemNotAvailable_kept item hitem).mono (by simp [Message.touches])
    · exact (syncItemNotAvailable_kept item hitem).mono (by simp [Message.touches])
  | itemIdsInventory itemType hashes => exact onItemIdsInventoryMessage_kept itemType hashes
  | block hash m =>
    by_cases hitem : (⟨blockMessageType, hash⟩ : ItemId) ∈ (s.peers p).itemsRequestedFromPeer
    · exact (processBlockMessage_kept hash m hitem).mono (by simp [Message.touches])
    · exact (processSyncBlockMessage_kept hash m hitem).mono (by simp [Message.touches])
  | ordinary item => exact processOrdinaryMessage_kept item
  | other => exact Kept.refl _ s

/-- **The footprint of a step.**  Every event touches its own parts of the state only. -/
theorem step_kept (node : NodeIdentity) (ctx : Context) (hknown : ∀ p ∈ s.reading, p < s.nextPeer) (e : Event) :
    s.Kept e.touches (s.step node ctx e) := by
  cases e with
  | accept => exact newPeer_kept false
  | acceptConnection p secret =>
    simp only [step]
    split_ifs
    · exact established_kept _ _
    · exact Kept.refl _ s
  | initiateConnectTo firewallCheck => exact newPeer_kept firewallCheck
  | connectTo p secret =>
    simp only [step]
    split_ifs
    · cases secret with
      | none => exact removePeerFromLists_kept
      | some secret =>
        dsimp only
        split_ifs
        · exact (established_kept _ _).trans removePeerFromLists_kept
        · exact established_kept _ _
    · exact Kept.refl _ s
  | message p m =>
    simp only [step]
    split_ifs with hp
    · exact onMessage_kept node ctx hp (hknown p hp) m
    · exact Kept.refl _ s
  | connectionLost p =>
    simp only [step]
    split_ifs with hp
    · exact connectionLost_kept fun _ => hp
    · exact Kept.refl _ s
  | connectionClosed p =>
    simp only [step]
    split_ifs
    · refine Kept.trans ?_ ((rescheduleItems_kept _).mono (by simp [Event.touches]))
      constructor <;> simp [Event.touches, PeerConnection.Kept.refl]
    · exact Kept.refl _ s
  | blockHandled p hash m outcome =>
    simp only [step]
    split_ifs
    · exact blockHandled_kept hash m outcome
    · exact Kept.refl _ s
  | messageHandled p item accepted =>
    simp only [step]
    split_ifs
    · exact messageHandled_kept item accepted
    · exact Kept.refl _ s
  | syncBlockHandled m outcome =>
    simp only [step]
    split_ifs
    · exact syncBlockHandled_kept m outcome
    · exact Kept.refl _ s
  | processBacklogOfSyncBlocks => exact processBacklogOfSyncBlocks_kept
  | fetchSyncItems => exact fetchSyncItems_kept
  | fetchItems => exact fetchItems_kept
  | advertiseInventory => exact advertiseInventory_kept
  | pruneRecentlyFailedItems => exact pruneRecentlyFailedItems_kept
  | disconnect p =>
    simp only [step]
    split_ifs
    · exact disconnectFromPeer_kept
    · exact Kept.refl _ s
  | terminate p =>
    simp only [step]
    split_ifs
    · exact movePeerToTerminatingList_kept
    · exact Kept.refl _ s
  | broadcast item blockId => exact broadcast_kept item blockId
  | syncFrom currentHeadBlock => exact kept_of_eq rfl rfl rfl rfl
  | rehash order =>
    simp only [step]
    split_ifs with hperm
    · refine kept_of_linksKept rfl ?_ rfl rfl
      constructor <;> simp +contextual [Apart, hperm.subset, hperm.mem_iff]
    · exact Kept.refl _ s

end NodeState

end Graphene
