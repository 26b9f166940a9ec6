import Sigmaengine.Net.Handshake

/-!
# Marks of the blocks being processed

Before a block of normal operation goes to the delegate its message id is marked, and advertisements of a marked id are
not looked at.  The mark is taken away behind the call of the delegate, which is left by an exception where the block is
not accepted.
-/

namespace Graphene

namespace NodeState

/-! ## What is to be shown -/

/-- The delegate is at work on a message with this id. -/
def IsBeingHandled (s : NodeState) (hash : ItemHash) : Prop := ∃ call ∈ s.blocksBeingHandled, call.2.1 = hash

/-- The marked ids are those of the calls in progress. -/
def MarksExact (s : NodeState) : Prop := ∀ hash, hash ∈ s.messageIdsCurrentlyBeingProcessed ↔ s.IsBeingHandled hash

/-- The message has been requested, or is going to be. -/
def IsSought (s : NodeState) (item : ItemId) : Prop :=
  s.weRequestedFromAPeer item = true ∨ s.isToBeFetched item = true

/-- But for a mark, nothing keeps an advertised item from being put on the list: it has not been advertised by us, the
peer does not flood us, the item has not failed, and no entry has an equivalent sequence number. -/
structure Wanted (ctx : Context) (s : NodeState) (p : PeerId) (item : ItemId) : Prop where
  notInInventory : s.newInventory.contains item = false
  notAdvertised : s.weAdvertisedToAPeer item = false
  room : s.floodedBy p item.itemType = false
  notFailed : s.recentlyFailedItems.has item = false
  numbered : s.itemsToFetch.any (PrioritizedItemId.equivalent ⟨item, s.itemsToFetchSequenceCounter, ctx.now⟩) = false

/-- A block that no call is in progress for is fetched when a peer advertises it: the loop over what is advertised comes
to it, and in the end it is requested or on the list. -/
def HeedsBlocks (s : NodeState) : Prop :=
  ∀ (ctx : Context) (p : PeerId) (before : List ItemHash) (hash : ItemHash) (after : List ItemHash),
    ¬ s.IsBeingHandled hash →
    Wanted ctx (recordInventory ctx p blockMessageType before (s.clearOldInventory ctx p)) p ⟨blockMessageType, hash⟩ →
    (s.onItemIdsInventoryMessage ctx p blockMessageType (before ++ hash :: after)).IsSought ⟨blockMessageType, hash⟩

/-- Of the calls for one message the last to come back accepts the block, and only that one. -/
def ClearsMark (s : NodeState) (c : Call) : Prop :=
  match c.event with
  | .blockHandled p hash m outcome =>
    (p, hash, m) ∈ s.blocksBeingHandled →
      (outcome.isAccepted = true ↔ ∀ call ∈ s.blocksBeingHandled.erase (p, hash, m), call.2.1 ≠ hash)
  | _ => True

/-! ## What the steps do to the marks -/

/-- The marks, and the calls in progress. -/
def marks (s : NodeState) : Finset ItemHash × List (PeerId × ItemHash × BlockMessage) :=
  (s.messageIdsCurrentlyBeingProcessed, s.blocksBeingHandled)

section Handlers

variable {s : NodeState} {p : PeerId} {ctx : Context} {node : NodeIdentity}

theorem marks_modifyPeer (f : PeerConnection → PeerConnection) : (s.modifyPeer p f).marks = s.marks := rfl

theorem marks_disconnectFromPeer : (s.disconnectFromPeer p).marks = s.marks := rfl

theorem marks_broadcast (item : ItemId) (blockId : Option ItemHash) : (s.broadcast item blockId).marks = s.marks := rfl

theorem marks_forEachPeer {f : NodeState → PeerId → NodeState} (hf : ∀ s q, (f s q).marks = s.marks) (ps : List PeerId) :
    (s.forEachPeer ps f).marks = s.marks := by
  induction ps generalizing s with
  | nil => rfl
  | cons p ps ih => exact ih.trans (hf s p)

theorem marks_fetchNextBatch : (s.fetchNextBatchOfItemIdsFromPeer ctx p).marks = s.marks := by
  unfold fetchNextBatchOfItemIdsFromPeer
  split <;> rfl

theorem marks_startSynchronizing : (s.startSynchronizingWithPeer ctx p).marks = s.marks := marks_fetchNextBatch

theorem marks_onBlockchainItemIdsInventoryMessage (itemType totalRemaining : Nat) (hashes : List ItemHash) :
    (s.onBlockchainItemIdsInventoryMessage ctx p itemType totalRemaining hashes).marks = s.marks := by
  unfold onBlockchainItemIdsInventoryMessage
  split
  · rfl
  · dsimp only
    split_ifs
    · rfl
    · rfl
    · rfl
    · rfl
    · exact marks_fetchNextBatch
    · exact marks_fetchNextBatch
    · rfl

theorem marks_decideHello (alreadyConnected signed : Bool) :
    (s.decideHello ctx node p alreadyConnected signed).marks = s.marks := by
  unfold decideHello
  dsimp only
  split_ifs <;> rfl

theorem marks_onHelloMessage (m : HelloMessage) : (s.onHelloMessage ctx node p m).marks = s.marks := by
  unfold onHelloMessage
  dsimp only
  split
  · rfl
  · generalize hnamed :
      (s.modifyPeer p fun q => { q with nodePublicKey := m.nodePublicKey, nodeId := m.nodePublicKey }) = t
    have ht : t.marks = s.marks := by
      rw [← hnamed]
      rfl
    obtain ⟨f, -, h | h⟩ := parseHelloUserDataForPeer_cases (s := t) (p := p) m
    · rw [h]
      exact ht
    · rw [h]
      dsimp only
      split_ifs
      · exact (marks_decideHello _ _).trans ht
      · exact ht

theorem marks_onFetchBlockchainItemIdsMessage (itemType : Nat) (synopsis : List ItemHash) :
    (s.onFetchBlockchainItemIdsMessage ctx p itemType synopsis).marks = s.marks := by
  -- what comes after the answer, from the state `u` it leaves
  have hafter (u : NodeState) (hu : u.marks = s.marks) (inhibited : Bool) :
      (if inhibited then u.disconnectFromPeer p
        else if (u.peers p).direction = .inbound ∧ p ∈ u.handshakingConnections then
          (u.movePeerToActiveList p).newPeerJustAdded ctx p
        else u).marks = s.marks := by
    split_ifs
    · exact hu
    · exact marks_startSynchronizing.trans hu
    · exact hu
  refine hafter _ ?_ _
  split
  · rfl
  · split_ifs
    · exact marks_startSynchronizing
    · rfl

theorem marks_onItemNotAvailableMessage (item : ItemId) : (s.onItemNotAvailableMessage ctx p item).marks = s.marks := by
  unfold onItemNotAvailableMessage
  dsimp only
  split_ifs <;> rfl

theorem marks_recordAdvertised (item : ItemId) : (s.recordAdvertised ctx p item).marks = s.marks := by
  unfold recordAdvertised
  dsimp only
  split_ifs <;> rfl

theorem marks_recordInventory (itemType : Nat) (hashes : List ItemHash) :
    (recordInventory ctx p itemType hashes s).marks = s.marks := by
  induction hashes generalizing s with
  | nil => rfl
  | cons hash rest ih =>
    unfold recordInventory
    split_ifs
    · exact ih
    · rfl
    · exact ih.trans (marks_recordAdvertised _)

theorem marks_onItemIdsInventoryMessage (itemType : Nat) (hashes : List ItemHash) :
    (s.onItemIdsInventoryMessage ctx p itemType hashes).marks = s.marks :=
  marks_recordInventory itemType hashes

theorem marks_blockValidated (hash : ItemHash) (m : BlockMessage) : (s.blockValidated ctx hash m).marks = s.marks := by
  unfold blockValidated
  refine (marks_forEachPeer (fun s q => marks_disconnectFromPeer) _).trans ?_
  refine (marks_broadcast _ _).trans (marks_forEachPeer (fun s q => ?_) _)
  dsimp only
  split_ifs <;> rfl

theorem marks_rescheduleItems (items : List ItemId) : (s.rescheduleItems ctx items).marks = s.marks := by
  induction items generalizing s with
  | nil => rfl
  | cons item rest ih =>
    refine Eq.trans ih ?_
    dsimp only
    split_ifs <;> rfl

theorem marks_syncBlockHandled (m : BlockMessage) (outcome : SyncBlockOutcome) :
    (s.syncBlockHandled ctx m outcome).marks = s.marks := by
  unfold syncBlockHandled
  cases outcome with
  | accepted =>
    refine (marks_forEachPeer (fun s q => marks_startSynchronizing) _).trans ?_
    refine (marks_forEachPeer (fun s q => marks_fetchNextBatch) _).trans ?_
    refine (marks_forEachPeer (fun s q => marks_disconnectFromPeer) _).trans ?_
    refine (marks_forEachPeer (fun s q => ?_) _).trans rfl
    exact (marks_modifyPeer _).trans (marks_modifyPeer _)
  | olderThanUndoHistory => exact (marks_forEachPeer (fun s q => marks_modifyPeer _) _).trans rfl
  | invalid => exact (marks_forEachPeer (fun s q => marks_disconnectFromPeer) _).trans rfl

theorem marks_processBacklogRound : (s.processBacklogRound ctx).1.marks = s.marks := by
  unfold processBacklogRound
  dsimp only
  split
  · rfl
  · split_ifs
    · refine (marks_forEachPeer (fun s q => marks_fetchNextBatch) _).trans ?_
      refine (marks_forEachPeer (fun s q => marks_modifyPeer _) _).trans ?_
      exact (marks_forEachPeer (fun s q => marks_modifyPeer _) _).trans rfl
    · exact (marks_forEachPeer (fun s q => marks_modifyPeer _) _).trans rfl

theorem marks_processBacklogLoop (fuel : Nat) : (processBacklogLoop ctx fuel s).marks = s.marks := by
  induction fuel generalizing s with
  | zero => rfl
  | succ fuel ih =>
    unfold processBacklogLoop
    dsimp only
    split_ifs
    · exact marks_processBacklogRound
    · exact marks_processBacklogRound
    · exact ih.trans marks_processBacklogRound
    · exact marks_processBacklogRound

theorem marks_fetchSyncItems : (s.fetchSyncItems ctx).marks = s.marks := by
  have hrequests (rs : List (PeerId × List ItemHash)) (s : NodeState) :
      (rs.foldl (fun s r => s.requestSyncItemsFromPeer r.1 r.2) s).marks = s.marks := by
    induction rs generalizing s with
    | nil => rfl
    | cons r rs ih => exact ih _
  unfold fetchSyncItems
  split_ifs
  · rfl
  · exact hrequests _ s

theorem marks_fetchItemsFrom (oldest : Time) (es : List PrioritizedItemId) (l : ItemsByPeer) :
    (fetchItemsFrom ctx oldest es l s).marks = s.marks := by
  induction es generalizing s l with
  | nil => rfl
  | cons e rest ih =>
    unfold fetchItemsFrom
    split_ifs
    · exact ih _
    · split
      · exact ih l
      · exact ih _

theorem marks_advertiseInventory : (s.advertiseInventory ctx).marks = s.marks := by
  unfold advertiseInventory
  refine (marks_forEachPeer (fun t q => ?_) _).trans rfl
  unfold advertiseTo
  dsimp only
  split_ifs <;> rfl

/-- What a step does to the marks: nothing, or a call begins, or it comes back and only an accepted block loses its
mark. -/
inductive MarkStep (s s' : NodeState) : Event → Prop
  | same {e : Event} (h : s'.marks = s.marks) : MarkStep s s' e
  | began {e : Event} {p : PeerId} {hash : ItemHash} {m : BlockMessage} (he : e = .message p (.block hash m))
      (h : s'.marks = (insert hash s.messageIdsCurrentlyBeingProcessed, (p, hash, m) :: s.blocksBeingHandled)) :
      MarkStep s s' e
  | cameBack {p : PeerId} {hash : ItemHash} {m : BlockMessage} {outcome : BlockOutcome}
      (hcall : (p, hash, m) ∈ s.blocksBeingHandled)
      (h : s'.marks =
        (if outcome.isAccepted then s.messageIdsCurrentlyBeingProcessed.erase hash
          else s.messageIdsCurrentlyBeingProcessed, s.blocksBeingHandled.erase (p, hash, m))) :
      MarkStep s s' (.blockHandled p hash m outcome)

theorem marks_processBlockMessage (hash : ItemHash) (m : BlockMessage) :
    (s.processBlockMessage ctx p hash m).marks = s.marks ∨ (s.processBlockMessage ctx p hash m).marks =
      (insert hash s.messageIdsCurrentlyBeingProcessed, (p, hash, m) :: s.blocksBeingHandled) := by
  unfold processBlockMessage
  dsimp only
  split_ifs
  · unfold processBlockDuringNormalOperation
    split_ifs
    · exact .inl (marks_blockValidated hash m)
    · exact .inr rfl
  · exact .inl marks_fetchNextBatch
  · exact .inl rfl
  · exact .inl rfl

theorem marks_blockHandled (p : PeerId) (hash : ItemHash) (m : BlockMessage) (outcome : BlockOutcome) :
    (s.blockHandled ctx p hash m outcome).marks =
      (if outcome.isAccepted then s.messageIdsCurrentlyBeingProcessed.erase hash
        else s.messageIdsCurrentlyBeingProcessed, s.blocksBeingHandled.erase (p, hash, m)) := by
  unfold blockHandled
  cases outcome with
  | accepted transactions => exact marks_blockValidated hash m
  | unlinkable => exact marks_startSynchronizing
  | invalid => exact (marks_forEachPeer (fun s q => marks_disconnectFromPeer) _).trans rfl
  | canceled => rfl

theorem step_marks_message (m : Message) : MarkStep s (s.onMessage node ctx p m) (.message p m) := by
  cases m with
  | hello m => exact .same (marks_onHelloMessage m)
  | connectionAccepted => exact .same rfl
  | connectionRejected reason =>
    refine .same ?_
    simp only [onMessage]
    unfold onConnectionRejectedMessage
    dsimp only
    split_ifs <;> rfl
  | address =>
    refine .same ?_
    simp only [onMessage]
    unfold onAddressMessage
    split_ifs
    · rfl
    · rfl
    · exact marks_startSynchronizing
    · rfl
  | fetchBlockchainItemIds itemType synopsis => exact .same (marks_onFetchBlockchainItemIdsMessage itemType synopsis)
  | blockchainItemIdsInventory itemType totalRemaining hashes =>
    exact .same (marks_onBlockchainItemIdsInventoryMessage itemType totalRemaining hashes)
  | fetchItems itemType hashes =>
    refine .same ?_
    simp only [onMessage]
    unfold onFetchItemsMessage
    split <;> rfl
  | itemNotAvailable item => exact .same (marks_onItemNotAvailableMessage item)
  | itemIdsInventory itemType hashes => exact .same (marks_onItemIdsInventoryMessage itemType hashes)
  | block hash m =>
    rcases @marks_processBlockMessage s p ctx hash m with h | h
    · exact .same h
    · exact .began rfl h
  | ordinary item =>
    refine .same ?_
    simp only [onMessage]
    unfold processOrdinaryMessage
    dsimp only
    split_ifs <;> rfl
  | other => exact .same rfl

theorem step_marks (node : NodeIdentity) (ctx : Context) (e : Event) : MarkStep s (s.step node ctx e) e := by
  cases e with
  | accept => exact .same rfl
  | acceptConnection p secret =>
    refine .same ?_
    simp only [step]
    split_ifs <;> rfl
  | initiateConnectTo firewallCheck => exact .same rfl
  | connectTo p secret =>
    refine .same ?_
    simp only [step]
    split_ifs
    · cases secret with
      | none => rfl
      | some secret =>
        dsimp only
        split_ifs <;> rfl
    · rfl
  | message p m =>
    simp only [step]
    split_ifs
    · exact step_marks_message m
    · exact .same rfl
  | connectionLost p =>
    refine .same ?_
    simp only [step]
    split_ifs <;> rfl
  | connectionClosed p =>
    refine .same ?_
    simp only [step]
    split_ifs
    · exact marks_rescheduleItems _
    · rfl
  | blockHandled p hash m outcome =>
    simp only [step]
    split_ifs with hcall
    · exact .cameBack hcall (marks_blockHandled p hash m outcome)
    · exact .same rfl
  | messageHandled p item accepted =>
    refine .same ?_
    simp only [step]
    split_ifs
    · unfold messageHandled
      dsimp only
      split_ifs <;> rfl
    · rfl
  | syncBlockHandled m outcome =>
    refine .same ?_
    simp only [step]
    split_ifs
    · exact marks_syncBlockHandled m outcome
    · rfl
  | processBacklogOfSyncBlocks =>
    refine .same ?_
    simp only [step]
    unfold processBacklogOfSyncBlocks
    split_ifs
    · rfl
    · exact marks_processBacklogLoop _
  | fetchSyncItems => exact .same marks_fetchSyncItems
  | fetchItems => exact .same (marks_fetchItemsFrom _ _ _)
  | advertiseInventory => exact .same marks_advertiseInventory
  | pruneRecentlyFailedItems => exact .same rfl
  | disconnect p =>
    refine .same ?_
    simp only [step]
    split_ifs <;> rfl
  | terminate p =>
    refine .same ?_
    simp only [step]
    split_ifs <;> rfl
  | broadcast item blockId => exact .same rfl
  | syncFrom currentHeadBlock => exact .same rfl
  | rehash order =>
    refine .same ?_
    simp only [step]
    split_ifs <;> rfl

end Handlers

/-! ## The marks along a run -/

section Steps

variable {s s' : NodeState}

theorem marksExact_init : NodeState.init.MarksExact := by
  intro hash
  simp [init, IsBeingHandled]

theorem MarksExact.ofMarks (hs : s.MarksExact) (h : s'.marks = s.marks) : s'.MarksExact := by
  obtain ⟨hids, hcalls⟩ := Prod.mk.inj h
  intro hash
  unfold IsBeingHandled
  rw [hids, hcalls]
  exact hs hash

/-- A call begins. -/
theorem MarksExact.insert {p : PeerId} {hash : ItemHash} {m : BlockMessage} (hs : s.MarksExact)
    (h : s'.marks = (insert hash s.messageIdsCurrentlyBeingProcessed, (p, hash, m) :: s.blocksBeingHandled)) :
    s'.MarksExact := by
  obtain ⟨hids, hcalls⟩ := Prod.mk.inj h
  intro hash'
  unfold IsBeingHandled
  rw [hids, hcalls, Finset.mem_insert, hs hash']
  simp only [List.mem_cons, exists_eq_or_imp, IsBeingHandled]
  exact or_congr_left eq_comm

/-- The calls for other messages go on when one has come back. -/
theorem exists_erase_iff {p : PeerId} {hash hash' : ItemHash} {m : BlockMessage} (hne : hash' ≠ hash) :
    (∃ call ∈ s.blocksBeingHandled.erase (p, hash, m), call.2.1 = hash') ↔ s.IsBeingHandled hash' := by
  constructor
  · rintro ⟨call, hcall, rfl⟩
    exact ⟨call, List.mem_of_mem_erase hcall, rfl⟩
  · rintro ⟨call, hcall, rfl⟩
    refine ⟨call, (List.mem_erase_of_ne ?_).mpr hcall, rfl⟩
    rintro rfl
    exact hne rfl

/-- **A call comes back**, and the marks are exact if the mark is cleared as it should be. -/
theorem MarksExact.cameBack_iff {p : PeerId} {hash : ItemHash} {m : BlockMessage} {accepted : Bool}
    (hs : s.MarksExact) (hcall : (p, hash, m) ∈ s.blocksBeingHandled)
    (h : s'.marks =
      (if accepted then s.messageIdsCurrentlyBeingProcessed.erase hash else s.messageIdsCurrentlyBeingProcessed,
        s.blocksBeingHandled.erase (p, hash, m))) :
    s'.MarksExact ↔ (accepted = true ↔ ∀ call ∈ s.blocksBeingHandled.erase (p, hash, m), call.2.1 ≠ hash) := by
  obtain ⟨hids, hcalls⟩ := Prod.mk.inj h
  have hmarked : hash ∈ s.messageIdsCurrentlyBeingProcessed := (hs hash).mpr ⟨_, hcall, rfl⟩
  have hlast : (∀ call ∈ s.blocksBeingHandled.erase (p, hash, m), call.2.1 ≠ hash) ↔
      ¬ ∃ call ∈ s.blocksBeingHandled.erase (p, hash, m), call.2.1 = hash := by
    push Not
    rfl
  rw [hlast]
  unfold MarksExact IsBeingHandled
  rw [hids, hcalls]
  constructor
  · intro hexact
    have hhere := hexact hash
    cases accepted with
    | true => exact iff_of_true rfl fun hsome => by simpa using hhere.mpr hsome
    | false => exact iff_of_false (by simp) fun hnone => hnone (hhere.mp (by simpa using hmarked))
  · intro hclears hash'
    by_cases hne : hash' = hash
    · subst hne
      cases accepted with
      | true => exact iff_of_false (by simp) (hclears.mp rfl)
      | false =>
        refine iff_of_true (by simpa using hmarked) ?_
        by_contra hnone
        exact absurd (hclears.mpr hnone) (by simp)
    · rw [exists_erase_iff hne, ← hs hash']
      cases accepted with
      | true => simp [hne]
      | false => simp

theorem step_marksExact_iff {node : NodeIdentity} {c : Call} (hs : s.MarksExact) :
    (next node s c).MarksExact ↔ s.ClearsMark c := by
  obtain ⟨ctx, e⟩ := c
  have hother (h : (s.step node ctx e).MarksExact) (hclears : s.ClearsMark ⟨ctx, e⟩) :
      (next node s ⟨ctx, e⟩).MarksExact ↔ s.ClearsMark ⟨ctx, e⟩ := iff_of_true h hclears
  cases step_marks (s := s) node ctx e with
  | same h =>
    refine hother (hs.ofMarks h) ?_
    cases e with
    | blockHandled p hash m outcome =>
      -- a call that comes back leaves the list
      intro hcall
      rw [step, if_pos hcall, marks_blockHandled] at h
      have hlength := congrArg List.length (Prod.mk.inj h).2
      rw [List.length_erase_of_mem hcall] at hlength
      have hpos := List.length_pos_of_mem hcall
      omega
    | _ => trivial
  | began he h =>
    refine hother (hs.insert h) ?_
    rw [he]
    trivial
  | cameBack hcall h => exact (hs.cameBack_iff hcall h).trans ⟨fun hclears _ => hclears, fun hclears => hclears hcall⟩

end Steps

/-! ## Advertised blocks -/

section Advertised

variable {ctx : Context} {s : NodeState} {p : PeerId} {item : ItemId}

/-- The loop goes on behind items that leave room for more. -/
theorem recordInventory_append {itemType : Nat} (before rest : List ItemHash)
    (hroom : (recordInventory ctx p itemType before s).floodedBy p itemType = false) :
    recordInventory ctx p itemType (before ++ rest) s =
      recordInventory ctx p itemType rest (recordInventory ctx p itemType before s) := by
  induction before generalizing s with
  | nil => rfl
  | cons hash before ih =>
    rw [List.cons_append, recordInventory, recordInventory]
    rw [recordInventory] at hroom
    split_ifs at hroom ⊢ with hhas hflooded
    · exact ih hroom
    · rw [hflooded] at hroom
      cases hroom
    · exact ih hroom

theorem weRequestedFromAPeer_modifyPeer {f : PeerConnection → PeerConnection}
    (hf : ∀ c, (f c).itemsRequestedFromPeer = c.itemsRequestedFromPeer) :
    (s.modifyPeer p f).weRequestedFromAPeer item = s.weRequestedFromAPeer item := by
  unfold weRequestedFromAPeer modifyPeer
  congr 1
  funext q
  by_cases hq : q = p <;> simp [hq, hf]

theorem isToBeFetched_refresh (now : Time) (item' : ItemId) :
    (s.refreshItemToFetch now item').isToBeFetched item = s.isToBeFetched item := by
  unfold isToBeFetched refreshItemToFetch
  rw [List.any_map]
  congr 1
  funext e
  by_cases h : e.item = item' <;> simp [h]

theorem IsSought.insert (h : s.IsSought item) (now : Time) (item' : ItemId) :
    (s.insertItemToFetch now item').IsSought item := by
  refine h.imp id fun hlisted => ?_
  unfold isToBeFetched insertItemToFetch at *
  dsimp only
  split_ifs
  · exact hlisted
  · generalize hl : (fun x : PrioritizedItemId => !(_ : Bool)) = q
    rw [List.any_append, List.any_cons]
    rw [← List.takeWhile_append_dropWhile (p := q) (l := s.itemsToFetch), List.any_append] at hlisted
    grind

theorem IsSought.recordAdvertised (h : s.IsSought item) (item' : ItemId) :
    (s.recordAdvertised ctx p item').IsSought item := by
  have hrecorded : (s.modifyPeer p fun q => { q with
      inventoryPeerAdvertisedToUs := q.inventoryPeerAdvertisedToUs.add item' (seconds ctx.now) }).IsSought item := by
    refine h.imp (fun hrequested => ?_) id
    rw [weRequestedFromAPeer_modifyPeer]
    · exact hrequested
    · exact fun _ => rfl
  unfold NodeState.recordAdvertised
  dsimp only
  split_ifs
  · exact hrecorded
  · exact hrecorded
  · refine hrecorded.imp id fun hlisted => ?_
    rw [isToBeFetched_refresh]
    exact hlisted
  · exact hrecorded.insert _ _

theorem IsSought.recordInventory (h : s.IsSought item) (itemType : Nat) (hashes : List ItemHash) :
    (NodeState.recordInventory ctx p itemType hashes s).IsSought item := by
  induction hashes generalizing s with
  | nil => exact h
  | cons hash rest ih =>
    rw [NodeState.recordInventory]
    split_ifs
    · exact ih h
    · exact h
    · exact ih (h.recordAdvertised _)

/-- An item that is wanted is requested or on the list when it has been recorded. -/
theorem isSought_recordAdvertised (h : Wanted ctx s p item) : (s.recordAdvertised ctx p item).IsSought item := by
  unfold recordAdvertised
  dsimp only
  split_ifs with hrequested hfailed hlisted
  · left
    rw [weRequestedFromAPeer_modifyPeer]
    · exact hrequested
    · exact fun _ => rfl
  · exact absurd hfailed (by simp [modifyPeer, h.notFailed])
  · right
    rw [isToBeFetched_refresh]
    exact hlisted
  · right
    unfold isToBeFetched insertItemToFetch
    dsimp only
    rw [if_neg]
    · simp
    · rw [Bool.or_eq_true, not_or]
      exact ⟨hlisted, by simpa [modifyPeer] using h.numbered⟩

/-- **Where the marks are exact**, an advertised block that no call is in progress for is fetched. -/
theorem MarksExact.heedsBlocks (hs : s.MarksExact) : s.HeedsBlocks := by
  intro ctx p before hash after hidle hwanted
  unfold onItemIdsInventoryMessage
  generalize ht : NodeState.recordInventory ctx p blockMessageType before (s.clearOldInventory ctx p) = t at hwanted
  have hmarks : t.marks = s.marks := by
    rw [← ht]
    exact marks_recordInventory _ _
  have hmark : hash ∉ t.messageIdsCurrentlyBeingProcessed := by
    rw [(Prod.mk.inj hmarks).1]
    exact fun hmem => hidle ((hs hash).mp hmem)
  have hnot : t.hasOrProcesses ⟨blockMessageType, hash⟩ = false := by
    unfold hasOrProcesses
    rw [hwanted.notInInventory, hwanted.notAdvertised, decide_eq_false hmark]
    rfl
  rw [recordInventory_append _ _ (by rw [ht]; exact hwanted.room), ht, NodeState.recordInventory,
    if_neg (by simp [hnot]), if_neg (by simp [hwanted.room])]
  exact (isSought_recordAdvertised hwanted).recordInventory _ _

end Advertised

end NodeState

/-- **The marks are those of the calls in progress, in every state of a run, exactly if every call that comes back has
accepted the block**, but for calls during which another one for the same message goes on.  Where they are, a block that
has failed is fetched again when it is advertised. -/
theorem marks_exact_iff (node : NodeIdentity) (calls : List Call) :
    Traces.Along (next node) (fun _ s => s.MarksExact ∧ s.HeedsBlocks) .init calls ↔
      Traces.Each (next node) NodeState.ClearsMark .init calls := by
  have hmarks : Traces.Along (next node) (fun _ s => s.MarksExact) .init calls ↔
      Traces.Each (next node) NodeState.ClearsMark .init calls :=
    Traces.along_iff_each (I := fun _ _ => True) (fun _ => trivial) NodeState.marksExact_init
      (fun _ _ _ _ hs hclears => (NodeState.step_marksExact_iff hs).mpr hclears)
      (fun _ _ _ _ hs hs' => (NodeState.step_marksExact_iff hs).mp hs')
  rw [← hmarks]
  exact ⟨fun h past hpast => (h past hpast).1, fun h past hpast => ⟨h past hpast, (h past hpast).heedsBlocks⟩⟩

/-- A peer advertises a block, is asked for it and sends it. -/
def blockComes : List Call :=
  politeRun ++ [.message 0 (.blockchainItemIdsInventory blockMessageType 0 []),
    .message 0 (.itemIdsInventory blockMessageType [⟨9, 1⟩]), .fetchItems,
    .message 0 (.block ⟨9, 1⟩ ⟨⟨6, 2⟩, 6, 0⟩)].map quietly

/-- A block that does not link, and the peer advertises it again. -/
def blockFails : List Call :=
  blockComes ++ [.blockHandled 0 ⟨9, 1⟩ ⟨⟨6, 2⟩, 6, 0⟩ .unlinkable,
    .message 0 (.itemIdsInventory blockMessageType [⟨9, 1⟩])].map quietly

/-- **The mark of a block that has failed stays**, and the block is not fetched again. -/
theorem failed_block_stays_marked :
    (reach lonelyNode blockFails).blocksBeingHandled = [] ∧
      ⟨9, 1⟩ ∈ (reach lonelyNode blockFails).messageIdsCurrentlyBeingProcessed ∧
      0 ∈ (reach lonelyNode blockFails).activeConnections ∧
      (reach lonelyNode blockFails).weRequestedFromAPeer ⟨blockMessageType, ⟨9, 1⟩⟩ = false ∧
      (reach lonelyNode blockFails).isToBeFetched ⟨blockMessageType, ⟨9, 1⟩⟩ = false ∧
      ¬ (reach lonelyNode blockFails).MarksExact := by
  have hcalls : (reach lonelyNode blockFails).blocksBeingHandled = [] := by decide +kernel
  have hmark : ⟨9, 1⟩ ∈ (reach lonelyNode blockFails).messageIdsCurrentlyBeingProcessed := by decide +kernel
  refine ⟨hcalls, hmark, by decide +kernel, by decide +kernel, by decide +kernel, fun h => ?_⟩
  obtain ⟨call, hcall, -⟩ := (h ⟨9, 1⟩).mp hmark
  rw [hcalls] at hcall
  cases hcall

end Graphene
