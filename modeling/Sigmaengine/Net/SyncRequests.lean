import Sigmaengine.Lib.Shares
import Sigmaengine.Net.Handshake

/-!
# Requests for sync blocks

The node keeps one set of all sync blocks that it has asked for, and one for each connection.  `SyncTracked` says that
the first is the disjoint union of the others.  Every handler keeps it but one: where a peer does not have the block it
was asked for, the request is taken off the set of the connection alone.
-/

namespace Graphene

namespace NodeState

variable {X : Finset Part} {s s' : NodeState} {p : PeerId} {ctx : Context} {node : NodeIdentity}

/-- The connections whose `on_connection_closed` has not run. -/
def connected (s : NodeState) : Set PeerId := {p | p < s.nextPeer ∧ p ∉ s.closed}

/-- **Sync request tracking.**  The sync blocks that are marked as requested are those that connections owe, each one
connection. -/
def SyncTracked (s : NodeState) : Prop :=
  Shared s.activeSyncRequests s.connected fun p => (s.peers p).syncItemsRequestedFromPeer

theorem InOrder.connected_of_reading (h : s.InOrder) (hp : p ∈ s.reading) : p ∈ s.connected :=
  ⟨h.known p (.inl hp), fun hclosed => (h.gone p (.inr hclosed)).1 hp⟩

theorem InOrder.connected_of_active (h : s.InOrder) (hp : p ∈ s.activeConnections) : p ∈ s.connected :=
  ⟨h.known p (.inr (.inr (.inl hp))), fun hclosed => (h.gone p (.inr hclosed)).2.2 hp⟩

theorem InOrder.connected_of_lost (h : s.InOrder) (hp : p ∈ s.lost) (hclosed : p ∉ s.closed) : p ∈ s.connected :=
  ⟨h.known p (.inr (.inr (.inr (.inl hp)))), hclosed⟩

theorem connected_congr (hnext : s'.nextPeer = s.nextPeer) (hclosed : s'.closed = s.closed) :
    s'.connected = s.connected := by
  simp only [connected, hnext, hclosed]

/-- What connections there are changes only where one is made and where one is closed. -/
theorem LinkStep.connected_eq {e : Event} (h : LinkStep node s e s') :
    s'.connected = s.connected ∨ (∃ firewallCheck, s' = s.newPeer firewallCheck) ∨
      ∃ p, e = .connectionClosed p := by
  have heq {t : NodeState} {X : Finset Part} (hkept : t.Kept X s') (hX : .links ∉ X) (hnext : t.nextPeer = s.nextPeer)
      (hclosed : t.closed = s.closed) : s'.connected = s.connected :=
    connected_congr ((hkept.links hX).nextPeer.trans hnext) ((hkept.links hX).closed.trans hclosed)
  cases h with
  | kept X hX hkept => exact .inl (heq hkept hX rfl rfl)
  | created firewallCheck hs' => exact .inr (.inl ⟨firewallCheck, hs'⟩)
  | established p hp direction secret hkept => exact .inl (heq hkept (by simp) rfl rfl)
  | heard p hp m he hstate hkept => exact .inl (heq hkept (by simp) rfl rfl)
  | answered p hp m he hstate x hkept hx => exact .inl (heq hkept (by simp) rfl rfl)
  | promoted p hp m he hm t ht hpt hkept =>
    exact .inl (heq hkept (by simp) (ht.links (by simp)).nextPeer (ht.links (by simp)).closed)
  | closed p hp he t ht hkept => exact .inr (.inr ⟨p, he⟩)

theorem SyncTracked.kept (h : s.SyncTracked) (hkept : s.Kept X s') (hX : .sync ∉ X)
    (hconnected : s'.connected = s.connected) : s'.SyncTracked := by
  unfold SyncTracked
  rw [hconnected, hkept.sync hX]
  exact h.congr fun p hp => (hkept.peers p hp.1).sync hX

theorem SyncTracked.newPeer (h : s.SyncTracked) (hinorder : s.InOrder) (firewallCheck : Bool) :
    (s.newPeer firewallCheck).SyncTracked := by
  have hconnected : (s.newPeer firewallCheck).connected = insert s.nextPeer s.connected := by
    ext p
    have hnew : s.nextPeer ∉ s.closed :=
      fun hclosed => lt_irrefl _ (hinorder.known _ (.inr (.inr (.inr (.inr hclosed)))))
    simp only [connected, NodeState.newPeer, Set.mem_ofPred_eq, Set.mem_insert_iff, Nat.lt_succ_iff_lt_or_eq]
    constructor
    · rintro ⟨hp | hp, hclosed⟩
      · exact .inr ⟨hp, hclosed⟩
      · exact .inl hp
    · rintro (rfl | ⟨hp, hclosed⟩)
      · exact ⟨.inr rfl, hnew⟩
      · exact ⟨.inl hp, hclosed⟩
  unfold SyncTracked
  rw [hconnected]
  refine Shared.join (h.congr fun p hp => ?_) ?_
  · simp [NodeState.newPeer, hp.1.ne]
  · simp [NodeState.newPeer]

/-! ## Requests are made -/

theorem mem_chooseSyncItems {limit : Nat} {ids chosen : List ItemHash} {taken : Finset ItemHash} {id : ItemHash}
    (h : id ∈ s.chooseSyncItems limit ids chosen taken) : id ∈ chosen ∨ id ∉ taken ∧ id ∉ s.activeSyncRequests := by
  induction ids generalizing chosen taken with
  | nil => exact .inl h
  | cons first ids ih =>
    unfold chooseSyncItems at h
    split_ifs at h with hfree hlimit
    · simp only [Bool.and_eq_true, decide_eq_true_eq] at hfree
      rcases List.mem_append.mp h with h | h
      · exact .inl h
      · rw [List.mem_singleton.mp h]
        exact .inr ⟨hfree.1.2, hfree.2⟩
    · simp only [Bool.and_eq_true, decide_eq_true_eq] at hfree
      rcases ih h with h | ⟨htaken, hactive⟩
      · rcases List.mem_append.mp h with h | h
        · exact .inl h
        · rw [List.mem_singleton.mp h]
          exact .inr ⟨hfree.1.2, hfree.2⟩
      · exact .inr ⟨fun hm => htaken (Finset.mem_insert_of_mem hm), hactive⟩
    · exact ih h

/-- The requests of a round are made of active peers, ask for what nobody was asked for, and for nothing twice. -/
theorem scheduleSyncItems_spec (ctx : Context) (ps : List PeerId) (taken : Finset ItemHash) :
    (∀ r ∈ s.scheduleSyncItems ctx ps taken, r.1 ∈ ps ∧ ∀ id ∈ r.2, id ∉ taken ∧ id ∉ s.activeSyncRequests) ∧
      (s.scheduleSyncItems ctx ps taken).Pairwise fun r r' => ∀ id ∈ r'.2, id ∉ r.2 := by
  induction ps generalizing taken with
  | nil => simp [scheduleSyncItems]
  | cons p ps ih =>
    unfold scheduleSyncItems
    dsimp only
    have hskip := ih taken
    split_ifs with hready hnone
    · exact ⟨fun r hr => ⟨List.mem_cons_of_mem p (hskip.1 r hr).1, (hskip.1 r hr).2⟩, hskip.2⟩
    · generalize hchosen : s.chooseSyncItems _ _ _ _ = chosen
      obtain ⟨hrest, hpairwise⟩ := ih (taken ∪ chosen.toFinset)
      constructor
      · intro r hr
        rcases List.mem_cons.mp hr with rfl | hr
        · refine ⟨List.mem_cons_self, fun id hid => ?_⟩
          rw [← hchosen] at hid
          exact (mem_chooseSyncItems hid).resolve_left (by simp)
        · obtain ⟨hps, hids⟩ := hrest r hr
          refine ⟨List.mem_cons_of_mem p hps, fun id hid => ?_⟩
          obtain ⟨htaken, hactive⟩ := hids id hid
          exact ⟨fun hm => htaken (Finset.mem_union_left _ hm), hactive⟩
      · refine List.pairwise_cons.mpr ⟨fun r hr id hid hm => ?_, hpairwise⟩
        exact ((hrest r hr).2 id hid).1 (Finset.mem_union_right _ (List.mem_toFinset.mpr hm))
    · exact ⟨fun r hr => ⟨List.mem_cons_of_mem p (hskip.1 r hr).1, (hskip.1 r hr).2⟩, hskip.2⟩

theorem SyncTracked.requestSyncItemsFromPeer (h : s.SyncTracked) (hp : p ∈ s.connected) {items : List ItemHash}
    (hnew : ∀ id ∈ items, id ∉ s.activeSyncRequests) : (s.requestSyncItemsFromPeer p items).SyncTracked := by
  change Shared (s.activeSyncRequests ∪ items.toFinset) s.connected _
  refine Shared.give h hp ?_ ?_
  · intro id hid
    exact hnew id (List.mem_toFinset.mp hid)
  · intro q
    by_cases hq : q = p <;> simp [NodeState.requestSyncItemsFromPeer, modifyPeer, hq]

/-- Requests that do not overlap are made one after the other. -/
theorem SyncTracked.requestAll (h : s.SyncTracked) (rs : List (PeerId × List ItemHash))
    (hps : ∀ r ∈ rs, r.1 ∈ s.connected) (hnew : ∀ r ∈ rs, ∀ id ∈ r.2, id ∉ s.activeSyncRequests)
    (hpairwise : rs.Pairwise fun r r' => ∀ id ∈ r'.2, id ∉ r.2) :
    (rs.foldl (fun s r => s.requestSyncItemsFromPeer r.1 r.2) s).SyncTracked := by
  induction rs generalizing s with
  | nil => exact h
  | cons r rs ih =>
    obtain ⟨hhead, htail⟩ := List.pairwise_cons.mp hpairwise
    have hrequested := h.requestSyncItemsFromPeer (hps r List.mem_cons_self) (hnew r List.mem_cons_self)
    refine ih hrequested (fun r' hr' => hps r' (List.mem_cons_of_mem r hr')) (fun r' hr' id hid => ?_) htail
    change id ∉ s.activeSyncRequests ∪ r.2.toFinset
    rw [Finset.mem_union, List.mem_toFinset, not_or]
    exact ⟨hnew r' (List.mem_cons_of_mem r hr') id hid, hhead r' hr' id hid⟩

theorem SyncTracked.fetchSyncItems (h : s.SyncTracked) (hinorder : s.InOrder) (ctx : Context) :
    (s.fetchSyncItems ctx).SyncTracked := by
  unfold NodeState.fetchSyncItems
  split_ifs
  · exact h
  · obtain ⟨hschedule, hpairwise⟩ := scheduleSyncItems_spec (s := s) ctx s.activeConnections ∅
    refine h.requestAll _ (fun r hr => ?_) (fun r hr id hid => ?_) hpairwise
    · exact hinorder.connected_of_active (hschedule r hr).1
    · exact ((hschedule r hr).2 id hid).2

/-! ## Requests are answered -/

theorem SyncTracked.processBlockMessage (h : s.SyncTracked) (hp : p ∈ s.connected) (ctx : Context) (hash : ItemHash)
    (m : BlockMessage) : (s.processBlockMessage ctx p hash m).SyncTracked := by
  by_cases hitem : (⟨blockMessageType, hash⟩ : ItemId) ∈ (s.peers p).itemsRequestedFromPeer
  · have hkept : s.Kept {.items} (s.processBlockMessage ctx p hash m) := processBlockMessage_kept hash m hitem
    exact h.kept hkept (by simp)
      (connected_congr (hkept.links (by simp)).nextPeer (hkept.links (by simp)).closed)
  · unfold NodeState.processBlockMessage
    dsimp only
    rw [if_neg (fun hc => hitem (List.contains_iff_mem.mp hc))]
    have hkept {t t' : NodeState} (ht : t.SyncTracked) (hk : t.Kept ∅ t') : t'.SyncTracked :=
      ht.kept hk (by simp) (connected_congr (hk.links (by simp)).nextPeer (hk.links (by simp)).closed)
    by_cases hsync : m.blockId ∈ (s.peers p).syncItemsRequestedFromPeer
    · have htaken : SyncTracked
          { s.modifyPeer p fun q =>
            { q with syncItemsRequestedFromPeer := q.syncItemsRequestedFromPeer.erase m.blockId } with
            activeSyncRequests := s.activeSyncRequests.erase m.blockId
            newReceivedSyncItems := m :: s.newReceivedSyncItems } := by
        refine Shared.take h hp hsync fun q => ?_
        by_cases hq : q = p <;> simp [modifyPeer, hq]
      rw [if_pos hsync]
      split_ifs
      · exact hkept htaken fetchNextBatchOfItemIdsFromPeer_kept
      · exact htaken
    · rw [if_neg hsync]
      exact hkept h disconnectFromPeer_kept

/-- A connection is closed, and what it owed may be asked for again. -/
theorem SyncTracked.onConnectionClosed (h : s.SyncTracked) (hp : p ∈ s.connected) (ctx : Context) :
    (s.onConnectionClosed ctx p).SyncTracked := by
  let t : NodeState := { s with
    activeSyncRequests := s.activeSyncRequests \ (s.peers p).syncItemsRequestedFromPeer
    lost := s.lost.erase p
    closed := insert p s.closed }
  have ht : t.SyncTracked := by
    have hconnected : t.connected = s.connected \ {p} := by
      ext q
      simp only [t, connected, Set.mem_ofPred_eq, Finset.mem_insert, not_or, Set.mem_sdiff, Set.mem_singleton_iff]
      exact ⟨fun ⟨hq, hqp, hc⟩ => ⟨⟨hq, hc⟩, hqp⟩, fun ⟨⟨hq, hc⟩, hqp⟩ => ⟨hq, hqp, hc⟩⟩
    unfold SyncTracked
    rw [hconnected]
    exact Shared.leave h hp
  have hkept : t.Kept {.items} (s.onConnectionClosed ctx p) := rescheduleItems_kept _
  exact ht.kept hkept (by simp)
    (connected_congr (hkept.links (by simp)).nextPeer (hkept.links (by simp)).closed)

/-- A peer that was asked for a sync block does not have it: the request is off its own list, and nothing else. -/
theorem syncItemNotAvailable_taken (ctx : Context) (item : ItemId) (hitem : item ∉ (s.peers p).itemsRequestedFromPeer)
    (hsync : item.itemHash ∈ (s.peers p).syncItemsRequestedFromPeer) :
    (s.modifyPeer p fun q =>
        { q with syncItemsRequestedFromPeer := q.syncItemsRequestedFromPeer.erase item.itemHash }).Kept ∅
      (s.onItemNotAvailableMessage ctx p item) := by
  unfold onItemNotAvailableMessage
  rw [if_neg (fun h => hitem (List.contains_iff_mem.mp h)), if_pos hsync]
  dsimp only
  split_ifs
  · apply modifyPeer_kept
    constructor <;> simp
  · exact disconnectFromPeer_kept

end NodeState

/-- The condition under which the tracking lasts: no peer says that it does not have a sync block it was asked for. -/
def NoSyncItemRefused (s : NodeState) (c : Call) : Prop :=
  ∀ p item, c.event = .message p (.itemNotAvailable item) → p ∈ s.reading →
    item ∉ (s.peers p).itemsRequestedFromPeer → item.itemHash ∉ (s.peers p).syncItemsRequestedFromPeer

namespace NodeState

variable {s : NodeState} {p : PeerId} {node : NodeIdentity}

theorem SyncTracked.untouched (h : s.SyncTracked) (hinorder : s.InOrder) (node : NodeIdentity) (ctx : Context)
    {e : Event} (he : .sync ∉ e.touches) : (s.step node ctx e).SyncTracked := by
  have hknown (p : PeerId) (hp : p ∈ s.reading) := hinorder.known p (.inl hp)
  rcases (step_links node ctx hknown e).connected_eq with hconnected | ⟨firewallCheck, hs'⟩ | ⟨p, rfl⟩
  · exact h.kept (step_kept node ctx hknown e) he hconnected
  · rw [hs']
    exact h.newPeer hinorder firewallCheck
  · simp [Event.touches] at he

theorem SyncTracked.next (h : s.SyncTracked) (hinorder : s.InOrder) (c : Call) (hgood : NoSyncItemRefused s c) :
    (next node s c).SyncTracked := by
  obtain ⟨ctx, e⟩ := c
  by_cases he : .sync ∉ e.touches
  · exact h.untouched hinorder node ctx he
  rw [not_not] at he
  simp only [Graphene.next]
  cases e with
  | fetchSyncItems => exact h.fetchSyncItems hinorder ctx
  | connectionClosed p =>
    simp only [step]
    split_ifs with hp
    · exact h.onConnectionClosed (hinorder.connected_of_lost hp (hinorder.once p hp)) ctx
    · exact h
  | message p m =>
    simp only [step]
    split_ifs with hp
    · have hconnected := hinorder.connected_of_reading hp
      cases m with
      | block hash m => exact h.processBlockMessage hconnected ctx hash m
      | itemNotAvailable item =>
        by_cases hitem : item ∈ (s.peers p).itemsRequestedFromPeer
        · have hkept : s.Kept {.items} (s.onItemNotAvailableMessage ctx p item) := itemNotAvailable_kept item hitem
          exact h.kept hkept (by simp)
            (connected_congr (hkept.links (by simp)).nextPeer (hkept.links (by simp)).closed)
        · have hsync := hgood p item rfl hp hitem
          simpa [onMessage, onItemNotAvailableMessage, hitem, hsync] using h
      | _ => simp [Event.touches, Message.touches] at he
    · exact h
  | _ => simp [Event.touches] at he

/-- A refused sync block is marked as requested, and nobody owes it. -/
theorem not_syncTracked_of_refused (h : s.SyncTracked) (hp : p ∈ s.connected) (ctx : Context) (item : ItemId)
    (hitem : item ∉ (s.peers p).itemsRequestedFromPeer)
    (hsync : item.itemHash ∈ (s.peers p).syncItemsRequestedFromPeer) :
    ¬ (s.onItemNotAvailableMessage ctx p item).SyncTracked := by
  have hkept := syncItemNotAvailable_taken ctx item hitem hsync
  intro htracked
  have hmarked : item.itemHash ∈ (s.onItemNotAvailableMessage ctx p item).activeSyncRequests := by
    rw [hkept.sync (by simp)]
    exact (h.mem_iff _).mpr ⟨p, hp, hsync⟩
  obtain ⟨q, hq, howed⟩ := (htracked.mem_iff _).mp hmarked
  rw [connected_congr (hkept.links (by simp)).nextPeer (hkept.links (by simp)).closed] at hq
  change item.itemHash ∈ ((s.onItemNotAvailableMessage ctx p item).peers q).syncItemsRequestedFromPeer at howed
  rw [(hkept.peers q hq.1).sync (by simp)] at howed
  by_cases hqp : q = p
  · simp [modifyPeer, hqp] at howed
  · simp only [modifyPeer, hqp, if_false] at howed
    exact hqp (h.disjoint q hq p hp _ howed hsync)

end NodeState

/-- **Sync requests are tracked** along a run if and only if no peer in it refuses a sync block it was asked for. -/
theorem sync_requests_tracked_iff (node : NodeIdentity) (calls : List Call) :
    Traces.Along (next node) (fun _ s => s.SyncTracked) .init calls ↔
      Traces.Each (next node) NoSyncItemRefused .init calls := by
  refine Traces.along_iff_each (I := fun _ s => s.InOrder) (reach_inOrder node) ?_ ?_ ?_
  · constructor <;> simp [NodeState.init, NodeState.connected]
  · intro _ s c hinorder htracked hgood
    exact htracked.next hinorder c hgood
  · intro _ s c hinorder htracked hafter p item he hp hitem hsync
    obtain ⟨ctx, e⟩ := c
    subst he
    refine NodeState.not_syncTracked_of_refused htracked (hinorder.connected_of_reading hp) ctx item hitem hsync ?_
    simpa [next, NodeState.step, hp, NodeState.onMessage] using hafter

/-- **A sync block stays marked as requested.**  The only peer that has a block is asked for it, and answers that it is
not available; nobody owes it then, and it cannot be asked for again. -/
theorem refused_sync_item_stays_marked :
    ¬ (reach lonelyNode (politeRun ++ [.message 0 (.blockchainItemIdsInventory blockMessageType 0 [⟨1, 0⟩]),
      .fetchSyncItems, .message 0 (.itemNotAvailable ⟨blockMessageType, ⟨1, 0⟩⟩)].map quietly)).SyncTracked := by
  intro htracked
  obtain ⟨p, hp, howed⟩ := (htracked.mem_iff ⟨1, 0⟩).mp (by decide +kernel)
  obtain rfl : p = 0 := Nat.lt_one_iff.mp hp.1
  revert howed
  decide +kernel

end Graphene
