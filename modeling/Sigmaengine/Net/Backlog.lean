import Sigmaengine.Net.Handshake

/-!
# The backlog of sync blocks

`process_backlog_of_sync_blocks` hands received blocks to the delegate as they come up at the front of the lists of the
active peers.  A block that the delegate has accepted before is taken off the lists without being handed over, and that
ends the loop: what comes up behind it stays where it is.  And where a block is first on one list, it is handed over before
what stands before it on another.
-/

namespace Graphene

namespace NodeState

variable (ctx : Context) (s : NodeState)

/-! ## The loop -/

/-- The `do` loop, which may go round any number of times, from the state it begins in to the one it ends in. -/
inductive BacklogLoop : NodeState → NodeState → Prop
  | full {s : NodeState}
      (hfull : ctx.maximumNumberOfBlocksToHandleAtOneTime ≤
        (s.processBacklogRound ctx).1.handleMessageCallsInProgress.length) :
      BacklogLoop s
        (if ctx.maximumNumberOfSyncBlocksToPrefetch ≤ (s.processBacklogRound ctx).1.receivedSyncItems.length then
          { (s.processBacklogRound ctx).1 with suspendFetchingSyncBlocks := true }
        else (s.processBacklogRound ctx).1)
  | again {s s' : NodeState}
      (hbelow : (s.processBacklogRound ctx).1.handleMessageCallsInProgress.length <
        ctx.maximumNumberOfBlocksToHandleAtOneTime)
      (hprocessed : (s.processBacklogRound ctx).2 = true) (h : BacklogLoop (s.processBacklogRound ctx).1 s') :
      BacklogLoop s s'
  | done {s : NodeState}
      (hbelow : (s.processBacklogRound ctx).1.handleMessageCallsInProgress.length <
        ctx.maximumNumberOfBlocksToHandleAtOneTime)
      (hprocessed : (s.processBacklogRound ctx).2 = false) : BacklogLoop s (s.processBacklogRound ctx).1

/-! ## What is to be shown -/

/-- The list of a peer, of the ids it still has to give. -/
def idsOf (q : PeerId) : List ItemHash := (s.peers q).idsOfItemsToGet

/-- No received block is at the front of the list of an active peer. -/
def Drained : Prop :=
  ∀ m ∈ s.receivedSyncItems, ∀ q ∈ s.activeConnections, (s.idsOf q).head? ≠ some m.blockId

/-- The blocks `handed` are handed over on the way from `s` to `s'`, for each peer in the order of its list: what leaves the
list leaves it at the front, what was not accepted before is handed over in that order, and no two blocks are handed over
against it. -/
structure HandedInOrder (s : NodeState) (handed : List ItemHash) (s' : NodeState) : Prop where
  taken : ∀ q ∈ s.activeConnections, ∃ taken, s.idsOf q = taken ++ s'.idsOf q ∧
    (taken.filter fun id => !s.mostRecentBlocksAccepted.contains id).Sublist handed
  listed : ∀ x y, [x, y].Sublist handed → ∀ q ∈ s.activeConnections, ¬ [y, x].Sublist (s.idsOf q)

/-- Sync blocks are fetched again. -/
def resumed : NodeState := { s with suspendFetchingSyncBlocks := false }

/-- The backlog is drained in order. -/
structure BacklogDrained : Prop where
  /-- It returns at once or when its loop ends. -/
  terminates : ctx.maximumNumberOfBlocksToHandleAtOneTime ≤ s.handleMessageCallsInProgress.length ∨
    BacklogLoop ctx s.resumed (s.processBacklogOfSyncBlocks ctx)
  ordered : ∃ handed : List BlockMessage,
    (s.processBacklogOfSyncBlocks ctx).handleMessageCallsInProgress = handed.reverse ++ s.handleMessageCallsInProgress ∧
    handed ⊆ s.newReceivedSyncItems ++ s.receivedSyncItems ∧ (handed.map (·.blockId)).Nodup ∧
    s.HandedInOrder (handed.map (·.blockId)) (s.processBacklogOfSyncBlocks ctx)
  drained : (s.processBacklogOfSyncBlocks ctx).handleMessageCallsInProgress.length <
      ctx.maximumNumberOfBlocksToHandleAtOneTime →
    (s.processBacklogOfSyncBlocks ctx).Drained

/-! ## Blocks that come up -/

/-- The new blocks are put before the others, the last of them first. -/
def merged : NodeState :=
  { s with
    receivedSyncItems := s.newReceivedSyncItems.reverse ++ s.receivedSyncItems
    newReceivedSyncItems := [] }

/-- The first received block that is at the front of a list. -/
def comesUp : Option BlockMessage := s.receivedSyncItems.find? fun m => !(s.peersOffering m.blockId).isEmpty

/-- A block leaves the front of every list. -/
def takeUp (m : BlockMessage) : NodeState :=
  s.forEachPeer (s.peersOffering m.blockId) fun s q => s.startProcessing q m.blockId

def handOver (m : BlockMessage) : NodeState :=
  { s.takeUp m with
    receivedSyncItems := s.receivedSyncItems.erase m
    handleMessageCallsInProgress := m :: s.handleMessageCallsInProgress }

/-- Blocks that have not been accepted come up and are handed over, one after the other, below the limit. -/
inductive HandsOver : NodeState → List BlockMessage → NodeState → Prop
  | nil {s : NodeState} : HandsOver s [] s
  | cons {s s' : NodeState} {m : BlockMessage} {handed : List BlockMessage}
      (hbelow : s.handleMessageCallsInProgress.length < ctx.maximumNumberOfBlocksToHandleAtOneTime)
      (hup : s.comesUp = some m) (hnew : m.blockId ∉ s.mostRecentBlocksAccepted)
      (h : HandsOver (s.handOver m) handed s') : HandsOver s (m :: handed) s'

/-- Where a block that has been accepted comes up and the limit is not reached, no received block comes up behind it. -/
def NothingHeldUp : Prop :=
  ∀ handed s' m, HandsOver ctx s.resumed.merged handed s' →
    s'.handleMessageCallsInProgress.length < ctx.maximumNumberOfBlocksToHandleAtOneTime →
    s'.comesUp = some m → m.blockId ∈ s'.mostRecentBlocksAccepted →
    ∀ b ∈ s'.receivedSyncItems, ∀ q ∈ s'.activeConnections, b.blockId ≠ m.blockId →
      (s'.idsOf q).head? ≠ some b.blockId ∧ (s'.idsOf q).take 2 ≠ [m.blockId, b.blockId]

/-- A block that comes up on the list of one peer, and has not been accepted, is on no active peer's list behind a block that
comes up after it. -/
def ListsAgree : Prop :=
  ∀ handed s' m, HandsOver ctx s.resumed.merged handed s' →
    s'.handleMessageCallsInProgress.length < ctx.maximumNumberOfBlocksToHandleAtOneTime →
    s'.comesUp = some m → m.blockId ∉ s'.mostRecentBlocksAccepted →
    ∀ q ∈ s'.activeConnections, ∀ y, [y, m.blockId].Sublist (s'.idsOf q) →
      ∀ later t, HandsOver ctx (s'.handOver m) later t → y ∉ later.map (·.blockId)

/-! ## What a hand-over does -/

section HandOver

variable {ctx : Context} {s s' t t' : NodeState} {m : BlockMessage} {q : PeerId} {handed handed' : List BlockMessage}

theorem forEachPeer_modifyPeer (f : PeerConnection → PeerConnection) {ps : List PeerId} (hps : ps.Nodup) :
    s.forEachPeer ps (fun s q => s.modifyPeer q f) =
      { s with peers := fun q => if q ∈ ps then f (s.peers q) else s.peers q } := by
  induction ps generalizing s with
  | nil => simp [forEachPeer]
  | cons p ps ih =>
    obtain ⟨hp, hps⟩ := List.nodup_cons.mp hps
    have hrest : (s.modifyPeer p f).forEachPeer ps (fun s q => s.modifyPeer q f) = _ := ih hps
    unfold forEachPeer at *
    rw [List.foldl_cons, hrest]
    simp only [modifyPeer, NodeState.mk.injEq, and_true]
    funext q
    by_cases hq : q = p
    · subst hq
      simp [hp]
    · simp [hq]

/-- The connection to a peer whose list begins with a block that is taken up. -/
def taken (m : BlockMessage) (peer : PeerConnection) : PeerConnection :=
  { peer with
    idsOfItemsToGet := peer.idsOfItemsToGet.tail
    idsOfItemsBeingProcessed := insert m.blockId peer.idsOfItemsBeingProcessed }

theorem takeUp_eq (hactive : s.activeConnections.Nodup) :
    s.takeUp m =
      { s with peers := fun q => if q ∈ s.peersOffering m.blockId then taken m (s.peers q) else s.peers q } :=
  forEachPeer_modifyPeer (taken m) (hactive.filter _)

theorem mem_peersOffering {id : ItemHash} :
    q ∈ s.peersOffering id ↔ q ∈ s.activeConnections ∧ (s.idsOf q).head? = some id := by
  simp [peersOffering, idsOf]

theorem idsOf_takeUp (hactive : s.activeConnections.Nodup) (hq : q ∈ s.activeConnections) :
    (s.takeUp m).idsOf q = if (s.idsOf q).head? = some m.blockId then (s.idsOf q).tail else s.idsOf q := by
  rw [takeUp_eq hactive]
  unfold idsOf taken
  dsimp only
  by_cases hhead : (s.idsOf q).head? = some m.blockId
  · rw [if_pos (mem_peersOffering.mpr ⟨hq, hhead⟩)]
    exact (if_pos hhead).symm
  · rw [if_neg fun h => hhead (mem_peersOffering.mp h).2]
    exact (if_neg hhead).symm

/-- What a block leaves behind when it is taken up: the list of an active peer is the same or shorter by this block. -/
theorem takeUp_taken (hactive : s.activeConnections.Nodup) (hq : q ∈ s.activeConnections) :
    ∃ taken, s.idsOf q = taken ++ (s.takeUp m).idsOf q ∧ taken.Sublist [m.blockId] := by
  rw [idsOf_takeUp hactive hq]
  split_ifs with hhead
  · refine ⟨[m.blockId], ?_, List.Sublist.refl _⟩
    cases hids : s.idsOf q with
    | nil => simp [hids] at hhead
    | cons id ids =>
      rw [hids] at hhead
      simp_all
  · exact ⟨[], rfl, List.nil_sublist _⟩

theorem handOver_activeConnections (hactive : s.activeConnections.Nodup) :
    (s.handOver m).activeConnections = s.activeConnections := by
  unfold handOver
  rw [takeUp_eq hactive]

theorem handOver_mostRecentBlocksAccepted (hactive : s.activeConnections.Nodup) :
    (s.handOver m).mostRecentBlocksAccepted = s.mostRecentBlocksAccepted := by
  unfold handOver
  rw [takeUp_eq hactive]

theorem handOver_newReceivedSyncItems (hactive : s.activeConnections.Nodup) :
    (s.handOver m).newReceivedSyncItems = s.newReceivedSyncItems := by
  unfold handOver
  rw [takeUp_eq hactive]

theorem comesUp_received (h : s.comesUp = some m) : m ∈ s.receivedSyncItems := List.mem_of_find?_eq_some h

theorem comesUp_front (h : s.comesUp = some m) :
    ∃ q ∈ s.activeConnections, (s.idsOf q).head? = some m.blockId := by
  have hoffered := List.find?_some h
  simp only [Bool.not_eq_true', List.isEmpty_eq_false_iff_exists_mem] at hoffered
  obtain ⟨q, hq⟩ := hoffered
  exact ⟨q, mem_peersOffering.mp hq⟩

theorem comesUp_eq_none : s.comesUp = none ↔ s.Drained := by
  unfold comesUp Drained
  rw [List.find?_eq_none]
  refine forall₂_congr fun m hm => ?_
  simp only [Bool.not_eq_true', Bool.not_eq_false, List.isEmpty_iff, List.eq_nil_iff_forall_not_mem, mem_peersOffering,
    not_and]

/-! ## Blocks handed over one after the other -/

/-- The hand-overs end where the limit is reached, nothing comes up, or a block that has been accepted does. -/
def Halted (ctx : Context) (s : NodeState) : Prop :=
  s.handleMessageCallsInProgress.length < ctx.maximumNumberOfBlocksToHandleAtOneTime →
    ∀ m, s.comesUp = some m → m.blockId ∈ s.mostRecentBlocksAccepted

theorem HandsOver.halted_unique (h : HandsOver ctx s handed t) (ht : Halted ctx t) (h' : HandsOver ctx s handed' t')
    (ht' : Halted ctx t') : t = t' := by
  induction h generalizing handed' with
  | nil =>
    cases h' with
    | nil => rfl
    | cons hbelow hup hnew _ => exact absurd (ht hbelow _ hup) hnew
  | cons hbelow hup hnew _ ih =>
    cases h' with
    | nil => exact absurd (ht' hbelow _ hup) hnew
    | cons _ hup' _ h' =>
      obtain rfl := Option.some.inj (hup.symm.trans hup')
      exact ih ht h'

/-- What stays the same, and what the calls in progress and the received blocks become. -/
structure HandsOver.Accounts (s : NodeState) (handed : List BlockMessage) (s' : NodeState) : Prop where
  active : s'.activeConnections = s.activeConnections
  accepted : s'.mostRecentBlocksAccepted = s.mostRecentBlocksAccepted
  calls : s'.handleMessageCallsInProgress = handed.reverse ++ s.handleMessageCallsInProgress
  received : (handed ++ s'.receivedSyncItems).Perm s.receivedSyncItems
  taken : ∀ q ∈ s.activeConnections, ∃ taken, s.idsOf q = taken ++ s'.idsOf q ∧
    taken.Sublist (handed.map (·.blockId))

theorem HandsOver.accounts (h : HandsOver ctx s handed s') (hactive : s.activeConnections.Nodup) :
    Accounts s handed s' := by
  induction h with
  | nil => exact ⟨rfl, rfl, rfl, .refl _, fun q _ => ⟨[], rfl, List.nil_sublist _⟩⟩
  | @cons s s' m handed hbelow hup hnew h ih =>
    have hsame := handOver_activeConnections (m := m) hactive
    obtain ⟨hact, hacc, hcalls, hreceived, htaken⟩ := ih (hsame.symm ▸ hactive)
    refine ⟨hact.trans hsame, hacc.trans (handOver_mostRecentBlocksAccepted hactive), ?_, ?_, fun q hq => ?_⟩
    · rw [hcalls]
      simp [handOver]
    · rw [List.cons_append]
      exact (hreceived.cons m).trans (List.perm_cons_erase (comesUp_received hup)).symm
    · obtain ⟨first, hfirst, hsub⟩ := takeUp_taken (m := m) hactive hq
      obtain ⟨rest, hrest, hsub'⟩ := htaken q (hsame.symm ▸ hq)
      have hids : (s.handOver m).idsOf q = (s.takeUp m).idsOf q := rfl
      refine ⟨first ++ rest, ?_, ?_⟩
      · rw [hfirst, ← hids, hrest, List.append_assoc]
      · exact hsub.append hsub'

theorem HandsOver.split {before after : List BlockMessage} (h : HandsOver ctx s (before ++ after) s') :
    ∃ t, HandsOver ctx s before t ∧ HandsOver ctx t after s' := by
  induction before generalizing s with
  | nil => exact ⟨s, .nil, h⟩
  | cons b before ih =>
    cases h with
    | cons hbelow hup hnew h =>
      obtain ⟨t, ht, hrest⟩ := ih h
      exact ⟨t, .cons hbelow hup hnew ht, hrest⟩

theorem HandsOver.append (h : HandsOver ctx s handed t) (h' : HandsOver ctx t handed' t') :
    HandsOver ctx s (handed ++ handed') t' := by
  induction h with
  | nil => exact h'
  | cons hbelow hup hnew _ ih => exact .cons hbelow hup hnew (ih h')

/-- What is handed over in any number of rounds begins what is handed over up to the end. -/
theorem HandsOver.prefix_of_halted (h : HandsOver ctx s handed t) (h' : HandsOver ctx s handed' t') (ht' : Halted ctx t') :
    handed <+: handed' := by
  induction h generalizing handed' with
  | nil => exact List.nil_prefix
  | cons hbelow hup hnew _ ih =>
    cases h' with
    | nil => exact absurd (ht' hbelow _ hup) hnew
    | cons _ hup' _ h' =>
      obtain rfl := Option.some.inj (hup.symm.trans hup')
      exact (List.prefix_cons_inj _).mpr (ih h')

theorem pair_sublist_of_append {x y : ItemHash} {taken rest : List ItemHash} (h : [y, x].Sublist (taken ++ rest))
    (hy : y ∉ taken) : [y, x].Sublist rest := by
  obtain ⟨front, back, heq, hfront, hback⟩ := List.sublist_append_iff.mp h
  cases front with
  | nil =>
    rw [List.nil_append] at heq
    rwa [heq]
  | cons z front =>
    obtain ⟨rfl, -⟩ := List.cons.inj heq
    exact absurd (hfront.subset List.mem_cons_self) hy

theorem split_of_pair_sublist {x y : ItemHash} (h : [x, y].Sublist (handed.map (·.blockId))) :
    ∃ before m after, handed = before ++ m :: after ∧ m.blockId = x ∧ y ∈ after.map (·.blockId) := by
  induction handed with
  | nil => simp at h
  | cons b handed ih =>
    rw [List.map_cons] at h
    rcases List.sublist_cons_iff.mp h with h | ⟨r, hr, h⟩
    · obtain ⟨before, m, after, rfl, hm, hy⟩ := ih h
      exact ⟨b :: before, m, after, rfl, hm, hy⟩
    · obtain ⟨hx, rfl⟩ := List.cons.inj hr
      exact ⟨[], b, handed, rfl, hx.symm, List.singleton_sublist.mp h⟩

/-- Blocks are handed over in the order of every list if and only if the lists agree. -/
theorem listed_iff {handed : List BlockMessage} {s' : NodeState} (hrun : HandsOver ctx s.resumed.merged handed s')
    (hhalted : Halted ctx s') (hactive : s.activeConnections.Nodup) (honce : (handed.map (·.blockId)).Nodup) :
    (∀ x y, [x, y].Sublist (handed.map (·.blockId)) → ∀ q ∈ s.activeConnections, ¬ [y, x].Sublist (s.idsOf q)) ↔
      s.ListsAgree ctx := by
  constructor
  · intro hlisted before t m hbefore hbelow hup hnew q hq y hy later u hlater hmem
    have hpre := (hbefore.append (.cons hbelow hup hnew hlater)).prefix_of_halted hrun hhalted
    have haccounts := hbefore.accounts hactive
    rw [haccounts.active] at hq
    obtain ⟨taken, hids, -⟩ := haccounts.taken q hq
    refine hlisted m.blockId y ?_ q hq ?_
    · refine List.Sublist.trans ?_ (hpre.map (·.blockId)).sublist
      rw [List.map_append, List.map_cons]
      exact (List.Sublist.cons_cons _ (List.singleton_sublist.mpr hmem)).trans (List.sublist_append_right _ _)
    · rw [show s.idsOf q = taken ++ t.idsOf q from hids]
      exact hy.trans (List.sublist_append_right _ _)
  · intro hagree x y hxy q hq hyx
    obtain ⟨before, m, after, rfl, rfl, hy⟩ := split_of_pair_sublist hxy
    obtain ⟨t, hbefore, hrest⟩ := hrun.split
    cases hrest with
    | cons hbelow hup hnew hafter =>
      have haccounts := hbefore.accounts hactive
      obtain ⟨taken, hids, hsub⟩ := haccounts.taken q hq
      refine hagree before t m hbefore hbelow hup hnew q (haccounts.active ▸ hq) y ?_ after _ hafter hy
      rw [show s.idsOf q = taken ++ t.idsOf q from hids] at hyx
      refine pair_sublist_of_append hyx fun htaken => ?_
      rw [List.map_append, List.map_cons] at honce
      exact (List.nodup_append.mp honce).2.2 y (hsub.subset htaken) y (List.mem_cons_of_mem _ hy) rfl

/-! ## A block that has been accepted -/

/-- The block is no longer being processed, and peers that have nothing more to give are asked for more. -/
def settle (ctx : Context) (s : NodeState) (m : BlockMessage) : NodeState :=
  let s := s.takeUp m
  let offering := s.activeConnections.filter fun q => m.blockId ∈ (s.peers q).idsOfItemsBeingProcessed
  let s := s.forEachPeer offering fun s q => s.noLongerProcessing q m.blockId
  s.forEachPeer (offering.filter s.hasNewlyEmptyItemList) (fetchNextBatchOfItemIdsFromPeer ctx)

/-- Nothing changes that the backlog depends on; connections may leave that have no list. -/
structure SameFronts (s s' : NodeState) : Prop where
  received : s'.receivedSyncItems = s.receivedSyncItems
  calls : s'.handleMessageCallsInProgress = s.handleMessageCallsInProgress
  ids : ∀ q, s'.idsOf q = s.idsOf q
  active : s'.activeConnections ⊆ s.activeConnections
  stays : ∀ q ∈ s.activeConnections, s.idsOf q ≠ [] → q ∈ s'.activeConnections

theorem SameFronts.refl (s : NodeState) : s.SameFronts s := ⟨rfl, rfl, fun _ => rfl, List.Subset.refl _, fun _ h _ => h⟩

theorem SameFronts.trans (h : s.SameFronts t) (h' : t.SameFronts t') : s.SameFronts t' where
  received := h'.received.trans h.received
  calls := h'.calls.trans h.calls
  ids q := (h'.ids q).trans (h.ids q)
  active _ hq := h.active (h'.active hq)
  stays q hq hids := h'.stays q (h.stays q hq hids) (h.ids q ▸ hids)

theorem modifyPeer_sameFronts {f : PeerConnection → PeerConnection} {p : PeerId}
    (hf : ∀ peer, (f peer).idsOfItemsToGet = peer.idsOfItemsToGet) : s.SameFronts (s.modifyPeer p f) := by
  refine ⟨rfl, rfl, fun q => ?_, List.Subset.refl _, fun _ h _ => h⟩
  unfold idsOf modifyPeer
  dsimp only
  split_ifs
  · exact hf _
  · rfl

theorem fetchNextBatchOfItemIdsFromPeer_sameFronts {p : PeerId} (hp : s.idsOf p = []) :
    s.SameFronts (s.fetchNextBatchOfItemIdsFromPeer ctx p) := by
  unfold fetchNextBatchOfItemIdsFromPeer
  split
  · exact modifyPeer_sameFronts fun _ => rfl
  · refine ⟨rfl, rfl, fun _ => rfl, ?_, fun q hq hids => ?_⟩
    · simp [disconnectFromPeer, movePeerToClosingList]
    · have hne : q ≠ p := by
        rintro rfl
        exact hids hp
      simpa [disconnectFromPeer, movePeerToClosingList, hne] using hq
  · exact .refl s

theorem forEachPeer_sameFronts {f : NodeState → PeerId → NodeState} {ps : List PeerId}
    (hf : ∀ t : NodeState, (∀ q, t.idsOf q = s.idsOf q) → ∀ p ∈ ps, t.SameFronts (f t p)) : s.SameFronts (s.forEachPeer ps f) := by
  induction ps generalizing s with
  | nil => exact .refl s
  | cons p ps ih =>
    have hfirst := hf s (fun _ => rfl) p (.head ps)
    refine hfirst.trans (ih fun t ht q hq => hf t (fun r => ?_) q (.tail p hq))
    rw [ht, hfirst.ids]

theorem settle_sameFronts : (s.takeUp m).SameFronts (s.settle ctx m) := by
  unfold settle
  dsimp only
  have hprocessed (ps : List PeerId) :
      (s.takeUp m).SameFronts ((s.takeUp m).forEachPeer ps fun s q => s.noLongerProcessing q m.blockId) :=
    forEachPeer_sameFronts fun t _ p _ => modifyPeer_sameFronts fun _ => rfl
  refine (hprocessed _).trans (forEachPeer_sameFronts fun t ht p hp => ?_)
  apply fetchNextBatchOfItemIdsFromPeer_sameFronts
  have hempty := (List.mem_filter.mp hp).2
  simp only [hasNewlyEmptyItemList, Bool.and_eq_true, List.isEmpty_iff] at hempty
  rw [ht]
  exact hempty.1.1

theorem SameFronts.drained_iff (h : s.SameFronts s') : s'.Drained ↔ s.Drained := by
  unfold Drained
  rw [h.received]
  refine forall₂_congr fun m _ => ⟨fun hd q hq hhead => ?_, fun hd q hq => h.ids q ▸ hd q (h.active hq)⟩
  have hids : s.idsOf q ≠ [] := fun hnil => by simp [hnil] at hhead
  exact hd q (h.stays q hq hids) (h.ids q ▸ hhead)

/-! ## The rounds -/

theorem processBacklogRound_eq :
    s.processBacklogRound ctx =
      match s.merged.comesUp with
      | none => (s.merged, false)
      | some m =>
        if (s.merged.takeUp m).mostRecentBlocksAccepted.contains m.blockId then (s.merged.settle ctx m, false)
        else
          ({ s.merged.takeUp m with
              receivedSyncItems := (s.merged.takeUp m).receivedSyncItems.erase m
              handleMessageCallsInProgress := m :: (s.merged.takeUp m).handleMessageCallsInProgress }, true) := rfl

theorem processBacklogRound_of_none (h : s.merged.comesUp = none) : s.processBacklogRound ctx = (s.merged, false) := by
  rw [processBacklogRound_eq, h]

theorem processBacklogRound_of_accepted (hactive : s.activeConnections.Nodup) (h : s.merged.comesUp = some m)
    (haccepted : m.blockId ∈ s.mostRecentBlocksAccepted) :
    s.processBacklogRound ctx = (s.merged.settle ctx m, false) := by
  rw [processBacklogRound_eq, h]
  apply if_pos
  rw [takeUp_eq (show s.merged.activeConnections.Nodup from hactive)]
  exact List.contains_iff_mem.mpr haccepted

theorem processBacklogRound_of_new (hactive : s.activeConnections.Nodup) (h : s.merged.comesUp = some m)
    (hnew : m.blockId ∉ s.mostRecentBlocksAccepted) :
    s.processBacklogRound ctx = (s.merged.handOver m, true) := by
  rw [processBacklogRound_eq, h]
  dsimp only
  unfold handOver
  rw [takeUp_eq (show s.merged.activeConnections.Nodup from hactive)]
  apply if_neg
  exact fun h => hnew (List.contains_iff_mem.mp h)

/-- How the loop ends once the blocks have been handed over. -/
inductive Ended (ctx : Context) (s : NodeState) : NodeState → Prop
  | full (hfull : ctx.maximumNumberOfBlocksToHandleAtOneTime ≤ s.handleMessageCallsInProgress.length) (suspend : Bool) :
      Ended ctx s { s with suspendFetchingSyncBlocks := suspend }
  | idle (hidle : s.comesUp = none) : Ended ctx s s
  | accepted {m : BlockMessage}
      (hbelow : s.handleMessageCallsInProgress.length < ctx.maximumNumberOfBlocksToHandleAtOneTime)
      (hup : s.comesUp = some m) (haccepted : m.blockId ∈ s.mostRecentBlocksAccepted) : Ended ctx s (s.settle ctx m)

theorem merged_handOver (hactive : s.activeConnections.Nodup) (h : s.newReceivedSyncItems = []) :
    (s.handOver m).merged = s.handOver m := by
  have hnew := (handOver_newReceivedSyncItems (m := m) hactive).trans h
  unfold merged
  rw [hnew, List.reverse_nil, List.nil_append, ← hnew]

theorem processBacklogLoop_ends (fuel : Nat) (hactive : s.activeConnections.Nodup)
    (hbelow : s.handleMessageCallsInProgress.length < ctx.maximumNumberOfBlocksToHandleAtOneTime)
    (hfuel : s.merged.receivedSyncItems.length < fuel) :
    BacklogLoop ctx s (processBacklogLoop ctx fuel s) ∧
      ∃ handed s', HandsOver ctx s.merged handed s' ∧ Ended ctx s' (processBacklogLoop ctx fuel s) := by
  induction fuel generalizing s with
  | zero => omega
  | succ fuel ih =>
    unfold processBacklogLoop
    dsimp only
    cases hup : s.merged.comesUp with
    | none =>
      have hround : s.processBacklogRound ctx = _ := processBacklogRound_of_none hup
      have hcalls : (s.processBacklogRound ctx).1.handleMessageCallsInProgress = s.handleMessageCallsInProgress := by
        rw [hround]
        rfl
      have hloop : BacklogLoop ctx s (s.processBacklogRound ctx).1 := .done (hcalls ▸ hbelow) (by rw [hround])
      rw [if_neg (by rw [hcalls]; omega), if_neg (by simp [hround])]
      refine ⟨hloop, [], s.merged, .nil, ?_⟩
      rw [hround]
      exact .idle hup
    | some m =>
      by_cases haccepted : m.blockId ∈ s.mostRecentBlocksAccepted
      · have htake : s.merged.takeUp m = _ := takeUp_eq hactive
        have hround : s.processBacklogRound ctx = _ := processBacklogRound_of_accepted hactive hup haccepted
        have hcalls : (s.processBacklogRound ctx).1.handleMessageCallsInProgress = s.handleMessageCallsInProgress := by
          rw [hround]
          dsimp only
          rw [settle_sameFronts.calls, htake]
          rfl
        have hloop : BacklogLoop ctx s (s.processBacklogRound ctx).1 := .done (hcalls ▸ hbelow) (by rw [hround])
        rw [if_neg (by rw [hcalls]; omega), if_neg (by simp [hround])]
        refine ⟨hloop, [], s.merged, .nil, ?_⟩
        rw [hround]
        exact .accepted hbelow hup haccepted
      · have hround : s.processBacklogRound ctx = _ := processBacklogRound_of_new hactive hup haccepted
        have hfirst : HandsOver ctx s.merged [m] (s.merged.handOver m) := .cons hbelow hup haccepted .nil
        have hsame : (s.merged.handOver m).merged = _ := merged_handOver hactive rfl
        by_cases hfull : ctx.maximumNumberOfBlocksToHandleAtOneTime ≤
            (s.processBacklogRound ctx).1.handleMessageCallsInProgress.length
        · rw [if_pos hfull]
          refine ⟨.full hfull, [m], s.merged.handOver m, hfirst, ?_⟩
          rw [hround] at hfull ⊢
          split_ifs
          · exact .full hfull true
          · exact .full hfull (s.merged.handOver m).suspendFetchingSyncBlocks
        · rw [if_neg hfull, if_pos (by rw [hround])]
          have hleft : (s.merged.handOver m).merged.receivedSyncItems.length < fuel := by
            rw [hsame]
            have hmem := comesUp_received hup
            have herase : (s.merged.handOver m).receivedSyncItems = s.merged.receivedSyncItems.erase m := rfl
            rw [herase, List.length_erase_of_mem hmem]
            have := List.length_pos_of_mem hmem
            omega
          have hactive' : (s.merged.handOver m).activeConnections.Nodup := by
            rw [handOver_activeConnections (show s.merged.activeConnections.Nodup from hactive)]
            exact hactive
          have hbelow' : (s.merged.handOver m).handleMessageCallsInProgress.length <
              ctx.maximumNumberOfBlocksToHandleAtOneTime := by
            rw [hround] at hfull
            exact Nat.lt_of_not_le hfull
          have hrest := ih hactive' hbelow' hleft
          rw [hsame] at hrest
          obtain ⟨hloop, handed, s', hrun, hended⟩ := hrest
          refine ⟨.again (Nat.lt_of_not_le hfull) (by rw [hround]) (by rw [hround]; exact hloop), m :: handed, s', ?_, ?_⟩
          · exact .cons hbelow hup haccepted hrun
          · rw [hround]
            exact hended

/-! ## The backlog is drained, or held up -/

theorem head?_behind_iff {x b : ItemHash} {ids : List ItemHash} (hnodup : ids.Nodup) :
    (if ids.head? = some x then ids.tail else ids).head? ≠ some b ↔
      (b ≠ x → ids.head? ≠ some b ∧ ids.take 2 ≠ [x, b]) := by
  match ids with
  | [] => simp
  | [id] => by_cases hid : id = x <;> grind
  | id :: id' :: ids => by_cases hid : id = x <;> grind

theorem settle_drained_iff (hactive : s.activeConnections.Nodup)
    (hlists : ∀ q ∈ s.activeConnections, (s.idsOf q).Nodup) :
    (s.settle ctx m).Drained ↔
      ∀ b ∈ s.receivedSyncItems, ∀ q ∈ s.activeConnections, b.blockId ≠ m.blockId →
        (s.idsOf q).head? ≠ some b.blockId ∧ (s.idsOf q).take 2 ≠ [m.blockId, b.blockId] := by
  have htake := takeUp_eq (m := m) hactive
  have hreceived : (s.takeUp m).receivedSyncItems = s.receivedSyncItems := by rw [htake]
  have hsame : (s.takeUp m).activeConnections = s.activeConnections := by rw [htake]
  rw [settle_sameFronts.drained_iff]
  unfold Drained
  rw [hreceived, hsame]
  refine forall₂_congr fun b _ => forall₂_congr fun q hq => ?_
  rw [idsOf_takeUp hactive hq]
  exact head?_behind_iff (hlists q hq)

theorem run_taken (h : HandsOver ctx s handed s') (hactive : s.activeConnections.Nodup) (hended : Ended ctx s' t)
    (hq : q ∈ s.activeConnections) :
    ∃ taken, s.idsOf q = taken ++ t.idsOf q ∧
      (taken.filter fun id => !s.mostRecentBlocksAccepted.contains id).Sublist (handed.map (·.blockId)) := by
  have haccounts := h.accounts hactive
  obtain ⟨first, hfirst, hsub⟩ := haccounts.taken q hq
  cases hended with
  | full _ suspend => exact ⟨first, hfirst, (List.filter_sublist).trans hsub⟩
  | idle _ => exact ⟨first, hfirst, (List.filter_sublist).trans hsub⟩
  | @accepted m _ _ haccepted =>
    have hactive' : s'.activeConnections.Nodup := haccounts.active ▸ hactive
    obtain ⟨last, hlast, hsub'⟩ := takeUp_taken (m := m) hactive' (haccounts.active ▸ hq)
    have hnone : (last.filter fun id => !s.mostRecentBlocksAccepted.contains id) = [] := by
      rw [List.filter_eq_nil_iff]
      intro id hid
      obtain rfl := List.mem_singleton.mp (hsub'.subset hid)
      rw [haccounts.accepted] at haccepted
      simpa using haccepted
    refine ⟨first ++ last, ?_, ?_⟩
    · rw [hfirst, hlast, settle_sameFronts.ids, List.append_assoc]
    · rw [List.filter_append, hnone, List.append_nil]
      exact List.filter_sublist.trans hsub

theorem Ended.calls (hactive : s.activeConnections.Nodup) (h : Ended ctx s t) :
    t.handleMessageCallsInProgress = s.handleMessageCallsInProgress := by
  cases h with
  | full => rfl
  | idle => rfl
  | accepted =>
    rw [settle_sameFronts.calls, takeUp_eq hactive]

theorem Ended.halted (h : Ended ctx s t) : Halted ctx s := by
  intro hbelow m hup
  cases h with
  | full hfull => omega
  | idle hidle =>
    simp [hidle] at hup
  | accepted _ hup' haccepted =>
    obtain rfl := Option.some.inj (hup.symm.trans hup')
    exact haccepted

/-- Where the loop ends, what is left is drained if and only if nothing is held up by a block that was accepted. -/
theorem Ended.drained_iff (hactive : s.activeConnections.Nodup)
    (hlists : ∀ q ∈ s.activeConnections, (s.idsOf q).Nodup) (h : Ended ctx s t) :
    (t.handleMessageCallsInProgress.length < ctx.maximumNumberOfBlocksToHandleAtOneTime → t.Drained) ↔
      ∀ m, s.handleMessageCallsInProgress.length < ctx.maximumNumberOfBlocksToHandleAtOneTime → s.comesUp = some m →
        ∀ b ∈ s.receivedSyncItems, ∀ q ∈ s.activeConnections, b.blockId ≠ m.blockId →
          (s.idsOf q).head? ≠ some b.blockId ∧ (s.idsOf q).take 2 ≠ [m.blockId, b.blockId] := by
  have hcalls := h.calls hactive
  rw [hcalls]
  cases h with
  | full hfull =>
    constructor
    · exact fun _ m hbelow => absurd hbelow (by omega)
    · exact fun _ hbelow => absurd hbelow (by omega)
  | idle hidle =>
    rw [hidle]
    exact ⟨fun _ m _ h => by simp at h, fun _ _ => comesUp_eq_none.mp hidle⟩
  | @accepted m hbelow hup haccepted =>
    rw [settle_drained_iff hactive hlists]
    constructor
    · intro hd m' _ hup'
      obtain rfl := Option.some.inj (hup.symm.trans hup')
      exact hd hbelow
    · exact fun hd _ => hd m hbelow hup

/-- At the limit of calls nothing comes up. -/
theorem not_below_of_full {handed : List BlockMessage} {s s' : NodeState}
    (hfull : ctx.maximumNumberOfBlocksToHandleAtOneTime ≤ s.handleMessageCallsInProgress.length)
    (hrun : HandsOver ctx s.resumed.merged handed s') :
    ¬ s'.handleMessageCallsInProgress.length < ctx.maximumNumberOfBlocksToHandleAtOneTime := by
  intro hbelow
  cases hrun with
  | nil => exact absurd hbelow (by simpa [merged, resumed] using hfull)
  | cons hbelow' => exact absurd hbelow' (by simpa [merged, resumed] using hfull)

/-- At the limit of calls the backlog is left as it is. -/
theorem backlogDrained_of_full {s : NodeState}
    (hfull : ctx.maximumNumberOfBlocksToHandleAtOneTime ≤ s.handleMessageCallsInProgress.length) : s.BacklogDrained ctx := by
  have hsame : s.processBacklogOfSyncBlocks ctx = s := if_pos hfull
  refine ⟨.inl hfull, ⟨[], ?_, by simp, by simp, ⟨fun q _ => ⟨[], ?_, by simp⟩, fun x y hxy => ?_⟩⟩, ?_⟩
  · rw [hsame]
    rfl
  · rw [hsame]
    rfl
  · simp at hxy
  · rw [hsame]
    omega

end HandOver

end NodeState

/-- One peer with two blocks to give, both of which have been received. -/
def backlogNode (accepted : List ItemHash) : NodeState :=
  { NodeState.init with
    peers := fun _ => { idsOfItemsToGet := [⟨1, 5⟩, ⟨2, 5⟩] }
    activeConnections := [0]
    newReceivedSyncItems := [⟨⟨2, 5⟩, 2, 6⟩, ⟨⟨1, 5⟩, 1, 3⟩]
    mostRecentBlocksAccepted := accepted }

theorem backlogNode_listed (accepted : List ItemHash) :
    ∀ q ∈ (backlogNode accepted).activeConnections, ((backlogNode accepted).idsOf q).Nodup :=
  fun _ _ => show ([⟨1, 5⟩, ⟨2, 5⟩] : List ItemHash).Nodup by decide

/-- One peer gives the second block, and another one both. -/
def quarrelNode : NodeState :=
  { NodeState.init with
    peers := fun q => if q = 0 then { idsOfItemsToGet := [⟨2, 5⟩] } else { idsOfItemsToGet := [⟨1, 5⟩, ⟨2, 5⟩] }
    activeConnections := [0, 1]
    receivedSyncItems := [⟨⟨2, 5⟩, 2, 6⟩, ⟨⟨1, 5⟩, 1, 3⟩] }

/-- **A block goes before the one below it** where a peer lists it alone. -/
theorem backlog_out_of_order : ¬ quarrelNode.BacklogDrained quietContext := by
  intro h
  obtain ⟨handed, hcalls, -, -, horder⟩ := h.ordered
  have hrun : (quarrelNode.processBacklogOfSyncBlocks quietContext).handleMessageCallsInProgress =
      [⟨⟨1, 5⟩, 1, 3⟩, ⟨⟨2, 5⟩, 2, 6⟩] := by decide +kernel
  rw [hrun, show quarrelNode.handleMessageCallsInProgress = [] from rfl, List.append_nil] at hcalls
  have hhanded : handed = [⟨⟨2, 5⟩, 2, 6⟩, ⟨⟨1, 5⟩, 1, 3⟩] := by rw [← handed.reverse_reverse, ← hcalls, List.reverse_cons,
    List.reverse_cons, List.reverse_nil, List.nil_append, List.singleton_append]
  rw [hhanded] at horder
  exact horder.listed ⟨2, 5⟩ ⟨1, 5⟩ (List.Sublist.refl _) 1 (by decide) (List.Sublist.refl _)

end Graphene
