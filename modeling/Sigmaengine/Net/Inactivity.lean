import Mathlib.Data.Finset.SDiff
import Mathlib.Data.List.TakeWhile
import Sigmaengine.Net.Handshake

/-!
# Inactive connections

`terminate_inactive_connections_loop` goes through the connections once a second and drops those that have been silent,
or have not answered a request, for too long.  It goes by a dozen times that are kept with each connection.  The loop
over the active connections ends at the first peer with overdue sync items, and `close_connection` writes the time of a
termination only over one that is there already.
-/

namespace Graphene

/-- `fc::time_point::min`, which is also the default of a `time_point`. -/
def timeMin : Time := 0

/-- The times of a `peer_connection`, and the flags that go with them. -/
structure PeerTimes where
  connectionInitiationTime : Time := timeMin
  connectionClosedTime : Time := timeMin
  connectionTerminatedTime : Time := timeMin
  lastMessageReceivedTime : Time := timeMin
  lastMessageSentTime : Time := timeMin
  /-- When a sync item came, or a batch of them was requested. -/
  lastSyncItemReceivedTime : Time := timeMin
  /-- When the request in `item_ids_requested_from_peer` was sent. -/
  itemIdsRequestedTime : Time := timeMin
  /-- When each item of `items_requested_from_peer` was requested. -/
  itemRequestedTime : ItemId → Time := fun _ => timeMin
  currentlyHandlingMessage : Bool := false
  theyHaveRequestedClose : Bool := false
  weHaveRequestedClose : Bool := false

/-- `close_connection`, but for the socket. -/
def PeerTimes.closeConnection (t : PeerTimes) (now : Time) : PeerTimes :=
  if t.connectionTerminatedTime ≠ timeMin then { t with connectionTerminatedTime := now } else t

/-- The node with the times of its connections; `closeCalled` is a ghost, the last call of `close_connection`. -/
structure TimedNode where
  node : NodeState
  times : PeerId → PeerTimes
  closeCalled : PeerId → Option Time

/-- The time lies more than `n` seconds back. -/
def overSince (now : Time) (n : Nat) (t : Time) : Bool := t + n * 1000000 < now

/-! ## Timeouts -/

def peerHandshakeInactivityTimeout : Nat := 5
def peerDisconnectTimeout : Nat := 20
def activeDisconnectTimeout : Nat := 10 * blockInterval
def activeSendKeepaliveTimeout : Nat := activeDisconnectTimeout / 2
def activeIgnoredRequestTimeout : Nat := 1
def failedTerminateTimeout : Nat := 120

/-! ## The loop -/

/-- What is to become of the active peers. -/
structure SortedPeers where
  disconnectGently : List PeerId := []
  disconnectForcibly : List PeerId := []
  sendKeepAlive : List PeerId := []

namespace TimedNode

variable (s : TimedNode) (now : Time)

def handshakeTimedOut (p : PeerId) : Bool :=
  overSince now peerHandshakeInactivityTimeout (s.times p).connectionInitiationTime &&
    overSince now peerHandshakeInactivityTimeout (s.times p).lastMessageReceivedTime &&
    overSince now peerHandshakeInactivityTimeout (s.times p).lastMessageSentTime

def silentFor (n : Nat) (p : PeerId) : Bool :=
  overSince now n (s.times p).connectionInitiationTime && overSince now n (s.times p).lastMessageReceivedTime

/-- The peer is disconnected for inactivity. -/
def inactive (p : PeerId) : Bool := s.silentFor now activeDisconnectTimeout p

def syncItemsOverdue (p : PeerId) : Bool :=
  !decide ((s.node.peers p).syncItemsRequestedFromPeer = ∅) &&
    overSince now activeIgnoredRequestTimeout (s.times p).lastSyncItemReceivedTime

def itemIdsOverdue (p : PeerId) : Bool :=
  (s.node.peers p).itemIdsRequestedFromPeer.isSome &&
    overSince now activeIgnoredRequestTimeout (s.times p).itemIdsRequestedTime

def itemOverdue (p : PeerId) : Bool :=
  (s.node.peers p).itemsRequestedFromPeer.any fun item =>
    overSince now activeIgnoredRequestTimeout ((s.times p).itemRequestedTime item)

/-- We think that we need blocks from the peer, but do not ask for any. -/
def syncStalled (p : PeerId) : Bool :=
  (s.node.peers p).weNeedSyncItemsFromPeer && !(s.times p).currentlyHandlingMessage &&
    (s.node.peers p).itemIdsRequestedFromPeer.isNone && (s.node.peers p).idsOfItemsToGet.isEmpty

/-- The loop over the active connections. -/
def sortActive : List PeerId → SortedPeers → SortedPeers
  | [], l => l
  | p :: ps, l =>
    if s.inactive now p then sortActive ps { l with disconnectGently := l.disconnectGently ++ [p] }
    else if s.syncItemsOverdue now p then l -- the `break` ends the loop over the peers
    else if s.itemIdsOverdue now p || s.itemOverdue now p then
      sortActive ps { l with disconnectForcibly := l.disconnectForcibly ++ [p] }
    else if s.silentFor now activeSendKeepaliveTimeout p then
      sortActive ps { l with sendKeepAlive := l.sendKeepAlive ++ [p] }
    else if s.syncStalled p then sortActive ps { l with disconnectForcibly := l.disconnectForcibly ++ [p] }
    else sortActive ps l

def sortedActive : SortedPeers := s.sortActive now s.node.activeConnections {}

def peersToDisconnectForcibly : Finset PeerId :=
  s.node.handshakingConnections.filter (fun p => s.handshakeTimedOut now p) ∪
    (s.sortedActive now).disconnectForcibly.toFinset ∪
    s.node.closingConnections.filter fun p => overSince now peerDisconnectTimeout (s.times p).connectionClosedTime

def peersToTerminate : Finset PeerId :=
  s.node.terminatingConnections.filter fun p =>
    (s.times p).connectionTerminatedTime ≠ timeMin ∧
      overSince now failedTerminateTimeout (s.times p).connectionTerminatedTime

/-- The peers leave the terminating list, to be deleted. -/
def terminated (ps : Finset PeerId) : TimedNode :=
  { s with node := { s.node with terminatingConnections := s.node.terminatingConnections \ ps } }

def closeConnections (ps : Finset PeerId) : TimedNode :=
  { s with
    times := fun p => if p ∈ ps then (s.times p).closeConnection now else s.times p
    closeCalled := fun p => if p ∈ ps then some now else s.closeCalled p }

/-- `move_peer_to_terminating_list` and `close_connection` for each of the peers; the order makes no difference. -/
def disconnectForcibly (ps : Finset PeerId) : TimedNode :=
  { s.closeConnections now ps with
    node := { s.node with
      activeConnections := s.node.activeConnections.filter fun p => p ∉ ps
      handshakingConnections := s.node.handshakingConnections \ ps
      closingConnections := s.node.closingConnections \ ps
      terminatingConnections := s.node.terminatingConnections ∪ ps } }

/-- `disconnect_from_peer`. -/
def disconnectFromPeer (p : PeerId) : TimedNode :=
  let s := { s with node := s.node.disconnectFromPeer p }
  if (s.times p).theyHaveRequestedClose then s.closeConnections now {p}
  else
    { s with times := fun q =>
        if q = p then { s.times q with weHaveRequestedClose := true, connectionClosedTime := now } else s.times q }

/-- One run of the loop, and the peers it schedules for deletion.  A message to keep a connection alive changes nothing
here. -/
def terminateInactiveConnections : TimedNode × Finset PeerId :=
  let dropped := (s.terminated (s.peersToTerminate now)).disconnectForcibly now (s.peersToDisconnectForcibly now)
  ((s.sortedActive now).disconnectGently.foldl (fun s p => s.disconnectFromPeer now p) dropped, s.peersToTerminate now)

/-! ## Stalled peers are dropped -/

/-- A request to the peer is overdue, and the peer is not disconnected for inactivity. -/
def Overdue (p : PeerId) : Prop :=
  s.inactive now p = false ∧
    (s.syncItemsOverdue now p = true ∨ s.itemIdsOverdue now p = true ∨ s.itemOverdue now p = true)

structure StalledDropped : Prop where
  overdue : ∀ p ∈ s.node.activeConnections, s.Overdue now p →
    p ∈ (s.terminateInactiveConnections now).1.node.terminatingConnections
  failed : ∀ p ∈ s.node.terminatingConnections, ∀ called, s.closeCalled p = some called →
    overSince now failedTerminateTimeout called = true → p ∈ (s.terminateInactiveConnections now).2

/-- What `close_connection` leaves behind: the time of the call, or no time. -/
def CloseRecorded : Prop :=
  ∀ p called, s.closeCalled p = some called →
    (s.times p).connectionTerminatedTime = timeMin ∨ (s.times p).connectionTerminatedTime = called

section Loop

variable {s : TimedNode} {now : Time} {p : PeerId} {ps : List PeerId} {l : SortedPeers}

/-- The peers the loop comes to before it ends. -/
def reached (s : TimedNode) (now : Time) (ps : List PeerId) : List PeerId :=
  ps.takeWhile fun p => s.inactive now p || !s.syncItemsOverdue now p

theorem mem_reached_cons {q : PeerId} :
    p ∈ s.reached now (q :: ps) ↔
      (s.inactive now q = true ∨ s.syncItemsOverdue now q = false) ∧ (p = q ∨ p ∈ s.reached now ps) := by
  unfold reached
  rw [List.takeWhile_cons]
  split_ifs with hq
  · simp_all
  · simp_all

theorem mem_sortActive_disconnectGently :
    p ∈ (s.sortActive now ps l).disconnectGently ↔
      p ∈ l.disconnectGently ∨ p ∈ s.reached now ps ∧ s.inactive now p = true := by
  induction ps generalizing l with
  | nil => simp [sortActive, reached]
  | cons q ps ih =>
    unfold sortActive
    rw [mem_reached_cons]
    split_ifs with hin hsync hrequest hsilent hstalled
    · rw [ih, List.mem_append, List.mem_singleton]
      grind
    · grind
    · rw [ih]
      grind
    · rw [ih]
      grind
    · rw [ih]
      grind
    · rw [ih]
      grind

theorem mem_sortActive_disconnectForcibly :
    p ∈ (s.sortActive now ps l).disconnectForcibly ↔
      p ∈ l.disconnectForcibly ∨ p ∈ s.reached now ps ∧ s.inactive now p = false ∧
        (s.itemIdsOverdue now p = true ∨ s.itemOverdue now p = true ∨
          s.silentFor now activeSendKeepaliveTimeout p = false ∧ s.syncStalled p = true) := by
  induction ps generalizing l with
  | nil => simp [sortActive, reached]
  | cons q ps ih =>
    unfold sortActive
    rw [mem_reached_cons]
    split_ifs with hin hsync hrequest hsilent hstalled
    · rw [ih]
      grind
    · grind
    · rw [ih, List.mem_append, List.mem_singleton]
      grind
    · rw [ih]
      grind
    · rw [ih, List.mem_append, List.mem_singleton]
      grind
    · rw [ih]
      grind

theorem of_mem_reached (h : p ∈ s.reached now ps) : s.inactive now p = true ∨ s.syncItemsOverdue now p = false := by
  have hp := List.mem_takeWhile_imp h
  simpa using hp

theorem foldl_disconnectFromPeer_subset (ps : List PeerId) (s : TimedNode) :
    (ps.foldl (fun s p => s.disconnectFromPeer now p) s).node.terminatingConnections ⊆ s.node.terminatingConnections := by
  induction ps generalizing s with
  | nil => exact Finset.Subset.refl _
  | cons q ps ih =>
    refine (ih (s.disconnectFromPeer now q)).trans ?_
    unfold disconnectFromPeer
    dsimp only
    split_ifs <;> exact Finset.erase_subset _ _

theorem mem_foldl_disconnectFromPeer {ps : List PeerId} (s : TimedNode) (hp : p ∉ ps)
    (h : p ∈ s.node.terminatingConnections) :
    p ∈ (ps.foldl (fun s p => s.disconnectFromPeer now p) s).node.terminatingConnections := by
  induction ps generalizing s with
  | nil => exact h
  | cons q ps ih =>
    obtain ⟨hq, hp⟩ := not_or.mp (fun hm => hp (List.mem_cons.mpr hm))
    apply ih _ hp
    unfold disconnectFromPeer
    dsimp only
    split_ifs <;> exact Finset.mem_erase.mpr ⟨hq, h⟩

/-- The loop terminates the peers with an overdue request if and only if it gets past each of the active peers. -/
theorem overdue_dropped_iff (hapart : s.node.Apart) :
    (∀ p ∈ s.node.activeConnections, s.Overdue now p →
        p ∈ (s.terminateInactiveConnections now).1.node.terminatingConnections) ↔
      ∀ p ∈ s.node.activeConnections, s.inactive now p = false → s.syncItemsOverdue now p = false := by
  constructor
  · intro h p hp hactive
    by_contra hoverdue
    rw [Bool.not_eq_false] at hoverdue
    obtain ⟨hhandshaking, hclosing, hterminating⟩ := hapart p hp
    have hdropped := foldl_disconnectFromPeer_subset _ _ (h p hp ⟨hactive, .inl hoverdue⟩)
    simp only [disconnectForcibly, terminated, peersToDisconnectForcibly, Finset.mem_union, Finset.mem_sdiff,
      Finset.mem_filter, List.mem_toFinset, hhandshaking, hclosing, hterminating, false_and, false_or, or_false] at hdropped
    rcases mem_sortActive_disconnectForcibly.mp hdropped with hnone | ⟨hreached, -⟩
    · simp at hnone
    · rcases of_mem_reached hreached with hin | hin <;> simp_all
  · intro h p hp ⟨hactive, hoverdue⟩
    have hall : s.reached now s.node.activeConnections = s.node.activeConnections := by
      apply List.takeWhile_eq_self_iff.mpr
      intro q hq
      cases hin : s.inactive now q with
      | true => rfl
      | false => simp [h q hq hin]
    have hrequest : s.itemIdsOverdue now p = true ∨ s.itemOverdue now p = true := by
      rcases hoverdue with hsync | hrequest
      · rw [h p hp hactive] at hsync
        exact absurd hsync (by simp)
      · exact hrequest
    have hforcibly : p ∈ (s.sortedActive now).disconnectForcibly := by
      refine mem_sortActive_disconnectForcibly.mpr (.inr ⟨hall.symm ▸ hp, hactive, ?_⟩)
      rcases hrequest with hids | hitem
      · exact .inl hids
      · exact .inr (.inl hitem)
    apply mem_foldl_disconnectFromPeer
    · intro hgently
      rcases mem_sortActive_disconnectGently.mp hgently with hnone | ⟨-, hin⟩
      · simp at hnone
      · rw [hactive] at hin
        exact absurd hin (by simp)
    · simp [disconnectForcibly, peersToDisconnectForcibly, hforcibly]

theorem failed_scheduled_iff (hrecorded : s.CloseRecorded) :
    (∀ p ∈ s.node.terminatingConnections, ∀ called, s.closeCalled p = some called →
        overSince now failedTerminateTimeout called = true → p ∈ (s.terminateInactiveConnections now).2) ↔
      ∀ p ∈ s.node.terminatingConnections, ∀ called, s.closeCalled p = some called →
        overSince now failedTerminateTimeout called = true → (s.times p).connectionTerminatedTime ≠ timeMin := by
  refine forall₂_congr fun p hp => forall₂_congr fun called hcalled => forall_congr' fun hover => ?_
  simp only [terminateInactiveConnections, peersToTerminate, Finset.mem_filter, hp, true_and]
  constructor
  · exact And.left
  · intro hstamped
    rcases hrecorded p called hcalled with hnone | hsome
    · exact absurd hnone hstamped
    · exact ⟨hstamped, by rw [hsome]; exact hover⟩

/-- **Stalled peers are dropped** if and only if none of the active peers, but those that are inactive, has overdue
sync items, and each of the terminating peers that `close_connection` has failed for has a time of its termination. -/
theorem stalledDropped_iff (s : TimedNode) (now : Time) (hapart : s.node.Apart) (hrecorded : s.CloseRecorded) :
    s.StalledDropped now ↔
      (∀ p ∈ s.node.activeConnections, s.inactive now p = false → s.syncItemsOverdue now p = false) ∧
        ∀ p ∈ s.node.terminatingConnections, ∀ called, s.closeCalled p = some called →
          overSince now failedTerminateTimeout called = true → (s.times p).connectionTerminatedTime ≠ timeMin := by
  rw [← overdue_dropped_iff hapart, ← failed_scheduled_iff hrecorded]
  exact ⟨fun h => ⟨h.overdue, h.failed⟩, fun h => ⟨h.1, h.2⟩⟩

end Loop

/-! ## Runs -/

/-- The node takes a step, in which any times but those of terminations may be written; it closes connections; or the
loop makes a run. -/
inductive Run (node : NodeIdentity) : TimedNode → Prop
  | start : Run node { node := .init, times := fun _ => {}, closeCalled := fun _ => none }
  | step {s : TimedNode} (h : Run node s) (c : Call) (times : PeerId → PeerTimes)
      (hsame : ∀ p, (times p).connectionTerminatedTime = (s.times p).connectionTerminatedTime) :
      Run node { s with node := next node s.node c, times := times }
  | closeConnections {s : TimedNode} (h : Run node s) (now : Time) (ps : Finset PeerId) :
      Run node (s.closeConnections now ps)
  | terminateInactiveConnections {s : TimedNode} (h : Run node s) (now : Time) :
      Run node (s.terminateInactiveConnections now).1

section Runs

variable {node : NodeIdentity} {s s' : TimedNode} {now : Time} {p : PeerId}

theorem step_apart {t : NodeState} (hinorder : t.InOrder) (h : t.Apart) (c : Call) : (next node t c).Apart := by
  have hkept {X : Finset Part} {t t' : NodeState} (hkept : t.Kept X t') (hX : Part.links ∉ X) (h : t.Apart) :
      t'.Apart := (hkept.links hX).apart h
  cases NodeState.step_links node c.ctx (fun p hp => hinorder.known p (.inl hp)) c.event with
  | kept X hX hsame => exact hkept hsame hX h
  | created firewallCheck hs' =>
    unfold next
    rw [hs']
    intro p hp
    obtain ⟨hhandshaking, hclosing, hterminating⟩ := h p hp
    have hlt := hinorder.known p (.inr (.inr (.inl hp)))
    refine ⟨?_, hclosing, hterminating⟩
    simp only [NodeState.newPeer, Finset.mem_insert, not_or]
    exact ⟨hlt.ne, hhandshaking⟩
  | established p hp direction secret hsame => exact hkept hsame (by simp) fun q hq => h q hq
  | heard p hp m he hstate hsame => exact hkept hsame (by simp) fun q hq => h q hq
  | answered p hp m he hstate x hsame hx => exact hkept hsame (by simp) fun q hq => h q hq
  | promoted p hp m he hm t' ht hpt hsame =>
    refine hkept hsame (by simp) fun q hq => ?_
    have hapart := hkept ht (by simp) h
    simp only [NodeState.movePeerToActiveList, List.mem_insert_iff] at hq
    simp only [NodeState.movePeerToActiveList, Finset.mem_erase, not_and]
    rcases hq with rfl | hq
    · simp
    · obtain ⟨hhandshaking, hclosing, hterminating⟩ := hapart q hq
      exact ⟨fun _ => hhandshaking, fun _ => hclosing, fun _ => hterminating⟩
  | closed p hp he t' ht hsame =>
    refine hkept hsame (by simp) ?_
    subst ht
    exact fun q hq => h q hq

theorem closeConnection_unstamped {t : PeerTimes} (h : t.connectionTerminatedTime = timeMin) :
    (t.closeConnection now).connectionTerminatedTime = timeMin := by
  simp [PeerTimes.closeConnection, h]

/-- What holds in every run: the lists are apart, and no connection has a time of its termination. -/
structure Unstamped (s : TimedNode) : Prop where
  inOrder : s.node.InOrder
  apart : s.node.Apart
  unstamped : ∀ p, (s.times p).connectionTerminatedTime = timeMin

theorem Unstamped.links (h : s.Unstamped) (hpeers : s'.node.peers = s.node.peers) (hlinks : s.node.LinksKept s'.node)
    (hunstamped : ∀ p, (s'.times p).connectionTerminatedTime = timeMin) : s'.Unstamped where
  inOrder := h.inOrder.links hlinks fun q _ hq => by rwa [hpeers] at hq
  apart := hlinks.apart h.apart
  unstamped := hunstamped

theorem Unstamped.closeConnections (h : s.Unstamped) (ps : Finset PeerId) : (s.closeConnections now ps).Unstamped := by
  refine h.links rfl (NodeState.LinksKept.refl s.node) fun p => ?_
  unfold TimedNode.closeConnections
  dsimp only
  split_ifs
  · exact closeConnection_unstamped (h.unstamped p)
  · exact h.unstamped p

theorem Unstamped.terminated (h : s.Unstamped) (ps : Finset PeerId) : (s.terminated ps).Unstamped := by
  refine h.links rfl ?_ h.unstamped
  constructor <;> simp +contextual [TimedNode.terminated, NodeState.Apart]

theorem Unstamped.disconnectForcibly (h : s.Unstamped) (ps : Finset PeerId) :
    (s.disconnectForcibly now ps).Unstamped := by
  have hclosed : (s.closeConnections now ps).Unstamped := h.closeConnections ps
  refine hclosed.links rfl ?_ hclosed.unstamped
  constructor <;> simp +contextual [TimedNode.disconnectForcibly, TimedNode.closeConnections, NodeState.Apart,
    Finset.sdiff_subset]

theorem Unstamped.disconnectFromPeer (h : s.Unstamped) : (s.disconnectFromPeer now p).Unstamped := by
  have hmoved : ({ s with node := s.node.disconnectFromPeer p } : TimedNode).Unstamped :=
    h.links rfl ((NodeState.disconnectFromPeer_kept : s.node.Kept ∅ _).links (by simp)) h.unstamped
  unfold TimedNode.disconnectFromPeer
  dsimp only
  split_ifs
  · exact hmoved.closeConnections {p}
  · refine hmoved.links rfl (NodeState.LinksKept.refl _) fun q => ?_
    dsimp only
    split_ifs <;> exact h.unstamped q

theorem Unstamped.terminateInactiveConnections (h : s.Unstamped) :
    (s.terminateInactiveConnections now).1.Unstamped := by
  have hdropped : ((s.terminated (s.peersToTerminate now)).disconnectForcibly now
      (s.peersToDisconnectForcibly now)).Unstamped := (h.terminated _).disconnectForcibly _
  unfold TimedNode.terminateInactiveConnections
  dsimp only
  generalize (s.terminated (s.peersToTerminate now)).disconnectForcibly now (s.peersToDisconnectForcibly now) = t
    at hdropped
  induction (s.sortedActive now).disconnectGently generalizing t with
  | nil => exact hdropped
  | cons q ps ih => exact ih _ hdropped.disconnectFromPeer

theorem Run.unstamped (h : Run node s) : s.Unstamped := by
  induction h with
  | start => exact ⟨NodeState.inOrder_init, by simp [NodeState.Apart, NodeState.init], fun _ => rfl⟩
  | step h c times hsame ih =>
    refine ⟨NodeState.step_inOrder ih.inOrder c.event, step_apart ih.inOrder ih.apart c, fun p => ?_⟩
    rw [hsame]
    exact ih.unstamped p
  | closeConnections h now ps ih => exact ih.closeConnections ps
  | terminateInactiveConnections h now ih => exact ih.terminateInactiveConnections

/-- No connection is ever scheduled for deletion by the loop. -/
theorem Run.nothing_scheduled (h : Run node s) (now : Time) : (s.terminateInactiveConnections now).2 = ∅ := by
  simp [TimedNode.terminateInactiveConnections, peersToTerminate, h.unstamped.unstamped]

/-- In a run, the loop drops the stalled peers if and only if no active peer has overdue sync items and no peer is in
the terminating list for too long. -/
theorem Run.drops_stalled_iff (h : Run node s) (now : Time) :
    s.StalledDropped now ↔
      (∀ p ∈ s.node.activeConnections, s.inactive now p = false → s.syncItemsOverdue now p = false) ∧
        ∀ p ∈ s.node.terminatingConnections, ∀ called, s.closeCalled p = some called →
          overSince now failedTerminateTimeout called = false := by
  have hunstamped := h.unstamped
  rw [← overdue_dropped_iff hunstamped.apart]
  constructor
  · refine fun hd => ⟨hd.overdue, fun p hp called hcalled => ?_⟩
    by_contra hover
    have hscheduled := hd.failed p hp called hcalled (by simpa using hover)
    rw [h.nothing_scheduled] at hscheduled
    simp at hscheduled
  · refine fun hd => ⟨hd.1, fun p hp called hcalled hover => ?_⟩
    rw [hd.2 p hp called hcalled] at hover
    exact absurd hover (by simp)

end Runs

end TimedNode

/-- Two active peers after 1000 seconds.  The first has been asked for sync blocks, the second has not answered a request
for an item; a third is being terminated. -/
def stalledNode (syncItems : Finset ItemHash) (closeCalled : Option Time) : TimedNode where
  node :=
    { NodeState.init with
      peers := fun p =>
        if p = 0 then { syncItemsRequestedFromPeer := syncItems }
        else { itemsRequestedFromPeer := [⟨blockMessageType, ⟨7, 5⟩⟩] }
      activeConnections := [0, 1]
      terminatingConnections := {2} }
  times := fun _ => { connectionInitiationTime := 999000000, lastMessageReceivedTime := 999000000 }
  closeCalled := fun _ => closeCalled

theorem stalledNode_apart (syncItems : Finset ItemHash) (closeCalled : Option Time) :
    (stalledNode syncItems closeCalled).node.Apart := by
  simp [NodeState.Apart, stalledNode, NodeState.init]

theorem stalledNode_recorded (syncItems : Finset ItemHash) (closeCalled : Option Time) :
    (stalledNode syncItems closeCalled).CloseRecorded := fun _ _ _ => .inl rfl

theorem stalledDropped_iff_no_sync_items : (stalledNode ∅ none).StalledDropped 1000000000 := by
  refine (TimedNode.stalledDropped_iff _ _ (stalledNode_apart ∅ none) (stalledNode_recorded ∅ none)).mpr ⟨?_, ?_⟩
  · decide +kernel
  · rintro p - called ⟨⟩

/-- **One slow peer hides another, and a termination never ends.**  Neither the peer with overdue sync items nor the one
after it is dropped, nor is the third scheduled for deletion after 500 seconds. -/
theorem stalled_peers_stay :
    (stalledNode {⟨1, 5⟩} (some 500000000)).node.Apart ∧ (stalledNode {⟨1, 5⟩} (some 500000000)).CloseRecorded ∧
      (stalledNode {⟨1, 5⟩} (some 500000000)).Overdue 1000000000 1 ∧
      ((stalledNode {⟨1, 5⟩} (some 500000000)).terminateInactiveConnections 1000000000).2 = ∅ ∧
      ¬ (stalledNode {⟨1, 5⟩} (some 500000000)).StalledDropped 1000000000 := by
  have hoverdue : (stalledNode {⟨1, 5⟩} (some 500000000)).Overdue 1000000000 1 :=
    ⟨by decide +kernel, .inr (.inr (by decide +kernel))⟩
  refine ⟨stalledNode_apart _ _, stalledNode_recorded _ _, hoverdue, by decide +kernel, fun h => ?_⟩
  exact absurd (h.overdue 1 (by decide) hoverdue) (by decide +kernel)

end Graphene
