import Sigmaengine.Lib.Traces
import Sigmaengine.Net.Footprint

/-!
# Handshakes

A connection says hello once, and from the answer to that hello on its state is settled: `Heard` is the invariant that
whoever stands accepted has sent a hello that was signed with its node key and named our chain.  A peer becomes active
on two messages, and neither asks whether its hello was accepted; `PromotesAccepted` is what they would have to ask.
-/

namespace Graphene

/-- The state that a run of the node ends in. -/
abbrev reach (node : NodeIdentity) (calls : List Call) : NodeState := Traces.run (next node) .init calls

namespace NodeState

variable {X : Finset Part} {s s' : NodeState} {p : PeerId} {ctx : Context} {node : NodeIdentity}

/-! ## Where connections stand -/

/-- A connection that is lost is on no list that matters, and one that has said nothing is not read from. -/
structure InOrder (s : NodeState) : Prop where
  known : ∀ p, p ∈ s.reading ∨ p ∈ s.handshakingConnections ∨ p ∈ s.activeConnections ∨ p ∈ s.lost ∨ p ∈ s.closed →
    p < s.nextPeer
  gone : ∀ p, p ∈ s.lost ∨ p ∈ s.closed →
    p ∉ s.reading ∧ p ∉ s.handshakingConnections ∧ p ∉ s.activeConnections
  unheard : ∀ p < s.nextPeer, (s.peers p).theirState = .disconnected → p ∉ s.reading ∧ p ∉ s.lost ∧ p ∉ s.closed
  once : ∀ p ∈ s.lost, p ∉ s.closed

theorem inOrder_init : InOrder .init := by
  constructor <;> simp [init]

theorem InOrder.links (h : s.InOrder) (hlinks : s.LinksKept s')
    (hstate : ∀ p < s.nextPeer, (s'.peers p).theirState = .disconnected → (s.peers p).theirState = .disconnected) :
    s'.InOrder where
  known p hp := by
    rw [hlinks.nextPeer]
    apply h.known
    rcases hp with hp | hp | hp | hp | hp
    · exact .inl (hlinks.reading hp)
    · exact .inr (.inl (hlinks.handshaking hp))
    · exact .inr (.inr (.inl (hlinks.active hp)))
    · rcases hlinks.lost p hp with hp | hp
      · exact .inr (.inr (.inr (.inl hp)))
      · exact .inl hp.1
    · exact .inr (.inr (.inr (.inr (hlinks.closed ▸ hp))))
  gone p hp := by
    have hout (hgone : p ∈ s.lost ∨ p ∈ s.closed) :
        p ∉ s'.reading ∧ p ∉ s'.handshakingConnections ∧ p ∉ s'.activeConnections := by
      obtain ⟨hr, hh, ha⟩ := h.gone p hgone
      exact ⟨fun hm => hr (hlinks.reading hm), fun hm => hh (hlinks.handshaking hm), fun hm => ha (hlinks.active hm)⟩
    rcases hp with hp | hp
    · rcases hlinks.lost p hp with hp | hp
      · exact hout (.inl hp)
      · exact hp.2
    · exact hout (.inr (hlinks.closed ▸ hp))
  unheard p hp hdisconnected := by
    rw [hlinks.nextPeer] at hp
    obtain ⟨hr, hl, hc⟩ := h.unheard p hp (hstate p hp hdisconnected)
    refine ⟨fun hm => hr (hlinks.reading hm), fun hm => ?_, hlinks.closed ▸ hc⟩
    rcases hlinks.lost p hm with hm | hm
    · exact hl hm
    · exact hr hm.1
  once p hp hclosed := by
    rw [hlinks.closed] at hclosed
    rcases hlinks.lost p hp with hp | hp
    · exact h.once p hp hclosed
    · exact (h.gone p (.inr hclosed)).1 hp.1

theorem InOrder.kept (h : s.InOrder) (hkept : s.Kept X s') (hX : .links ∉ X) : s'.InOrder := by
  refine h.links (hkept.links hX) fun p hp hdisconnected => ?_
  rwa [((hkept.peers p hp).links hX).2.1] at hdisconnected

theorem InOrder.newPeer (h : s.InOrder) (firewallCheck : Bool) : (s.newPeer firewallCheck).InOrder := by
  have hnew (hm : s.nextPeer ∈ s.reading ∨ s.nextPeer ∈ s.handshakingConnections ∨ s.nextPeer ∈ s.activeConnections ∨
      s.nextPeer ∈ s.lost ∨ s.nextPeer ∈ s.closed) : False := lt_irrefl _ (h.known _ hm)
  constructor
  · intro p hp
    simp only [NodeState.newPeer, Finset.mem_insert] at hp ⊢
    rcases hp with hp | (rfl | hp) | hp
    · exact (h.known p (.inl hp)).trans (Nat.lt_succ_self _)
    · exact Nat.lt_succ_self _
    · exact (h.known p (.inr (.inl hp))).trans (Nat.lt_succ_self _)
    · exact (h.known p (.inr (.inr hp))).trans (Nat.lt_succ_self _)
  · intro p hp
    obtain ⟨hr, hh, ha⟩ := h.gone p hp
    refine ⟨hr, ?_, ha⟩
    simp only [NodeState.newPeer, Finset.mem_insert, not_or]
    refine ⟨?_, hh⟩
    rintro rfl
    exact hnew (.inr (.inr (.inr hp)))
  · intro p hp hdisconnected
    by_cases hpn : p = s.nextPeer
    · subst hpn
      exact ⟨fun hm => hnew (.inl hm), fun hm => hnew (.inr (.inr (.inr (.inl hm)))),
        fun hm => hnew (.inr (.inr (.inr (.inr hm))))⟩
    · simp only [NodeState.newPeer, hpn, if_false] at hp hdisconnected
      exact h.unheard p (lt_of_le_of_ne (Nat.lt_succ_iff.mp hp) hpn) hdisconnected
  · exact h.once

theorem InOrder.established (h : s.InOrder) (hp : s.connecting p) (direction : PeerConnectionDirection)
    (secret : SharedSecret) : (s.established p direction secret).InOrder := by
  obtain ⟨hr, hl, hc⟩ := h.unheard p hp.1 hp.2
  constructor
  · intro q hq
    simp only [NodeState.established, modifyPeer, Finset.mem_insert] at hq ⊢
    rcases hq with (rfl | hq) | hq
    · exact hp.1
    · exact h.known q (.inl hq)
    · exact h.known q (.inr hq)
  · intro q hq
    obtain ⟨hqr, hqh, hqa⟩ := h.gone q hq
    refine ⟨?_, hqh, hqa⟩
    simp only [NodeState.established, Finset.mem_insert, not_or]
    refine ⟨?_, hqr⟩
    rintro rfl
    rcases hq with hq | hq
    · exact hl hq
    · exact hc hq
  · intro q hq hdisconnected
    by_cases hqp : q = p
    · simp [NodeState.established, modifyPeer, hqp] at hdisconnected
    · simp only [NodeState.established, modifyPeer, hqp, if_false] at hdisconnected
      obtain ⟨hqr, hql, hqc⟩ := h.unheard q hq hdisconnected
      refine ⟨?_, hql, hqc⟩
      simp only [NodeState.established, Finset.mem_insert, not_or]
      exact ⟨hqp, hqr⟩
  · exact h.once

theorem InOrder.movePeerToActiveList (h : s.InOrder) (hp : p ∈ s.handshakingConnections) :
    (s.movePeerToActiveList p).InOrder := by
  constructor
  · intro q hq
    apply h.known
    simp only [NodeState.movePeerToActiveList, Finset.mem_erase, List.mem_insert_iff] at hq
    rcases hq with hq | ⟨-, hq⟩ | (rfl | hq) | hq
    · exact .inl hq
    · exact .inr (.inl hq)
    · exact .inr (.inl hp)
    · exact .inr (.inr (.inl hq))
    · exact .inr (.inr (.inr hq))
  · intro q hq
    obtain ⟨hqr, hqh, hqa⟩ := h.gone q hq
    refine ⟨hqr, fun hm => hqh (Finset.mem_of_mem_erase hm), fun hm => ?_⟩
    simp only [NodeState.movePeerToActiveList, List.mem_insert_iff] at hm
    rcases hm with rfl | hm
    · exact hqh hp
    · exact hqa hm
  · exact h.unheard
  · exact h.once

theorem InOrder.modifyPeer (h : s.InOrder) {f : PeerConnection → PeerConnection}
    (hf : (f (s.peers p)).theirState = .disconnected → (s.peers p).theirState = .disconnected) :
    (s.modifyPeer p f).InOrder := by
  refine h.links (LinksKept.of_eq rfl) fun q _ hdisconnected => ?_
  by_cases hq : q = p
  · subst hq
    exact hf (by simpa [NodeState.modifyPeer] using hdisconnected)
  · simpa [NodeState.modifyPeer, hq] using hdisconnected

/-! ## The answer to a hello -/

theorem modifyPeer_kept_modifyPeer {f g : PeerConnection → PeerConnection} (h : (f (s.peers p)).Kept X (g (s.peers p))) :
    (s.modifyPeer p f).Kept X (s.modifyPeer p g) where
  peers q _ := by
    by_cases hq : q = p
    · subst hq
      simpa [modifyPeer] using h
    · simpa [modifyPeer, hq] using PeerConnection.Kept.refl X _
  nextPeer := le_refl _
  links _ := LinksKept.of_eq rfl
  sync _ := rfl
  items _ := ⟨rfl, rfl, rfl⟩

/-- Only a hello that was signed, of a peer on our chain, is accepted. -/
theorem decideHello_cases (ctx : Context) (node : NodeIdentity) (s : NodeState) (p : PeerId)
    (alreadyConnected signed : Bool) :
    ∃ x, (s.modifyPeer p fun q => { q with theirState := x }).Kept ∅
        (s.decideHello ctx node p alreadyConnected signed) ∧
      (x = .connectionRejected ∨
        x = .connectionAccepted ∧ signed = true ∧ (s.peers p).chainId = some node.chainId) := by
  unfold decideHello
  dsimp only
  split_ifs with hsigned hforks hchain halready hallowed haccepting
  · exact ⟨_, disconnectFromPeer_kept, .inl rfl⟩
  · exact ⟨_, disconnectFromPeer_kept, .inl rfl⟩
  · exact ⟨_, disconnectFromPeer_kept, .inl rfl⟩
  · exact ⟨_, Kept.refl _ _, .inl rfl⟩
  · exact ⟨_, Kept.refl _ _, .inl rfl⟩
  · exact ⟨_, Kept.refl _ _, .inl rfl⟩
  · exact ⟨_, Kept.refl _ _, .inr ⟨rfl, by simpa using hsigned, by simpa using hchain⟩⟩

@[simp] theorem withChainId_theirState (m : HelloMessage) (c : PeerConnection) :
    (withChainId m c).theirState = c.theirState := by
  unfold withChainId
  cases m.chainId <;> rfl

theorem withChainId_kept_withChainId (m : HelloMessage) {c c' : PeerConnection} (h : c.Kept ∅ c') :
    (withChainId m c).Kept ∅ (withChainId m c') := by
  unfold withChainId
  cases m.chainId with
  | value id =>
    obtain ⟨hdirection, hstate, -⟩ := h.links (by simp)
    exact ⟨fun _ => ⟨hdirection, hstate, rfl⟩, h.lists, h.sync, h.items⟩
  | _ => exact h

/-- A connection that has told no chain before has it from this hello. -/
theorem chainId_of_withChainId {m : HelloMessage} {c : PeerConnection} {id : ChainId} (hc : c.chainId = none)
    (h : (withChainId m c).chainId = some id) : m.chainId = .value id := by
  unfold withChainId at h
  cases hm : m.chainId with
  | value id' =>
    rw [hm] at h
    exact congrArg UserDatum.value (Option.some.inj h)
  | _ => simp [hm, stored, hc] at h

theorem withTheirState_kept {c c' : PeerConnection} (h : c.Kept ∅ c') (x : TheirConnectionState) :
    PeerConnection.Kept ∅ { c with theirState := x } { c' with theirState := x } := by
  obtain ⟨hdirection, -, hchain⟩ := h.links (by simp)
  exact ⟨fun _ => ⟨hdirection, rfl, hchain⟩, h.lists, h.sync, h.items⟩

/-- What a hello does: the connection is lost; or it had been answered before; or it is answered now. -/
theorem onHelloMessage_cases (ctx : Context) (node : NodeIdentity) (hp : p ∈ s.reading) (m : HelloMessage) :
    s.Kept ∅ (s.onHelloMessage ctx node p m) ∨
      (s.peers p).theirState ≠ .justConnected ∧
        (s.modifyPeer p (withChainId m)).Kept ∅ (s.onHelloMessage ctx node p m) ∨
      (s.peers p).theirState = .justConnected ∧ ∃ x,
        (s.modifyPeer p fun c => { withChainId m c with theirState := x }).Kept ∅ (s.onHelloMessage ctx node p m) ∧
          (x = .connectionRejected ∨ x = .connectionAccepted ∧
            node.recoverKey (s.peers p).sharedSecret m.signedSharedSecret = some m.nodePublicKey ∧
              (withChainId m (s.peers p)).chainId = some node.chainId) := by
  unfold onHelloMessage
  dsimp only
  split
  · exact .inl (connectionLost_kept fun _ => hp)
  · rename_i expected hexpected
    let named : PeerConnection → PeerConnection :=
      fun q => { q with nodePublicKey := m.nodePublicKey, nodeId := m.nodePublicKey }
    have hnamed (c : PeerConnection) : c.Kept ∅ (named c) := by constructor <;> simp [named]
    obtain ⟨f, hf, h | h⟩ := parseHelloUserDataForPeer_cases (s := s.modifyPeer p named) (p := p) m
    · rw [h]
      left
      refine (Kept.trans ?_ (modifyPeer_kept (hf _))).trans (connectionLost_kept fun _ => hp)
      exact modifyPeer_kept (hnamed _)
    · right
      rw [h]
      dsimp only
      rw [modifyPeer_modifyPeer]
      -- reading the hello keeps everything but the chain id
      have hread (c : PeerConnection) : (withChainId m c).Kept ∅ (withChainId m (f (named c))) :=
        withChainId_kept_withChainId m ((hnamed c).trans (hf _))
      have hstate := withChainId_theirState m (s.peers p)
      have hself (g : PeerConnection → PeerConnection) : (s.modifyPeer p g).peers p = g (s.peers p) := by
        simp [modifyPeer]
      obtain ⟨-, hread_state, hread_chain⟩ := (hread (s.peers p)).links (by simp)
      split_ifs with hjust
      · rw [hself, hread_state, hstate] at hjust
        right
        refine ⟨hjust, ?_⟩
        obtain ⟨x, hx, hdecided⟩ := decideHello_cases ctx node (s.modifyPeer p fun c => withChainId m (f (named c))) p
          (decide (s.isAlreadyConnectedToId node _)) (m.nodePublicKey == expected)
        rw [modifyPeer_modifyPeer] at hx
        refine ⟨x, Kept.trans (modifyPeer_kept_modifyPeer (withTheirState_kept (hread _) x)) hx, ?_⟩
        rcases hdecided with hdecided | ⟨hx, hsigned, hchain⟩
        · exact .inl hdecided
        · rw [hself, hread_chain] at hchain
          rw [hexpected, eq_of_beq hsigned]
          exact .inr ⟨hx, rfl, hchain⟩
      · rw [hself, hread_state, hstate] at hjust
        left
        exact ⟨hjust, Kept.trans (modifyPeer_kept_modifyPeer (hread _)) disconnectFromPeer_kept⟩

/-! ## Steps -/

/-- The message asks for the connection to become active, and the node grants it. -/
def promotes (s : NodeState) (p : PeerId) : Message → Prop
  | .address =>
    p ∈ s.handshakingConnections ∧ (s.peers p).ourState ≠ .connectionRejected ∧
      (s.peers p).theirState ≠ .connectionRejected
  | .fetchBlockchainItemIds _ _ => p ∈ s.handshakingConnections ∧ (s.peers p).direction = .inbound
  | _ => False

/-- What a step does to the connections. -/
inductive LinkStep (node : NodeIdentity) (s : NodeState) (e : Event) (s' : NodeState) : Prop
  | kept (X : Finset Part) (hX : .links ∉ X) (h : s.Kept X s')
  | created (firewallCheck : Bool) (h : s' = s.newPeer firewallCheck)
  | established (p : PeerId) (hp : s.connecting p) (direction : PeerConnectionDirection) (secret : SharedSecret)
      (h : (s.established p direction secret).Kept ∅ s')
  | heard (p : PeerId) (hp : p ∈ s.reading) (m : HelloMessage) (he : e = .message p (.hello m))
      (hstate : (s.peers p).theirState ≠ .justConnected) (h : (s.modifyPeer p (withChainId m)).Kept ∅ s')
  | answered (p : PeerId) (hp : p ∈ s.reading) (m : HelloMessage) (he : e = .message p (.hello m))
      (hstate : (s.peers p).theirState = .justConnected) (x : TheirConnectionState)
      (h : (s.modifyPeer p fun c => { withChainId m c with theirState := x }).Kept ∅ s')
      (hx : x = .connectionRejected ∨ x = .connectionAccepted ∧
        node.recoverKey (s.peers p).sharedSecret m.signedSharedSecret = some m.nodePublicKey ∧
          (withChainId m (s.peers p)).chainId = some node.chainId)
  | promoted (p : PeerId) (hp : p ∈ s.reading) (m : Message) (he : e = .message p m) (hm : s.promotes p m)
      (t : NodeState) (ht : s.Kept ∅ t) (hpt : p ∈ t.handshakingConnections)
      (h : (t.movePeerToActiveList p).Kept ∅ s')
  | closed (p : PeerId) (hp : p ∈ s.lost) (he : e = .connectionClosed p) (t : NodeState)
      (ht : t = { s with lost := s.lost.erase p, closed := insert p s.closed }) (h : t.Kept {.sync, .items} s')

theorem onMessage_links (node : NodeIdentity) (ctx : Context) (hp : p ∈ s.reading) (hknown : p < s.nextPeer) (m : Message) :
    LinkStep node s (.message p m) (s.onMessage node ctx p m) := by
  have hkept := onMessage_kept node ctx hp hknown m
  cases m with
  | hello m =>
    rcases onHelloMessage_cases ctx node hp m with h | ⟨hstate, h⟩ | ⟨hstate, x, h, hx⟩
    · exact .kept ∅ (by simp) h
    · exact .heard p hp m rfl hstate h
    · exact .answered p hp m rfl hstate x h hx
  | address =>
    simp only [onMessage, onAddressMessage]
    split_ifs with hhandshaking hours htheirs
    · exact .kept ∅ (by simp) disconnectFromPeer_kept
    · exact .kept ∅ (by simp) disconnectFromPeer_kept
    · exact .promoted p hp _ rfl ⟨hhandshaking, hours, htheirs⟩ s (Kept.refl ∅ s) hhandshaking
        startSynchronizingWithPeer_kept
    · exact .kept ∅ (by simp) (Kept.refl ∅ s)
  | fetchBlockchainItemIds itemType synopsis =>
    rcases onFetchBlockchainItemIdsMessage_cases ctx hknown itemType synopsis with
      h | ⟨hdirection, t, ht, hpt, h⟩
    · exact .kept ∅ (by simp) h
    · simp only [onMessage]
      rw [h]
      exact .promoted p hp _ rfl ⟨(ht.links (by simp)).handshaking hpt, hdirection⟩ t ht hpt
        startSynchronizingWithPeer_kept
  | _ => exact .kept _ (by simp [Message.touches]) hkept

theorem step_links (node : NodeIdentity) (ctx : Context) (hknown : ∀ p ∈ s.reading, p < s.nextPeer) (e : Event) :
    LinkStep node s e (s.step node ctx e) := by
  have hkept := step_kept node ctx hknown e
  have hsame : LinkStep node s e s := .kept ∅ (by simp) (Kept.refl ∅ s)
  cases e with
  | accept => exact .created false rfl
  | acceptConnection p secret =>
    simp only [step]
    split_ifs with hp
    · exact .established p hp _ secret (Kept.refl ∅ _)
    · exact hsame
  | initiateConnectTo firewallCheck => exact .created firewallCheck rfl
  | connectTo p secret =>
    simp only [step]
    split_ifs with hp
    · cases secret with
      | none => exact .kept ∅ (by simp) removePeerFromLists_kept
      | some secret =>
        dsimp only
        split_ifs
        · exact .established p hp _ secret removePeerFromLists_kept
        · exact .established p hp _ secret (Kept.refl ∅ _)
    · exact hsame
  | message p m =>
    simp only [step]
    split_ifs with hp
    · exact onMessage_links node ctx hp (hknown p hp) m
    · exact hsame
  | connectionClosed p =>
    simp only [step]
    split_ifs with hp
    · have hreturned : ({ s with lost := s.lost.erase p, closed := insert p s.closed } : NodeState).Kept {.sync}
          { s with
            activeSyncRequests := s.activeSyncRequests \ (s.peers p).syncItemsRequestedFromPeer
            lost := s.lost.erase p
            closed := insert p s.closed } := syncRequests_kept rfl rfl rfl
      exact .closed p hp rfl _ rfl ((hreturned.mono (by simp)).trans ((rescheduleItems_kept _).mono (by simp)))
    · exact hsame
  | _ => exact .kept _ (by simp [Event.touches]) hkept

theorem step_inOrder (h : s.InOrder) (e : Event) : (s.step node ctx e).InOrder := by
  cases step_links node ctx (fun p hp => h.known p (.inl hp)) e with
  | kept X hX hkept => exact h.kept hkept hX
  | created firewallCheck hs' =>
    rw [hs']
    exact h.newPeer firewallCheck
  | established p hp direction secret hkept => exact (h.established hp direction secret).kept hkept (by simp)
  | heard p hp m he hstate hkept =>
    refine (h.modifyPeer ?_).kept hkept (by simp)
    simp
  | answered p hp m he hstate x hkept hx =>
    refine (h.modifyPeer ?_).kept hkept (by simp)
    rintro rfl
    simp at hx
  | promoted p hp m he hm t ht hpt hkept =>
    exact ((h.kept ht (by simp)).movePeerToActiveList hpt).kept hkept (by simp)
  | closed p hp he t ht hkept =>
    refine InOrder.kept ?_ hkept (by simp)
    subst ht
    constructor
    · intro q hq
      apply h.known
      simp only [Finset.mem_erase, Finset.mem_insert] at hq
      rcases hq with hq | hq | hq | ⟨-, hq⟩ | rfl | hq
      · exact .inl hq
      · exact .inr (.inl hq)
      · exact .inr (.inr (.inl hq))
      · exact .inr (.inr (.inr (.inl hq)))
      · exact .inr (.inr (.inr (.inl hp)))
      · exact .inr (.inr (.inr (.inr hq)))
    · intro q hq
      apply h.gone
      simp only [Finset.mem_erase, Finset.mem_insert] at hq
      rcases hq with ⟨-, hq⟩ | rfl | hq
      · exact .inl hq
      · exact .inl hp
      · exact .inr hq
    · intro q hq hdisconnected
      obtain ⟨hr, hl, hc⟩ := h.unheard q hq hdisconnected
      refine ⟨hr, fun hm => hl (Finset.mem_of_mem_erase hm), fun hm => ?_⟩
      rcases Finset.mem_insert.mp hm with rfl | hm
      · exact hl hp
      · exact hc hm
    · intro q hq hclosed
      obtain ⟨hqp, hq⟩ := Finset.mem_erase.mp hq
      rcases Finset.mem_insert.mp hclosed with rfl | hclosed
      · exact hqp rfl
      · exact h.once q hq hclosed

end NodeState

theorem reach_concat (node : NodeIdentity) (past : List Call) (c : Call) :
    reach node (past ++ [c]) = next node (reach node past) c := Traces.run_concat

theorem reach_inOrder (node : NodeIdentity) (calls : List Call) : (reach node calls).InOrder :=
  Traces.always (I := fun _ (s : NodeState) => s.InOrder) NodeState.inOrder_init
    (fun _ _ c h => NodeState.step_inOrder h c.event) calls

/-! ## Whoever is accepted has said hello -/

/-- Some hello of the past came on the connection as the first, was signed with the node key it names, named our chain,
and was answered with `connection_accepted`. -/
def AcceptedHello (node : NodeIdentity) (past : List Call) (p : PeerId) : Prop :=
  ∃ before ctx m, before ++ [⟨ctx, .message p (.hello m)⟩] <+: past ∧
    p ∈ (reach node before).reading ∧ ((reach node before).peers p).theirState = .justConnected ∧
    node.recoverKey ((reach node before).peers p).sharedSecret m.signedSharedSecret = some m.nodePublicKey ∧
    m.chainId = .value node.chainId ∧
    ((reach node (before ++ [⟨ctx, .message p (.hello m)⟩])).peers p).theirState = .connectionAccepted

theorem AcceptedHello.mono {node : NodeIdentity} {past past' : List Call} {p : PeerId}
    (h : AcceptedHello node past p) (hpast : past <+: past') : AcceptedHello node past' p := by
  obtain ⟨before, ctx, m, hbefore, hello⟩ := h
  exact ⟨before, ctx, m, hbefore.trans hpast, hello⟩

/-- Who stands accepted has sent an accepted hello, and who has not been answered has told us no chain. -/
structure Heard (node : NodeIdentity) (past : List Call) (s : NodeState) : Prop where
  accepted : ∀ p < s.nextPeer, (s.peers p).theirState = .connectionAccepted → AcceptedHello node past p
  silent : ∀ p < s.nextPeer, (s.peers p).theirState = .disconnected ∨ (s.peers p).theirState = .justConnected →
    (s.peers p).chainId = none

section

variable {node : NodeIdentity} {past past' : List Call} {s s' : NodeState} {p : PeerId} {ctx : Context}

theorem Heard.mono (h : Heard node past s) (hpast : past <+: past') : Heard node past' s where
  accepted p hp hstate := (h.accepted p hp hstate).mono hpast
  silent := h.silent

theorem Heard.congr (h : Heard node past s) (hnext : s'.nextPeer = s.nextPeer)
    (hpeers : ∀ p < s.nextPeer,
      (s'.peers p).theirState = (s.peers p).theirState ∧ (s'.peers p).chainId = (s.peers p).chainId) :
    Heard node past s' := by
  constructor
  · intro p hp hstate
    rw [hnext] at hp
    rw [(hpeers p hp).1] at hstate
    exact h.accepted p hp hstate
  · intro p hp hstate
    rw [hnext] at hp
    rw [(hpeers p hp).1] at hstate
    rw [(hpeers p hp).2]
    exact h.silent p hp hstate

theorem Heard.kept {X : Finset Part} (h : Heard node past s) (hkept : s.Kept X s') (hX : .links ∉ X) :
    Heard node past s' :=
  h.congr (hkept.links hX).nextPeer fun p hp => ((hkept.peers p hp).links hX).2

theorem Heard.newPeer (h : Heard node past s) (firewallCheck : Bool) : Heard node past (s.newPeer firewallCheck) := by
  constructor
  · intro p hp hstate
    by_cases hpn : p = s.nextPeer
    · simp [NodeState.newPeer, hpn] at hstate
    · simp only [NodeState.newPeer, hpn, if_false] at hp hstate
      exact h.accepted p (lt_of_le_of_ne (Nat.lt_succ_iff.mp hp) hpn) hstate
  · intro p hp hstate
    by_cases hpn : p = s.nextPeer
    · simp [NodeState.newPeer, hpn]
    · simp only [NodeState.newPeer, hpn, if_false] at hp hstate ⊢
      exact h.silent p (lt_of_le_of_ne (Nat.lt_succ_iff.mp hp) hpn) hstate

/-- A connection changes; the others stand as they are. -/
theorem Heard.modifyPeer (h : Heard node past s) {f : PeerConnection → PeerConnection}
    (haccepted : (f (s.peers p)).theirState = .connectionAccepted → AcceptedHello node past p)
    (hsilent : (f (s.peers p)).theirState = .disconnected ∨ (f (s.peers p)).theirState = .justConnected →
      (f (s.peers p)).chainId = none) : Heard node past (s.modifyPeer p f) := by
  constructor
  · intro q hq hstate
    by_cases hqp : q = p
    · subst hqp
      exact haccepted (by simpa [NodeState.modifyPeer] using hstate)
    · exact h.accepted q hq (by simpa [NodeState.modifyPeer, hqp] using hstate)
  · intro q hq hstate
    by_cases hqp : q = p
    · subst hqp
      simpa [NodeState.modifyPeer] using hsilent (by simpa [NodeState.modifyPeer] using hstate)
    · simpa [NodeState.modifyPeer, hqp] using h.silent q hq (by simpa [NodeState.modifyPeer, hqp] using hstate)

theorem next_heard (hreached : s = reach node past) (hinorder : s.InOrder) (h : Heard node past s) (c : Call) :
    Heard node (past ++ [c]) (next node s c) := by
  have hpast : past <+: past ++ [c] := List.prefix_append past [c]
  have hnext : next node s c = reach node (past ++ [c]) := by
    rw [reach_concat, hreached]
  cases NodeState.step_links node c.ctx (fun p hp => hinorder.known p (.inl hp)) c.event with
  | kept X hX hkept => exact (h.mono hpast).kept hkept hX
  | created firewallCheck hs' =>
    rw [next, hs']
    exact (h.mono hpast).newPeer firewallCheck
  | established p hp direction secret hkept =>
    have hchanged := (h.mono hpast).modifyPeer (p := p)
      (f := fun q => { q with
        direction := direction
        ourState := .justConnected
        theirState := .justConnected
        sharedSecret := secret }) (by simp) fun _ => h.silent p hp.1 (.inl hp.2)
    have hestablished : Heard node _ (s.established p direction secret) := hchanged.congr rfl fun _ _ => ⟨rfl, rfl⟩
    exact hestablished.kept hkept (by simp)
  | heard p hp m he hstate hkept =>
    have hp' := hinorder.known p (.inl hp)
    refine ((h.mono hpast).modifyPeer ?_ ?_).kept hkept (by simp)
    · rw [NodeState.withChainId_theirState]
      exact fun haccepted => (h.accepted p hp' haccepted).mono hpast
    · rw [NodeState.withChainId_theirState]
      rintro (hdisconnected | hjust)
      · exact absurd hp (hinorder.unheard p hp' hdisconnected).1
      · exact absurd hjust hstate
  | answered p hp m he hstate x hkept hx =>
    have hp' := hinorder.known p (.inl hp)
    have hanswer : ((next node s c).peers p).theirState = x := by
      rw [next, ((hkept.peers p hp').links (by simp)).2.1]
      simp [NodeState.modifyPeer]
    refine ((h.mono hpast).modifyPeer ?_ ?_).kept hkept (by simp)
    · rintro rfl
      obtain ⟨ctx, event⟩ := c
      obtain ⟨-, hsigned, hchain⟩ := hx.resolve_left (by simp)
      have hid := NodeState.chainId_of_withChainId (h.silent p hp' (.inr hstate)) hchain
      subst he
      subst hreached
      rw [hnext] at hanswer
      exact ⟨past, ctx, m, List.prefix_rfl, hp, hstate, hsigned, hid, hanswer⟩
    · rintro (rfl | rfl) <;> simp at hx
  | promoted p hp m he hm t ht hpt hkept =>
    have hpromoted : Heard node _ (t.movePeerToActiveList p) :=
      ((h.mono hpast).kept ht (by simp)).congr rfl fun _ _ => ⟨rfl, rfl⟩
    exact hpromoted.kept hkept (by simp)
  | closed p hp he t ht hkept =>
    have hclosed : Heard node _ t := (h.mono hpast).congr (by rw [ht]) fun _ _ => by simp [ht]
    exact hclosed.kept hkept (by simp)

theorem reach_heard (node : NodeIdentity) (calls : List Call) : Heard node calls (reach node calls) :=
  Traces.always (I := fun past s => s = reach node past ∧ s.InOrder ∧ Heard node past s)
    ⟨rfl, NodeState.inOrder_init, by constructor <;> simp [NodeState.init]⟩
    (fun past s c ⟨hreached, hinorder, hheard⟩ =>
      ⟨by rw [reach_concat, hreached]; rfl, NodeState.step_inOrder hinorder c.event,
        next_heard hreached hinorder hheard c⟩) calls |>.2.2

/-! ## Who is active -/

/-- Every active peer stands accepted. -/
def ActiveAccepted (s : NodeState) : Prop :=
  ∀ p ∈ s.activeConnections, (s.peers p).theirState = .connectionAccepted

/-- A message that makes a peer active comes only after its hello was accepted. -/
def PromotesAccepted (s : NodeState) (c : Call) : Prop :=
  ∀ p m, c.event = .message p m → p ∈ s.reading → s.promotes p m → (s.peers p).theirState = .connectionAccepted

theorem ActiveAccepted.kept {X : Finset Part} (h : ActiveAccepted s) (hinorder : s.InOrder) (hkept : s.Kept X s')
    (hX : .links ∉ X) : ActiveAccepted s' := by
  intro p hp
  have hp := (hkept.links hX).active hp
  rw [((hkept.peers p (hinorder.known p (.inr (.inr (.inl hp))))).links hX).2.1]
  exact h p hp

theorem next_activeAccepted (hinorder : s.InOrder) (h : ActiveAccepted s) (c : Call) (hgood : PromotesAccepted s c) :
    ActiveAccepted (next node s c) := by
  -- a connection that changes is not active yet
  have hmodify {p : PeerId} {f : PeerConnection → PeerConnection}
      (hp : p ∈ s.activeConnections → (f (s.peers p)).theirState = .connectionAccepted) :
      ActiveAccepted (s.modifyPeer p f) := by
    intro q hq
    by_cases hqp : q = p
    · subst hqp
      simpa [NodeState.modifyPeer] using hp hq
    · simpa [NodeState.modifyPeer, hqp] using h q hq
  have hknown (p : PeerId) (hp : p ∈ s.activeConnections) := hinorder.known p (.inr (.inr (.inl hp)))
  cases NodeState.step_links node c.ctx (fun p hp => hinorder.known p (.inl hp)) c.event with
  | kept X hX hkept => exact h.kept hinorder hkept hX
  | created firewallCheck hs' =>
    rw [next, hs']
    intro p hp
    simpa [NodeState.newPeer, (hknown p hp).ne] using h p hp
  | established p hp direction secret hkept =>
    refine ActiveAccepted.kept ?_ (hinorder.established hp direction secret) hkept (by simp)
    have hnot : p ∉ s.activeConnections := by
      intro hactive
      have hdisconnected := hp.2
      simp [h p hactive] at hdisconnected
    intro q hq
    have hqp : q ≠ p := fun hqp => hnot (hqp ▸ hq)
    simpa [NodeState.established, NodeState.modifyPeer, hqp] using h q hq
  | heard p hp m he hstate hkept =>
    refine (hmodify fun hactive => ?_).kept (hinorder.modifyPeer (by simp)) hkept (by simp)
    rw [NodeState.withChainId_theirState]
    exact h p hactive
  | answered p hp m he hstate x hkept hx =>
    refine (hmodify fun hactive => ?_).kept (hinorder.modifyPeer ?_) hkept (by simp)
    · simp [h p hactive] at hstate
    · rintro rfl
      simp at hx
  | promoted p hp m he hm t ht hpt hkept =>
    have ht' := h.kept hinorder ht (by simp)
    have hinorder' := hinorder.kept ht (by simp)
    refine ActiveAccepted.kept ?_ (hinorder'.movePeerToActiveList hpt) hkept (by simp)
    intro q hq
    rcases List.mem_insert_iff.mp hq with rfl | hq
    · rw [show (t.movePeerToActiveList q).peers q = t.peers q from rfl,
        ((ht.peers q (hinorder.known q (.inl hp))).links (by simp)).2.1]
      exact hgood q m he hp hm
    · exact ht' q hq
  | closed p hp he t ht hkept =>
    have ht' : ActiveAccepted t := by
      rw [ht]
      exact h
    intro q hq
    have hq := (hkept.links (by simp)).active hq
    have hqn : q < t.nextPeer := by
      rw [ht] at hq ⊢
      exact hknown q hq
    rw [next, ((hkept.peers q hqn).links (by simp)).2.1]
    exact ht' q hq

end

/-- **Handshake soundness.**  In a run in which a peer that is handshaking asks to become active only after its hello
was accepted, every active peer has sent a hello that was signed, named our chain and was accepted. -/
theorem active_peers_accepted (node : NodeIdentity) (calls : List Call)
    (h : Traces.Each (next node) PromotesAccepted .init calls) :
    Traces.Along (next node) (fun past s => ∀ p ∈ s.activeConnections,
      (s.peers p).theirState = .connectionAccepted ∧ AcceptedHello node past p) .init calls := by
  have hactive : Traces.Along (next node) (fun _ s => ActiveAccepted s) .init calls :=
    h.along (I := fun _ s => s.InOrder) (reach_inOrder node) (by simp [ActiveAccepted, NodeState.init])
      fun _ _ c hinorder hactive hgood => next_activeAccepted hinorder hactive c hgood
  intro past hpast p hp
  have hstate := hactive past hpast p hp
  have hknown := (reach_inOrder node past).known p (.inr (.inr (.inl hp)))
  exact ⟨hstate, (reach_heard node past).accepted p hknown hstate⟩

/-- A node that takes every signature for one of the key 7, and what it finds. -/
def lonelyNode : NodeIdentity := { nodeId := 1, chainId := 5, recoverKey := fun _ _ => some 7 }

def quietContext : Context where
  now := 0
  hasItem := fun _ => false
  getBlockTime := fun _ => 0
  getBlockchainNow := 0
  headBlockNum := 0
  getBlockchainSynopsis := fun _ _ => some []
  getBlockIds := fun _ => some ([], 0)
  getMessage := fun _ => none
  hardForkBlockNumbers := []
  allowedPeers := []
  maximumNumberOfConnections := 10
  maximumNumberOfBlocksToHandleAtOneTime := 200
  maximumNumberOfSyncBlocksToPrefetch := 2000
  maximumBlocksPerPeerDuringSyncing := 200

def quietly (e : Event) : Call := ⟨quietContext, e⟩

/-- A peer connects, says hello, and goes on to synchronise. -/
def politeRun : List Call :=
  [.accept, .acceptConnection 0 3, .message 0 (.hello ⟨7, 9, .value 7, .value 0, .value 5⟩),
    .message 0 .address].map quietly

theorem active_peers_accepted_polite :
    0 ∈ (reach lonelyNode politeRun).activeConnections ∧ AcceptedHello lonelyNode politeRun 0 := by
  have hactive : 0 ∈ (reach lonelyNode politeRun).activeConnections := by decide +kernel
  refine ⟨hactive, (active_peers_accepted lonelyNode politeRun ?_ politeRun List.prefix_rfl 0 hactive).2⟩
  simp only [politeRun, List.map_cons, List.map_nil, Traces.each_cons, Traces.each_nil, and_true]
  refine ⟨?_, ?_, ?_, ?_⟩
  · rintro p m ⟨⟩
  · rintro p m ⟨⟩
  · rintro p m ⟨⟩ - hm
    exact absurd hm id
  · rintro p m ⟨⟩ - -
    decide +kernel

/-- **A peer becomes active without a hello.**  It connects and sends an address message. -/
theorem silent_peer_becomes_active :
    0 ∈ (reach lonelyNode ([.accept, .acceptConnection 0 3, .message 0 .address].map quietly)).activeConnections ∧
      ¬ AcceptedHello lonelyNode ([.accept, .acceptConnection 0 3, .message 0 .address].map quietly) 0 := by
  refine ⟨by decide +kernel, ?_⟩
  rintro ⟨before, ctx, m, hpast, -⟩
  have hmem := hpast.subset (List.mem_append_right before (List.mem_singleton_self _))
  simp [quietly] at hmem

end Graphene
