import Mathlib.Data.List.Chain
import Sigmaengine.Net.Handshake

/-!
# Lists of ids, and the synopsis made of them

A peer answers a request with ids that follow each other, and however the answers are spliced, the list of a connection
is `Consecutive`.  A synopsis is completed from that list by a loop in 32-bit arithmetic; it is right where the block
the delegate has last seen comes before the list and the numbers stay clear of the last ones there are.
-/

namespace Graphene

/-- The number of each id is that of the one before plus one. -/
def Consecutive (ids : List ItemHash) : Prop := ids.IsChain fun a b => b.number = a.number + 1

/-! ## Lists -/

theorem consecutive_of_zipIdx (front : UInt32) (id : ItemHash) (rest : List ItemHash) (k : Nat)
    (hid : id.number = front + UInt32.ofNat k)
    (hrest : ((rest.zipIdx (k + 1)).all fun x => x.1.number == front + UInt32.ofNat x.2) = true) :
    Consecutive (id :: rest) := by
  induction rest generalizing id k with
  | nil => exact List.isChain_singleton id
  | cons next rest ih =>
    simp only [List.zipIdx_cons, List.all_cons, Bool.and_eq_true, beq_iff_eq] at hrest
    obtain ⟨hnext, hrest⟩ := hrest
    refine List.isChain_cons_cons.mpr ⟨?_, ih next (k + 1) hnext hrest⟩
    rw [hnext, hid, UInt32.ofNat_add, ← UInt32.add_assoc]
    rfl

theorem consecutive_of_isSequential {hashes : List ItemHash} (h : isSequential hashes = true) : Consecutive hashes := by
  cases hashes with
  | nil => exact List.isChain_nil
  | cons front rest =>
    refine consecutive_of_zipIdx front.number front rest 0 ?_ h
    simp

theorem Consecutive.suffix {ids ids' : List ItemHash} (h : Consecutive ids) (hsuffix : ids' <:+ ids) :
    Consecutive ids' := by
  obtain ⟨t, rfl⟩ := hsuffix
  exact h.right_of_append

/-- What is popped off leaves a list that ends in `front`, or nothing. -/
theorem popBack_cases (front : ItemHash) (ids : List ItemHash) :
    popBack front ids = [] ∨ ∃ before, popBack front ids = before ++ [front] ∧ popBack front ids <+: ids := by
  unfold popBack
  have hbegins : (ids.reverse.dropWhile fun id => id != front).reverse <+: ids := by
    have hsuffix := List.dropWhile_suffix (l := ids.reverse) fun id => id != front
    simpa using List.reverse_prefix.mpr hsuffix
  cases hdrop : ids.reverse.dropWhile fun id => id != front with
  | nil => exact .inl rfl
  | cons id rest =>
    right
    have hid : id = front := by
      have hhead := List.head?_dropWhile_not (fun id => id != front) ids.reverse
      simpa [hdrop] using hhead
    rw [hdrop] at hbegins
    refine ⟨rest.reverse, ?_, hbegins⟩
    rw [List.reverse_cons, hid]

theorem popSeen_suffix (ctx : Context) (itemType : Nat) (hashes : List ItemHash) (c : PeerConnection) :
    (popSeen ctx itemType c hashes).2 <:+ hashes := by
  induction hashes generalizing c with
  | nil => exact List.suffix_rfl
  | cons front rest ih =>
    unfold popSeen
    split_ifs
    · exact (ih _).trans (List.suffix_cons front rest)
    · exact List.suffix_rfl

theorem spliceIds_consecutive (ctx : Context) (itemType : Nat) (other : Bool) {hashes : List ItemHash}
    (hhashes : Consecutive hashes) {c : PeerConnection} (hc : Consecutive c.idsOfItemsToGet) :
    Consecutive (spliceIds ctx itemType other hashes c).idsOfItemsToGet := by
  cases hashes with
  | nil => exact hc
  | cons front rest =>
    unfold spliceIds
    dsimp only
    split_ifs
    · exact hhashes
    · exact hhashes.suffix (popSeen_suffix ctx itemType _ c)
    · rcases popBack_cases front c.idsOfItemsToGet with hnone | ⟨before, hback, hbegins⟩
      · rw [hnone]
        exact hhashes.suffix (List.suffix_cons front rest)
      · have hkept : Consecutive (popBack front c.idsOfItemsToGet) := by
          obtain ⟨t, ht⟩ := hbegins
          rw [← ht] at hc
          exact hc.left_of_append
        rw [hback] at hkept ⊢
        have hsplit : Consecutive (before ++ front :: rest) := List.isChain_split.mpr ⟨hkept, hhashes⟩
        cases before with
        | nil => simpa using hsplit
        | cons id before =>
          have hdrop : (id :: before ++ [front]).dropLast = id :: before := List.dropLast_concat
          change Consecutive ((id :: before ++ [front]).dropLast ++ front :: rest)
          rw [hdrop]
          exact hsplit

theorem listed_consecutive (ctx : Context) (itemType totalRemaining : Nat) (other : Bool) {hashes : List ItemHash}
    (hhashes : Consecutive hashes) {c : PeerConnection} (hc : Consecutive c.idsOfItemsToGet) :
    Consecutive (NodeState.listed ctx itemType totalRemaining other hashes c).idsOfItemsToGet := by
  have hanswered : Consecutive ({ c with itemIdsRequestedFromPeer := none } : PeerConnection).idsOfItemsToGet := hc
  exact spliceIds_consecutive ctx itemType other hhashes hanswered

/-- Every connection has a list of ids that follow each other. -/
def ListsConsecutive (s : NodeState) : Prop := ∀ p < s.nextPeer, Consecutive (s.peers p).idsOfItemsToGet

section

variable {X : Finset Part} {s s' : NodeState} {node : NodeIdentity}

theorem ListsConsecutive.kept (h : ListsConsecutive s) (hkept : s.Kept X s') (hX : .lists ∉ X)
    (hnext : s'.nextPeer = s.nextPeer) : ListsConsecutive s' := by
  intro p hp
  rw [hnext] at hp
  exact (h p hp).suffix ((hkept.peers p hp).lists hX)

theorem ListsConsecutive.newPeer (h : ListsConsecutive s) (firewallCheck : Bool) :
    ListsConsecutive (s.newPeer firewallCheck) := by
  intro p hp
  by_cases hpn : p = s.nextPeer
  · simp [NodeState.newPeer, hpn, Consecutive]
  · simp only [NodeState.newPeer, hpn, if_false] at hp ⊢
    exact h p (lt_of_le_of_ne (Nat.lt_succ_iff.mp hp) hpn)

theorem NodeState.LinkStep.nextPeer_eq {e : Event} (h : LinkStep node s e s') :
    s'.nextPeer = s.nextPeer ∨ ∃ firewallCheck, s' = s.newPeer firewallCheck := by
  cases h with
  | created firewallCheck hs' => exact .inr ⟨firewallCheck, hs'⟩
  | kept X hX hkept => exact .inl (hkept.links hX).nextPeer
  | established p hp direction secret hkept => exact .inl (hkept.links (by simp)).nextPeer
  | heard p hp m he hstate hkept => exact .inl (hkept.links (by simp)).nextPeer
  | answered p hp m he hstate x hkept hx => exact .inl (hkept.links (by simp)).nextPeer
  | promoted p hp m he hm t ht hpt hkept =>
    exact .inl ((hkept.links (by simp)).nextPeer.trans (ht.links (by simp)).nextPeer)
  | closed p hp he t ht hkept =>
    left
    rw [(hkept.links (by simp)).nextPeer, ht]

theorem next_listsConsecutive (hinorder : s.InOrder) (h : ListsConsecutive s) (c : Call) :
    ListsConsecutive (next node s c) := by
  obtain ⟨ctx, e⟩ := c
  have hknown (p : PeerId) (hp : p ∈ s.reading) := hinorder.known p (.inl hp)
  have hkept : s.Kept e.touches (next node s ⟨ctx, e⟩) := NodeState.step_kept node ctx hknown e
  have hlinks : NodeState.LinkStep node s e (next node s ⟨ctx, e⟩) := NodeState.step_links node ctx hknown e
  rcases hlinks.nextPeer_eq with hnext | ⟨firewallCheck, hs'⟩
  · by_cases he : .lists ∉ e.touches
    · exact h.kept hkept he hnext
    · rw [not_not] at he
      cases e with
      | message p m =>
        cases m with
        | blockchainItemIdsInventory itemType totalRemaining hashes =>
          simp only [next, NodeState.step]
          split_ifs with hp
          · simp only [NodeState.onMessage]
            rcases NodeState.onBlockchainItemIdsInventoryMessage_cases ctx s p itemType totalRemaining hashes with
              hsame | ⟨hsequential, other, hlisted⟩
            · exact h.kept hsame (by simp) (hsame.links (by simp)).nextPeer
            · refine ListsConsecutive.kept ?_ hlisted (by simp) (hlisted.links (by simp)).nextPeer
              intro q hq
              by_cases hqp : q = p
              · subst hqp
                simpa [NodeState.modifyPeer] using
                  listed_consecutive ctx itemType totalRemaining other (consecutive_of_isSequential hsequential) (h q hq)
              · simpa [NodeState.modifyPeer, hqp] using h q hq
          · exact h
        | _ => simp [Event.touches, Message.touches] at he
      | _ => simp [Event.touches] at he
  · rw [hs']
    exact h.newPeer firewallCheck

theorem reach_listsConsecutive (node : NodeIdentity) (calls : List Call) : ListsConsecutive (reach node calls) :=
  (Traces.always (I := fun _ s => s.InOrder ∧ ListsConsecutive s)
    ⟨NodeState.inOrder_init, by simp [ListsConsecutive, NodeState.init]⟩
    (fun _ _ c ⟨hinorder, h⟩ =>
      ⟨NodeState.step_inOrder hinorder c.event, next_listsConsecutive hinorder h c⟩) calls).2

end

/-! ## The synopsis -/

/-- The numbers go up. -/
def Increasing (ids : List ItemHash) : Prop := ids.Pairwise fun a b => a.number < b.number

/-- A synopsis comes back, its numbers go up, and it ends with the last id of the list if there is one. -/
def SynopsisOf (ids : List ItemHash) (result : Except SynopsisFault (List ItemHash)) : Prop :=
  ∃ synopsis, result = .ok synopsis ∧ Increasing synopsis ∧ (ids ≠ [] → synopsis.getLast? = ids.getLast?)

theorem Consecutive.number_getElem {front : ItemHash} {rest : List ItemHash} (h : Consecutive (front :: rest)) (k : Nat)
    (hk : k < (front :: rest).length) : ((front :: rest)[k]).number = front.number + UInt32.ofNat k := by
  induction k with
  | zero => simp
  | succ k ih =>
    have hstep := List.isChain_iff_getElem.mp h k (by omega)
    rw [hstep, ih (by omega), UInt32.ofNat_add, ← UInt32.add_assoc]
    rfl

section

variable {ids synopsis : List ItemHash} {first high low : UInt32} {fuel : Nat}

/-- The loop only adds to the synopsis. -/
theorem synopsisLoop_prefix {result : List ItemHash} (h : synopsisLoop ids first high fuel low synopsis = .ok result) :
    synopsis <+: result := by
  induction fuel generalizing low synopsis with
  | zero => simp [synopsisLoop] at h
  | succ fuel ih =>
    unfold synopsisLoop at h
    dsimp only at h
    split_ifs at h
    · split at h
      · simp at h
      · exact (List.prefix_append _ _).trans (ih h)
    · split at h
      · simp at h
      · rw [← Except.ok.inj h]
        exact List.prefix_append _ _
    · exact ih h
    · rw [Except.ok.inj h]

/-- A number from the list on is looked up there. -/
theorem synopsisLoop_push (hfirst : first ≤ low) {result : List ItemHash}
    (h : synopsisLoop ids first high fuel low synopsis = .ok result) :
    ∃ id, ids[(low - first).toNat]? = some id ∧ synopsis ++ [id] <+: result := by
  cases fuel with
  | zero => simp [synopsisLoop] at h
  | succ fuel =>
    unfold synopsisLoop at h
    dsimp only at h
    rw [if_pos hfirst] at h
    cases hid : ids[(low - first).toNat]? with
    | none => simp [hid] at h
    | some id =>
      rw [hid] at h
      dsimp only at h
      refine ⟨id, rfl, ?_⟩
      split_ifs at h
      · exact synopsisLoop_prefix h
      · rw [Except.ok.inj h]

/-- The number after `low` is half way on to the last one, which is never skipped. -/
theorem toNat_next (hlow : low ≤ high) (hhigh : high.toNat + 2 < 4294967296) :
    (low + (high - low + 2) / 2).toNat = low.toNat + (high.toNat - low.toNat + 2) / 2 := by
  have hle := UInt32.le_iff_toNat_le.mp hlow
  have hdiff : (high - low + 2).toNat = high.toNat - low.toNat + 2 := by
    rw [UInt32.toNat_add, UInt32.toNat_sub_of_le _ _ hlow]
    simp only [UInt32.reduceToNat]
    omega
  rw [UInt32.toNat_add, UInt32.toNat_div, hdiff]
  simp only [UInt32.reduceToNat]
  omega

theorem Increasing.concat {id : ItemHash} (h : Increasing synopsis) (hid : ∀ x ∈ synopsis, x.number < id.number) :
    Increasing (synopsis ++ [id]) := by
  refine List.pairwise_append.mpr ⟨h, List.pairwise_singleton _ _, fun x hx y hy => ?_⟩
  rw [List.mem_singleton.mp hy]
  exact hid x hx

/-- The loop goes on from a synopsis below `low` and the list, and ends with the last id. -/
theorem synopsisLoop_spec {front : ItemHash} {rest : List ItemHash} (hids : Consecutive (front :: rest))
    (hhigh : high.toNat + 1 = front.number.toNat + (front :: rest).length) (hroom : high.toNat + 2 < 4294967296)
    (hlow : low ≤ high) (hfuel : high.toNat - low.toNat < fuel) (hincreasing : Increasing synopsis)
    (hbelow : ∀ x ∈ synopsis, x.number.toNat < max low.toNat front.number.toNat) :
    ∃ result, synopsisLoop (front :: rest) front.number high fuel low synopsis = .ok result ∧ Increasing result ∧
      result.getLast? = (front :: rest).getLast? := by
  induction fuel generalizing low synopsis with
  | zero => omega
  | succ fuel ih =>
    have hle := UInt32.le_iff_toNat_le.mp hlow
    have hnext := toNat_next hlow hroom
    unfold synopsisLoop
    dsimp only
    by_cases hfirst : front.number ≤ low
    · -- the number is on the list
      have hfirst' := UInt32.le_iff_toNat_le.mp hfirst
      have hindex : (low - front.number).toNat = low.toNat - front.number.toNat := UInt32.toNat_sub_of_le _ _ hfirst
      have hlt : (low - front.number).toNat < (front :: rest).length := by omega
      have hnumber := hids.number_getElem _ hlt
      have hnumber' : ((front :: rest)[(low - front.number).toNat]).number = low := by
        rw [hnumber, UInt32.ofNat_toNat, UInt32.add_comm, UInt32.sub_add_cancel]
      have hpushed : Increasing (synopsis ++ [(front :: rest)[(low - front.number).toNat]]) := by
        refine hincreasing.concat fun x hx => ?_
        rw [hnumber', UInt32.lt_iff_toNat_lt]
        have := hbelow x hx
        omega
      rw [if_pos hfirst, List.getElem?_eq_getElem hlt]
      dsimp only
      by_cases hlast : low = high
      · -- and is the last one
        have hstop : ¬ low + (high - low + 2) / 2 ≤ high := by
          rw [UInt32.le_iff_toNat_le, hnext, hlast]
          omega
        rw [if_neg hstop]
        refine ⟨_, rfl, hpushed, ?_⟩
        rw [List.getLast?_concat, List.getLast?_eq_getElem?, ← List.getElem?_eq_getElem hlt]
        congr 1
        rw [hindex, hlast]
        omega
      · have hlt' : low.toNat < high.toNat := lt_of_le_of_ne hle fun h => hlast (UInt32.toNat_inj.mp h)
        have hgo : low + (high - low + 2) / 2 ≤ high := by
          rw [UInt32.le_iff_toNat_le, hnext]
          omega
        rw [if_pos hgo]
        refine ih hgo (by omega) hpushed fun x hx => ?_
        rcases List.mem_append.mp hx with hx | hx
        · have := hbelow x hx
          omega
        · rw [List.mem_singleton.mp hx, hnumber']
          omega
    · -- the number is before the list
      have hfirst' : low.toNat < front.number.toNat := by
        rw [UInt32.le_iff_toNat_le] at hfirst
        omega
      have hlt : low.toNat < high.toNat := by
        simp only [List.length_cons] at hhigh
        omega
      have hgo : low + (high - low + 2) / 2 ≤ high := by
        rw [UInt32.le_iff_toNat_le, hnext]
        omega
      rw [if_neg hfirst, if_pos hgo]
      refine ih hgo (by omega) hincreasing fun x hx => ?_
      have := hbelow x hx
      omega

/-- Where the distance is too great to be halved, the loop stays where it is. -/
theorem synopsisLoop_endless (hfirst : 0 < first) (hstuck : (high + 2) / 2 = 0) :
    synopsisLoop ids first high fuel 0 synopsis = .error .endless := by
  induction fuel with
  | zero => rfl
  | succ fuel ih =>
    unfold synopsisLoop
    have hnot : ¬ first ≤ 0 := by
      rw [UInt32.not_le]
      exact hfirst
    simp [hnot, hstuck, ih]

end

/-! ## When the synopsis is right -/

/-- The block last seen comes before the list, and the list ends before the last two numbers there are. -/
def SynopsisFits (peer : PeerConnection) : Prop :=
  match peer.idsOfItemsToGet with
  | [] => True
  | front :: rest =>
    peer.lastBlockDelegateHasSeen.number < front.number ∧
      front.number.toNat + (front :: rest).length + 1 < 4294967296

/-- The delegate keeps its side: the numbers of its synopsis go up, and none is above that of the block last seen. -/
def DelegateKeeps (peer : PeerConnection) (synopsis : List ItemHash) : Prop :=
  Increasing synopsis ∧ ∀ x ∈ synopsis, x.number ≤ peer.lastBlockDelegateHasSeen.number

/-- The last number of a list that does not wrap. -/
theorem toNat_high {front : UInt32} {length : Nat} (hpos : 0 < length) (hroom : front.toNat + length ≤ 4294967296) :
    (front + UInt32.ofNat length - 1).toNat + 1 = front.toNat + length := by
  simp only [UInt32.toNat_sub, UInt32.toNat_add, UInt32.toNat_ofNat', UInt32.reduceToNat]
  omega

theorem synopsisOf_of_fits {peer : PeerConnection} {synopsis : List ItemHash}
    (hids : Consecutive peer.idsOfItemsToGet) (hfits : SynopsisFits peer) (hkeeps : DelegateKeeps peer synopsis) :
    SynopsisOf peer.idsOfItemsToGet (completeSynopsis peer.idsOfItemsToGet synopsis) := by
  obtain ⟨hincreasing, hbelow⟩ := hkeeps
  unfold SynopsisFits at hfits
  cases hlist : peer.idsOfItemsToGet with
  | nil => exact ⟨synopsis, rfl, hincreasing, by simp⟩
  | cons front rest =>
    rw [hlist] at hids hfits
    obtain ⟨hseen, hroom⟩ := hfits
    have hseen' := UInt32.lt_iff_toNat_lt.mp hseen
    have hpos : 0 < (front :: rest).length := by simp
    have hlength : ¬ (front :: rest).length % 4294967296 = 0 := by omega
    have hhigh := toNat_high hpos (show front.number.toNat + _ ≤ _ by omega)
    -- from any number that is not above the first of the list
    have hloop (low : UInt32) (hlow : low ≤ front.number) : ∃ result, synopsisLoop (front :: rest) front.number
        (front.number + UInt32.ofNat (front :: rest).length - 1) 4294967297 low synopsis = .ok result ∧
          Increasing result ∧ result.getLast? = (front :: rest).getLast? := by
      have hlow' := UInt32.le_iff_toNat_le.mp hlow
      refine synopsisLoop_spec hids hhigh (by omega) ?_ ?_ hincreasing fun x hx => ?_
      · rw [UInt32.le_iff_toNat_le]
        omega
      · omega
      · have := UInt32.le_iff_toNat_le.mp (hbelow x hx)
        omega
    have hresult : ∃ result, completeSynopsis (front :: rest) synopsis = .ok result ∧ Increasing result ∧
        result.getLast? = (front :: rest).getLast? := by
      unfold completeSynopsis
      rw [if_neg hlength]
      cases synopsis with
      | nil =>
        apply hloop
        rw [UInt32.le_iff_toNat_le]
        simp only [UInt32.reduceToNat]
        omega
      | cons id synopsis =>
        apply hloop
        change id.number ≤ front.number
        have := UInt32.le_iff_toNat_le.mp (hbelow id List.mem_cons_self)
        rw [UInt32.le_iff_toNat_le]
        omega
    obtain ⟨result, hok, hresult, hlast⟩ := hresult
    exact ⟨result, hok, hresult, fun _ => hlast⟩

/-- Else there is an answer of the delegate for which no synopsis comes back, or one that is not right. -/
theorem fits_of_synopsisOf {peer : PeerConnection} (hids : Consecutive peer.idsOfItemsToGet)
    (hwrap : ∀ front rest, peer.idsOfItemsToGet = front :: rest →
      front.number.toNat + (front :: rest).length ≤ 4294967296)
    (h : ∀ synopsis, DelegateKeeps peer synopsis →
      SynopsisOf peer.idsOfItemsToGet (completeSynopsis peer.idsOfItemsToGet synopsis)) : SynopsisFits peer := by
  unfold SynopsisFits
  cases hlist : peer.idsOfItemsToGet with
  | nil => exact trivial
  | cons front rest =>
    have hroom := hwrap front rest hlist
    rw [hlist] at hids h
    have hpos : 0 < (front :: rest).length := by simp
    have hhigh := toNat_high hpos hroom
    -- a list of all numbers there are counts as empty
    have hlength : ¬ (front :: rest).length % 4294967296 = 0 := by
      intro hzero
      obtain ⟨result, hok, -, hlast⟩ := h [] ⟨List.Pairwise.nil, by simp⟩
      unfold completeSynopsis at hok
      rw [if_pos hzero] at hok
      have hlast := hlast (by simp)
      rw [← Except.ok.inj hok] at hlast
      exact absurd hlast.symm (by simp)
    have hseen : peer.lastBlockDelegateHasSeen.number < front.number := by
      by_contra hnot
      rw [UInt32.not_lt] at hnot
      obtain ⟨result, hok, hresult, -⟩ := h [peer.lastBlockDelegateHasSeen]
        ⟨List.pairwise_singleton _ _, by simp⟩
      unfold completeSynopsis at hok
      rw [if_neg hlength] at hok
      -- the id looked up has the number of the block last seen, which is there already
      obtain ⟨id, hid, hbegins⟩ := synopsisLoop_push hnot hok
      obtain ⟨hlt, rfl⟩ := List.getElem?_eq_some_iff.mp hid
      have hincreasing := hresult.sublist hbegins.sublist
      have hless := List.pairwise_cons.mp hincreasing |>.1 _ List.mem_cons_self
      rw [hids.number_getElem _ hlt, UInt32.ofNat_toNat, UInt32.add_comm, UInt32.sub_add_cancel] at hless
      exact UInt32.lt_irrefl _ hless
    refine ⟨hseen, ?_⟩
    by_contra hnot
    have hseen' := UInt32.lt_iff_toNat_lt.mp hseen
    obtain ⟨result, hok, -⟩ := h [ItemHash.zero] ⟨List.pairwise_singleton _ _, by simp [ItemHash.zero]⟩
    have hstuck : (front.number + UInt32.ofNat (front :: rest).length - 1 + 2) / 2 = 0 := by
      apply UInt32.toNat_inj.mp
      rw [UInt32.toNat_div, UInt32.toNat_add]
      simp only [UInt32.reduceToNat]
      omega
    have hfirst : 0 < front.number := by
      rw [UInt32.lt_iff_toNat_lt]
      simp only [UInt32.reduceToNat]
      omega
    unfold completeSynopsis at hok
    rw [if_neg hlength] at hok
    exact absurd (hok.symm.trans (synopsisLoop_endless hfirst hstuck)) (by simp)

/-- The numbers of the list stay below 2 ^ 32. -/
def ListWithinRange (ids : List ItemHash) : Prop :=
  ∀ front ∈ ids.head?, front.number.toNat + ids.length ≤ 4294967296

/-- **Sync lists and synopses.**  In every state, the list of every connection is consecutive, and the synopsis made of
it is right for every answer of the delegate if and only if the block last seen comes before the list and the list ends
before the last two numbers. -/
theorem synopsis_of_list_iff (node : NodeIdentity) (calls : List Call) (p : PeerId)
    (hp : p < (reach node calls).nextPeer) :
    let peer := (reach node calls).peers p
    Consecutive peer.idsOfItemsToGet ∧
      (ListWithinRange peer.idsOfItemsToGet →
        ((∀ ctx synopsis, DelegateKeeps peer synopsis →
            ctx.getBlockchainSynopsis peer.lastBlockDelegateHasSeen (peer.idsOfItemsToGet.length % 4294967296) =
              some synopsis →
            SynopsisOf peer.idsOfItemsToGet (createBlockchainSynopsisForPeer ctx peer)) ↔
          SynopsisFits peer)) := by
  intro peer
  have hids : Consecutive peer.idsOfItemsToGet := reach_listsConsecutive node calls p hp
  refine ⟨hids, fun hrange => ⟨fun h => ?_, fun hfits ctx synopsis hkeeps hanswer => ?_⟩⟩
  · refine fits_of_synopsisOf hids (fun front rest hlist => ?_) fun synopsis hkeeps => ?_
    · have := hrange front (by simp [hlist])
      rwa [hlist] at this
    · let ctx : Context := { quietContext with getBlockchainSynopsis := fun _ _ => some synopsis }
      exact h ctx synopsis hkeeps rfl
  · unfold createBlockchainSynopsisForPeer
    rw [hanswer]
    exact synopsisOf_of_fits hids hfits hkeeps

/-- A peer that has begun to send its list. -/
def listedRun : List Call :=
  politeRun ++ [.message 0 (.blockchainItemIdsInventory blockMessageType 0 [⟨1, 0⟩, ⟨2, 0⟩, ⟨3, 0⟩])].map quietly

theorem synopsis_of_list_iff_listed :
    SynopsisOf [⟨1, 0⟩, ⟨2, 0⟩, ⟨3, 0⟩]
      (createBlockchainSynopsisForPeer quietContext ((reach lonelyNode listedRun).peers 0)) := by
  have hlist : ((reach lonelyNode listedRun).peers 0).idsOfItemsToGet = [⟨1, 0⟩, ⟨2, 0⟩, ⟨3, 0⟩] := by decide +kernel
  have hseen : ((reach lonelyNode listedRun).peers 0).lastBlockDelegateHasSeen.number = 0 := by decide +kernel
  have hfits : SynopsisFits ((reach lonelyNode listedRun).peers 0) := by
    unfold SynopsisFits
    rw [hlist, hseen]
    decide
  have h := (synopsis_of_list_iff lonelyNode listedRun 0 (by decide +kernel)).2
  rw [hlist] at h
  exact (h (by simp [ListWithinRange])).mpr hfits quietContext [] ⟨List.Pairwise.nil, by simp⟩ rfl

/-- **A synopsis is looked up out of range.**  The peer asks for block 5 while its list begins at 1; the block is then
the one last seen, and the next synopsis begins there. -/
theorem synopsis_out_of_range :
    let ctx : Context :=
      { quietContext with
        getMessage := fun _ => some (some ⟨5, 0⟩)
        getBlockchainSynopsis := fun _ _ => some [⟨5, 0⟩] }
    let peer := (reach lonelyNode (listedRun ++ [⟨ctx, .message 0 (.fetchItems blockMessageType [⟨5, 0⟩])⟩])).peers 0
    DelegateKeeps peer [⟨5, 0⟩] ∧ createBlockchainSynopsisForPeer ctx peer = .error .outOfRange := by
  intro ctx peer
  have hseen : peer.lastBlockDelegateHasSeen = ⟨5, 0⟩ := by decide +kernel
  have hlist : peer.idsOfItemsToGet = [⟨1, 0⟩, ⟨2, 0⟩, ⟨3, 0⟩] := by decide +kernel
  refine ⟨⟨List.pairwise_singleton _ _, by simp [hseen]⟩, ?_⟩
  unfold createBlockchainSynopsisForPeer
  rw [hlist]
  rfl

end Graphene
