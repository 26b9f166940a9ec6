import Sigmaengine.Chain.Frames

/-!
# The head of the chain

What one block does to the head: it links to the old one, lies later, and becomes the new one.  Between the
header and `update_global_dynamic_data` the head is still the old one, after it the new one.
-/

namespace Sigmaengine

open Effect Table

/-- Number, id and time of the head, and the transactions recorded so far. -/
def Core.head (s : Core) : Nat × BlockId × TimePointSec × Table TransactionObject :=
  (s.dgp.headBlockNumber, s.dgp.headBlockId, s.dgp.time, s.transactions)

def SameHead (s s' : Core) : Prop := s'.head = s.head

instance : Std.Refl SameHead := ⟨fun _ => rfl⟩

instance : IsTrans Core SameHead := ⟨fun _ _ _ h h' => h'.trans h⟩

theorem Stays.sameHead {s s' : Core} (h : Stays s s') : SameHead s s' := by
  unfold SameHead Core.head
  rw [h.headBlockNumber, h.headBlockId, h.time, h.transactions]

namespace SameHead

variable {s s' : Core} (h : SameHead s s')

include h

theorem headBlockNumber : s'.dgp.headBlockNumber = s.dgp.headBlockNumber := congrArg Prod.fst h

theorem headBlockId : s'.dgp.headBlockId = s.dgp.headBlockId := congrArg (fun p => p.2.1) h

theorem time : s'.dgp.time = s.dgp.time := congrArg (fun p => p.2.2.1) h

theorem transactions : s'.transactions = s.transactions := congrArg (fun p => p.2.2.2) h

end SameHead

variable {env : Env} {node : Node} {b : SignedBlock}

/-! ## Before the transactions -/

theorem validateBlockHeader_eq_ok {c c' : Core} {signing : Nat × BobserverObject}
    (h : validateBlockHeader env node b c = .ok signing c') :
    c' = c ∧ c.dgp.headBlockId = b.previous ∧ c.dgp.time < b.timestamp := by
  simp only [validateBlockHeader, bind_eq_ok, get_eq_ok, fcAssert_eq_ok, pure_eq_ok, getBobserver,
    getIn_eq_ok] at h
  obtain ⟨_, _, ⟨rfl, rfl⟩, _, _, ⟨hlink, rfl⟩, _, _, ⟨hlate, rfl⟩, _, _, ⟨-, rfl⟩, _, _, ⟨-, rfl⟩,
    _, _, ⟨-, rfl⟩, _, _, ⟨-, rfl⟩, -, rfl⟩ := h
  exact ⟨rfl, eq_of_beq hlink, of_decide_eq_true hlate⟩

theorem keepsStanding_sameHead : KeepsStanding SameHead := fun _ _ _ => always_within (fun _ _ => rfl) _

/-- **The header**: the block links to the head and is later. -/
theorem applyBlockHeader_eq_ok {c c' : Core} {signing : Nat}
    (h : applyBlockHeader env node b c = .ok signing c') :
    SameHead c c' ∧ c.dgp.headBlockId = b.previous ∧ c.dgp.time < b.timestamp := by
  simp only [applyBlockHeader, bind_eq_ok, fcAssert_eq_ok, get_eq_ok, modify_eq_ok, pure_eq_ok] at h
  obtain ⟨_, _, ⟨-, rfl⟩, _, _, hvalid, _, _, ⟨rfl, rfl⟩, _, _, ⟨-, rfl⟩, _, _, rfl, _, t, hext, -, rfl⟩ := h
  obtain ⟨rfl, hlink, hlate⟩ := validateBlockHeader_eq_ok hvalid
  have hsame := (always_each (always_processHeaderExtension keepsStanding_sameHead.keepsRole b.bobserverName) b.extensions).runs _ _ _ hext
  exact ⟨hsame, hlink, hlate⟩

/-! ## The new head -/

theorem updateGlobalDynamicData_eq_ok {c c' : Core} {u : Unit}
    (h : updateGlobalDynamicData env node b c = .ok u c') :
    c'.head = (b.blockNum, b.id env.codec, b.timestamp, c.transactions) := by
  simp only [updateGlobalDynamicData, bind_eq_ok, get_eq_ok, modify_eq_ok, fcAssert_eq_ok] at h
  obtain ⟨_, _, ⟨rfl, rfl⟩, _, t, hcount, _, _, rfl, _, _, ⟨rfl, rfl⟩, -, rfl⟩ := h
  have hsame := (always_countMissed keepsStanding_sameHead.keepsRole _ _).runs _ _ _ hcount
  exact congrArg (fun x => (b.blockNum, b.id env.codec, b.timestamp, x)) hsame.transactions

theorem sameHead_updateSigningBobserver (signing : Nat) : Always SameHead (updateSigningBobserver signing b) :=
  always_bind readOnly_get.always fun _ => always_within (fun _ _ => rfl) _

theorem readOnly_getBobservers (names : List AccountName) : ReadOnly (getBobservers names) := by
  induction names with
  | nil => exact readOnly_pure _
  | cons n ns ih => exact (readOnly_getIn _).bind fun _ => ih.bind fun _ => readOnly_pure _

theorem sameHead_updateLastIrreversibleBlock : Always SameHead updateLastIrreversibleBlock := by
  refine always_bind readOnly_get.always fun s => ?_
  split
  · exact fun _ => rfl
  · exact always_bind (readOnly_getBobservers _).always fun _ => fun _ => rfl

/-! ## After the new head -/

theorem sameHead_createBlockSummary : Always SameHead (createBlockSummary env b) := fun _ => rfl

theorem sameHead_updateBobserverSchedule : Always SameHead updateBobserverSchedule := by
  refine always_bind (always_bind readOnly_get.always fun _ => always_pure _) fun num => ?_
  split
  · refine always_bind (always_shutdownExcepted keepsStanding_sameHead.keepsRole) fun _ => ?_
    refine always_bind always_get fun s => always_bind (readOnly_getBobservers _).always fun bobservers => ?_
    exact always_bind (fun _ => rfl) fun _ => fun _ => rfl
  · exact always_pure _

section Hardforks

variable {R : Core → Core → Prop} [Std.Refl R] [IsTrans Core R]

/-- Hardforks are processed by applying some. -/
theorem always_processHardforks_of (happly : ∀ hardfork, Always R (applyHardfork hardfork)) :
    Always R processHardforks := by
  refine always_bind (always_bind always_get fun _ => always_pure _) fun forked => ?_
  split
  · refine always_loop (always_bind always_get fun s => ?_) _
    dsimp only
    split
    · split
      · exact always_bind (happly _) fun _ => always_pure _
      · exact always_throw _
    · exact always_pure _
  · refine always_loop (always_bind always_get fun s => ?_) _
    dsimp only
    split
    · exact always_bind (happly _) fun _ => always_pure _
    · exact always_pure _

/-- Nothing but the hardforks changes. -/
theorem always_processHardforks (hR : ∀ t s, R s { s with hardforkProperty := t }) : Always R processHardforks := by
  refine always_processHardforks_of fun hardfork => ?_
  refine always_bind always_get fun s => always_bind (always_assert _ _) fun _ => ?_
  exact always_bind (always_assert _ _) fun _ => fun s => hR _ s

end Hardforks

/-! ## The whole block -/

/-- **The stages of a block**, as far as the head and the recorded transactions go. -/
theorem applyBlock_stages {d d' : Database} {u : Unit} (h : applyBlock env node b d = .ok u d') :
    ∃ c₁ d₂ c₃ c₄ c₅, SameHead d.core c₁ ∧ d.core.dgp.headBlockId = b.previous ∧
      d.core.dgp.time < b.timestamp ∧
      each (applyTransaction env node) b.transactions { d with core := c₁ } = .ok () d₂ ∧
      c₃.head = (b.blockNum, b.id env.codec, b.timestamp, d₂.core.transactions) ∧
      SameHead c₃ c₄ ∧ clearExpiredTransactions c₄ = .ok () c₅ ∧ SameHead c₅ d'.core := by
  simp only [applyBlock, applyBlockHead, applyBlockTail, prepareBlock, onCore, bind_eq_ok, within_eq_ok] at h
  obtain ⟨_, d₄, ⟨signing, _, ⟨c₁, hheader, rfl⟩, _, d₂, htrxs, ⟨c₄, ⟨_, c₂, hglobal, _, c₃, hsign, hlib⟩, rfl⟩⟩,
    _, d₅, ⟨c₉, ⟨_, c₈, ⟨_, c₅, hsummary, _, c₆, hclear, hschedule⟩, _, c₇, hpost, hhard⟩, rfl⟩, hnotify⟩ := h
  obtain ⟨hsame, hlink, hlate⟩ := applyBlockHeader_eq_ok hheader
  refine ⟨c₁, d₂, c₂, c₅, c₆, hsame, hlink, hlate, htrxs, updateGlobalDynamicData_eq_ok hglobal, ?_, hclear, ?_⟩
  · have hsign' := (sameHead_updateSigningBobserver _).runs _ _ _ hsign
    have hlib' := sameHead_updateLastIrreversibleBlock.runs _ _ _ hlib
    have hsummary' := sameHead_createBlockSummary.runs _ _ _ hsummary
    exact hsummary'.trans (hlib'.trans hsign')
  · have hschedule' := sameHead_updateBobserverSchedule.runs _ _ _ hschedule
    have hpost' := (accountsOnly_postProcess.runs _ _ _ hpost).stays.sameHead
    have hhard' : SameHead _ _ := (always_processHardforks fun _ _ => rfl).runs _ _ _ hhard
    have hnotify' : SameHead _ _ := (MoneyOnly.accountsOnly ((moneyOnly_notifyAppliedBlock env).runs _ _ _ hnotify)).stays.sameHead
    exact hnotify'.trans (hhard'.trans (hpost'.trans hschedule'))

/-- Clearing expired transactions leaves the properties alone. -/
theorem clearExpiredTransactions_dgp {c c' : Core} {u : Unit} (h : clearExpiredTransactions c = .ok u c') :
    c'.dgp = c.dgp := by
  have hrefl : Std.Refl fun s s' : Core => s'.dgp = s.dgp := ⟨fun _ => rfl⟩
  have htrans : IsTrans Core fun s s' => s'.dgp = s.dgp := ⟨fun _ _ _ h h' => h'.trans h⟩
  have hkeep : Always (fun s s' : Core => s'.dgp = s.dgp) clearExpiredTransactions := by
    refine always_bind readOnly_get.always fun s => always_loop (always_bind readOnly_get.always fun s => ?_) _
    split
    · exact always_pure _
    · split
      · exact always_bind (always_within (fun _ _ => rfl) _) fun _ => always_pure _
      · exact always_pure _
  exact hkeep.runs _ _ _ h

/-- **One block and the head**: it links to the old head, is later, and is the new head. -/
theorem applyBlock_head {d d' : Database} {u : Unit} (h : applyBlock env node b d = .ok u d') :
    d.core.dgp.headBlockId = b.previous ∧ d.core.dgp.time < b.timestamp ∧
      d'.core.dgp.headBlockNumber = b.blockNum ∧ d'.core.dgp.headBlockId = b.id env.codec ∧
      d'.core.dgp.time = b.timestamp := by
  obtain ⟨c₁, d₂, c₃, c₄, c₅, -, hlink, hlate, -, hhead, hsame, hclear, hend⟩ := applyBlock_stages h
  have hdgp := clearExpiredTransactions_dgp hclear
  have hc₃ : c₃.dgp.headBlockNumber = b.blockNum ∧ c₃.dgp.headBlockId = b.id env.codec ∧
      c₃.dgp.time = b.timestamp :=
    ⟨congrArg Prod.fst hhead, congrArg (fun p => p.2.1) hhead, congrArg (fun p => p.2.2.1) hhead⟩
  refine ⟨hlink, hlate, ?_, ?_, ?_⟩
  · rw [hend.headBlockNumber, hdgp, hsame.headBlockNumber, hc₃.1]
  · rw [hend.headBlockId, hdgp, hsame.headBlockId, hc₃.2.1]
  · rw [hend.time, hdgp, hsame.time, hc₃.2.2]

end Sigmaengine
