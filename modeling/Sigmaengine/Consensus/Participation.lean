import Sigmaengine.Consensus.Slots
import Sigmaengine.Chain.Reached
import Sigmaengine.Lib.Window

/-!
# The participation window

`recent_slots_filled` holds a bit for each of 128 slots, `participation_count` the number of its ones.  They are
the last slots before that of the head block: a block sets the bit of the slot its parent lies in, and clears those
of the slots that were missed since.

Main result: `participation_window`.
-/

namespace Sigmaengine

open Effect Table

/-! ## The window of a state -/

/-- `popcount` of a 128-bit number. -/
def popcount (w : Nat) : Nat := Window.ones 128 w

/-- `bobserver_participation_rate`. -/
def bobserverParticipationRate (s : Core) : Nat := 10000 * popcount s.dgp.recentSlotsFilled / 128

/-- The absolute slot of a block on top of `s`. -/
def blockSlot (s : Core) (b : SignedBlock) : Nat := s.dgp.currentAslot + getSlotAtTime s b.timestamp

/-- The chains of blocks and pending transactions, with the slots of the blocks, latest first. -/
inductive Produced (env : Env) : Database → List Nat → Prop
  | genesis (key : PublicKey) : Produced env (Sigmaengine.genesis key) []
  | block {d d' : Database} {slots : List Nat} (node : Node) (b : SignedBlock) (h : Produced env d slots)
      (htimed : b.Timed) (happly : applyBlock env node b d = .ok () d') :
      Produced env d' (blockSlot d.core b :: slots)
  | transaction {d d' : Database} {slots : List Nat} (node : Node) (trx : SignedTransaction)
      (h : Produced env d slots) (happly : applyTransaction env node trx d = .ok () d') : Produced env d' slots

/-- A block was produced `k` slots ago, or that slot lies before the first block. -/
def Filled (s : Core) (slots : List Nat) (k : Nat) : Prop :=
  (∃ x ∈ slots, x + k = s.dgp.currentAslot) ∨ ∀ x ∈ slots, s.dgp.currentAslot < x + k

/-- A block was produced `k` slots before the current one, or that slot is the one of genesis or lies before it. -/
def FilledBefore (s : Core) (slots : List Nat) (k : Nat) : Prop :=
  s.dgp.currentAslot ≤ k ∨ ∃ x ∈ 0 :: slots, x + 1 + k = s.dgp.currentAslot

instance (s : Core) (slots : List Nat) : DecidablePred (Filled s slots) := fun k =>
  inferInstanceAs (Decidable ((∃ x ∈ slots, x + k = s.dgp.currentAslot) ∨ ∀ x ∈ slots, s.dgp.currentAslot < x + k))

instance (s : Core) (slots : List Nat) : DecidablePred (FilledBefore s slots) := fun k =>
  inferInstanceAs (Decidable (s.dgp.currentAslot ≤ k ∨ ∃ x ∈ 0 :: slots, x + 1 + k = s.dgp.currentAslot))

/-- The window tells which of 128 slots were filled. -/
structure WindowHolds (s : Core) (filled : Nat → Prop) [DecidablePred filled] : Prop where
  count : s.dgp.participationCount = popcount s.dgp.recentSlotsFilled
  bits : ∀ k < 128, s.dgp.recentSlotsFilled.testBit k = true ↔ filled k
  rate : bobserverParticipationRate s = 10000 * ((List.range 128).countP fun k => decide (filled k)) / 128

/-! ## What moves it -/

/-- The window, its count and the absolute slot. -/
def Core.slotWindow (s : Core) : Nat × Nat × Nat :=
  (s.dgp.recentSlotsFilled, s.dgp.participationCount, s.dgp.currentAslot)

def SameSlots (s s' : Core) : Prop := s'.slotWindow = s.slotWindow

instance : Std.Refl SameSlots := ⟨fun _ => rfl⟩

instance : IsTrans Core SameSlots := ⟨fun _ _ _ h h' => h'.trans h⟩

theorem Stays.sameSlots {s s' : Core} (h : Stays s s') : SameSlots s s' :=
  congrArg (fun p : _ × _ × _ × _ × DynamicGlobalPropertyObject =>
    (p.2.2.2.2.recentSlotsFilled, p.2.2.2.2.participationCount, p.2.2.2.2.currentAslot)) h

theorem AccountsOnly.sameSlots {s s' : Core} (h : AccountsOnly s s') : SameSlots s s' := h.stays.sameSlots

theorem keepsStanding_sameSlots : KeepsStanding SameSlots := fun _ _ _ => always_within (fun _ _ => rfl) _

variable {env : Env} {node : Node} {b : SignedBlock}

theorem sameSlots_applyTransaction (node : Node) (trx : SignedTransaction) :
    Always (CoreRel SameSlots) (applyTransaction env node trx) :=
  always_applyTransaction
    (.ofAccountsOnly (fun _ _ h => h.sameSlots) (fun o s => (stays_bobserverUpdate o s).sameSlots)
      (fun o s => (stays_updateBproducer o s).sameSlots) fun o s => (stays_exceptBobserver o s).sameSlots)
    (fun _ _ => rfl) env node trx

theorem sameSlots_applyBlockHeader {c c' : Core} {signing : Nat}
    (h : applyBlockHeader env node b c = .ok signing c') : SameSlots c c' := by
  simp only [applyBlockHeader, bind_eq_ok, fcAssert_eq_ok, get_eq_ok, modify_eq_ok, pure_eq_ok] at h
  obtain ⟨_, _, ⟨-, rfl⟩, r, _, hvalid, _, _, ⟨rfl, rfl⟩, _, _, ⟨-, rfl⟩, _, _, rfl, _, t, hext, rfl, rfl⟩ := h
  obtain ⟨rfl, -⟩ := headerChecked hvalid
  have hsame := (always_each (always_processHeaderExtension keepsStanding_sameSlots.keepsRole b.bobserverName)
    b.extensions).runs _ _ _ hext
  exact hsame

/-- The window moves on by the missed slots and the block's own. -/
theorem updateGlobalDynamicData_window {c c' : Core} {u : Unit}
    (h : updateGlobalDynamicData env node b c = .ok u c') :
    ∃ p : DynamicGlobalPropertyObject, (p.recentSlotsFilled, p.participationCount, p.currentAslot) = c.slotWindow ∧
      c'.slotWindow = ((shiftSlots ((missedBlocks c b + 1) % 4294967296) p).recentSlotsFilled,
        (shiftSlots ((missedBlocks c b + 1) % 4294967296) p).participationCount,
        c.dgp.currentAslot + (missedBlocks c b + 1) % 4294967296) := by
  simp only [updateGlobalDynamicData, bind_eq_ok, get_eq_ok, modify_eq_ok, fcAssert_eq_ok] at h
  obtain ⟨_, _, ⟨rfl, rfl⟩, _, t, hcount, _, _, rfl, _, _, ⟨rfl, rfl⟩, -, rfl⟩ := h
  have hsame := (always_countMissed keepsStanding_sameSlots.keepsRole _ _).runs _ _ _ hcount
  refine ⟨t.dgp, hsame, ?_⟩
  have haslot : t.dgp.currentAslot = _ := congrArg (fun w => w.2.2) hsame
  simp only [Core.slotWindow, haslot]
  rfl

/-- After the new head the window stays. -/
theorem BlockStages.sameSlots {d d' : Database} (S : BlockStages env node b d d') :
    SameSlots S.advanced d'.core := by
  have hsign : SameSlots S.advanced S.signed :=
    (always_bind always_get fun _ => always_within (fun _ _ => rfl) _ : Always SameSlots
      (updateSigningBobserver S.signing b)).runs _ _ _ S.sign
  have hirreversible : SameSlots S.signed S.settled := by
    have h : Always SameSlots updateLastIrreversibleBlock := by
      refine always_bind always_get fun s => ?_
      split
      · exact fun _ => rfl
      · exact always_bind (readOnly_getBobservers _).always fun _ => fun _ => rfl
    exact h.runs _ _ _ S.irreversible
  have hschedule : Always SameSlots updateBobserverSchedule := by
    refine always_bind (always_bind always_get fun _ => always_pure _) fun num => ?_
    split
    · refine always_bind (always_shutdownExcepted keepsStanding_sameSlots.keepsRole) fun _ => ?_
      refine always_bind always_get fun s => always_bind (readOnly_getBobservers _).always fun bobservers => ?_
      exact always_bind (fun _ => rfl) fun _ => fun _ => rfl
    · exact always_pure _
  have hprepare : SameSlots S.settled S.prepared := by
    have h : Always SameSlots (prepareBlock env b) := by
      refine always_bind (fun _ => rfl) fun _ => always_bind ?_ fun _ => hschedule
      exact always_clearExpiredTransactions fun _ _ => rfl
    exact h.runs _ _ _ S.prepare
  have hpost : SameSlots S.prepared S.processed := (accountsOnly_postProcess.runs _ _ _ S.post).sameSlots
  have hhardforks : SameSlots S.processed S.forked :=
    (always_processHardforks fun _ _ => rfl).runs _ _ _ S.hardforks
  have hnotify : SameSlots S.forked d'.core := by
    have h : MoneyOnly S.forked d'.core := (moneyOnly_notifyAppliedBlock env).runs _ _ _ S.notify
    exact h.accountsOnly.sameSlots
  exact ((((hsign.symm.trans hirreversible.symm).trans hprepare.symm).trans hpost.symm).trans
    (hhardforks.symm.trans hnotify.symm)).symm

/-- The slots a block closes: the missed ones and its own. -/
theorem closedSlots {s : Core} (hs : ClockSound s) (hb : b.Timed) :
    (missedBlocks s b + 1) % 4294967296 = getSlotAtTime s b.timestamp := by
  have htime : s.dgp.time ≠ 0 := by
    have helapsed := hs.elapsed
    simp only [TimePointSec, genesisTime] at *
    omega
  have hsmall : getSlotAtTime s b.timestamp < 4294967296 := by
    have hb' : b.timestamp < 4294967296 := hb
    unfold getSlotAtTime
    simp only [TimePointSec, blockInterval] at *
    split <;> omega
  unfold missedBlocks
  rw [if_neg htime]
  omega

/-! ## Bits and count -/

theorem shiftSlots_burst (n : Nat) (p : DynamicGlobalPropertyObject) :
    (shiftSlots n p).recentSlotsFilled = Window.burst 128 n p.recentSlotsFilled := by
  induction n with
  | zero => rfl
  | succ n ih =>
    show ((shiftSlots n p).recentSlotsFilled * 2 + if (n == 0) then 1 else 0) % 2 ^ 128 = _
    rw [ih]
    cases hbit : n == 0 <;> simp [Window.burst, Window.push, hbit]

theorem shiftSlot_count {filled : Bool} {p : DynamicGlobalPropertyObject} (hrange : p.recentSlotsFilled < 2 ^ 128)
    (hcount : p.participationCount = popcount p.recentSlotsFilled) :
    (shiftSlot filled p).participationCount = popcount (shiftSlot filled p).recentSlotsFilled := by
  have hones : popcount (Window.push 128 filled p.recentSlotsFilled) + (p.recentSlotsFilled.testBit 127).toNat =
      popcount p.recentSlotsFilled + filled.toNat := Window.ones_push filled p.recentSlotsFilled
  have hle : popcount p.recentSlotsFilled ≤ 128 := Window.ones_le _
  rw [Window.testBit_top hrange] at hones
  have hnew : (shiftSlot filled p).recentSlotsFilled = Window.push 128 filled p.recentSlotsFilled := by
    cases filled <;> rfl
  rw [hnew]
  show (p.participationCount + 256 - (if 2 ^ 127 ≤ p.recentSlotsFilled then 1 else 0) +
    (if filled then 1 else 0)) % 256 = _
  have hin : (if filled = true then 1 else 0) = filled.toNat := by cases filled <;> rfl
  have hout : (if 2 ^ 127 ≤ p.recentSlotsFilled then 1 else 0) = (decide (2 ^ 127 ≤ p.recentSlotsFilled)).toNat := by
    rw [Bool.toNat, Bool.cond_decide]
  rw [hcount, hin, hout]
  have hbit := Bool.toNat_le (decide (2 ^ 127 ≤ p.recentSlotsFilled))
  have hnext : popcount (Window.push 128 filled p.recentSlotsFilled) ≤ 128 := Window.ones_le _
  omega

theorem shiftSlots_count (n : Nat) {p : DynamicGlobalPropertyObject} (hrange : p.recentSlotsFilled < 2 ^ 128)
    (hcount : p.participationCount = popcount p.recentSlotsFilled) :
    (shiftSlots n p).recentSlotsFilled < 2 ^ 128 ∧
      (shiftSlots n p).participationCount = popcount (shiftSlots n p).recentSlotsFilled := by
  induction n with
  | zero => exact ⟨hrange, hcount⟩
  | succ n ih => exact ⟨Nat.mod_lt _ (by decide), shiftSlot_count ih.1 ih.2⟩

/-- What a window `(recent_slots_filled, participation_count, current_aslot)` records of the blocks in `slots`:
a bit for the slot after each block, or after genesis. -/
structure WindowRecord (v : Nat × Nat × Nat) (slots : List Nat) : Prop where
  range : v.1 < 2 ^ 128
  count : v.2.1 = popcount v.1
  head : v.2.2 ∈ 0 :: slots
  past : ∀ x ∈ slots, x ≤ v.2.2
  bits : ∀ k < 128, v.1.testBit k = true ↔ v.2.2 ≤ k ∨ ∃ x ∈ 0 :: slots, x + 1 + k = v.2.2

theorem windowRecord_genesis (key : PublicKey) : WindowRecord (genesis key).core.slotWindow [] := by
  have hwindow : (genesis key).core.slotWindow = (2 ^ 128 - 1, 128, 0) := rfl
  rw [hwindow]
  refine ⟨by decide, by decide +kernel, List.mem_cons_self, fun x hx => absurd hx List.not_mem_nil, fun k hk => ?_⟩
  rw [Nat.testBit_two_pow_sub_one]
  simp [hk]

/-- **One block**: the bit it sets is that of the first slot after its parent. -/
theorem WindowRecord.shift {p : DynamicGlobalPropertyObject} {slots : List Nat}
    (h : WindowRecord (p.recentSlotsFilled, p.participationCount, p.currentAslot) slots) (n : Nat) :
    WindowRecord ((shiftSlots n p).recentSlotsFilled, (shiftSlots n p).participationCount, p.currentAslot + n)
      ((p.currentAslot + n) :: slots) := by
  obtain ⟨hrange, hcount⟩ := shiftSlots_count n h.range h.count
  have hpast := h.past
  have hhead := h.head
  refine ⟨hrange, hcount, List.mem_cons_of_mem _ List.mem_cons_self, ?_, fun k hk => ?_⟩
  · rintro x (- | ⟨-, hx⟩)
    · exact Nat.le_refl _
    · exact Nat.le_trans (hpast x hx) (Nat.le_add_right _ n)
  · have hle : ∀ x ∈ 0 :: slots, x ≤ p.currentAslot := by
      simpa using hpast
    have hown : (∃ x ∈ 0 :: (p.currentAslot + n) :: slots, x + 1 + k = p.currentAslot + n) ↔
        ∃ x ∈ 0 :: slots, x + 1 + k = p.currentAslot + n := by
      simp only [List.mem_cons, exists_eq_or_imp]
      constructor
      · rintro (hx | hx | hx)
        · exact .inl hx
        · omega
        · exact .inr hx
      · rintro (hx | hx)
        · exact .inl hx
        · exact .inr (.inr hx)
    show (shiftSlots n p).recentSlotsFilled.testBit k = true ↔ p.currentAslot + n ≤ k ∨ _
    rw [hown, shiftSlots_burst]
    cases n with
    | zero => exact h.bits k hk
    | succ n =>
      rw [Window.testBit_burst n p.recentSlotsFilled hk]
      by_cases hbefore : k < n
      · rw [if_pos hbefore]
        constructor
        · intro hfalse
          cases hfalse
        · rintro (hold | ⟨x, hx, hslot⟩)
          · omega
          · have := hle x hx
            omega
      · rw [if_neg hbefore]
        by_cases hfirst : k = n
        · rw [if_pos hfirst]
          refine iff_of_true rfl (.inr ⟨_, hhead, ?_⟩)
          show p.currentAslot + 1 + k = _
          omega
        · rw [if_neg hfirst, h.bits (k - (n + 1)) (by omega)]
          refine or_congr ?_ (exists_congr fun x => and_congr_right fun hx => ?_)
          · show p.currentAslot ≤ _ ↔ _
            omega
          · show x + 1 + _ = p.currentAslot ↔ _
            omega

/-! ## Runs -/

theorem Produced.clockSound {d : Database} {slots : List Nat} (h : Produced env d slots) : ClockSound d.core := by
  induction h with
  | genesis key => exact clockSound_genesis key
  | block node b h htimed happly ih =>
    obtain ⟨S, -⟩ := blockStages happly
    exact (ih.block htimed S).1
  | transaction node trx h happly ih =>
    have hclock := (sameRound_applyTransaction trx).runs _ _ _ happly |>.clock
    refine ⟨?_, ?_, ?_, ?_⟩
    · rw [hclock.headBlockId, hclock.headBlockNumber]
      exact ih.number
    · rw [hclock.headBlockNumber, hclock.time]
      exact ih.first
    · rw [hclock.headBlockNumber, hclock.time]
      exact ih.elapsed
    · rw [hclock.time]
      exact ih.range

theorem Produced.windowRecord {d : Database} {slots : List Nat} (h : Produced env d slots) :
    WindowRecord d.core.slotWindow slots := by
  induction h with
  | genesis key => exact windowRecord_genesis key
  | @block d d' slots node b h htimed happly ih =>
    obtain ⟨S, -⟩ := blockStages happly
    have hopened : SameSlots d.core S.opened := sameSlots_applyBlockHeader S.header
    have hexecuted : SameSlots S.opened S.executed.core :=
      (always_each (sameSlots_applyTransaction node) _).runs _ _ _ S.transactions
    obtain ⟨p, hp, hadvanced⟩ := updateGlobalDynamicData_window S.globals
    have hsame : (p.recentSlotsFilled, p.participationCount, p.currentAslot) = d.core.slotWindow :=
      hp.trans (hexecuted.trans hopened)
    have haslot : S.executed.core.dgp.currentAslot = p.currentAslot := congrArg (fun v => v.2.2) hp.symm
    have haslot' : d.core.dgp.currentAslot = p.currentAslot := congrArg (fun v => v.2.2) hsame.symm
    have hslots : (missedBlocks S.executed.core b + 1) % 4294967296 = getSlotAtTime d.core b.timestamp := by
      have hclock := S.sameRound.clock
      rw [← closedSlots h.clockSound htimed]
      simp only [missedBlocks, hclock.time, hclock.getSlotAtTime]
    rw [← hsame] at ih
    rw [S.sameSlots, hadvanced, hslots, haslot, blockSlot, haslot']
    exact ih.shift _
  | transaction node trx h happly ih =>
    have hsame : SameSlots _ _ := (sameSlots_applyTransaction node trx).runs _ _ _ happly
    rw [hsame]
    exact ih

/-! ## What the window says -/

/-- **The participation window.** In every state that blocks and pending transactions lead to, the count is
the number of ones in the window, and bits and rate tell which of the 128 slots before the current one were filled. -/
theorem participation_window (env : Env) {d : Database} {slots : List Nat} (h : Produced env d slots) :
    WindowHolds d.core (FilledBefore d.core slots) := by
  have hrecord := h.windowRecord
  have hbits : ∀ k < 128, d.core.dgp.recentSlotsFilled.testBit k = true ↔ FilledBefore d.core slots k := hrecord.bits
  refine ⟨hrecord.count, hbits, ?_⟩
  have hshare : popcount d.core.dgp.recentSlotsFilled =
      (List.range 128).countP fun k => decide (FilledBefore d.core slots k) := by
    apply List.countP_congr
    intro k hk
    rw [decide_eq_true_eq]
    exact hbits k (List.mem_range.mp hk)
  rw [bobserverParticipationRate, hshare]

theorem produced_sampleAfter {b : SignedBlock} {d : Database} {slots : List Nat} {x : Nat}
    (h : Produced sampleEnv d slots) (htimed : b.Timed) (hrun : succeeds (applyBlock sampleEnv {} b d) = true)
    (hslot : blockSlot d.core b = x) : Produced sampleEnv (sampleAfter b d) (x :: slots) := by
  rw [← hslot]
  exact h.block {} b htimed (eq_ok_of_succeeds hrun)

/-- A first block in the first slot. -/
theorem produced_firstBlock : Produced sampleEnv (sampleAfter firstBlock (genesis ⟨1⟩)) [1] := by
  have hrun : succeeds (applyBlock sampleEnv {} firstBlock (genesis ⟨1⟩)) = true ∧
      blockSlot (genesis ⟨1⟩).core firstBlock = 1 := by
    decide +kernel
  refine produced_sampleAfter (.genesis ⟨1⟩) ?_ hrun.1 hrun.2
  unfold SignedBlock.Timed
  decide

/-- A block that skips two slots. -/
theorem produced_lateBlock :
    Produced sampleEnv (sampleAfter lateBlock (sampleAfter firstBlock (genesis ⟨1⟩))) [4, 1] := by
  have hrun : succeeds (applyBlock sampleEnv {} lateBlock (sampleAfter firstBlock (genesis ⟨1⟩))) = true ∧
      blockSlot (sampleAfter firstBlock (genesis ⟨1⟩)).core lateBlock = 4 := by
    decide +kernel
  refine produced_sampleAfter produced_firstBlock ?_ hrun.1 hrun.2
  unfold SignedBlock.Timed
  decide

theorem participation_window_lateBlock :
    Produced sampleEnv (sampleAfter lateBlock (sampleAfter firstBlock (genesis ⟨1⟩))) [4, 1] ∧
      WindowHolds (sampleAfter lateBlock (sampleAfter firstBlock (genesis ⟨1⟩))).core
        (FilledBefore (sampleAfter lateBlock (sampleAfter firstBlock (genesis ⟨1⟩))).core [4, 1]) :=
  ⟨produced_lateBlock, participation_window sampleEnv produced_lateBlock⟩

/-- The head block lies in slot 4 and has no bit yet; bit 0 is that of slot 3, which was missed. -/
theorem current_slot_not_in_window : ∃ d : Database, Produced sampleEnv d [4, 1] ∧
    d.core.dgp.currentAslot = 4 ∧
    (List.range 4).map (fun k => d.core.dgp.recentSlotsFilled.testBit k) = [false, false, true, true] ∧
    ¬ WindowHolds d.core (Filled d.core [4, 1]) := by
  have hwindow : (sampleAfter lateBlock (sampleAfter firstBlock (genesis ⟨1⟩))).core.dgp.currentAslot = 4 ∧
      (List.range 4).map (fun k =>
        (sampleAfter lateBlock (sampleAfter firstBlock (genesis ⟨1⟩))).core.dgp.recentSlotsFilled.testBit k) =
          [false, false, true, true] := by
    decide +kernel
  obtain ⟨haslot, hbits⟩ := hwindow
  refine ⟨_, produced_lateBlock, haslot, hbits, fun h => ?_⟩
  have hfilled : Filled (sampleAfter lateBlock (sampleAfter firstBlock (genesis ⟨1⟩))).core [4, 1] 0 := by
    refine .inl ⟨4, List.mem_cons_self, ?_⟩
    rw [haslot]
  have hbit := (h.bits 0 (by decide)).mpr hfilled
  exact absurd ((List.cons.inj hbits).1.symm.trans hbit) Bool.false_ne_true

end Sigmaengine
