import Sigmaengine.Chain.Stages
import Sigmaengine.Ledger.Runs

/-!
# One block per slot

Slots are three seconds long.  They are aligned to multiples of three after the first block and counted from
genesis before it, and the code recomputes them in 32-bit arithmetic from the floored head time: in the
header, in `update_global_dynamic_data` and again, after the head has moved, for the signer.

Main result: `one_block_per_slot`.
-/

namespace Sigmaengine

open Effect Table

/-! ## The clock of a chain -/

/-- `time_point_sec` counts seconds in 32 bits. -/
def SignedBlock.Timed (b : SignedBlock) : Prop := b.timestamp < 4294967296

instance (b : SignedBlock) : Decidable b.Timed := inferInstanceAs (Decidable (_ < _))

/-- Chains of such blocks. -/
def timedBlock : Node → SignedBlock → Database → Prop := fun _ b _ => b.Timed

/-- The id of the head carries its number, and no two blocks share a second. -/
structure ClockSound (s : Core) : Prop where
  number : s.dgp.headBlockId.num = s.dgp.headBlockNumber
  first : s.dgp.headBlockNumber = 0 → s.dgp.time = genesisTime
  elapsed : genesisTime + s.dgp.headBlockNumber ≤ s.dgp.time
  range : s.dgp.time < 4294967296

theorem clockSound_genesis (key : PublicKey) : ClockSound (genesis key).core :=
  ⟨rfl, fun _ => rfl, Nat.le_refl _, by show genesisTime < 4294967296; decide⟩

variable {env : Env} {node : Node} {b : SignedBlock} {d d' : Database}

/-- The number of a block is one more than that of the head: the 32-bit count does not wrap, because time
runs out first. -/
theorem ClockSound.blockNum (hs : ClockSound d.core) (hb : b.Timed) (S : BlockStages env node b d d') :
    b.blockNum = d.core.dgp.headBlockNumber + 1 := by
  have hlater := S.checked.later
  have helapsed := hs.elapsed
  have hnum : b.previous.num = d.core.dgp.headBlockNumber := by
    rw [← S.checked.linked]
    exact hs.number
  unfold SignedBlockHeader.blockNum
  rw [hnum]
  refine Nat.mod_eq_of_lt ?_
  have hb' : b.timestamp < 4294967296 := hb
  simp only [TimePointSec] at *
  omega

/-- **A block keeps the clock sound** and counts one block on. -/
theorem ClockSound.block (hs : ClockSound d.core) (hb : b.Timed) (S : BlockStages env node b d d') :
    ClockSound d'.core ∧ d'.core.dgp.headBlockNumber = d.core.dgp.headBlockNumber + 1 ∧
      d'.core.dgp.time = b.timestamp := by
  have hclock := S.clock
  simp only [Core.clock, Prod.mk.injEq] at hclock
  obtain ⟨hnum, hid, htime, -, -⟩ := hclock
  have hsucc := hs.blockNum hb S
  have hlater := S.checked.later
  have helapsed := hs.elapsed
  have hb' : b.timestamp < 4294967296 := hb
  refine ⟨⟨?_, ?_, ?_, ?_⟩, ?_, htime⟩
  · rw [hid, hnum]
    rfl
  · intro hzero
    omega
  · rw [hnum, htime, hsucc]
    simp only [TimePointSec] at *
    omega
  · rw [htime]
    exact hb'
  · rw [hnum, hsucc]

/-- The stage before the per-block routines. -/
theorem swept_settled {S : BlockStages env node b d d'}
    (h : applyBlockHead env node b d = .ok () { S.executed with core := S.settled }) :
    sweptState env node b d = S.settled := by
  unfold sweptState
  rw [h, after_ok]

/-! ## Slots -/

/-- Where slot zero starts: at genesis before the first block, at the last multiple of three after it. -/
def slotStart (s : Core) : Nat :=
  if s.dgp.headBlockNumber = 0 then s.dgp.time else s.dgp.time / blockInterval * blockInterval

theorem getSlotTime_eq (s : Core) {slot : Nat} (hslot : 0 < slot) :
    getSlotTime s slot = (slotStart s + 3 * slot) % 4294967296 := by
  unfold getSlotTime slotStart addSeconds
  rw [if_neg (by omega)]
  split
  · simp only [blockInterval, Nat.mul_comm]
  · simp only [blockInterval, Nat.mul_comm]

/-- While the next slot is a 32-bit time, `get_slot_at_time` counts whole slots since slot zero. -/
theorem getSlotAtTime_eq {s : Core} (hnext : slotStart s + 3 < 4294967296) (t : TimePointSec) :
    getSlotAtTime s t = (t - slotStart s) / 3 := by
  have hfirst : getSlotTime s 1 = slotStart s + 3 := by
    rw [getSlotTime_eq s Nat.one_pos]
    exact Nat.mod_eq_of_lt hnext
  unfold getSlotAtTime
  rw [hfirst]
  simp only [TimePointSec, blockInterval] at *
  split <;> omega

/-- The slots strictly between the head and time `t`. -/
def skippedSlots (s : Core) (t : TimePointSec) : Nat := (t - slotStart s) / 3 - 1

/-- `slot` is the last slot that starts by `w`, among those whose start is a 32-bit time; zero when there is
none. -/
structure LastSlot (s : Core) (w : TimePointSec) (slot : Nat) : Prop where
  started : slot = 0 ∨ slotStart s + 3 * slot < 4294967296 ∧ getSlotTime s slot ≤ w
  last : ∀ n, 0 < n → slotStart s + 3 * n < 4294967296 → getSlotTime s n ≤ w → n ≤ slot

theorem lastSlot_getSlotAtTime {s : Core} (hnext : slotStart s + 3 < 4294967296) {w : TimePointSec}
    (hstart : slotStart s ≤ w) (hw : w < 4294967296) : LastSlot s w (getSlotAtTime s w) := by
  have hat := getSlotAtTime_eq hnext w
  constructor
  · rcases Nat.eq_zero_or_pos (getSlotAtTime s w) with hzero | hpos
    · exact .inl hzero
    · right
      rw [getSlotTime_eq s hpos, hat]
      simp only [TimePointSec] at *
      omega
  · intro n hpos hrange hle
    rw [getSlotTime_eq s hpos, Nat.mod_eq_of_lt hrange] at hle
    rw [hat]
    simp only [TimePointSec] at *
    omega

/-- In the last second the next slot has wrapped around, and 1431655765 slots seem to have started. -/
theorem getSlotAtTime_end {s : Core} (hend : slotStart s = 4294967295) : getSlotAtTime s 4294967295 = 1431655765 := by
  have hfirst : getSlotTime s 1 = 2 := by
    rw [getSlotTime_eq s Nat.one_pos, hend]
  unfold getSlotAtTime
  rw [hfirst]
  decide

/-- Some slot number beyond what `get_slot_at_time` answers wraps around to a time that has passed. -/
theorem exists_wrapped_slot {s : Core} (hpos : 0 < slotStart s) {w : TimePointSec} (hstart : slotStart s ≤ w)
    (hw : w < 4294967296) (hnext : slotStart s + 3 < 4294967296 ∨ slotStart s = 4294967295) :
    ∃ n, 0 < n ∧ n < 4294967296 ∧ getSlotTime s n ≤ w ∧ getSlotAtTime s w < n := by
  rcases hnext with hnext | hend
  · refine ⟨1431655765, by decide, by decide, ?_, ?_⟩
    · rw [getSlotTime_eq s (by decide)]
      simp only [TimePointSec] at *
      omega
    · rw [getSlotAtTime_eq hnext]
      simp only [TimePointSec] at *
      omega
  · obtain rfl : w = 4294967295 := by
      simp only [TimePointSec] at *
      omega
    refine ⟨1431655766, by decide, by decide, ?_, ?_⟩
    · rw [getSlotTime_eq s (by decide), hend]
      decide
    · rw [getSlotAtTime_end hend]
      decide

theorem ClockSound.slotStart_pos {s : Core} (hs : ClockSound s) : 0 < slotStart s := by
  have helapsed := hs.elapsed
  unfold slotStart
  simp only [TimePointSec, blockInterval, genesisTime] at *
  split <;> omega

/-- While another block can follow, the next slot is a 32-bit time. -/
theorem ClockSound.slotStart_lt {s : Core} (hs : ClockSound s) (htime : s.dgp.time < 4294967295) :
    slotStart s + 3 < 4294967296 := by
  unfold slotStart
  simp only [TimePointSec, blockInterval] at *
  split
  · rw [hs.first ‹_›]
    decide
  · omega

/-- In the last second the slots end. -/
theorem slotStart_end {s : Core} (htime : s.dgp.time = 4294967295) :
    slotStart s = 4294967295 := by
  unfold slotStart
  rw [htime]
  split
  · rfl
  · rfl

/-- **The last slot is found** exactly while another block can follow. -/
theorem ClockSound.lastSlot_iff {s : Core} (hs : ClockSound s) :
    (∀ w, slotStart s ≤ w → w < 4294967296 → LastSlot s w (getSlotAtTime s w)) ↔ s.dgp.time < 4294967295 := by
  constructor
  · intro hlast
    by_contra htime
    have hend := slotStart_end (Nat.le_antisymm (Nat.le_of_lt_succ hs.range) (Nat.le_of_not_lt htime))
    have hstarted := (hlast 4294967295 hend.le (by decide)).started
    rw [getSlotAtTime_end hend, hend] at hstarted
    rcases hstarted with hzero | ⟨hrange, -⟩
    · exact absurd hzero (by decide)
    · exact absurd hrange (by decide)
  · exact fun htime w hstart hw => lastSlot_getSlotAtTime (hs.slotStart_lt htime) hstart hw

/-- Over all slot numbers of 32 bits it never is. -/
theorem ClockSound.wrapped_slot {s : Core} (hs : ClockSound s) {w : TimePointSec} (hstart : slotStart s ≤ w)
    (hw : w < 4294967296) : ∃ n, 0 < n ∧ n < 4294967296 ∧ getSlotTime s n ≤ w ∧ getSlotAtTime s w < n := by
  refine exists_wrapped_slot hs.slotStart_pos hstart hw ?_
  by_cases htime : s.dgp.time < 4294967295
  · exact .inl (hs.slotStart_lt htime)
  · exact .inr (slotStart_end (Nat.le_antisymm (Nat.le_of_lt_succ hs.range) (Nat.le_of_not_lt htime)))

/-! ## Blocks -/

/-- **The slot of a block**: the header asks for a slot, so none is lost to the 32-bit subtraction. -/
theorem missedBlocks_eq (hs : ClockSound d.core) (hb : b.Timed) (S : BlockStages env node b d d')
    (hcheck : node.skip.bobserverScheduleCheck = false) :
    missedBlocks d.core b = skippedSlots d.core b.timestamp ∧
      missedBlocks d.core b + 1 = getSlotAtTime d.core b.timestamp := by
  have hb' : b.timestamp < 4294967296 := hb
  have hlater := S.checked.later
  have hpos := S.checked.slot hcheck
  have htime : d.core.dgp.time ≠ 0 := by
    have helapsed := hs.elapsed
    simp only [TimePointSec, genesisTime] at *
    omega
  have hat : getSlotAtTime d.core b.timestamp = (b.timestamp - slotStart d.core) / 3 := by
    refine getSlotAtTime_eq (hs.slotStart_lt ?_) b.timestamp
    simp only [TimePointSec] at *
    omega
  unfold missedBlocks skippedSlots
  rw [if_neg htime]
  simp only [TimePointSec] at *
  omega

/-- A block after the first lies in a later slot than its parent. -/
theorem slot_lt (hs : ClockSound d.core) (hb : b.Timed) (S : BlockStages env node b d d')
    (hcheck : node.skip.bobserverScheduleCheck = false) (hfirst : 0 < d.core.dgp.headBlockNumber) :
    d.core.dgp.time / 3 < b.timestamp / 3 := by
  have hb' : b.timestamp < 4294967296 := hb
  have hlater := S.checked.later
  have hpos := S.checked.slot hcheck
  have htime : d.core.dgp.time < 4294967295 := by
    simp only [TimePointSec] at *
    omega
  rw [getSlotAtTime_eq (hs.slotStart_lt htime), slotStart, if_neg (by omega)] at hpos
  simp only [TimePointSec, blockInterval] at *
  omega

/-- After the head has moved its time is in slot zero, but in the last second. -/
theorem ClockSound.getSlotAtTime_eq_zero {s : Core} (hs : ClockSound s) :
    getSlotAtTime s s.dgp.time = 0 ↔ s.dgp.time < 4294967295 := by
  constructor
  · intro hzero
    by_contra htime
    have hlast := Nat.le_antisymm (Nat.le_of_lt_succ hs.range) (Nat.le_of_not_lt htime)
    rw [hlast, getSlotAtTime_end (slotStart_end hlast)] at hzero
    exact absurd hzero (by decide)
  · intro htime
    rw [getSlotAtTime_eq (hs.slotStart_lt htime), slotStart]
    simp only [TimePointSec, blockInterval] at *
    split <;> omega

/-- The signer records the absolute slot of its block and the slot that the block is in after the head has moved. -/
theorem signer_lastAslot (S : BlockStages env node b d d') (hs : ClockSound d'.core) :
    ∃ r ∈ d'.core.bobservers.rows, r.2.account = b.bobserverName ∧
      (r.2.lastAslot = d'.core.dgp.currentAslot ↔ b.timestamp < 4294967295) := by
  obtain ⟨o₀, hrow, hname⟩ := S.checked.signer
  obtain ⟨o, ho, hrecord⟩ := S.advanced_roster.kept _ _ (lookup_eq_some.mpr hrow)
  obtain ⟨o', ho', -, -, hlook⟩ := updateSigningBobserver_eq_ok S.sign
  obtain rfl : o = o' := Option.some.inj (ho.symm.trans ho')
  have hsigned := hlook S.signing
  rw [if_pos rfl, ← (updateLastIrreversibleBlock_same S.irreversible).1] at hsigned
  obtain ⟨r, hr, hkept⟩ := S.sameHour.2.kept _ _ hsigned
  simp only [BobserverObject.record, Prod.mk.injEq] at hrecord hkept
  refine ⟨(S.signing, r), lookup_eq_some.mp hr, ?_, ?_⟩
  · rw [hkept.1, hrecord.1, hname]
  · have hadvanced := S.advanced_clock
    have hend := S.clock
    simp only [Core.clock, Prod.mk.injEq] at hadvanced hend
    have hsame : getSlotAtTime S.advanced b.timestamp = getSlotAtTime d'.core d'.core.dgp.time := by
      simp only [getSlotAtTime, getSlotTime, hadvanced.1, hadvanced.2.2.1, hend.1, hend.2.2.1]
    rw [hkept.2.1, hsame, hadvanced.2.2.2.1, ← hend.2.2.2.1, Nat.add_eq_left, hs.getSlotAtTime_eq_zero, hend.2.2.1]

/-! ## Runs -/

/-- The chains whose blocks all pass the schedule check, with the slots they skipped in all. -/
inductive SlotRun (env : Env) : Database → Nat → Prop
  | genesis (key : PublicKey) : SlotRun env (Sigmaengine.genesis key) 0
  | block {d d' : Database} {skipped : Nat} (node : Node) (b : SignedBlock) (h : SlotRun env d skipped)
      (hcheck : node.skip.bobserverScheduleCheck = false) (htimed : b.Timed)
      (happly : applyBlock env node b d = .ok () d') :
      SlotRun env d' (skipped + skippedSlots d.core b.timestamp)

theorem SlotRun.clockSound {skipped : Nat} (h : SlotRun env d skipped) : ClockSound d.core := by
  induction h with
  | genesis key => exact clockSound_genesis key
  | block node b h hcheck htimed happly ih =>
    obtain ⟨S, -⟩ := blockStages happly
    exact (ih.block htimed S).1

/-- The absolute slot counts the blocks and the skipped slots. -/
theorem SlotRun.currentAslot {skipped : Nat} (h : SlotRun env d skipped) :
    d.core.dgp.currentAslot = d.core.dgp.headBlockNumber + skipped := by
  induction h with
  | genesis key => rfl
  | @block d d' skipped node b h hcheck htimed happly ih =>
    obtain ⟨S, -⟩ := blockStages happly
    have hs := h.clockSound
    obtain ⟨hmissed, hslot⟩ := missedBlocks_eq hs htimed S hcheck
    have hclock := S.clock
    simp only [Core.clock, Prod.mk.injEq] at hclock
    have hsmall : skippedSlots d.core b.timestamp + 1 < 4294967296 := by
      have ht : b.timestamp < 4294967296 := htimed
      simp only [skippedSlots, TimePointSec] at *
      omega
    rw [hclock.2.2.2.1, hmissed, Nat.mod_eq_of_lt hsmall, (hs.block htimed S).2.1, ih]
    omega

/-- **One block per slot.** On every chain that passes the schedule check, the absolute slot is the head number plus the
skipped slots, and exactly while another block can follow `get_slot_at_time` finds the last slot that has started, among those
that start at a 32-bit time; a slot number beyond them wraps around to a time that has passed.  Each next block lies in a later
slot than its parent, its missed slots are counted without underflow, and its signer records the new absolute slot exactly
while the slot after it is a 32-bit time. -/
theorem one_block_per_slot (env : Env) {d : Database} {skipped : Nat} (h : SlotRun env d skipped) :
    d.core.dgp.currentAslot = d.core.dgp.headBlockNumber + skipped ∧
      ((∀ w, slotStart d.core ≤ w → w < 4294967296 → LastSlot d.core w (getSlotAtTime d.core w)) ↔
        d.core.dgp.time < 4294967295) ∧
      (∀ w, slotStart d.core ≤ w → w < 4294967296 →
        ∃ n, 0 < n ∧ n < 4294967296 ∧ getSlotTime d.core n ≤ w ∧ getSlotAtTime d.core w < n) ∧
      ∀ node b d', node.skip.bobserverScheduleCheck = false → b.Timed →
        applyBlock env node b d = .ok () d' →
          (0 < d.core.dgp.headBlockNumber → d.core.dgp.time / 3 < b.timestamp / 3) ∧
          missedBlocks d.core b = skippedSlots d.core b.timestamp ∧
          missedBlocks d.core b + 1 = getSlotAtTime d.core b.timestamp ∧
          ∃ r ∈ d'.core.bobservers.rows, r.2.account = b.bobserverName ∧
            (r.2.lastAslot = d'.core.dgp.currentAslot ↔ b.timestamp < 4294967295) := by
  have hs := h.clockSound
  refine ⟨h.currentAslot, hs.lastSlot_iff, fun w hstart hw => hs.wrapped_slot hstart hw,
    fun node b d' hcheck htimed happly => ?_⟩
  obtain ⟨S, -⟩ := blockStages happly
  obtain ⟨hmissed, hslot⟩ := missedBlocks_eq hs htimed S hcheck
  obtain ⟨r, hr, hname, haslot⟩ := signer_lastAslot S (hs.block htimed S).1
  exact ⟨slot_lt hs htimed S hcheck, hmissed, hslot, r, hr, hname, haslot⟩

/-! ## A long absence

When one bobserver has the schedule to itself and misses more slots than the window counts, the slots between
leave no trace but their number. -/

/-- The new head, `slots` slots on, with the window shifted by `shift`. -/
def advanceHead (env : Env) (node : Node) (b : SignedBlock) (shift slots : Nat) : CoreM Unit := do
  modify fun s =>
    let d := shiftSlots shift s.dgp
    { s with dgp := { d with
      headBlockNumber := b.blockNum
      headBlockId := b.id env.codec
      time := b.timestamp
      currentAslot := s.dgp.currentAslot + slots } }
  let s ← get
  fcAssert (node.skip.undoHistoryCheck ||
    (s.dgp.headBlockNumber + 4294967296 - s.dgp.lastIrreversibleBlockNum) % 4294967296 < maxUndoHistory)
    "The database does not have enough undo history to support a blockchain with so many missed blocks."

theorem updateGlobalDynamicData_eq (b : SignedBlock) (s : Core) :
    updateGlobalDynamicData env node b s =
      (countMissed b.bobserverName (missedBlocks s b) >>= fun _ =>
        advanceHead env node b ((missedBlocks s b + 1) % 4294967296) ((missedBlocks s b + 1) % 4294967296)) s := by
  rfl

/-- `update_global_dynamic_data` after such an absence. -/
def updateAfterAbsence (env : Env) (node : Node) (b : SignedBlock) : CoreM Unit := do
  let s ← get
  advanceHead env node b 129 (missedBlocks s b + 1)

/-- `_apply_block` after such an absence. -/
def applyAfterAbsence (env : Env) (node : Node) (b : SignedBlock) : ChainM Unit := do
  (do
    let signing ← onCore (applyBlockHeader env node b)
    each (applyTransaction env node) b.transactions
    onCore do
      updateAfterAbsence env node b
      updateSigningBobserver signing b
      updateLastIrreversibleBlock)
  applyBlockTail env b

/-- The first of the missed slots pushes a one into the window, and the others push it out. -/
theorem shiftSlots_recent (p : DynamicGlobalPropertyObject) (n : Nat) :
    (shiftSlots (n + 1) p).recentSlotsFilled = (p.recentSlotsFilled * 2 + 1) * 2 ^ n % 2 ^ 128 := by
  induction n with
  | zero => simp [shiftSlots, shiftSlot]
  | succ n ih =>
    have hshift : (shiftSlots (n + 2) p).recentSlotsFilled =
        (shiftSlots (n + 1) p).recentSlotsFilled * 2 % 2 ^ 128 := rfl
    rw [hshift, ih, Nat.mod_mul_mod, Nat.pow_succ 2 n, Nat.mul_assoc]

/-- An empty window stays empty. -/
theorem shiftSlot_false {p : DynamicGlobalPropertyObject} (hslots : p.recentSlotsFilled = 0)
    (hcount : p.participationCount < 256) : shiftSlot false p = p := by
  obtain ⟨⟩ := p
  simp only [shiftSlot] at *
  subst hslots
  simpa using hcount

theorem shiftSlots_absent (p : DynamicGlobalPropertyObject) (n : Nat) :
    shiftSlots (n + 129) p = shiftSlots 129 p := by
  induction n with
  | zero => rw [Nat.zero_add]
  | succ n ih =>
    have hslots : (shiftSlots 129 p).recentSlotsFilled = 0 := by
      rw [shiftSlots_recent, Nat.mul_mod_left]
    have hcount : (shiftSlots 129 p).participationCount < 256 := Nat.mod_lt _ (by decide)
    have hstep : shiftSlots (n + 1 + 129) p = shiftSlot false (shiftSlots (n + 129) p) := by
      rw [show n + 1 + 129 = n + 129 + 1 by omega, shiftSlots]
      rfl
    rw [hstep, ih]
    exact shiftSlot_false hslots hcount

theorem advanceHead_absent (b : SignedBlock) (n slots : Nat) :
    advanceHead env node b (n + 129) slots = advanceHead env node b 129 slots := by
  unfold advanceHead
  simp only [shiftSlots_absent]

/-- Slots of the producer itself are not charged. -/
theorem countMissed_alone {producer : AccountName} {s : Core} (n : Nat)
    (halone : ∀ slot, getScheduledBobserver s slot = producer)
    (hmember : ∃ r, getBobserver producer s = .ok r s) : countMissed producer n s = .ok () s := by
  induction n with
  | zero => rfl
  | succ n ih =>
    obtain ⟨r, hr⟩ := hmember
    obtain ⟨-, -, hname⟩ := getBobserver_eq_ok hr
    rw [countMissed, bind_of_ok ih, bind_of_ok (get_apply s), halone, bind_of_ok hr, if_pos hname]
    rfl

/-- **A long absence**: the block applies as if the missed slots were those of one full window. -/
theorem applyBlock_absent {b : SignedBlock} (hone : d.core.bobserverSchedule.numScheduledBobservers = 1)
    (halone : d.core.bobserverSchedule.currentShuffledBobservers.getD 0 default = b.bobserverName)
    (hlong : 128 ≤ missedBlocks d.core b) (hshort : missedBlocks d.core b + 1 < 4294967296) :
    applyBlock env node b d = applyAfterAbsence env node b d := by
  have hupdate : ∀ signing s t, applyBlockHeader env node b d.core = .ok signing s →
      each (applyTransaction env node) b.transactions { d with core := s } = .ok () t →
      updateGlobalDynamicData env node b t.core = updateAfterAbsence env node b t.core := by
    intro signing s t hheader htrxs
    have hopened := applyBlockHeader_checked hheader
    have hexecuted : SameRound s t.core :=
      (always_each (@sameRound_applyTransaction env node) _).runs _ _ _ htrxs
    have hsame : SameRound d.core t.core := IsTrans.trans _ _ _ hopened.2 hexecuted
    have hscheduled : ∀ slot, getScheduledBobserver t.core slot = b.bobserverName := by
      intro slot
      simp only [getScheduledBobserver, hsame.schedule, hone, Nat.mod_one]
      exact halone
    have hmember : ∃ r, getBobserver b.bobserverName t.core = .ok r t.core := by
      obtain ⟨o, ho, hname⟩ := hopened.1.signer
      obtain ⟨o', ho', hrecord⟩ := hsame.roster.kept _ _ (lookup_eq_some.mpr ho)
      have hname' : o'.account = b.bobserverName := (congrArg Prod.fst hrecord).trans hname
      cases hfind : t.core.bobservers.find? fun x => x.account == b.bobserverName with
      | none =>
        have hother := find?_eq_none hfind (lookup_eq_some.mp ho')
        simp [hname'] at hother
      | some r => exact ⟨r, getIn_eq_ok.mpr ⟨hfind, rfl⟩⟩
    have hmissed : missedBlocks t.core b = missedBlocks d.core b := by
      simp only [missedBlocks, hsame.clock.time, hsame.clock.getSlotAtTime]
    have hwindow : (missedBlocks t.core b + 1) % 4294967296 = missedBlocks d.core b - 128 + 129 := by
      rw [hmissed, Nat.mod_eq_of_lt hshort]
      omega
    have hslots : missedBlocks d.core b - 128 + 129 = missedBlocks d.core b + 1 := by omega
    rw [updateGlobalDynamicData_eq, bind_of_ok (countMissed_alone _ hscheduled hmember), hwindow,
      advanceHead_absent, updateAfterAbsence, bind_of_ok (get_apply _), hmissed, hslots]
  refine bind_congr_left (bind_congr_ok fun signing s hheader => bind_congr_ok fun _ t htrxs => ?_)
  obtain ⟨c, hc, rfl⟩ := within_eq_ok.mp hheader
  unfold onCore within
  rw [show corePart.get t = t.core from rfl, bind_congr_left (hupdate _ _ _ hc htrxs)]

/-! ## Samples -/

/-- A first block in the first slot, and one after it that skips two. -/
def firstBlock : SignedBlock := sampleBlock {} 1 []

def lateBlock : SignedBlock := sampleBlock (firstBlock.id sampleEnv.codec) 4 []

theorem slotRun_sampleAfter {b : SignedBlock} {d : Database} {n k : Nat} (h : SlotRun sampleEnv d n)
    (htimed : b.Timed) (hrun : succeeds (applyBlock sampleEnv {} b d) = true)
    (hskip : skippedSlots d.core b.timestamp = k) : SlotRun sampleEnv (sampleAfter b d) (n + k) := by
  rw [← hskip]
  exact h.block {} b rfl htimed (eq_ok_of_succeeds hrun)

/-- The block without transactions that follows a state. -/
def idleBlock (d : Database) : SignedBlock :=
  sampleBlock d.core.dgp.headBlockId (d.core.dgp.headBlockNumber + 1) []

/-- The state after `n` blocks that follow one another as `next` says, all of which apply and meet `ok`. -/
def sampleRun (next : Database → SignedBlock) (ok : SignedBlock → Database → Bool) : Nat → Database → Option Database
  | 0, d => some d
  | n + 1, d =>
    match ok (next d) d, applyBlock sampleEnv {} (next d) d with
    | true, .ok _ d' => sampleRun next ok n d'
    | _, _ => none

theorem chain_sampleRun {P : Node → SignedBlock → Database → Prop} {next : Database → SignedBlock}
    {ok : SignedBlock → Database → Bool} (hok : ∀ b d, ok b d = true → P {} b d) {n : Nat} {d d' : Database}
    (h : sampleRun next ok n d = some d') : Chain sampleEnv P d d' := by
  induction n generalizing d with
  | zero =>
    obtain rfl : d = d' := Option.some.inj h
    exact .refl
  | succ n ih =>
    unfold sampleRun at h
    split at h
    · rename_i hmeets happly
      exact .head ⟨{}, next d, hok _ _ hmeets, happly⟩ (ih h)
    · cases h

theorem chain_sampleRun_getD {P : Node → SignedBlock → Database → Prop} {next : Database → SignedBlock}
    {ok : SignedBlock → Database → Bool} (hok : ∀ b d, ok b d = true → P {} b d) {n : Nat} {d : Database}
    (h : (sampleRun next ok n d).isSome = true) : Chain sampleEnv P d ((sampleRun next ok n d).getD d) := by
  obtain ⟨d', hd'⟩ := Option.isSome_iff_exists.mp h
  rw [hd', Option.getD_some]
  exact chain_sampleRun hok hd'

/-- Seventeen accounts, which become bobservers in the first block. -/
def crewNames : List AccountName := (List.range 17).map fun i => .ofBytes [99, 114, 101, 119, UInt8.ofNat (97 + i)]

def crewBlock : SignedBlock :=
  sampleBlock {} 1 (createRoot :: crewNames.flatMap fun n =>
    [.accountCreate
        { creator := initMinerName, newAccountName := n, owner := .ofKey ⟨1⟩, active := .ofKey ⟨1⟩, posting := .ofKey ⟨1⟩,
          memoKey := ⟨1⟩, jsonMetadata := [] },
      .bobserverUpdate ⟨rootAccount, n, [104], ⟨1⟩⟩])

def crewStart : Database := sampleAfter crewBlock (genesis ⟨1⟩)

/-- The block of the bobserver whose turn it is, who votes for version 0.2; the revisions differ from block to block. -/
def votingBlock (d : Database) : SignedBlock :=
  let b := idleBlock d
  { b with
    bobserver := (getScheduledBobserver d.core (getSlotAtTime d.core b.timestamp)).toBytes
    extensions := [.hardforkVersionVote (131072 + d.core.dgp.headBlockNumber % 3) (genesisTime + 86400)] }

theorem one_block_per_slot_lateBlock :
    SlotRun sampleEnv (sampleAfter firstBlock (genesis ⟨1⟩)) 0 ∧
      SlotRun sampleEnv (sampleAfter lateBlock (sampleAfter firstBlock (genesis ⟨1⟩))) 2 ∧
      (sampleAfter lateBlock (sampleAfter firstBlock (genesis ⟨1⟩))).core.dgp.currentAslot = 4 ∧
      (sampleAfter firstBlock (genesis ⟨1⟩)).core.dgp.time / 3 < lateBlock.timestamp / 3 := by
  have hruns : succeeds (applyBlock sampleEnv {} firstBlock (genesis ⟨1⟩)) = true ∧
      succeeds (applyBlock sampleEnv {} lateBlock (sampleAfter firstBlock (genesis ⟨1⟩))) = true ∧
      skippedSlots (genesis ⟨1⟩).core firstBlock.timestamp = 0 ∧
      skippedSlots (sampleAfter firstBlock (genesis ⟨1⟩)).core lateBlock.timestamp = 2 ∧
      (sampleAfter firstBlock (genesis ⟨1⟩)).core.dgp.headBlockNumber = 1 ∧
      (sampleAfter lateBlock (sampleAfter firstBlock (genesis ⟨1⟩))).core.dgp.headBlockNumber = 2 := by
    decide +kernel
  obtain ⟨hfirst, hlate, hnone, htwo, hone, hnum⟩ := hruns
  have htimed : firstBlock.Timed ∧ lateBlock.Timed := by
    unfold SignedBlock.Timed
    decide
  have hstart := slotRun_sampleAfter (.genesis ⟨1⟩) htimed.1 hfirst hnone
  have hrun := slotRun_sampleAfter hstart htimed.2 hlate htwo
  refine ⟨hstart, hrun, ?_, ?_⟩
  · rw [(one_block_per_slot sampleEnv hrun).1, hnum]
  · have hnext := (one_block_per_slot sampleEnv hstart).2.2.2 {} lateBlock _ rfl htimed.2 (eq_ok_of_succeeds hlate)
    exact hnext.1 (by rw [hone]; exact Nat.one_pos)

/-- Without the bound on the start of a slot the last one is not found: two seconds after genesis no slot has
started, but the time of slot 1431655766 has wrapped around to that second. -/
theorem slot_time_wraps : SlotRun sampleEnv (genesis ⟨1⟩) 0 ∧
    slotStart (genesis ⟨1⟩).core ≤ genesisTime + 2 ∧ genesisTime + 2 < 4294967296 ∧
    getSlotTime (genesis ⟨1⟩).core 1431655766 ≤ genesisTime + 2 ∧ 1431655766 < 4294967296 ∧
    getSlotAtTime (genesis ⟨1⟩).core (genesisTime + 2) = 0 := by
  refine ⟨.genesis ⟨1⟩, ?_⟩
  decide +kernel

end Sigmaengine
