import Sigmaengine.Chain.Head

/-!
# The stages of a block

`BlockStages` names the states a block passes through.  Between the header and
`update_global_dynamic_data`, and again after `update_last_irreversible_block`, the clock of the chain
(`Core.clock`: head, time, absolute slot, irreversible number) stands still, and every bobserver keeps its
name and what it last signed (`Roster`).  The clock moves only in the stages between.
-/

namespace Sigmaengine

open Effect Table

/-- The states a block passes through. -/
structure BlockStages (env : Env) (node : Node) (b : SignedBlock) (d d' : Database) where
  signing : Nat
  opened : Core
  executed : Database
  advanced : Core
  signed : Core
  settled : Core
  prepared : Core
  processed : Core
  forked : Core
  header : applyBlockHeader env node b d.core = .ok signing opened
  transactions : each (applyTransaction env node) b.transactions { d with core := opened } = .ok () executed
  globals : updateGlobalDynamicData env node b executed.core = .ok () advanced
  sign : updateSigningBobserver signing b advanced = .ok () signed
  irreversible : updateLastIrreversibleBlock signed = .ok () settled
  prepare : prepareBlock env b settled = .ok () prepared
  post : postProcess prepared = .ok () processed
  hardforks : processHardforks processed = .ok () forked
  notify : notifyAppliedBlock env { executed with core := forked } = .ok () d'

variable {env : Env} {node : Node} {b : SignedBlock}

/-- Every applied block has its stages, and the first six are those of `applyBlockHead`. -/
theorem blockStages {d d' : Database} (h : applyBlock env node b d = .ok () d') :
    ∃ S : BlockStages env node b d d',
      applyBlockHead env node b d = .ok () { S.executed with core := S.settled } := by
  obtain ⟨_, d₄, hhead, htail⟩ := bind_eq_ok.mp h
  have hhead' := hhead
  simp only [applyBlockHead, onCore, bind_eq_ok, within_eq_ok] at hhead
  simp only [applyBlockTail, onCore, bind_eq_ok, within_eq_ok] at htail
  obtain ⟨signing, _, ⟨opened, hheader, rfl⟩, _, executed, htrxs, settled, ⟨_, advanced, hglobal, _, signed,
    hsign, hlib⟩, rfl⟩ := hhead
  obtain ⟨_, _, ⟨forked, ⟨_, prepared, hprepare, _, processed, hpost, hhard⟩, rfl⟩, hnotify⟩ := htail
  exact ⟨⟨signing, opened, executed, advanced, signed, settled, prepared, processed, forked, hheader, htrxs,
    hglobal, hsign, hlib, hprepare, hpost, hhard, hnotify⟩, hhead'⟩

/-! ## The clock -/

/-- Head, time, absolute slot and irreversible number. -/
def Core.clock (s : Core) : Nat × BlockId × TimePointSec × Nat × Nat :=
  (s.dgp.headBlockNumber, s.dgp.headBlockId, s.dgp.time, s.dgp.currentAslot, s.dgp.lastIrreversibleBlockNum)

def SameClock (s s' : Core) : Prop := s'.clock = s.clock

instance : Std.Refl SameClock := ⟨fun _ => rfl⟩

instance : IsTrans Core SameClock := ⟨fun _ _ _ h h' => h'.trans h⟩

theorem Stays.sameClock {s s' : Core} (h : Stays s s') : SameClock s s' :=
  congrArg (fun p : _ × _ × _ × _ × DynamicGlobalPropertyObject =>
    (p.2.2.2.2.headBlockNumber, p.2.2.2.2.headBlockId, p.2.2.2.2.time, p.2.2.2.2.currentAslot,
      p.2.2.2.2.lastIrreversibleBlockNum)) h

theorem Stays.bobserverSchedule {s s' : Core} (h : Stays s s') : s'.bobserverSchedule = s.bobserverSchedule :=
  congrArg (fun p => p.2.2.1) h

namespace SameClock

variable {s s' : Core} (h : SameClock s s')

include h

theorem headBlockNumber : s'.dgp.headBlockNumber = s.dgp.headBlockNumber := congrArg Prod.fst h

theorem headBlockId : s'.dgp.headBlockId = s.dgp.headBlockId := congrArg (fun p => p.2.1) h

theorem time : s'.dgp.time = s.dgp.time := congrArg (fun p => p.2.2.1) h

theorem currentAslot : s'.dgp.currentAslot = s.dgp.currentAslot := congrArg (fun p => p.2.2.2.1) h

theorem lastIrreversibleBlockNum : s'.dgp.lastIrreversibleBlockNum = s.dgp.lastIrreversibleBlockNum :=
  congrArg (fun p => p.2.2.2.2) h

theorem getSlotTime (slot : Nat) : Sigmaengine.getSlotTime s' slot = Sigmaengine.getSlotTime s slot := by
  simp only [Sigmaengine.getSlotTime, h.headBlockNumber, h.time]

theorem getSlotAtTime (t : TimePointSec) : Sigmaengine.getSlotAtTime s' t = Sigmaengine.getSlotAtTime s t := by
  simp only [Sigmaengine.getSlotAtTime, h.getSlotTime]

end SameClock

/-! ## The roster -/

/-- Every bobserver stays with its record, and a new one has confirmed nothing. -/
structure Roster (s s' : Core) : Prop where
  kept : ∀ id b, s.bobservers.lookup id = some b →
    ∃ b', s'.bobservers.lookup id = some b' ∧ b'.record = b.record
  fresh : ∀ id b', s'.bobservers.lookup id = some b' → s.bobservers.lookup id = none →
    b'.lastConfirmedBlockNum = 0

theorem Roster.of_eq {s s' : Core} (h : s'.bobservers = s.bobservers) : Roster s s' := by
  refine ⟨fun id b hb => ⟨b, by rw [h, hb], rfl⟩, fun id b' hb' hnone => ?_⟩
  rw [h, hnone] at hb'
  cases hb'

instance : Std.Refl Roster := ⟨fun _ => .of_eq rfl⟩

instance : IsTrans Core Roster where
  trans s t u h h' := by
    refine ⟨fun id b hb => ?_, fun id b'' hb'' hnone => ?_⟩
    · obtain ⟨b', hb', hrecord⟩ := h.kept id b hb
      obtain ⟨b'', hb'', hrecord'⟩ := h'.kept id b' hb'
      exact ⟨b'', hb'', hrecord'.trans hrecord⟩
    · cases hmid : t.bobservers.lookup id with
      | none => exact h'.fresh id b'' hb'' hmid
      | some b' =>
        obtain ⟨c, hc, hrecord⟩ := h'.kept id b' hmid
        rw [hb''] at hc
        cases hc
        have hzero := h.fresh id b' hmid hnone
        have hlast : b''.lastConfirmedBlockNum = b'.lastConfirmedBlockNum := congrArg (fun p => p.2.2) hrecord
        rw [hlast, hzero]

theorem AccountsOnly.bobservers {s s' : Core} (h : AccountsOnly s s') : s'.bobservers = s.bobservers :=
  congrArg Prod.fst h

/-- A change that keeps the record. -/
theorem roster_modify {id : Nat} {f : BobserverObject → Except Error BobserverObject}
    (hf : ∀ a b, f a = .ok b → b.record = a.record) : Always Roster (modifyIn Index.bobservers id f) := by
  refine always_of_clean ?_ (clean_modifyIn ?_)
  · intro s u s' h
    obtain ⟨a, b, hc, ha, hfa, rfl⟩ := modifyIn_eq_ok.mp h
    have hl : ∀ id', ((s.bobservers).replace id b hc).lookup id' =
        if id' = id then some b else s.bobservers.lookup id' := lookup_replace ha hc
    refine ⟨fun id' c hold => ?_, fun id' c hnew hnone => ?_⟩
    · by_cases hid : id' = id
      · subst hid
        obtain rfl : a = c := Option.some.inj (ha.symm.trans hold)
        exact ⟨b, (hl id').trans (if_pos rfl), hf _ _ hfa⟩
      · exact ⟨c, (hl id').trans (by rw [if_neg hid, hold]), rfl⟩
    · have hlook := (hl id').symm.trans hnew
      by_cases hid : id' = id
      · subst hid
        exact absurd (ha.symm.trans hnone) (by simp)
      · rw [if_neg hid, hnone] at hlook
        cases hlook
  · intro a b hfa x
    show (x.account == b.account) = (x.account == a.account)
    rw [show b.account = a.account from congrArg Prod.fst (hf a b hfa)]

/-- A new bobserver that has confirmed nothing. -/
theorem roster_create {b : BobserverObject} (hb : b.lastConfirmedBlockNum = 0) :
    Always Roster (createIn Index.bobservers b : CoreM Nat) := by
  refine always_of_clean ?_ (clean_createIn b)
  intro s id s' h
  obtain ⟨hc, -, rfl⟩ := createIn_eq_ok.mp h
  have hl : ∀ id', ((s.bobservers).insert b hc).lookup id' =
      if id' = s.bobservers.nextId then some b else s.bobservers.lookup id' := lookup_insert _ hc
  refine ⟨fun id' c hold => ?_, fun id' c hnew hnone => ?_⟩
  · have hne : id' ≠ s.bobservers.nextId := Nat.ne_of_lt (s.bobservers.fresh _ (lookup_eq_some.mp hold))
    exact ⟨c, (hl id').trans (by rw [if_neg hne, hold]), rfl⟩
  · have hlook := (hl id').symm.trans hnew
    by_cases hid : id' = s.bobservers.nextId
    · rw [if_pos hid] at hlook
      cases hlook
      exact hb
    · rw [if_neg hid, hnone] at hlook
      cases hlook

theorem roster_bobserverUpdate (o : BobserverUpdateOperation) : Always Roster (bobserverUpdateEvaluator o) := by
  refine always_bind (always_requireRoot _ _) fun _ => always_bind (always_getIn _) fun _ => ?_
  refine always_bind (always_assert _ _) fun _ => always_bind (always_findIn _) fun found => ?_
  cases found with
  | none =>
    refine always_bind always_headBlockTime fun now => ?_
    exact always_bind (roster_create rfl) fun _ => always_pure _
  | some b => exact roster_modify fun a b h => by cases h; rfl

theorem roster_updateBproducer (o : UpdateBproducerOperation) : Always Roster (updateBproducerEvaluator o) := by
  refine always_bind (always_requireRoot _ _) fun _ => always_bind (always_getIn _) fun b => ?_
  refine always_bind (always_assert _ _) fun _ => always_bind always_get fun s => ?_
  refine always_bind (always_assert _ _) fun _ => ?_
  split
  · exact always_pure _
  · refine always_bind (roster_modify fun a b h => by cases h; rfl) fun _ => ?_
    exact fun s => Roster.of_eq rfl

theorem roster_exceptBobserver (o : ExceptBobserverOperation) : Always Roster (exceptBobserverEvaluator o) := by
  refine always_bind (always_requireRoot _ _) fun _ => always_bind (always_getIn _) fun b => ?_
  exact always_bind (always_assert _ _) fun _ => roster_modify fun a b h => by cases h; rfl

/-! ## The stages between which the clock stands still -/

/-- Clock and schedule are the same and the roster is kept. -/
structure SameRound (s s' : Core) : Prop where
  clock : SameClock s s'
  schedule : s'.bobserverSchedule = s.bobserverSchedule
  roster : Roster s s'

instance : Std.Refl SameRound := ⟨fun s => ⟨rfl, rfl, Std.Refl.refl s⟩⟩

instance : IsTrans Core SameRound where
  trans _ _ _ h h' := ⟨IsTrans.trans _ _ _ h.clock h'.clock, h'.schedule.trans h.schedule,
    IsTrans.trans _ _ _ h.roster h'.roster⟩

theorem Stays.sameRound {s s' : Core} (h : Stays s s') (hroster : Roster s s') : SameRound s s' :=
  ⟨h.sameClock, h.bobserverSchedule, hroster⟩

theorem AccountsOnly.sameRound {s s' : Core} (h : AccountsOnly s s') : SameRound s s' :=
  h.stays.sameRound (.of_eq h.bobservers)

theorem sameRound_of {α : Type} {m : CoreM α} (h : Always Stays m) (hroster : Always Roster m) :
    Always SameRound m :=
  fun s => (h s).sameRound (hroster s)

theorem operationFrame_sameRound : OperationFrame SameRound :=
  .ofAccountsOnly (fun _ _ h => h.sameRound)
    (fun o => sameRound_of (stays_bobserverUpdate o) (roster_bobserverUpdate o))
    (fun o => sameRound_of (stays_updateBproducer o) (roster_updateBproducer o))
    (fun o => sameRound_of (stays_exceptBobserver o) (roster_exceptBobserver o))

/-- A change of one bobserver that keeps its record. -/
theorem sameRound_modify {id : Nat} {f : BobserverObject → Except Error BobserverObject}
    (hf : ∀ a b, f a = .ok b → b.record = a.record) : Always SameRound (modifyIn Index.bobservers id f) :=
  sameRound_of (always_within (fun _ _ => rfl) _) (roster_modify hf)

theorem keepsStanding_sameRound : KeepsStanding SameRound := fun _ _ hf =>
  sameRound_modify fun a b h => (hf a b h).1

theorem sameRound_applyTransaction (trx : SignedTransaction) :
    Always (CoreRel SameRound) (applyTransaction env node trx) :=
  always_applyTransaction operationFrame_sameRound (fun _ _ => ⟨rfl, rfl, .of_eq rfl⟩) env node trx

/-- What a header that passes says about the block. -/
structure HeaderChecked (env : Env) (node : Node) (b : SignedBlock) (s : Core) (signing : Nat) : Prop where
  linked : s.dgp.headBlockId = b.previous
  later : s.dgp.time < b.timestamp
  signer : ∃ o, (signing, o) ∈ s.bobservers.rows ∧ o.account = b.bobserverName
  slot : node.skip.bobserverScheduleCheck = false → 0 < getSlotAtTime s b.timestamp
  scheduled : node.skip.bobserverScheduleCheck = false →
    b.bobserverName = .ofBytes (getScheduledBobserver s (getSlotAtTime s b.timestamp)).toBytes

theorem headerChecked {s s' : Core} {r : Nat × BobserverObject}
    (h : validateBlockHeader env node b s = .ok r s') : s' = s ∧ HeaderChecked env node b s r.1 := by
  simp only [validateBlockHeader, bind_eq_ok, get_eq_ok, fcAssert_eq_ok, pure_eq_ok, getBobserver,
    getIn_eq_ok] at h
  obtain ⟨_, _, ⟨rfl, rfl⟩, _, _, ⟨hlink, rfl⟩, _, _, ⟨hlate, rfl⟩, o, _, ⟨hfind, rfl⟩, _, _, ⟨-, rfl⟩,
    _, _, ⟨hslot, rfl⟩, _, _, ⟨hsched, rfl⟩, rfl, rfl⟩ := h
  obtain ⟨hmem, hname⟩ := mem_of_find? hfind
  have hname' : o.2.account = b.bobserverName := eq_of_beq hname
  refine ⟨rfl, eq_of_beq hlink, of_decide_eq_true hlate, ⟨o.2, hmem, hname'⟩, fun hskip => ?_, fun hskip => ?_⟩
  · rw [hskip, Bool.false_or] at hslot
    exact of_decide_eq_true hslot
  · rw [hskip, Bool.false_or] at hsched
    rw [← hname']
    exact eq_of_beq hsched

theorem applyBlockHeader_checked {s s' : Core} {signing : Nat}
    (h : applyBlockHeader env node b s = .ok signing s') :
    HeaderChecked env node b s signing ∧ SameRound s s' := by
  simp only [applyBlockHeader, bind_eq_ok, fcAssert_eq_ok, get_eq_ok, modify_eq_ok, pure_eq_ok] at h
  obtain ⟨_, _, ⟨-, rfl⟩, r, _, hvalid, _, _, ⟨rfl, rfl⟩, _, _, ⟨-, rfl⟩, _, _, rfl, _, t, hext, rfl, rfl⟩ := h
  obtain ⟨rfl, hchecked⟩ := headerChecked hvalid
  have hsame := (always_each (always_processHeaderExtension keepsStanding_sameRound.keepsRole b.bobserverName) b.extensions).runs _ _ _ hext
  exact ⟨hchecked, ⟨hsame.clock, hsame.schedule, ⟨hsame.roster.kept, hsame.roster.fresh⟩⟩⟩

/-! ## The stages that move the clock -/

/-- `missed_blocks` of `update_global_dynamic_data`: one less than the slot of the block, in 32-bit
arithmetic. -/
def missedBlocks (s : Core) (b : SignedBlock) : Nat :=
  if s.dgp.time = 0 then 0 else (getSlotAtTime s b.timestamp + 4294967295) % 4294967296

/-- **The new head**: number, id and time are those of the block, and the absolute slot moves on by the missed
slots and the block's own. -/
theorem updateGlobalDynamicData_clock {c c' : Core} {u : Unit}
    (h : updateGlobalDynamicData env node b c = .ok u c') :
    c'.clock = (b.blockNum, b.id env.codec, b.timestamp, c.dgp.currentAslot + (missedBlocks c b + 1) % 4294967296,
        c.dgp.lastIrreversibleBlockNum) ∧
      c'.bobserverSchedule = c.bobserverSchedule ∧ Roster c c' := by
  simp only [updateGlobalDynamicData, bind_eq_ok, get_eq_ok, modify_eq_ok, fcAssert_eq_ok] at h
  obtain ⟨_, _, ⟨rfl, rfl⟩, _, t, hcount, _, _, rfl, _, _, ⟨rfl, rfl⟩, -, rfl⟩ := h
  have hsame := (always_countMissed keepsStanding_sameRound.keepsRole _ _).runs _ _ _ hcount
  refine ⟨?_, hsame.schedule, hsame.roster.kept, hsame.roster.fresh⟩
  simp only [Core.clock, (shiftSlots_same _ _).1, hsame.clock.currentAslot,
    hsame.clock.lastIrreversibleBlockNum, missedBlocks]

/-- The signing bobserver records the slot and the block; nothing else changes. -/
theorem updateSigningBobserver_eq_ok {signing : Nat} {c c' : Core} {u : Unit}
    (h : updateSigningBobserver signing b c = .ok u c') :
    ∃ o, c.bobservers.lookup signing = some o ∧ SameClock c c' ∧
      c'.bobserverSchedule = c.bobserverSchedule ∧
      ∀ id, c'.bobservers.lookup id =
        if id = signing then some { o with
          lastAslot := c.dgp.currentAslot + getSlotAtTime c b.timestamp
          lastConfirmedBlockNum := b.blockNum }
        else c.bobservers.lookup id := by
  simp only [updateSigningBobserver, bind_eq_ok, get_eq_ok, modifyIn_eq_ok] at h
  obtain ⟨_, _, ⟨rfl, rfl⟩, o, _, hc, ho, hf, rfl⟩ := h
  cases hf
  exact ⟨o, ho, rfl, rfl, lookup_replace ho hc⟩

theorem updateLastIrreversibleBlock_same {c c' : Core} {u : Unit}
    (h : updateLastIrreversibleBlock c = .ok u c') :
    c'.bobservers = c.bobservers ∧ c'.bobserverSchedule = c.bobserverSchedule ∧
      c'.clock = (c.dgp.headBlockNumber, c.dgp.headBlockId, c.dgp.time, c.dgp.currentAslot,
        c'.dgp.lastIrreversibleBlockNum) := by
  obtain ⟨s, t, hget, h⟩ := bind_eq_ok.mp h
  obtain ⟨rfl, rfl⟩ := get_eq_ok.mp hget
  split at h
  · rw [← modify_eq_ok.mp h]
    exact ⟨rfl, rfl, rfl⟩
  · obtain ⟨bobservers, t, hread, h⟩ := bind_eq_ok.mp h
    obtain rfl := (readOnly_getBobservers _).eq_of_ok hread
    rw [← modify_eq_ok.mp h]
    exact ⟨rfl, rfl, rfl⟩

/-! ## The rest of the block -/

/-- The clock is the same and the roster is kept; the schedule may be a new one. -/
def SameHour (s s' : Core) : Prop := SameClock s s' ∧ Roster s s'

instance : Std.Refl SameHour := ⟨fun s => ⟨rfl, Std.Refl.refl s⟩⟩

instance : IsTrans Core SameHour where
  trans _ _ _ h h' := ⟨IsTrans.trans _ _ _ h.1 h'.1, IsTrans.trans _ _ _ h.2 h'.2⟩

theorem sameHour_updateBobserverSchedule : Always SameHour updateBobserverSchedule := by
  refine always_bind (always_bind always_get fun _ => always_pure _) fun num => ?_
  split
  · refine always_bind ((always_shutdownExcepted keepsStanding_sameRound.keepsRole).mono fun _ _ h => ⟨h.clock, h.roster⟩) fun _ => ?_
    refine always_bind always_get fun s => always_bind (readOnly_getBobservers _).always fun bobservers => ?_
    exact always_bind (fun _ => ⟨rfl, .of_eq rfl⟩) fun _ => fun _ => ⟨rfl, .of_eq rfl⟩
  · exact always_pure _

theorem sameHour_prepareBlock : Always SameHour (prepareBlock env b) := by
  refine always_bind (fun _ => ⟨rfl, .of_eq rfl⟩) fun _ =>
    always_bind ?_ fun _ => sameHour_updateBobserverSchedule
  refine always_bind always_get fun s => always_loop (always_bind always_get fun s => ?_) _
  split
  · exact always_pure _
  · split
    · exact always_bind (always_within (fun _ _ => ⟨rfl, .of_eq rfl⟩) _) fun _ => always_pure _
    · exact always_pure _

namespace BlockStages

variable {d d' : Database} (S : BlockStages env node b d d')

theorem checked : HeaderChecked env node b d.core S.signing := (applyBlockHeader_checked S.header).1

/-- Up to the new head the chain stands still. -/
theorem sameRound : SameRound d.core S.executed.core := by
  have hopened := (applyBlockHeader_checked S.header).2
  have hexecuted : SameRound S.opened S.executed.core :=
    (always_each (@sameRound_applyTransaction env node) _).runs _ _ _ S.transactions
  exact IsTrans.trans _ _ _ hopened hexecuted

/-- Up to the new head the clock only moves by one block. -/
theorem advanced_clock : S.advanced.clock = (b.blockNum, b.id env.codec, b.timestamp,
    d.core.dgp.currentAslot + (missedBlocks d.core b + 1) % 4294967296, d.core.dgp.lastIrreversibleBlockNum) := by
  have hsame := S.sameRound.clock
  have hmissed : missedBlocks S.executed.core b = missedBlocks d.core b := by
    simp only [missedBlocks, hsame.time, hsame.getSlotAtTime]
  rw [(updateGlobalDynamicData_clock S.globals).1, hsame.currentAslot, hsame.lastIrreversibleBlockNum, hmissed]

/-- Schedule and roster up to the new head. -/
theorem advanced_schedule : S.advanced.bobserverSchedule = d.core.bobserverSchedule :=
  (updateGlobalDynamicData_clock S.globals).2.1.trans S.sameRound.schedule

theorem advanced_roster : Roster d.core S.advanced :=
  IsTrans.trans _ _ _ S.sameRound.roster (updateGlobalDynamicData_clock S.globals).2.2

/-- After `update_last_irreversible_block` the new clock stands still. -/
theorem sameHour : SameHour S.settled d'.core := by
  have hprepare := sameHour_prepareBlock.runs _ _ _ S.prepare
  have hpost : SameHour S.prepared S.processed := by
    have h := (accountsOnly_postProcess.runs _ _ _ S.post).sameRound
    exact ⟨h.clock, h.roster⟩
  have hhard : SameHour S.processed S.forked :=
    (always_processHardforks fun _ _ => ⟨rfl, .of_eq rfl⟩).runs _ _ _ S.hardforks
  have hnotify : SameHour S.forked d'.core := by
    have h : MoneyOnly S.forked d'.core := (moneyOnly_notifyAppliedBlock env).runs _ _ _ S.notify
    exact ⟨h.accountsOnly.sameRound.clock, h.accountsOnly.sameRound.roster⟩
  exact IsTrans.trans _ _ _ hprepare
    (IsTrans.trans _ _ _ hpost (IsTrans.trans _ _ _ hhard hnotify))

/-- **The clock of a block**: the new head is the block, one slot after the missed ones. -/
theorem clock : d'.core.clock = (b.blockNum, b.id env.codec, b.timestamp,
    d.core.dgp.currentAslot + (missedBlocks d.core b + 1) % 4294967296, S.settled.dgp.lastIrreversibleBlockNum) := by
  obtain ⟨o, -, hsigned, -, -⟩ := updateSigningBobserver_eq_ok S.sign
  obtain ⟨-, -, hsettled⟩ := updateLastIrreversibleBlock_same S.irreversible
  have hadvanced := S.advanced_clock
  have hclock : S.signed.clock = S.advanced.clock := hsigned
  rw [hadvanced] at hclock
  simp only [Core.clock, Prod.mk.injEq] at hclock
  obtain ⟨hnum, hid, htime, haslot, -⟩ := hclock
  rw [show d'.core.clock = S.settled.clock from S.sameHour.1, hsettled, hnum, hid, htime, haslot]

end BlockStages

/-! ## Chains -/

/-- `d'` follows from `d` by one block that meets `ok`, whatever the flags of the node that applies it. -/
def BlockStep (env : Env) (ok : Node → SignedBlock → Database → Prop) (d d' : Database) : Prop :=
  ∃ node b, ok node b d ∧ applyBlock env node b d = .ok () d'

/-- `d'` follows from `d` by any number of such blocks. -/
abbrev Chain (env : Env) (ok : Node → SignedBlock → Database → Prop) : Database → Database → Prop :=
  Relation.ReflTransGen (BlockStep env ok)

end Sigmaengine
