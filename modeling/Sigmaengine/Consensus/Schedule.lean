import Sigmaengine.Chain.Reached
import Sigmaengine.Chain.Rounds
import Sigmaengine.Consensus.Slots

/-!
# The schedule along a chain

Every twenty-one blocks a new round is drawn.  `update_bproducer` caps the block producers at the seventeen the
selection takes, so the selection misses none of them (`ProducersSound`); bobservers are never removed, so
the names of a round stay names of bobservers until the next (`RoundSound`).  The one state in which this
breaks is an update that finds no bobserver with a key.

Main result: `schedule_well_formed`.
-/

namespace Sigmaengine

open Effect Table

/-! ## Block producers -/

/-- The count of block producers is kept, and within what the selection takes. -/
structure ProducersSound (s : Core) : Prop where
  count : s.dgp.currentBproducerCount = s.bobservers.rows.countP fun r => r.2.isBproducer
  le : s.dgp.currentBproducerCount ≤ maxVotedBobservers

/-- Who is a block producer, and the count of them. -/
def Core.producers (s : Core) : List (Nat × Bool) × Nat :=
  (s.bobservers.rows.map fun r => (r.1, r.2.isBproducer), s.dgp.currentBproducerCount)

def SameProducers (s s' : Core) : Prop := s'.producers = s.producers

instance : Std.Refl SameProducers := ⟨fun _ => rfl⟩

instance : IsTrans Core SameProducers := ⟨fun _ _ _ h h' => h'.trans h⟩

theorem countP_producers (rows : List (Nat × BobserverObject)) :
    (rows.countP fun r => r.2.isBproducer) = (rows.map fun r => (r.1, r.2.isBproducer)).countP Prod.snd := by
  rw [List.countP_map]
  rfl

theorem SameProducers.kept {s s' : Core} (h : SameProducers s s') : Kept ProducersSound s s' := by
  intro hs
  obtain ⟨hrows, hcount⟩ := Prod.mk.inj h
  refine ⟨?_, ?_⟩
  · rw [hcount, hs.count, countP_producers, countP_producers, hrows]
  · rw [hcount]
    exact hs.le

theorem AccountsOnly.sameProducers {s s' : Core} (h : AccountsOnly s s') : SameProducers s s' := by
  have hcount : s'.dgp.currentBproducerCount = s.dgp.currentBproducerCount :=
    congrArg (fun p => p.2.2.2.2.2.currentBproducerCount) h
  unfold SameProducers Core.producers
  rw [h.bobservers, hcount]

theorem sameProducers_modify {id : Nat} {f : BobserverObject → Except Error BobserverObject}
    (hf : ∀ a b, f a = .ok b → b.account = a.account ∧ b.isBproducer = a.isBproducer) :
    Always SameProducers (modifyIn Index.bobservers id f) := by
  refine always_of_clean ?_ (clean_modifyIn ?_)
  · intro s u s' h
    obtain ⟨a, b, hc, ha, hfa, rfl⟩ := modifyIn_eq_ok.mp h
    have hrows := map_rows_replace (k := BobserverObject.isBproducer) ha hc (hf a b hfa).2
    exact congrArg (fun rows => (rows, s.dgp.currentBproducerCount)) hrows
  · intro a b hfa x
    show (x.account == b.account) = (x.account == a.account)
    rw [(hf a b hfa).1]

theorem producers_bobserverUpdate (o : BobserverUpdateOperation) :
    Always (Kept ProducersSound) (bobserverUpdateEvaluator o) := by
  refine always_bind (always_requireRoot _ _) fun _ => always_bind (always_getIn _) fun _ => ?_
  refine always_bind (always_assert _ _) fun _ => always_bind (always_findIn _) fun found => ?_
  cases found with
  | some b =>
    refine (sameProducers_modify fun a b h => ?_).mono fun _ _ h => h.kept
    cases h
    exact ⟨rfl, rfl⟩
  | none =>
    refine always_bind always_headBlockTime fun now => always_bind ?_ fun _ => always_pure _
    refine always_of_clean ?_ (clean_createIn _)
    intro s id s' h hs
    obtain ⟨hc, -, rfl⟩ := createIn_eq_ok.mp h
    refine ⟨?_, hs.le⟩
    -- a new bobserver is not a producer
    show s.dgp.currentBproducerCount = (s.bobservers.rows ++ [(s.bobservers.nextId, _)]).countP _
    rw [List.countP_append, hs.count]
    simp

/-- Approving adds a producer below the limit, disapproving takes one away that was counted. -/
theorem producers_updateBproducer (o : UpdateBproducerOperation) :
    Always (Kept ProducersSound) (updateBproducerEvaluator o) := by
  refine always_of_clean ?_ ?_
  · intro s u s' h hs
    simp only [updateBproducerEvaluator, bind_eq_ok, getBobserver, getIn_eq_ok, fcAssert_eq_ok, get_eq_ok] at h
    obtain ⟨_, _, hroot, r, _, ⟨hfind, rfl⟩, _, _, ⟨-, rfl⟩, _, _, ⟨rfl, rfl⟩, _, _, ⟨hlimit, rfl⟩, h⟩ := h
    obtain rfl := (readOnly_requireRoot _ _).eq_of_ok hroot
    split at h
    · obtain ⟨-, rfl⟩ := pure_eq_ok.mp h
      exact hs
    · rename_i hne
      simp only [bind_eq_ok, modifyIn_eq_ok, Effect.modify_eq_ok] at h
      obtain ⟨_, _, ⟨a, _, hc, ha, hb, rfl⟩, rfl⟩ := h
      cases hb
      have hra : r.2 = a := eq_of_mem (mem_of_find? hfind).1 (lookup_eq_some.mp ha)
      have hreplace := countP_replace (t := s.bobservers) ha { a with isBproducer := o.approve } hc
        BobserverObject.isBproducer
      have hcount := hs.count
      have hle := hs.le
      rw [hra] at hne
      -- the row and the count move together
      have hmoved : (if o.approve then (s.dgp.currentBproducerCount + 1) % 4294967296
            else (s.dgp.currentBproducerCount + 4294967295) % 4294967296) =
          ((s.bobservers.replace r.1 { a with isBproducer := o.approve } hc).rows.countP
            fun q => q.2.isBproducer) ∧
          ((s.bobservers.replace r.1 { a with isBproducer := o.approve } hc).rows.countP
            fun q => q.2.isBproducer) ≤ maxVotedBobservers := by
        unfold maxVotedBobservers at *
        cases happrove : o.approve with
        | true =>
          have hold : a.isBproducer = false := by
            rw [happrove] at hne
            exact Bool.eq_false_iff.mpr fun h => hne h.symm
          simp only [happrove, hold, Bool.not_true, Bool.false_or, decide_eq_true_eq, if_true, Bool.false_eq_true,
            if_false] at hlimit hreplace ⊢
          omega
        | false =>
          have hold : a.isBproducer = true := by
            rw [happrove] at hne
            exact Bool.eq_true_of_not_eq_false fun h => hne h.symm
          simp only [happrove, hold, if_true, Bool.false_eq_true, if_false] at hreplace ⊢
          omega
      exact ⟨hmoved.1, hmoved.1.trans_le hmoved.2⟩
  · refine clean_bind (readOnly_requireRoot _ _) fun _ => clean_bind (readOnly_getIn _) fun r => ?_
    refine clean_bind (readOnly_assert _ _) fun _ => clean_bind readOnly_get fun s => ?_
    refine clean_bind (readOnly_assert _ _) fun _ => ?_
    split
    · exact (readOnly_pure _).clean
    · refine clean_bind_modify (clean_modifyIn fun a b h x => ?_) _
      cases h
      rfl

theorem producers_exceptBobserver (o : ExceptBobserverOperation) :
    Always (Kept ProducersSound) (exceptBobserverEvaluator o) := by
  refine always_bind (always_requireRoot _ _) fun _ => always_bind (always_getIn _) fun b => ?_
  refine always_bind (always_assert _ _) fun _ => ?_
  refine (sameProducers_modify fun a b h => ?_).mono fun _ _ h => h.kept
  cases h
  exact ⟨rfl, rfl⟩

theorem operationFrame_producers : OperationFrame (Kept ProducersSound) :=
  .ofAccountsOnly (fun _ _ h => h.sameProducers.kept) producers_bobserverUpdate producers_updateBproducer
    producers_exceptBobserver

/-! ## The producers through a block -/

variable {env : Env} {node : Node} {b : SignedBlock} {d d' : Database}

theorem keepsStanding_sameProducers : KeepsStanding SameProducers := fun _ _ hf =>
  sameProducers_modify fun a b h => ⟨congrArg Prod.fst (hf a b h).1, (hf a b h).2⟩

theorem sameProducers_applyBlockHeader {c c' : Core} {signing : Nat}
    (h : applyBlockHeader env node b c = .ok signing c') : SameProducers c c' := by
  simp only [applyBlockHeader, bind_eq_ok, fcAssert_eq_ok, get_eq_ok, Effect.modify_eq_ok, pure_eq_ok] at h
  obtain ⟨_, _, ⟨-, rfl⟩, r, _, hvalid, _, _, ⟨rfl, rfl⟩, _, _, ⟨-, rfl⟩, _, _, rfl, _, t, hext, rfl, rfl⟩ := h
  obtain ⟨rfl, -⟩ := headerChecked hvalid
  have hsame := (always_each (always_processHeaderExtension keepsStanding_sameProducers.keepsRole b.bobserverName)
    b.extensions).runs _ _ _ hext
  exact hsame

theorem sameProducers_updateGlobalDynamicData {c c' : Core} {u : Unit}
    (h : updateGlobalDynamicData env node b c = .ok u c') : SameProducers c c' := by
  simp only [updateGlobalDynamicData, bind_eq_ok, get_eq_ok, Effect.modify_eq_ok, fcAssert_eq_ok] at h
  obtain ⟨_, _, ⟨rfl, rfl⟩, _, t, hcount, _, _, rfl, _, _, ⟨rfl, rfl⟩, -, rfl⟩ := h
  have hsame := (always_countMissed keepsStanding_sameProducers.keepsRole _ _).runs _ _ _ hcount
  obtain ⟨hrows, hnum⟩ := Prod.mk.inj hsame
  unfold SameProducers Core.producers
  simp only [(shiftSlots_same _ _).2, hrows, hnum]

theorem sameProducers_updateLastIrreversibleBlock : Always SameProducers updateLastIrreversibleBlock := by
  refine always_bind always_get fun s => ?_
  split
  · exact fun _ => rfl
  · exact always_bind (readOnly_getBobservers _).always fun _ => fun _ => rfl

theorem producers_applyTransaction (trx : SignedTransaction) :
    Always (CoreRel (Kept ProducersSound)) (applyTransaction env node trx) :=
  always_applyTransaction operationFrame_producers (fun _ _ h => ⟨h.count, h.le⟩) env node trx

theorem BlockStages.producers (S : BlockStages env node b d d') (h : ProducersSound d.core) :
    ProducersSound S.settled := by
  have hopened := (sameProducers_applyBlockHeader S.header).kept h
  have hexecuted : ProducersSound S.executed.core :=
    (always_each (@producers_applyTransaction env node) _).runs _ _ _ S.transactions hopened
  have hadvanced := (sameProducers_updateGlobalDynamicData S.globals).kept hexecuted
  have hsigned : SameProducers S.advanced S.signed :=
    (always_bind always_get fun _ => sameProducers_modify fun a b h => by cases h; exact ⟨rfl, rfl⟩).runs _ _ _ S.sign
  exact (sameProducers_updateLastIrreversibleBlock.runs _ _ _ S.irreversible).kept (hsigned.kept hadvanced)

/-! ## The board: bobservers and schedule -/

/-- Bobservers and schedule. -/
def Core.board (s : Core) : Table BobserverObject × BobserverScheduleObject × Nat :=
  (s.bobservers, s.bobserverSchedule, s.dgp.currentBproducerCount)

def SameBoard (s s' : Core) : Prop := s'.board = s.board

instance : Std.Refl SameBoard := ⟨fun _ => rfl⟩

instance : IsTrans Core SameBoard := ⟨fun _ _ _ h h' => h'.trans h⟩

namespace SameBoard

variable {s s' : Core} (h : SameBoard s s')

include h

theorem bobservers : s'.bobservers = s.bobservers := congrArg Prod.fst h

theorem bobserverSchedule : s'.bobserverSchedule = s.bobserverSchedule := congrArg (fun p => p.2.1) h

theorem currentBproducerCount : s'.dgp.currentBproducerCount = s.dgp.currentBproducerCount :=
  congrArg (fun p => p.2.2) h

end SameBoard

theorem AccountsOnly.sameBoard {s s' : Core} (h : AccountsOnly s s') : SameBoard s s' := by
  have hcount : s'.dgp.currentBproducerCount = s.dgp.currentBproducerCount :=
    congrArg (fun p => p.2.2.2.2.2.currentBproducerCount) h
  unfold SameBoard Core.board
  rw [h.bobservers, h.stays.bobserverSchedule, hcount]

/-- Between rounds only records and summaries change; at the end of a round the schedule is drawn anew. -/
theorem prepareBlock_cases {R : Core → Core → Prop} [Std.Refl R] [IsTrans Core R]
    (hsummaries : ∀ t s, R s { s with blockSummaries := t }) (htrx : ∀ t s, R s { s with transactions := t })
    {c c' : Core} {u : Unit} (h : prepareBlock env b c = .ok u c') :
    (c.dgp.headBlockNumber % numBobservers ≠ 0 ∧ R c c') ∨
      (c.dgp.headBlockNumber % numBobservers = 0 ∧ ∃ t, R c t ∧ updateBobserverSchedule4 t = .ok () c') := by
  simp only [prepareBlock, bind_eq_ok] at h
  obtain ⟨_, t₁, hsummary, _, t₂, hclear, hschedule⟩ := h
  have hsame₁ : R c t₁ := by
    rw [← Effect.modify_eq_ok.mp hsummary]
    exact hsummaries _ c
  have hsame₂ := (always_clearExpiredTransactions htrx).runs _ _ _ hclear
  have hnum : t₂.dgp.headBlockNumber = c.dgp.headBlockNumber := by
    rw [clearExpiredTransactions_dgp hclear, ← Effect.modify_eq_ok.mp hsummary]
  simp only [updateBobserverSchedule, headBlockNum, bind_eq_ok, get_eq_ok, pure_eq_ok] at hschedule
  obtain ⟨_, _, ⟨_, _, ⟨rfl, rfl⟩, rfl, rfl⟩, hschedule⟩ := hschedule
  rw [hnum] at hschedule
  split at hschedule
  · exact .inr ⟨‹_›, t₂, IsTrans.trans _ _ _ hsame₁ hsame₂, hschedule⟩
  · obtain ⟨-, rfl⟩ := pure_eq_ok.mp hschedule
    exact .inl ⟨‹_›, IsTrans.trans _ _ _ hsame₁ hsame₂⟩

/-- After the schedule is drawn nothing touches the board. -/
theorem BlockStages.sameBoard (S : BlockStages env node b d d') : SameBoard S.prepared d'.core := by
  have hpost := (accountsOnly_postProcess.runs _ _ _ S.post).sameBoard
  have hhard : SameBoard S.processed S.forked := (always_processHardforks fun _ _ => rfl).runs _ _ _ S.hardforks
  have hnotify : MoneyOnly S.forked d'.core := (moneyOnly_notifyAppliedBlock env).runs _ _ _ S.notify
  exact hnotify.accountsOnly.sameBoard.trans (hhard.trans hpost)

/-! ## A new round -/

/-- The schedule of a round is in order. -/
structure WellScheduled (s : Core) : Prop where
  distinct : (scheduledBobservers s).Nodup
  keyed : ∀ n ∈ scheduledBobservers s, ∃ r ∈ s.bobservers.rows, r.2.account = n ∧ r.2.signingKey ≠ {}
  producers : ∀ r ∈ s.bobservers.rows, r.2.isBproducer = true → r.2.signingKey ≠ {} →
    r.2.account ∈ scheduledBobservers s
  size : s.bobserverSchedule.numScheduledBobservers =
    min numBobservers (s.bobservers.rows.countP fun r => r.2.signingKey != {})

/-- Some bobserver has a key and keeps it. -/
def HasKeyed (s : Core) : Prop := ∃ r ∈ s.bobservers.rows, r.2.signingKey ≠ {} ∧ r.2.isExcepted = false

instance (s : Core) : Decidable (HasKeyed s) := inferInstanceAs (Decidable (∃ _ ∈ _, _))

/-- What holds of the schedule in every state of a chain. -/
structure RoundSound (s : Core) : Prop where
  producers : ProducersSound s
  max : s.bobserverSchedule.maxVotedBobservers = maxVotedBobservers
  pos : 0 < s.bobserverSchedule.numScheduledBobservers
  named : ∀ n ∈ scheduledBobservers s, ∃ r ∈ s.bobservers.rows, r.2.account = n

theorem BobserverObject.shutdown_signingKey (o : BobserverObject) :
    o.shutdown.signingKey ≠ {} ↔ o.signingKey ≠ {} ∧ o.isExcepted = false := by
  unfold BobserverObject.shutdown
  by_cases hexcepted : o.isExcepted = true
  · by_cases hkey : o.signingKey = {} <;> simp [hexcepted, hkey]
  · simp [Bool.eq_false_iff.mpr hexcepted]

/-- The limit of the selection does not cut a producer off. -/
theorem mem_selectedBp {s : Core} (hs : ProducersSound s)
    (hmax : s.bobserverSchedule.maxVotedBobservers = maxVotedBobservers) {r : Nat × BobserverObject}
    (hr : r ∈ s.bobservers.rows) (hproducer : r.2.isBproducer = true) (hkey : r.2.signingKey ≠ {}) :
    r.2.account ∈ selectedBp s := by
  unfold selectedBp
  have hlen : (((byName s).filter fun b => b.isBproducer && b.signingKey != {}).map fun b => b.account).length ≤
      s.bobserverSchedule.maxVotedBobservers := by
    rw [List.length_map, ← List.countP_eq_length_filter, hmax]
    refine le_trans ?_ hs.le
    rw [hs.count]
    unfold byName
    rw [(List.perm_insertionSort _ _).countP_eq, List.countP_map]
    exact List.countP_mono_left fun q _ hq => (Bool.and_eq_true_iff.mp hq).1
  rw [List.take_of_length_le hlen]
  refine List.mem_map.mpr ⟨r.2, List.mem_filter.mpr ⟨mem_byName.mpr ⟨r.1, hr⟩, ?_⟩, rfl⟩
  simp [hproducer, hkey]

/-- **The update** leaves a schedule in order exactly when it finds a bobserver with a key. -/
theorem updateBobserverSchedule4_spec {c c' : Core} (hc : RoundSound c)
    (h : updateBobserverSchedule4 c = .ok () c') :
    (WellScheduled c' ↔ HasKeyed c) ∧ (HasKeyed c → RoundSound c') := by
  obtain ⟨s, versions, hrows, hdgp, hschedule, hbobservers, hdgp', hnew⟩ := updateBobserverSchedule4_eq_ok h
  have hproducers : ProducersSound s := by
    refine ⟨?_, by rw [hdgp]; exact hc.producers.le⟩
    rw [hdgp, hc.producers.count, hrows, List.countP_map]
    exact List.countP_congr fun q _ => by
      simp only [Function.comp_apply, q.2.shutdown_record.2]
  have hmax : s.bobserverSchedule.maxVotedBobservers = maxVotedBobservers := by rw [hschedule]; exact hc.max
  have hbp : (selectedBp s).length ≤ numBobservers := by
    have htake : (selectedBp s).length ≤ s.bobserverSchedule.maxVotedBobservers := List.length_take_le _ _
    rw [hmax] at htake
    exact htake.trans (by decide)
  obtain ⟨hnodup, hkeyed, hlen⟩ := activeBobservers_spec hbp
  obtain ⟨hperm, hempty, hnum⟩ := newSchedule_spec s c' versions (by rw [hlen]; exact Nat.min_le_left _ _) hnew
  have hcount : (keyedBobservers s).length = c'.bobservers.rows.countP fun r => r.2.signingKey != {} := by
    rw [hbobservers]
    exact length_keyedBobservers s
  have hexists : HasKeyed c ↔ 0 < (keyedBobservers s).length := by
    rw [List.length_pos_iff_exists_mem]
    constructor
    · rintro ⟨q, hq, hkey⟩
      refine ⟨q.2.shutdown.account, mem_keyedBobservers.mpr ⟨(q.1, q.2.shutdown), ?_, rfl, ?_⟩⟩
      · rw [hrows]
        exact List.mem_map_of_mem (f := fun q : Nat × BobserverObject => (q.1, q.2.shutdown)) hq
      · exact q.2.shutdown_signingKey.mpr hkey
    · rintro ⟨n, hn⟩
      obtain ⟨r, hr, -, hkey⟩ := mem_keyedBobservers.mp hn
      rw [hrows] at hr
      obtain ⟨q, hq, rfl⟩ := List.mem_map.mp hr
      exact ⟨q, hq, q.2.shutdown_signingKey.mp hkey⟩
  have hwell : HasKeyed c → WellScheduled c' := by
    intro hsome
    have hpos := hexists.mp hsome
    have hne : activeBobservers s ≠ [] := by
      rw [← List.length_pos_iff, hlen]
      unfold numBobservers
      omega
    have hactive := hperm hne
    refine ⟨hactive.nodup_iff.mpr hnodup, fun n hn => ?_, fun r hr hproducer hkey => ?_, ?_⟩
    · rw [hbobservers]
      exact mem_keyedBobservers.mp (hkeyed n (hactive.mem_iff.mp hn))
    · rw [hbobservers] at hr
      rw [hactive.mem_iff, activeBobservers_eq]
      exact List.mem_append_left _ (mem_selectedBp hproducers hmax hr hproducer hkey)
    · rw [hnum, ← hcount, hlen]
      unfold numBobservers
      omega
  refine ⟨⟨fun hw => ?_, hwell⟩, fun hsome => ?_⟩
  · -- an empty selection still leaves one entry
    by_contra hnone
    have hzero : (keyedBobservers s).length = 0 := Nat.eq_zero_of_not_pos fun hpos => hnone (hexists.mpr hpos)
    have hsize := hw.size
    rw [← hcount, hzero, hnum] at hsize
    omega
  · refine ⟨⟨?_, by rw [hdgp']; exact hc.producers.le⟩, ?_, by rw [hnum]; omega, fun n hn => ?_⟩
    · rw [hdgp', hbobservers, ← hproducers.count, hdgp]
    · rw [hnew]
      exact hmax
    · obtain ⟨r, hr, hname, -⟩ := (hwell hsome).keyed n hn
      exact ⟨r, hr, hname⟩

/-! ## Chains -/

theorem RoundSound.of_sameBoard {s s' : Core} (hs : RoundSound s) (h : SameBoard s s') : RoundSound s' := by
  have hnames : scheduledBobservers s' = scheduledBobservers s := by
    simp only [scheduledBobservers, h.bobserverSchedule]
  refine ⟨⟨?_, ?_⟩, ?_, ?_, ?_⟩
  · rw [h.currentBproducerCount, h.bobservers]
    exact hs.producers.count
  · rw [h.currentBproducerCount]
    exact hs.producers.le
  · rw [h.bobserverSchedule]
    exact hs.max
  · rw [h.bobserverSchedule]
    exact hs.pos
  · rw [hnames, h.bobservers]
    exact hs.named

theorem wellScheduled_congr {s s' : Core} (h : SameBoard s s') : WellScheduled s' ↔ WellScheduled s := by
  have hnames : scheduledBobservers s' = scheduledBobservers s := by
    simp only [scheduledBobservers, h.bobserverSchedule]
  constructor
  · rintro ⟨hdistinct, hkeyed, hproducers, hsize⟩
    rw [hnames] at hdistinct hkeyed hproducers
    rw [h.bobservers] at hkeyed hproducers
    rw [h.bobservers, h.bobserverSchedule] at hsize
    exact ⟨hdistinct, hkeyed, hproducers, hsize⟩
  · rintro ⟨hdistinct, hkeyed, hproducers, hsize⟩
    rw [← hnames] at hdistinct hkeyed hproducers
    rw [← h.bobservers] at hkeyed hproducers
    rw [← h.bobservers, ← h.bobserverSchedule] at hsize
    exact ⟨hdistinct, hkeyed, hproducers, hsize⟩

/-- Every bobserver stays under its name. -/
theorem Roster.named {s s' : Core} (h : Roster s s') {r : Nat × BobserverObject} (hr : r ∈ s.bobservers.rows) :
    ∃ r' ∈ s'.bobservers.rows, r'.2.account = r.2.account := by
  obtain ⟨o, ho, hrecord⟩ := h.kept r.1 r.2 (lookup_eq_some.mpr hr)
  exact ⟨(r.1, o), lookup_eq_some.mp ho, congrArg Prod.fst hrecord⟩

/-- The state in which the schedule is updated. -/
theorem RoundSound.settled (hs : RoundSound d.core) (S : BlockStages env node b d d') : RoundSound S.settled := by
  obtain ⟨o, ho, -, hsigned, hlook⟩ := updateSigningBobserver_eq_ok S.sign
  obtain ⟨hbobservers, hsettled, -⟩ := updateLastIrreversibleBlock_same S.irreversible
  have hschedule : S.settled.bobserverSchedule = d.core.bobserverSchedule := by
    rw [hsettled, hsigned, S.advanced_schedule]
  have hnames : scheduledBobservers S.settled = scheduledBobservers d.core := by
    simp only [scheduledBobservers, hschedule]
  refine ⟨S.producers hs.producers, by rw [hschedule]; exact hs.max, by rw [hschedule]; exact hs.pos, ?_⟩
  intro n hn
  rw [hnames] at hn
  obtain ⟨r, hr, hname⟩ := hs.named n hn
  obtain ⟨q, hq, hqname⟩ := S.advanced_roster.named hr
  rw [hbobservers]
  have hq' := hlook q.1
  by_cases hid : q.1 = S.signing
  · -- the signer keeps its name
    rw [if_pos hid] at hq'
    have hqo : q.2 = o := Option.some.inj ((lookup_eq_some.mpr (by rw [← hid]; exact hq)).symm.trans ho)
    refine ⟨_, lookup_eq_some.mp hq', ?_⟩
    rw [← hname, ← hqname, hqo]
  · rw [if_neg hid, lookup_eq_some.mpr hq] at hq'
    exact ⟨q, lookup_eq_some.mp hq', hqname.trans hname⟩

/-- **A block and the schedule.** -/
theorem RoundSound.block (hs : RoundSound d.core) (S : BlockStages env node b d d') :
    (b.blockNum % numBobservers = 0 → (WellScheduled d'.core ↔ HasKeyed S.settled)) ∧
      ((b.blockNum % numBobservers = 0 → HasKeyed S.settled) → RoundSound d'.core) := by
  have hsettled := hs.settled S
  have hnum : S.settled.dgp.headBlockNumber = b.blockNum := by
    rw [← S.sameHour.1.headBlockNumber]
    exact congrArg Prod.fst S.clock
  rcases prepareBlock_cases (R := SameBoard) (fun _ _ => rfl) (fun _ _ => rfl) S.prepare with ⟨hbetween, hsame⟩ | ⟨hround, t, hsame, hupdate⟩
  · rw [hnum] at hbetween
    refine ⟨fun hround => absurd hround hbetween, fun _ => ?_⟩
    exact (hsettled.of_sameBoard hsame).of_sameBoard S.sameBoard
  · rw [hnum] at hround
    obtain ⟨hwell, hsound⟩ := updateBobserverSchedule4_spec (hsettled.of_sameBoard hsame) hupdate
    have hkeyed : HasKeyed t ↔ HasKeyed S.settled := by
      unfold HasKeyed
      rw [hsame.bobservers]
    refine ⟨fun _ => (wellScheduled_congr S.sameBoard).trans (hwell.trans hkeyed), fun hsome => ?_⟩
    exact (hsound (hkeyed.mpr (hsome hround))).of_sameBoard S.sameBoard

/-- A block that ends a round leaves a bobserver with a key for the next one. -/
def KeyedBlock (env : Env) (node : Node) (b : SignedBlock) (d : Database) : Prop :=
  b.blockNum % numBobservers = 0 → HasKeyed (sweptState env node b d)

instance (env : Env) (node : Node) (b : SignedBlock) (d : Database) : Decidable (KeyedBlock env node b d) :=
  inferInstanceAs (Decidable (_ → _))

theorem roundSound_genesis (key : PublicKey) : RoundSound (genesis key).core := by
  refine ⟨⟨rfl, Nat.zero_le _⟩, rfl, Nat.one_pos, fun n hn => ?_⟩
  obtain rfl : n = initMinerName := List.mem_singleton.mp hn
  exact ⟨(0, { account := initMinerName, signingKey := key }), List.mem_singleton.mpr rfl, rfl⟩

theorem roundSound_of_chain {key : PublicKey} (h : Chain env (KeyedBlock env) (genesis key) d) :
    RoundSound d.core := by
  induction h with
  | refl => exact roundSound_genesis key
  | tail h hstep ih =>
    obtain ⟨node, b, hkeyed, happly⟩ := hstep
    obtain ⟨S, hhead⟩ := blockStages happly
    refine (ih.block S).2 fun hround => ?_
    rw [← swept_settled hhead]
    exact hkeyed hround

theorem getScheduledBobserver_mem {s : Core} (hpos : 0 < s.bobserverSchedule.numScheduledBobservers) (k : Nat) :
    getScheduledBobserver s k ∈ scheduledBobservers s :=
  List.mem_map.mpr ⟨_, List.mem_range.mpr (Nat.mod_lt _ hpos), rfl⟩

/-- **The schedule is well formed.** On every chain whose rounds end with a bobserver that has a key, every
slot is scheduled to a bobserver; the next update leaves a schedule in order exactly when that condition
holds of it as well; and both shuffles permute what they are given, the second within its first entries. -/
theorem schedule_well_formed (env : Env) (key : PublicKey) {d : Database}
    (h : Chain env (KeyedBlock env) (genesis key) d) :
    (∀ k, ∃ r ∈ d.core.bobservers.rows, r.2.account = getScheduledBobserver d.core k) ∧
      (∀ node b d', applyBlock env node b d = .ok () d' → b.blockNum % numBobservers = 0 →
        (WellScheduled d'.core ↔ HasKeyed (sweptState env node b d))) ∧
      (∀ nowHi n, (shuffle nowHi n (List.range n)).Perm (List.range n)) ∧
      ∀ nowHi n (names : List AccountName), (shuffle nowHi n names).Perm names ∧
        ((shuffle nowHi n names).take n).Perm (names.take n) ∧ (shuffle nowHi n names).drop n = names.drop n := by
  have hs := roundSound_of_chain h
  refine ⟨fun k => hs.named _ (getScheduledBobserver_mem hs.pos k), fun node b d' happly hround => ?_,
    fun nowHi n => (shuffle_perm nowHi n _).1, fun nowHi n names => shuffle_perm nowHi n names⟩
  obtain ⟨S, hhead⟩ := blockStages happly
  rw [swept_settled hhead]
  exact (hs.block S).1 hround

/-! ## Sample rounds -/

/-- The first twenty blocks of a chain with eighteen bobservers. -/
def crewRound : Database :=
  (sampleRun votingBlock (fun b d => decide (KeyedBlock sampleEnv {} b d)) 19 crewStart).getD crewStart

theorem schedule_well_formed_crewRound :
    Chain sampleEnv (KeyedBlock sampleEnv) (genesis ⟨1⟩) crewRound ∧
      WellScheduled (sampleAfter (votingBlock crewRound) crewRound).core ∧
      (sampleAfter (votingBlock crewRound) crewRound).core.bobserverSchedule.numScheduledBobservers = 18 := by
  have hruns : succeeds (applyBlock sampleEnv {} crewBlock (genesis ⟨1⟩)) = true ∧ crewBlock.blockNum % numBobservers ≠ 0 ∧
      (sampleRun votingBlock (fun b d => decide (KeyedBlock sampleEnv {} b d)) 19 crewStart).isSome = true ∧
      succeeds (applyBlock sampleEnv {} (votingBlock crewRound) crewRound) = true ∧
      (votingBlock crewRound).blockNum % numBobservers = 0 ∧
      HasKeyed (sweptState sampleEnv {} (votingBlock crewRound) crewRound) ∧
      (sampleAfter (votingBlock crewRound) crewRound).core.bobserverSchedule.numScheduledBobservers = 18 := by
    decide +kernel
  obtain ⟨hfirst, hwithin, hrun, hnext, hround, hkeyed, hsize⟩ := hruns
  have hchain : Chain sampleEnv (KeyedBlock sampleEnv) (genesis ⟨1⟩) crewRound :=
    .head ⟨{}, crewBlock, fun h => absurd h hwithin, eq_ok_of_succeeds hfirst⟩
      (chain_sampleRun_getD (fun _ _ h => of_decide_eq_true h) hrun)
  refine ⟨hchain, ?_, hsize⟩
  exact ((schedule_well_formed sampleEnv ⟨1⟩ hchain).2.1 {} _ _ (eq_ok_of_succeeds hnext) hround).mpr hkeyed

/-- The only bobserver is excepted. -/
def exceptBlock : SignedBlock :=
  sampleBlock {} 1 [createRoot, .exceptBobserver ⟨rootAccount, initMinerName⟩]

/-- The rest of that round. -/
def lostRound : Database :=
  (sampleRun idleBlock (fun _ _ => true) 20 (sampleAfter exceptBlock (genesis ⟨1⟩))).getD
    (sampleAfter exceptBlock (genesis ⟨1⟩))

/-- The update then finds no bobserver with a key, schedules one empty name, and no slot has a bobserver. -/
theorem lostRound_unscheduled : Chain sampleEnv anyBlock (genesis ⟨1⟩) lostRound ∧
    lostRound.core.dgp.headBlockNumber = 21 ∧ ¬WellScheduled lostRound.core ∧
    ¬∃ r ∈ lostRound.core.bobservers.rows, r.2.account = getScheduledBobserver lostRound.core 1 := by
  have hruns : succeeds (applyBlock sampleEnv {} exceptBlock (genesis ⟨1⟩)) = true ∧
      (sampleRun idleBlock (fun _ _ => true) 20 (sampleAfter exceptBlock (genesis ⟨1⟩))).isSome = true ∧
      lostRound.core.dgp.headBlockNumber = 21 ∧
      lostRound.core.bobserverSchedule.numScheduledBobservers ≠
        min numBobservers (lostRound.core.bobservers.rows.countP fun r => r.2.signingKey != {}) ∧
      ¬∃ r ∈ lostRound.core.bobservers.rows, r.2.account = getScheduledBobserver lostRound.core 1 := by
    decide +kernel
  obtain ⟨hfirst, hrest, hnum, hsize, hnone⟩ := hruns
  refine ⟨.head ⟨{}, exceptBlock, trivial, eq_ok_of_succeeds hfirst⟩ ?_, hnum, fun h => hsize h.size, hnone⟩
  exact chain_sampleRun_getD (P := anyBlock) (fun _ _ _ => trivial) hrest

end Sigmaengine
