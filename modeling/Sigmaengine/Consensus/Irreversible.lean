import Mathlib.Data.List.Forall2
import Sigmaengine.Consensus.Slots

/-!
# The irreversible block

`last_irreversible_block_num` trails the head by a fixed number of blocks up to
`SIGMAENGINE_START_MINER_VOTING_BLOCK`; from there on it is the number that three quarters of the scheduled
bobservers have confirmed.

Main result: `irreversible_backed`, along every chain the number never decreases, never passes the head, and
is backed by a quorum whenever the second regime raises it.
-/

namespace Sigmaengine

open Effect Table

/-! ## Counting in a sorted list -/

/-- From position `k` on, a sorted list is at least as large as its `k`-th element. -/
theorem length_sub_le_countP {xs : List Nat} (hsorted : xs.Pairwise (· ≤ ·)) {k v : Nat} (hk : xs[k]? = some v) :
    xs.length - k ≤ xs.countP fun x => v ≤ x := by
  obtain ⟨hlt, rfl⟩ := List.getElem?_eq_some_iff.mp hk
  have hdrop : xs.drop k = xs[k] :: xs.drop (k + 1) := List.drop_eq_getElem_cons hlt
  have hsuffix : (xs.drop k).Pairwise (· ≤ ·) := hsorted.sublist (List.drop_sublist k xs)
  rw [hdrop, List.pairwise_cons] at hsuffix
  have hall : (xs.drop k).countP (fun x => xs[k] ≤ x) = xs.length - k := by
    rw [← List.length_drop, List.countP_eq_length]
    intro x hx
    rw [hdrop] at hx
    rcases List.mem_cons.mp hx with rfl | hx
    · simp
    · exact decide_eq_true (hsuffix.1 x hx)
  calc xs.length - k = (xs.drop k).countP fun x => xs[k] ≤ x := hall.symm
    _ ≤ xs.countP fun x => xs[k] ≤ x := (List.drop_sublist k xs).countP_le

/-- Three quarters of the bobservers have confirmed the number, which one of them last signed. -/
theorem confirmedBy_spec {bobservers : List BobserverObject} (hne : bobservers ≠ []) :
    (∃ b ∈ bobservers, confirmedBy bobservers ≤ b.lastConfirmedBlockNum) ∧
      bobservers.length - bobservers.length / 4 ≤
        bobservers.countP fun b => confirmedBy bobservers ≤ b.lastConfirmedBlockNum := by
  have hpos : 0 < bobservers.length := List.length_pos_iff.mpr hne
  have hperm := List.perm_insertionSort (· ≤ ·) (bobservers.map fun b => b.lastConfirmedBlockNum)
  have hlen : ((bobservers.map fun b => b.lastConfirmedBlockNum).insertionSort (· ≤ ·)).length =
      bobservers.length := by rw [hperm.length_eq, List.length_map]
  have hsorted := List.pairwise_insertionSort (· ≤ ·) (bobservers.map fun b => b.lastConfirmedBlockNum)
  have hoffset : 2500 * (bobservers.map fun b => b.lastConfirmedBlockNum).length / 10000 =
      bobservers.length / 4 := by
    rw [List.length_map]
    omega
  obtain ⟨v, hv⟩ : ∃ v, ((bobservers.map fun b => b.lastConfirmedBlockNum).insertionSort
      (· ≤ ·))[bobservers.length / 4]? = some v :=
    ⟨_, List.getElem?_eq_getElem (by rw [hlen]; omega)⟩
  have hle : confirmedBy bobservers ≤ v := by
    unfold confirmedBy
    simp only [hoffset, List.getD_eq_getElem?_getD, hv, Option.getD_some]
    exact Nat.mod_le _ _
  have hmem := hperm.mem_iff.mp (List.mem_of_getElem? hv)
  obtain ⟨b, hb, rfl⟩ := List.mem_map.mp hmem
  refine ⟨⟨b, hb, hle⟩, ?_⟩
  have hcount := length_sub_le_countP hsorted hv
  rw [hlen, hperm.countP_eq, List.countP_map] at hcount
  refine hcount.trans (List.countP_mono_left fun x _ hx => ?_)
  exact decide_eq_true (hle.trans (of_decide_eq_true hx))

/-! ## The scheduled bobservers -/

/-- The objects that are looked up are those under the names. -/
theorem getBobservers_eq_ok {names : List AccountName} {bobservers : List BobserverObject} {s s' : Core}
    (h : getBobservers names s = .ok bobservers s') :
    List.Forall₂ (fun n b => ∃ id, (id, b) ∈ s.bobservers.rows ∧ b.account = n) names bobservers := by
  induction names generalizing bobservers s' with
  | nil =>
    obtain ⟨rfl, -⟩ := pure_eq_ok.mp h
    exact .nil
  | cons n ns ih =>
    simp only [getBobservers, bind_eq_ok, getBobserver, getIn_eq_ok, pure_eq_ok] at h
    obtain ⟨b, _, ⟨hfind, rfl⟩, bs, t, hbs, rfl, rfl⟩ := h
    obtain ⟨hmem, hname⟩ := mem_of_find? hfind
    exact .cons ⟨b.1, hmem, eq_of_beq hname⟩ (ih hbs)

theorem exists_row_of_mem {names : List AccountName} {bobservers : List BobserverObject} {s : Core}
    (h : List.Forall₂ (fun n b => ∃ id, (id, b) ∈ s.bobservers.rows ∧ b.account = n) names bobservers)
    {b : BobserverObject} (hb : b ∈ bobservers) : ∃ id, (id, b) ∈ s.bobservers.rows := by
  induction h with
  | nil => cases hb
  | cons hrow h ih =>
    rcases List.mem_cons.mp hb with rfl | hb
    · exact hrow.imp fun _ hrow => hrow.1
    · exact ih hb

/-- The bobserver under a name has confirmed block `n`. -/
def Confirmed (s : Core) (n : Nat) (name : AccountName) : Prop :=
  ∃ r ∈ s.bobservers.rows, r.2.account = name ∧ n ≤ r.2.lastConfirmedBlockNum

instance (s : Core) (n : Nat) : DecidablePred (Confirmed s n) := fun _ => inferInstanceAs (Decidable (∃ _ ∈ _, _))

theorem countP_confirmed {names : List AccountName} {bobservers : List BobserverObject} {s : Core}
    (h : List.Forall₂ (fun n b => ∃ id, (id, b) ∈ s.bobservers.rows ∧ b.account = n) names bobservers) (n : Nat) :
    (bobservers.countP fun b => n ≤ b.lastConfirmedBlockNum) ≤ names.countP fun name => Confirmed s n name := by
  induction h with
  | nil => simp
  | @cons name b names bobservers hb h ih =>
    obtain ⟨id, hmem, hname⟩ := hb
    rw [List.countP_cons, List.countP_cons]
    by_cases hle : n ≤ b.lastConfirmedBlockNum
    · have hc : Confirmed s n name := ⟨(id, b), hmem, hname, hle⟩
      simp only [hle, hc, decide_true, if_true]
      omega
    · simp only [hle, decide_false, Bool.false_eq_true, if_false]
      omega

/-! ## One step -/

/-- What `update_last_irreversible_block` does to the number. -/
theorem updateLastIrreversibleBlock_cases {c c' : Core} {u : Unit} (h : updateLastIrreversibleBlock c = .ok u c') :
    (c.dgp.headBlockNumber < startMinerVotingBlock ∧
      c'.dgp.lastIrreversibleBlockNum =
        if numBobservers < c.dgp.headBlockNumber then c.dgp.headBlockNumber - numBobservers
        else c.dgp.lastIrreversibleBlockNum) ∨
    (startMinerVotingBlock ≤ c.dgp.headBlockNumber ∧ ∃ bobservers,
      List.Forall₂ (fun n b => ∃ id, (id, b) ∈ c.bobservers.rows ∧ b.account = n) (scheduledBobservers c)
        bobservers ∧
      c'.dgp.lastIrreversibleBlockNum = max c.dgp.lastIrreversibleBlockNum (confirmedBy bobservers)) := by
  obtain ⟨s, t, hget, h⟩ := bind_eq_ok.mp h
  obtain ⟨rfl, rfl⟩ := get_eq_ok.mp hget
  split at h
  · refine .inl ⟨‹_›, ?_⟩
    rw [← modify_eq_ok.mp h]
  · obtain ⟨bobservers, t, hread, h⟩ := bind_eq_ok.mp h
    obtain rfl := (readOnly_getBobservers _).eq_of_ok hread
    refine .inr ⟨by omega, bobservers, getBobservers_eq_ok hread, ?_⟩
    rw [← modify_eq_ok.mp h]

/-- Where the irreversible number stands: in the first regime a fixed distance behind the head, and never past
it or past what a bobserver confirmed. -/
structure IrreversibleSound (s : Core) : Prop where
  clock : ClockSound s
  early : s.dgp.headBlockNumber < startMinerVotingBlock →
    s.dgp.lastIrreversibleBlockNum = s.dgp.headBlockNumber - numBobservers
  le_head : s.dgp.lastIrreversibleBlockNum ≤ s.dgp.headBlockNumber
  confirmed : ∀ id b, s.bobservers.lookup id = some b → b.lastConfirmedBlockNum ≤ s.dgp.headBlockNumber

theorem irreversibleSound_genesis (key : PublicKey) : IrreversibleSound (genesis key).core := by
  refine ⟨clockSound_genesis key, fun _ => rfl, Nat.le_refl _, fun id b hb => ?_⟩
  have hmem : (id, b) ∈ [(0, ({ account := initMinerName, signingKey := key } : BobserverObject))] :=
    lookup_eq_some.mp hb
  rw [List.mem_singleton] at hmem
  cases hmem
  exact Nat.le_refl _

/-- A bound on what the bobservers confirmed is kept with the roster. -/
theorem Roster.confirmed_le {s s' : Core} (h : Roster s s') {n : Nat}
    (hs : ∀ id b, s.bobservers.lookup id = some b → b.lastConfirmedBlockNum ≤ n) (id : Nat) (b' : BobserverObject)
    (hb' : s'.bobservers.lookup id = some b') : b'.lastConfirmedBlockNum ≤ n := by
  cases hb : s.bobservers.lookup id with
  | none =>
    rw [h.fresh id b' hb' hb]
    exact Nat.zero_le n
  | some b =>
    obtain ⟨c, hc, hrecord⟩ := h.kept id b hb
    obtain rfl : b' = c := Option.some.inj (hb'.symm.trans hc)
    have hlast : b'.lastConfirmedBlockNum = b.lastConfirmedBlockNum := congrArg (fun p => p.2.2) hrecord
    rw [hlast]
    exact hs id b hb

variable {env : Env} {node : Node} {b : SignedBlock} {d d' : Database}

/-- Nobody has confirmed more than the new head when `update_last_irreversible_block` looks. -/
theorem IrreversibleSound.signed_le (hs : IrreversibleSound d.core) (hb : b.Timed)
    (S : BlockStages env node b d d') (id : Nat) (o : BobserverObject)
    (ho : S.signed.bobservers.lookup id = some o) :
    o.lastConfirmedBlockNum ≤ d.core.dgp.headBlockNumber + 1 := by
  obtain ⟨o₀, -, -, -, hlook⟩ := updateSigningBobserver_eq_ok S.sign
  rw [hlook id] at ho
  split at ho
  · cases ho
    exact Nat.le_of_eq (hs.clock.blockNum hb S)
  · refine S.advanced_roster.confirmed_le (fun id b h => ?_) id o ho
    exact (hs.confirmed id b h).trans (Nat.le_succ _)

/-- **A block and the irreversible number.** -/
theorem IrreversibleSound.block (hs : IrreversibleSound d.core) (hb : b.Timed) (S : BlockStages env node b d d') :
    IrreversibleSound d'.core ∧
      d.core.dgp.lastIrreversibleBlockNum ≤ d'.core.dgp.lastIrreversibleBlockNum ∧
      (startMinerVotingBlock ≤ d'.core.dgp.headBlockNumber →
        d.core.dgp.lastIrreversibleBlockNum < d'.core.dgp.lastIrreversibleBlockNum →
        (scheduledBobservers S.settled).length - (scheduledBobservers S.settled).length / 4 ≤
          (scheduledBobservers S.settled).countP fun name =>
            Confirmed S.settled d'.core.dgp.lastIrreversibleBlockNum name) := by
  obtain ⟨hclock, hhead, htime⟩ := hs.clock.block hb S
  have hlib : d'.core.dgp.lastIrreversibleBlockNum = S.settled.dgp.lastIrreversibleBlockNum :=
    S.sameHour.1.lastIrreversibleBlockNum
  have hsigned : SameClock S.advanced S.signed := (updateSigningBobserver_eq_ok S.sign).choose_spec.2.1
  have hadvanced := S.advanced_clock
  simp only [Core.clock, Prod.mk.injEq] at hadvanced
  have hnum : S.signed.dgp.headBlockNumber = d.core.dgp.headBlockNumber + 1 := by
    rw [hsigned.headBlockNumber, hadvanced.1, hs.clock.blockNum hb S]
  have hold : S.signed.dgp.lastIrreversibleBlockNum = d.core.dgp.lastIrreversibleBlockNum := by
    rw [hsigned.lastIrreversibleBlockNum, hadvanced.2.2.2.2]
  obtain ⟨hsame, hschedule, -⟩ := updateLastIrreversibleBlock_same S.irreversible
  have hconfirmed : ∀ id o, d'.core.bobservers.lookup id = some o →
      o.lastConfirmedBlockNum ≤ d'.core.dgp.headBlockNumber := by
    refine S.sameHour.2.confirmed_le fun id o ho => ?_
    rw [hsame] at ho
    rw [hhead]
    exact hs.signed_le hb S id o ho
  have hle := hs.le_head
  rcases updateLastIrreversibleBlock_cases S.irreversible with ⟨hearly, hnew⟩ | ⟨hlate, bobservers, hobjects, hnew⟩
  · -- the first regime: the distance to the head is the same before and after
    have hbefore := hs.early (by omega)
    have hafter : d'.core.dgp.lastIrreversibleBlockNum = d'.core.dgp.headBlockNumber - numBobservers := by
      rw [hlib, hnew, hnum, hold, hbefore, hhead]
      split <;> omega
    refine ⟨⟨hclock, fun _ => hafter, by omega, hconfirmed⟩, by omega, fun hstart _ => ?_⟩
    omega
  · -- the second regime
    have hraised : d'.core.dgp.lastIrreversibleBlockNum =
        max d.core.dgp.lastIrreversibleBlockNum (confirmedBy bobservers) := by rw [hlib, hnew, hold]
    have hbound : confirmedBy bobservers ≤ d.core.dgp.headBlockNumber + 1 := by
      by_cases hne : bobservers = []
      · rw [hne]
        exact Nat.zero_le _
      · obtain ⟨o, ho, hle⟩ := (confirmedBy_spec hne).1
        obtain ⟨id, hmem⟩ := exists_row_of_mem hobjects ho
        exact hle.trans (hs.signed_le hb S id o (lookup_eq_some.mpr hmem))
    refine ⟨⟨hclock, fun hsmall => ?_, by omega, hconfirmed⟩, by omega, fun _ hlt => ?_⟩
    · omega
    · have hL : d'.core.dgp.lastIrreversibleBlockNum = confirmedBy bobservers := by omega
      have hne : bobservers ≠ [] := by
        rintro rfl
        rw [hL] at hlt
        exact Nat.not_lt_zero _ hlt
      have hscheduled : scheduledBobservers S.settled = scheduledBobservers S.signed := by
        simp only [scheduledBobservers, hschedule]
      have hsettled : (fun name => decide (Confirmed S.settled (confirmedBy bobservers) name)) =
          fun name => decide (Confirmed S.signed (confirmedBy bobservers) name) := by
        funext name
        exact decide_eq_decide.mpr (by simp only [Confirmed, hsame])
      rw [hL, hscheduled, hsettled, hobjects.length_eq]
      exact (confirmedBy_spec hne).2.trans (countP_confirmed hobjects _)

/-! ## Chains -/

theorem IrreversibleSound.chain (hs : IrreversibleSound d.core) (h : Chain env timedBlock d d') :
    IrreversibleSound d'.core ∧ d.core.dgp.lastIrreversibleBlockNum ≤ d'.core.dgp.lastIrreversibleBlockNum := by
  induction h with
  | refl => exact ⟨hs, Nat.le_refl _⟩
  | tail h hstep ih =>
    obtain ⟨node, b, htimed, happly⟩ := hstep
    obtain ⟨S, -⟩ := blockStages happly
    obtain ⟨hsound, hle, -⟩ := ih.1.block htimed S
    exact ⟨hsound, ih.2.trans hle⟩

/-- **The irreversible number is monotone and backed by a quorum.** Between any two states of a chain it does
not decrease, it never passes the head, and a block that raises it to `L` in the second regime finds `L`
confirmed by `n - n / 4` of the `n` scheduled bobservers, in the state in which the number is taken. -/
theorem irreversible_backed (env : Env) (key : PublicKey) {d d' : Database} (h : Chain env timedBlock (genesis key) d)
    (h' : Chain env timedBlock d d') :
    d.core.dgp.lastIrreversibleBlockNum ≤ d'.core.dgp.lastIrreversibleBlockNum ∧
      d'.core.dgp.lastIrreversibleBlockNum ≤ d'.core.dgp.headBlockNumber ∧
      ∀ node b d'', b.Timed → applyBlock env node b d' = .ok () d'' →
        startMinerVotingBlock ≤ d''.core.dgp.headBlockNumber →
        d'.core.dgp.lastIrreversibleBlockNum < d''.core.dgp.lastIrreversibleBlockNum →
        (sweptState env node b d').bobserverSchedule.numScheduledBobservers -
            (sweptState env node b d').bobserverSchedule.numScheduledBobservers / 4 ≤
          (scheduledBobservers (sweptState env node b d')).countP fun name =>
            Confirmed (sweptState env node b d') d''.core.dgp.lastIrreversibleBlockNum name := by
  have hsound := ((irreversibleSound_genesis key).chain h).1
  obtain ⟨hsound', hle⟩ := hsound.chain h'
  refine ⟨hle, hsound'.le_head, fun node b d'' htimed happly hstart hraised => ?_⟩
  obtain ⟨S, hhead⟩ := blockStages happly
  have hquorum := (hsound'.block htimed S).2.2 hstart hraised
  have hlen : (scheduledBobservers S.settled).length = S.settled.bobserverSchedule.numScheduledBobservers := by
    unfold scheduledBobservers
    rw [List.length_map, List.length_range]
  rw [hlen] at hquorum
  rw [swept_settled hhead]
  exact hquorum

theorem chain_sampleAfter {b : SignedBlock} {d : Database} (htimed : b.Timed)
    (hrun : succeeds (applyBlock sampleEnv {} b d) = true) : Chain sampleEnv timedBlock d (sampleAfter b d) :=
  .single ⟨{}, b, htimed, eq_ok_of_succeeds hrun⟩

/-- Twenty-two blocks, and one more. -/
def crewLater : Database := (sampleRun votingBlock (fun b _ => decide b.Timed) 21 crewStart).getD crewStart

theorem irreversible_backed_crewLater :
    Chain sampleEnv timedBlock (genesis ⟨1⟩) crewLater ∧
      Chain sampleEnv timedBlock crewLater (sampleAfter (votingBlock crewLater) crewLater) ∧
      crewLater.core.dgp.lastIrreversibleBlockNum = 1 ∧
      (sampleAfter (votingBlock crewLater) crewLater).core.dgp.lastIrreversibleBlockNum = 2 ∧
      crewLater.core.dgp.lastIrreversibleBlockNum ≤
        (sampleAfter (votingBlock crewLater) crewLater).core.dgp.lastIrreversibleBlockNum ∧
      (sampleAfter (votingBlock crewLater) crewLater).core.dgp.lastIrreversibleBlockNum ≤
        (sampleAfter (votingBlock crewLater) crewLater).core.dgp.headBlockNumber := by
  have hruns : crewBlock.Timed ∧ succeeds (applyBlock sampleEnv {} crewBlock (genesis ⟨1⟩)) = true ∧
      (sampleRun votingBlock (fun b _ => decide b.Timed) 21 crewStart).isSome = true ∧ (votingBlock crewLater).Timed ∧
      succeeds (applyBlock sampleEnv {} (votingBlock crewLater) crewLater) = true ∧
      crewLater.core.dgp.lastIrreversibleBlockNum = 1 ∧
      (sampleAfter (votingBlock crewLater) crewLater).core.dgp.lastIrreversibleBlockNum = 2 := by
    decide +kernel
  obtain ⟨htimed, hfirst, hrun, htimed', hnext, hone, htwo⟩ := hruns
  have hchain : Chain sampleEnv timedBlock (genesis ⟨1⟩) crewLater :=
    .head ⟨{}, crewBlock, htimed, eq_ok_of_succeeds hfirst⟩
      (chain_sampleRun_getD (P := timedBlock) (fun b _ h => of_decide_eq_true (p := b.Timed) h) hrun)
  have hlater := chain_sampleAfter htimed' hnext
  obtain ⟨hraised, hbelow, -⟩ := irreversible_backed sampleEnv ⟨1⟩ hchain hlater
  exact ⟨hchain, hlater, hone, htwo, hraised, hbelow⟩

end Sigmaengine
