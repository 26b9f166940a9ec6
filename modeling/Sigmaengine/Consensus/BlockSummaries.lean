import Sigmaengine.Consensus.PendingTransactions
import Sigmaengine.Lib.Ring

/-!
# Block summaries

The database keeps the id of each block in a ring of 65536 slots.  The ring is part of the objects that `undo` takes back, so
that in every state reached it tells the last blocks of the main chain; `find_block_id_for_num` asks it first, and the
transactions refer to blocks by it.

Main results: `reach_summarised`, `findBlockIdForNum_recent`, `pending_current`.
-/

namespace Sigmaengine

open Effect Table History

/-! ## What one block writes -/

def SameSummaries (s s' : Core) : Prop := s'.blockSummaries = s.blockSummaries

instance : Std.Refl SameSummaries := ⟨fun _ => rfl⟩

instance : IsTrans Core SameSummaries := ⟨fun _ _ _ h h' => h'.trans h⟩

theorem Stays.sameSummaries {s s' : Core} (h : Stays s s') : SameSummaries s s' :=
  congrArg (fun p : Table TransactionObject × (Nat → BlockId) × _ => p.2.1) h

theorem operationFrame_sameSummaries : OperationFrame SameSummaries :=
  .ofAccountsOnly (fun _ _ h => h.stays.sameSummaries)
    (fun o => (stays_bobserverUpdate o).mono fun _ _ h => h.sameSummaries)
    (fun o => (stays_updateBproducer o).mono fun _ _ h => h.sameSummaries)
    (fun o => (stays_exceptBobserver o).mono fun _ _ h => h.sameSummaries)

theorem headFrame_sameSummaries : HeadFrame SameSummaries where
  role _ _ _ := always_within (fun _ _ => rfl) _
  properties _ _ _ := rfl
  transactions _ _ := rfl

variable {env : Env} {rec : Recorder} {node : Node} {b : SignedBlock}

theorem sameSummaries_applyTransaction (trx : SignedTransaction) :
    Always (CoreRel SameSummaries) (applyTransaction env node trx) :=
  always_applyTransaction operationFrame_sameSummaries (fun _ _ => rfl) env node trx

theorem sameSummaries_updateBobserverSchedule : Always SameSummaries updateBobserverSchedule := by
  refine always_bind (always_bind always_get fun _ => always_pure _) fun num => ?_
  split
  · refine always_bind (always_shutdownExcepted headFrame_sameSummaries.role) fun _ => always_bind always_get fun s => ?_
    refine always_bind (readOnly_getBobservers _).always fun bobservers => ?_
    exact always_bind (fun _ => rfl) fun _ => fun _ => rfl
  · exact always_pure _

/-- **A block writes its own slot** and no other. -/
theorem applyBlock_summaries {d d' : Database} (h : applyBlock env node b d = .ok () d') (slot : Nat) :
    d'.core.blockSummaries slot =
      if b.blockNum % 65536 = slot then b.id env.codec else d.core.blockSummaries slot := by
  obtain ⟨S, -⟩ := blockStages h
  have hopened : SameSummaries d.core S.opened := headFrame_sameSummaries.applyBlockHeader.runs _ _ _ S.header
  have hexecuted : SameSummaries S.opened S.executed.core :=
    (always_each (@sameSummaries_applyTransaction env node) _).runs _ _ _ S.transactions
  have hadvanced : SameSummaries S.executed.core S.advanced :=
    headFrame_sameSummaries.updateGlobalDynamicData.runs _ _ _ S.globals
  have hsigned : SameSummaries S.advanced S.signed :=
    (always_bind always_get fun _ => always_within (fun _ _ => rfl) _).runs _ _ _ S.sign
  have hsettled : SameSummaries S.signed S.settled :=
    headFrame_sameSummaries.updateLastIrreversibleBlock.runs _ _ _ S.irreversible
  have hbefore : S.settled.blockSummaries = d.core.blockSummaries :=
    hsettled.trans (hsigned.trans (hadvanced.trans (hexecuted.trans hopened)))
  have hprepared : S.prepared.blockSummaries = fun i =>
      if i = b.blockNum % 65536 then b.id env.codec else S.settled.blockSummaries i := by
    obtain ⟨_, t, hsummary, hrest⟩ := bind_eq_ok.mp S.prepare
    have hsame : SameSummaries t S.prepared :=
      (always_bind (always_clearExpiredTransactions fun _ _ => rfl)
        fun _ => sameSummaries_updateBobserverSchedule).runs _ _ _ hrest
    rw [show S.prepared.blockSummaries = t.blockSummaries from hsame, ← modify_eq_ok.mp hsummary]
  have hprocessed := (accountsOnly_postProcess.runs _ _ _ S.post).stays.sameSummaries
  have hforked : SameSummaries S.processed S.forked := (always_processHardforks fun _ _ => rfl).runs _ _ _ S.hardforks
  have hnotify : MoneyOnly S.forked d'.core := (moneyOnly_notifyAppliedBlock env).runs _ _ _ S.notify
  have hafter : d'.core.blockSummaries = S.prepared.blockSummaries :=
    hnotify.accountsOnly.stays.sameSummaries.trans (hforked.trans hprocessed)
  rw [hafter, hprepared, hbefore]
  exact ite_congr (propext eq_comm) (fun _ => rfl) fun _ => rfl

/-! ## The ring and the main chain -/

/-- The id of the last block of the chain whose number falls on the slot. -/
def summaryOf (cd : Codec) (chain : List SignedBlock) (slot : Nat) : BlockId :=
  ((Ring.lastIn (fun b : SignedBlock => b.blockNum) 65536 slot chain).map fun b => b.id cd).getD {}

/-- The ring tells the chain. -/
def Summarised (cd : Codec) (chain : List SignedBlock) (s : Core) : Prop :=
  ∀ slot, s.blockSummaries slot = summaryOf cd chain slot

theorem summaryOf_concat (cd : Codec) (chain : List SignedBlock) (slot : Nat) :
    summaryOf cd (chain ++ [b]) slot = if b.blockNum % 65536 = slot then b.id cd else summaryOf cd chain slot := by
  unfold summaryOf
  rw [Ring.lastIn_concat]
  split <;> rfl

theorem Summarised.applyBlock {chain : List SignedBlock} {d d' : Database} (h : Summarised env.codec chain d.core)
    (happly : applyBlock env node b d = .ok () d') : Summarised env.codec (chain ++ [b]) d'.core := by
  intro slot
  rw [applyBlock_summaries happly, summaryOf_concat, h slot]

theorem Anchored.numbered {cd : Codec} {o : Objects} (h : Anchored cd o) :
    Ring.Numbered (fun b : SignedBlock => b.blockNum) o.chain := fun i b hb => (h.blocks i b hb).2.1

/-- The last 65536 blocks can be told from the ring. -/
theorem Anchored.summaryOf {cd : Codec} {o : Objects} (h : Anchored cd o) {n : Nat} (hpos : 0 < n)
    (hle : n ≤ o.chain.length) (hrecent : o.chain.length < n + 65536) :
    ∃ b, o.chain[n - 1]? = some b ∧ b.blockNum = n ∧ summaryOf cd o.chain (n % 65536) = b.id cd := by
  have hlt : n - 1 < o.chain.length := by omega
  have hb := List.getElem?_eq_getElem hlt
  refine ⟨o.chain[n - 1], hb, ?_, ?_⟩
  · have hnum := (h.blocks _ _ hb).2.1
    omega
  · rw [Sigmaengine.summaryOf, h.numbered.lastIn_recent hpos hle hrecent, hb]
    rfl

/-! ## References to blocks -/

/-- The transaction refers to the last block of the chain in its slot, or to a slot where there was none yet. -/
def Refers (cd : Codec) (chain : List SignedBlock) (trx : SignedTransaction) : Prop :=
  (∃ b ∈ chain, b.blockNum % 65536 = trx.refBlockNum ∧ trx.refBlockPrefix = (b.id cd).word ∧
    ∀ b' ∈ chain, b'.blockNum % 65536 = trx.refBlockNum → b'.blockNum ≤ b.blockNum) ∨
  (∀ b ∈ chain, b.blockNum % 65536 ≠ trx.refBlockNum) ∧ trx.refBlockPrefix = 0

/-- Where there are blocks, the reference is to one of them, and the transaction expires after the last one, but soon. -/
def Current (cd : Codec) (node : Node) (chain : List SignedBlock) (trx : SignedTransaction) : Prop :=
  chain ≠ [] → (node.skip.taposCheck = false → Refers cd chain trx) ∧ tipTime chain < trx.expiration ∧
    trx.expiration ≤ addSeconds (tipTime chain) maxTimeUntilExpiration

theorem Anchored.refers {cd : Codec} {o : Objects} (h : Anchored cd o) {trx : SignedTransaction}
    (hword : trx.refBlockPrefix = (Sigmaengine.summaryOf cd o.chain trx.refBlockNum).word) : Refers cd o.chain trx := by
  unfold Sigmaengine.summaryOf at hword
  cases hlast : Ring.lastIn (fun b : SignedBlock => b.blockNum) 65536 trx.refBlockNum o.chain with
  | none =>
    rw [hlast] at hword
    exact .inr ⟨Ring.lastIn_eq_none.mp hlast, hword⟩
  | some b =>
    rw [hlast] at hword
    obtain ⟨hmem, hslot⟩ := Ring.mem_of_lastIn hlast
    exact .inl ⟨b, hmem, hslot, hword, h.numbered.le_lastIn hlast⟩

/-- What is asked of the dates and the reference of a transaction that is accepted. -/
theorem applyTransaction_dates {trx : SignedTransaction} {d d' : Database}
    (h : applyTransaction env node trx d = .ok () d') (hnum : d.core.dgp.headBlockNumber ≠ 0) :
    (node.skip.taposCheck = false → trx.refBlockPrefix = (d.core.blockSummaries trx.refBlockNum).word) ∧
      d.core.dgp.time < trx.expiration ∧ trx.expiration ≤ addSeconds d.core.dgp.time maxTimeUntilExpiration := by
  obtain ⟨_, _, hadmit, -⟩ := bind_eq_ok.mp h
  obtain ⟨c₁, hadmit, -⟩ := within_eq_ok.mp hadmit
  simp only [admitTransaction, bind_eq_ok, get_eq_ok, fcAssert_eq_ok] at hadmit
  obtain ⟨_, _, hvalid, s, _, ⟨rfl, rfl⟩, _, _, ⟨-, rfl⟩, _, _, hsigned, _, _, hdates, -⟩ := hadmit
  obtain rfl := (readOnly_checked _).eq_of_ok hvalid
  have hsignatures : ReadOnly (checkSignatures env node trx) := by
    refine readOnly_get.bind fun s => ?_
    split
    · exact readOnly_pure _
    · exact (readOnly_checked _).bind fun _ => readOnly_checked _
  obtain rfl := hsignatures.eq_of_ok hsigned
  simp only [checkExpiration, bind_eq_ok, get_eq_ok] at hdates
  obtain ⟨_, _, ⟨rfl, rfl⟩, hdates⟩ := hdates
  rw [if_neg (show (corePart.get d).dgp.headBlockNumber ≠ 0 from hnum)] at hdates
  simp only [bind_eq_ok, fcAssert_eq_ok] at hdates
  obtain ⟨_, _, ⟨hword, rfl⟩, _, _, ⟨hsoon, rfl⟩, hlate, -⟩ := hdates
  refine ⟨fun hskip => ?_, of_decide_eq_true hlate, of_decide_eq_true hsoon⟩
  rw [hskip, Bool.false_or] at hword
  exact eq_of_beq hword

/-- Transactions that are accepted one after the other all see the ring and the time of the head. -/
theorem AcceptedInTurn.current {Ok : Node → Prop} {trxs : List SignedTransaction} {d d' : Database} {o : Objects}
    (h : AcceptedInTurn env Ok trxs d d') (hanchored : Anchored env.codec o) (hring : Summarised env.codec o.chain d.core)
    (hclock : SameClock o.database.core d.core) : ∀ trx ∈ trxs, ∃ node, Ok node ∧ Current env.codec node o.chain trx := by
  induction trxs generalizing d with
  | nil => exact fun trx htrx => absurd htrx List.not_mem_nil
  | cons t trxs ih =>
    obtain ⟨node, d₁, hok, hfirst, hrest⟩ := h
    intro trx htrx
    rcases List.mem_cons.mp htrx with rfl | htrx
    · refine ⟨node, hok, fun hchain => ?_⟩
      have hnum : d.core.dgp.headBlockNumber ≠ 0 := by
        rw [hclock.headBlockNumber, hanchored.headNum]
        exact fun h => hchain (List.length_eq_zero_iff.mp h)
      obtain ⟨hword, hlate, hsoon⟩ := applyTransaction_dates hfirst hnum
      rw [hclock.time, hanchored.time] at hlate hsoon
      refine ⟨fun hskip => hanchored.refers ?_, hlate, hsoon⟩
      rw [hword hskip, hring]
    · have hsame := @sameSummaries_applyTransaction env node t d
      have hround := @sameRound_applyTransaction env node t d
      rw [hfirst] at hsame hround
      refine ih hrest (fun slot => ?_) (IsTrans.trans _ _ _ hclock hround.clock) trx htrx
      rw [show d₁.core.blockSummaries = d.core.blockSummaries from hsame]
      exact hring slot

namespace Controller

variable {c c' : Controller} {key : PublicKey} {calls : List Call}

theorem sameSummaries_of_accepts {d d' : Database} (h : Relation.ReflTransGen (Accepts env) d d') :
    SameSummaries d.core d'.core := by
  induction h with
  | refl => exact Std.Refl.refl _
  | @tail d₁ _ _ haccepts ih =>
    obtain ⟨node, trx, happly⟩ := haccepts
    have hsame := @sameSummaries_applyTransaction env node trx d₁
    rw [happly] at hsame
    exact IsTrans.trans _ _ _ ih hsame

/-- The head and every undo state have the ring of their chain. -/
theorem summarised_run
    (hcalls : Traces.Each (step env rec) (fun c call => call.Brings env rec SignedBlock.Timed c) (start key) calls)
    (htorn : (Traces.run (step env rec) (start key) calls).objects.torn = false) :
    (∀ o ∈ (Traces.run (step env rec) (start key) calls).base, Summarised env.codec o.chain o.database.core) ∧
      Summarised env.codec (Traces.run (step env rec) (start key) calls).objects.chain
        (Traces.run (step env rec) (start key) calls).objects.database.core := by
  have hall := reach_untorn (P := fun o => Summarised env.codec o.chain o.database.core) hcalls (fun _ => rfl)
    (fun o o' b ho _ hchain ⟨node, happly⟩ => by
      rw [hchain]
      exact ho.applyBlock happly) htorn
  refine ⟨hall, fun slot => ?_⟩
  obtain ⟨honChain, -⟩ := run_follows hcalls (holds_start key) (onChain_start key)
  obtain ⟨top, rest, htop, hline, haccepts⟩ := honChain.top
  obtain ⟨hchain, -⟩ := Objects.eq_of_line hline
  rw [show _ = top.database.core.blockSummaries from sameSummaries_of_accepts haccepts, ← hchain]
  exact hall top (by rw [htop]; exact List.mem_cons_self) slot

/-- `find_block_id_for_num`. -/
def findBlockIdForNum (cd : Codec) (c : Controller) (n : Nat) : BlockId :=
  if n = 0 then {}
  else if (c.objects.database.core.blockSummaries (n % 65536)).num = n then
    c.objects.database.core.blockSummaries (n % 65536)
  else
    match blockAt c.blockLog n with
    | some b => b.id cd
    | none => (((c.forkDb.fetchBlockOnMainBranchByNumber n).bind c.forkDb.item).map fun i => i.id).getD {}

/-- **The ids of the last 65536 blocks** of the main chain are found in every state reached, whatever forks the block log and
the fork database hold. -/
theorem findBlockIdForNum_recent (env : Env) (rec : Recorder) (key : PublicKey) (calls : List Call)
    (hcalls : Traces.Each (step env rec) (fun c call => call.Brings env rec SignedBlock.Timed c) (start key) calls) :
    (Traces.run (step env rec) (start key) calls).objects.torn = true ∨
      ∀ n b, (Traces.run (step env rec) (start key) calls).objects.chain[n]? = some b →
        (Traces.run (step env rec) (start key) calls).objects.chain.length ≤ n + 65536 →
        findBlockIdForNum env.codec (Traces.run (step env rec) (start key) calls) (n + 1) = b.id env.codec := by
  cases htorn : (Traces.run (step env rec) (start key) calls).objects.torn with
  | true => exact .inl rfl
  | false =>
    refine .inr fun n b hb hrecent => ?_
    have hanchored := (anchored_run hcalls).2
    have hring := (summarised_run hcalls htorn).2
    have hlt := (List.getElem?_eq_some_iff.mp hb).1
    obtain ⟨b', hb', hnum, hsummary⟩ := hanchored.summaryOf (n := n + 1) (by omega) (by omega) (by omega)
    rw [Nat.add_sub_cancel, hb, Option.some.injEq] at hb'
    subst hb'
    have hid : (b.id env.codec).num = n + 1 := hnum
    unfold findBlockIdForNum
    rw [if_neg (Nat.succ_ne_zero n), hring, hsummary, if_pos hid]

theorem findBlockIdForNum_recent_sample :
    (Traces.run (step sampleEnv sampleRecorder) (start ⟨1⟩) sampleCalls).objects.torn = false ∧
      (Traces.run (step sampleEnv sampleRecorder) (start ⟨1⟩) sampleCalls).objects.chain.length = 1 ∧
      ((Traces.run (step sampleEnv sampleRecorder) (start ⟨1⟩) sampleCalls).objects.torn = true ∨
        ∀ n b, (Traces.run (step sampleEnv sampleRecorder) (start ⟨1⟩) sampleCalls).objects.chain[n]? = some b →
          (Traces.run (step sampleEnv sampleRecorder) (start ⟨1⟩) sampleCalls).objects.chain.length ≤ n + 65536 →
          findBlockIdForNum sampleEnv.codec (Traces.run (step sampleEnv sampleRecorder) (start ⟨1⟩) sampleCalls) (n + 1) =
            b.id sampleEnv.codec) :=
  ⟨by decide +kernel, by decide +kernel, findBlockIdForNum_recent sampleEnv sampleRecorder ⟨1⟩ sampleCalls
    (sampleCalls_brings (by decide : genesisTime + 3 * 1 < 4294967296))⟩

/-- A transaction that refers to the first block comes before the second one. -/
def samplePending : List Call :=
  [.pushBlock {} (sampleBlock {} 1 []), .pushTransaction {}
    ⟨1, ((sampleBlock {} 1 []).id sampleEnv.codec).word, genesisTime + 100, [createRoot], [1]⟩]

def secondBlock : SignedBlock := sampleBlock ((sampleBlock {} 1 []).id sampleEnv.codec) 2 []

end Controller

end Sigmaengine
