import Sigmaengine.Consensus.Finality

/-!
# Where operations are recorded

An operation is recorded with the id of its transaction, a block number and a position in the block, which come from
counters that no exception resets.  In every state reached, whatever was applied, refused, popped or switched, a recorded
place either is the transaction's place on the main chain, or lies behind the last transaction of the block that the main
chain has under this number, or the main chain has no such block.

Main result: `reach_located`.
-/

namespace Sigmaengine

open Effect History

/-- A timestamp is a 32-bit number of seconds, and the position of a transaction fits the counter. -/
structure SignedBlock.Small (b : SignedBlock) : Prop where
  timed : b.Timed
  length : b.transactions.length < 65536

variable (cd : Codec)

/-- The transaction with the id is at this place on the main chain. -/
def OnMain (chain : List SignedBlock) (p : Nat × Nat × Nat) : Prop :=
  ∃ b ∈ chain, b.blockNum = p.2.1 ∧ (b.transactions[p.2.2]?).map cd.transactionId = some p.1

/-- The main chain has no transaction at this place. -/
def OffMain (chain : List SignedBlock) (n i : Nat) : Prop := ∀ b ∈ chain, b.blockNum = n → b.transactions.length ≤ i

def Placed (chain : List SignedBlock) (p : Nat × Nat × Nat) : Prop := OnMain cd chain p ∨ OffMain chain p.2.1 p.2.2

/-- Without pending transactions, every recorded place is on the chain or behind the end of one of its blocks. -/
structure WellPlaced (o : Objects) : Prop where
  anchored : Anchored cd o
  placed : ∀ op ∈ o.operations, op.block ≤ o.chain.length ∧ Placed cd o.chain op.place

variable {cd} {env : Env} {rec : Recorder} {node : Node} {o o' : Objects} {b : SignedBlock}

/-! ## Blocks -/

theorem OffMain.of_prefix {chain chain' : List SignedBlock} {n i : Nat} (h : OffMain chain n i) (hpre : chain' <+: chain) :
    OffMain chain' n i := fun b hb => h b (hpre.subset hb)

theorem Anchored.blockNum_le (h : Anchored cd o) (hb : b ∈ o.chain) : b.blockNum ≤ o.chain.length := by
  obtain ⟨i, hi⟩ := List.mem_iff_getElem?.mp hb
  rw [(h.blocks i b hi).2.1]
  exact (List.getElem?_eq_some_iff.mp hi).1

/-- A block that is on the head has its own number. -/
theorem Anchored.offMain (h : Anchored env.codec o) (hlink : o.database.core.dgp.headBlockId = b.previous) (i : Nat) :
    OffMain o.chain b.blockNum i := by
  intro b' hb' heq
  have hle := h.blockNum_le hb'
  rw [heq, h.next_number hlink] at hle
  omega

/-- Behind the transactions of the block on the head there are none. -/
theorem Anchored.offMain_end (h : Anchored env.codec o) (hlink : o.database.core.dgp.headBlockId = b.previous) :
    OffMain (o.chain ++ [b]) b.blockNum b.transactions.length := by
  intro b' hb' heq
  rcases List.mem_append.mp hb' with hb' | hb'
  · exact h.offMain hlink _ b' hb' heq
  · rw [List.mem_singleton.mp hb']

/-- **A block keeps what is recorded in its place.** -/
theorem WellPlaced.extends (h : WellPlaced env.codec o) (hb : b.Small) (hnext : Extends env b o o') :
    WellPlaced env.codec o' := by
  have hlink := hnext.clock.1
  have hnumber := h.anchored.next_number hlink
  obtain ⟨new, hnew, hplaces⟩ := hnext.operations
  refine ⟨h.anchored.extends hb.timed hnext, fun op hop => ?_⟩
  rw [hnext.chain, List.length_append, List.length_singleton]
  rw [hnew] at hop
  rcases List.mem_append.mp hop with hop | hop
  · -- recorded before: the new block has another number
    obtain ⟨hle, hplaced⟩ := h.placed op hop
    refine ⟨hle.trans (Nat.le_succ _), ?_⟩
    rcases hplaced with ⟨b', hb', hrest⟩ | hoff
    · exact .inl ⟨b', List.mem_append_left _ hb', hrest⟩
    · refine .inr fun b' hb' heq => ?_
      rcases List.mem_append.mp hb' with hb' | hb'
      · exact hoff b' hb' heq
      · rw [List.mem_singleton.mp hb'] at heq
        change b.blockNum = op.block at heq
        omega
  · rcases hplaces op hop with ⟨k, trx, hk, hplace⟩ | hplace
    · have hlt := (List.getElem?_eq_some_iff.mp hk).1
      have hmod : (0 + k) % 65536 = k := by
        have := hb.length
        omega
      rw [hplace, hmod, show op.block = b.blockNum from congrArg (fun p => p.2.1) hplace, hnumber]
      exact ⟨le_rfl, .inl ⟨b, by simp, hnumber, by simp [hk]⟩⟩
    · have hblock : op.block = b.blockNum := congrArg Prod.fst hplace
      have hposition : op.trxInBlock = b.transactions.length :=
        (congrArg Prod.snd hplace).trans (Nat.mod_eq_of_lt hb.length)
      refine ⟨by rw [hblock, hnumber], .inr ?_⟩
      show OffMain _ op.block op.trxInBlock
      rw [hblock, hposition]
      exact h.anchored.offMain_end hlink

namespace Controller

variable {c c' : Controller}

/-! ## Pending transactions -/

/-- What is recorded is in its place, with the pending transactions, and so is what the counters would record. -/
structure Located (env : Env) (c : Controller) : Prop where
  onChain : OnChain env c
  settled : ∀ o ∈ c.base, WellPlaced env.codec o
  placed : ∀ op ∈ c.objects.operations, Placed env.codec c.objects.chain op.place
  counters : OffMain c.objects.chain c.counters.blockNum c.counters.trxInBlock

/-- A move along the history leaves to show what is recorded for pending transactions. -/
theorem Located.follows (h : Located env c) (hfollows : Follows env SignedBlock.Small c c')
    (hplaced : c'.pendingTxSession = true → ∀ op ∈ c'.objects.operations, Placed env.codec c'.objects.chain op.place)
    (hcounters : OffMain c'.objects.chain c'.counters.blockNum c'.counters.trxInBlock) : Located env c' := by
  obtain ⟨honChain, hmoves⟩ := hfollows h.onChain
  have hsettled := hmoves.forall (P := WellPlaced env.codec) (fun o o' ho hnext => by
    obtain ⟨b, hb, hextends⟩ := hnext
    exact ho.extends hb hextends) h.settled
  refine ⟨honChain, hsettled, ?_, hcounters⟩
  by_cases hs : c'.pendingTxSession = true
  · exact hplaced hs
  · rw [base_closed (Bool.eq_false_iff.mpr hs)] at hsettled
    exact fun op hop => ((hsettled _ List.mem_cons_self).placed op hop).2

theorem Located.same (h : Located env c) (hfollows : Follows env SignedBlock.Small c c') (hobjects : c'.objects = c.objects)
    (hcounters : c'.counters = c.counters) : Located env c' := by
  refine h.follows hfollows (fun _ => ?_) ?_
  · rw [hobjects]
    exact h.placed
  · rw [hobjects, hcounters]
    exact h.counters

/-- The counters stay when a session is undone, and the chain gets no longer. -/
theorem offMain_undone (h : OffMain c.objects.chain c.counters.blockNum c.counters.trxInBlock)
    (hstack : ∀ o ∈ c.undoStack.head?, o.chain <+: c.objects.chain) :
    OffMain c.undone.objects.chain c.undone.counters.blockNum c.undone.counters.trxInBlock := by
  rw [undone_eq]
  split
  · exact h
  · next o rest hcons =>
    rw [hcons] at hstack
    exact h.of_prefix (hstack o rfl)

/-- So they do when a block is. -/
theorem offMain_blockUndone (h : OffMain c.objects.chain c.counters.blockNum c.counters.trxInBlock)
    (hstack : ∀ o ∈ c.undoStack.head?, o.chain <+: c.objects.chain) :
    OffMain c.blockUndone.objects.chain c.blockUndone.counters.blockNum c.blockUndone.counters.trxInBlock := by
  cases hleft : c.undoStack with
  | nil =>
    rw [blockUndone_of_nil hleft]
    exact h
  | cons o rest =>
    rw [blockUndone_of_cons hleft]
    exact offMain_undone h hstack

theorem Located.pushOnHead (h : Located env c) (hb : b.Small) (hs : c.pendingTxSession = false) :
    Located env (after (pushOnHead env rec node b c)) := by
  have hfollows := @follows_pushOnHead env rec node _ _ _ hb hs
  have hclosed := (session_of_lists (@lists_pushOnHead env rec node b c)).trans hs
  refine h.follows hfollows (fun hopen => absurd hopen (by rw [hclosed]; simp)) ?_
  have hanchored : Anchored env.codec c.objects := by
    have hbase := base_closed hs
    exact (h.settled c.objects (by rw [hbase]; exact List.mem_cons_self)).anchored
  rcases @pushOnHead_cases env rec node b c with
    ⟨e, k, hrun, hrefused⟩ | ⟨c₁, c₂, c₃, hpushed, hrun⟩
  · rw [hrun]
    rcases hrefused with ⟨hblock, htrx⟩ | ⟨hlink, hblock⟩
    · show OffMain c.objects.chain k.blockNum k.trxInBlock
      rw [show k.blockNum = c.counters.blockNum from hblock, show k.trxInBlock = c.counters.trxInBlock from htrx]
      exact h.counters
    · show OffMain c.objects.chain k.blockNum k.trxInBlock
      rw [show k.blockNum = b.blockNum from hblock]
      exact hanchored.offMain hlink _
  · obtain ⟨hblock, htrx⟩ := hpushed.counters
    obtain ⟨hstack, -, hline⟩ := hpushed.stack
    have hchain : c₃.objects.chain = c.objects.chain ++ [b] := congrArg Prod.fst hline
    have hcounters : OffMain c₃.objects.chain c₃.counters.blockNum c₃.counters.trxInBlock := by
      rw [hchain, hblock, htrx, Nat.mod_eq_of_lt hb.length]
      exact hanchored.offMain_end hpushed.extended.linked
    rcases hrun with ⟨hrun, -⟩ | ⟨e, hrun, -⟩
    · rw [hrun]
      exact hcounters
    · rw [hrun]
      refine offMain_blockUndone hcounters fun o ho => ?_
      rw [hstack, List.head?_take] at ho
      split at ho
      · cases ho
      · rw [Option.mem_def, List.head?_cons, Option.some.injEq] at ho
        rw [← ho, hchain]
        exact List.prefix_append _ _

theorem Located.undone (h : Located env c) (hs : c.pendingTxSession = false) : Located env c.undone := by
  have hclosed := (session_of_lists (lists_undone c)).trans hs
  refine h.follows (follows_undone hs) (fun hopen => absurd hopen (by rw [hclosed]; simp)) ?_
  exact offMain_undone h.counters fun o ho => (h.onChain.below o (mem_base (List.mem_of_mem_head? ho))).1

theorem Located.closed (h : Located env c) (hs : c.pendingTxSession = true) :
    Located env { c.undone with pendingTxSession := false } := by
  refine h.follows (follows_closed hs) (fun hopen => absurd hopen (by simp)) ?_
  refine offMain_undone h.counters fun o ho => ?_
  exact (h.onChain.below o (mem_base (List.mem_of_mem_head? ho))).1

theorem Located.transaction (h : Located env c) (trx : SignedTransaction) (hs : c.pendingTxSession = true) :
    Located env (after (inTempSession (applyTransaction env rec node trx) c)) := by
  obtain ⟨o, rest, htop, -⟩ := h.onChain.top
  rw [base_open hs] at htop
  have hfollows := @follows_transaction env rec node SignedBlock.Small _ trx hs
  obtain ⟨c', ⟨hblock, htrx, hout, new, hnew, hplaces⟩, hcases⟩ :=
    @inTempSession_cases env rec node _ trx _ _ htop
  have hcounters : OffMain c.objects.chain c'.counters.blockNum c'.counters.trxInBlock := by
    rw [hblock, htrx]
    exact h.counters
  rcases hcases with ⟨e, hrun, -⟩ | ⟨hrun, -⟩
  · rw [hrun] at hfollows ⊢
    exact h.follows hfollows (fun _ => h.placed) hcounters
  · obtain ⟨hchain, -⟩ := @Objects.eq_of_line c'.objects c.objects (congrArg (fun p => p.2.2.2.2.2.2.2) hout)
    rw [hrun] at hfollows ⊢
    refine h.follows hfollows (fun _ op hop => ?_) ?_
    · rw [after_ok] at hop ⊢
      rw [hchain]
      change op ∈ c'.objects.operations at hop
      rw [hnew] at hop
      rcases List.mem_append.mp hop with hop | hop
      · exact h.placed op hop
      · refine .inr ?_
        rw [hplaces op hop]
        exact h.counters
    · rw [after_ok, hchain]
      exact hcounters

theorem respected_located : Respected env rec SignedBlock.Small (Kept (Located env)) where
  forks _ _ _ _ h := h.same (follows_of_same rfl rfl .refl fun hc => hc.revision) rfl rfl
  pending _ _ _ h := h.same (follows_of_same rfl rfl .refl fun hc => hc.revision) rfl rfl
  undone _ hs h := h.undone hs
  block _ _ _ hb hs h := h.pushOnHead hb hs
  opened _ hs h := h.same (follows_opened hs) rfl rfl
  closed _ hs h := h.closed hs
  transaction _ trx _ hs h := h.transaction trx hs

theorem located_run {key : PublicKey} {calls : List Call}
    (hcalls : Traces.Each (step env rec) (fun c call => call.Brings env rec SignedBlock.Small c) (start key) calls) :
    Located env (Traces.run (step env rec) (start key) calls) := by
  have hstart : Located env (start key) := by
    refine ⟨onChain_start key, fun o ho => ?_, fun op hop => absurd hop List.not_mem_nil,
      fun b hb => absurd hb List.not_mem_nil⟩
    rw [show (start key).base = [(start key).objects] from rfl, List.mem_singleton] at ho
    rw [ho]
    exact ⟨anchored_genesis key, fun op hop => absurd hop List.not_mem_nil⟩
  have hall := hcalls.along (I := fun _ _ => True) (P := fun _ c => Holds SignedBlock.Small c ∧ Located env c)
    (fun _ => trivial) ⟨holds_start key, hstart⟩ ?_
  · exact (hall calls List.prefix_rfl).2
  · rintro past c call - ⟨hi, hc⟩ hcall
    obtain ⟨hi', hkept⟩ := respected_located.step call hcall hi
    exact ⟨hi', hkept hc⟩

/-- **Recorded places** in every state reached. -/
theorem reach_located (env : Env) (rec : Recorder) (key : PublicKey) (calls : List Call)
    (hcalls : Traces.Each (step env rec) (fun c call => call.Brings env rec SignedBlock.Small c) (start key) calls) :
    ∀ op ∈ (Traces.run (step env rec) (start key) calls).objects.operations,
      Placed env.codec (Traces.run (step env rec) (start key) calls).objects.chain op.place :=
  (located_run hcalls).placed

theorem sampleCalls_small :
    Traces.Each (step sampleEnv sampleRecorder) (fun c call => call.Brings env rec SignedBlock.Small c) (start ⟨1⟩) sampleCalls :=
  sampleCalls_brings ⟨(by decide : genesisTime + 3 * 1 < 4294967296), by decide⟩

theorem reach_located_sample :
    (Traces.run (step sampleEnv sampleRecorder) (start ⟨1⟩) sampleCalls).objects.operations.length = 1 ∧
      ∀ op ∈ (Traces.run (step sampleEnv sampleRecorder) (start ⟨1⟩) sampleCalls).objects.operations,
        Placed sampleEnv.codec (Traces.run (step sampleEnv sampleRecorder) (start ⟨1⟩) sampleCalls).objects.chain op.place :=
  ⟨by decide +kernel, reach_located sampleEnv sampleRecorder ⟨1⟩ sampleCalls sampleCalls_small⟩

end Controller

end Sigmaengine
