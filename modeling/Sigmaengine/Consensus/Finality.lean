import Sigmaengine.Chain.Reached
import Sigmaengine.Consensus.MainChain
import Sigmaengine.Consensus.Slots

/-!
# What no run of a node breaks

Blocks come in any order, valid or not, forks are switched and blocks popped.  The main chain stays a chain of hashes, and the
blocks that were irreversible once stay on it for ever.

Main results: `reach_anchored`, `irreversible_stays`.
-/

namespace Sigmaengine

open Effect Table History

variable {env : Env} {rec : Recorder} {node : Node} {b : SignedBlock} {o o' : Objects}

/-! ## The head of the main chain -/

/-- The id of the last block. -/
def tipId (cd : Codec) (chain : List SignedBlock) : BlockId := (chain.getLast?.map fun b => b.id cd).getD {}

/-- The time of the last block. -/
def tipTime (chain : List SignedBlock) : TimePointSec := (chain.getLast?.map fun b => b.timestamp).getD genesisTime

/-- The chain that the objects belong to: it ends in their head, and its blocks are linked, numbered and later and later. -/
structure Anchored (cd : Codec) (o : Objects) : Prop where
  headId : o.database.core.dgp.headBlockId = tipId cd o.chain
  headNum : o.database.core.dgp.headBlockNumber = o.chain.length
  time : o.database.core.dgp.time = tipTime o.chain
  blocks : ∀ i b, o.chain[i]? = some b →
    b.previous = tipId cd (o.chain.take i) ∧ b.blockNum = i + 1 ∧ tipTime (o.chain.take i) < b.timestamp
  elapsed : genesisTime + o.chain.length ≤ tipTime o.chain
  bounded : tipTime o.chain < 4294967296

theorem tipId_append (cd : Codec) (chain : List SignedBlock) (b : SignedBlock) : tipId cd (chain ++ [b]) = b.id cd := by
  simp [tipId]

theorem tipTime_append (chain : List SignedBlock) (b : SignedBlock) : tipTime (chain ++ [b]) = b.timestamp := by
  simp [tipTime]

theorem Anchored.tip_num {cd : Codec} (h : Anchored cd o) : (tipId cd o.chain).num = o.chain.length := by
  rcases List.eq_nil_or_concat o.chain with hnil | ⟨init, last, hchain⟩
  · rw [hnil]
    rfl
  · rw [List.concat_eq_append] at hchain
    have hlast : o.chain[init.length]? = some last := by
      rw [hchain]
      simp
    rw [hchain, tipId_append]
    show last.blockNum = _
    rw [(h.blocks _ _ hlast).2.1]
    simp

theorem Anchored.eq_of_number {cd : Codec} (h : Anchored cd o) {b b' : SignedBlock} (hb : b ∈ o.chain) (hb' : b' ∈ o.chain)
    (hnum : b.blockNum = b'.blockNum) : b = b' := by
  obtain ⟨i, hi⟩ := List.mem_iff_getElem?.mp hb
  obtain ⟨j, hj⟩ := List.mem_iff_getElem?.mp hb'
  have hij : i = j := by
    have := (h.blocks i b hi).2.1
    have := (h.blocks j b' hj).2.1
    omega
  rw [hij, hj, Option.some.injEq] at hi
  exact hi.symm

/-- A block on the head has the next number: the 32-bit count does not wrap, because time runs out first. -/
theorem Anchored.next_number (h : Anchored env.codec o) (hlink : o.database.core.dgp.headBlockId = b.previous) :
    b.blockNum = o.chain.length + 1 := by
  have hcount : o.chain.length + 1 < 4294967296 := by
    have helapsed := h.elapsed.trans_lt h.bounded
    have hgenesis : 0 < genesisTime := by decide
    simp only [TimePointSec] at *
    omega
  unfold SignedBlockHeader.blockNum
  rw [← hlink, h.headId, h.tip_num, Nat.mod_eq_of_lt hcount]

theorem anchored_genesis (key : PublicKey) : Anchored env.codec (Controller.start key).objects :=
  ⟨rfl, rfl, rfl, fun i b h => by simp [Controller.start] at h, le_rfl, by show genesisTime < 4294967296; decide⟩

/-- What the header of the block and the new head say. -/
theorem Extends.clock (h : Extends env b o o') :
    o.database.core.dgp.headBlockId = b.previous ∧ o.database.core.dgp.time < b.timestamp ∧
      o'.database.core.dgp.headBlockNumber = b.blockNum ∧ o'.database.core.dgp.headBlockId = b.id env.codec ∧
      o'.database.core.dgp.time = b.timestamp := by
  obtain ⟨node, d₁, hhead, hclock⟩ : ∃ node d₁, applyBlockHead env node b o.database = .ok () d₁ ∧
      SameClock d₁.core o'.database.core := by
    rcases h.database with ⟨⟨node, happly⟩, -⟩ | ⟨⟨node, d₁, hhead, hclock, -⟩, -⟩
    · obtain ⟨_, d₁, hhead, htail⟩ := bind_eq_ok.mp happly
      have hclock := @Controller.sameClock_applyBlockTail env b d₁
      rw [htail] at hclock
      exact ⟨node, d₁, hhead, hclock⟩
    · exact ⟨node, d₁, hhead, hclock⟩
  obtain ⟨hlink, hlate, hnum, hid, htime⟩ := Controller.applyBlockHead_clock hhead
  exact ⟨hlink, hlate, hclock.headBlockNumber.trans hnum, hclock.headBlockId.trans hid, hclock.time.trans htime⟩

/-- **A block keeps the chain linked.** -/
theorem Anchored.extends (h : Anchored env.codec o) (hb : b.Timed) (hnext : Extends env b o o') :
    Anchored env.codec o' := by
  obtain ⟨hlink, hlate, hnum, hid, htime⟩ := hnext.clock
  have hnumber := h.next_number hlink
  have hchain := hnext.chain
  refine ⟨?_, ?_, ?_, fun i b' hb' => ?_, ?_, ?_⟩
  · rw [hid, hchain, tipId_append]
  · rw [hnum, hnumber, hchain, List.length_append]
    rfl
  · rw [htime, hchain, tipTime_append]
  · rw [hchain, List.getElem?_append] at hb'
    split at hb'
    · next hlt =>
      rw [hchain, List.take_append_of_le_length hlt.le]
      exact h.blocks i b' hb'
    · next hge =>
      obtain ⟨hi, rfl⟩ := List.getElem?_eq_some_iff.mp hb'
      rw [List.length_singleton] at hi
      obtain rfl : i = o.chain.length := by omega
      rw [List.getElem_singleton, hchain, List.take_left']
      · exact ⟨hlink.symm.trans h.headId, hnumber, by rw [← h.time]; exact hlate⟩
      · rfl
  · have helapsed := h.elapsed
    rw [← h.time] at helapsed
    rw [hchain, tipTime_append, List.length_append, List.length_singleton, ← Nat.add_assoc]
    exact (Nat.succ_le_succ helapsed).trans hlate
  · rw [hchain, tipTime_append]
    exact hb

namespace Controller

variable {Allowed : SignedBlock → Prop} {c : Controller} {calls : List Call} {key : PublicKey}

theorem mem_base (ho : o ∈ c.undoStack) : o ∈ c.base := by
  unfold base
  split
  · exact ho
  · exact List.mem_cons_of_mem _ ho

theorem Call.brings_any (call : Call) (c : Controller) : call.Brings env rec (fun _ => True) c := by
  cases call with
  | pushBlock => trivial
  | pushTransaction => trivial
  | generateBlock => exact fun _ _ _ => trivial
  | popBlock => trivial

theorem Call.Brings.mono {P Q : SignedBlock → Prop} (hPQ : ∀ b, P b → Q b) {call : Call} {c : Controller}
    (h : call.Brings env rec P c) : call.Brings env rec Q c := by
  cases call with
  | pushBlock => exact hPQ _ h
  | pushTransaction => trivial
  | generateBlock => exact fun b c' hrun => hPQ b (h b c' hrun)
  | popBlock => trivial

theorem any_blocks {c : Controller} (calls : List Call) :
    Traces.Each (step env rec) (fun c call => call.Brings env rec (fun _ => True) c) c calls :=
  fun _ call _ => call.brings_any _

theorem height_next (h : NextBlock env Allowed o o') : o'.height = o.height + 1 := by
  obtain ⟨b, -, hextends⟩ := h
  show o'.chain.length = _
  rw [hextends.chain, List.length_append]
  rfl

theorem anchored_run {key : PublicKey} {calls : List Call}
    (hcalls : Traces.Each (step env rec) (fun c call => call.Brings env rec SignedBlock.Timed c) (start key) calls) :
    (∀ o ∈ (Traces.run (step env rec) (start key) calls).base, Anchored env.codec o) ∧
      Anchored env.codec (Traces.run (step env rec) (start key) calls).objects := by
  obtain ⟨honChain, -⟩ := run_follows hcalls (holds_start key) (onChain_start key)
  have hall := reach_forall hcalls (anchored_genesis key) fun o o' b ho hb hextends => ho.extends hb hextends
  refine ⟨hall, ?_⟩
  obtain ⟨top, rest, htop, hline, haccepts⟩ := honChain.top
  obtain ⟨hchain, -⟩ := Objects.eq_of_line hline
  rw [htop] at hall
  obtain ⟨headId, headNum, time, blocks, elapsed, bounded⟩ := hall top List.mem_cons_self
  have hclock := sameClock_of_accepts haccepts
  rw [hchain] at headId headNum time blocks elapsed bounded
  exact ⟨hclock.headBlockId.trans headId, hclock.headBlockNumber.trans headNum, hclock.time.trans time, blocks, elapsed,
    bounded⟩

/-- **The main chain is a chain of hashes** in every state reached, and so is every chain that can be gone back to, which is
a beginning of it. -/
theorem reach_anchored (env : Env) (rec : Recorder) (key : PublicKey) (calls : List Call)
    (hcalls : Traces.Each (step env rec) (fun c call => call.Brings env rec SignedBlock.Timed c) (start key) calls) :
    Anchored env.codec (Traces.run (step env rec) (start key) calls).objects ∧
      ∀ o ∈ (Traces.run (step env rec) (start key) calls).undoStack,
        Anchored env.codec o ∧ o.chain <+: (Traces.run (step env rec) (start key) calls).objects.chain := by
  obtain ⟨honChain, -⟩ := run_follows hcalls (holds_start key) (onChain_start key)
  obtain ⟨hall, hcurrent⟩ := anchored_run hcalls
  exact ⟨hcurrent, fun o ho => ⟨hall o (mem_base ho), (honChain.below o (mem_base ho)).1⟩⟩

/-- Plugins that keep every operation once. -/
def sampleRecorder : Recorder := ⟨fun _ _ _ => 1, fun _ _ => [], fun _ _ => []⟩

/-- A block comes, it is popped, and it comes again. -/
def sampleCalls : List Call :=
  [.pushBlock {} (sampleBlock {} 1 [createRoot]), .popBlock, .pushBlock {} (sampleBlock {} 1 [createRoot])]

theorem sampleCalls_brings {Allowed : SignedBlock → Prop} (h : Allowed (sampleBlock {} 1 [createRoot])) :
    Traces.Each (step sampleEnv sampleRecorder) (fun c call => call.Brings env rec Allowed c) (start ⟨1⟩) sampleCalls :=
  Traces.each_cons.mpr ⟨h, Traces.each_cons.mpr ⟨trivial, Traces.each_cons.mpr ⟨h, Traces.each_nil⟩⟩⟩

theorem reach_anchored_sample :
    Anchored sampleEnv.codec (Traces.run (step sampleEnv sampleRecorder) (start ⟨1⟩) sampleCalls).objects ∧
      ∀ o ∈ (Traces.run (step sampleEnv sampleRecorder) (start ⟨1⟩) sampleCalls).undoStack,
        Anchored sampleEnv.codec o ∧
          o.chain <+: (Traces.run (step sampleEnv sampleRecorder) (start ⟨1⟩) sampleCalls).objects.chain :=
  reach_anchored sampleEnv sampleRecorder ⟨1⟩ sampleCalls
    (sampleCalls_brings (by decide : genesisTime + 3 * 1 < 4294967296))

/-- **Irreversible blocks stay**: whatever blocks and transactions come, and whatever is popped or switched, the blocks up to
the last irreversible one of any state are on the main chain of every later state. -/
theorem irreversible_stays (env : Env) (rec : Recorder) (key : PublicKey) (past future : List Call) :
    (Traces.run (step env rec) (start key) past).objects.chain.take
        (Traces.run (step env rec) (start key) past).lastIrreversibleBlockNum <+:
      (Traces.run (step env rec) (start key) (past ++ future)).objects.chain := by
  obtain ⟨honChain, hmoves⟩ := @run_follows _ rec _ _ _ (any_blocks past) (holds_start key) (@onChain_start env key)
  have hsettled := hmoves.settled (fun o o' h => height_next h) (List.isChain_singleton _) (List.pairwise_singleton _ _)
  have hlinked := honChain.linked
  obtain ⟨top, rest, htop, hline, haccepts⟩ := honChain.top
  obtain ⟨hchain, -⟩ := Objects.eq_of_line hline
  rw [htop] at hlinked hsettled
  have hfinal : (Traces.run (step env rec) (start key) past).lastIrreversibleBlockNum = top.lastIrreversible :=
    (sameClock_of_accepts haccepts).lastIrreversibleBlockNum
  rw [hfinal, ← hchain]
  -- what is final is on every chain that can be gone back to
  have hbelow : ∀ o ∈ top :: rest, top.chain.take top.lastIrreversible <+: o.chain := by
    intro o ho
    rcases List.mem_cons.mp ho with rfl | ho
    · exact List.take_prefix _ _
    · rw [List.prefix_iff_eq_take.mp (below_of_linked hlinked o ho).1]
      exact List.take_prefix_take_left (List.rel_of_pairwise_cons hsettled ho)
  have hrun : Traces.run (step env rec) (start key) (past ++ future) =
      Traces.run (step env rec) (Traces.run (step env rec) (start key) past) future := List.foldl_append
  obtain ⟨honChain', hmoves'⟩ := @run_follows _ rec _ _ _ (any_blocks future) (fun _ _ => trivial) honChain
  rw [htop] at hmoves'
  have hall := hmoves'.forall (P := fun o => top.chain.take top.lastIrreversible <+: o.chain) (fun o o' ho hnext => by
    obtain ⟨b, -, hextends⟩ := hnext
    rw [hextends.chain]
    exact ho.trans (List.prefix_append _ _)) hbelow
  obtain ⟨top', rest', htop', hline', -⟩ := honChain'.top
  obtain ⟨hchain', -⟩ := Objects.eq_of_line hline'
  rw [hrun, ← hchain']
  refine hall top' ?_
  rw [htop']
  exact List.mem_cons_self

end Controller

end Sigmaengine
