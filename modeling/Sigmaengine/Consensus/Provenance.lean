import Sigmaengine.Consensus.ForkSwitch

/-!
# Where the blocks come from

Whatever a node keeps of blocks came in by a call: the main chain, the states it can go back to, the fork database and the
block log.  The block log only grows, and each block is at the place of its number, so that the check of
`read_block_by_num` never fails.

Main results: `reach_came_in`, `log_stays`.
-/

namespace Sigmaengine

open Effect History

namespace Controller

variable {env : Env} {rec : Recorder} {node : Node} {Allowed : SignedBlock → Prop} {c c' : Controller} {b : SignedBlock}

/-- The log grows at its end, by blocks of the fork database, each at the place of its number. -/
structure Logs (c c' : Controller) : Prop where
  items : c.forkDb.items <+: c'.forkDb.items
  grows : c.blockLog <+: c'.blockLog
  logged : ∀ k b, c.blockLog.length ≤ k → c'.blockLog[k]? = some b →
    b.blockNum = (k + 1) % 4294967296 ∧ ∃ i ∈ c'.forkDb.items, i.data = b

theorem logs_of_same (hitems : c.forkDb.items <+: c'.forkDb.items) (hlog : c'.blockLog = c.blockLog) : Logs c c' := by
  refine ⟨hitems, by rw [hlog], fun k b hk hb => ?_⟩
  rw [hlog, List.getElem?_eq_none hk] at hb
  cases hb

instance : Std.Refl Logs := ⟨fun _ => logs_of_same List.prefix_rfl rfl⟩

instance : IsTrans Controller Logs where
  trans c c' c'' h h' := by
    refine ⟨h.items.trans h'.items, h.grows.trans h'.grows, fun k b hk hb => ?_⟩
    by_cases hlt : k < c'.blockLog.length
    · have hsame := List.prefix_iff_getElem?.mp h'.grows k hlt
      rw [hb] at hsame
      obtain ⟨hnum, i, hi, hdata⟩ := h.logged k b hk ((List.getElem?_eq_getElem hlt).trans hsame.symm)
      exact ⟨hnum, i, h'.items.subset hi, hdata⟩
    · exact h'.logged k b (Nat.le_of_not_lt hlt) hb

/-- A relation to a state that differs in neither. -/
theorem logs_of_outside (h : c'.outside = c.outside) : Logs c c' := by
  simp only [outside, Prod.mk.injEq] at h
  exact logs_of_same (by rw [h.2.2.1]) h.2.2.2.1

/-! ## The end of the log -/

theorem logs_appendToLog (n : Nat) : Always Logs (appendToLog n) := by
  intro c
  unfold appendToLog
  rw [bind_of_ok (get_apply c)]
  refine after_bind (always_ofOption _ _ c) fun item c₁ hfetch => ?_
  obtain ⟨hfound, rfl⟩ := ofOption_eq_ok.mp hfetch
  refine after_bind (always_assert _ _ c) fun _ c₁ hcheck => ?_
  obtain ⟨hpos, rfl⟩ := fcAssert_eq_ok.mp hcheck
  obtain ⟨h, -, hitem⟩ := Option.bind_eq_some_iff.mp hfound
  refine ⟨List.prefix_rfl, List.prefix_append _ _, fun k b hk hb => ?_⟩
  have hb : (c.blockLog ++ [item.data])[k]? = some b := hb
  have hend : k = c.blockLog.length := by
    have hlt := (List.getElem?_eq_some_iff.mp hb).1
    rw [List.length_append, List.length_singleton] at hlt
    omega
  rw [hend, List.getElem?_concat_length, Option.some.injEq] at hb
  refine ⟨?_, item, List.mem_of_getElem? hitem, hb⟩
  have hplace := eq_of_beq hpos
  have hbound : item.data.blockNum < 4294967296 := Nat.mod_lt _ (by decide)
  rw [← hb, hend, hplace]
  omega

theorem logs_settleIrreversible : Always Logs (settleIrreversible node) := by
  refine always_bind always_get fun c₀ => always_bind (fun c => logs_of_same List.prefix_rfl rfl) fun _ => ?_
  refine always_bind ?_ fun _ => ?_
  · refine always_bind always_get fun c => ?_
    split
    · exact always_pure _
    · exact always_each logs_appendToLog _
  · intro c
    have hsame := always_setMaxSize ((c₀.headBlockNum + 4294967296 - c₀.lastIrreversibleBlockNum + 1) % 4294967296) c
    refine logs_of_same ?_ ?_
    · rw [hsame.items]
    · rw [onForkDb, after_within]
      rfl

/-! ## Blocks -/

theorem logs_undone (c : Controller) : Logs c c.undone := by
  rw [undone_eq]
  split
  · exact Std.Refl.refl c
  · exact logs_of_same List.prefix_rfl rfl

theorem logs_blockUndone (c : Controller) : Logs c c.blockUndone := by
  cases hleft : c.undoStack with
  | nil =>
    rw [blockUndone_of_nil hleft]
    exact logs_of_same List.prefix_rfl rfl
  | cons o rest =>
    rw [blockUndone_of_cons hleft]
    exact logs_undone c

theorem logs_pushOnHead (b : SignedBlock) (c : Controller) : Logs c (after (pushOnHead env rec node b c)) := by
  rcases @pushOnHead_cases env rec node b c with
    ⟨e, k, hrun, -⟩ | ⟨c₁, c₂, c₃, hpushed, hends⟩
  · rw [hrun]
    exact logs_of_same List.prefix_rfl rfl
  · have hextended : Logs c c₁ := by
      have hout := hpushed.extended.noted.outside
      simp only [outside, extend, started, Prod.mk.injEq] at hout
      exact logs_of_same (by rw [hout.2.2.1]) hout.2.2.2.1
    have hsettled : Logs c₁ c₂ := by
      have hlogs := @logs_settleIrreversible (node.atBlock b.blockNum) c₁
      rcases hends with ⟨-, hsettle, -⟩ | ⟨e, -, ⟨hsettle, -⟩ | ⟨hsettle, -⟩⟩
      · rwa [hsettle] at hlogs
      · rwa [hsettle] at hlogs
      · rwa [hsettle] at hlogs
    have hlogs : Logs c c₃ := IsTrans.trans _ _ _ hextended
      (IsTrans.trans _ _ _ hsettled (logs_of_outside hpushed.here.noted.outside))
    rcases hends with ⟨hrun, -⟩ | ⟨e, hrun, -⟩
    · rw [hrun]
      exact hlogs
    · rw [hrun]
      exact IsTrans.trans _ _ _ hlogs (logs_blockUndone c₃)

theorem logs_squash (c : Controller) : Logs c (after (squash c)) := by
  obtain ⟨objects, counters, undoStack, revision, forkDb, blockLog, pendingTx, poppedTx, session⟩ := c
  rcases undoStack with _ | ⟨o, _ | ⟨o', rest⟩⟩
  · exact logs_of_same List.prefix_rfl rfl
  · exact logs_of_same List.prefix_rfl rfl
  · exact logs_of_same List.prefix_rfl rfl

theorem logs_inTempSession (trx : SignedTransaction) (c : Controller) :
    Logs c (after (inTempSession (applyTransaction env rec node trx) c)) := by
  have hstarted : Logs c c.started := logs_of_same List.prefix_rfl rfl
  have hlogs := logs_of_outside ((@applyTransaction_shadows env rec node trx).always c.started).noted.outside
  rw [inTempSession_eq]
  cases hrun : applyTransaction env rec node trx c.started with
  | ok u c' =>
    rw [hrun] at hlogs
    exact IsTrans.trans _ _ _ hstarted (IsTrans.trans _ _ _ hlogs (logs_squash c'))
  | error e c' =>
    rw [hrun] at hlogs
    exact IsTrans.trans _ _ _ hstarted (IsTrans.trans _ _ _ hlogs (logs_undone c'))

theorem respected_logs : Respected env rec Allowed Logs where
  forks c f _ hitems := by
    refine logs_of_same ?_ rfl
    rcases hitems with hsame | ⟨b, prev, -, hadd⟩
    · rw [hsame]
    · show c.forkDb.items <+: f.items
      rw [hadd]
      exact List.prefix_append _ _
  undone c _ := logs_undone c
  block _ b c _ _ := logs_pushOnHead b c
  pending _ _ _ := logs_of_same List.prefix_rfl rfl
  opened _ _ := logs_of_same List.prefix_rfl rfl
  closed c _ := IsTrans.trans _ _ _ (logs_undone c) (logs_of_same List.prefix_rfl rfl)
  transaction _ trx c _ := logs_inTempSession trx c

/-! ## Runs -/

/-- A run along allowed blocks moves the log on. -/
theorem run_logs {calls : List Call} (hcalls : Traces.Each (step env rec) (fun c call => call.Brings env rec Allowed c) c calls)
    (hi : Holds Allowed c) :
    Holds Allowed (Traces.run (step env rec) c calls) ∧ Logs c (Traces.run (step env rec) c calls) := by
  have hall := hcalls.along (I := fun _ _ => True) (P := fun _ c' => Holds Allowed c' ∧ Logs c c')
    (fun _ => trivial) ⟨hi, Std.Refl.refl c⟩ ?_
  · exact hall calls List.prefix_rfl
  · rintro past c₁ call - ⟨hi, hlogs⟩ hcall
    obtain ⟨hi', hlogs'⟩ := respected_logs.step call hcall hi
    exact ⟨hi', IsTrans.trans _ _ _ hlogs hlogs'⟩

/-- **Every block came in by a call**: what holds of all blocks that are pushed or generated holds of all blocks of the main
chain, of the chains that can be gone back to, of the fork database and of the block log, in every state reached. -/
theorem reach_came_in (env : Env) (rec : Recorder) (key : PublicKey) (calls : List Call) (Allowed : SignedBlock → Prop)
    (hcalls : Traces.Each (step env rec) (fun c call => call.Brings env rec Allowed c) (start key) calls) :
    (∀ b ∈ (Traces.run (step env rec) (start key) calls).objects.chain, Allowed b) ∧
      (∀ o ∈ (Traces.run (step env rec) (start key) calls).undoStack, ∀ b ∈ o.chain, Allowed b) ∧
      (∀ i ∈ (Traces.run (step env rec) (start key) calls).forkDb.items, Allowed i.data) ∧
      ∀ b ∈ (Traces.run (step env rec) (start key) calls).blockLog, Allowed b := by
  obtain ⟨hi, hlogs⟩ := run_logs hcalls (holds_start key)
  obtain ⟨honChain, -⟩ := run_follows hcalls (holds_start key) (onChain_start key)
  have hall := @reach_forall _ rec _ (fun o => ∀ b ∈ o.chain, Allowed b) key _ hcalls
    (fun _ hb => absurd hb List.not_mem_nil) fun o o' b ho hb hextends => ?_
  · obtain ⟨top, rest, htop, hline, -⟩ := honChain.top
    obtain ⟨hchain, -⟩ := Objects.eq_of_line hline
    refine ⟨?_, fun o ho => hall o (mem_base ho), hi, fun b hb => ?_⟩
    · rw [← hchain]
      refine hall top ?_
      rw [htop]
      exact List.mem_cons_self
    · obtain ⟨k, hk⟩ := List.mem_iff_getElem?.mp hb
      obtain ⟨-, i, hmem, rfl⟩ := hlogs.logged k b (Nat.zero_le k) hk
      exact hi i hmem
  · rw [hextends.chain]
    intro b' hb'
    rcases List.mem_append.mp hb' with hb' | hb'
    · exact ho b' hb'
    · rw [List.mem_singleton.mp hb']
      exact hb

/-- Of one of the first two slots, with at most one transaction. -/
def EarlyBlock (b : SignedBlock) : Prop := b.timestamp ≤ genesisTime + 6 ∧ b.transactions.length ≤ 1

instance (b : SignedBlock) : Decidable (EarlyBlock b) := inferInstanceAs (Decidable (_ ∧ _))

theorem holds_of_returned {ε σ : Type} {P : SignedBlock → Prop} [DecidablePred P] {r : EStateM.Result ε σ SignedBlock} {s : σ}
    (h : (returned r).all (decide <| P ·) = true) (hr : r = .ok b s) : P b := by
  subst hr
  exact of_decide_eq_true h

/-- The node generates the second block itself, pops it, and is sent another one. -/
def generatedCalls : List Call :=
  [.pushBlock {} (sampleBlock {} 1 [createRoot]), .generateBlock {} (genesisTime + 6) initMinerName ⟨⟨1⟩, fun _ => 0⟩, .popBlock,
    .pushBlock {} (sampleBlock ((sampleBlock {} 1 [createRoot]).id sampleEnv.codec) 2 [])]

theorem generatedCalls_bring : Traces.Each (step sampleEnv sampleRecorder)
    (fun c call => call.Brings sampleEnv sampleRecorder EarlyBlock c) (start ⟨1⟩) generatedCalls :=
  Traces.each_cons.mpr ⟨(by decide : EarlyBlock (sampleBlock {} 1 [createRoot])), Traces.each_cons.mpr
    ⟨fun _ _ hrun => holds_of_returned (by decide +kernel) hrun, Traces.each_cons.mpr ⟨trivial, Traces.each_cons.mpr
      ⟨(by decide +kernel : EarlyBlock (sampleBlock ((sampleBlock {} 1 [createRoot]).id sampleEnv.codec) 2 [])),
        Traces.each_nil⟩⟩⟩⟩

theorem reach_came_in_sample :
    (Traces.run (step sampleEnv sampleRecorder) (start ⟨1⟩) generatedCalls).forkDb.items.length = 3 ∧
      (∀ b ∈ (Traces.run (step sampleEnv sampleRecorder) (start ⟨1⟩) generatedCalls).objects.chain, EarlyBlock b) ∧
      (∀ o ∈ (Traces.run (step sampleEnv sampleRecorder) (start ⟨1⟩) generatedCalls).undoStack, ∀ b ∈ o.chain, EarlyBlock b) ∧
      (∀ i ∈ (Traces.run (step sampleEnv sampleRecorder) (start ⟨1⟩) generatedCalls).forkDb.items, EarlyBlock i.data) ∧
      ∀ b ∈ (Traces.run (step sampleEnv sampleRecorder) (start ⟨1⟩) generatedCalls).blockLog, EarlyBlock b :=
  ⟨by decide +kernel, reach_came_in sampleEnv sampleRecorder ⟨1⟩ generatedCalls EarlyBlock generatedCalls_bring⟩

/-- **The block log only grows**, and every block of it is at the place of its number. -/
theorem log_stays (env : Env) (rec : Recorder) (key : PublicKey) (past future : List Call) :
    (Traces.run (step env rec) (start key) past).blockLog <+:
        (Traces.run (step env rec) (start key) (past ++ future)).blockLog ∧
      ∀ k b, (Traces.run (step env rec) (start key) (past ++ future)).blockLog[k]? = some b →
        b.blockNum = (k + 1) % 4294967296 := by
  have hrun : Traces.run (step env rec) (start key) (past ++ future) =
      Traces.run (step env rec) (Traces.run (step env rec) (start key) past) future := List.foldl_append
  obtain ⟨-, hpast⟩ := @run_logs env rec _ _ _ (any_blocks past) (holds_start key)
  obtain ⟨-, hfuture⟩ := @run_logs env rec _ (Traces.run (step env rec) (start key) past) _ (any_blocks future)
    fun _ _ => trivial
  have hall : Logs (start key) (Traces.run (step env rec) (Traces.run (step env rec) (start key) past) future) :=
    IsTrans.trans _ _ _ hpast hfuture
  rw [hrun]
  exact ⟨hfuture.grows, fun k b hb => (hall.logged k b (Nat.zero_le k) hb).1⟩

end Controller

end Sigmaengine
