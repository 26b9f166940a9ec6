import Sigmaengine.Consensus.Finality

/-!
# Pending transactions

After `push_block`, whatever has become of the block, the objects in use are those of the head with all pending transactions
applied, in their order.

Main result: `exact_pushBlock`.
-/

namespace Sigmaengine

open Effect

/-- The transactions are accepted one after the other, each by a node as `Ok` has it. -/
def AcceptedInTurn (env : Env) (Ok : Node → Prop) : List SignedTransaction → Database → Database → Prop
  | [], d, d' => d' = d
  | trx :: trxs, d, d' => ∃ node d₁, Ok node ∧ applyTransaction env node trx d = .ok () d₁ ∧ AcceptedInTurn env Ok trxs d₁ d'

variable {env : Env} {rec : Recorder} {node : Node} {Ok : Node → Prop}

theorem AcceptedInTurn.concat {trxs : List SignedTransaction} {trx : SignedTransaction} {d d' d'' : Database}
    (h : AcceptedInTurn env Ok trxs d d') (hok : Ok node) (htrx : applyTransaction env node trx d' = .ok () d'') :
    AcceptedInTurn env Ok (trxs ++ [trx]) d d'' := by
  induction trxs generalizing d with
  | nil =>
    obtain rfl : d' = d := h
    exact ⟨node, d'', hok, htrx, rfl⟩
  | cons t trxs ih =>
    obtain ⟨node', d₁, hok', hfirst, hrest⟩ := h
    exact ⟨node', d₁, hok', hfirst, ih hrest⟩

namespace Controller

variable {c c' : Controller} {b : SignedBlock}

/-- The pending transactions are applied on top of the head, in their order. -/
def Holding (env : Env) (Ok : Node → Prop) (c : Controller) : Prop :=
  if c.pendingTxSession then
    ∃ o rest, c.undoStack = o :: rest ∧ AcceptedInTurn env Ok c.pendingTx o.database c.objects.database
  else c.pendingTx = []

theorem holding_closed (hs : c.pendingTxSession = false) : Holding env Ok c ↔ c.pendingTx = [] := by
  simp [Holding, hs]

theorem holding_open (hs : c.pendingTxSession = true) : Holding env Ok c ↔
    ∃ o rest, c.undoStack = o :: rest ∧ AcceptedInTurn env Ok c.pendingTx o.database c.objects.database := by
  simp [Holding, hs]

/-- A transaction may join the pending ones. -/
structure Joins (env : Env) (Ok : Node → Prop) (c c' : Controller) : Prop where
  holding : Holding env Ok c → Holding env Ok c'
  poppedTx : c'.poppedTx = c.poppedTx

instance : Std.Refl (Joins env Ok) := ⟨fun _ => ⟨fun h => h, rfl⟩⟩

instance : IsTrans Controller (Joins env Ok) where
  trans _ _ _ h h' := ⟨fun hc => h'.holding (h.holding hc), h'.poppedTx.trans h.poppedTx⟩

/-! ## One transaction -/

theorem joins_inTempSession (hok : Ok node) (trx : SignedTransaction) (hs : c.pendingTxSession = true) :
    Joins env Ok c (after (inTempSession (do
      applyTransaction env rec node trx
      modify fun c => { c with pendingTx := c.pendingTx ++ [trx] }) c)) := by
  have hlists := @lists_inTempSession env rec node trx c
  rcases @inTempSession_append env rec node trx c with
    ⟨e, c', hplain, hrun⟩ | ⟨c', hplain, hrun⟩
  · rw [hplain] at hlists
    rw [hrun]
    refine ⟨fun hc => ?_, congrArg (fun p => p.2.1) hlists⟩
    obtain ⟨o, rest, htop, haccepted⟩ := (holding_open hs).mp hc
    obtain ⟨c₁, -, ⟨e', hcase, -⟩ | ⟨hcase, -⟩⟩ := @inTempSession_cases env rec node _ trx _ _ htop
    · rw [hplain] at hcase
      cases hcase
      exact (holding_open hs).mpr ⟨o, rest, htop, haccepted⟩
    · rw [hplain] at hcase
      cases hcase
  · rw [hplain] at hlists
    rw [hrun]
    refine ⟨fun hc => ?_, congrArg (fun p => p.2.1) hlists⟩
    obtain ⟨o, rest, htop, haccepted⟩ := (holding_open hs).mp hc
    obtain ⟨c₁, -, ⟨e', hcase, -⟩ | ⟨hcase, happly⟩⟩ :=
      @inTempSession_cases env rec node _ trx _ _ htop
    · rw [hplain] at hcase
      cases hcase
    · rw [hplain] at hcase
      cases hcase
      refine (holding_open ?_).mpr ⟨o, rest, htop, haccepted.concat hok happly⟩
      exact hs

theorem joins_pushPending (hok : Ok node) (trx : SignedTransaction) : Always (Joins env Ok) (pushPending env rec node trx) := by
  intro c
  unfold pushPending
  rw [bind_of_ok (get_apply c)]
  by_cases hs : c.pendingTxSession = true
  · rw [if_pos hs]
    exact joins_inTempSession hok trx hs
  · rw [if_neg hs]
    have hclosed := Bool.eq_false_iff.mpr hs
    have hopened : Joins env Ok c { c.started with pendingTxSession := true } := by
      refine ⟨fun hc => (holding_open rfl).mpr ⟨c.objects, c.undoStack, rfl, ?_⟩, rfl⟩
      show AcceptedInTurn env Ok c.pendingTx _ _
      rw [(holding_closed hclosed).mp hc]
      rfl
    exact IsTrans.trans _ _ _ hopened (joins_inTempSession hok trx rfl)

theorem joins_restore (hok : Ok node) (trxs : List SignedTransaction) : Always (Joins env Ok) (restore env rec node trxs) := by
  refine always_each (fun trx => always_bind always_get fun c => ?_) trxs
  split
  · exact always_pure _
  · exact always_attempt (joins_pushPending hok trx)

theorem after_bind_pure {α β : Type} (x : ControllerM β) (a : α) (c : Controller) :
    after ((x >>= fun _ => pure a) c) = after (x c) := by
  cases hx : x c with
  | ok u c' =>
    rw [bind_of_ok hx]
    rfl
  | error e c' =>
    rw [bind_of_error hx]
    rfl

/-- Restoring does not throw. -/
theorem restore_returns (trxs : List SignedTransaction) (c : Controller) :
    ∃ c', restore env rec node trxs c = .ok () c' := by
  induction trxs generalizing c with
  | nil => exact ⟨c, rfl⟩
  | cons trx trxs ih =>
    have hfirst : ∀ c, ∃ c', (do
        if (← get).isKnownTransaction env trx then pure () else attempt (pushPending env rec node trx) :
          ControllerM Unit) c = .ok () c' := by
      intro c
      rw [bind_of_ok (get_apply c)]
      split
      · exact ⟨c, rfl⟩
      · exact ⟨_, attempt_eq_ok.mpr rfl⟩
    obtain ⟨c₁, hrun⟩ := hfirst c
    obtain ⟨c₂, hrest⟩ := ih c₁
    exact ⟨c₂, bind_eq_ok.mpr ⟨(), c₁, hrun, hrest⟩⟩

/-! ## Blocks -/

/-- What pushing a block does beside the history does not touch the pending transactions. -/
theorem respectedApart_pendingTx : RespectedApart env rec (fun _ => True) fun c c' => c'.pendingTx = c.pendingTx where
  forks _ _ _ _ := rfl
  undone c _ := congrArg Prod.fst (lists_undone c)
  block _ b c _ _ := congrArg Prod.fst (lists_pushOnHead b c)

/-- Everything is applied, and nothing is left of popped blocks. -/
def Exact (env : Env) (Ok : Node → Prop) (c : Controller) : Prop := Holding env Ok c ∧ c.poppedTx = []

/-- The popped transactions are pushed again, then those that were pending. -/
theorem exact_restorer (hok : Ok node) (pending : List SignedTransaction) (hc : Holding env Ok c) : Exact env Ok (after ((do
    restore env rec node (← get).poppedTx
    modify fun c => { c with poppedTx := [] }
    restore env rec node pending : ControllerM Unit) c)) := by
  rw [bind_of_ok (get_apply c)]
  have hpopped := @joins_restore env rec node Ok hok c.poppedTx c
  obtain ⟨c₁, hrun⟩ := @restore_returns env rec node c.poppedTx c
  rw [hrun] at hpopped
  have hc₁ : Holding env Ok { c₁ with poppedTx := [] } := hpopped.holding hc
  rw [bind_of_ok hrun, bind_of_ok (modify_apply _ _)]
  have hpending := @joins_restore env rec node Ok hok pending { c₁ with poppedTx := [] }
  exact ⟨hpending.holding hc₁, hpending.poppedTx⟩

/-- **After a block** every pending transaction is applied on top of the head, whatever has become of the block. -/
theorem exact_pushBlock (hok : Ok node) (b : SignedBlock) (c : Controller) :
    Exact env Ok (after (pushBlock env rec node b c)) := by
  unfold pushBlock withoutPendingTransactions
  rw [bind_of_ok (get_apply c), bind_of_ok (modify_apply _ _)]
  obtain ⟨c₁, hreset⟩ := resetPendingTxSession_returns { c with pendingTx := [] }
  rw [bind_of_ok hreset]
  have hs : c₁.pendingTxSession = false := session_resetPendingTxSession hreset
  have hnone : c₁.pendingTx = [] := pendingTx_of_reset hreset
  have hbody : ∀ c₂, after (pushBlockOnFork env rec node b c₁) = c₂ → Holding env Ok c₂ := by
    rintro c₂ rfl
    have hapart : Apart (fun _ => True) (fun c c' => c'.pendingTx = c.pendingTx) c₁
        (after (pushBlockOnFork env rec node b c₁)) := respectedApart_pendingTx.pushBlockOnFork trivial c₁
    obtain ⟨hs₂, -, hsame⟩ := hapart hs fun _ _ => trivial
    exact (holding_closed hs₂).mpr (hsame.trans hnone)
  cases hrun : pushBlockOnFork env rec node b c₁ with
  | ok switched c₂ =>
    rw [hrun] at hbody
    rw [bind_of_ok (by rw [cleanup, hrun] : cleanup _ (pushBlockOnFork env rec node b) c₁ = .ok switched c₂),
      after_bind_pure]
    exact exact_restorer hok c.pendingTx (hbody c₂ rfl)
  | error e c₂ =>
    rw [hrun] at hbody
    rw [bind_of_error (by rw [cleanup, hrun] : cleanup _ (pushBlockOnFork env rec node b) c₁ = .error e _)]
    exact exact_restorer hok c.pendingTx (hbody c₂ rfl)

end Controller

end Sigmaengine
