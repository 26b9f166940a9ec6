import Sigmaengine.Chain.Stages

/-!
# States the chain can be in

`Reached`: blocks applied one after the other and transactions applied on top of them, on nodes with any
settings; popping a block or dropping pending transactions leads back to a state that was there before.

Two rules for what holds in all of these states.  For the chain's own indices it is enough to look at the
evaluators, because everything else a block does is `Upkeep`: it pays money, and writes only the head, the
schedule and the parts of a bobserver that are neither its name nor its role.  For the indices of the plugins
it is enough to look at the operations and the handlers of the plugins.
-/

namespace Sigmaengine

open Effect Table

/-- The states that blocks and pending transactions lead to. -/
inductive Reached (env : Env) : Database → Prop
  | genesis (initPublicKey : PublicKey) : Reached env (Sigmaengine.genesis initPublicKey)
  | block {d d' : Database} (node : Node) (b : SignedBlock) (h : Reached env d)
      (happly : applyBlock env node b d = .ok () d') : Reached env d'
  | transaction {d d' : Database} (node : Node) (trx : SignedTransaction) (h : Reached env d)
      (happly : applyTransaction env node trx d = .ok () d') : Reached env d'

variable {env : Env} {node : Node} {b : SignedBlock}

/-! ## Upkeep -/

/-- Who a bobserver is and what root has made of it. -/
def BobserverObject.role (b : BobserverObject) : AccountName × Bool × Bool :=
  (b.account, b.isBproducer, b.isExcepted)

/-- The bobservers with their roles, and how many producers the chain counts. -/
def Core.roles (s : Core) : List (Nat × AccountName × Bool × Bool) × Nat :=
  (s.bobservers.rows.map fun r => (r.1, r.2.role), s.dgp.currentBproducerCount)

/-- Accounts, authorities and requests are the same, and so are the roles of the bobservers. -/
def Upkeep (s s' : Core) : Prop := (s'.recovery, s'.roles) = (s.recovery, s.roles)

instance : Std.Refl Upkeep := ⟨fun _ => rfl⟩

instance : IsTrans Core Upkeep := ⟨fun _ _ _ h h' => h'.trans h⟩

namespace Upkeep

variable {s s' : Core}

theorem recovery (h : Upkeep s s') : s'.recovery = s.recovery := congrArg Prod.fst h

theorem roles (h : Upkeep s s') : s'.roles = s.roles := congrArg Prod.snd h

end Upkeep

theorem MoneyOnly.upkeep {s s' : Core} (h : MoneyOnly s s') : Upkeep s s' := by
  have hrecovery : s'.recovery = s.recovery := congrArg Prod.fst h
  have hbobservers : s'.bobservers = s.bobservers := h.accountsOnly.bobservers
  have hcount : s'.dgp.currentBproducerCount = s.dgp.currentBproducerCount :=
    congrArg (fun p => p.2.2.2.2.2.2.currentBproducerCount) h
  unfold Upkeep Core.roles
  rw [hrecovery, hbobservers, hcount]

/-- A change of a bobserver that keeps its name and role. -/
theorem upkeep_bobserver {id : Nat} {f : BobserverObject → Except Error BobserverObject}
    (hf : ∀ a b, f a = .ok b → b.role = a.role) : Always Upkeep (modifyIn Index.bobservers id f) := by
  refine always_of_clean ?_ (clean_modifyIn ?_)
  · intro s u s' h
    obtain ⟨a, b, hc, ha, hfa, rfl⟩ := modifyIn_eq_ok.mp h
    have hrows := map_rows_replace (k := BobserverObject.role) ha hc (hf a b hfa)
    exact congrArg (fun rows => (s.recovery, rows, s.dgp.currentBproducerCount)) hrows
  · intro a b hfa x
    show (x.account == b.account) = (x.account == a.account)
    rw [show b.account = a.account from congrArg Prod.fst (hf a b hfa)]

theorem keepsRole_upkeep : KeepsRole Upkeep := fun _ _ hf => upkeep_bobserver fun a b h => by
  obtain ⟨hrecord, hbp, hexcepted⟩ := hf a b h
  unfold BobserverObject.role
  rw [hbp, hexcepted, show b.account = a.account from congrArg Prod.fst hrecord]

/-! ## The stages of a block besides operations and payments -/

/-- `R` holds across the changes these stages make. -/
structure HeadFrame (R : Core → Core → Prop) : Prop where
  role : KeepsRole R
  properties : ∀ (s : Core) (p : DynamicGlobalPropertyObject),
    p.currentBproducerCount = s.dgp.currentBproducerCount → R s { s with dgp := p }
  transactions : ∀ t s, R s { s with transactions := t }

section Stages

variable {R : Core → Core → Prop} [Std.Refl R] [IsTrans Core R]

theorem HeadFrame.applyBlockHeader (hR : HeadFrame R) : Always R (applyBlockHeader env node b) := by
  have hvalid : ReadOnly (validateBlockHeader env node b) := by
    refine readOnly_get.bind fun s => (readOnly_assert _ _).bind fun _ => (readOnly_assert _ _).bind fun _ => ?_
    refine (readOnly_getIn _).bind fun bobserver => (readOnly_assert _ _).bind fun _ => ?_
    exact (readOnly_assert _ _).bind fun _ => (readOnly_assert _ _).bind fun _ => readOnly_pure _
  refine always_bind (always_assert _ _) fun _ => always_bind hvalid.always fun signing => ?_
  refine always_bind always_get fun s => always_bind (always_assert _ _) fun _ => ?_
  refine always_bind (fun s => hR.properties s _ rfl) fun _ => ?_
  exact always_bind (always_each (always_processHeaderExtension hR.role _) _) fun _ => always_pure _

theorem HeadFrame.updateGlobalDynamicData (hR : HeadFrame R) : Always R (updateGlobalDynamicData env node b) := by
  refine always_bind always_get fun s => always_bind (always_countMissed hR.role _ _) fun _ => ?_
  refine always_bind (fun s => hR.properties s _ (shiftSlots_same _ _).2) fun _ => ?_
  exact always_bind always_get fun s => always_assert _ _

theorem HeadFrame.updateLastIrreversibleBlock (hR : HeadFrame R) : Always R updateLastIrreversibleBlock := by
  refine always_bind always_get fun s => ?_
  split
  · exact fun s => hR.properties s _ rfl
  · exact always_bind (readOnly_getBobservers _).always fun _ => fun s => hR.properties s _ rfl

theorem always_clearExpiredTransactions (hR : ∀ t s, R s { s with transactions := t }) :
    Always R clearExpiredTransactions := by
  refine always_bind always_get fun s => always_loop (always_bind always_get fun s => ?_) _
  split
  · exact always_pure _
  · split
    · exact always_bind (always_within hR _) fun _ => always_pure _
    · exact always_pure _

end Stages

theorem headFrame_upkeep : HeadFrame Upkeep where
  role := keepsRole_upkeep
  properties s _ h := congrArg (fun n => (s.recovery, (s.roles.1, n))) h
  transactions _ _ := rfl

theorem upkeep_updateSigningBobserver (signing : Nat) : Always Upkeep (updateSigningBobserver signing b) :=
  always_bind always_get fun s => upkeep_bobserver fun a b h => by cases h; rfl

theorem upkeep_updateBobserverSchedule : Always Upkeep updateBobserverSchedule := by
  refine always_bind (always_bind always_get fun _ => always_pure _) fun num => ?_
  split
  · refine always_bind (always_shutdownExcepted keepsRole_upkeep) fun _ => always_bind always_get fun s => ?_
    refine always_bind (readOnly_getBobservers _).always fun bobservers => ?_
    exact always_bind (fun _ => rfl) fun _ => fun _ => rfl
  · exact always_pure _

theorem upkeep_prepareBlock : Always Upkeep (prepareBlock env b) :=
  always_bind (fun _ => rfl) fun _ =>
    always_bind (always_clearExpiredTransactions fun _ _ => rfl) fun _ => upkeep_updateBobserverSchedule

theorem upkeep_processHardforks : Always Upkeep processHardforks := always_processHardforks fun _ _ => rfl

/-! ## The chain's own indices -/

section Whole

variable {R : Core → Core → Prop} [Std.Refl R] [IsTrans Core R]

/-- `R` holds across payments and across each evaluator that does more than pay, when it returns. -/
structure OperationRuns (R : Core → Core → Prop) : Prop where
  money : ∀ s s', MoneyOnly s s' → R s s'
  accountCreate : ∀ o, Runs R (accountCreateEvaluator o)
  accountUpdate : ∀ o, Runs R (accountUpdateEvaluator o)
  requestAccountRecovery : ∀ o, Runs R (requestAccountRecoveryEvaluator o)
  recoverAccount : ∀ o, Runs R (recoverAccountEvaluator o)
  changeRecoveryAccount : ∀ o, Runs R (changeRecoveryAccountEvaluator o)
  bobserverUpdate : ∀ o, Runs R (bobserverUpdateEvaluator o)
  updateBproducer : ∀ o, Runs R (updateBproducerEvaluator o)
  exceptBobserver : ∀ o, Runs R (exceptBobserverEvaluator o)

omit [Std.Refl R] [IsTrans Core R] in
theorem OperationFrame.operationRuns (h : OperationFrame R) : OperationRuns R where
  money := h.money
  accountCreate o := (h.accountCreate o).runs
  accountUpdate o := (h.accountUpdate o).runs
  requestAccountRecovery o := (h.requestAccountRecovery o).runs
  recoverAccount o := (h.recoverAccount o).runs
  changeRecoveryAccount o := (h.changeRecoveryAccount o).runs
  bobserverUpdate o := (h.bobserverUpdate o).runs
  updateBproducer o := (h.updateBproducer o).runs
  exceptBobserver o := (h.exceptBobserver o).runs

omit [Std.Refl R] [IsTrans Core R] in
theorem runs_onCore {α : Type} {m : CoreM α} (h : Runs R m) : Runs (CoreRel R) (onCore m) := by
  intro d a d' hm
  obtain ⟨c, hc, rfl⟩ := within_eq_ok.mp hm
  exact h _ _ _ hc

omit [Std.Refl R] [IsTrans Core R] in
/-- **One operation**: an evaluator that returns, or payments. -/
theorem OperationRuns.applyOperation (hR : OperationRuns R) (node : Node) (op : Operation) :
    Runs (CoreRel R) (applyOperation env node op) := by
  cases op with
  | accountCreate o => exact runs_onCore (hR.accountCreate o)
  | accountUpdate o => exact runs_onCore (hR.accountUpdate o)
  | requestAccountRecovery o => exact runs_onCore (hR.requestAccountRecovery o)
  | recoverAccount o => exact runs_onCore (hR.recoverAccount o)
  | changeRecoveryAccount o => exact runs_onCore (hR.changeRecoveryAccount o)
  | bobserverUpdate o => exact runs_onCore (hR.bobserverUpdate o)
  | updateBproducer o => exact runs_onCore (hR.updateBproducer o)
  | exceptBobserver o => exact runs_onCore (hR.exceptBobserver o)
  | _ =>
    refine ((always_applyOperation_of (R := MoneyOnly) (fun _ _ h => h) ?_ ?_ ?_ ?_ ?_ ?_ ?_ ?_ env node).mono
      fun _ _ h => hR.money _ _ h).runs <;> exact fun o h => Operation.noConfusion h

theorem OperationRuns.applyTransaction (hR : OperationRuns R) (htrx : ∀ t s, R s { s with transactions := t })
    (node : Node) (trx : SignedTransaction) : Runs (CoreRel R) (applyTransaction env node trx) :=
  runs_bind (coreRel_onCore (always_admitTransaction htrx env node trx)).runs fun _ =>
    runs_each (fun op => hR.applyOperation node op) _

/-- **One block**: upkeep, evaluators and the recovery of accounts. -/
theorem OperationRuns.applyBlock (hR : OperationRuns R) (hupkeep : ∀ s s', Upkeep s s' → R s s')
    (hrecovery : Runs R accountRecoveryProcessing) (node : Node) (b : SignedBlock) :
    Runs (CoreRel R) (applyBlock env node b) := by
  have hkeep : ∀ {α : Type} {m : CoreM α}, Always Upkeep m → Runs R m := fun h => (h.mono hupkeep).runs
  have hmoney : ∀ {α : Type} {m : CoreM α}, Always MoneyOnly m → Runs R m := fun h => (h.mono hR.money).runs
  have htrx : ∀ trx, Runs (CoreRel R) (Sigmaengine.applyTransaction env node trx) :=
    hR.applyTransaction (fun _ _ => hupkeep _ _ rfl) node
  have hpost : Runs R postProcess := by
    refine runs_bind (hmoney moneyOnly_clearNullAccountBalance) fun _ => ?_
    refine runs_bind (hmoney moneyOnly_processFunds) fun _ => ?_
    refine runs_bind (hmoney moneyOnly_processSavingsWithdraws) fun _ => ?_
    exact runs_bind (hmoney moneyOnly_processFundWithdraws) fun _ => hrecovery
  refine runs_bind (runs_bind (runs_onCore (hkeep headFrame_upkeep.applyBlockHeader)) fun signing => ?_) fun _ => ?_
  · refine runs_bind (runs_each htrx _) fun _ => runs_onCore ?_
    refine runs_bind (hkeep headFrame_upkeep.updateGlobalDynamicData) fun _ => ?_
    refine runs_bind (hkeep (upkeep_updateSigningBobserver signing)) fun _ => ?_
    exact hkeep headFrame_upkeep.updateLastIrreversibleBlock
  · refine runs_bind (runs_onCore ?_) fun _ => ?_
    · refine runs_bind (hkeep upkeep_prepareBlock) fun _ => runs_bind hpost fun _ => ?_
      exact hkeep upkeep_processHardforks
    · exact ((moneyOnly_notifyAppliedBlock env).mono fun _ _ h => hupkeep _ _ (MoneyOnly.upkeep h)).runs

end Whole

/-- **Invariants of the chain's own indices**: genesis has it, upkeep and the evaluators keep it. -/
theorem Reached.core {I : Core → Prop} (hgenesis : ∀ key, I (Sigmaengine.genesis key).core)
    (hops : OperationRuns (Kept I)) (hupkeep : ∀ s s', Upkeep s s' → I s → I s')
    (hrecovery : Runs (Kept I) accountRecoveryProcessing) {d : Database} (h : Reached env d) : I d.core := by
  induction h with
  | genesis key => exact hgenesis key
  | block node b _ happly ih => exact hops.applyBlock hupkeep hrecovery node b _ _ _ happly ih
  | transaction node trx _ happly ih =>
    exact hops.applyTransaction (fun _ s => hupkeep s _ rfl) node trx _ _ _ happly ih

/-! ## What operations run -/

/-- What the custom operations carry, and for whom. -/
def carried : Operation → Option (Bytes × Payload)
  | .customJson o => some (o.id, .json o.json)
  | .customBinary o => some (o.id, .binary o.payload)
  | .customJsonDapp o => some (o.id, .json o.payload)
  | _ => none

/-- What an operation runs: code of the core, or what it carries. -/
theorem applyOperation_carried (env : Env) (node : Node) (op : Operation) :
    (∃ m : CoreM Unit, applyOperation env node op = onCore m) ∨
      ∃ id payload size text, carried op = some (id, payload) ∧
        applyOperation env node op = customPayloadEvaluator env node op id payload size text := by
  cases op with
  | customJson o => exact .inr ⟨_, _, _, _, rfl, rfl⟩
  | customBinary o => exact .inr ⟨_, _, _, _, rfl, rfl⟩
  | customJsonDapp o => exact .inr ⟨_, _, _, _, rfl, rfl⟩
  | resetAccount o => exact .inl ⟨throw (.assertion "Reset Account Operation is currently disabled."), rfl⟩
  | setResetAccount o => exact .inl ⟨throw (.assertion "Set Reset Account Operation is currently disabled."), rfl⟩
  | virtual => exact .inl ⟨throw (.assertion "no registered evaluator for this operation"), rfl⟩
  | _ => exact .inl ⟨_, rfl⟩

/-! ## The indices of the plugins -/

section Plugins

variable {R : Database → Database → Prop}

/-- `R` holds across whatever the chain does to its own indices, and across the operations of the plugins
that return. -/
structure PluginOperations (env : Env) (R : Database → Database → Prop) : Prop where
  core : ∀ (d : Database) (c : Core), R d { d with core := c }
  dapp : ∀ op, Runs R (Dapp.dappEvaluator env.fc op)
  token : ∀ op, Runs R (Token.tokenEvaluator env.tokenInterest op)

/-- `R` also holds across the handlers of the plugins, however they end. -/
structure PluginFrame (env : Env) (R : Database → Database → Prop) : Prop extends PluginOperations env R where
  dappHandler : Always R Dapp.onApplyBlock
  tokenHandler : Always R Token.onApplyBlock

theorem PluginOperations.onCore {α : Type} (hR : PluginOperations env R) (m : CoreM α) : Always R (onCore m) :=
  always_within (fun c d => hR.core d c) m

variable [Std.Refl R] [IsTrans Database R]

theorem always_applyOperations_of_runs {ω : Type} {validate : ω → List Check}
    {required : RequiredAuthorities → ω → RequiredAuthorities} {evaluate : ω → ChainM Unit} {ops : List ω}
    {outer : RequiredAuthorities} (h : ∀ op, Runs R (evaluate op)) :
    Always R (applyOperations validate required evaluate ops outer) := by
  have hassert : ∀ c text, Runs R (fcAssert c text : ChainM Unit) :=
    fun c text => (readOnly_assert c (Error.assertion text)).always.runs
  refine always_atomically ?_
  refine runs_bind (readOnly_each (fun _ => readOnly_checked _) _).always.runs fun _ => ?_
  refine runs_bind (hassert _ _) fun _ => runs_bind (hassert _ _) fun _ => ?_
  exact runs_bind (hassert _ _) fun _ => runs_bind (hassert _ _) fun _ => runs_each h ops

theorem PluginOperations.interpret (hR : PluginOperations env R) (id : Bytes) (payload : Payload)
    (outer : RequiredAuthorities) : Always R (interpret env id payload outer) := by
  unfold Sigmaengine.interpret
  split
  · exact always_bind (readOnly_ofOption _ _).always fun ops => always_applyOperations_of_runs hR.dapp
  · split
    · exact always_bind (readOnly_ofOption _ _).always fun ops => always_applyOperations_of_runs hR.token
    · exact always_pure _

/-- **One operation**: the chain's own evaluators do not reach the plugins. -/
theorem PluginOperations.applyOperation (hR : PluginOperations env R) (node : Node) (op : Operation) :
    Always R (applyOperation env node op) := by
  rcases applyOperation_carried env node op with ⟨m, hm⟩ | ⟨id, payload, size, text, -, hm⟩
  · rw [hm]
    exact hR.onCore m
  · rw [hm]
    refine always_bind (readOnly_assert _ _).always fun _ => ?_
    dsimp only
    split
    · exact hR.interpret _ _ _
    · exact always_attempt (hR.interpret _ _ _)

theorem PluginOperations.applyTransaction (hR : PluginOperations env R) (node : Node) (trx : SignedTransaction) :
    Always R (applyTransaction env node trx) :=
  always_bind (hR.onCore _) fun _ => always_each (hR.applyOperation node) _

theorem PluginFrame.applyBlock (hR : PluginFrame env R) (node : Node) (b : SignedBlock) :
    Always R (applyBlock env node b) := by
  refine always_bind (always_bind (hR.onCore _) fun signing => ?_) fun _ => always_bind (hR.onCore _) fun _ => ?_
  · exact always_bind (always_each (hR.applyTransaction node) _) fun _ => hR.onCore _
  · refine always_attempt (always_each (fun p => ?_) _)
    cases p with
    | dapp => exact hR.dappHandler
    | token => exact hR.tokenHandler

end Plugins

/-- **Invariants of the plugins.** -/
theorem Reached.plugins {I : Database → Prop} (hgenesis : ∀ key, I (Sigmaengine.genesis key)) (hI : PluginFrame env (Kept I))
    {d : Database} (h : Reached env d) : I d := by
  induction h with
  | genesis key => exact hgenesis key
  | block node b _ happly ih => exact (hI.applyBlock node b).runs _ _ _ happly ih
  | transaction node trx _ happly ih => exact (hI.applyTransaction node trx).runs _ _ _ happly ih

end Sigmaengine
