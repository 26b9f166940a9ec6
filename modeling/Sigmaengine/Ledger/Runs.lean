import Sigmaengine.Ledger.Plugins

/-!
# Runs of the chain

A state is `Reachable` when blocks of validated operations lead to it from genesis; `ok` restricts the
blocks that may be taken.  What a restriction says about single operations is said over the trace of a
block: its operations in order, each with the state it finds.

Main result: `reachable_moves`, every reachable state is reached from genesis by ledger steps.
-/

namespace Sigmaengine

open Effect Table Finsupp Ledger

variable (env : Env) (node : Node)

/-! ## Traces -/

/-- The operations of a transaction, each with the state it finds. -/
def opTrace : List Operation → Database → List (Database × Operation)
  | [], _ => []
  | op :: ops, d => (d, op) :: opTrace ops (after (applyOperation env node op d))

def trxTrace : List SignedTransaction → Database → List (Database × Operation)
  | [], _ => []
  | trx :: trxs, d =>
    opTrace env node trx.operations (after (onCore (admitTransaction env node trx) d)) ++
      trxTrace trxs (after (applyTransaction env node trx d))

/-- The operations of a block, each with the state it finds. -/
def blockTrace (b : SignedBlock) (d : Database) : List (Database × Operation) :=
  trxTrace env node b.transactions (after (onCore (applyBlockHeader env node b) d))

/-- Every operation of the block meets `P` in the state it finds. -/
def EachOperation (P : Database → Operation → Prop) (b : SignedBlock) (d : Database) : Prop :=
  ∀ p ∈ blockTrace env node b d, P p.1 p.2

instance (P : Database → Operation → Prop) [∀ d op, Decidable (P d op)] (b : SignedBlock) (d : Database) :
    Decidable (EachOperation env node P b d) := inferInstanceAs (Decidable (∀ _ ∈ _, _))

/-- The state in which the per-block routines clear the null account. -/
def sweptState (b : SignedBlock) (d : Database) : Core := (after (applyBlockHead env node b d)).core

variable {node}

/-- The states that blocks of validated operations lead to, among blocks that meet `ok`. -/
inductive Reachable (ok : Node → SignedBlock → Database → Prop) : Database → Prop
  | genesis (initPublicKey : PublicKey) : Reachable ok (Sigmaengine.genesis initPublicKey)
  | block {d d' : Database} (node : Node) (b : SignedBlock) (h : Reachable ok d)
      (hvalidate : node.skip.validate = false) (hok : ok node b d)
      (happly : applyBlock env node b d = .ok () d') : Reachable ok d'

/-- No restriction. -/
def anyBlock : Node → SignedBlock → Database → Prop := fun _ _ _ => True

variable {env} {care : Care} {d d' : Database} {u : Unit}

/-! ## Operations -/

theorem runs_applyOperations {ω : Type} {R : Database → Database → Prop} [Std.Refl R] [IsTrans Database R]
    {validate : ω → List Check} {required : RequiredAuthorities → ω → RequiredAuthorities}
    {evaluate : ω → ChainM Unit} {ops : List ω} {outer : RequiredAuthorities}
    (h : ∀ op, (∀ c ∈ validate op, c.holds = true) → Runs R (evaluate op)) :
    Always R (applyOperations validate required evaluate ops outer) := by
  refine always_atomically ?_
  intro d u d' hm
  simp only [bind_eq_ok, each_checked_eq_ok, fcAssert_eq_ok] at hm
  obtain ⟨_, _, ⟨hvalid, rfl⟩, _, _, ⟨-, rfl⟩, _, _, ⟨-, rfl⟩, _, _, ⟨-, rfl⟩, _, _, ⟨-, rfl⟩, hm⟩ := hm
  exact runs_each_of_mem (fun op hop => h op (runChecks_eq_ok.mp (hvalid op hop))) _ _ _ hm

theorem dbSim_interpret (id : Bytes) (payload : Payload) (outer : RequiredAuthorities) :
    Always (DbSim care) (interpret env id payload outer) := by
  unfold interpret
  split
  · refine always_bind (readOnly_ofOption _ _).always fun ops => ?_
    exact runs_applyOperations (dbSim_dappEvaluator env.fc)
  · split
    · refine always_bind (readOnly_ofOption _ _).always fun ops => ?_
      exact runs_applyOperations fun op _ => dbSim_tokenEvaluator env.tokenInterest op
    · exact always_pure _

theorem dbSim_customPayload (op : Operation) (id : Bytes) (payload : Payload) (size : Nat)
    (text : String) : Runs (DbSim care) (customPayloadEvaluator env node op id payload size text) := by
  refine runs_bind (dbSim_of_quiet (quiet_assert _ _)) fun _ => ?_
  dsimp only
  split
  · exact (dbSim_interpret _ _ _).runs
  · exact runs_attempt (dbSim_interpret _ _ _)

theorem dbSim_same {m : CoreM Unit} (h : Runs Same m) : Runs (DbSim care) (onCore m) :=
  fun _ _ _ hm => dbSim_onCore (fun _ hc => (h _ _ _ hc).sim) hm

/-- The amount of a money operation is positive once it is validated. -/
theorem amount_pos {cs : List Check} {c : Check} {x : ℤ} (h : ∀ c ∈ cs, c.holds = true) (hc : c ∈ cs)
    (hx : c.holds = decide (0 < x)) : 0 < x := by
  have := h c hc
  rw [hx] at this
  exact of_decide_eq_true this

/-- **One operation**: a validated operation that returns moves the ledger by steps. -/
theorem dbSim_applyOperation {op : Operation} (hvalid : op.Valid env.fc)
    (hcov : care.covered → Covered env.fundArithmetic d.core op) (hpay : care.payable → Payable op)
    (h : applyOperation env node op d = .ok u d') : DbSim care d d' := by
  cases op with
  | transfer o =>
    exact dbSim_onCore (fun _ => sim_transfer (amount_pos hvalid (.tail _ (.tail _ (.head _))) rfl)) h
  | accountCreate o => exact dbSim_onCore (fun _ => sim_accountCreate) h
  | accountUpdate o => exact dbSim_same (same_accountUpdate o) _ _ _ h
  | bobserverUpdate o => exact dbSim_onCore (fun _ => sim_bobserverUpdate) h
  | custom o => exact dbSim_of_quiet (quiet_readCore (readOnly_assert _ _)) _ _ _ h
  | customJson o => exact dbSim_customPayload _ _ _ _ _ _ _ _ h
  | requestAccountRecovery o => exact dbSim_same (same_requestAccountRecovery o) _ _ _ h
  | recoverAccount o => exact dbSim_same (same_recoverAccount o) _ _ _ h
  | changeRecoveryAccount o => exact dbSim_onCore (fun _ => sim_changeRecoveryAccount) h
  | customBinary o => exact dbSim_customPayload _ _ _ _ _ _ _ _ h
  | declineVotingRights o => exact dbSim_same (same_declineVotingRights o) _ _ _ h
  | resetAccount o => exact (throw_eq_ok.mp h).elim
  | setResetAccount o => exact (throw_eq_ok.mp h).elim
  | updateBproducer o => exact dbSim_same (same_updateBproducer o) _ _ _ h
  | exceptBobserver o => exact dbSim_same (same_exceptBobserver o) _ _ _ h
  | accountAuth o => exact dbSim_same (same_accountAuth o) _ _ _ h
  | print o => exact dbSim_onCore (fun _ => sim_print (amount_pos hvalid (.tail _ (.head _)) rfl)) h
  | burn o => exact dbSim_onCore (fun _ => sim_burn (amount_pos hvalid (.tail _ (.head _)) rfl) hcov) h
  | transferSavings o =>
    exact dbSim_onCore (fun _ =>
      sim_transferSavings (amount_pos hvalid (.tail _ (.tail _ (.head _))) rfl) hcov hpay) h
  | cancelTransferSavings o => exact dbSim_onCore (fun _ => sim_cancelTransferSavings) h
  | conclusionTransferSavings o => exact dbSim_onCore (fun _ => sim_conclusionTransferSavings) h
  | stakingFund o =>
    exact dbSim_onCore (fun _ =>
      sim_stakingFund (amount_pos hvalid (.tail _ (.tail _ (.head _))) rfl) hcov) h
  | conclusionStaking o => exact dbSim_onCore (fun _ => sim_conclusionStaking) h
  | transferFund o =>
    exact dbSim_onCore (fun _ => sim_transferFund (amount_pos hvalid (.tail _ (.tail _ (.head _))) rfl)) h
  | setFundInterest o => exact dbSim_same (same_setFundInterest _ o) _ _ _ h
  | returnStakingFund o => exact dbSim_onCore (fun _ => sim_returnStakingFund) h
  | customJsonDapp o => exact dbSim_customPayload _ _ _ _ _ _ _ _ h
  | setBlacklistAccount o => exact dbSim_same (same_setBlacklistAccount o) _ _ _ h
  | virtual => exact (throw_eq_ok.mp h).elim

/-! ## Transactions and blocks -/

section Blocks

variable {R : Database → Database → Prop} [Std.Refl R] [IsTrans Database R] {P : Database → Operation → Prop}
  {V : Operation → Prop}

/-- **Operations of a transaction**: a relation that each of them is inside, when it has `V` and meets `P`
in the state it finds. -/
theorem runs_operations {ops : List Operation}
    (hop : ∀ op d d', V op → P d op → applyOperation env node op d = .ok () d' → R d d')
    (hvalid : ∀ op ∈ ops, V op) (hP : ∀ p ∈ opTrace env node ops d, P p.1 p.2)
    (h : each (applyOperation env node) ops d = .ok u d') : R d d' := by
  induction ops generalizing d with
  | nil =>
    obtain ⟨-, rfl⟩ := pure_eq_ok.mp h
    exact Std.Refl.refl d
  | cons op ops ih =>
    obtain ⟨_, t, hfirst, hrest⟩ := bind_eq_ok.mp h
    have hhead := hP (d, op) List.mem_cons_self
    refine IsTrans.trans d t d' (hop op d t (hvalid op List.mem_cons_self) hhead hfirst) ?_
    refine ih (fun o ho => hvalid o (List.mem_cons_of_mem _ ho)) (fun p hp => hP p ?_) hrest
    simp only [opTrace, hfirst, after_ok]
    exact List.mem_cons_of_mem _ hp

/-- The operations of every transaction that is admitted have `V`. -/
def Admits (env : Env) (node : Node) (V : Operation → Prop) : Prop :=
  ∀ trx c u c', admitTransaction env node trx c = .ok u c' → ∀ op ∈ trx.operations, V op

theorem admits_valid (hvalidate : node.skip.validate = false) : Admits env node (Operation.Valid env.fc) := by
  intro trx c u c' h
  simp only [admitTransaction, bind_eq_ok, checked_eq_ok, hvalidate] at h
  obtain ⟨_, _, ⟨hchecks, -⟩, -⟩ := h
  have hall := runChecks_eq_ok.mp hchecks
  intro op hop c hc
  refine hall c ?_
  simp only [SignedTransaction.validate]
  exact List.mem_cons_of_mem _ (List.mem_flatMap.mpr ⟨op, hop, hc⟩)

theorem runs_applyTransaction {trx : SignedTransaction} (hadmits : Admits env node V)
    (hop : ∀ op d d', V op → P d op → applyOperation env node op d = .ok () d' → R d d')
    (hadm : Runs R (onCore (admitTransaction env node trx)))
    (hP : ∀ p ∈ opTrace env node trx.operations (after (onCore (admitTransaction env node trx) d)), P p.1 p.2)
    (h : applyTransaction env node trx d = .ok u d') : R d d' := by
  obtain ⟨_, t, hpassed, hops⟩ := bind_eq_ok.mp h
  rw [hpassed, after_ok] at hP
  have hfirst := hadm _ _ _ hpassed
  obtain ⟨c, hc, rfl⟩ := within_eq_ok.mp hpassed
  exact IsTrans.trans _ _ _ hfirst (runs_operations hop (hadmits _ _ _ _ hc) hP hops)

theorem runs_transactions {trxs : List SignedTransaction} (hadmits : Admits env node V)
    (hop : ∀ op d d', V op → P d op → applyOperation env node op d = .ok () d' → R d d')
    (hadm : ∀ trx, Runs R (onCore (admitTransaction env node trx)))
    (hP : ∀ p ∈ trxTrace env node trxs d, P p.1 p.2)
    (h : each (applyTransaction env node) trxs d = .ok u d') : R d d' := by
  induction trxs generalizing d with
  | nil =>
    obtain ⟨-, rfl⟩ := pure_eq_ok.mp h
    exact Std.Refl.refl d
  | cons trx trxs ih =>
    obtain ⟨_, t, htrx, htrxs⟩ := bind_eq_ok.mp h
    simp only [trxTrace, htrx, after_ok, List.mem_append] at hP
    have hfirst := runs_applyTransaction hadmits hop (hadm trx) (fun p hp => hP p (.inl hp)) htrx
    exact IsTrans.trans _ _ _ hfirst (ih (fun p hp => hP p (.inr hp)) htrxs)

/-- **The head of a block**: core code around the operations. -/
theorem runs_applyBlockHead {b : SignedBlock} (hadmits : Admits env node V)
    (hop : ∀ op d d', V op → P d op → applyOperation env node op d = .ok () d' → R d d')
    (hsame : ∀ m : CoreM Unit, Runs Same m → Runs R (onCore m))
    (hheader : Runs R (onCore (applyBlockHeader env node b))) (hP : EachOperation env node P b d)
    (h : applyBlockHead env node b d = .ok u d') : R d d' := by
  simp only [applyBlockHead, bind_eq_ok] at h
  obtain ⟨signing, t, hhead, _, t', htrxs, htail⟩ := h
  simp only [EachOperation, blockTrace, hhead, after_ok] at hP
  have hfirst := hheader _ _ _ hhead
  have hadm : ∀ trx, Runs R (onCore (admitTransaction env node trx)) :=
    fun trx => hsame _ (same_admitTransaction env node trx)
  have hmiddle := runs_transactions hadmits hop hadm hP htrxs
  refine IsTrans.trans _ _ _ hfirst (IsTrans.trans _ _ _ hmiddle ?_)
  refine hsame _ ?_ _ _ _ htail
  refine runs_bind (same_updateGlobalDynamicData _ _ _) fun _ => ?_
  exact runs_bind (same_updateSigningBobserver _ _) fun _ => same_updateLastIrreversibleBlock

end Blocks

theorem opTrace_append {ops rest : List Operation} (h : each (applyOperation env node) ops d = .ok u d') :
    opTrace env node (ops ++ rest) d = opTrace env node ops d ++ opTrace env node rest d' := by
  induction ops generalizing d with
  | nil =>
    obtain ⟨-, rfl⟩ := pure_eq_ok.mp h
    rfl
  | cons op ops ih =>
    obtain ⟨_, t, hfirst, hrest⟩ := bind_eq_ok.mp h
    simp only [List.cons_append, opTrace, hfirst, after_ok, ih hrest]

theorem trxTrace_append {trxs rest : List SignedTransaction} (h : each (applyTransaction env node) trxs d = .ok u d') :
    trxTrace env node (trxs ++ rest) d = trxTrace env node trxs d ++ trxTrace env node rest d' := by
  induction trxs generalizing d with
  | nil =>
    obtain ⟨-, rfl⟩ := pure_eq_ok.mp h
    rfl
  | cons trx trxs ih =>
    obtain ⟨_, t, hfirst, hrest⟩ := bind_eq_ok.mp h
    simp only [List.cons_append, trxTrace, hfirst, after_ok, ih hrest, List.append_assoc]

/-- What `Care` asks of one operation in one state. -/
def OperationCare (env : Env) (care : Care) (d : Database) (op : Operation) : Prop :=
  (care.covered → Covered env.fundArithmetic d.core op) ∧ (care.payable → Payable op)

/-- What `Care` asks of a block. -/
def BlockCare (env : Env) (care : Care) (node : Node) (b : SignedBlock) (d : Database) : Prop :=
  EachOperation env node (OperationCare env care) b d ∧ (care.settled → Settled (sweptState env node b d))

theorem getBobserver_eq_ok {n : AccountName} {r : Nat × BobserverObject} {c c' : Core}
    (h : getBobserver n c = .ok r c') :
    c' = c ∧ r ∈ c.bobservers.rows ∧ r.2.account = n := by
  obtain ⟨hf, rfl⟩ := getIn_eq_ok.mp h
  obtain ⟨hmem, hname⟩ := mem_of_find? hf
  exact ⟨rfl, hmem, beq_iff_eq.mp hname⟩

/-- The header names an existing bobserver as the producer. -/
theorem sim_applyBlockHeader {votes : Set ℤ} {b : SignedBlock} {c c' : Core} {n : Nat}
    (h : applyBlockHeader env node b c = .ok n c') : Sim care votes c c' := by
  simp only [applyBlockHeader, bind_eq_ok, fcAssert_eq_ok, get_eq_ok, modify_eq_ok, pure_eq_ok] at h
  obtain ⟨_, _, ⟨-, rfl⟩, signing, _, hvalid, _, _, ⟨rfl, rfl⟩, _, _, ⟨-, rfl⟩, _, _, rfl, _, _, hext, -,
    rfl⟩ := h
  obtain rfl := (readOnly_validateBlockHeader env node b).eq_of_ok hvalid
  simp only [validateBlockHeader, bind_eq_ok] at hvalid
  obtain ⟨_, _, hget, _, _, hassert, _, _, hassert', r, _, hbob, -⟩ := hvalid
  obtain ⟨rfl, rfl⟩ := get_eq_ok.mp hget
  obtain ⟨-, rfl⟩ := fcAssert_eq_ok.mp hassert
  obtain ⟨-, rfl⟩ := fcAssert_eq_ok.mp hassert'
  obtain ⟨-, hmem, hname⟩ := getBobserver_eq_ok hbob
  refine Moves.trans (sim_of_step (Step.produce _ b.bobserverName ?_) rfl)
    (runs_each (same_processHeaderExtension _) _ _ _ _ hext).sim
  exact ⟨r.2, mem_values.mpr ⟨r.1, hmem⟩, hname⟩

/-- `applyBlockHead` moves the ledger by the operations of the block only. -/
theorem dbSim_applyBlockHead {b : SignedBlock} (hvalidate : node.skip.validate = false)
    (hcare : EachOperation env node (OperationCare env care) b d)
    (h : applyBlockHead env node b d = .ok u d') : DbSim care d d' := by
  refine runs_applyBlockHead (admits_valid hvalidate) ?_ (fun _ => dbSim_same) ?_ hcare h
  · intro op d d' hvalid hop hrun
    exact dbSim_applyOperation hvalid hop.1 hop.2 hrun
  · intro d n d' hheader
    exact dbSim_onCore (fun c hc => sim_applyBlockHeader hc) hheader

theorem same_accounts_settled {c c' : Core} (h : Same c c') (hset : Settled c) : Settled c' := by
  intro r hr
  obtain ⟨hmem, hname⟩ := mem_of_find? hr
  have hfound := found_of_mem hmem
  rw [beq_iff_eq.mp hname] at hfound
  have hledger := h ∅
  have hmember : nullAccount ∈ memberNames c.accounts := by
    rw [← show memberNames c'.accounts = memberNames c.accounts from congrArg Ledger.members hledger]
    exact hfound.member
  obtain ⟨q, hq⟩ := getAccount_of_member hmember
  obtain ⟨hfind, -⟩ := getIn_eq_ok.mp hq
  rw [← hfound.savings, show savings c'.accounts = savings c.accounts from congrArg Ledger.savings hledger,
    (getAccount_eq_ok hq).2.savings]
  exact hset q hfind

/-- The per-block routines start from the swept state, up to code that moves no money. -/
theorem dbSim_applyBlockTail {b : SignedBlock} (hset : care.settled → Settled d.core)
    (h : applyBlockTail env b d = .ok u d') : DbSim care d d' := by
  obtain ⟨_, t, hcore, hnotify⟩ := bind_eq_ok.mp h
  refine Moves.trans (dbSim_onCore (fun c' hc => ?_) hcore) (dbSim_notifyAppliedBlock env _ _ _ hnotify)
  simp only [bind_eq_ok] at hc
  obtain ⟨_, c₁, hprep, _, c₂, hpost, hhard⟩ := hc
  have hsame := same_prepareBlock env b _ _ _ hprep
  refine Moves.trans hsame.sim (Moves.trans (sim_postProcess (fun hc => ?_) hpost) ?_)
  · exact same_accounts_settled hsame (hset hc)
  · exact (same_processHardforks _ _ _ hhard).sim

/-- **One block.** -/
theorem dbSim_applyBlock {b : SignedBlock} (hvalidate : node.skip.validate = false)
    (hcare : BlockCare env care node b d) (h : applyBlock env node b d = .ok u d') : DbSim care d d' := by
  obtain ⟨_, t, hhead, htail⟩ := bind_eq_ok.mp h
  refine Moves.trans (dbSim_applyBlockHead hvalidate hcare.1 hhead) (dbSim_applyBlockTail (fun hc => ?_) htail)
  have := hcare.2 hc
  rwa [sweptState, hhead, after_ok] at this

/-- **Runs**: a reachable state is reached from genesis by ledger steps. -/
theorem reachable_moves {ok : Node → SignedBlock → Database → Prop}
    (hok : ∀ node b d, ok node b d → BlockCare env care node b d) (h : Reachable env ok d) :
    ∃ key, Moves care nullAccount int64Max (genesis key).ledger d.ledger := by
  induction h with
  | genesis key => exact ⟨key, Moves.refl _⟩
  | block node b h hvalidate hblock happly ih =>
    obtain ⟨key, hkey⟩ := ih
    exact ⟨key, hkey.trans (dbSim_applyBlock hvalidate (hok _ _ _ hblock) happly)⟩

/-! ## Sample runs -/

/-- A node and network in which every signature names its key. -/
def sampleEnv : Env where
  fc := ⟨fun _ => true, fun _ => true⟩
  codec :=
    { headerHash := fun b => (b.timestamp, 0), transactionId := fun t => t.expiration,
      merkleDigest := fun _ => 0, hashPair := fun _ _ => 0, checksum := fun _ => 0,
      transactionPackSize := fun _ => 0, blockPackSize := fun _ => 0,
      signee := fun _ => some ⟨1⟩, signatureKey := fun _ n => some ⟨n⟩ }
  fundArithmetic := ⟨fun _ => none, fun _ => false, fun _ _ => 0⟩
  tokenInterest := fun _ _ => 0
  decodeDapp := fun _ => none
  decodeToken := fun _ => none
  plugins := []

/-- The block after `previous`, one slot later, with one transaction for each operation. -/
def sampleBlock (previous : BlockId) (slot : Nat) (ops : List Operation) : SignedBlock where
  previous := previous
  timestamp := genesisTime + 3 * slot
  bobserver := ascii ['c', 'h', 'a', 'i', 'n', 'm', 'a', 'k', 'e', 'r']
  transactionMerkleRoot := 0
  extensions := []
  bobserverSignature := 0
  transactions := ops.mapIdx fun i op => ⟨0, 0, genesisTime + 100 * slot + i, [op], [1]⟩

/-- The first operation of every sample: the account that may print and burn. -/
def createRoot : Operation :=
  .accountCreate
    { creator := initMinerName, newAccountName := rootAccount, owner := .ofKey ⟨1⟩, active := .ofKey ⟨1⟩,
      posting := .ofKey ⟨1⟩, memoKey := ⟨1⟩, jsonMetadata := [] }

/-- The state after a block, whatever the outcome. -/
def sampleAfter (b : SignedBlock) (d : Database) : Database := after (applyBlock sampleEnv {} b d)

theorem reachable_sampleAfter {ok : Node → SignedBlock → Database → Prop} {b : SignedBlock}
    {d : Database} (h : Reachable sampleEnv ok d) (hok : ok {} b d)
    (hrun : succeeds (applyBlock sampleEnv {} b d) = true) : Reachable sampleEnv ok (sampleAfter b d) :=
  h.block {} b rfl hok (eq_ok_of_succeeds hrun)

/-- Print, burn a part and save the rest in two instalments. -/
def moneyBlock : SignedBlock :=
  sampleBlock {} 1 [createRoot, .print ⟨rootAccount, rootAccount, sgt 10⟩,
    .burn ⟨rootAccount, rootAccount, sgt 3⟩,
    .transferSavings
      { from_ := rootAccount, requestId := 1, to_ := initMinerName, amount := sgt 7, splitPayOrder := 1,
        splitPayMonth := 2, memo := [], complete := genesisTime + 4 }]

end Sigmaengine
