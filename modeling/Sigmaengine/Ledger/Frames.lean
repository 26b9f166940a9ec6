import Sigmaengine.Chain.Head
import Sigmaengine.Ledger.Abstraction

/-!
# Code that moves no money

Most of the chain's code leaves the ledger as it is.  `Same` is that relation; it composes, so each
program below is inside it because its parts are.
-/

namespace Sigmaengine

open Effect Table Finsupp

/-- The two states have the same ledger. -/
def Same (s s' : Core) : Prop := ∀ votes, s'.ledger votes = s.ledger votes

instance : Std.Refl Same := ⟨fun _ _ => rfl⟩

instance : IsTrans Core Same := ⟨fun _ _ _ h h' votes => (h' votes).trans (h votes)⟩

variable {α τ : Type}

theorem same_of_readOnly {m : CoreM α} (h : ReadOnly m) : Runs Same m := h.always.runs

/-- An index the ledger does not read. -/
def Aside (l : Part Core τ) : Prop := ∀ t s, Same s (l.set t s)

theorem Aside.runs {l : Part Core τ} (h : Aside l) (m : Prog Error τ α) : Runs Same (within l m) :=
  (always_within h m).runs

theorem aside_accountAuthorities : Aside Index.accountAuthorities := fun _ _ _ => rfl
theorem aside_ownerAuthorityHistory : Aside Index.ownerAuthorityHistory := fun _ _ _ => rfl
theorem aside_accountRecoveryRequests : Aside Index.accountRecoveryRequests := fun _ _ _ => rfl
theorem aside_declineVotingRightsRequests : Aside Index.declineVotingRightsRequests := fun _ _ _ => rfl
theorem aside_accountAuths : Aside Index.accountAuths := fun _ _ _ => rfl
theorem aside_transactions : Aside Index.transactions := fun _ _ _ => rfl

theorem same_modify {f : Core → Core} (h : ∀ s, Same s (f s)) : Runs Same (modify f : CoreM Unit) := by
  intro s u s' hm
  rw [← modify_eq_ok.mp hm]
  exact h s

theorem same_get : Runs Same (get : CoreM Core) := same_of_readOnly readOnly_get
theorem same_assert (c : Bool) (text : String) : Runs Same (fcAssert c text : CoreM Unit) :=
  same_of_readOnly (readOnly_assert c _)
theorem same_ofOption (o : Option α) (e : Error) : Runs Same (ofOption o e : CoreM α) :=
  same_of_readOnly (readOnly_ofOption o e)
theorem same_checked (x : Except Error α) : Runs Same (checked x : CoreM α) :=
  same_of_readOnly (readOnly_checked x)

theorem same_findIn [Clash τ] (l : Part Core (Table τ)) (p : τ → Bool) :
    Runs Same (findIn l p : CoreM (Option (Nat × τ))) :=
  same_of_readOnly (readOnly_findIn p)

theorem readOnly_getAccount (n : AccountName) : ReadOnly (getAccount n) := readOnly_getIn _

theorem readOnly_headBlockTime : ReadOnly headBlockTime := readOnly_get.bind fun _ => readOnly_pure _

/-- A change of an account that keeps its name and what it holds. -/
theorem same_modifyAccount (id : Nat) {f : AccountObject → Except Error AccountObject}
    (h : ∀ a b, f a = .ok b →
      b.name = a.name ∧ b.balance = a.balance ∧ b.savingsBalance = a.savingsBalance) :
    Runs Same (modifyIn Index.accounts id f) := by
  intro s u s' hm votes
  obtain ⟨a, b, t, ha, hf, rfl, hmove⟩ := modifyAccount_eq_ok hm fun a b hf => (h a b hf).1
  obtain ⟨-, hbal, hsav⟩ := h a b hf
  rw [hbal, hsav, sub_self, sub_self, single_zero] at hmove
  have hb := hmove.balance
  have hs := hmove.savings
  rw [add_zero] at hb hs
  simp only [Core.ledger, hb, hs, hmove.members]

/-- A change of a fund that keeps its name and what it holds. -/
theorem same_modifyFund (id : Nat) {f : CommonFundObject → Except Error CommonFundObject}
    (h : ∀ a b, f a = .ok b →
      b.name = a.name ∧ b.fundBalance = a.fundBalance ∧ b.fundWithdrawReady = a.fundWithdrawReady) :
    Runs Same (modifyIn Index.commonFunds id f) := by
  intro s u s' hm votes
  obtain ⟨a, b, t, ha, hf, rfl, hmove⟩ := modifyFund_eq_ok hm fun a b hf => (h a b hf).1
  obtain ⟨-, hbal, hready⟩ := h a b hf
  rw [hbal, hready, sub_self, sub_self, single_zero] at hmove
  have hp := hmove.pool
  have hd := hmove.due
  rw [add_zero] at hp hd
  simp only [Core.ledger, hp, hd, hmove.names]

theorem payeeNames_replace {t : Table BobserverObject} {id : Nat} {a b : BobserverObject}
    (ha : t.lookup id = some a) (hacc : b.account = a.account) (hown : b.bpOwner = a.bpOwner)
    (h : t.clashes id b = false) : payeeNames (t.replace id b h) = payeeNames t := by
  ext n
  simp only [payeeNames, Set.mem_ofPred_eq, values_replace ha, ← cons_values_erase ha,
    Multiset.mem_cons, exists_eq_or_imp, hacc, hown]

theorem bobserverNames_replace {t : Table BobserverObject} {id : Nat} {a b : BobserverObject}
    (ha : t.lookup id = some a) (hacc : b.account = a.account) (h : t.clashes id b = false) :
    bobserverNames (t.replace id b h) = bobserverNames t := by
  ext n
  simp only [bobserverNames, Set.mem_ofPred_eq, values_replace ha, ← cons_values_erase ha,
    Multiset.mem_cons, exists_eq_or_imp, hacc]

/-- A change of a bobserver that keeps the accounts it is paid on. -/
theorem same_modifyBobserver (id : Nat) {f : BobserverObject → Except Error BobserverObject}
    (h : ∀ a b, f a = .ok b → b.account = a.account ∧ b.bpOwner = a.bpOwner) :
    Runs Same (modifyIn Index.bobservers id f) := by
  intro s u s' hm votes
  obtain ⟨a, b, hc, ha, hf, rfl⟩ := modifyIn_eq_ok.mp hm
  obtain ⟨hacc, hown⟩ := h a b hf
  have hsame : payeeNames (s.bobservers.replace id b hc) = payeeNames s.bobservers :=
    payeeNames_replace ha hacc hown hc
  have hnames : bobserverNames (s.bobservers.replace id b hc) = bobserverNames s.bobservers :=
    bobserverNames_replace ha hacc hc
  change Core.ledger votes { s with bobservers := s.bobservers.replace id b hc } = _
  simp only [Core.ledger, hsame, hnames]

/-! ## Evaluators -/

theorem same_updateBproducer (o : UpdateBproducerOperation) : Runs Same (updateBproducerEvaluator o) := by
  refine runs_bind (same_of_readOnly (readOnly_requireRoot _ _)) fun _ => ?_
  refine runs_bind (same_of_readOnly (readOnly_getIn _)) fun b => ?_
  refine runs_bind (same_assert _ _) fun _ => runs_bind same_get fun s => ?_
  refine runs_bind (same_assert _ _) fun _ => ?_
  split
  · exact runs_pure _
  · refine runs_bind (same_modifyBobserver _ ?_) fun _ => same_modify fun _ _ => rfl
    rintro a _ ⟨⟩
    exact ⟨rfl, rfl⟩

theorem same_exceptBobserver (o : ExceptBobserverOperation) : Runs Same (exceptBobserverEvaluator o) := by
  refine runs_bind (same_of_readOnly (readOnly_requireRoot _ _)) fun _ => ?_
  refine runs_bind (same_of_readOnly (readOnly_getIn _)) fun b => ?_
  refine runs_bind (same_assert _ _) fun _ => same_modifyBobserver _ ?_
  rintro a _ ⟨⟩
  exact ⟨rfl, rfl⟩

theorem same_setBlacklistAccount (o : SetBlacklistAccountOperation) :
    Runs Same (setBlacklistAccountEvaluator o) := by
  refine runs_bind (same_of_readOnly (readOnly_requireRoot _ _)) fun _ => ?_
  refine runs_bind (same_of_readOnly (readOnly_getAccount _)) fun a => ?_
  split
  · exact runs_pure _
  · refine same_modifyAccount _ ?_
    rintro a _ ⟨⟩
    exact ⟨rfl, rfl, rfl⟩

theorem same_setFundInterest (fa : FundArithmetic) (o : SetFundInterestOperation) :
    Runs Same (setFundInterestEvaluator fa o) := by
  refine runs_bind (same_of_readOnly (readOnly_requireRoot _ _)) fun _ => ?_
  refine runs_bind (same_of_readOnly (readOnly_getIn _)) fun f => ?_
  refine runs_bind (same_of_readOnly readOnly_headBlockTime) fun now => ?_
  refine runs_bind (same_ofOption _ _) fun d => same_modifyFund _ ?_
  rintro a _ ⟨⟩
  exact ⟨rfl, rfl, rfl⟩

theorem same_updateOwnerAuthority (account : AccountName) (owner : Authority) :
    Runs Same (updateOwnerAuthority account owner) := by
  refine runs_bind (same_of_readOnly readOnly_headBlockTime) fun now => ?_
  refine runs_bind (same_of_readOnly (readOnly_getIn _)) fun old => ?_
  exact runs_bind (aside_ownerAuthorityHistory.runs _) fun _ => aside_accountAuthorities.runs _

theorem same_updateOwner (account : AccountName) (auth : AccountAuthorityObject) (o : Option Authority) :
    Runs Same (updateOwner account auth o) := by
  cases o with
  | none => exact runs_pure _
  | some owner =>
    refine runs_bind (same_of_readOnly readOnly_headBlockTime) fun now => ?_
    refine runs_bind (same_assert _ _) fun _ => ?_
    exact runs_bind (same_of_readOnly (readOnly_getAccounts _)) fun _ => same_updateOwnerAuthority _ _

theorem readOnly_checkOptionalAuthority (o : Option Authority) : ReadOnly (checkOptionalAuthority o) := by
  cases o with
  | none => exact readOnly_pure _
  | some a => exact readOnly_getAccounts _

theorem same_accountUpdate (o : AccountUpdateOperation) : Runs Same (accountUpdateEvaluator o) := by
  refine runs_bind (same_of_readOnly (readOnly_get.bind fun _ => readOnly_pure _)) fun forked => ?_
  refine runs_bind (same_assert _ _) fun _ => runs_bind (same_checked _) fun _ => ?_
  refine runs_bind (same_of_readOnly (readOnly_getAccount _)) fun account => ?_
  refine runs_bind (same_of_readOnly (readOnly_getIn _)) fun auth => ?_
  refine runs_bind (same_updateOwner _ _ _) fun _ => ?_
  refine runs_bind (same_of_readOnly (readOnly_checkOptionalAuthority _)) fun _ => ?_
  refine runs_bind (same_of_readOnly (readOnly_checkOptionalAuthority _)) fun _ => ?_
  refine runs_bind (same_of_readOnly readOnly_headBlockTime) fun now => ?_
  refine runs_bind (same_modifyAccount _ ?_) fun _ => ?_
  · rintro a _ ⟨⟩
    exact ⟨rfl, rfl, rfl⟩
  · split
    · exact aside_accountAuthorities.runs _
    · exact runs_pure _

theorem same_accountAuth (o : AccountAuthOperation) : Runs Same (accountAuthEvaluator o) := by
  refine runs_bind (same_of_readOnly (readOnly_getAccount _)) fun account => ?_
  refine runs_bind (same_of_readOnly readOnly_headBlockTime) fun now => ?_
  refine runs_bind (same_findIn _ _) fun found => ?_
  cases found with
  | none => exact runs_bind (aside_accountAuths.runs _) fun _ => runs_pure _
  | some r => exact aside_accountAuths.runs _

theorem readOnly_checkRecoveryPartner (account : AccountObject) (partner : AccountName) :
    ReadOnly (checkRecoveryPartner account partner) := by
  refine readOnly_get.bind fun s => ?_
  split
  · exact readOnly_assert _ _
  · exact readOnly_assert _ _

theorem same_requestAccountRecovery (o : RequestAccountRecoveryOperation) :
    Runs Same (requestAccountRecoveryEvaluator o) := by
  refine runs_bind (same_of_readOnly (readOnly_getAccount _)) fun account => ?_
  refine runs_bind (same_of_readOnly (readOnly_checkRecoveryPartner _ _)) fun _ => ?_
  refine runs_bind same_get fun s => runs_bind (same_findIn _ _) fun found => ?_
  cases found with
  | none =>
    refine runs_bind (same_assert _ _) fun _ => runs_bind (same_assert _ _) fun _ => ?_
    refine runs_bind (same_of_readOnly (readOnly_getAccounts _)) fun _ => ?_
    exact runs_bind (aside_accountRecoveryRequests.runs _) fun _ => runs_pure _
  | some r =>
    dsimp only
    split
    · exact aside_accountRecoveryRequests.runs _
    · refine runs_bind (runs_bind (same_assert _ _) fun _ => ?_) fun _ => aside_accountRecoveryRequests.runs _
      exact same_of_readOnly (readOnly_getAccounts _)

theorem same_recoverAccount (o : RecoverAccountOperation) : Runs Same (recoverAccountEvaluator o) := by
  refine runs_bind (same_of_readOnly (readOnly_getAccount _)) fun account => ?_
  refine runs_bind (same_of_readOnly readOnly_headBlockTime) fun now => ?_
  refine runs_bind (same_assert _ _) fun _ => runs_bind (same_findIn _ _) fun found => ?_
  cases found with
  | none => exact runs_throw _
  | some r =>
    refine runs_bind (same_assert _ _) fun _ => runs_bind same_get fun s => ?_
    refine runs_bind (same_assert _ _) fun _ => ?_
    refine runs_bind (aside_accountRecoveryRequests.runs _) fun _ => ?_
    refine runs_bind (same_updateOwnerAuthority _ _) fun _ => same_modifyAccount _ ?_
    rintro a _ ⟨⟩
    exact ⟨rfl, rfl, rfl⟩

theorem same_declineVotingRights (o : DeclineVotingRightsOperation) :
    Runs Same (declineVotingRightsEvaluator o) := by
  refine runs_bind (same_of_readOnly (readOnly_getAccount _)) fun account => ?_
  refine runs_bind (same_of_readOnly readOnly_headBlockTime) fun now => ?_
  refine runs_bind (same_findIn _ _) fun found => ?_
  cases o.decline with
  | true =>
    cases found with
    | none => exact runs_bind (aside_declineVotingRightsRequests.runs _) fun _ => runs_pure _
    | some r => exact runs_throw _
  | false =>
    cases found with
    | none => exact runs_throw _
    | some r => exact aside_declineVotingRightsRequests.runs _

/-! ## Transactions and headers -/

theorem same_recordTransaction (env : Env) (node : Node) (trx : SignedTransaction) :
    Runs Same (recordTransaction env node trx) := by
  unfold recordTransaction
  split
  · exact runs_pure _
  · exact runs_bind (aside_transactions.runs _) fun _ => runs_pure _

theorem readOnly_checkSignatures (env : Env) (node : Node) (trx : SignedTransaction) :
    ReadOnly (checkSignatures env node trx) := by
  refine readOnly_get.bind fun s => ?_
  split
  · exact readOnly_pure _
  · exact (readOnly_checked _).bind fun _ => readOnly_checked _

theorem readOnly_checkExpiration (node : Node) (trx : SignedTransaction) :
    ReadOnly (checkExpiration node trx) := by
  refine readOnly_get.bind fun s => ?_
  split
  · exact readOnly_pure _
  · exact (readOnly_assert _ _).bind fun _ => (readOnly_assert _ _).bind fun _ => readOnly_assert _ _

theorem same_admitTransaction (env : Env) (node : Node) (trx : SignedTransaction) :
    Runs Same (admitTransaction env node trx) := by
  refine runs_bind (same_checked _) fun _ => runs_bind same_get fun s => ?_
  refine runs_bind (same_assert _ _) fun _ => ?_
  refine runs_bind (same_of_readOnly (readOnly_checkSignatures _ _ _)) fun _ => ?_
  refine runs_bind (same_of_readOnly (readOnly_checkExpiration _ _)) fun _ => ?_
  exact same_recordTransaction env node trx

theorem readOnly_validateBlockHeader (env : Env) (node : Node) (b : SignedBlock) :
    ReadOnly (validateBlockHeader env node b) := by
  refine readOnly_get.bind fun s => (readOnly_assert _ _).bind fun _ => ?_
  refine (readOnly_assert _ _).bind fun _ => (readOnly_getIn _).bind fun bobserver => ?_
  refine (readOnly_assert _ _).bind fun _ => (readOnly_assert _ _).bind fun _ => ?_
  exact (readOnly_assert _ _).bind fun _ => readOnly_pure _

theorem same_processHeaderExtension (name : AccountName) (e : HeaderExtension) :
    Runs Same (processHeaderExtension name e) := by
  cases e with
  | void => exact runs_pure _
  | version v =>
    refine runs_bind (same_of_readOnly (readOnly_getIn _)) fun b => ?_
    split
    · exact runs_pure _
    · exact same_modifyBobserver _ (by rintro a _ ⟨⟩; exact ⟨rfl, rfl⟩)
  | hardforkVersionVote v t =>
    refine runs_bind (same_of_readOnly (readOnly_getIn _)) fun b => ?_
    split
    · exact runs_pure _
    · exact same_modifyBobserver _ (by rintro a _ ⟨⟩; exact ⟨rfl, rfl⟩)

/-! ## Block processing -/

theorem same_countMissed (producer : AccountName) (missed : Nat) :
    Runs Same (countMissed producer missed) := by
  induction missed with
  | zero => exact runs_pure _
  | succ n ih =>
    refine runs_bind ih fun _ => runs_bind same_get fun s => ?_
    refine runs_bind (same_of_readOnly (readOnly_getIn _)) fun b => ?_
    split
    · exact runs_pure _
    · exact same_modifyBobserver _ (by rintro a _ ⟨⟩; exact ⟨rfl, rfl⟩)

theorem shiftSlots_ledger (n : Nat) (d : DynamicGlobalPropertyObject) :
    (shiftSlots n d).currentSupply = d.currentSupply ∧
      (shiftSlots n d).dappTransactionFee = d.dappTransactionFee ∧
      (shiftSlots n d).currentBobserver = d.currentBobserver := by
  induction n with
  | zero => exact ⟨rfl, rfl, rfl⟩
  | succ n ih => exact ih

theorem same_updateGlobalDynamicData (env : Env) (node : Node) (b : SignedBlock) :
    Runs Same (updateGlobalDynamicData env node b) := by
  refine runs_bind same_get fun s => runs_bind (same_countMissed _ _) fun _ => ?_
  refine runs_bind (same_modify fun s votes => ?_) fun _ => runs_bind same_get fun _ => same_assert _ _
  simp only [Core.ledger, shiftSlots_ledger]

theorem same_updateSigningBobserver (signing : Nat) (b : SignedBlock) :
    Runs Same (updateSigningBobserver signing b) := by
  refine runs_bind same_get fun s => same_modifyBobserver _ ?_
  rintro a _ ⟨⟩
  exact ⟨rfl, rfl⟩

theorem same_updateLastIrreversibleBlock : Runs Same updateLastIrreversibleBlock := by
  refine runs_bind same_get fun s => ?_
  split
  · exact same_modify fun _ _ => rfl
  · exact runs_bind (same_of_readOnly (readOnly_getBobservers _)) fun _ => same_modify fun _ _ => rfl

theorem same_clearExpiredTransaction : Runs Same clearExpiredTransaction := by
  refine runs_bind same_get fun s => ?_
  cases s.transactions.least? TransactionObject.before with
  | none => exact runs_pure _
  | some r =>
    dsimp only
    split
    · exact runs_bind (aside_transactions.runs _) fun _ => runs_pure _
    · exact runs_pure _

theorem same_shutdownExcepted : Runs Same shutdownExcepted := by
  refine runs_bind same_get fun s => runs_each (fun r => same_modifyBobserver _ ?_) _
  rintro a _ ⟨⟩
  exact ⟨rfl, rfl⟩

theorem same_updateBobserverSchedule : Runs Same updateBobserverSchedule := by
  refine runs_bind (same_of_readOnly (readOnly_get.bind fun _ => readOnly_pure _)) fun num => ?_
  split
  · refine runs_bind same_shutdownExcepted fun _ => runs_bind same_get fun s => ?_
    refine runs_bind (same_of_readOnly (readOnly_getBobservers _)) fun bobservers => ?_
    exact runs_bind (same_modify fun _ _ => rfl) fun _ => same_modify fun _ _ => rfl
  · exact runs_pure _

theorem same_prepareBlock (env : Env) (b : SignedBlock) : Runs Same (prepareBlock env b) := by
  refine runs_bind (same_modify fun _ _ => rfl) fun _ => ?_
  refine runs_bind (runs_bind same_get fun _ => ?_) fun _ => same_updateBobserverSchedule
  exact runs_loop same_clearExpiredTransaction _

theorem same_applyHardfork (hardfork : Nat) : Runs Same (applyHardfork hardfork) := by
  refine runs_bind same_get fun _ => runs_bind (same_assert _ _) fun _ => ?_
  exact runs_bind (same_assert _ _) fun _ => same_modify fun _ _ => rfl

theorem same_votedHardforkStep : Runs Same votedHardforkStep := by
  refine runs_bind same_get fun s => ?_
  dsimp only
  split
  · split
    · exact runs_bind (same_applyHardfork _) fun _ => runs_pure _
    · exact runs_throw _
  · exact runs_pure _

theorem same_timedHardforkStep : Runs Same timedHardforkStep := by
  refine runs_bind same_get fun s => ?_
  dsimp only
  split
  · exact runs_bind (same_applyHardfork _) fun _ => runs_pure _
  · exact runs_pure _

theorem same_processHardforks : Runs Same processHardforks := by
  refine runs_bind (same_of_readOnly (readOnly_get.bind fun _ => readOnly_pure _)) fun forked => ?_
  split
  · exact runs_loop same_votedHardforkStep _
  · exact runs_loop same_timedHardforkStep _

theorem same_clearRecoveryRequest : Runs Same clearRecoveryRequest := by
  refine runs_bind same_get fun s => ?_
  cases s.accountRecoveryRequests.least? AccountRecoveryRequestObject.before with
  | none => exact runs_pure _
  | some r =>
    dsimp only
    split
    · exact runs_bind (aside_accountRecoveryRequests.runs _) fun _ => runs_pure _
    · exact runs_pure _

theorem same_clearOwnerHistory : Runs Same clearOwnerHistory := by
  refine runs_bind same_get fun s => ?_
  cases s.ownerAuthorityHistory.rows.head? with
  | none => exact runs_pure _
  | some r =>
    dsimp only
    split
    · exact runs_bind (aside_ownerAuthorityHistory.runs _) fun _ => runs_pure _
    · exact runs_pure _

end Sigmaengine
