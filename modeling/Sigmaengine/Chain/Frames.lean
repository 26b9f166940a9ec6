import Sigmaengine.Chain.Block

/-!
# What operations and routines leave alone

Three circles around the money of the chain.  Payments, queues and fees change balances and nothing else
(`MoneyOnly`); the operations on accounts reach the authorities and the recovery of accounts as well
(`AccountsOnly`); the three operations on bobservers write bobservers.  Where the chain stands
(`Core.position`: the head, the schedule, the hardforks, the block summaries and the recorded transactions)
is written by `_apply_block` itself: no evaluator, no plugin and no routine that pays money touches it,
whatever the outcome (`Stays`).

`always_applyOperation` is the rule for one operation: a relation that all of the circles are inside of
holds across every operation.
-/

namespace Sigmaengine

open Effect Table

/-! ## The three circles -/

/-- The part of the state that operations on accounts do not write.  The three properties that money depends
on are blanked. -/
def Core.apart (s : Core) :
    Table BobserverObject × Table TransactionObject × (Nat → BlockId) × BobserverScheduleObject ×
      HardforkPropertyObject × DynamicGlobalPropertyObject :=
  (s.bobservers, s.transactions, s.blockSummaries, s.bobserverSchedule, s.hardforkProperty,
    { s.dgp with
      currentSupply := 0
      dappTransactionFee := 0
      lastDappVotingAggregationTime := 0 })

/-- Who there is and who recovers whom. -/
def Core.recovery (s : Core) :
    List (Nat × AccountName × AccountName) × Table AccountAuthorityObject ×
      Table OwnerAuthorityHistoryObject × Table AccountRecoveryRequestObject ×
      Table ChangeRecoveryAccountRequestObject :=
  (s.accounts.rows.map fun r => (r.1, r.2.name, r.2.recoveryAccount), s.accountAuthorities,
    s.ownerAuthorityHistory, s.accountRecoveryRequests, s.changeRecoveryAccountRequests)

/-- Bobservers and the position of the chain are as they were. -/
def AccountsOnly (s s' : Core) : Prop := s'.apart = s.apart

/-- Only balances, queues of payments and fees differ. -/
def MoneyOnly (s s' : Core) : Prop := (s'.recovery, s'.apart) = (s.recovery, s.apart)

instance : Std.Refl AccountsOnly := ⟨fun _ => rfl⟩

instance : IsTrans Core AccountsOnly := ⟨fun _ _ _ h h' => h'.trans h⟩

instance : Std.Refl MoneyOnly := ⟨fun _ => rfl⟩

instance : IsTrans Core MoneyOnly := ⟨fun _ _ _ h h' => h'.trans h⟩

theorem MoneyOnly.accountsOnly {s s' : Core} (h : MoneyOnly s s') : AccountsOnly s s' := congrArg Prod.snd h

/-- The part of the state that only `_apply_block` and `_apply_transaction` write.  The four properties
that others write as well are blanked. -/
def Core.position (s : Core) :
    Table TransactionObject × (Nat → BlockId) × BobserverScheduleObject × HardforkPropertyObject ×
      DynamicGlobalPropertyObject :=
  (s.transactions, s.blockSummaries, s.bobserverSchedule, s.hardforkProperty,
    { s.dgp with
      currentSupply := 0
      currentBproducerCount := 0
      dappTransactionFee := 0
      lastDappVotingAggregationTime := 0 })

/-- The chain stands where it stood. -/
def Stays (s s' : Core) : Prop := s'.position = s.position

instance : Std.Refl Stays := ⟨fun _ => rfl⟩

instance : IsTrans Core Stays := ⟨fun _ _ _ h h' => h'.trans h⟩

theorem AccountsOnly.stays {s s' : Core} (h : AccountsOnly s s') : Stays s s' :=
  congrArg (fun p : _ × _ × _ × _ × _ × DynamicGlobalPropertyObject =>
    (p.2.1, p.2.2.1, p.2.2.2.1, p.2.2.2.2.1,
      ({ p.2.2.2.2.2 with currentBproducerCount := 0 } : DynamicGlobalPropertyObject))) h

namespace Stays

variable {s s' : Core} (h : Stays s s')

include h

theorem transactions : s'.transactions = s.transactions := congrArg Prod.fst h

theorem time : s'.dgp.time = s.dgp.time := congrArg (fun p => p.2.2.2.2.time) h

theorem headBlockNumber : s'.dgp.headBlockNumber = s.dgp.headBlockNumber :=
  congrArg (fun p => p.2.2.2.2.headBlockNumber) h

theorem headBlockId : s'.dgp.headBlockId = s.dgp.headBlockId :=
  congrArg (fun p => p.2.2.2.2.headBlockId) h

end Stays

/-! ## Programs that only read -/

section Reading

variable {R : Core → Core → Prop} [Std.Refl R]

theorem always_headBlockTime : Always R headBlockTime :=
  (readOnly_get.bind fun _ => readOnly_pure _ : ReadOnly headBlockTime).always

theorem readOnly_getAccounts (names : List AccountName) : ReadOnly (getAccounts names) :=
  readOnly_each (fun _ => (readOnly_getIn _).bind fun _ => readOnly_pure _) names

theorem readOnly_requireRoot (root : AccountName) (compareKey : Bool) :
    ReadOnly (requireRoot root compareKey) := by
  refine (readOnly_getIn _).bind fun origin => (readOnly_getIn _).bind fun bypass => ?_
  exact (readOnly_assert _ _).bind fun _ => readOnly_assert _ _

theorem always_getAccounts (names : List AccountName) : Always R (getAccounts names) :=
  (readOnly_getAccounts names).always

theorem always_requireRoot (root : AccountName) (compareKey : Bool) :
    Always R (requireRoot root compareKey) :=
  (readOnly_requireRoot root compareKey).always

theorem always_requireBalance (a : AccountObject) (amount : Asset) (text : String) :
    Always R (requireBalance a amount text) := by
  have hread : ReadOnly (requireBalance a amount text) :=
    (readOnly_checked _).bind fun _ => (readOnly_checked _).bind fun _ => readOnly_assert _ _
  exact hread.always

theorem always_requireNotBanned (node : Node) (a : AccountObject) (name : AccountName) :
    Always R (requireNotBanned node a name) :=
  ((readOnly_assert _ _).bind fun _ => readOnly_assert _ _ : ReadOnly (requireNotBanned node a name)).always

theorem always_checkOptionalAuthority (a : Option Authority) : Always R (checkOptionalAuthority a) := by
  cases a with
  | none => exact always_pure _
  | some a => exact always_getAccounts _

theorem always_checkRecoveryPartner (account : AccountObject) (partner : AccountName) :
    Always R (checkRecoveryPartner account partner) := by
  refine ReadOnly.always (readOnly_get.bind fun s => ?_)
  split
  · exact readOnly_assert _ _
  · exact readOnly_assert _ _

end Reading

/-! ## Money -/

/-- A change of an account that keeps its name and its recovery account. -/
theorem moneyOnly_account {id : Nat} {f : AccountObject → Except Error AccountObject}
    (hf : ∀ a b, f a = .ok b → b.name = a.name ∧ b.recoveryAccount = a.recoveryAccount) :
    Always MoneyOnly (modifyIn Index.accounts id f) := by
  refine always_of_clean ?_ (clean_modifyIn ?_)
  · intro s u s' h
    obtain ⟨a, b, hc, ha, hfa, rfl⟩ := modifyIn_eq_ok.mp h
    obtain ⟨hname, hrecovery⟩ := hf a b hfa
    have hrows := map_rows_replace (k := fun a => (a.name, a.recoveryAccount)) ha hc (by rw [hname, hrecovery])
    exact congrArg (fun rows => ((rows, s.recovery.2), s.apart)) hrows
  · intro a b hfa x
    show (x.name == b.name) = (x.name == a.name)
    rw [(hf a b hfa).1]

theorem moneyOnly_adjustBalance (account : Nat) (delta : Asset) :
    Always MoneyOnly (adjustBalance account delta) :=
  moneyOnly_account fun a b h => by
    obtain ⟨n, -, rfl⟩ := map_eq_ok h
    exact ⟨rfl, rfl⟩

theorem moneyOnly_adjustSavingsBalance (account : Nat) (delta : Asset) :
    Always MoneyOnly (adjustSavingsBalance account delta) :=
  moneyOnly_account fun a b h => by
    obtain ⟨n, -, rfl⟩ := map_eq_ok h
    exact ⟨rfl, rfl⟩

theorem moneyOnly_adjustFundBalance (name : Bytes) (delta : Asset) :
    Always MoneyOnly (adjustFundBalance name delta) :=
  always_bind (always_getIn _) fun _ => always_within (fun _ _ => rfl) _

theorem moneyOnly_adjustFundWithdrawBalance (name : Bytes) (delta : Asset) :
    Always MoneyOnly (adjustFundWithdrawBalance name delta) :=
  always_bind (always_getIn _) fun _ => always_within (fun _ _ => rfl) _

theorem moneyOnly_adjustDappRewardFundBalance (delta : Asset) :
    Always MoneyOnly (adjustDappRewardFundBalance delta) :=
  always_bind always_get fun _ => always_bind (always_checked _) fun _ => fun _ => rfl

theorem moneyOnly_adjustSupply (delta : Asset) : Always MoneyOnly (adjustSupply delta) :=
  always_bind always_get fun _ => always_bind (always_checked _) fun _ => fun _ => rfl

/-! ## Operations on money -/

theorem moneyOnly_setBlacklistAccount (o : SetBlacklistAccountOperation) :
    Always MoneyOnly (setBlacklistAccountEvaluator o) := by
  refine always_bind (always_requireRoot _ _) fun _ => always_bind (always_getIn _) fun account => ?_
  split
  · exact always_pure _
  · exact moneyOnly_account fun a b h => by cases h; exact ⟨rfl, rfl⟩

theorem moneyOnly_setFundInterest (fa : FundArithmetic) (o : SetFundInterestOperation) :
    Always MoneyOnly (setFundInterestEvaluator fa o) := by
  refine always_bind (always_requireRoot _ _) fun _ => always_bind (always_getIn _) fun fund => ?_
  refine always_bind always_headBlockTime fun now => always_bind (always_ofOption _ _) fun d => ?_
  exact always_within (fun _ _ => rfl) _

theorem moneyOnly_print (o : SupplyOperation) : Always MoneyOnly (printEvaluator o) := by
  refine always_bind (always_requireRoot _ _) fun _ => always_bind (always_getIn _) fun account => ?_
  exact always_bind (moneyOnly_adjustBalance _ _) fun _ => moneyOnly_adjustSupply _

theorem moneyOnly_burn (o : SupplyOperation) : Always MoneyOnly (burnEvaluator o) := by
  refine always_bind (always_requireRoot _ _) fun _ => always_bind (always_getIn _) fun account => ?_
  refine always_bind (always_checked _) fun delta => ?_
  exact always_bind (moneyOnly_adjustBalance _ _) fun _ => moneyOnly_adjustSupply _

theorem moneyOnly_declineVotingRights (o : DeclineVotingRightsOperation) :
    Always MoneyOnly (declineVotingRightsEvaluator o) := by
  refine always_bind (always_getIn _) fun account => always_bind always_headBlockTime fun now => ?_
  refine always_bind (always_findIn _) fun found => ?_
  cases o.decline with
  | true =>
    cases found with
    | none => exact always_bind (always_within (fun _ _ => rfl) _) fun _ => always_pure _
    | some r => exact always_throw _
  | false =>
    cases found with
    | none => exact always_throw _
    | some r => exact always_within (fun _ _ => rfl) _

theorem moneyOnly_accountAuth (o : AccountAuthOperation) : Always MoneyOnly (accountAuthEvaluator o) := by
  refine always_bind (always_getIn _) fun _ => always_bind always_headBlockTime fun now => ?_
  refine always_bind (always_findIn _) fun found => ?_
  cases found with
  | none => exact always_bind (always_within (fun _ _ => rfl) _) fun _ => always_pure _
  | some a => exact always_within (fun _ _ => rfl) _

theorem moneyOnly_transfer (node : Node) (o : TransferOperation) :
    Always MoneyOnly (transferEvaluator node o) := by
  refine always_bind (always_getIn _) fun from_ => always_bind (always_getIn _) fun to_ => ?_
  refine always_bind (always_requireBalance _ _ _) fun _ => ?_
  refine always_bind (always_requireNotBanned _ _ _) fun _ => always_bind (always_checked _) fun delta => ?_
  exact always_bind (moneyOnly_adjustBalance _ _) fun _ => moneyOnly_adjustBalance _ _

theorem moneyOnly_transferSavings (node : Node) (o : TransferSavingsOperation) :
    Always MoneyOnly (transferSavingsEvaluator node o) := by
  refine always_bind (always_getIn _) fun from_ => always_bind (always_getIn _) fun to_ => ?_
  refine always_bind (always_requireBalance _ _ _) fun _ => always_bind always_headBlockTime fun now => ?_
  refine always_bind (always_assert _ _) fun _ => always_bind (always_requireNotBanned _ _ _) fun _ => ?_
  refine always_bind (always_checked _) fun delta => always_bind (moneyOnly_adjustBalance _ _) fun _ => ?_
  refine always_bind (moneyOnly_adjustSavingsBalance _ _) fun _ => ?_
  exact always_bind (always_within (fun _ _ => rfl) _) fun _ => always_pure _

theorem moneyOnly_endSavings (id : Nat) (w : SavingsWithdrawObject) (receiver : AccountName) :
    Always MoneyOnly (endSavings id w receiver) := by
  refine always_bind (always_getIn _) fun to_ => always_bind (always_assert _ _) fun _ => ?_
  refine always_bind (always_getIn _) fun account => always_bind (moneyOnly_adjustBalance _ _) fun _ => ?_
  refine always_bind (always_checked _) fun delta => always_bind (moneyOnly_adjustSavingsBalance _ _) fun _ => ?_
  exact always_within (fun _ _ => rfl) _

theorem moneyOnly_cancelTransferSavings (o : CancelTransferSavingsOperation) :
    Always MoneyOnly (cancelTransferSavingsEvaluator o) := by
  refine always_bind (always_getIn _) fun w => always_bind (always_assert _ _) fun _ => ?_
  refine always_bind (always_checked _) fun covered => always_bind (always_assert _ _) fun _ => ?_
  exact moneyOnly_endSavings _ _ _

theorem moneyOnly_conclusionTransferSavings (o : ConclusionTransferSavingsOperation) :
    Always MoneyOnly (conclusionTransferSavingsEvaluator o) := by
  refine always_bind (always_getIn _) fun w => always_bind (always_assert _ _) fun _ => ?_
  exact moneyOnly_endSavings _ _ _

theorem moneyOnly_stakingFund (fa : FundArithmetic) (o : StakingFundOperation) :
    Always MoneyOnly (stakingFundEvaluator fa o) := by
  refine always_bind (always_getIn _) fun from_ => always_bind (always_requireBalance _ _ _) fun _ => ?_
  refine always_bind (always_getIn _) fun fund => always_bind (always_assert _ _) fun _ => ?_
  refine always_bind (always_checked _) fun delta => always_bind (moneyOnly_adjustBalance _ _) fun _ => ?_
  refine always_bind (moneyOnly_adjustFundBalance _ _) fun _ => always_bind always_headBlockTime fun now => ?_
  refine always_bind (always_checked _) fun due => ?_
  refine always_bind (moneyOnly_adjustFundWithdrawBalance _ _) fun _ => ?_
  exact always_bind (always_within (fun _ _ => rfl) _) fun _ => always_pure _

theorem moneyOnly_endStaking (owner : AccountName) (fundName : Bytes) (requestId : Nat) :
    Always MoneyOnly (endStaking owner fundName requestId) := by
  refine always_bind (always_getIn _) fun w => always_bind (always_getIn _) fun fund => ?_
  refine always_bind (always_assert _ _) fun _ => always_bind (always_getIn _) fun account => ?_
  refine always_bind (moneyOnly_adjustBalance _ _) fun _ => always_bind (always_checked _) fun delta => ?_
  refine always_bind (moneyOnly_adjustFundBalance _ _) fun _ => ?_
  exact always_bind (moneyOnly_adjustFundWithdrawBalance _ _) fun _ => always_within (fun _ _ => rfl) _

theorem moneyOnly_transferFund (o : TransferFundOperation) : Always MoneyOnly (transferFundEvaluator o) := by
  refine always_bind (always_getIn _) fun from_ => always_bind (always_requireBalance _ _ _) fun _ => ?_
  refine always_bind (moneyOnly_adjustFundBalance _ _) fun _ => ?_
  exact always_bind (always_checked _) fun delta => moneyOnly_adjustBalance _ _

/-! ## Routines that pay -/

theorem moneyOnly_clearNullAccountBalance : Always MoneyOnly clearNullAccountBalance := by
  have htake : ∀ null total, Always MoneyOnly (takeNullBalance null total) := by
    intro null total
    unfold takeNullBalance
    split
    · refine always_bind (always_checked _) fun _ => always_bind (always_checked _) fun _ => ?_
      exact always_bind (moneyOnly_adjustBalance _ _) fun _ => always_pure _
    · exact always_pure _
  have hsavings : ∀ null total, Always MoneyOnly (takeNullSavings null total) := by
    intro null total
    unfold takeNullSavings
    split
    · refine always_bind (always_checked _) fun _ => always_bind (always_checked _) fun _ => ?_
      exact always_bind (moneyOnly_adjustSavingsBalance _ _) fun _ => always_pure _
    · exact always_pure _
  refine always_bind (always_getIn _) fun null => always_bind (htake _ _) fun total => ?_
  refine always_bind (hsavings _ _) fun total => ?_
  split
  · exact always_bind (always_checked _) fun _ => moneyOnly_adjustSupply _
  · exact always_pure _

theorem moneyOnly_processFunds : Always MoneyOnly processFunds := by
  refine always_bind always_get fun s => always_bind (always_getIn _) fun bobserver => ?_
  refine always_bind (always_getIn _) fun account => always_bind always_get fun s => ?_
  dsimp only
  split
  · refine always_bind (always_checked _) fun delta => ?_
    exact always_bind (moneyOnly_adjustDappRewardFundBalance _) fun _ => moneyOnly_adjustBalance _ _
  · exact always_pure _

theorem moneyOnly_paySavings (account : Nat × AccountObject) (amount : Int) :
    Always MoneyOnly (paySavings account amount) := by
  refine always_bind (always_assert _ _) fun _ => always_bind (moneyOnly_adjustBalance _ _) fun _ => ?_
  exact always_bind (always_checked _) fun delta => moneyOnly_adjustSavingsBalance _ _

theorem readOnly_firstSavingsWithdraw : ReadOnly firstSavingsWithdraw :=
  readOnly_get.bind fun _ => readOnly_pure _

theorem moneyOnly_payFinal (id : Nat) (w : SavingsWithdrawObject) : Always MoneyOnly (payFinal id w) := by
  refine always_bind (always_getIn _) fun to_ => always_bind (moneyOnly_paySavings _ _) fun _ => ?_
  exact always_bind (always_within (fun _ _ => rfl) _) fun _ => readOnly_firstSavingsWithdraw.always

theorem moneyOnly_payInstalment (id : Nat) (w : SavingsWithdrawObject) : Always MoneyOnly (payInstalment id w) := by
  refine always_bind (always_getIn _) fun to_ => always_bind (always_checked _) fun monthly => ?_
  refine always_bind (moneyOnly_paySavings _ _) fun _ => always_bind (always_within (fun _ _ => rfl) _) fun _ => ?_
  refine always_bind readOnly_firstSavingsWithdraw.always fun next => always_bind (always_checked _) fun rest => ?_
  exact always_bind (always_within (fun _ _ => rfl) _) fun _ => always_pure _

theorem moneyOnly_processSavingsWithdraw (id : Nat) : Always MoneyOnly (processSavingsWithdraw id) := by
  refine always_bind always_get fun s => always_bind (always_ofOption _ _) fun w => ?_
  split
  · exact always_pure _
  · split
    · exact moneyOnly_payFinal id w
    · exact moneyOnly_payInstalment id w

theorem moneyOnly_processSavingsWithdraws : Always MoneyOnly processSavingsWithdraws := by
  refine always_bind always_get fun s => always_bind readOnly_firstSavingsWithdraw.always fun first => ?_
  exact always_follow moneyOnly_processSavingsWithdraw _ _

theorem moneyOnly_payFundWithdraw (id : Nat) (w : FundWithdrawObject) :
    Always MoneyOnly (payFundWithdraw id w) := by
  refine always_bind (always_getIn _) fun account => always_bind (moneyOnly_adjustBalance _ _) fun _ => ?_
  refine always_bind (always_checked _) fun delta => always_bind (moneyOnly_adjustFundBalance _ _) fun _ => ?_
  exact always_bind (moneyOnly_adjustFundWithdrawBalance _ _) fun _ => always_within (fun _ _ => rfl) _

theorem moneyOnly_processFundWithdraws : Always MoneyOnly processFundWithdraws := by
  refine always_bind always_get fun s => always_loop (always_bind always_get fun s => ?_) _
  split
  · exact always_pure _
  · split
    · exact always_pure _
    · refine always_bind (always_getIn _) fun fund => ?_
      split
      · exact always_pure _
      · exact always_bind (moneyOnly_payFundWithdraw _ _) fun _ => always_pure _

/-! ## Accounts and authorities -/

theorem accountsOnly_accountCreate (o : AccountCreateOperation) :
    Always AccountsOnly (accountCreateEvaluator o) := by
  refine always_bind (always_getAccounts _) fun _ => always_bind (always_getAccounts _) fun _ => ?_
  refine always_bind (always_getAccounts _) fun _ => always_bind always_headBlockTime fun now => ?_
  refine always_bind (always_within (fun _ _ => rfl) _) fun _ => ?_
  exact always_bind (always_within (fun _ _ => rfl) _) fun _ => always_pure _

theorem accountsOnly_updateOwnerAuthority (account : AccountName) (owner : Authority) :
    Always AccountsOnly (updateOwnerAuthority account owner) := by
  refine always_bind always_headBlockTime fun now => always_bind (always_getIn _) fun old => ?_
  exact always_bind (always_within (fun _ _ => rfl) _) fun _ => always_within (fun _ _ => rfl) _

theorem accountsOnly_updateOwner (account : AccountName) (auth : AccountAuthorityObject) (owner : Option Authority) :
    Always AccountsOnly (updateOwner account auth owner) := by
  cases owner with
  | none => exact always_pure _
  | some owner =>
    refine always_bind always_headBlockTime fun now => always_bind (always_assert _ _) fun _ => ?_
    exact always_bind (always_getAccounts _) fun _ => accountsOnly_updateOwnerAuthority _ _

theorem accountsOnly_accountUpdate (o : AccountUpdateOperation) :
    Always AccountsOnly (accountUpdateEvaluator o) := by
  refine always_bind (always_bind always_get fun _ => always_pure _) fun forked => ?_
  refine always_bind (always_assert _ _) fun _ => always_bind (always_checked _) fun _ => ?_
  refine always_bind (always_getIn _) fun account => always_bind (always_getIn _) fun auth => ?_
  refine always_bind (accountsOnly_updateOwner _ _ _) fun _ => ?_
  refine always_bind (always_checkOptionalAuthority _) fun _ => ?_
  refine always_bind (always_checkOptionalAuthority _) fun _ => ?_
  refine always_bind always_headBlockTime fun now => ?_
  refine always_bind (always_within (fun _ _ => rfl) _) fun _ => ?_
  split
  · exact always_within (fun _ _ => rfl) _
  · exact always_pure _

theorem accountsOnly_requestAccountRecovery (o : RequestAccountRecoveryOperation) :
    Always AccountsOnly (requestAccountRecoveryEvaluator o) := by
  refine always_bind (always_getIn _) fun account => ?_
  refine always_bind (always_checkRecoveryPartner _ _) fun _ => always_bind always_get fun s => ?_
  refine always_bind (always_findIn _) fun found => ?_
  cases found with
  | none =>
    refine always_bind (always_assert _ _) fun _ => always_bind (always_assert _ _) fun _ => ?_
    refine always_bind (always_getAccounts _) fun _ => ?_
    exact always_bind (always_within (fun _ _ => rfl) _) fun _ => always_pure _
  | some r =>
    dsimp only
    split
    · exact always_within (fun _ _ => rfl) _
    · refine always_bind ?_ fun _ => always_within (fun _ _ => rfl) _
      exact always_bind (always_assert _ _) fun _ => always_getAccounts _

theorem accountsOnly_recoverAccount (o : RecoverAccountOperation) :
    Always AccountsOnly (recoverAccountEvaluator o) := by
  refine always_bind (always_getIn _) fun account => always_bind always_headBlockTime fun now => ?_
  refine always_bind (always_assert _ _) fun _ => always_bind (always_findIn _) fun found => ?_
  cases found with
  | none => exact always_throw _
  | some r =>
    refine always_bind (always_assert _ _) fun _ => always_bind always_get fun s => ?_
    refine always_bind (always_assert _ _) fun _ => always_bind (always_within (fun _ _ => rfl) _) fun _ => ?_
    exact always_bind (accountsOnly_updateOwnerAuthority _ _) fun _ => always_within (fun _ _ => rfl) _

theorem accountsOnly_changeRecoveryAccount (o : ChangeRecoveryAccountOperation) :
    Always AccountsOnly (changeRecoveryAccountEvaluator o) := by
  refine always_bind (always_getIn _) fun _ => always_bind (always_getIn _) fun account => ?_
  refine always_bind always_headBlockTime fun now => always_bind (always_findIn _) fun found => ?_
  cases found with
  | none => exact always_bind (always_within (fun _ _ => rfl) _) fun _ => always_pure _
  | some r =>
    dsimp only
    split
    · exact always_within (fun _ _ => rfl) _
    · exact always_within (fun _ _ => rfl) _

theorem accountsOnly_accountRecoveryProcessing : Always AccountsOnly accountRecoveryProcessing := by
  refine always_bind always_get fun s => always_bind (always_loop ?_ _) fun _ =>
    always_bind (always_loop ?_ _) fun _ => always_loop ?_ _
  · refine always_bind always_get fun s => ?_
    split
    · exact always_pure _
    · split
      · exact always_bind (always_within (fun _ _ => rfl) _) fun _ => always_pure _
      · exact always_pure _
  · refine always_bind always_get fun s => ?_
    split
    · exact always_pure _
    · split
      · exact always_bind (always_within (fun _ _ => rfl) _) fun _ => always_pure _
      · exact always_pure _
  · refine always_bind always_get fun s => ?_
    split
    · exact always_pure _
    · split
      · refine always_bind (always_getIn _) fun account => ?_
        refine always_bind (always_within (fun _ _ => rfl) _) fun _ => ?_
        exact always_bind (always_within (fun _ _ => rfl) _) fun _ => always_pure _
      · exact always_pure _

/-! ## Bobservers -/

section Bobservers

variable {R : Core → Core → Prop} [Std.Refl R] [IsTrans Core R]
  (hR : ∀ (t : Table BobserverObject) (n : Nat) (s : Core),
    R s { s with bobservers := t, dgp := { s.dgp with currentBproducerCount := n } })

include hR

theorem always_bobserverUpdate (o : BobserverUpdateOperation) : Always R (bobserverUpdateEvaluator o) := by
  have hwrite : ∀ {α : Type} (m : Prog Error (Table BobserverObject) α), Always R (within Index.bobservers m) :=
    fun m => always_within (fun t s => hR t s.dgp.currentBproducerCount s) m
  refine always_bind (always_requireRoot _ _) fun _ => always_bind (always_getIn _) fun _ => ?_
  refine always_bind (always_assert _ _) fun _ => always_bind (always_findIn _) fun found => ?_
  cases found with
  | none =>
    refine always_bind always_headBlockTime fun now => ?_
    exact always_bind (hwrite _) fun _ => always_pure _
  | some b => exact hwrite _

theorem always_updateBproducer (o : UpdateBproducerOperation) : Always R (updateBproducerEvaluator o) := by
  refine always_bind (always_requireRoot _ _) fun _ => always_bind (always_getIn _) fun b => ?_
  refine always_bind (always_assert _ _) fun _ => always_bind always_get fun s => ?_
  refine always_bind (always_assert _ _) fun _ => ?_
  split
  · exact always_pure _
  · refine always_bind (always_within (fun t s => hR t s.dgp.currentBproducerCount s) _) fun _ => ?_
    exact fun s => hR s.bobservers _ s

theorem always_exceptBobserver (o : ExceptBobserverOperation) : Always R (exceptBobserverEvaluator o) := by
  refine always_bind (always_requireRoot _ _) fun _ => always_bind (always_getIn _) fun b => ?_
  refine always_bind (always_assert _ _) fun _ => ?_
  exact always_within (fun t s => hR t s.dgp.currentBproducerCount s) _

end Bobservers

theorem stays_bobserverUpdate (o : BobserverUpdateOperation) : Always Stays (bobserverUpdateEvaluator o) :=
  always_bobserverUpdate (fun _ _ _ => rfl) o

theorem stays_updateBproducer (o : UpdateBproducerOperation) : Always Stays (updateBproducerEvaluator o) :=
  always_updateBproducer (fun _ _ _ => rfl) o

theorem stays_exceptBobserver (o : ExceptBobserverOperation) : Always Stays (exceptBobserverEvaluator o) :=
  always_exceptBobserver (fun _ _ _ => rfl) o

/-! ## Plugins

Plugin code reaches the core to read, to charge the fee and to stamp an author; everything else it writes is
its own. -/

section Plugins

variable {α : Type} {R : Database → Database → Prop} [Std.Refl R]

theorem always_readCore {m : CoreM α} (h : ReadOnly m) : Always R (onCore m) :=
  (readOnly_within (l := corePart) h).always

theorem always_requireBproducer (voter : AccountName) : Always R (onCore (Dapp.requireBproducer voter)) :=
  always_readCore ((readOnly_findIn _).bind fun _ => readOnly_assert _ _)

variable [IsTrans Database R]

theorem always_withDappFee (hpay : ∀ fee, Always R (onCore (payDappFee fee))) {payer : AccountName}
    {m : ChainM Unit} (h : Always R m) : Always R (withDappFee payer m) := by
  have hcheck : ReadOnly (checkDappFee payer) :=
    readOnly_get.bind fun _ => (readOnly_getIn _).bind fun _ => (readOnly_assert _ _).bind fun _ => readOnly_pure _
  exact always_bind (always_readCore hcheck) fun fee => always_bind h fun _ => hpay fee

/-- **Dapp operations** keep what writes to the plugin's own indices, payments of the fee, stamps and the votes on the
fee keep. -/
theorem always_dappEvaluator_of (fc : TextRules) (hpay : ∀ fee, Always R (onCore (payDappFee fee)))
    (htouch : ∀ author isRoot now, Always R (onCore (Dapp.touchPost author isRoot now)))
    (hdapp : ∀ {β : Type} (m : Dapp.DappM β), Always R (onDapp m)) {op : Dapp.DappOperation}
    (hvotes : ∀ o, op = .voteDappTrxFee o → Always R (Dapp.voteDappTrxFeeEvaluator o)) :
    Always R (Dapp.dappEvaluator fc op) := by
  have hassert : ∀ c text, Always R (fcAssert c text : ChainM Unit) :=
    fun c text => (readOnly_assert c (Error.assertion text)).always
  have hoption : ∀ {β : Type} (o : Option β) (e : Error), Always R (ofOption o e : ChainM β) :=
    fun o e => (readOnly_ofOption o e).always
  have hnow : Always R (onCore headBlockTime) := always_readCore (readOnly_get.bind fun _ => readOnly_pure _)
  have hfind : ∀ p, Always R (onCore (findIn Index.accounts p)) := fun p => always_readCore (readOnly_findIn p)
  have hget : ∀ name, Always R (onCore (getAccount name)) := fun _ => always_readCore (readOnly_getIn _)
  cases op with
  | createDapp op =>
    refine always_bind hnow fun now => always_bind (hfind _) fun owner => ?_
    exact always_bind (hoption _ _) fun owner => always_bind (hoption _ _) fun key => hdapp _
  | updateDappKey op =>
    refine always_bind (hdapp _) fun dapp => always_bind (hassert _ _) fun _ => ?_
    exact always_withDappFee hpay (always_bind (hoption _ _) fun key => hdapp _)
  | commentDapp op =>
    refine always_bind (hdapp _) fun dapp => always_bind (hdapp _) fun _ => ?_
    refine always_bind (hdapp _) fun _ => always_withDappFee hpay ?_
    refine always_bind (hassert _ _) fun _ => always_bind (hdapp _) fun existing => ?_
    refine always_bind (hget _) fun author => always_bind (hdapp _) fun parent => ?_
    refine always_bind (hassert _ _) fun _ => always_bind hnow fun now => ?_
    cases existing with
    | none => exact always_bind (hdapp _) fun _ => always_bind (htouch _ _ _) fun _ => hdapp _
    | some c => exact hdapp _
  | commentVoteDapp op =>
    refine always_bind (hdapp _) fun dapp => always_bind (hdapp _) fun _ => always_withDappFee hpay ?_
    refine always_bind (hdapp _) fun comment => always_bind (hget _) fun voter => ?_
    refine always_bind hnow fun now => always_bind (hassert _ _) fun _ => ?_
    exact always_bind (hoption _ _) fun type => hdapp _
  | deleteCommentDapp op =>
    refine always_bind (hdapp _) fun found => always_bind (hoption _ _) fun comment => ?_
    refine always_bind (hassert _ _) fun _ => always_bind (hdapp _) fun dapp => always_withDappFee hpay ?_
    exact always_bind hnow fun now => hdapp _
  | joinDapp op =>
    refine always_bind hnow fun now => always_bind (hfind _) fun account => ?_
    refine always_bind (hoption _ _) fun account => always_bind (hdapp _) fun dapp => ?_
    exact always_bind (hdapp _) fun _ => always_withDappFee hpay (hdapp _)
  | leaveDapp op =>
    refine always_bind (hfind _) fun account => always_bind (hassert _ _) fun _ => ?_
    exact always_bind (hdapp _) fun dapp => always_withDappFee hpay (hdapp _)
  | voteDapp op =>
    refine always_bind (always_requireBproducer _) fun _ => always_bind hnow fun now => ?_
    exact always_bind (hoption _ _) fun vote => hdapp _
  | voteDappTrxFee op => exact hvotes op rfl

/-- Where the whole index of votes may change. -/
theorem always_dappEvaluator (fc : TextRules) (hpay : ∀ fee, Always R (onCore (payDappFee fee)))
    (htouch : ∀ author isRoot now, Always R (onCore (Dapp.touchPost author isRoot now)))
    (hdapp : ∀ {β : Type} (m : Dapp.DappM β), Always R (onDapp m))
    (hvotes : ∀ {β : Type} (m : Prog Error (Table Dapp.DappTrxFeeVoteObject) β), Always R (within feeVotePart m))
    (op : Dapp.DappOperation) : Always R (Dapp.dappEvaluator fc op) := by
  refine always_dappEvaluator_of fc hpay htouch hdapp fun o _ => ?_
  refine always_bind (always_requireBproducer _) fun _ => ?_
  refine always_bind (always_readCore (readOnly_get.bind fun _ => readOnly_pure _)) fun now => ?_
  refine always_bind (readOnly_findIn _).always fun found => ?_
  cases found with
  | none => exact always_bind (hvotes _) fun _ => always_pure _
  | some v => exact hvotes _

omit [Std.Refl R] [IsTrans Database R] in
theorem readOnly_requireDapp (name : DappName) (text : String) :
    ReadOnly (onDapp (Dapp.requireDapp name text)) :=
  readOnly_within ((readOnly_findIn _).bind fun _ => readOnly_ofOption _ _)

omit [Std.Refl R] [IsTrans Database R] in
theorem readOnly_requireApproved (dapp : Dapp.DappObject) : ReadOnly (onDapp (Dapp.requireApproved dapp)) :=
  readOnly_within (readOnly_assert _ _)

/-- **Token operations** keep what writes to the plugin's own indices and payments of the fee keep. -/
theorem always_tokenEvaluator (interest : Token.TokenInterest)
    (hpay : ∀ fee, Always R (onCore (payDappFee fee)))
    (htoken : ∀ {β : Type} (m : Token.TokenM β), Always R (onToken m)) (op : Token.TokenOperation) :
    Always R (Token.tokenEvaluator interest op) := by
  have hassert : ∀ c text, Always R (fcAssert c text : ChainM Unit) :=
    fun c text => (readOnly_assert c (Error.assertion text)).always
  have hview : ∀ {payer : AccountName} (m : Token.CoreView → Token.TokenM Unit),
      Always R (withDappFee payer (Token.withView m)) := fun m =>
    always_withDappFee hpay (always_bind readOnly_get.always fun _ => htoken _)
  have hdapp : ∀ name text, Always R (onDapp (Dapp.requireDapp name text)) :=
    fun name text => (readOnly_requireDapp name text).always
  cases op with
  | createToken op =>
    refine always_bind (hdapp _ _) fun dapp => always_bind (hassert _ _) fun _ => ?_
    exact always_bind (hassert _ _) fun _ => always_bind (readOnly_requireApproved _).always fun _ => hview _
  | issueToken op =>
    refine always_bind (htoken _) fun token => always_bind (hdapp _ _) fun dapp => ?_
    exact always_bind (hassert _ _) fun _ => always_bind (hassert _ _) fun _ => hview _
  | transferToken op => exact always_bind (htoken _) fun token => hview _
  | burnToken op =>
    refine always_bind (htoken _) fun token => always_bind (hdapp _ _) fun dapp => ?_
    exact always_bind (hassert _ _) fun _ => hview _
  | setupTokenFund op =>
    refine always_bind (htoken _) fun token => always_bind (hassert _ _) fun _ => ?_
    exact always_bind (hassert _ _) fun _ => hview _
  | setTokenStakingInterest op =>
    refine always_bind (htoken _) fun token => always_bind (hassert _ _) fun _ => ?_
    refine always_withDappFee hpay (always_bind (readOnly_checked _).always fun rate => ?_)
    exact always_bind readOnly_get.always fun _ => htoken _
  | transferTokenFund op =>
    exact always_bind (htoken _) fun token => always_bind (hassert _ _) fun _ => hview _
  | stakingTokenFund op => exact always_bind (htoken _) fun token => hview _
  | transferTokenSavings op => exact always_bind (htoken _) fun token => hview _
  | cancelTransferTokenSavings op => exact always_bind (htoken _) fun token => hview _
  | concludeTransferTokenSavings op => exact always_bind (htoken _) fun token => hview _

theorem always_applyOperations {ω : Type} {validate : ω → List Check}
    {required : RequiredAuthorities → ω → RequiredAuthorities} {evaluate : ω → ChainM Unit} {ops : List ω}
    {outer : RequiredAuthorities} (h : ∀ op, Always R (evaluate op)) :
    Always R (applyOperations validate required evaluate ops outer) := by
  have hassert : ∀ c text, Always R (fcAssert c text : ChainM Unit) :=
    fun c text => (readOnly_assert c (Error.assertion text)).always
  refine always_atomically (Always.runs ?_)
  refine always_bind (readOnly_each (fun _ => readOnly_checked _) _).always fun _ => ?_
  refine always_bind (hassert _ _) fun _ => always_bind (hassert _ _) fun _ => ?_
  exact always_bind (hassert _ _) fun _ => always_bind (hassert _ _) fun _ => always_each h ops

/-- Custom operations keep what the operations inside them keep. -/
theorem always_customPayload {env : Env} {node : Node} {op : Operation} {id : Bytes} {payload : Payload}
    {size : Nat} {text : String} (hdapp : ∀ op, Always R (Dapp.dappEvaluator env.fc op))
    (htoken : ∀ op, Always R (Token.tokenEvaluator env.tokenInterest op)) :
    Always R (customPayloadEvaluator env node op id payload size text) := by
  have hinterpret : ∀ outer, Always R (interpret env id payload outer) := by
    intro outer
    unfold interpret
    split
    · exact always_bind (readOnly_ofOption _ _).always fun ops => always_applyOperations hdapp
    · split
      · exact always_bind (readOnly_ofOption _ _).always fun ops => always_applyOperations htoken
      · exact always_pure _
  refine always_bind (readOnly_assert _ _).always fun _ => ?_
  dsimp only
  split
  · exact hinterpret _
  · exact always_attempt (hinterpret _)

end Plugins

/-! ## The whole state -/

section Whole

variable {α : Type} {R : Core → Core → Prop}

/-- `R` holds between the cores of two states. -/
def CoreRel (R : Core → Core → Prop) (d d' : Database) : Prop := R d.core d'.core

instance [Std.Refl R] : Std.Refl (CoreRel R) := ⟨fun d => Std.Refl.refl d.core⟩

instance [IsTrans Core R] : IsTrans Database (CoreRel R) :=
  ⟨fun _ _ _ h h' => IsTrans.trans (r := R) _ _ _ h h'⟩

theorem coreRel_onCore {m : CoreM α} (h : Always R m) : Always (CoreRel R) (onCore m) := by
  intro d
  unfold CoreRel onCore
  rw [after_within]
  exact h d.core

theorem coreRel_onDapp [Std.Refl R] (m : Dapp.DappM α) : Always (CoreRel R) (onDapp m) :=
  always_within (fun _ s => Std.Refl.refl s.core) m

theorem coreRel_onToken [Std.Refl R] (m : Token.TokenM α) : Always (CoreRel R) (onToken m) :=
  always_within (fun _ s => Std.Refl.refl s.core) m

theorem moneyOnly_payDappFee (fee : Nat × Int) : Always MoneyOnly (payDappFee fee) := by
  refine always_bind (always_checked _) fun delta => ?_
  exact always_bind (moneyOnly_adjustBalance _ _) fun _ => moneyOnly_adjustDappRewardFundBalance _

theorem moneyOnly_touchPost (author : Nat × AccountObject) (isRoot : Bool) (now : TimePointSec) :
    Always MoneyOnly (Dapp.touchPost author isRoot now) := by
  refine always_bind (always_assert _ _) fun _ => always_bind (always_assert _ _) fun _ => ?_
  exact moneyOnly_account fun a b h => by cases h; exact ⟨rfl, rfl⟩

/-- **The handlers after a block** change nothing of the core but money. -/
theorem moneyOnly_notifyAppliedBlock (env : Env) : Always (CoreRel MoneyOnly) (notifyAppliedBlock env) := by
  refine always_attempt (always_each (fun p => ?_) _)
  cases p with
  | dapp =>
    refine always_bind readOnly_get.always fun d => ?_
    dsimp only
    split
    · refine always_bind (coreRel_onDapp _) fun _ => always_bind ?_ fun _ => ?_
      · exact Dapp.always_aggregateTrxFeeVote (fun _ _ => rfl) _
      · exact coreRel_onCore fun _ => rfl
    · exact always_pure _
  | token =>
    refine always_bind (always_bind readOnly_get.always fun _ => coreRel_onToken _) fun _ => ?_
    exact always_bind readOnly_get.always fun _ => coreRel_onToken _

/-- The per-block routines, given what the recovery of accounts does. -/
theorem always_postProcess [IsTrans Core R] (hmoney : ∀ s s', MoneyOnly s s' → R s s')
    (hrecovery : Always R accountRecoveryProcessing) : Always R postProcess := by
  refine always_bind (moneyOnly_clearNullAccountBalance.mono hmoney) fun _ => ?_
  refine always_bind (moneyOnly_processFunds.mono hmoney) fun _ => ?_
  refine always_bind (moneyOnly_processSavingsWithdraws.mono hmoney) fun _ => ?_
  exact always_bind (moneyOnly_processFundWithdraws.mono hmoney) fun _ => hrecovery

theorem accountsOnly_postProcess : Always AccountsOnly postProcess :=
  always_postProcess (fun _ _ h => h.accountsOnly) accountsOnly_accountRecoveryProcessing

/-- `R` holds across payments and across each evaluator that does more than pay. -/
structure OperationFrame (R : Core → Core → Prop) : Prop where
  money : ∀ s s', MoneyOnly s s' → R s s'
  accountCreate : ∀ o, Always R (accountCreateEvaluator o)
  accountUpdate : ∀ o, Always R (accountUpdateEvaluator o)
  requestAccountRecovery : ∀ o, Always R (requestAccountRecoveryEvaluator o)
  recoverAccount : ∀ o, Always R (recoverAccountEvaluator o)
  changeRecoveryAccount : ∀ o, Always R (changeRecoveryAccountEvaluator o)
  bobserverUpdate : ∀ o, Always R (bobserverUpdateEvaluator o)
  updateBproducer : ∀ o, Always R (updateBproducerEvaluator o)
  exceptBobserver : ∀ o, Always R (exceptBobserverEvaluator o)

/-- A relation that says nothing about accounts only has to look at the operations on bobservers. -/
theorem OperationFrame.ofAccountsOnly (haccounts : ∀ s s', AccountsOnly s s' → R s s')
    (hupdate : ∀ o, Always R (bobserverUpdateEvaluator o))
    (hproducer : ∀ o, Always R (updateBproducerEvaluator o))
    (hexcept : ∀ o, Always R (exceptBobserverEvaluator o)) : OperationFrame R where
  money _ _ h := haccounts _ _ h.accountsOnly
  accountCreate o := (accountsOnly_accountCreate o).mono haccounts
  accountUpdate o := (accountsOnly_accountUpdate o).mono haccounts
  requestAccountRecovery o := (accountsOnly_requestAccountRecovery o).mono haccounts
  recoverAccount o := (accountsOnly_recoverAccount o).mono haccounts
  changeRecoveryAccount o := (accountsOnly_changeRecoveryAccount o).mono haccounts
  bobserverUpdate := hupdate
  updateBproducer := hproducer
  exceptBobserver := hexcept

/-- **One operation**: payments, and the evaluators that do more than pay. -/
theorem always_applyOperation_of [Std.Refl R] [IsTrans Core R] {op : Operation}
    (hmoney : ∀ s s', MoneyOnly s s' → R s s')
    (hcreate : ∀ o, op = .accountCreate o → Always R (accountCreateEvaluator o))
    (hupdate : ∀ o, op = .accountUpdate o → Always R (accountUpdateEvaluator o))
    (hrequest : ∀ o, op = .requestAccountRecovery o → Always R (requestAccountRecoveryEvaluator o))
    (hrecover : ∀ o, op = .recoverAccount o → Always R (recoverAccountEvaluator o))
    (hchange : ∀ o, op = .changeRecoveryAccount o → Always R (changeRecoveryAccountEvaluator o))
    (hbobserver : ∀ o, op = .bobserverUpdate o → Always R (bobserverUpdateEvaluator o))
    (hproducer : ∀ o, op = .updateBproducer o → Always R (updateBproducerEvaluator o))
    (hexcept : ∀ o, op = .exceptBobserver o → Always R (exceptBobserverEvaluator o)) (env : Env) (node : Node) :
    Always (CoreRel R) (applyOperation env node op) := by
  have hpay : ∀ fee, Always (CoreRel R) (onCore (payDappFee fee)) := fun fee =>
    coreRel_onCore ((moneyOnly_payDappFee fee).mono hmoney)
  have htouch : ∀ author isRoot now, Always (CoreRel R) (onCore (Dapp.touchPost author isRoot now)) :=
    fun author isRoot now => coreRel_onCore ((moneyOnly_touchPost author isRoot now).mono hmoney)
  have hdapp := always_dappEvaluator env.fc hpay htouch coreRel_onDapp
    (fun m => always_within (fun _ s => Std.Refl.refl s.core) m)
  have htoken := always_tokenEvaluator env.tokenInterest hpay coreRel_onToken
  have hpays : ∀ {m : CoreM Unit}, Always MoneyOnly m → Always (CoreRel R) (onCore m) :=
    fun h => coreRel_onCore (h.mono hmoney)
  cases op with
  | transfer o => exact hpays (moneyOnly_transfer node o)
  | accountCreate o => exact coreRel_onCore (hcreate o rfl)
  | accountUpdate o => exact coreRel_onCore (hupdate o rfl)
  | bobserverUpdate o => exact coreRel_onCore (hbobserver o rfl)
  | custom o => exact coreRel_onCore (always_assert _ _)
  | customJson o => exact always_customPayload hdapp htoken
  | requestAccountRecovery o => exact coreRel_onCore (hrequest o rfl)
  | recoverAccount o => exact coreRel_onCore (hrecover o rfl)
  | changeRecoveryAccount o => exact coreRel_onCore (hchange o rfl)
  | customBinary o => exact always_customPayload hdapp htoken
  | declineVotingRights o => exact hpays (moneyOnly_declineVotingRights o)
  | resetAccount o => exact always_throw _
  | setResetAccount o => exact always_throw _
  | updateBproducer o => exact coreRel_onCore (hproducer o rfl)
  | exceptBobserver o => exact coreRel_onCore (hexcept o rfl)
  | accountAuth o => exact hpays (moneyOnly_accountAuth o)
  | print o => exact hpays (moneyOnly_print o)
  | burn o => exact hpays (moneyOnly_burn o)
  | transferSavings o => exact hpays (moneyOnly_transferSavings node o)
  | cancelTransferSavings o => exact hpays (moneyOnly_cancelTransferSavings o)
  | conclusionTransferSavings o => exact hpays (moneyOnly_conclusionTransferSavings o)
  | stakingFund o => exact hpays (moneyOnly_stakingFund _ o)
  | conclusionStaking o =>
    exact hpays (always_bind (always_requireRoot _ _) fun _ => moneyOnly_endStaking _ _ _)
  | transferFund o => exact hpays (moneyOnly_transferFund o)
  | setFundInterest o => exact hpays (moneyOnly_setFundInterest _ o)
  | returnStakingFund o =>
    exact hpays (always_bind (always_requireRoot _ _) fun _ => moneyOnly_endStaking _ _ _)
  | customJsonDapp o => exact always_customPayload hdapp htoken
  | setBlacklistAccount o => exact hpays (moneyOnly_setBlacklistAccount o)
  | virtual => exact always_throw _

theorem always_applyOperation [Std.Refl R] [IsTrans Core R] (hR : OperationFrame R) (env : Env) (node : Node)
    (op : Operation) : Always (CoreRel R) (applyOperation env node op) :=
  always_applyOperation_of hR.money (fun o _ => hR.accountCreate o) (fun o _ => hR.accountUpdate o)
    (fun o _ => hR.requestAccountRecovery o) (fun o _ => hR.recoverAccount o)
    (fun o _ => hR.changeRecoveryAccount o) (fun o _ => hR.bobserverUpdate o)
    (fun o _ => hR.updateBproducer o) (fun o _ => hR.exceptBobserver o) env node

end Whole

/-! ## Bookkeeping of a block -/

/-- Who a bobserver is and what it last signed. -/
def BobserverObject.record (b : BobserverObject) : AccountName × Nat × Nat :=
  (b.account, b.lastAslot, b.lastConfirmedBlockNum)

section Bookkeeping

variable {R : Core → Core → Prop} [Std.Refl R] [IsTrans Core R]

/-- Admitting a transaction writes its record and nothing else. -/
theorem always_admitTransaction (hR : ∀ t s, R s { s with transactions := t }) (env : Env) (node : Node)
    (trx : SignedTransaction) : Always R (admitTransaction env node trx) := by
  have hsignatures : ReadOnly (checkSignatures env node trx) := by
    refine readOnly_get.bind fun s => ?_
    split
    · exact readOnly_pure _
    · exact (readOnly_checked _).bind fun _ => readOnly_checked _
  have hexpiration : ReadOnly (checkExpiration node trx) := by
    refine readOnly_get.bind fun s => ?_
    split
    · exact readOnly_pure _
    · exact (readOnly_assert _ _).bind fun _ => (readOnly_assert _ _).bind fun _ => readOnly_assert _ _
  refine always_bind (always_checked _) fun _ => always_bind always_get fun s => ?_
  refine always_bind (always_assert _ _) fun _ => always_bind hsignatures.always fun _ => ?_
  refine always_bind hexpiration.always fun _ => ?_
  unfold recordTransaction
  split
  · exact always_pure _
  · exact always_bind (always_within hR _) fun _ => always_pure _

/-- **One transaction.** -/
theorem always_applyTransaction (hR : OperationFrame R) (htrx : ∀ t s, R s { s with transactions := t })
    (env : Env) (node : Node) (trx : SignedTransaction) :
    Always (CoreRel R) (applyTransaction env node trx) :=
  always_bind (coreRel_onCore (always_admitTransaction htrx env node trx)) fun _ =>
    always_each (always_applyOperation hR env node) _

/-- `R` holds across a change of a bobserver that keeps its record and its role. -/
def KeepsStanding (R : Core → Core → Prop) : Prop :=
  ∀ (id : Nat) (f : BobserverObject → Except Error BobserverObject),
    (∀ a b, f a = .ok b → b.record = a.record ∧ b.isBproducer = a.isBproducer) →
      Always R (modifyIn Index.bobservers id f)

/-- `R` holds across a change of a bobserver that keeps its record, its role and whether it is excepted. -/
def KeepsRole (R : Core → Core → Prop) : Prop :=
  ∀ (id : Nat) (f : BobserverObject → Except Error BobserverObject),
    (∀ a b, f a = .ok b → b.record = a.record ∧ b.isBproducer = a.isBproducer ∧ b.isExcepted = a.isExcepted) →
      Always R (modifyIn Index.bobservers id f)

omit [Std.Refl R] [IsTrans Core R] in
theorem KeepsStanding.keepsRole (h : KeepsStanding R) : KeepsRole R := fun id f hf =>
  h id f fun a b hab => ⟨(hf a b hab).1, (hf a b hab).2.1⟩

variable (hR : KeepsRole R)

include hR

theorem always_processHeaderExtension (bobserver : AccountName) (e : HeaderExtension) :
    Always R (processHeaderExtension bobserver e) := by
  cases e with
  | void => exact always_pure _
  | version v =>
    refine always_bind (always_getIn _) fun b => ?_
    split
    · exact always_pure _
    · exact hR _ _ fun a b h => by cases h; exact ⟨rfl, rfl, rfl⟩
  | hardforkVersionVote v t =>
    refine always_bind (always_getIn _) fun b => ?_
    split
    · exact always_pure _
    · exact hR _ _ fun a b h => by cases h; exact ⟨rfl, rfl, rfl⟩

theorem always_countMissed (producer : AccountName) (missed : Nat) : Always R (countMissed producer missed) := by
  induction missed with
  | zero => exact always_pure _
  | succ n ih =>
    refine always_bind ih fun _ => always_bind always_get fun s => always_bind (always_getIn _) fun b => ?_
    split
    · exact always_pure _
    · exact hR _ _ fun a b h => by cases h; exact ⟨rfl, rfl, rfl⟩

theorem always_shutdownExcepted : Always R shutdownExcepted :=
  always_bind always_get fun _ => always_each (fun _ => hR _ _ fun a b h => by cases h; exact ⟨rfl, rfl, rfl⟩) _

end Bookkeeping

/-- Properties that shifting the window of slots leaves alone. -/
theorem shiftSlots_same (n : Nat) (p : DynamicGlobalPropertyObject) :
    (shiftSlots n p).lastIrreversibleBlockNum = p.lastIrreversibleBlockNum ∧
      (shiftSlots n p).currentBproducerCount = p.currentBproducerCount := by
  induction n with
  | zero => exact ⟨rfl, rfl⟩
  | succ n ih => exact ih

/-- No operation moves the chain. -/
theorem operationFrame_stays : OperationFrame Stays :=
  .ofAccountsOnly (fun _ _ h => h.stays) stays_bobserverUpdate stays_updateBproducer stays_exceptBobserver

end Sigmaengine
