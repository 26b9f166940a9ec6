import Sigmaengine.Ledger.Frames

/-!
# The chain refines the ledger

Every normal return of an evaluator or of a per-block routine is a sequence of ledger steps.  The two
predicates `Covered` and `Payable` are what `Care` asks of one operation in one state.
-/

namespace Sigmaengine

open Effect Table Finsupp Ledger

/-- What the code takes on trust about debits: a burn is within the balance, the instalments of a
schedule add up to at most its amount, and the interest of a stake does not turn it negative. -/
def Covered (fa : FundArithmetic) (s : Core) : Operation → Prop
  | .burn o => ∀ r ∈ s.accounts.find? (fun a => a.name == o.account), o.amount.amount ≤ r.2.balance
  | .transferSavings o =>
    ((o.splitPayMonth - o.splitPayOrder).toNat : ℤ) * o.amount.amount.tdiv o.splitPayMonth.toNat ≤
      o.amount.amount
  | .stakingFund o =>
    ∀ f ∈ s.commonFunds.find? (fun f => f.name == FixedString.ofBytes o.fundName),
      0 ≤ o.amount.amount +
        (fa.interest o.amount.amount (f.2.percentInterest o.usertype.toNat (o.month - 1).toNat)).toInt
  | _ => True

instance (fa : FundArithmetic) (s : Core) (op : Operation) : Decidable (Covered fa s op) :=
  match op with
  | .burn _ => inferInstanceAs (Decidable (∀ _ ∈ _, _))
  | .transferSavings _ => inferInstanceAs (Decidable (_ ≤ _))
  | .stakingFund _ => inferInstanceAs (Decidable (∀ _ ∈ _, _))
  | .transfer _ | .accountCreate _ | .accountUpdate _ | .bobserverUpdate _ | .custom _ | .customJson _
  | .requestAccountRecovery _ | .recoverAccount _ | .changeRecoveryAccount _ | .customBinary _
  | .declineVotingRights _ | .resetAccount _ | .setResetAccount _ | .updateBproducer _
  | .exceptBobserver _ | .accountAuth _ | .print _ | .cancelTransferSavings _
  | .conclusionTransferSavings _ | .conclusionStaking _ | .transferFund _ | .setFundInterest _
  | .returnStakingFund _ | .customJsonDapp _ | .setBlacklistAccount _ | .virtual => isTrue trivial

/-- A schedule with instalments has a number of months to divide by. -/
def Payable : Operation → Prop
  | .transferSavings o => o.splitPayMonth = 0 → o.splitPayOrder = 0
  | _ => True

instance (op : Operation) : Decidable (Payable op) :=
  match op with
  | .transferSavings _ => inferInstanceAs (Decidable (_ → _))
  | .transfer _ | .accountCreate _ | .accountUpdate _ | .bobserverUpdate _ | .custom _ | .customJson _
  | .requestAccountRecovery _ | .recoverAccount _ | .changeRecoveryAccount _ | .customBinary _
  | .declineVotingRights _ | .resetAccount _ | .setResetAccount _ | .updateBproducer _
  | .exceptBobserver _ | .accountAuth _ | .print _ | .burn _ | .cancelTransferSavings _
  | .conclusionTransferSavings _ | .stakingFund _ | .conclusionStaking _ | .transferFund _
  | .setFundInterest _ | .returnStakingFund _ | .customJsonDapp _ | .setBlacklistAccount _
  | .virtual => isTrue trivial

variable (care : Care) (votes : Set ℤ)

/-- The second state is reached from the first by ledger steps. -/
def Sim (s s' : Core) : Prop := Moves care nullAccount int64Max (s.ledger votes) (s'.ledger votes)

instance : Std.Refl (Sim care votes) := ⟨fun _ => Moves.refl _⟩

instance : IsTrans Core (Sim care votes) := ⟨fun _ _ _ => Moves.trans⟩

variable {care votes}

theorem Same.sim {s s' : Core} (h : Same s s') : Sim care votes s s' := by
  unfold Sim
  rw [h votes]
  exact Moves.refl _

theorem sim_of_same {α : Type} {m : CoreM α} (h : Runs Same m) : Runs (Sim care votes) m :=
  fun s a s' hm => (h s a s' hm).sim

/-- One step, up to an equation for the state it ends in. -/
theorem sim_of_step {s s' : Core} {L : Ledger AccountName CommonFundName}
    (h : Step care nullAccount int64Max (s.ledger votes) L) (heq : s'.ledger votes = L) :
    Sim care votes s s' := by
  unfold Sim
  rw [heq]
  exact h.moves

variable {s s' : Core} {u : Unit}

/-! ## What the guards say -/

theorem requireBalance_eq_ok {a : AccountObject} {amount : Asset} {text : String}
    (h : requireBalance a amount text s = .ok u s') :
    s' = s ∧ amount.symbol = sgtSymbol ∧ amount.amount ≤ a.balance := by
  simp only [requireBalance, bind_eq_ok, checked_eq_ok, fcAssert_eq_ok] at h
  obtain ⟨bal, _, ⟨hget, rfl⟩, enough, _, ⟨hge, rfl⟩, henough, rfl⟩ := h
  unfold getBalance at hget
  split at hget
  · cases hget
    refine ⟨rfl, ‹_›, ?_⟩
    unfold Asset.ge at hge
    split at hge
    · cases hge
      exact of_decide_eq_true henough
    · cases hge
  · cases hget

theorem neg_sgt_eq_ok {x : Int} {δ : Asset} (h : (sgt x).neg = .ok δ) :
    δ.amount = -x ∧ δ.symbol = sgtSymbol := Asset.neg_eq_ok h

theorem readOnly_requireNotBanned (node : Node) (a : AccountObject) (name : AccountName) :
    ReadOnly (requireNotBanned node a name) :=
  (readOnly_assert _ _).bind fun _ => readOnly_assert _ _

/-- The ledger of a state whose accounts were moved. -/
theorem ledger_accounts {db ds : AccountName →₀ ℤ} {t : Table AccountObject}
    (h : Moved db ds s.accounts t) :
    { s with accounts := t }.ledger votes =
      { s.ledger votes with
        balance := (s.ledger votes).balance + db
        savings := (s.ledger votes).savings + ds } := by
  simp only [Core.ledger, h.balance, h.savings, h.members]

/-! ## Supply -/

theorem sim_print {o : SupplyOperation} (hpos : 0 < o.amount.amount)
    (h : printEvaluator o s = .ok u s') : Sim care votes s s' := by
  simp only [printEvaluator, bind_eq_ok] at h
  obtain ⟨_, _, hroot, r, _, hget, _, _, hcredit, hsupply⟩ := h
  obtain rfl := (readOnly_requireRoot _ _).eq_of_ok hroot
  obtain ⟨rfl, hfound⟩ := getAccount_eq_ok hget
  obtain ⟨t, rfl, -, hmove⟩ := adjustBalance_eq_ok hcredit hfound.nameAt
  obtain ⟨n, hadd, rfl⟩ := adjustSupply_eq_ok hsupply
  refine sim_of_step (Step.print _ o.account _ hpos (le_of_safeAdd hpos hadd)) ?_
  simp only [Core.ledger, hmove.balance, hmove.savings, hmove.members, add_zero]

theorem sim_burn {fa : FundArithmetic} {o : SupplyOperation} (hpos : 0 < o.amount.amount)
    (hcov : care.covered → Covered fa s (.burn o)) (h : burnEvaluator o s = .ok u s') :
    Sim care votes s s' := by
  simp only [burnEvaluator, bind_eq_ok, checked_eq_ok] at h
  obtain ⟨_, _, hroot, r, _, hget, δ, _, ⟨hneg, rfl⟩, _, _, hdebit, hsupply⟩ := h
  obtain rfl := (readOnly_requireRoot _ _).eq_of_ok hroot
  have hfind := (getIn_eq_ok.mp hget).1
  obtain ⟨rfl, hfound⟩ := getAccount_eq_ok hget
  obtain ⟨hδ, -⟩ := Asset.neg_eq_ok hneg
  obtain ⟨t, rfl, -, hmove⟩ := adjustBalance_eq_ok hdebit hfound.nameAt
  obtain ⟨n, -, rfl⟩ := adjustSupply_eq_ok hsupply
  refine sim_of_step (Step.burn _ o.account _ hpos fun hc => ?_) ?_
  · exact (hcov hc r hfind).trans hfound.balance.ge
  · simp only [Core.ledger, hmove.balance, hmove.savings, hmove.members, hδ, single_neg, add_zero,
      ← sub_eq_add_neg]

theorem sim_transfer {node : Node} {o : TransferOperation} (hpos : 0 < o.amount.amount)
    (h : transferEvaluator node o s = .ok u s') : Sim care votes s s' := by
  simp only [transferEvaluator, bind_eq_ok, checked_eq_ok] at h
  obtain ⟨r, _, hget, q, _, hget', _, _, hreq, _, _, hban, δ, _, ⟨hneg, rfl⟩, _, _, hdebit, hcredit⟩ := h
  obtain ⟨rfl, hfrom⟩ := getAccount_eq_ok hget
  obtain ⟨rfl, hto⟩ := getAccount_eq_ok hget'
  obtain ⟨rfl, -, henough⟩ := requireBalance_eq_ok hreq
  obtain rfl := (readOnly_requireNotBanned _ _ _).eq_of_ok hban
  obtain ⟨hδ, -⟩ := Asset.neg_eq_ok hneg
  obtain ⟨t, rfl, -, hmove⟩ := adjustBalance_eq_ok hdebit hfrom.nameAt
  obtain ⟨t', rfl, -, hmove'⟩ := adjustBalance_eq_ok hcredit (hmove.nameAt _ _ hto.nameAt)
  refine sim_of_step (Step.transfer _ o.from_ o.to_ _ hpos (henough.trans hfrom.balance.ge)) ?_
  rw [ledger_accounts (hmove.trans hmove')]
  simp only [hδ, single_neg, add_zero, ← add_assoc, ← sub_eq_add_neg]

/-! ## Savings -/

theorem schedule_fits {w : SavingsWithdrawObject} (hpos : 0 ≤ w.totalAmount)
    (h : ((w.splitPayMonth - w.splitPayOrder).toNat : ℤ) * w.totalAmount.tdiv w.splitPayMonth.toNat ≤
      w.amount) : w.schedule.Fits :=
  ⟨Int.tdiv_nonneg hpos (Int.natCast_nonneg _), h⟩

theorem schedule_payable {w : SavingsWithdrawObject} (h : w.splitPayMonth = 0 → w.splitPayOrder = 0) :
    w.schedule.Payable := by
  intro hleft hmonths
  have hmonth : w.splitPayMonth = 0 := UInt8.toNat_inj.mp hmonths
  refine hleft ?_
  change (w.splitPayMonth - w.splitPayOrder).toNat = 0
  rw [h hmonth, hmonth]
  rfl

theorem sim_transferSavings {node : Node} {fa : FundArithmetic} {o : TransferSavingsOperation}
    (hpos : 0 < o.amount.amount) (hcov : care.covered → Covered fa s (.transferSavings o))
    (hpay : care.payable → Payable (.transferSavings o))
    (h : transferSavingsEvaluator node o s = .ok u s') : Sim care votes s s' := by
  simp only [transferSavingsEvaluator, bind_eq_ok, checked_eq_ok, fcAssert_eq_ok, createIn_eq_ok,
    pure_eq_ok] at h
  obtain ⟨r, _, hget, q, _, hget', _, _, hreq, now, _, hnow, _, _, ⟨-, rfl⟩, _, _, hban, δ, _,
    ⟨hneg, rfl⟩, _, _, hdebit, _, _, hsave, id, _, ⟨hc, -, rfl⟩, -, rfl⟩ := h
  obtain ⟨rfl, hfrom⟩ := getAccount_eq_ok hget
  obtain ⟨rfl, hto⟩ := getAccount_eq_ok hget'
  obtain ⟨rfl, -, henough⟩ := requireBalance_eq_ok hreq
  obtain rfl := readOnly_headBlockTime.eq_of_ok hnow
  obtain rfl := (readOnly_requireNotBanned _ _ _).eq_of_ok hban
  obtain ⟨hδ, -⟩ := Asset.neg_eq_ok hneg
  obtain ⟨t, rfl, -, hmove⟩ := adjustBalance_eq_ok hdebit hfrom.nameAt
  obtain ⟨t', rfl, -, hmove'⟩ := adjustSavingsBalance_eq_ok hsave (hmove.nameAt _ _ hto.nameAt)
  refine sim_of_step (Step.deposit _ o.from_ o.toObject.schedule hpos (henough.trans hfrom.balance.ge)
    hto.member (fun hc => schedule_fits hpos.le (hcov hc)) fun hc => schedule_payable (hpay hc)) ?_
  have hmoved := hmove.trans hmove'
  rw [hδ, single_neg, zero_add, add_zero] at hmoved
  simp only [Core.ledger, Index.savingsWithdraws, hmoved.balance, hmoved.savings, hmoved.members,
    values_insert, Multiset.map_cons, ← sub_eq_add_neg]
  rfl

/-- What removing a schedule leaves. -/
theorem schedules_erase {t : Table SavingsWithdrawObject} {id : Nat} {w : SavingsWithdrawObject}
    (h : (id, w) ∈ t.rows) :
    t.values.map SavingsWithdrawObject.schedule =
      w.schedule ::ₘ (t.erase id).values.map SavingsWithdrawObject.schedule := by
  rw [← cons_values_erase (lookup_eq_some.mpr h), Multiset.map_cons]

theorem sim_endSavings {id : Nat} {w : SavingsWithdrawObject} {receiver : AccountName}
    (hw : (id, w) ∈ s.savingsWithdraws.rows) (h : endSavings id w receiver s = .ok u s') :
    Sim care votes s s' := by
  simp only [endSavings, bind_eq_ok, checked_eq_ok, fcAssert_eq_ok, removeIn_eq_ok] at h
  obtain ⟨r, _, hget, _, _, ⟨henough, rfl⟩, q, _, hget', _, _, hcredit, δ, _, ⟨hneg, rfl⟩, _, _, hsave,
    rfl⟩ := h
  obtain ⟨rfl, hto⟩ := getAccount_eq_ok hget
  obtain ⟨rfl, hrec⟩ := getAccount_eq_ok hget'
  obtain ⟨t, rfl, -, hmove⟩ := adjustBalance_eq_ok hcredit hrec.nameAt
  obtain ⟨hδ, -⟩ := neg_sgt_eq_ok hneg
  obtain ⟨t', rfl, -, hmove'⟩ := adjustSavingsBalance_eq_ok hsave (hmove.nameAt _ _ hto.nameAt)
  have hcover := (of_decide_eq_true henough).trans hto.savings.ge
  refine sim_of_step (Step.close _ receiver w.schedule _ (schedules_erase hw) hcover) ?_
  have hmoved := hmove.trans hmove'
  rw [hδ, single_neg, zero_add, add_zero] at hmoved
  simp only [Core.ledger, Index.savingsWithdraws, hmoved.balance, hmoved.savings, hmoved.members,
    ← sub_eq_add_neg]
  rfl

theorem sim_cancelTransferSavings {o : CancelTransferSavingsOperation}
    (h : cancelTransferSavingsEvaluator o s = .ok u s') : Sim care votes s s' := by
  simp only [cancelTransferSavingsEvaluator, bind_eq_ok, checked_eq_ok, fcAssert_eq_ok,
    getSavingsWithdraw, getIn_eq_ok] at h
  obtain ⟨w, _, ⟨hfind, rfl⟩, _, _, ⟨-, rfl⟩, covered, _, ⟨-, rfl⟩, _, _, ⟨-, rfl⟩, hend⟩ := h
  exact sim_endSavings (mem_of_find? hfind).1 hend

theorem sim_conclusionTransferSavings {o : ConclusionTransferSavingsOperation}
    (h : conclusionTransferSavingsEvaluator o s = .ok u s') : Sim care votes s s' := by
  simp only [conclusionTransferSavingsEvaluator, bind_eq_ok, fcAssert_eq_ok, getSavingsWithdraw,
    getIn_eq_ok] at h
  obtain ⟨w, _, ⟨hfind, rfl⟩, _, _, ⟨-, rfl⟩, hend⟩ := h
  exact sim_endSavings (mem_of_find? hfind).1 hend

/-! ## Staking -/

theorem sim_stakingFund {fa : FundArithmetic} {o : StakingFundOperation} (hpos : 0 < o.amount.amount)
    (hcov : care.covered → Covered fa s (.stakingFund o)) (h : stakingFundEvaluator fa o s = .ok u s') :
    Sim care votes s s' := by
  simp only [stakingFundEvaluator, bind_eq_ok, checked_eq_ok, fcAssert_eq_ok, createIn_eq_ok,
    pure_eq_ok] at h
  obtain ⟨r, _, hget, _, _, hreq, f, _, hfund, _, _, ⟨-, rfl⟩, δ, _, ⟨hneg, rfl⟩, _, _, hdebit, _, _, hpool,
    now, _, hnow, due, _, ⟨hdue, rfl⟩, _, _, hready, id, _, ⟨hc, -, rfl⟩, -, rfl⟩ := h
  obtain ⟨rfl, hfrom⟩ := getAccount_eq_ok hget
  obtain ⟨rfl, -, henough⟩ := requireBalance_eq_ok hreq
  have hfind := (getIn_eq_ok.mp hfund).1
  obtain ⟨rfl, -, -, hmem, -, -⟩ := getCommonFund_eq_ok hfund
  obtain ⟨hδ, -⟩ := Asset.neg_eq_ok hneg
  obtain ⟨t, rfl, -, hmove⟩ := adjustBalance_eq_ok hdebit hfrom.nameAt
  obtain ⟨p, rfl, -, -, hmovep⟩ := adjustFundBalance_eq_ok hpool
  obtain rfl := readOnly_headBlockTime.eq_of_ok hnow
  obtain ⟨p', rfl, -, hlimit, hmovep'⟩ := adjustFundWithdrawBalance_eq_ok hready
  obtain ⟨-, hamount, -⟩ := Asset.add_eq_ok hdue
  rw [hδ, single_neg] at hmove
  rw [hmovep.due, add_zero] at hlimit
  have hmoved := hmovep.trans hmovep'
  rw [zero_add, add_zero] at hmoved
  refine sim_of_step (Step.stake _ ⟨o.from_, FixedString.ofBytes o.fundName, due.amount⟩ _ hpos
    (henough.trans hfrom.balance.ge) hfrom.member hmem (fun hcare => ?_) hlimit) ?_
  · rw [safeAdd_eq_ok hamount]
    exact hcov hcare f hfind
  · simp only [Core.ledger, Index.fundWithdraws, hmove.balance, hmove.savings, hmove.members, hmoved.pool,
      hmoved.due, hmoved.names, values_insert, Multiset.map_cons, add_zero, ← sub_eq_add_neg]
    rfl

theorem stakes_erase {t : Table FundWithdrawObject} {id : Nat} {w : FundWithdrawObject}
    (h : (id, w) ∈ t.rows) :
    t.values.map FundWithdrawObject.stake =
      w.stake ::ₘ (t.erase id).values.map FundWithdrawObject.stake := by
  rw [← cons_values_erase (lookup_eq_some.mpr h), Multiset.map_cons]

/-- Paying a stake back: the part `endStaking` and `processFundWithdraw` have in common. -/
theorem sim_payStake {id : Nat} {w : FundWithdrawObject} {fundName : Bytes} {r : Nat × AccountObject}
    {δ : Asset} {s₁ s₂ s₃ : Core} {u₁ u₂ u₃ : Unit} (hw : (id, w) ∈ s.fundWithdraws.rows)
    (hfound : Found s.accounts w.from_ r) (hcover : w.amount ≤ poolBalances s.commonFunds (.ofBytes fundName))
    (hneg : (sgt w.amount).neg = .ok δ) (hcredit : adjustBalance r.1 (sgt w.amount) s = .ok u₁ s₁)
    (hpool : adjustFundBalance fundName δ s₁ = .ok u₂ s₂)
    (hready : adjustFundWithdrawBalance fundName δ s₂ = .ok u₃ s₃) :
    Sim care votes s (Index.fundWithdraws.set ((Index.fundWithdraws.get s₃).erase id) s₃) := by
  obtain ⟨hδ, -⟩ := neg_sgt_eq_ok hneg
  obtain ⟨t, rfl, -, hmove⟩ := adjustBalance_eq_ok hcredit hfound.nameAt
  obtain ⟨p, rfl, -, hmem, hmovep⟩ := adjustFundBalance_eq_ok hpool
  obtain ⟨p', rfl, -, hlimit, hmovep'⟩ := adjustFundWithdrawBalance_eq_ok hready
  rw [hmovep.due, add_zero, hδ] at hlimit
  have hmoved := hmovep.trans hmovep'
  rw [hδ, single_neg, zero_add, add_zero] at hmoved
  refine sim_of_step (Step.unstake _ w.stake (.ofBytes fundName) _ (stakes_erase hw) hmem hcover hlimit) ?_
  simp only [Core.ledger, Index.fundWithdraws, hmove.balance, hmove.savings, hmove.members, hmoved.pool,
    hmoved.due, hmoved.names, add_zero, ← sub_eq_add_neg]
  rfl

theorem sim_endStaking {owner : AccountName} {fundName : Bytes} {requestId : Nat}
    (h : endStaking owner fundName requestId s = .ok u s') : Sim care votes s s' := by
  simp only [endStaking, bind_eq_ok, checked_eq_ok, fcAssert_eq_ok, removeIn_eq_ok, getFundWithdraw,
    getIn_eq_ok] at h
  obtain ⟨w, _, ⟨hfind, rfl⟩, f, _, hfund, _, _, ⟨henough, rfl⟩, r, _, hget, _, _, hcredit, δ, _,
    ⟨hneg, rfl⟩, _, _, hpool, _, _, hready, rfl⟩ := h
  obtain ⟨hw, hkey⟩ := mem_of_find? hfind
  simp only [Bool.and_eq_true, beq_iff_eq] at hkey
  obtain ⟨rfl, -, -, -, hbal, -⟩ := getCommonFund_eq_ok hfund
  obtain ⟨rfl, hfound⟩ := getAccount_eq_ok hget
  rw [← hkey.1.1] at hfound
  exact sim_payStake hw hfound ((of_decide_eq_true henough).trans hbal.ge) hneg hcredit hpool hready

theorem sim_conclusionStaking {o : ConclusionStakingOperation}
    (h : conclusionStakingEvaluator o s = .ok u s') : Sim care votes s s' := by
  obtain ⟨_, _, hroot, hend⟩ := bind_eq_ok.mp h
  obtain rfl := (readOnly_requireRoot _ _).eq_of_ok hroot
  exact sim_endStaking hend

theorem sim_returnStakingFund {o : ReturnStakingFundOperation}
    (h : returnStakingFundEvaluator o s = .ok u s') : Sim care votes s s' := by
  obtain ⟨_, _, hroot, hend⟩ := bind_eq_ok.mp h
  obtain rfl := (readOnly_requireRoot _ _).eq_of_ok hroot
  exact sim_endStaking hend

theorem sim_transferFund {o : TransferFundOperation} (hpos : 0 < o.amount.amount)
    (h : transferFundEvaluator o s = .ok u s') : Sim care votes s s' := by
  simp only [transferFundEvaluator, bind_eq_ok, checked_eq_ok] at h
  obtain ⟨r, _, hget, _, _, hreq, _, _, hpool, δ, _, ⟨hneg, rfl⟩, hdebit⟩ := h
  obtain ⟨rfl, hfrom⟩ := getAccount_eq_ok hget
  obtain ⟨rfl, -, henough⟩ := requireBalance_eq_ok hreq
  obtain ⟨p, rfl, -, -, hmovep⟩ := adjustFundBalance_eq_ok hpool
  obtain ⟨hδ, -⟩ := Asset.neg_eq_ok hneg
  obtain ⟨t, rfl, -, hmove⟩ := adjustBalance_eq_ok hdebit hfrom.nameAt
  refine sim_of_step (Step.donate _ o.from_ (.ofBytes o.fundName) _ hpos
    (henough.trans hfrom.balance.ge)) ?_
  simp only [Core.ledger, hmove.balance, hmove.savings, hmove.members, hmovep.pool, hmovep.due,
    hmovep.names, hδ, single_neg, add_zero, ← sub_eq_add_neg]

/-! ## Members and references -/

theorem sim_accountCreate {o : AccountCreateOperation} (h : accountCreateEvaluator o s = .ok u s') :
    Sim care votes s s' := by
  simp only [accountCreateEvaluator, bind_eq_ok, createIn_eq_ok, pure_eq_ok] at h
  obtain ⟨_, _, howner, _, _, hactive, _, _, hposting, now, _, hnow, id, _, ⟨hc, -, rfl⟩, id', _,
    ⟨hc', -, rfl⟩, -, rfl⟩ := h
  obtain rfl := (readOnly_getAccounts _).eq_of_ok howner
  obtain rfl := (readOnly_getAccounts _).eq_of_ok hactive
  obtain rfl := (readOnly_getAccounts _).eq_of_ok hposting
  obtain rfl := readOnly_headBlockTime.eq_of_ok hnow
  refine sim_of_step (Step.join _ o.newAccountName) ?_
  have hmembers : ∀ (t : Table AccountObject) (a : AccountObject) (hc : t.clashes t.nextId a = false),
      memberNames (t.insert a hc) = insert a.name (memberNames t) := by
    intro t a hc
    ext n
    simp only [memberNames, Set.mem_ofPred_eq, values_insert, Multiset.mem_cons, exists_eq_or_imp,
      Set.mem_insert_iff, eq_comm (a := n)]
  simp only [Core.ledger, Index.accounts, Index.accountAuthorities, hmembers, balances, savings,
    sum_insert, single_zero, zero_add]

/-- Any change of the other indices that only names members. -/
theorem sim_refer {b : Table BobserverObject} {c : Table ChangeRecoveryAccountRequestObject}
    (h : ∀ n ∈ payeeNames b ∪ recoveringNames c,
      n ∈ payeeNames s.bobservers ∪ recoveringNames s.changeRecoveryAccountRequests ∨
        n ∈ memberNames s.accounts)
    (hb : bobserverNames s.bobservers ⊆ bobserverNames b) :
    Sim care votes s { s with bobservers := b, changeRecoveryAccountRequests := c } :=
  sim_of_step (Step.refer _ _ _ h hb) rfl

theorem sim_bobserverUpdate {o : BobserverUpdateOperation}
    (h : bobserverUpdateEvaluator o s = .ok u s') : Sim care votes s s' := by
  simp only [bobserverUpdateEvaluator, bind_eq_ok, fcAssert_eq_ok, findIn_eq_ok] at h
  obtain ⟨_, _, hroot, r, _, hget, _, _, ⟨-, rfl⟩, found, _, ⟨-, rfl⟩, h⟩ := h
  obtain rfl := (readOnly_requireRoot _ _).eq_of_ok hroot
  obtain ⟨rfl, hfound⟩ := getAccount_eq_ok hget
  cases found with
  | some b =>
    refine sim_of_same (same_modifyBobserver b.1 ?_) _ _ _ h
    rintro a _ ⟨⟩
    exact ⟨rfl, rfl⟩
  | none =>
    simp only [bind_eq_ok, createIn_eq_ok, pure_eq_ok] at h
    obtain ⟨now, _, hnow, id, _, ⟨hc, -, rfl⟩, -, rfl⟩ := h
    obtain rfl := readOnly_headBlockTime.eq_of_ok hnow
    refine sim_refer (fun n hn => ?_) ?_
    · rcases hn with ⟨b, hb, hn⟩ | hn
      · rw [values_insert, Multiset.mem_cons] at hb
        rcases hb with rfl | hb
        · right
          rcases hn with rfl | ⟨-, rfl⟩ <;> exact hfound.member
        · exact .inl (.inl ⟨b, hb, hn⟩)
      · exact .inl (.inr hn)
    · rintro n ⟨b, hb, hn⟩
      exact ⟨b, by rw [values_insert]; exact Multiset.mem_cons_of_mem hb, hn⟩

/-- Dropping a request names nobody new. -/
theorem sim_removeRecovery (id : Nat) :
    Runs (Sim care votes) (removeIn Index.changeRecoveryAccountRequests id : CoreM Unit) := by
  intro s u s' h
  obtain rfl := removeIn_eq_ok.mp h
  refine sim_refer (b := s.bobservers) (c := s.changeRecoveryAccountRequests.erase id)
    (fun n hn => .inl ?_) Set.Subset.rfl
  rcases hn with hn | ⟨r, hr, hn⟩
  · exact .inl hn
  · obtain ⟨i, hi⟩ := mem_values.mp hr
    exact .inr ⟨r, mem_values.mpr ⟨i, (mem_erase.mp hi).1⟩, hn⟩

theorem sim_changeRecoveryAccount {o : ChangeRecoveryAccountOperation}
    (h : changeRecoveryAccountEvaluator o s = .ok u s') : Sim care votes s s' := by
  simp only [changeRecoveryAccountEvaluator, bind_eq_ok, findIn_eq_ok] at h
  obtain ⟨r, _, hget, q, _, hget', now, _, hnow, found, _, ⟨-, rfl⟩, h⟩ := h
  obtain ⟨rfl, -⟩ := getAccount_eq_ok hget
  obtain ⟨rfl, hfound⟩ := getAccount_eq_ok hget'
  obtain rfl := readOnly_headBlockTime.eq_of_ok hnow
  cases found with
  | none =>
    simp only [bind_eq_ok, createIn_eq_ok, pure_eq_ok] at h
    obtain ⟨id, _, ⟨hc, -, rfl⟩, -, rfl⟩ := h
    refine sim_refer (fun n hn => ?_) Set.Subset.rfl
    rcases hn with hn | ⟨r, hr, hn⟩
    · exact .inl (.inl hn)
    · rw [values_insert, Multiset.mem_cons] at hr
      rcases hr with rfl | hr
      · right
        rw [hn]
        exact hfound.member
      · exact .inl (.inr ⟨r, hr, hn⟩)
  | some c =>
    dsimp only at h
    split at h
    · obtain ⟨a, b, hc, ha, hf, rfl⟩ := modifyIn_eq_ok.mp h
      cases hf
      refine sim_refer (fun n hn => .inl ?_) Set.Subset.rfl
      rcases hn with hn | ⟨r, hr, hn⟩
      · exact .inl hn
      · rw [values_replace ha, Multiset.mem_cons] at hr
        rcases hr with rfl | hr
        · exact .inr ⟨a, mem_values.mpr ⟨_, lookup_eq_some.mp ha⟩, hn⟩
        · obtain ⟨i, hi⟩ := mem_values.mp hr
          exact .inr ⟨r, mem_values.mpr ⟨i, (mem_erase.mp hi).1⟩, hn⟩
    · exact sim_removeRecovery _ _ _ _ h

end Sigmaengine
