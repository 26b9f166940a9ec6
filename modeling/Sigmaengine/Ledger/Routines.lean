import Sigmaengine.Ledger.Simulation

/-!
# The per-block routines refine the ledger

`clear_null_account_balance`, `process_funds`, the two withdrawal loops and
`account_recovery_processing`, each as ledger steps.
-/

namespace Sigmaengine

open Effect Table Finsupp Ledger

/-- The null account has no savings to be cleared. -/
def Settled (s : Core) : Prop :=
  ∀ r ∈ s.accounts.find? (fun a => a.name == nullAccount), r.2.savingsBalance ≤ 0

instance (s : Core) : Decidable (Settled s) := inferInstanceAs (Decidable (∀ _ ∈ _, _))

variable {care : Care} {votes : Set ℤ} {s s' : Core} {u : Unit}

/-! ## The null account -/

theorem takeNullBalance_eq_ok {null : Nat × AccountObject} {n : AccountName} {total total' : ℤ}
    (hn : NameAt s.accounts null.1 n) (h : takeNullBalance null total s = .ok total' s') :
    ∃ t, s' = { s with accounts := t } ∧ total' = total + max 0 null.2.balance ∧
      Moved (-single n (max 0 null.2.balance)) 0 s.accounts t := by
  unfold takeNullBalance at h
  split at h
  · rename_i hpos
    simp only [bind_eq_ok, checked_eq_ok, pure_eq_ok] at h
    obtain ⟨_, _, ⟨hadd, rfl⟩, δ, _, ⟨hneg, rfl⟩, _, _, hdebit, rfl, rfl⟩ := h
    obtain ⟨t, rfl, -, hmove⟩ := adjustBalance_eq_ok hdebit hn
    rw [(neg_sgt_eq_ok hneg).1, single_neg] at hmove
    rw [max_eq_right hpos.le]
    exact ⟨t, rfl, safeAdd_eq_ok hadd, hmove⟩
  · rename_i hpos
    obtain ⟨rfl, rfl⟩ := pure_eq_ok.mp h
    rw [max_eq_left (not_lt.mp hpos), single_zero, neg_zero, add_zero]
    exact ⟨s.accounts, rfl, rfl, Moved.refl _⟩

theorem takeNullSavings_eq_ok {null : Nat × AccountObject} {n : AccountName} {total total' : ℤ}
    (hn : NameAt s.accounts null.1 n) (h : takeNullSavings null total s = .ok total' s') :
    ∃ t, s' = { s with accounts := t } ∧ total' = total + max 0 null.2.savingsBalance ∧
      Moved 0 (-single n (max 0 null.2.savingsBalance)) s.accounts t := by
  unfold takeNullSavings at h
  split at h
  · rename_i hpos
    simp only [bind_eq_ok, checked_eq_ok, pure_eq_ok] at h
    obtain ⟨_, _, ⟨hadd, rfl⟩, δ, _, ⟨hneg, rfl⟩, _, _, hdebit, rfl, rfl⟩ := h
    obtain ⟨t, rfl, -, hmove⟩ := adjustSavingsBalance_eq_ok hdebit hn
    rw [(neg_sgt_eq_ok hneg).1, single_neg] at hmove
    rw [max_eq_right hpos.le]
    exact ⟨t, rfl, safeAdd_eq_ok hadd, hmove⟩
  · rename_i hpos
    obtain ⟨rfl, rfl⟩ := pure_eq_ok.mp h
    rw [max_eq_left (not_lt.mp hpos), single_zero, neg_zero, add_zero]
    exact ⟨s.accounts, rfl, rfl, Moved.refl _⟩

theorem sim_clearNullAccountBalance (hset : care.settled → Settled s)
    (h : clearNullAccountBalance s = .ok u s') : Sim care votes s s' := by
  simp only [clearNullAccountBalance, bind_eq_ok] at h
  obtain ⟨r, _, hget, total, _, hbal, total', _, hsav, h⟩ := h
  have hfind := (getIn_eq_ok.mp hget).1
  obtain ⟨rfl, hfound⟩ := getAccount_eq_ok hget
  obtain ⟨t, rfl, rfl, hmove⟩ := takeNullBalance_eq_ok hfound.nameAt hbal
  obtain ⟨t', rfl, rfl, hmove'⟩ := takeNullSavings_eq_ok (hmove.nameAt _ _ hfound.nameAt) hsav
  refine sim_of_step (Step.sweep _ fun hc => hfound.savings.le.trans (hset hc r hfind)) ?_
  have hmoved := hmove.trans hmove'
  rw [zero_add, add_zero, ← hfound.balance, ← hfound.savings] at hmoved
  rw [zero_add, ← hfound.balance, ← hfound.savings] at h
  split at h
  · simp only [bind_eq_ok, checked_eq_ok] at h
    obtain ⟨δ, _, ⟨hneg, rfl⟩, hsupply⟩ := h
    obtain ⟨n, -, rfl⟩ := adjustSupply_eq_ok hsupply
    rw [(neg_sgt_eq_ok hneg).1]
    simp only [Core.ledger, hmoved.balance, hmoved.savings, hmoved.members, ← sub_eq_add_neg]
  · obtain ⟨-, rfl⟩ := pure_eq_ok.mp h
    -- nothing was taken, so the supply stays
    rename_i hzero
    have hnone : max 0 ((balances _) nullAccount) + max 0 ((savings _) nullAccount) = 0 :=
      le_antisymm (not_lt.mp hzero) (add_nonneg (le_max_left _ _) (le_max_left _ _))
    simp only [Core.ledger, hmoved.balance, hmoved.savings, hmoved.members, ← sub_eq_add_neg, hnone,
      sub_zero]

/-! ## Rewards -/

theorem sim_processFunds (h : processFunds s = .ok u s') : Sim care votes s s' := by
  simp only [processFunds, bind_eq_ok, get_eq_ok, getBobserver, getIn_eq_ok] at h
  obtain ⟨_, _, ⟨rfl, rfl⟩, b, _, ⟨-, rfl⟩, r, _, hget, _, _, ⟨rfl, rfl⟩, h⟩ := h
  obtain ⟨rfl, hfound⟩ := getAccount_eq_ok hget
  split at h
  · rename_i hpos
    simp only [bind_eq_ok, checked_eq_ok] at h
    obtain ⟨δ, _, ⟨hneg, rfl⟩, _, _, hreward, hcredit⟩ := h
    obtain rfl := adjustDappRewardFundBalance_eq_ok hreward
    obtain ⟨t, rfl, -, hmove⟩ := adjustBalance_eq_ok hcredit hfound.nameAt
    refine sim_of_step (Step.payReward _ (rewardAccount b.2) hpos) ?_
    simp only [Core.ledger, hmove.balance, hmove.savings, hmove.members, (neg_sgt_eq_ok hneg).1,
      add_zero, add_neg_cancel]
    rfl
  · obtain ⟨-, rfl⟩ := pure_eq_ok.mp h
    exact Moves.refl _

/-- A reward fund that is not in debt is empty after `process_funds`. -/
theorem processFunds_reward (h : processFunds s = .ok u s') (hpos : 0 ≤ s.dappRewardFund.fundBalance) :
    s'.dappRewardFund.fundBalance = 0 := by
  simp only [processFunds, bind_eq_ok, get_eq_ok, getBobserver, getIn_eq_ok] at h
  obtain ⟨_, _, ⟨rfl, rfl⟩, b, _, ⟨-, rfl⟩, r, _, hget, _, _, ⟨rfl, rfl⟩, h⟩ := h
  obtain ⟨rfl, hfound⟩ := getAccount_eq_ok hget
  split at h
  · simp only [bind_eq_ok, checked_eq_ok] at h
    obtain ⟨δ, _, ⟨hneg, rfl⟩, _, _, hreward, hcredit⟩ := h
    obtain rfl := adjustDappRewardFundBalance_eq_ok hreward
    obtain ⟨t, rfl, -, -⟩ := adjustBalance_eq_ok hcredit hfound.nameAt
    simp only [(neg_sgt_eq_ok hneg).1, add_neg_cancel]
  · obtain ⟨-, rfl⟩ := pure_eq_ok.mp h
    exact le_antisymm (not_lt.mp ‹_›) hpos

/-! ## Savings withdrawals -/

theorem paySavings_eq_ok {r : Nat × AccountObject} {n : AccountName} {amount : ℤ}
    (hfound : Found s.accounts n r) (h : paySavings r amount s = .ok u s') :
    amount ≤ savings s.accounts n ∧ ∃ t, s' = { s with accounts := t } ∧
      Moved (single n amount) (-single n amount) s.accounts t := by
  simp only [paySavings, bind_eq_ok, checked_eq_ok, fcAssert_eq_ok] at h
  obtain ⟨_, _, ⟨henough, rfl⟩, _, _, hcredit, δ, _, ⟨hneg, rfl⟩, hdebit⟩ := h
  obtain ⟨t, rfl, -, hmove⟩ := adjustBalance_eq_ok hcredit hfound.nameAt
  obtain ⟨t', rfl, -, hmove'⟩ := adjustSavingsBalance_eq_ok hdebit (hmove.nameAt _ _ hfound.nameAt)
  have hmoved := hmove.trans hmove'
  rw [(neg_sgt_eq_ok hneg).1, single_neg, zero_add, add_zero] at hmoved
  exact ⟨(of_decide_eq_true henough).trans hfound.savings.ge, t', rfl, hmoved⟩

theorem sub_ne_zero_toNat {m o : UInt8} (h : o ≠ m) : (m - o).toNat ≠ 0 := by
  intro h0
  have hd : m - o = 0 := UInt8.toNat_inj.mp h0
  exact h (by grind)

theorem sub_succ_toNat {m o : UInt8} (h : o ≠ m) : (m - (o + 1)).toNat = (m - o).toNat - 1 := by
  have hle : (1 : UInt8) ≤ m - o := by
    rw [UInt8.le_iff_toNat_le]
    exact Nat.pos_of_ne_zero (sub_ne_zero_toNat h)
  rw [show m - (o + 1) = m - o - 1 by grind, UInt8.toNat_sub_of_le _ _ hle]
  rfl

theorem safeDiv_eq_ok {a b c : ℤ} (h : safeDiv a b = .ok c) : c = a.tdiv b ∧ b ≠ 0 := by
  unfold safeDiv at h
  split at h
  · cases h
  · split at h
    · cases h
    · cases h
      exact ⟨rfl, ‹_›⟩

theorem schedule_nextInstalment {w : SavingsWithdrawObject} (h : w.splitPayOrder ≠ w.splitPayMonth) :
    (nextInstalment w (w.amount - w.schedule.instalment)).schedule = w.schedule.next := by
  simp only [SavingsWithdrawObject.schedule, nextInstalment, Schedule.next, sub_succ_toNat h]

theorem sim_payFinal {id : Nat} {w : SavingsWithdrawObject} {next : Option Nat}
    (hw : (id, w) ∈ s.savingsWithdraws.rows) (h : payFinal id w s = .ok next s') : Sim care votes s s' := by
  simp only [payFinal, bind_eq_ok, removeIn_eq_ok] at h
  obtain ⟨q, _, hget, _, _, hpay, _, _, rfl, hfirst⟩ := h
  obtain rfl := readOnly_firstSavingsWithdraw.eq_of_ok hfirst
  obtain ⟨rfl, hfound⟩ := getAccount_eq_ok hget
  obtain ⟨henough, t, rfl, hmoved⟩ := paySavings_eq_ok hfound hpay
  refine sim_of_step (Step.close _ w.to_ w.schedule _ (schedules_erase hw) henough) ?_
  simp only [Core.ledger, Index.savingsWithdraws, hmoved.balance, hmoved.savings, hmoved.members,
    ← sub_eq_add_neg]
  rfl

theorem sim_payInstalment {id : Nat} {w : SavingsWithdrawObject} {next : Option Nat}
    (hw : (id, w) ∈ s.savingsWithdraws.rows) (horder : w.splitPayOrder ≠ w.splitPayMonth)
    (h : payInstalment id w s = .ok next s') : Sim care votes s s' := by
  simp only [payInstalment, bind_eq_ok, removeIn_eq_ok, checked_eq_ok, createIn_eq_ok, pure_eq_ok] at h
  obtain ⟨q, _, hget, monthly, _, ⟨hdiv, rfl⟩, _, _, hpay, _, _, rfl, _, _, hfirst, rest, _, ⟨hrest, rfl⟩, id', _,
    ⟨hc, -, rfl⟩, -, rfl⟩ := h
  obtain rfl := readOnly_firstSavingsWithdraw.eq_of_ok hfirst
  obtain ⟨rfl, hfound⟩ := getAccount_eq_ok hget
  obtain ⟨henough, t, rfl, hmoved⟩ := paySavings_eq_ok hfound hpay
  obtain ⟨rfl, -⟩ := safeDiv_eq_ok hdiv
  obtain rfl := safeSub_eq_ok hrest
  refine sim_of_step (Step.instalment _ w.schedule _ (schedules_erase hw) (sub_ne_zero_toNat horder)
    henough) ?_
  rw [← schedule_nextInstalment horder]
  simp only [Core.ledger, Index.savingsWithdraws, hmoved.balance, hmoved.savings, hmoved.members,
    values_insert, Multiset.map_cons, ← sub_eq_add_neg]
  rfl

theorem sim_processSavingsWithdraw (id : Nat) : Runs (Sim care votes) (processSavingsWithdraw id) := by
  intro s next s' h
  simp only [processSavingsWithdraw, bind_eq_ok, get_eq_ok, ofOption_eq_ok] at h
  obtain ⟨_, _, ⟨rfl, rfl⟩, w, _, ⟨hw, rfl⟩, h⟩ := h
  split at h
  · obtain ⟨-, rfl⟩ := pure_eq_ok.mp h
    exact Moves.refl _
  split at h
  · exact sim_payFinal (lookup_eq_some.mp hw) h
  · exact sim_payInstalment (lookup_eq_some.mp hw) ‹_› h

theorem sim_processSavingsWithdraws : Runs (Sim care votes) processSavingsWithdraws := by
  refine runs_bind (sim_of_same same_get) fun _ => ?_
  refine runs_bind (sim_of_same (same_of_readOnly readOnly_firstSavingsWithdraw)) fun _ => ?_
  exact runs_follow sim_processSavingsWithdraw _ _

/-! ## Fund withdrawals -/

theorem sim_payFundWithdraw {id : Nat} {w : FundWithdrawObject} (hw : (id, w) ∈ s.fundWithdraws.rows)
    (hcover : w.amount ≤ poolBalances s.commonFunds (.ofBytes w.fundName))
    (h : payFundWithdraw id w s = .ok u s') : Sim care votes s s' := by
  simp only [payFundWithdraw, bind_eq_ok, checked_eq_ok, removeIn_eq_ok] at h
  obtain ⟨q, _, hget, _, _, hcredit, δ, _, ⟨hneg, rfl⟩, _, _, hpool, _, _, hready, rfl⟩ := h
  obtain ⟨rfl, hfound⟩ := getAccount_eq_ok hget
  exact sim_payStake hw hfound hcover hneg hcredit hpool hready

theorem sim_processFundWithdraw : Runs (Sim care votes) processFundWithdraw := by
  intro s again s' h
  simp only [processFundWithdraw, bind_eq_ok, get_eq_ok] at h
  obtain ⟨_, _, ⟨rfl, rfl⟩, h⟩ := h
  cases hleast : s.fundWithdraws.least? FundWithdrawObject.before with
  | none =>
    rw [hleast] at h
    obtain ⟨-, rfl⟩ := pure_eq_ok.mp h
    exact Moves.refl _
  | some r =>
    rw [hleast] at h
    dsimp only at h
    split at h
    · obtain ⟨-, rfl⟩ := pure_eq_ok.mp h
      exact Moves.refl _
    obtain ⟨f, _, hfund, hpaid⟩ := bind_eq_ok.mp h
    obtain ⟨rfl, -, -, -, hbal, -⟩ := getCommonFund_eq_ok hfund
    split at hpaid
    · obtain ⟨-, rfl⟩ := pure_eq_ok.mp hpaid
      exact Moves.refl _
    · obtain ⟨_, t, hpay, hpure⟩ := bind_eq_ok.mp hpaid
      obtain ⟨-, rfl⟩ := pure_eq_ok.mp hpure
      exact sim_payFundWithdraw (mem_of_least? hleast) ((not_lt.mp ‹_›).trans hbal.ge) hpay

theorem sim_processFundWithdraws : Runs (Sim care votes) processFundWithdraws :=
  runs_bind (sim_of_same same_get) fun _ => runs_loop sim_processFundWithdraw _

/-! ## Recovery -/

theorem sim_applyRecoveryChange : Runs (Sim care votes) applyRecoveryChange := by
  refine runs_bind (sim_of_same same_get) fun s => ?_
  cases s.changeRecoveryAccountRequests.least? ChangeRecoveryAccountRequestObject.before with
  | none => exact runs_pure _
  | some r =>
    dsimp only
    split
    · refine runs_bind (sim_of_same (same_of_readOnly (readOnly_getAccount _))) fun a => ?_
      refine runs_bind (sim_of_same (same_modifyAccount _ ?_)) fun _ => ?_
      · rintro a _ ⟨⟩
        exact ⟨rfl, rfl, rfl⟩
      · exact runs_bind (sim_removeRecovery _) fun _ => runs_pure _
    · exact runs_pure _

theorem sim_accountRecoveryProcessing : Runs (Sim care votes) accountRecoveryProcessing := by
  refine runs_bind (sim_of_same same_get) fun s => ?_
  refine runs_bind (sim_of_same (runs_loop same_clearRecoveryRequest _)) fun _ => ?_
  refine runs_bind (sim_of_same (runs_loop same_clearOwnerHistory _)) fun _ => ?_
  exact runs_loop sim_applyRecoveryChange _

/-- **The per-block routines**, as ledger steps. -/
theorem sim_postProcess (hset : care.settled → Settled s) (h : postProcess s = .ok u s') :
    Sim care votes s s' := by
  simp only [postProcess, bind_eq_ok] at h
  obtain ⟨_, _, hnull, _, _, hfunds, _, _, hsav, _, _, hfw, hrec⟩ := h
  exact (sim_clearNullAccountBalance hset hnull).trans <| (sim_processFunds hfunds).trans <|
    (sim_processSavingsWithdraws _ _ _ hsav).trans <| (sim_processFundWithdraws _ _ _ hfw).trans <|
    sim_accountRecoveryProcessing _ _ _ hrec

end Sigmaengine
