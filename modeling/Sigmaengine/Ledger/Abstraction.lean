import Sigmaengine.Chain.State
import Sigmaengine.Ledger.Abstract

/-!
# The ledger of a database

`Core.ledger` reads the ledger off the indices.  This module says what the accessors of the database
do to it: which reads it answers, and how each `adjust_*` moves it.
-/

namespace Sigmaengine

open Effect Table Finsupp

/-! ## The abstraction -/

/-- The schedule a savings withdrawal stands for. -/
def SavingsWithdrawObject.schedule (w : SavingsWithdrawObject) : Schedule AccountName where
  payee := w.to_
  unpaid := w.amount
  instalment := w.totalAmount.tdiv w.splitPayMonth.toNat
  left := (w.splitPayMonth - w.splitPayOrder).toNat
  months := w.splitPayMonth.toNat

/-- The stake a fund withdrawal stands for. -/
def FundWithdrawObject.stake (w : FundWithdrawObject) : Stake AccountName CommonFundName where
  owner := w.from_
  pool := .ofBytes w.fundName
  amount := w.amount

/-- The names of a table of accounts. -/
def memberNames (t : Table AccountObject) : Set AccountName := {n | ∃ a ∈ t.values, a.name = n}

noncomputable def balances (t : Table AccountObject) : AccountName →₀ ℤ :=
  t.sum fun a => single a.name a.balance

noncomputable def savings (t : Table AccountObject) : AccountName →₀ ℤ :=
  t.sum fun a => single a.name a.savingsBalance

def poolNames (t : Table CommonFundObject) : Set CommonFundName := {n | ∃ f ∈ t.values, f.name = n}

noncomputable def poolBalances (t : Table CommonFundObject) : CommonFundName →₀ ℤ :=
  t.sum fun f => single f.name f.fundBalance

noncomputable def poolDues (t : Table CommonFundObject) : CommonFundName →₀ ℤ :=
  t.sum fun f => single f.name f.fundWithdrawReady

/-- The accounts the block producers are paid on. -/
def payeeNames (t : Table BobserverObject) : Set AccountName :=
  {n | ∃ b ∈ t.values, n = b.account ∨ b.bpOwner.size ≠ 0 ∧ n = b.bpOwner}

/-- The bobservers by name. -/
def bobserverNames (t : Table BobserverObject) : Set AccountName := {n | ∃ b ∈ t.values, b.account = n}

/-- The accounts whose recovery account is about to change. -/
def recoveringNames (t : Table ChangeRecoveryAccountRequestObject) : Set AccountName :=
  {n | ∃ r ∈ t.values, n = r.accountToRecover}

/-- The ledger of the chain's own indices, given the votes on the fee. -/
noncomputable def Core.ledger (votes : Set ℤ) (s : Core) : Ledger AccountName CommonFundName where
  members := memberNames s.accounts
  named := payeeNames s.bobservers ∪ recoveringNames s.changeRecoveryAccountRequests
  producers := bobserverNames s.bobservers
  producer := s.dgp.currentBobserver
  pools := poolNames s.commonFunds
  balance := balances s.accounts
  savings := savings s.accounts
  pool := poolBalances s.commonFunds
  due := poolDues s.commonFunds
  reward := s.dappRewardFund.fundBalance
  supply := s.dgp.currentSupply
  fee := s.dgp.dappTransactionFee
  feeVotes := votes
  schedules := s.savingsWithdraws.values.map SavingsWithdrawObject.schedule
  stakes := s.fundWithdraws.values.map FundWithdrawObject.stake

/-- The votes on the fee. -/
def feeVoteSet (t : Table Dapp.DappTrxFeeVoteObject) : Set ℤ := {x | ∃ v ∈ t.values, v.trxFee = x}

noncomputable def Database.ledger (d : Database) : Ledger AccountName CommonFundName :=
  d.core.ledger (feeVoteSet d.feeVotes)

/-! ## Accounts -/

/-- The account with the given id has the given name. -/
def NameAt (t : Table AccountObject) (id : Nat) (n : AccountName) : Prop :=
  ∃ a, t.lookup id = some a ∧ a.name = n

/-- The accounts are the same but for what `db` adds to the balances and `ds` to the savings. -/
structure Moved (db ds : AccountName →₀ ℤ) (t t' : Table AccountObject) : Prop where
  balance : balances t' = balances t + db
  savings : Sigmaengine.savings t' = Sigmaengine.savings t + ds
  members : memberNames t' = memberNames t
  nameAt : ∀ id n, NameAt t id n → NameAt t' id n

theorem Moved.refl (t : Table AccountObject) : Moved 0 0 t t :=
  ⟨(add_zero _).symm, (add_zero _).symm, rfl, fun _ _ h => h⟩

theorem Moved.trans {db db' ds ds' : AccountName →₀ ℤ} {t t' t'' : Table AccountObject}
    (h : Moved db ds t t') (h' : Moved db' ds' t' t'') : Moved (db + db') (ds + ds') t t'' where
  balance := by rw [h'.balance, h.balance, add_assoc]
  savings := by rw [h'.savings, h.savings, add_assoc]
  members := h'.members.trans h.members
  nameAt := fun id n hn => h'.nameAt id n (h.nameAt id n hn)

theorem clash_of_name_eq (a b : AccountObject) (h : a.name = b.name) : Clash.clash a b = true := by
  simp [Clash.clash, h]

/-- Replacing an account under its own name moves exactly what it holds. -/
theorem moved_replace {t : Table AccountObject} {id : Nat} {a b : AccountObject}
    (ha : t.lookup id = some a) (hname : b.name = a.name) (h : t.clashes id b = false) :
    Moved (single a.name (b.balance - a.balance)) (single a.name (b.savingsBalance - a.savingsBalance))
      t (t.replace id b h) where
  balance := by
    unfold balances
    rw [sum_replace ha, hname, single_sub]
  savings := by
    unfold Sigmaengine.savings
    rw [sum_replace ha, hname, single_sub]
  members := by
    ext n
    simp only [memberNames, Set.mem_ofPred_eq, values_replace ha, ← cons_values_erase ha,
      Multiset.mem_cons, exists_eq_or_imp, hname]
  nameAt := by
    rintro i n ⟨c, hc, hcn⟩
    by_cases hid : i = id
    · subst hid
      rw [ha] at hc
      cases hc
      exact ⟨b, lookup_eq_some.mpr (mem_replace.mpr (.inr ⟨rfl, a, lookup_eq_some.mp ha⟩)),
        hname.trans hcn⟩
    · exact ⟨c, lookup_eq_some.mpr (mem_replace.mpr (.inl ⟨lookup_eq_some.mp hc, hid⟩)), hcn⟩

/-- What a lookup by name finds. -/
structure Found (t : Table AccountObject) (n : AccountName) (r : Nat × AccountObject) : Prop where
  name : r.2.name = n
  nameAt : NameAt t r.1 n
  member : n ∈ memberNames t
  balance : balances t n = r.2.balance
  savings : Sigmaengine.savings t n = r.2.savingsBalance

theorem found_of_mem {t : Table AccountObject} {r : Nat × AccountObject} (hr : r ∈ t.rows) :
    Found t r.2.name r where
  name := rfl
  nameAt := ⟨r.2, lookup_eq_some.mpr hr, rfl⟩
  member := ⟨r.2, mem_values.mpr ⟨r.1, hr⟩, rfl⟩
  balance := sum_single_apply hr clash_of_name_eq AccountObject.balance
  savings := sum_single_apply hr clash_of_name_eq AccountObject.savingsBalance

theorem getAccount_eq_ok {n : AccountName} {r : Nat × AccountObject} {s s' : Core}
    (h : getAccount n s = .ok r s') : s' = s ∧ Found s.accounts n r := by
  obtain ⟨hf, rfl⟩ := getIn_eq_ok.mp h
  obtain ⟨hmem, hname⟩ := mem_of_find? hf
  have hfound := found_of_mem hmem
  rw [beq_iff_eq.mp hname] at hfound
  exact ⟨rfl, hfound⟩

/-- A member is found. -/
theorem getAccount_of_member {n : AccountName} {s : Core} (h : n ∈ memberNames s.accounts) :
    ∃ r, getAccount n s = .ok r s := by
  obtain ⟨a, ha, rfl⟩ := h
  obtain ⟨id, hid⟩ := mem_values.mp ha
  refine ⟨(id, a), getIn_eq_ok.mpr ⟨find?_of_mem hid (by simp) ?_, rfl⟩⟩
  intro c hc
  exact clash_of_name_eq c a (beq_iff_eq.mp hc)

/-! ## Adjusting accounts -/

/-- Changing an account under its own name. -/
theorem modifyAccount_eq_ok {id : Nat} {f : AccountObject → Except Error AccountObject} {s s' : Core}
    {u : Unit} (h : modifyIn Index.accounts id f s = .ok u s')
    (hname : ∀ a b, f a = .ok b → b.name = a.name) :
    ∃ a b t, s.accounts.lookup id = some a ∧ f a = .ok b ∧ s' = { s with accounts := t } ∧
      Moved (single a.name (b.balance - a.balance)) (single a.name (b.savingsBalance - a.savingsBalance))
        s.accounts t := by
  obtain ⟨a, b, hc, ha, hf, rfl⟩ := modifyIn_eq_ok.mp h
  exact ⟨a, b, _, ha, hf, rfl, moved_replace ha (hname a b hf) hc⟩

theorem adjustBalance_eq_ok {id : Nat} {n : AccountName} {δ : Asset} {s s' : Core} {u : Unit}
    (h : adjustBalance id δ s = .ok u s') (hn : NameAt s.accounts id n) :
    ∃ t, s' = { s with accounts := t } ∧ δ.symbol = sgtSymbol ∧
      Moved (single n δ.amount) 0 s.accounts t := by
  obtain ⟨a, b, t, ha, hf, rfl, hmove⟩ := modifyAccount_eq_ok h (by
    intro a b hf
    obtain ⟨m, -, rfl⟩ := map_eq_ok hf
    rfl)
  obtain ⟨m, hm, rfl⟩ := map_eq_ok hf
  obtain ⟨hsym, hadd⟩ := adjust_eq_ok hm
  obtain ⟨c, hc, rfl⟩ := hn
  rw [ha] at hc
  cases hc
  refine ⟨t, rfl, hsym, ?_⟩
  simpa [safeAdd_eq_ok hadd] using hmove

theorem adjustSavingsBalance_eq_ok {id : Nat} {n : AccountName} {δ : Asset} {s s' : Core} {u : Unit}
    (h : adjustSavingsBalance id δ s = .ok u s') (hn : NameAt s.accounts id n) :
    ∃ t, s' = { s with accounts := t } ∧ δ.symbol = sgtSymbol ∧
      Moved 0 (single n δ.amount) s.accounts t := by
  obtain ⟨a, b, t, ha, hf, rfl, hmove⟩ := modifyAccount_eq_ok h (by
    intro a b hf
    obtain ⟨m, -, rfl⟩ := map_eq_ok hf
    rfl)
  obtain ⟨m, hm, rfl⟩ := map_eq_ok hf
  obtain ⟨hsym, hadd⟩ := adjust_eq_ok hm
  obtain ⟨c, hc, rfl⟩ := hn
  rw [ha] at hc
  cases hc
  refine ⟨t, rfl, hsym, ?_⟩
  simpa [safeAdd_eq_ok hadd] using hmove

/-! ## Funds -/

/-- The funds are the same but for what `dp` adds to the balances and `dd` to the dues. -/
structure FundMoved (dp dd : CommonFundName →₀ ℤ) (t t' : Table CommonFundObject) : Prop where
  pool : poolBalances t' = poolBalances t + dp
  due : poolDues t' = poolDues t + dd
  names : poolNames t' = poolNames t

theorem FundMoved.trans {dp dp' dd dd' : CommonFundName →₀ ℤ} {t t' t'' : Table CommonFundObject}
    (h : FundMoved dp dd t t') (h' : FundMoved dp' dd' t' t'') :
    FundMoved (dp + dp') (dd + dd') t t'' where
  pool := by rw [h'.pool, h.pool, add_assoc]
  due := by rw [h'.due, h.due, add_assoc]
  names := h'.names.trans h.names

theorem clash_of_fund_eq (a b : CommonFundObject) (h : a.name = b.name) : Clash.clash a b = true := by
  simp [Clash.clash, h]

theorem fundMoved_replace {t : Table CommonFundObject} {id : Nat} {a b : CommonFundObject}
    (ha : t.lookup id = some a) (hname : b.name = a.name) (h : t.clashes id b = false) :
    FundMoved (single a.name (b.fundBalance - a.fundBalance))
      (single a.name (b.fundWithdrawReady - a.fundWithdrawReady)) t (t.replace id b h) where
  pool := by
    unfold poolBalances
    rw [sum_replace ha, hname, single_sub]
  due := by
    unfold poolDues
    rw [sum_replace ha, hname, single_sub]
  names := by
    ext n
    simp only [poolNames, Set.mem_ofPred_eq, values_replace ha, ← cons_values_erase ha,
      Multiset.mem_cons, exists_eq_or_imp, hname]

theorem getCommonFund_eq_ok {name : Bytes} {r : Nat × CommonFundObject} {s s' : Core}
    (h : getCommonFund name s = .ok r s') :
    s' = s ∧ r ∈ s.commonFunds.rows ∧ r.2.name = .ofBytes name ∧
      .ofBytes name ∈ poolNames s.commonFunds ∧
      poolBalances s.commonFunds (.ofBytes name) = r.2.fundBalance ∧
      poolDues s.commonFunds (.ofBytes name) = r.2.fundWithdrawReady := by
  obtain ⟨hf, rfl⟩ := getIn_eq_ok.mp h
  obtain ⟨hmem, hname⟩ := mem_of_find? hf
  have hname := beq_iff_eq.mp hname
  rw [← hname]
  exact ⟨rfl, hmem, rfl, ⟨r.2, mem_values.mpr ⟨r.1, hmem⟩, rfl⟩,
    sum_single_apply hmem clash_of_fund_eq CommonFundObject.fundBalance,
    sum_single_apply hmem clash_of_fund_eq CommonFundObject.fundWithdrawReady⟩

theorem getCommonFund_of_mem {name : Bytes} {s : Core} (h : .ofBytes name ∈ poolNames s.commonFunds) :
    ∃ r, getCommonFund name s = .ok r s := by
  obtain ⟨f, hf, hname⟩ := h
  obtain ⟨id, hid⟩ := mem_values.mp hf
  refine ⟨(id, f), getIn_eq_ok.mpr ⟨find?_of_mem hid (by simp [hname]) ?_, rfl⟩⟩
  intro c hc
  exact clash_of_fund_eq c f ((beq_iff_eq.mp hc).trans hname.symm)

/-- Changing a fund under its own name. -/
theorem modifyFund_eq_ok {id : Nat} {f : CommonFundObject → Except Error CommonFundObject}
    {s s' : Core} {u : Unit} (h : modifyIn Index.commonFunds id f s = .ok u s')
    (hname : ∀ a b, f a = .ok b → b.name = a.name) :
    ∃ a b t, (id, a) ∈ s.commonFunds.rows ∧ f a = .ok b ∧ s' = { s with commonFunds := t } ∧
      FundMoved (single a.name (b.fundBalance - a.fundBalance))
        (single a.name (b.fundWithdrawReady - a.fundWithdrawReady)) s.commonFunds t := by
  obtain ⟨a, b, hc, ha, hf, rfl⟩ := modifyIn_eq_ok.mp h
  exact ⟨a, b, _, lookup_eq_some.mp ha, hf, rfl, fundMoved_replace ha (hname a b hf) hc⟩

theorem adjustFundBalance_eq_ok {name : Bytes} {δ : Asset} {s s' : Core} {u : Unit}
    (h : adjustFundBalance name δ s = .ok u s') :
    ∃ t, s' = { s with commonFunds := t } ∧ δ.symbol = sgtSymbol ∧
      .ofBytes name ∈ poolNames s.commonFunds ∧
      FundMoved (single (.ofBytes name) δ.amount) 0 s.commonFunds t := by
  obtain ⟨r, _, hget, hmod⟩ := bind_eq_ok.mp h
  obtain ⟨rfl, hmem, hname, hpool, -, -⟩ := getCommonFund_eq_ok hget
  obtain ⟨a, b, t, ha, hf, rfl, hmove⟩ := modifyFund_eq_ok hmod (by
    intro a b hf
    obtain ⟨m, -, rfl⟩ := map_eq_ok hf
    rfl)
  obtain ⟨m, hm, rfl⟩ := map_eq_ok hf
  obtain ⟨hsym, hadd⟩ := adjust_eq_ok hm
  obtain rfl := eq_of_mem ha hmem
  refine ⟨t, rfl, hsym, hpool, ?_⟩
  simpa [safeAdd_eq_ok hadd, hname] using hmove

theorem adjustFundWithdrawBalance_eq_ok {name : Bytes} {δ : Asset} {s s' : Core} {u : Unit}
    (h : adjustFundWithdrawBalance name δ s = .ok u s') :
    ∃ t, s' = { s with commonFunds := t } ∧ δ.symbol = sgtSymbol ∧
      (poolDues s.commonFunds (.ofBytes name) ≤ int64Max →
        poolDues s.commonFunds (.ofBytes name) + δ.amount ≤ int64Max) ∧
      FundMoved 0 (single (.ofBytes name) δ.amount) s.commonFunds t := by
  obtain ⟨r, _, hget, hmod⟩ := bind_eq_ok.mp h
  obtain ⟨rfl, hmem, hname, -, -, hdue⟩ := getCommonFund_eq_ok hget
  obtain ⟨a, b, t, ha, hf, rfl, hmove⟩ := modifyFund_eq_ok hmod (by
    intro a b hf
    obtain ⟨m, -, rfl⟩ := map_eq_ok hf
    rfl)
  obtain ⟨m, hm, rfl⟩ := map_eq_ok hf
  obtain ⟨hsym, hadd⟩ := adjust_eq_ok hm
  obtain rfl := eq_of_mem ha hmem
  refine ⟨t, rfl, hsym, ?_, ?_⟩
  · rw [hdue]
    exact fun hle => safeAdd_le hle hadd
  · simpa [safeAdd_eq_ok hadd, hname] using hmove

/-! ## Supply and reward fund -/

theorem adjustSupply_eq_ok {δ : Asset} {s s' : Core} {u : Unit} (h : adjustSupply δ s = .ok u s') :
    ∃ n, safeAdd s.dgp.currentSupply δ.amount = .ok n ∧
      s' = { s with dgp := { s.dgp with currentSupply := s.dgp.currentSupply + δ.amount } } := by
  obtain ⟨_, _, hget, h⟩ := bind_eq_ok.mp h
  obtain ⟨rfl, rfl⟩ := get_eq_ok.mp hget
  obtain ⟨n, _, hn, h⟩ := bind_eq_ok.mp h
  obtain ⟨hadj, rfl⟩ := checked_eq_ok.mp hn
  obtain ⟨-, hadd⟩ := adjust_eq_ok hadj
  rw [← modify_eq_ok.mp h, ← safeAdd_eq_ok hadd]
  exact ⟨n, hadd, rfl⟩

theorem adjustDappRewardFundBalance_eq_ok {δ : Asset} {s s' : Core} {u : Unit}
    (h : adjustDappRewardFundBalance δ s = .ok u s') :
    s' = { s with dappRewardFund :=
      { fundBalance := s.dappRewardFund.fundBalance + δ.amount, lastUpdate := s.dgp.time } } := by
  obtain ⟨_, _, hget, h⟩ := bind_eq_ok.mp h
  obtain ⟨rfl, rfl⟩ := get_eq_ok.mp hget
  obtain ⟨n, _, hn, h⟩ := bind_eq_ok.mp h
  obtain ⟨hadj, rfl⟩ := checked_eq_ok.mp hn
  obtain ⟨-, hadd⟩ := adjust_eq_ok hadj
  rw [← modify_eq_ok.mp h, safeAdd_eq_ok hadd]

end Sigmaengine
