import Sigmaengine.Ledger.Solvency

/-!
# The per-block routines complete

In a sound ledger every pending payout is covered by what it draws on, every account it names exists,
and no sum leaves the range of the supply.  So each routine returns, and each loop lowers a measure.
-/

namespace Sigmaengine

open Effect Table Finsupp Ledger

/-- The ledger of the state is sound. -/
def SoundCore (votes : Set ℤ) (c : Core) : Prop := Sound nullAccount int64Max (c.ledger votes)

variable {votes : Set ℤ} {c : Core} {n : AccountName} {x : ℤ}

theorem SoundCore.sim {c' : Core} (h : SoundCore votes c) (hsim : Sim fullCare votes c c') :
    SoundCore votes c' :=
  Sound.moves hsim h

/-! ## Amounts in range -/

/-- An amount between nothing and the limit. -/
def Amount (x : ℤ) : Prop := 0 ≤ x ∧ x ≤ int64Max

theorem Amount.inInt64 (h : Amount x) : InInt64 x := by
  obtain ⟨hlo, hhi⟩ := h
  unfold InInt64 int64Min
  omega

theorem neg_sgt (h : Amount x) : (sgt x).neg = .ok (sgt (-x)) := by
  have hne : x ≠ int64Min := by
    unfold int64Min
    have := h.1
    omega
  change (safeNeg x).map _ = _
  rw [safeNeg, if_neg hne]
  rfl

theorem adjust_sgt {field : ℤ} (h : Amount (field + x)) : adjust field (sgt x) = .ok (field + x) := by
  unfold adjust
  rw [if_pos (by rfl)]
  exact safeAdd_of_inInt64 h.inInt64

/-! ## Adjustments -/

theorem adjustBalance_returns {id : Nat} (hn : NameAt c.accounts id n)
    (h : Amount (balances c.accounts n + x)) : ∃ c', adjustBalance id (sgt x) c = .ok () c' := by
  obtain ⟨a, ha, rfl⟩ := hn
  rw [(found_of_mem (lookup_eq_some.mp ha)).balance] at h
  exact modifyIn_returns (l := Index.accounts) ha (congrArg (Except.map _) (adjust_sgt h)) fun _ => rfl

theorem adjustSavingsBalance_returns {id : Nat} (hn : NameAt c.accounts id n)
    (h : Amount (savings c.accounts n + x)) : ∃ c', adjustSavingsBalance id (sgt x) c = .ok () c' := by
  obtain ⟨a, ha, rfl⟩ := hn
  rw [(found_of_mem (lookup_eq_some.mp ha)).savings] at h
  exact modifyIn_returns (l := Index.accounts) ha (congrArg (Except.map _) (adjust_sgt h)) fun _ => rfl

theorem adjustFundBalance_returns {name : Bytes} (hmem : .ofBytes name ∈ poolNames c.commonFunds)
    (h : Amount (poolBalances c.commonFunds (.ofBytes name) + x)) :
    ∃ c', adjustFundBalance name (sgt x) c = .ok () c' := by
  obtain ⟨r, hr⟩ := getCommonFund_of_mem hmem
  obtain ⟨-, hrow, -, -, hbal, -⟩ := getCommonFund_eq_ok hr
  rw [hbal] at h
  unfold adjustFundBalance
  rw [bind_of_ok hr]
  exact modifyIn_returns (l := Index.commonFunds) (lookup_eq_some.mpr hrow)
    (congrArg (Except.map _) (adjust_sgt h)) fun _ => rfl

theorem adjustFundWithdrawBalance_returns {name : Bytes} (hmem : .ofBytes name ∈ poolNames c.commonFunds)
    (h : Amount (poolDues c.commonFunds (.ofBytes name) + x)) :
    ∃ c', adjustFundWithdrawBalance name (sgt x) c = .ok () c' := by
  obtain ⟨r, hr⟩ := getCommonFund_of_mem hmem
  obtain ⟨-, hrow, -, -, -, hdue⟩ := getCommonFund_eq_ok hr
  rw [hdue] at h
  unfold adjustFundWithdrawBalance
  rw [bind_of_ok hr]
  exact modifyIn_returns (l := Index.commonFunds) (lookup_eq_some.mpr hrow)
    (congrArg (Except.map _) (adjust_sgt h)) fun _ => rfl

theorem adjustSupply_returns (h : Amount (c.dgp.currentSupply + x)) :
    ∃ c', adjustSupply (sgt x) c = .ok () c' := by
  unfold adjustSupply
  rw [bind_of_ok (get_apply c), adjust_sgt h]
  exact ⟨_, rfl⟩

theorem adjustDappRewardFundBalance_returns (h : Amount (c.dappRewardFund.fundBalance + x)) :
    ∃ c', adjustDappRewardFundBalance (sgt x) c = .ok () c' := by
  unfold adjustDappRewardFundBalance
  rw [bind_of_ok (get_apply c), adjust_sgt h]
  exact ⟨_, rfl⟩

/-! ## What a sound ledger leaves room for -/

section Sound

variable (hsound : SoundCore votes c)

include hsound

theorem balance_room (a b : AccountName) (f : CommonFundName) :
    0 ≤ balances c.accounts a ∧ 0 ≤ savings c.accounts b ∧ 0 ≤ poolBalances c.commonFunds f ∧
      0 ≤ c.dappRewardFund.fundBalance ∧
      balances c.accounts a + savings c.accounts b + poolBalances c.commonFunds f +
        c.dappRewardFund.fundBalance ≤ c.dgp.currentSupply ∧ c.dgp.currentSupply ≤ int64Max :=
  ⟨hsound.nonneg.balance a, hsound.nonneg.savings b, hsound.nonneg.pool f, hsound.nonneg.reward,
    hsound.room a b f, hsound.closed.supply⟩

/-! ## The null account -/

theorem takeNullBalance_returns {r : Nat × AccountObject} (hfound : Found c.accounts nullAccount r) :
    ∃ total c', takeNullBalance r 0 c = .ok total c' := by
  have hroom := balance_room hsound nullAccount nullAccount default
  rw [hfound.balance] at hroom
  have hamount : Amount r.2.balance := ⟨by omega, by omega⟩
  unfold takeNullBalance
  split
  · rw [safeAdd_of_inInt64 (by rw [zero_add]; exact hamount.inInt64), neg_sgt hamount]
    obtain ⟨c', hc'⟩ := adjustBalance_returns (x := -r.2.balance) hfound.nameAt
      (by rw [hfound.balance, add_neg_cancel]; exact ⟨le_rfl, by decide⟩)
    exact ⟨_, c', bind_eq_ok.mpr ⟨_, c, rfl, bind_eq_ok.mpr ⟨_, c, rfl, bind_eq_ok.mpr ⟨(), c', hc', rfl⟩⟩⟩⟩
  · exact ⟨0, c, rfl⟩

theorem clearNullAccountBalance_returns : ∃ c', clearNullAccountBalance c = .ok () c' := by
  obtain ⟨r, hr⟩ := getAccount_of_member (s := c) hsound.closed.sink_mem
  obtain ⟨-, hfound⟩ := getAccount_eq_ok hr
  have hroom := balance_room hsound nullAccount nullAccount default
  rw [hfound.balance, hfound.savings] at hroom
  obtain ⟨total, c₁, hbal⟩ := takeNullBalance_returns hsound hfound
  obtain ⟨t, rfl, rfl, hmove⟩ := takeNullBalance_eq_ok hfound.nameAt hbal
  rw [zero_add] at hbal
  have hsav : ∃ total c', takeNullSavings r (max 0 r.2.balance) { c with accounts := t } = .ok total c' := by
    unfold takeNullSavings
    split
    · have hsum : InInt64 (max 0 r.2.balance + r.2.savingsBalance) := Amount.inInt64 ⟨by omega, by omega⟩
      have hamount : Amount r.2.savingsBalance := ⟨by omega, by omega⟩
      rw [safeAdd_of_inInt64 hsum, neg_sgt hamount]
      obtain ⟨c', hc'⟩ := adjustSavingsBalance_returns (c := { c with accounts := t })
        (x := -r.2.savingsBalance) (hmove.nameAt _ _ hfound.nameAt)
        (by rw [hmove.savings, add_zero, hfound.savings, add_neg_cancel]; exact ⟨le_rfl, by decide⟩)
      exact ⟨_, c', bind_eq_ok.mpr ⟨_, _, rfl, bind_eq_ok.mpr ⟨_, _, rfl,
        bind_eq_ok.mpr ⟨(), c', hc', rfl⟩⟩⟩⟩
    · exact ⟨_, _, rfl⟩
  obtain ⟨total', c₂, hsav⟩ := hsav
  obtain ⟨t', rfl, rfl, -⟩ := takeNullSavings_eq_ok (hmove.nameAt _ _ hfound.nameAt) hsav
  unfold clearNullAccountBalance
  rw [bind_of_ok hr, bind_of_ok hbal, bind_of_ok hsav]
  split
  · have hamount : Amount (max 0 r.2.balance + max 0 r.2.savingsBalance) := ⟨by omega, by omega⟩
    rw [neg_sgt hamount]
    exact adjustSupply_returns ⟨by dsimp only; omega, by dsimp only; omega⟩
  · exact ⟨_, rfl⟩

/-! ## Rewards -/

theorem rewardAccount_member {r : Nat × BobserverObject} (hr : r ∈ c.bobservers.rows) :
    rewardAccount r.2 ∈ memberNames c.accounts := by
  refine hsound.closed.named (.inl ⟨r.2, mem_values.mpr ⟨r.1, hr⟩, ?_⟩)
  unfold rewardAccount
  split
  · exact .inl rfl
  · split
    · exact .inr ⟨‹_›, rfl⟩
    · exact .inl rfl

theorem processFunds_returns : ∃ c', processFunds c = .ok () c' := by
  obtain ⟨b, hb, hname⟩ := hsound.closed.producer_mem
  obtain ⟨id, hid⟩ := mem_values.mp hb
  have hbob : getBobserver c.dgp.currentBobserver c = .ok (id, b) c := by
    refine getIn_eq_ok.mpr ⟨find?_of_mem hid (beq_iff_eq.mpr hname) fun a ha => ?_, rfl⟩
    exact beq_iff_eq.mpr ((beq_iff_eq.mp ha).trans hname.symm)
  obtain ⟨r, hr⟩ := getAccount_of_member (rewardAccount_member hsound hid)
  obtain ⟨-, hfound⟩ := getAccount_eq_ok hr
  have hroom := balance_room hsound (rewardAccount b) (rewardAccount b) default
  unfold processFunds
  rw [bind_of_ok (get_apply c), bind_of_ok hbob, bind_of_ok hr, bind_of_ok (get_apply c)]
  split
  · rw [neg_sgt ⟨by omega, by omega⟩]
    obtain ⟨c₁, hreward⟩ := adjustDappRewardFundBalance_returns (c := c)
      (x := -c.dappRewardFund.fundBalance) (by rw [add_neg_cancel]; exact ⟨le_rfl, by decide⟩)
    have hc₁ := adjustDappRewardFundBalance_eq_ok hreward
    obtain ⟨c₂, hcredit⟩ := adjustBalance_returns (c := c₁) (n := rewardAccount b)
      (x := c.dappRewardFund.fundBalance) (by rw [hc₁]; exact hfound.nameAt)
      (by rw [hc₁]; exact ⟨by dsimp only; omega, by dsimp only; omega⟩)
    exact ⟨c₂, bind_eq_ok.mpr ⟨_, c, rfl, bind_eq_ok.mpr ⟨(), c₁, hreward, hcredit⟩⟩⟩
  · exact ⟨c, rfl⟩

/-! ## Savings withdrawals -/

theorem paySavings_returns {r : Nat × AccountObject} (hfound : Found c.accounts n r) (hx : 0 ≤ x)
    (henough : x ≤ savings c.accounts n) : ∃ c', paySavings r x c = .ok () c' := by
  have hroom := balance_room hsound n n default
  rw [hfound.savings] at henough hroom
  unfold paySavings
  rw [bind_of_ok (show fcAssert (x ≤ r.2.savingsBalance) _ c = .ok () c from
    fcAssert_eq_ok.mpr ⟨decide_eq_true henough, rfl⟩)]
  obtain ⟨c₁, hcredit⟩ := adjustBalance_returns (x := x) hfound.nameAt ⟨by omega, by omega⟩
  obtain ⟨t, rfl, -, hmove⟩ := adjustBalance_eq_ok hcredit hfound.nameAt
  obtain ⟨c₂, hdebit⟩ := adjustSavingsBalance_returns (c := { c with accounts := t }) (x := -x)
    (hmove.nameAt _ _ hfound.nameAt)
    (by rw [hmove.savings, add_zero, hfound.savings]; exact ⟨by omega, by omega⟩)
  rw [bind_of_ok hcredit, neg_sgt ⟨hx, by omega⟩]
  exact ⟨c₂, hdebit⟩

end Sound

/-- The instalments still to come, the final one included. -/
def instalmentsLeft (t : Table SavingsWithdrawObject) : ℕ :=
  (t.values.map fun w => w.schedule.left + 1).sum

theorem instalmentsLeft_erase {t : Table SavingsWithdrawObject} {id : Nat} {w : SavingsWithdrawObject}
    (h : (id, w) ∈ t.rows) :
    instalmentsLeft t = w.schedule.left + 1 + instalmentsLeft (t.erase id) := by
  unfold instalmentsLeft
  rw [← cons_values_erase (lookup_eq_some.mpr h), Multiset.map_cons, Multiset.sum_cons]

theorem instalmentsLeft_le (t : Table SavingsWithdrawObject) :
    instalmentsLeft t ≤ 256 * t.rows.length := by
  have hbound : ∀ k ∈ t.values.map (fun w => w.schedule.left + 1), k ≤ 256 := by
    intro k hk
    obtain ⟨w, -, rfl⟩ := Multiset.mem_map.mp hk
    have := (w.splitPayMonth - w.splitPayOrder).toNat_lt
    simp only [SavingsWithdrawObject.schedule]
    omega
  have := Multiset.sum_le_card_nsmul _ 256 hbound
  simpa [instalmentsLeft, values, mul_comm] using this

/-- The schedule of the next month takes the place of the one it continues. -/
theorem clashes_nextInstalment {t : Table SavingsWithdrawObject} {id k : Nat}
    {w : SavingsWithdrawObject} (hw : (id, w) ∈ t.rows) (rest : ℤ) :
    (t.erase id).clashes k (nextInstalment w rest) = false := by
  refine clashes_eq_false fun v hv => ?_
  obtain ⟨i, hi⟩ := mem_values.mp hv
  obtain ⟨hmem, hne⟩ := mem_erase.mp hi
  refine Bool.eq_false_iff.mpr fun hclash => hne ?_
  exact congrArg Prod.fst (eq_of_clash hmem hw hclash)

section SavingsWithdraw

variable {id : Nat} {w : SavingsWithdrawObject} (hsound : SoundCore votes c)
  (hw : (id, w) ∈ c.savingsWithdraws.rows)

include hsound hw

omit hsound in
theorem schedule_mem : w.schedule ∈ (c.ledger votes).schedules :=
  Multiset.mem_map_of_mem _ (mem_values.mpr ⟨id, hw⟩)

theorem payee_found : ∃ q, getAccount w.to_ c = .ok q c ∧ Found c.accounts w.to_ q := by
  obtain ⟨q, hq⟩ := getAccount_of_member (hsound.closed.payees _ (schedule_mem hw))
  exact ⟨q, hq, (getAccount_eq_ok hq).2⟩

theorem payFinal_returns : ∃ c', payFinal id w c = .ok (frontOf c'.savingsWithdraws) c' ∧
    c'.savingsWithdraws = c.savingsWithdraws.erase id := by
  have hmem : w.schedule ∈ (c.ledger votes).schedules := schedule_mem hw
  have hfits := hsound.nonneg.schedules _ hmem
  obtain ⟨q, hq, hfound⟩ := payee_found hsound hw
  obtain ⟨c₁, hpay⟩ := paySavings_returns (x := w.amount) hsound hfound hfits.unpaid_nonneg
    (hsound.unpaid_le hmem)
  obtain ⟨-, t, rfl, -⟩ := paySavings_eq_ok hfound hpay
  refine ⟨{ c with accounts := t, savingsWithdraws := c.savingsWithdraws.erase id }, ?_, rfl⟩
  exact bind_eq_ok.mpr ⟨q, c, hq, bind_eq_ok.mpr ⟨(), _, hpay, bind_eq_ok.mpr ⟨(), _, rfl, rfl⟩⟩⟩

/-- An instalment is no more than what is unpaid. -/
theorem instalment_le (horder : w.splitPayOrder ≠ w.splitPayMonth) : w.schedule.instalment ≤ w.amount := by
  have hfits := hsound.nonneg.schedules _ (schedule_mem hw)
  exact hfits.instalment_le (sub_ne_zero_toNat horder)

theorem payInstalment_returns (horder : w.splitPayOrder ≠ w.splitPayMonth) :
    ∃ c' hc, payInstalment id w c = .ok (frontOf (c.savingsWithdraws.erase id)) c' ∧ c'.savingsWithdraws =
      (c.savingsWithdraws.erase id).insert (nextInstalment w (w.amount - w.schedule.instalment)) hc := by
  have hmem : w.schedule ∈ (c.ledger votes).schedules := schedule_mem hw
  have hfits := hsound.nonneg.schedules _ hmem
  have hunpaid : w.amount ≤ savings c.accounts w.to_ := hsound.unpaid_le hmem
  have hinst := instalment_le hsound hw horder
  have hroom := balance_room hsound w.to_ w.to_ default
  have hmonth : (w.splitPayMonth.toNat : ℤ) ≠ 0 :=
    Int.natCast_ne_zero.mpr (hsound.payable _ hmem (sub_ne_zero_toNat horder))
  have hdiv : safeDiv w.totalAmount w.splitPayMonth.toNat = .ok w.schedule.instalment := by
    unfold safeDiv
    rw [if_neg hmonth, if_neg (by omega)]
    rfl
  have hrest : safeSub w.amount w.schedule.instalment = .ok (w.amount - w.schedule.instalment) := by
    have := hfits.1
    exact safeSub_of_inInt64 (Amount.inInt64 ⟨by omega, by omega⟩)
  obtain ⟨q, hq, hfound⟩ := payee_found hsound hw
  obtain ⟨c₁, hpay⟩ := paySavings_returns hsound hfound hfits.1 (hinst.trans hunpaid)
  obtain ⟨-, t, rfl, -⟩ := paySavings_eq_ok hfound hpay
  have hclash := clashes_nextInstalment (k := (c.savingsWithdraws.erase id).nextId) hw
    (w.amount - w.schedule.instalment)
  refine ⟨{ c with accounts := t, savingsWithdraws := (c.savingsWithdraws.erase id).insert _ hclash }, hclash,
    ?_, rfl⟩
  unfold payInstalment
  rw [bind_of_ok hq, hdiv]
  refine bind_eq_ok.mpr ⟨_, c, rfl, bind_eq_ok.mpr ⟨(), _, hpay, bind_eq_ok.mpr ⟨(), _, rfl, ?_⟩⟩⟩
  refine bind_eq_ok.mpr ⟨_, _, rfl, ?_⟩
  rw [hrest]
  refine bind_eq_ok.mpr ⟨_, _, rfl, bind_eq_ok.mpr ⟨_, _, createIn_eq_ok.mpr ⟨hclash, rfl, rfl⟩, rfl⟩⟩

end SavingsWithdraw

/-- The object at the iterator exists. -/
def AtSchedule (c : Core) (id : Nat) : Prop := ∃ w, c.savingsWithdraws.lookup id = some w

theorem lookup_frontOf {t : Table SavingsWithdrawObject} {id : Nat} (h : frontOf t = some id) :
    ∃ w, t.lookup id = some w := by
  obtain ⟨r, hr, rfl⟩ := Option.map_eq_some_iff.mp h
  exact ⟨r.2, lookup_eq_some.mpr (mem_of_least? hr)⟩

theorem processSavingsWithdraw_returns (c : Core) (id : Nat) (hsound : SoundCore votes c) (hat : AtSchedule c id) :
    ∃ next c', processSavingsWithdraw id c = .ok next c' ∧ SoundCore votes c' ∧
      ∀ j, next = some j → AtSchedule c' j ∧
        instalmentsLeft c'.savingsWithdraws < instalmentsLeft c.savingsWithdraws := by
  suffices hrun : ∃ next c', processSavingsWithdraw id c = .ok next c' ∧
      ∀ j, next = some j → AtSchedule c' j ∧
        instalmentsLeft c'.savingsWithdraws < instalmentsLeft c.savingsWithdraws by
    obtain ⟨next, c', hrun, hlower⟩ := hrun
    exact ⟨next, c', hrun, hsound.sim (sim_processSavingsWithdraw _ _ _ _ hrun), hlower⟩
  obtain ⟨w, hlookup⟩ := hat
  have hw := lookup_eq_some.mp hlookup
  unfold processSavingsWithdraw
  rw [bind_of_ok (get_apply c), hlookup, bind_of_ok (show ofOption (some w) _ c = .ok w c from rfl)]
  split
  · exact ⟨none, c, rfl, fun j hj => by cases hj⟩
  split
  · obtain ⟨c', hpay, herase⟩ := payFinal_returns hsound hw
    refine ⟨_, c', hpay, fun j hj => ⟨lookup_frontOf hj, ?_⟩⟩
    rw [instalmentsLeft_erase hw, herase]
    omega
  · rename_i horder
    obtain ⟨c', hc, hpay, hinsert⟩ := payInstalment_returns hsound hw horder
    refine ⟨_, c', hpay, fun j hj => ⟨?_, ?_⟩⟩
    · obtain ⟨v, hv⟩ := lookup_frontOf hj
      have hold := (c.savingsWithdraws.erase id).fresh _ (lookup_eq_some.mp hv)
      refine ⟨v, ?_⟩
      rw [hinsert, lookup_insert, if_neg (Nat.ne_of_lt hold)]
      exact hv
    · have hleft := sub_ne_zero_toNat horder
      rw [instalmentsLeft_erase hw, hinsert]
      simp only [instalmentsLeft, values_insert, Multiset.map_cons, Multiset.sum_cons,
        schedule_nextInstalment horder]
      simp only [Schedule.next, SavingsWithdrawObject.schedule]
      omega

theorem processSavingsWithdraws_returns (hsound : SoundCore votes c) :
    ∃ c', processSavingsWithdraws c = .ok () c' ∧ SoundCore votes c' := by
  unfold processSavingsWithdraws
  rw [bind_of_ok (get_apply c), bind_of_ok (show firstSavingsWithdraw c = .ok (frontOf c.savingsWithdraws) c from rfl)]
  have hfuel := instalmentsLeft_le c.savingsWithdraws
  exact follow_returns (μ := fun c => instalmentsLeft c.savingsWithdraws)
    processSavingsWithdraw_returns _ _ c hsound (fun _ => lookup_frontOf) (by omega)

/-! ## Fund withdrawals -/

section FundWithdraw

variable {id : Nat} {w : FundWithdrawObject} (hsound : SoundCore votes c)
  (hw : (id, w) ∈ c.fundWithdraws.rows)

include hw

theorem stake_mem : w.stake ∈ (c.ledger votes).stakes :=
  Multiset.mem_map_of_mem _ (mem_values.mpr ⟨id, hw⟩)

include hsound

theorem payFundWithdraw_returns (hcover : w.amount ≤ poolBalances c.commonFunds (.ofBytes w.fundName)) :
    ∃ c', payFundWithdraw id w c = .ok () c' ∧ c'.fundWithdraws = c.fundWithdraws.erase id := by
  have hmem : w.stake ∈ (c.ledger votes).stakes := stake_mem hw
  obtain ⟨howner, hpool⟩ := hsound.closed.owners _ hmem
  change w.from_ ∈ memberNames c.accounts at howner
  have hpos : 0 ≤ w.amount := hsound.nonneg.stakes _ hmem
  have hdue : w.amount ≤ poolDues c.commonFunds (.ofBytes w.fundName) := hsound.amount_le_due hmem
  have hlimit : poolDues c.commonFunds (.ofBytes w.fundName) ≤ int64Max := hsound.closed.dues _
  have hroom := balance_room hsound w.from_ w.from_ (.ofBytes w.fundName)
  obtain ⟨q, hq⟩ := getAccount_of_member howner
  obtain ⟨-, hfound⟩ := getAccount_eq_ok hq
  obtain ⟨c₁, hcredit⟩ := adjustBalance_returns (x := w.amount) hfound.nameAt ⟨by omega, by omega⟩
  obtain ⟨t, rfl, -, -⟩ := adjustBalance_eq_ok hcredit hfound.nameAt
  obtain ⟨c₂, hdebit⟩ := adjustFundBalance_returns (c := { c with accounts := t }) (x := -w.amount) hpool
    ⟨by dsimp only; omega, by dsimp only; omega⟩
  obtain ⟨p, rfl, -, -, hmove⟩ := adjustFundBalance_eq_ok hdebit
  obtain ⟨c₃, hready⟩ := adjustFundWithdrawBalance_returns (c := { c with accounts := t, commonFunds := p })
    (x := -w.amount) (by rw [hmove.names]; exact hpool)
    (by rw [hmove.due, add_zero]; exact ⟨by dsimp only; omega, by dsimp only; omega⟩)
  obtain ⟨p', rfl, -, -⟩ := adjustFundWithdrawBalance_eq_ok hready
  refine ⟨{ c with accounts := t, commonFunds := p', fundWithdraws := c.fundWithdraws.erase id }, ?_, rfl⟩
  unfold payFundWithdraw
  rw [bind_of_ok hq, bind_of_ok hcredit, neg_sgt ⟨hpos, by omega⟩]
  exact bind_eq_ok.mpr ⟨_, _, rfl, bind_eq_ok.mpr ⟨(), _, hdebit, bind_eq_ok.mpr ⟨(), _, hready, rfl⟩⟩⟩

end FundWithdraw

theorem processFundWithdraw_returns (c : Core) (hsound : SoundCore votes c) :
    ∃ again c', processFundWithdraw c = .ok again c' ∧ SoundCore votes c' ∧
      (again = true → c'.fundWithdraws.rows.length < c.fundWithdraws.rows.length) := by
  suffices hrun : ∃ again c', processFundWithdraw c = .ok again c' ∧
      (again = true → c'.fundWithdraws.rows.length < c.fundWithdraws.rows.length) by
    obtain ⟨again, c', hrun, hlower⟩ := hrun
    exact ⟨again, c', hrun, hsound.sim (sim_processFundWithdraw _ _ _ hrun), hlower⟩
  unfold processFundWithdraw
  rw [bind_of_ok (get_apply c)]
  cases hleast : c.fundWithdraws.least? FundWithdrawObject.before with
  | none => exact ⟨false, c, rfl, by simp⟩
  | some r =>
    have hw := mem_of_least? hleast
    dsimp only
    split
    · exact ⟨false, c, rfl, by simp⟩
    obtain ⟨f, hf⟩ := getCommonFund_of_mem (hsound.closed.owners _ (stake_mem hw)).2
    obtain ⟨-, -, -, -, hbal, -⟩ := getCommonFund_eq_ok hf
    rw [bind_of_ok hf]
    split
    · exact ⟨false, c, rfl, by simp⟩
    · obtain ⟨c', hpay, herase⟩ := payFundWithdraw_returns hsound hw ((not_lt.mp ‹_›).trans hbal.ge)
      refine ⟨true, c', bind_eq_ok.mpr ⟨(), c', hpay, rfl⟩, fun _ => ?_⟩
      rw [herase]
      exact length_erase_lt hw

theorem processFundWithdraws_returns (hsound : SoundCore votes c) :
    ∃ c', processFundWithdraws c = .ok () c' ∧ SoundCore votes c' := by
  unfold processFundWithdraws
  rw [bind_of_ok (get_apply c)]
  exact loop_returns (μ := fun c => c.fundWithdraws.rows.length) processFundWithdraw_returns _ c hsound
    (Nat.lt_succ_self _)

/-! ## Recovery -/

/-- Everything the recovery loops after the first read is as it was. -/
def RecoveryKept (votes : Set ℤ) (c c' : Core) : Prop :=
  SoundCore votes c' ∧ c'.ownerAuthorityHistory = c.ownerAuthorityHistory ∧
    c'.changeRecoveryAccountRequests = c.changeRecoveryAccountRequests

theorem clearRecoveryRequest_returns (c c' : Core) (hkept : RecoveryKept votes c c') :
    ∃ again c'', clearRecoveryRequest c' = .ok again c'' ∧ RecoveryKept votes c c'' ∧
      (again = true → c''.accountRecoveryRequests.rows.length < c'.accountRecoveryRequests.rows.length) := by
  unfold clearRecoveryRequest
  rw [bind_of_ok (get_apply c')]
  cases hleast : c'.accountRecoveryRequests.least? AccountRecoveryRequestObject.before with
  | none => exact ⟨false, c', rfl, hkept, by simp⟩
  | some r =>
    dsimp only
    split
    · exact ⟨true, _, rfl, hkept, fun _ => length_erase_lt (mem_of_least? hleast)⟩
    · exact ⟨false, c', rfl, hkept, by simp⟩

theorem clearOwnerHistory_returns (c c' : Core)
    (hkept : SoundCore votes c' ∧ c'.changeRecoveryAccountRequests = c.changeRecoveryAccountRequests) :
    ∃ again c'', clearOwnerHistory c' = .ok again c'' ∧
      (SoundCore votes c'' ∧ c''.changeRecoveryAccountRequests = c.changeRecoveryAccountRequests) ∧
      (again = true → c''.ownerAuthorityHistory.rows.length < c'.ownerAuthorityHistory.rows.length) := by
  unfold clearOwnerHistory
  rw [bind_of_ok (get_apply c')]
  cases hhead : c'.ownerAuthorityHistory.rows.head? with
  | none => exact ⟨false, c', rfl, hkept, by simp⟩
  | some r =>
    dsimp only
    split
    · exact ⟨true, _, rfl, hkept, fun _ => length_erase_lt (List.mem_of_head? hhead)⟩
    · exact ⟨false, c', rfl, hkept, by simp⟩

theorem applyRecoveryChange_returns (c : Core) (hsound : SoundCore votes c) :
    ∃ again c', applyRecoveryChange c = .ok again c' ∧ SoundCore votes c' ∧
      (again = true →
        c'.changeRecoveryAccountRequests.rows.length < c.changeRecoveryAccountRequests.rows.length) := by
  suffices hrun : ∃ again c', applyRecoveryChange c = .ok again c' ∧ (again = true →
      c'.changeRecoveryAccountRequests.rows.length < c.changeRecoveryAccountRequests.rows.length) by
    obtain ⟨again, c', hrun, hlower⟩ := hrun
    exact ⟨again, c', hrun, hsound.sim (sim_applyRecoveryChange _ _ _ hrun), hlower⟩
  unfold applyRecoveryChange
  rw [bind_of_ok (get_apply c)]
  cases hleast : c.changeRecoveryAccountRequests.least? ChangeRecoveryAccountRequestObject.before with
  | none => exact ⟨false, c, rfl, by simp⟩
  | some r =>
    have hr := mem_of_least? hleast
    dsimp only
    split
    · obtain ⟨q, hq⟩ := getAccount_of_member (s := c)
        (hsound.closed.named (.inr ⟨r.2, mem_values.mpr ⟨r.1, hr⟩, rfl⟩))
      obtain ⟨-, hfound⟩ := getAccount_eq_ok hq
      obtain ⟨a, ha, -⟩ := hfound.nameAt
      obtain ⟨c', hmod⟩ := modifyIn_returns (ε := Error) (l := Index.accounts) (s := c)
        (f := fun a => .ok { a with recoveryAccount := r.2.recoveryAccount }) ha rfl fun _ => rfl
      obtain ⟨_, _, hc, -, -, rfl⟩ := modifyIn_eq_ok.mp hmod
      exact ⟨true, _, bind_eq_ok.mpr ⟨q, c, hq, bind_eq_ok.mpr ⟨(), _, hmod, rfl⟩⟩, fun _ => length_erase_lt hr⟩
    · exact ⟨false, c, rfl, by simp⟩

theorem accountRecoveryProcessing_returns (hsound : SoundCore votes c) :
    ∃ c', accountRecoveryProcessing c = .ok () c' := by
  obtain ⟨c₁, hreq, hsound₁, hhistory, hchanges⟩ := loop_returns (d := Error.diverged)
    (μ := fun c => c.accountRecoveryRequests.rows.length) (clearRecoveryRequest_returns c) _ c
    (show RecoveryKept votes c c from ⟨hsound, rfl, rfl⟩) (Nat.lt_succ_self _)
  obtain ⟨c₂, hhist, hsound₂, hchanges₂⟩ := loop_returns (d := Error.diverged)
    (μ := fun c => c.ownerAuthorityHistory.rows.length) (clearOwnerHistory_returns c₁) _ c₁
    ⟨hsound₁, rfl⟩ (Nat.lt_succ_self _)
  obtain ⟨c₃, hchange, -⟩ := loop_returns (d := Error.diverged)
    (μ := fun c => c.changeRecoveryAccountRequests.rows.length) applyRecoveryChange_returns _ c₂ hsound₂
    (Nat.lt_succ_self _)
  rw [hhistory] at hhist
  rw [hchanges₂, hchanges] at hchange
  exact ⟨c₃, bind_eq_ok.mpr ⟨c, c, rfl, bind_eq_ok.mpr ⟨(), c₁, hreq, bind_eq_ok.mpr ⟨(), c₂, hhist, hchange⟩⟩⟩⟩

/-- **The per-block routines return** from every sound state in which the null account has no savings. -/
theorem postProcess_returns (hsound : SoundCore votes c) (hset : Settled c) :
    ∃ c', postProcess c = .ok () c' := by
  obtain ⟨c₁, hnull⟩ := clearNullAccountBalance_returns hsound
  have hsound₁ := hsound.sim (sim_clearNullAccountBalance (fun _ => hset) hnull)
  obtain ⟨c₂, hfunds⟩ := processFunds_returns hsound₁
  have hsound₂ := hsound₁.sim (sim_processFunds hfunds)
  obtain ⟨c₃, hsavings, hsound₃⟩ := processSavingsWithdraws_returns hsound₂
  obtain ⟨c₄, hfund, hsound₄⟩ := processFundWithdraws_returns hsound₃
  obtain ⟨c₅, hrecovery⟩ := accountRecoveryProcessing_returns hsound₄
  exact ⟨c₅, bind_eq_ok.mpr ⟨(), c₁, hnull, bind_eq_ok.mpr ⟨(), c₂, hfunds, bind_eq_ok.mpr ⟨(), c₃, hsavings,
    bind_eq_ok.mpr ⟨(), c₄, hfund, hrecovery⟩⟩⟩⟩⟩

/-! ## Runs -/

/-- A block with covered, payable operations that leaves the null account without savings. -/
def CarefulBlock (env : Env) (node : Node) (b : SignedBlock) (d : Database) : Prop :=
  EachOperation env node (fun d op => Covered env.fundArithmetic d.core op ∧ Payable op) b d ∧
    Settled (sweptState env node b d)

theorem CarefulBlock.care {env : Env} {node : Node} {b : SignedBlock} {d : Database}
    (h : CarefulBlock env node b d) : BlockCare env fullCare node b d :=
  ⟨fun p hp => ⟨fun _ => (h.1 p hp).1, fun _ => (h.1 p hp).2⟩, fun _ => h.2⟩

theorem genesis_sound (key : PublicKey) : Sound nullAccount int64Max (genesis key).ledger := by
  rw [genesis_ledger]
  constructor
  · simp [Conserved]
  · constructor <;> simp
  · rfl
  · rfl
  · constructor <;> simp [int64Max]
  · simp [AllPayable]

theorem reachable_sound {env : Env} {d : Database} (h : Reachable env (CarefulBlock env) d) :
    Sound nullAccount int64Max d.ledger :=
  reachable_invariant (fun _ _ _ => CarefulBlock.care) genesis_sound (fun _ _ => Sound.step) h

/-- **Post-processing cannot halt the chain** while every block is careful: whatever block comes next,
once its transactions are applied the per-block routines return. -/
theorem postProcess_completes (env : Env) (d : Database) (h : Reachable env (CarefulBlock env) d)
    (node : Node) (b : SignedBlock) (hvalidate : node.skip.validate = false)
    (hcareful : CarefulBlock env node b d) (d₁ : Database) (c : Core)
    (hhead : applyBlockHead env node b d = .ok () d₁) (hprep : prepareBlock env b d₁.core = .ok () c) :
    ∃ c', postProcess c = .ok () c' := by
  have hsame := same_prepareBlock env b _ _ _ hprep
  have hset : Settled d₁.core := by
    have := hcareful.2
    rwa [sweptState, hhead, after_ok] at this
  have hsound : Sound nullAccount int64Max d₁.ledger :=
    Sound.moves (dbSim_applyBlockHead hvalidate hcareful.care.1 hhead) (reachable_sound h)
  have hprepared : SoundCore (feeVoteSet d₁.feeVotes) c := SoundCore.sim hsound hsame.sim
  exact postProcess_returns hprepared (same_accounts_settled hsame hset)

instance (env : Env) (node : Node) (b : SignedBlock) (d : Database) :
    Decidable (CarefulBlock env node b d) := inferInstanceAs (Decidable (EachOperation env node _ b d ∧ Settled _))

/-- The state in which the routines of a block start. -/
def samplePrepared (b : SignedBlock) (d : Database) : Core :=
  after (prepareBlock sampleEnv b (sweptState sampleEnv {} b d))

/-- The block after `b`, without transactions. -/
def emptyBlock (b : SignedBlock) : SignedBlock := sampleBlock (b.id sampleEnv.codec) 2 []

/-- The block after the first sample pays an instalment. -/
theorem postProcess_completes_moneyBlock :
    CarefulBlock sampleEnv {} (emptyBlock moneyBlock) (sampleAfter moneyBlock (genesis ⟨1⟩)) ∧
    ∃ c', postProcess (samplePrepared (emptyBlock moneyBlock) (sampleAfter moneyBlock (genesis ⟨1⟩))) =
      .ok () c' := by
  have hcareful : CarefulBlock sampleEnv {} moneyBlock (genesis ⟨1⟩) := by decide +kernel
  have hnext : CarefulBlock sampleEnv {} (emptyBlock moneyBlock) (sampleAfter moneyBlock (genesis ⟨1⟩)) := by
    decide +kernel
  have hreach := reachable_sampleAfter (.genesis _) hcareful (by decide +kernel)
  have hhead : succeeds (applyBlockHead sampleEnv {} (emptyBlock moneyBlock)
      (sampleAfter moneyBlock (genesis ⟨1⟩))) = true := by decide +kernel
  have hprep : succeeds (prepareBlock sampleEnv (emptyBlock moneyBlock)
      (sweptState sampleEnv {} (emptyBlock moneyBlock) (sampleAfter moneyBlock (genesis ⟨1⟩)))) = true := by
    decide +kernel
  exact ⟨hnext, postProcess_completes sampleEnv _ hreach {} _ rfl hnext _ _ (eq_ok_of_succeeds hhead)
    (eq_ok_of_succeeds hprep)⟩

/-- Save in no months at all. -/
def noMonthBlock : SignedBlock :=
  sampleBlock {} 1 [createRoot, .print ⟨rootAccount, rootAccount, sgt 10⟩,
    .transferSavings
      { from_ := rootAccount, requestId := 1, to_ := initMinerName, amount := sgt 10, splitPayOrder := 1,
        splitPayMonth := 0, memo := [], complete := genesisTime + 4 }]

/-- The schedule is accepted, and the routines of the next block divide by its zero months. -/
theorem noMonth_halts : Reachable sampleEnv anyBlock (sampleAfter noMonthBlock (genesis ⟨1⟩)) ∧
    succeeds (applyBlockHead sampleEnv {} (emptyBlock noMonthBlock) (sampleAfter noMonthBlock (genesis ⟨1⟩))) =
      true ∧
    succeeds (prepareBlock sampleEnv (emptyBlock noMonthBlock)
      (sweptState sampleEnv {} (emptyBlock noMonthBlock) (sampleAfter noMonthBlock (genesis ⟨1⟩)))) = true ∧
    thrown (postProcess (samplePrepared (emptyBlock noMonthBlock) (sampleAfter noMonthBlock (genesis ⟨1⟩)))) =
      some .divideByZero := by
  refine ⟨reachable_sampleAfter (.genesis _) trivial (by decide +kernel), ?_⟩
  decide +kernel

end Sigmaengine
