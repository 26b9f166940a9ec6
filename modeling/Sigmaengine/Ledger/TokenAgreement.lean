import Sigmaengine.Ledger.TokenQueue

/-!
# States that agree on a token

The balance, the fund, the stakes and the schedules of one token, found by their keys, and what an adjustment makes
of them.  Two states can agree on a token and differ in all others (`AgreeOn`).  The routine over the stakes pays the
same ones of the token in both when it returns in both; a stake that its fund cannot pay stops it.
-/

namespace Sigmaengine.Token

open Sigmaengine Effect Table Finsupp

variable {s s' : TokenIndices} {u : Unit} {v : CoreView} {side : Side} {account : AccountName}
  {token : TokenName} {delta : Asset} {now : TimePointSec}

/-! ## Objects by their keys -/

/-- The balance object of an account in a token. -/
def balanceOf (s : TokenIndices) (account : AccountName) (token : TokenName) : Option TokenBalanceObject :=
  s.balances.at? fun b => b.account == account && b.token == token

/-- A fund of a token. -/
def fundOf (s : TokenIndices) (token : TokenName) (fund : FundName) : Option TokenFundObject :=
  s.funds.at? fun f => f.token == token && f.fundName == fund

theorem uniqueKey_balance (account : AccountName) (token : TokenName) :
    UniqueKey fun b : TokenBalanceObject => b.account == account && b.token == token := by
  intro a b ha hb
  simp only [Bool.and_eq_true, beq_iff_eq] at ha hb
  simp [Clash.clash, ha, hb]

theorem uniqueKey_fund (token : TokenName) (fund : FundName) :
    UniqueKey fun f : TokenFundObject => f.token == token && f.fundName == fund := by
  intro a b ha hb
  simp only [Bool.and_eq_true, beq_iff_eq] at ha hb
  simp [Clash.clash, ha, hb]

/-- What an adjustment makes of the balance object it finds. -/
def adjusted (now : TimePointSec) (side : Side) (account : AccountName) (token : TokenName) (delta : Asset) :
    Option TokenBalanceObject → Option TokenBalanceObject
  | .none => Option.some (side.open_ now account token delta)
  | .some b =>
    if delta.amount < 0 ∧ (side.other b).amount = 0 ∧ side.read b = ⟨-delta.amount, delta.symbol⟩ then Option.none
    else Option.some (side.write now ⟨(side.read b).amount + delta.amount, (side.read b).symbol⟩ b)

/-- Only the balance object of one account and token is another one. -/
structure BalanceChanged (account : AccountName) (token : TokenName) (o : Option TokenBalanceObject)
    (s s' : TokenIndices) : Prop where
  rest : ∃ t, s' = { s with balances := t }
  here : balanceOf s' account token = o
  others : ∀ a k, (a, k) ≠ (account, token) → balanceOf s' a k = balanceOf s a k

theorem key_eq_false {b : TokenBalanceObject} {a : AccountName} {k : TokenName}
    (h : (a, k) ≠ (b.account, b.token)) : (b.account == a && b.token == k) = false := by
  rw [Bool.and_eq_false_iff]
  by_contra hboth
  simp only [not_or, Bool.not_eq_false, beq_iff_eq] at hboth
  exact h (by rw [hboth.1, hboth.2])

theorem key_self (b : TokenBalanceObject) : (b.account == b.account && b.token == b.token) = true := by simp

theorem balanceChanged_replace {id : Nat} {a b : TokenBalanceObject} (ha : s.balances.lookup id = some a)
    (hc : s.balances.clashes id b = false) (haccount : b.account = a.account) (htoken : b.token = a.token) :
    BalanceChanged a.account a.token (some b) s { s with balances := s.balances.replace id b hc } where
  rest := ⟨_, rfl⟩
  here := by
    have hat := at?_replace (uniqueKey_balance a.account a.token) ha hc (by rw [haccount, htoken])
    rw [if_pos (key_self a)] at hat
    exact hat
  others x k hne := by
    have hat := at?_replace (uniqueKey_balance x k) ha hc (by rw [haccount, htoken])
    rw [key_eq_false hne] at hat
    exact hat

theorem balanceChanged_erase {id : Nat} {a : TokenBalanceObject} (ha : s.balances.lookup id = some a) :
    BalanceChanged a.account a.token none s { s with balances := s.balances.erase id } where
  rest := ⟨_, rfl⟩
  here := by
    have hat := at?_erase (uniqueKey_balance a.account a.token) ha
    rw [if_pos (key_self a)] at hat
    exact hat
  others x k hne := by
    have hat := at?_erase (uniqueKey_balance x k) ha
    rw [key_eq_false hne] at hat
    exact hat

theorem balanceChanged_insert {b : TokenBalanceObject} (hc : s.balances.clashes s.balances.nextId b = false) :
    BalanceChanged b.account b.token (some b) s { s with balances := s.balances.insert b hc } where
  rest := ⟨_, rfl⟩
  here := by
    have hat := at?_insert (uniqueKey_balance b.account b.token) hc
    rw [if_pos (key_self b)] at hat
    exact hat
  others x k hne := by
    have hat := at?_insert (uniqueKey_balance x k) hc
    rw [key_eq_false hne] at hat
    exact hat

theorem balanceChanged_addSide {id : Nat} {b : TokenBalanceObject} (hb : (id, b) ∈ s.balances.rows)
    (h : addSide v side id delta s = .ok u s') :
    BalanceChanged b.account b.token
      (some (side.write v.now ⟨(side.read b).amount + delta.amount, (side.read b).symbol⟩ b)) s s' := by
  obtain ⟨a, c, hc, ha, hf, rfl⟩ := modifyIn_eq_ok.mp h
  obtain rfl := eq_of_mem (lookup_eq_some.mp ha) hb
  obtain ⟨n, hadd, rfl⟩ := map_eq_ok hf
  obtain ⟨-, hsum, hsym⟩ := Asset.add_eq_ok hadd
  have hn : n = ⟨(side.read a).amount + delta.amount, (side.read a).symbol⟩ := by
    have hamount := safeAdd_eq_ok hsum
    cases n
    simp only at hamount hsym
    rw [hamount, hsym]
  rw [← hn]
  cases side with
  | balance => exact balanceChanged_replace ha hc rfl rfl
  | savings => exact balanceChanged_replace ha hc rfl rfl

/-- **An adjustment that returns**, as a function of the balance object. -/
theorem balanceChanged_adjustSide (h : adjustSide v side account token delta s = .ok u s') :
    BalanceChanged account token (adjusted v.now side account token delta (balanceOf s account token)) s s' := by
  simp only [adjustSide, bind_eq_ok, findIn_eq_ok, fcAssert_eq_ok] at h
  obtain ⟨found, _, ⟨hfound, rfl⟩, _, _, ⟨-, rfl⟩, h⟩ := h
  have hof : balanceOf s account token = found.map Prod.snd := congrArg (Option.map Prod.snd) hfound
  cases found with
  | none =>
    rw [hof]
    split at h
    · simp only [debitSide, bind_eq_ok, ofOption_eq_ok] at h
      obtain ⟨_, _, ⟨hnone, -⟩, -⟩ := h
      cases hnone
    · simp only [creditSide, bind_eq_ok, createIn_eq_ok, pure_eq_ok] at h
      obtain ⟨_, _, ⟨hc, -, rfl⟩, -, rfl⟩ := h
      cases side with
      | balance => exact balanceChanged_insert hc
      | savings => exact balanceChanged_insert hc
  | some b =>
    rw [hof]
    obtain ⟨hmem, hkey⟩ := mem_of_find? hfound
    simp only [Bool.and_eq_true, beq_iff_eq] at hkey
    obtain ⟨rfl, rfl⟩ := hkey
    split at h
    next hneg =>
      simp only [debitSide, bind_eq_ok, ofOption_eq_ok, fcAssert_eq_ok, checked_eq_ok] at h
      obtain ⟨_, _, ⟨hb, rfl⟩, _, _, ⟨-, rfl⟩, owed, _, ⟨howed, rfl⟩, h⟩ := h
      cases hb
      obtain ⟨hamount, hsym⟩ := Asset.neg_eq_ok howed
      obtain rfl : owed = ⟨-delta.amount, delta.symbol⟩ := by
        cases owed
        simp only at hamount hsym
        rw [hamount, hsym]
      split at h
      next hempty =>
        obtain rfl := removeIn_eq_ok.mp h
        simp only [Option.map_some, adjusted]
        rw [if_pos ⟨hneg, hempty⟩]
        exact balanceChanged_erase (lookup_eq_some.mpr hmem)
      next hrest =>
        simp only [bind_eq_ok, checked_eq_ok, fcAssert_eq_ok] at h
        obtain ⟨_, _, ⟨-, rfl⟩, _, _, ⟨-, rfl⟩, hadd⟩ := h
        simp only [Option.map_some, adjusted]
        rw [if_neg fun hall => hrest hall.2]
        exact balanceChanged_addSide hmem hadd
    next hpos =>
      simp only [creditSide, bind_eq_ok, fcAssert_eq_ok] at h
      obtain ⟨_, _, ⟨-, rfl⟩, hadd⟩ := h
      simp only [Option.map_some, adjusted]
      rw [if_neg fun hall => hpos hall.1]
      exact balanceChanged_addSide hmem hadd

/-- What an adjustment makes of a fund. -/
def adjustedFund (now : TimePointSec) (delta withdrawDelta : Asset) (f : TokenFundObject) : TokenFundObject :=
  { f with
    balance := ⟨f.balance.amount + delta.amount, f.balance.symbol⟩
    withdrawBalance := ⟨f.withdrawBalance.amount + withdrawDelta.amount, f.withdrawBalance.symbol⟩
    lastUpdated := now }

theorem moveFund_eq_adjustedFund {withdrawDelta : Asset} {f f' : TokenFundObject}
    (h : moveFund now delta withdrawDelta f = .ok f') : f' = adjustedFund now delta withdrawDelta f := by
  unfold moveFund at h
  cases hb : f.balance.add delta with
  | error e => simp [hb] at h
  | ok b =>
    cases hw : f.withdrawBalance.add withdrawDelta with
    | error e => simp [hb, hw] at h
    | ok w =>
      simp only [hb, hw] at h
      cases h
      obtain ⟨-, hbsum, hbsym⟩ := Asset.add_eq_ok hb
      obtain ⟨-, hwsum, hwsym⟩ := Asset.add_eq_ok hw
      have hbn := safeAdd_eq_ok hbsum
      have hwn := safeAdd_eq_ok hwsum
      unfold adjustedFund
      rw [← hbn, ← hwn, ← hbsym, ← hwsym]

/-- **A fund that is adjusted**, as a function of the fund object. -/
theorem fundOf_adjustTokenFundBalance {fund : FundName} {withdrawDelta : Asset}
    (h : adjustTokenFundBalance v token fund delta withdrawDelta s = .ok u s') :
    ∃ t, s' = { s with funds := t } ∧
      fundOf s' token fund = (fundOf s token fund).map (adjustedFund v.now delta withdrawDelta) ∧
      ∀ k g, (k, g) ≠ (token, fund) → fundOf s' k g = fundOf s k g := by
  simp only [adjustTokenFundBalance, bind_eq_ok, findIn_eq_ok, ofOption_eq_ok, fcAssert_eq_ok,
    checked_eq_ok] at h
  obtain ⟨_, _, ⟨hfound, rfl⟩, f, _, ⟨rfl, rfl⟩, _, _, ⟨-, rfl⟩, _, _, ⟨-, rfl⟩, _, _, ⟨-, rfl⟩, _, _, ⟨-, rfl⟩, _,
    _, ⟨-, rfl⟩, hmod⟩ := h
  have hof : fundOf s token fund = some f.2 := congrArg (Option.map Prod.snd) hfound
  obtain ⟨hmem, hkey⟩ := mem_of_find? hfound
  obtain ⟨a, b, hc, ha, hf, rfl⟩ := modifyIn_eq_ok.mp hmod
  obtain rfl := eq_of_mem (lookup_eq_some.mp ha) hmem
  obtain rfl := moveFund_eq_adjustedFund hf
  refine ⟨_, rfl, ?_, ?_⟩
  · rw [hof, Option.map_some]
    have hat := at?_replace (uniqueKey_fund token fund) ha hc rfl
    rw [if_pos hkey] at hat
    exact hat
  · intro k g hne
    have hat := at?_replace (uniqueKey_fund k g) ha hc rfl
    simp only [Bool.and_eq_true, beq_iff_eq] at hkey
    rw [if_neg] at hat
    · exact hat
    · simp only [Bool.and_eq_true, beq_iff_eq]
      rintro ⟨rfl, rfl⟩
      exact hne (Prod.ext hkey.1 hkey.2)

/-! ## States that agree on a token -/

/-- The stake with the given id, if it is of the token. -/
def stakeOf (s : TokenIndices) (token : TokenName) (id : Nat) : Option TokenFundWithdrawObject :=
  (s.fundWithdraws.lookup id).filter fun w => w.token == token

/-- The schedule with the given id, if it is of the token. -/
def scheduleOf (s : TokenIndices) (token : TokenName) (id : Nat) : Option TokenSavingsWithdrawObject :=
  (s.savingsWithdraws.lookup id).filter fun w => w.token == token

/-- Two states with the same balances, funds, stakes and schedules of a token. -/
structure AgreeOn (token : TokenName) (s s' : TokenIndices) : Prop where
  balances : ∀ a, balanceOf s a token = balanceOf s' a token
  funds : ∀ f, fundOf s token f = fundOf s' token f
  stakes : ∀ id, stakeOf s token id = stakeOf s' token id
  schedules : ∀ id, scheduleOf s token id = scheduleOf s' token id

theorem AgreeOn.refl (token : TokenName) (s : TokenIndices) : AgreeOn token s s :=
  ⟨fun _ => rfl, fun _ => rfl, fun _ => rfl, fun _ => rfl⟩

theorem AgreeOn.symm (h : AgreeOn token s s') : AgreeOn token s' s :=
  ⟨fun a => (h.balances a).symm, fun f => (h.funds f).symm, fun id => (h.stakes id).symm,
    fun id => (h.schedules id).symm⟩

theorem AgreeOn.trans {s'' : TokenIndices} (h : AgreeOn token s s') (h' : AgreeOn token s' s'') :
    AgreeOn token s s'' :=
  ⟨fun a => (h.balances a).trans (h'.balances a), fun f => (h.funds f).trans (h'.funds f),
    fun id => (h.stakes id).trans (h'.stakes id), fun id => (h.schedules id).trans (h'.schedules id)⟩

theorem stakeOf_eq_some {id : Nat} {w : TokenFundWithdrawObject} :
    stakeOf s token id = some w ↔ (id, w) ∈ s.fundWithdraws.rows ∧ w.token = token := by
  simp [stakeOf, Option.filter_eq_some_iff, lookup_eq_some]

theorem scheduleOf_eq_some {id : Nat} {w : TokenSavingsWithdrawObject} :
    scheduleOf s token id = some w ↔ (id, w) ∈ s.savingsWithdraws.rows ∧ w.token = token := by
  simp [scheduleOf, Option.filter_eq_some_iff, lookup_eq_some]

theorem mem_rows_of_filter {α : Type} {rows rows' : List α} {p : α → Bool} (h : rows.filter p = rows'.filter p) {r : α}
    (hr : p r = true) : r ∈ rows ↔ r ∈ rows' := by
  have hiff : r ∈ rows.filter p ↔ r ∈ rows'.filter p := by rw [h]
  simpa only [List.mem_filter, hr, and_true] using hiff

/-- States whose tables have the same rows of a token agree on it. -/
theorem agreeOn_of_rows
    (hbalances : s.balances.rows.filter (fun r => r.2.token == token) =
      s'.balances.rows.filter fun r => r.2.token == token)
    (hfunds : s.funds.rows.filter (fun r => r.2.token == token) = s'.funds.rows.filter fun r => r.2.token == token)
    (hstakes : s.fundWithdraws.rows.filter (fun r => r.2.token == token) =
      s'.fundWithdraws.rows.filter fun r => r.2.token == token)
    (hschedules : s.savingsWithdraws.rows.filter (fun r => r.2.token == token) =
      s'.savingsWithdraws.rows.filter fun r => r.2.token == token) : AgreeOn token s s' := by
  have hvalues : ∀ {α : Type} [Clash α] {t t' : Table α} {key : α → TokenName},
      t.rows.filter (fun r => key r.2 == token) = t'.rows.filter (fun r => key r.2 == token) →
      ∀ a, key a = token → (a ∈ t.values ↔ a ∈ t'.values) := by
    intro α _ t t' key hrows a ha
    rw [mem_values, mem_values]
    refine exists_congr fun id => ?_
    exact mem_rows_of_filter hrows (by rw [ha]; exact beq_self_eq_true token)
  refine ⟨fun a => ?_, fun f => ?_, fun id => ?_, fun id => ?_⟩
  · refine Option.ext fun b => ?_
    unfold balanceOf
    rw [at?_eq_some (uniqueKey_balance a token), at?_eq_some (uniqueKey_balance a token)]
    refine and_congr_left fun hkey => hvalues hbalances b ?_
    simp only [Bool.and_eq_true, beq_iff_eq] at hkey
    exact hkey.2
  · refine Option.ext fun g => ?_
    unfold fundOf
    rw [at?_eq_some (uniqueKey_fund token f), at?_eq_some (uniqueKey_fund token f)]
    refine and_congr_left fun hkey => hvalues hfunds g ?_
    simp only [Bool.and_eq_true, beq_iff_eq] at hkey
    exact hkey.1
  · refine Option.ext fun w => ?_
    rw [stakeOf_eq_some, stakeOf_eq_some]
    exact and_congr_left fun htoken => mem_rows_of_filter hstakes (beq_iff_eq.mpr htoken)
  · refine Option.ext fun w => ?_
    rw [scheduleOf_eq_some, scheduleOf_eq_some]
    exact and_congr_left fun htoken => mem_rows_of_filter hschedules (beq_iff_eq.mpr htoken)

/-! ## Stakes -/

/-- The stake `r` has been paid. -/
structure StakePaid (now : TimePointSec) (r : Nat × TokenFundWithdrawObject) (s s' : TokenIndices) : Prop where
  balance : balanceOf s' r.2.from_ r.2.token =
    adjusted now .balance r.2.from_ r.2.token r.2.amount (balanceOf s r.2.from_ r.2.token)
  balances : ∀ a k, (a, k) ≠ (r.2.from_, r.2.token) → balanceOf s' a k = balanceOf s a k
  fund : fundOf s' r.2.token r.2.fundName = (fundOf s r.2.token r.2.fundName).map
    (adjustedFund now ⟨-r.2.amount.amount, r.2.amount.symbol⟩ ⟨-r.2.amount.amount, r.2.amount.symbol⟩)
  funds : ∀ k g, (k, g) ≠ (r.2.token, r.2.fundName) → fundOf s' k g = fundOf s k g
  stakes : s'.fundWithdraws = s.fundWithdraws.erase r.1
  schedules : s'.savingsWithdraws = s.savingsWithdraws
  order : s'.bySavingsNextDate = s.bySavingsNextDate

/-- The front of the queue of stakes. -/
def firstStake (s : TokenIndices) : Option (Nat × TokenFundWithdrawObject) :=
  s.fundWithdraws.least? TokenFundWithdrawObject.before

theorem firstStake_le {r : Nat × TokenFundWithdrawObject} (h : firstStake s = some r)
    {x : Nat × TokenFundWithdrawObject} (hx : x ∈ s.fundWithdraws.rows) :
    r.2.complete ≤ x.2.complete ∧ (r.2.complete = x.2.complete → r.1 ≤ x.1) :=
  least?_le (k := TokenFundWithdrawObject.complete) (fun _ _ => rfl) h hx

/-- **One round** of the loop over the stakes: nothing is due, or the first stake is paid. -/
theorem stakeStep_eq_ok {again : Bool} (h : processTokenFundWithdrawStep v s = .ok again s') :
    (again = false ∧ s' = s ∧ ∀ r ∈ s.fundWithdraws.rows, v.now < r.2.complete) ∨
      (again = true ∧ ∃ r, firstStake s = some r ∧ r.2.complete ≤ v.now ∧ StakePaid v.now r s s') := by
  unfold processTokenFundWithdrawStep at h
  rw [bind_of_ok (get_apply s)] at h
  cases hfirst : s.fundWithdraws.least? TokenFundWithdrawObject.before with
  | none =>
    rw [hfirst] at h
    obtain ⟨rfl, rfl⟩ := pure_eq_ok.mp h
    refine .inl ⟨rfl, rfl, fun r hr => ?_⟩
    rw [rows_of_least?_none hfirst] at hr
    cases hr
  | some r =>
    rw [hfirst] at h
    dsimp only at h
    split at h
    next hlater =>
      obtain ⟨rfl, rfl⟩ := pure_eq_ok.mp h
      exact .inl ⟨rfl, rfl, fun x hx => lt_of_lt_of_le hlater (firstStake_le hfirst hx).1⟩
    next hdue =>
      simp only [bind_eq_ok, checked_eq_ok, removeIn_eq_ok, pure_eq_ok] at h
      obtain ⟨δ, _, ⟨hneg, rfl⟩, _, s₁, hfund, _, s₂, hcredit, _, _, rfl, rfl, rfl⟩ := h
      refine .inr ⟨rfl, r, hfirst, not_lt.mp hdue, ?_⟩
      obtain ⟨hδ, hδsym⟩ := Asset.neg_eq_ok hneg
      obtain rfl : δ = ⟨-r.2.amount.amount, r.2.amount.symbol⟩ := by
        cases δ
        simp only at hδ hδsym
        rw [hδ, hδsym]
      obtain ⟨t, rfl, hhere, hothers⟩ := fundOf_adjustTokenFundBalance hfund
      have hchanged := balanceChanged_adjustSide hcredit
      obtain ⟨t', rfl⟩ := hchanged.rest
      exact ⟨hchanged.here, hchanged.others, hhere, hothers, rfl, rfl, rfl⟩

/-- Paying a stake of another token changes nothing of this one. -/
theorem AgreeOn.otherStake {r : Nat × TokenFundWithdrawObject} (hr : r ∈ s.fundWithdraws.rows)
    (hother : r.2.token ≠ token) (h : StakePaid now r s s') : AgreeOn token s s' where
  balances a := (h.balances a token fun heq => hother (Prod.mk.inj heq).2.symm).symm
  funds f := (h.funds token f fun heq => hother (Prod.mk.inj heq).1.symm).symm
  stakes id := by
    unfold stakeOf
    rw [h.stakes, lookup_erase]
    split
    next heq =>
      have hlookup : s.fundWithdraws.lookup id = some r.2 := lookup_eq_some.mpr (heq ▸ hr)
      rw [hlookup, Option.filter_some, if_neg (by simpa using hother)]
      rfl
    next => rfl
  schedules id := by
    unfold scheduleOf
    rw [h.schedules]

/-- Paying the same stake of this token keeps the agreement. -/
theorem AgreeOn.sameStake {r : Nat × TokenFundWithdrawObject} {t t' : TokenIndices} (hagree : AgreeOn token s s')
    (htoken : r.2.token = token) (h : StakePaid now r s t) (h' : StakePaid now r s' t') : AgreeOn token t t' := by
  subst htoken
  refine ⟨fun a => ?_, fun f => ?_, fun id => ?_, fun id => ?_⟩
  · by_cases ha : a = r.2.from_
    · rw [ha, h.balance, h'.balance, hagree.balances]
    · have hne : (a, r.2.token) ≠ (r.2.from_, r.2.token) := fun heq => ha (Prod.mk.inj heq).1
      rw [h.balances a _ hne, h'.balances a _ hne, hagree.balances]
  · by_cases hf : f = r.2.fundName
    · rw [hf, h.fund, h'.fund, hagree.funds]
    · have hne : (r.2.token, f) ≠ (r.2.token, r.2.fundName) := fun heq => hf (Prod.mk.inj heq).2
      rw [h.funds _ f hne, h'.funds _ f hne, hagree.funds]
  · have hstakes := hagree.stakes id
    unfold stakeOf at hstakes ⊢
    rw [h.stakes, h'.stakes, lookup_erase, lookup_erase]
    split
    · rfl
    · exact hstakes
  · have hschedules := hagree.schedules id
    unfold scheduleOf at hschedules ⊢
    rw [h.schedules, h'.schedules]
    exact hschedules

/-- The first stakes of two states that agree on their token are the same. -/
theorem firstStake_eq {r r' : Nat × TokenFundWithdrawObject} (hagree : AgreeOn token s s')
    (h : firstStake s = some r) (h' : firstStake s' = some r') (hr : r.2.token = token) (hr' : r'.2.token = token) :
    r = r' := by
  have hmem := mem_of_least? h
  have hmem' := mem_of_least? h'
  have hin' : r ∈ s'.fundWithdraws.rows :=
    (stakeOf_eq_some.mp ((hagree.stakes r.1).symm.trans (stakeOf_eq_some.mpr ⟨hmem, hr⟩))).1
  have hin : r' ∈ s.fundWithdraws.rows :=
    (stakeOf_eq_some.mp ((hagree.stakes r'.1).trans (stakeOf_eq_some.mpr ⟨hmem', hr'⟩))).1
  obtain ⟨hle, hid⟩ := firstStake_le h hin
  obtain ⟨hle', hid'⟩ := firstStake_le h' hin'
  have hids : r.1 = r'.1 := le_antisymm (hid (le_antisymm hle hle')) (hid' (le_antisymm hle' hle))
  refine Prod.ext hids (eq_of_mem (i := r.1) hmem ?_)
  rw [hids]
  exact hin

/-- **The loop over the stakes** pays the same ones of a token in two states that agree on it, when it
returns in both. -/
theorem agree_stakeLoop {v' : CoreView} {e : Error} {fuel fuel' : Nat} {t t' : TokenIndices}
    (hnow : v.now = v'.now) (hagree : AgreeOn token s s')
    (h : loop e (processTokenFundWithdrawStep v) fuel s = .ok () t)
    (h' : loop e (processTokenFundWithdrawStep v') fuel' s' = .ok () t') : AgreeOn token t t' := by
  -- the rounds of the two loops that pay other tokens are skipped, the others go in step
  induction hn : fuel + fuel' using Nat.strong_induction_on generalizing fuel fuel' s s' with
  | _ n ih =>
    cases fuel with
    | zero => exact (throw_eq_ok.mp h).elim
    | succ fuel =>
      cases fuel' with
      | zero => exact (throw_eq_ok.mp h').elim
      | succ fuel' =>
        have hloop := h
        have hloop' := h'
        obtain ⟨again, s₁, hstep, hrest⟩ := bind_eq_ok.mp h
        obtain ⟨again', s₁', hstep', hrest'⟩ := bind_eq_ok.mp h'
        have hcases' := stakeStep_eq_ok hstep'
        rw [← hnow] at hcases'
        rcases stakeStep_eq_ok hstep with ⟨rfl, rfl, hnone⟩ | ⟨rfl, r, hfirst, hdue, hpaid⟩
        · rcases hcases' with ⟨rfl, rfl, -⟩ | ⟨rfl, r', hfirst', hdue', hpaid'⟩
          · obtain ⟨-, rfl⟩ := pure_eq_ok.mp hrest
            obtain ⟨-, rfl⟩ := pure_eq_ok.mp hrest'
            exact hagree
          · by_cases hother : r'.2.token = token
            · have hmem := stakeOf_eq_some.mp ((hagree.stakes r'.1).trans
                (stakeOf_eq_some.mpr ⟨mem_of_least? hfirst', hother⟩))
              exact absurd hdue' (not_le.mpr (hnone _ hmem.1))
            · exact ih _ (by omega) (hagree.trans (.otherStake (mem_of_least? hfirst') hother hpaid')) hloop hrest' rfl
        · by_cases hother : r.2.token = token
          · rcases hcases' with ⟨rfl, rfl, hnone⟩ | ⟨rfl, r', hfirst', hdue', hpaid'⟩
            · have hmem := stakeOf_eq_some.mp ((hagree.stakes r.1).symm.trans
                (stakeOf_eq_some.mpr ⟨mem_of_least? hfirst, hother⟩))
              exact absurd hdue (not_le.mpr (hnone _ hmem.1))
            · by_cases hother' : r'.2.token = token
              · obtain rfl := firstStake_eq hagree hfirst hfirst' hother hother'
                exact ih _ (by omega) (hagree.sameStake hother hpaid hpaid') hrest hrest' rfl
              · exact ih _ (by omega) (hagree.trans (.otherStake (mem_of_least? hfirst') hother' hpaid')) hloop hrest'
                  rfl
          · refine ih _ (by omega) (AgreeOn.trans ?_ hagree) hrest hloop' rfl
            exact (AgreeOn.otherStake (mem_of_least? hfirst) hother hpaid).symm

/-! ## Funds that can pay -/

/-- What a fund of a token has to pay by now. -/
def dueIn (v : CoreView) (s : TokenIndices) (token : TokenName) (fund : FundName) : ℤ :=
  s.fundWithdraws.sum fun w =>
    if w.token = token ∧ w.fundName = fund ∧ w.complete ≤ v.now then w.amount.amount else 0

/-- The funds of the token can pay what is due of it. -/
def FundsCover (v : CoreView) (token : TokenName) (s : TokenIndices) : Prop :=
  ∀ w ∈ s.fundWithdraws.values, w.token = token → w.complete ≤ v.now →
    ∃ f, fundOf s token w.fundName = some f ∧ f.withdrawBalance.symbol = w.amount.symbol ∧
      dueIn v s token w.fundName ≤ f.balance.amount ∧ dueIn v s token w.fundName ≤ f.withdrawBalance.amount

theorem le_dueIn {lost : TokenName →₀ ℤ} (hsound : TokenSound v lost s) {w : TokenFundWithdrawObject}
    (hw : w ∈ s.fundWithdraws.values) (hdue : w.complete ≤ v.now) : w.amount.amount ≤ dueIn v s w.token w.fundName := by
  have hpos : ∀ x ∈ s.fundWithdraws.values,
      0 ≤ if x.token = w.token ∧ x.fundName = w.fundName ∧ x.complete ≤ v.now then x.amount.amount else 0 := by
    intro x hx
    split
    · exact (hsound.stakes x hx).nonneg
    · exact le_rfl
  have hle := le_sum_of_mem hpos hw
  rw [if_pos ⟨rfl, rfl, hdue⟩] at hle
  exact hle

theorem neg_of_le {x : ℤ} (symbol : AssetSymbol) (hpos : 0 ≤ x) (hmax : x ≤ int64Max) :
    Asset.neg ⟨-x, symbol⟩ = .ok ⟨x, symbol⟩ ∧ Asset.neg ⟨x, symbol⟩ = .ok ⟨-x, symbol⟩ := by
  have hmin : -x ≠ int64Min ∧ x ≠ int64Min := by
    unfold int64Min
    unfold int64Max at hmax
    omega
  unfold Asset.neg safeNeg
  rw [if_neg hmin.1, if_neg hmin.2, neg_neg]
  exact ⟨rfl, rfl⟩

theorem covers_of_le {field : Asset} {x : ℤ} (hpos : 0 ≤ x) (hle : x ≤ field.amount) (hmax : x ≤ int64Max) :
    covers field ⟨-x, field.symbol⟩ = .ok true := by
  unfold covers
  by_cases hzero : 0 ≤ -x
  · exact if_pos hzero
  · rw [if_neg hzero, (neg_of_le _ hpos hmax).1]
    show field.ge ⟨x, field.symbol⟩ = .ok true
    unfold Asset.ge
    rw [if_pos rfl, decide_eq_true hle]

theorem add_neg_of_le {field : Asset} {x : ℤ} (hpos : 0 ≤ x) (hle : x ≤ field.amount) :
    field.add ⟨-x, field.symbol⟩ = .ok ⟨field.amount + -x, field.symbol⟩ := by
  have hsum : safeAdd field.amount (-x) = .ok (field.amount + -x) := by
    unfold safeAdd
    rw [if_neg (by omega), if_neg (by unfold int64Min; omega)]
  unfold Asset.add
  rw [if_pos rfl]
  exact congrArg (Except.map _) hsum

/-- **A debit of a fund returns** when both its amounts cover it. -/
theorem debitFund_returns {fund : FundName} {f : TokenFundObject} {x : ℤ} (hf : fundOf s token fund = some f)
    (hpos : 0 ≤ x) (hbalance : x ≤ f.balance.amount) (hwithdraw : x ≤ f.withdrawBalance.amount)
    (hmax : x ≤ int64Max) (hsym : f.withdrawBalance.symbol = f.balance.symbol) :
    ∃ s', adjustTokenFundBalance v token fund ⟨-x, f.balance.symbol⟩ ⟨-x, f.balance.symbol⟩ s = .ok () s' := by
  obtain ⟨r, hfound, rfl⟩ := Option.map_eq_some_iff.mp hf
  obtain ⟨hmem, -⟩ := mem_of_find? hfound
  have hmove : moveFund v.now ⟨-x, r.2.balance.symbol⟩ ⟨-x, r.2.balance.symbol⟩ r.2 =
      .ok (adjustedFund v.now ⟨-x, r.2.balance.symbol⟩ ⟨-x, r.2.balance.symbol⟩ r.2) := by
    have hadd := add_neg_of_le hpos hwithdraw
    rw [hsym] at hadd
    unfold moveFund adjustedFund
    rw [add_neg_of_le hpos hbalance, hadd, hsym]
  have hcovers := covers_of_le hpos hwithdraw hmax
  rw [hsym] at hcovers
  obtain ⟨s', hmod⟩ := modifyIn_returns (l := Index.funds) (s := s) (lookup_eq_some.mpr hmem) hmove fun _ => rfl
  refine ⟨s', ?_⟩
  simp only [adjustTokenFundBalance, bind_eq_ok, findIn_eq_ok, ofOption_eq_ok, fcAssert_eq_ok, checked_eq_ok]
  exact ⟨_, s, ⟨hfound, rfl⟩, r, s, ⟨rfl, rfl⟩, (), s, ⟨beq_self_eq_true _, rfl⟩, true, s,
    ⟨covers_of_le hpos hbalance hmax, rfl⟩, (), s, ⟨rfl, rfl⟩, true, s, ⟨hcovers, rfl⟩, (), s, ⟨rfl, rfl⟩, hmod⟩

/-- Funds that can pay still can after a stake is paid. -/
theorem FundsCover.paid {r : Nat × TokenFundWithdrawObject}
    (hr : r ∈ s.fundWithdraws.rows) (hdue : r.2.complete ≤ v.now) (hpaid : StakePaid v.now r s s')
    (hcover : FundsCover v token s) : FundsCover v token s' := by
  intro w hw htoken hwdue
  rw [hpaid.stakes] at hw
  have hmem : w ∈ s.fundWithdraws.values := by
    obtain ⟨id, hid⟩ := mem_values.mp hw
    exact mem_values.mpr ⟨id, (mem_erase.mp hid).1⟩
  obtain ⟨f, hf, hsym, hbalance, hwithdraw⟩ := hcover w hmem htoken hwdue
  have hsum : dueIn v s' token w.fundName = dueIn v s token w.fundName -
      if r.2.token = token ∧ r.2.fundName = w.fundName ∧ r.2.complete ≤ v.now then r.2.amount.amount else 0 := by
    unfold dueIn
    rw [hpaid.stakes]
    exact sum_erase (lookup_eq_some.mpr hr) _
  by_cases hsame : (token, w.fundName) = (r.2.token, r.2.fundName)
  · obtain ⟨rfl, hname⟩ := Prod.mk.inj hsame
    rw [if_pos ⟨rfl, hname.symm, hdue⟩] at hsum
    refine ⟨adjustedFund v.now ⟨-r.2.amount.amount, r.2.amount.symbol⟩ ⟨-r.2.amount.amount, r.2.amount.symbol⟩ f,
      ?_, hsym, ?_, ?_⟩
    · rw [hname, hpaid.fund, ← hname, hf, Option.map_some]
    · simp only [adjustedFund]
      omega
    · simp only [adjustedFund]
      omega
  · rw [if_neg fun h => hsame (by rw [h.1, h.2.1]), sub_zero] at hsum
    refine ⟨f, ?_, hsym, ?_, ?_⟩
    · rw [hpaid.funds _ _ hsame, hf]
    · omega
    · omega

theorem stakeStep_returns {lost : TokenName →₀ ℤ} (hsound : TokenSound v lost s)
    (hcover : ∀ token, FundsCover v token s) :
    ∃ again s', processTokenFundWithdrawStep v s = .ok again s' := by
  unfold processTokenFundWithdrawStep
  rw [bind_of_ok (get_apply s)]
  cases hfirst : s.fundWithdraws.least? TokenFundWithdrawObject.before with
  | none => exact ⟨_, _, rfl⟩
  | some r =>
    have hvalues := mem_values.mpr ⟨r.1, mem_of_least? hfirst⟩
    have hw := hsound.stakes r.2 hvalues
    dsimp only
    split
    next => exact ⟨_, _, rfl⟩
    next hlater =>
      have hdue := not_lt.mp hlater
      obtain ⟨f, hf, hsym, hbalance, hwithdraw⟩ := hcover _ r.2 hvalues rfl hdue
      have hle := le_dueIn hsound hvalues hdue
      obtain ⟨hfmem, hfkey⟩ := (at?_eq_some (uniqueKey_fund _ _)).mp hf
      simp only [Bool.and_eq_true, beq_iff_eq] at hfkey
      have hgood := hsound.funds f hfmem
      have hsame : f.balance.symbol = r.2.amount.symbol := by
        have hsymbol := hgood.symbol
        rw [hfkey.1] at hsymbol
        exact hsymbol.unique hw.symbol
      have hmax : r.2.amount.amount ≤ int64Max := by
        have hheld := hsound.held_le hw.symbol
        have hfund : f.balance.amount ≤ inFunds s.funds r.2.token := by
          have hpos : ∀ g ∈ s.funds.values, 0 ≤ single g.token g.balance.amount :=
            fun g hg => single_nonneg.mpr (hsound.funds g hg).nonneg
          have hone := le_sum_of_mem hpos hfmem r.2.token
          rw [hfkey.1, single_eq_same] at hone
          exact hone
        have haccounts : 0 ≤ inAccounts s.balances r.2.token := inAccounts_nonneg hsound.balances r.2.token
        omega
      obtain ⟨s₁, hdebit⟩ := debitFund_returns (v := v) hf hw.nonneg (hle.trans hbalance) (hle.trans hwithdraw) hmax
        (hsym.trans hsame.symm)
      rw [hsame] at hdebit
      have hneg := (neg_of_le r.2.amount.symbol hw.nonneg hmax).2
      obtain ⟨g, rfl, hfunds, hgoodFunds, -⟩ := adjustTokenFundBalance_eq_ok hdebit hsound.funds
      have hzero : single r.2.token (-r.2.amount.amount) + single r.2.token r.2.amount.amount = 0 := by
        rw [← single_add, neg_add_cancel, single_zero]
      obtain ⟨s₂, hcredit⟩ := credit_after_debit .balance hsound hw.symbol hw.nonneg hw.owner
        hsound.balances hgoodFunds (by rw [hfunds, add_assoc, add_assoc, hzero, add_zero])
      refine ⟨true, { s₂ with fundWithdraws := s₂.fundWithdraws.erase r.1 }, ?_⟩
      simp only [bind_eq_ok, checked_eq_ok, removeIn_eq_ok, pure_eq_ok]
      exact ⟨_, s, ⟨hneg, rfl⟩, (), _, hdebit, (), s₂, hcredit, (), _, rfl, trivial, rfl⟩

/-- **The routine over the stakes returns** when every fund can pay what is due. -/
theorem processTokenFundWithdraw_returns (hs : TokenBacked v s) (hcover : ∀ token, FundsCover v token s) :
    ∃ s', processTokenFundWithdraw v s = .ok () s' := by
  obtain ⟨lost, hsound⟩ := hs.sound
  have hbody : ∀ s, TokenSound v lost s ∧ (∀ token, FundsCover v token s) → ∃ again s',
      processTokenFundWithdrawStep v s = .ok again s' ∧ (TokenSound v lost s' ∧ ∀ token, FundsCover v token s') ∧
        (again = true → s'.fundWithdraws.rows.length < s.fundWithdraws.rows.length) := by
    rintro s ⟨hsound, hcover⟩
    obtain ⟨again, s', hrun⟩ := stakeStep_returns hsound hcover
    have hsound' := (sound_processTokenFundWithdrawStep v).runs s again s' hrun hsound
    refine ⟨again, s', hrun, ?_⟩
    rcases stakeStep_eq_ok hrun with ⟨rfl, rfl, -⟩ | ⟨rfl, r, hfirst, hdue, hpaid⟩
    · exact ⟨⟨hsound, hcover⟩, fun h => absurd h Bool.false_ne_true⟩
    · have hr := mem_of_least? hfirst
      refine ⟨⟨hsound', fun token => (hcover token).paid hr hdue hpaid⟩, fun _ => ?_⟩
      rw [hpaid.stakes]
      exact length_erase_lt hr
  unfold processTokenFundWithdraw
  rw [bind_of_ok (get_apply s)]
  obtain ⟨s', hrun, -⟩ := loop_returns hbody _ s ⟨hsound, hcover⟩ (Nat.lt_succ_self _)
  exact ⟨s', hrun⟩

end Sigmaengine.Token
