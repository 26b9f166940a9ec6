import Mathlib.Tactic.Abel
import Sigmaengine.Ledger.TokenHoldings

/-!
# Token operations keep the tokens sound

One lemma for each program of the token plugin.  The operations run inside a session that undoes a
throw, so only their normal returns matter.  The two payouts of the block handler do not: they are
sound whatever the outcome, because the credit that follows a debit never throws.
-/

namespace Sigmaengine.Token

open Sigmaengine Effect Table Finsupp

variable {s s' : TokenIndices} {u : Unit} {v : CoreView} {token : TokenName} {lost : TokenName →₀ ℤ}

/-! ## Parts of a sound state -/

theorem TokenSound.withSavings {t : Table TokenSavingsWithdrawObject} {order : List Nat}
    (hsound : TokenSound v lost s) (hgood : ∀ w ∈ t.values, GoodSavings v s.tokens w) :
    TokenSound v lost { s with savingsWithdraws := t, bySavingsNextDate := order } :=
  ⟨hsound.conserved, hsound.lost_nonneg, hsound.issued_le, hsound.balances, hsound.funds, hsound.stakes, hgood⟩

theorem TokenSound.withStakes {t : Table TokenFundWithdrawObject} (hsound : TokenSound v lost s)
    (hgood : ∀ w ∈ t.values, GoodStake v s.tokens w) : TokenSound v lost { s with fundWithdraws := t } :=
  ⟨hsound.conserved, hsound.lost_nonneg, hsound.issued_le, hsound.balances, hsound.funds, hgood, hsound.savings⟩

theorem TokenSound.withInterests {t : Table TokenStakingInterestObject} (hsound : TokenSound v lost s) :
    TokenSound v lost { s with stakingInterests := t } :=
  ⟨hsound.conserved, hsound.lost_nonneg, hsound.issued_le, hsound.balances, hsound.funds, hsound.stakes, hsound.savings⟩

/-- A change of the token table that keeps the symbols, with the balances that go with it. -/
theorem TokenSound.reissue {t : Table TokenObject} {b : Table TokenBalanceObject} (hsound : TokenSound v lost s)
    (hle : ∀ n y, IsSymbol s.tokens n y → IsSymbol t n y)
    (hlimit : ∀ x ∈ t.values, x.totalBalance.amount ≤ int64Max)
    (hb : ∀ x ∈ b.values, GoodBalance t x) (hsum : issued t = inAccounts b + inFunds s.funds + lost) :
    TokenSound v lost { s with tokens := t, balances := b } where
  conserved := hsum
  lost_nonneg := hsound.lost_nonneg
  issued_le := hlimit
  balances := hb
  funds f hf := { hsound.funds f hf with symbol := hle _ _ (hsound.funds f hf).symbol }
  stakes w hw := { hsound.stakes w hw with symbol := hle _ _ (hsound.stakes w hw).symbol }
  savings w hw := { hsound.savings w hw with symbol := hle _ _ (hsound.savings w hw).symbol }

theorem GoodBalance.mono {t t' : Table TokenObject} {b : TokenBalanceObject} (h : GoodBalance t b)
    (hle : ∀ n y, IsSymbol t n y → IsSymbol t' n y) : GoodBalance t' b :=
  ⟨h.balance_nonneg, h.savings_nonneg, hle _ _ h.balance_symbol, hle _ _ h.savings_symbol⟩

theorem isSymbol_replace {t : Table TokenObject} {id : Nat} {a b : TokenObject}
    (ha : t.lookup id = some a) (hc : t.clashes id b = false) (hname : b.name = a.name)
    (hsym : b.symbol = a.symbol) (n : TokenName) (y : AssetSymbol) (h : IsSymbol t n y) :
    IsSymbol (t.replace id b hc) n y := by
  obtain ⟨x, hx, rfl, rfl⟩ := h
  unfold IsSymbol
  rw [values_replace ha]
  rw [← cons_values_erase ha, Multiset.mem_cons] at hx
  rcases hx with rfl | hx
  · exact ⟨b, Multiset.mem_cons_self _ _, hname, hsym⟩
  · exact ⟨x, Multiset.mem_cons_of_mem hx, rfl, rfl⟩

theorem isSymbol_insert {t : Table TokenObject} {x : TokenObject} (hc : t.clashes t.nextId x = false)
    (n : TokenName) (y : AssetSymbol) (h : IsSymbol t n y) : IsSymbol (t.insert x hc) n y := by
  obtain ⟨z, hz, hzn, hzy⟩ := h
  refine ⟨z, ?_, hzn, hzy⟩
  rw [values_insert]
  exact Multiset.mem_cons_of_mem hz

theorem issued_replace {t : Table TokenObject} {id : Nat} {a b : TokenObject}
    (ha : t.lookup id = some a) (hc : t.clashes id b = false) (hname : b.name = a.name) :
    issued (t.replace id b hc) = issued t + single a.name (b.totalBalance.amount - a.totalBalance.amount) := by
  unfold issued
  rw [sum_replace ha, hname, single_sub]

/-! ## Two legs -/

/-- **Two legs**: what one side of a balance loses, another gains. -/
theorem sound_twoLegs {s₁ : TokenIndices} {u₁ : Unit} {side side' : Side} {a b : AccountName} {x δ : Asset}
    (hsound : TokenSound v lost s) (hsym : IsSymbol s.tokens token x.symbol) (hneg : x.neg = .ok δ)
    (hdebit : adjustSide v side a token δ s = .ok u₁ s₁)
    (hcredit : adjustSide v side' b token x s₁ = .ok u s') :
    TokenSound v lost s' ∧ v.hasAccount b = true ∧ ∃ t, s' = { s with balances := t } := by
  obtain ⟨hδ, hδsym⟩ := Asset.neg_eq_ok hneg
  obtain ⟨t, rfl, hmove, -, -⟩ := adjustSide_eq_ok hdebit hsound.balances
  have hgood := hmove.good s.tokens (hδsym ▸ hsym) hsound.balances
  obtain ⟨t', rfl, hmove', hacc, -⟩ := adjustSide_eq_ok hcredit hgood
  refine ⟨hsound.exchange (hmove'.good s.tokens hsym hgood) hsound.funds ?_, hacc, t', rfl⟩
  have hzero : single token δ.amount + single token x.amount = 0 := by
    rw [← single_add, hδ, neg_add_cancel, single_zero]
  rw [hmove'.total, hmove.total, add_assoc (inAccounts s.balances), hzero, add_zero]

theorem sound_transferToken {op : TransferTokenOperation} (hsound : TokenSound v lost s)
    (hsym : IsSymbol s.tokens token op.amount.symbol) (h : transferToken v op token s = .ok u s') :
    TokenSound v lost s' := by
  simp only [transferToken, adjustTokenBalance, bind_eq_ok, checked_eq_ok] at h
  obtain ⟨δ, _, ⟨hneg, rfl⟩, _, s₁, hdebit, hcredit⟩ := h
  exact (sound_twoLegs hsound hsym hneg hdebit hcredit).1

/-! ## Supply -/

theorem sound_burnToken {op : BurnTokenOperation} {r : Nat × TokenObject} (hsound : TokenSound v lost s)
    (hr : r ∈ s.tokens.rows) (hsym : r.2.symbol = op.amount.symbol) (hpos : 0 ≤ op.amount.amount)
    (h : burnToken v op r s = .ok u s') : TokenSound v lost s' := by
  simp only [burnToken, adjustTokenBalance, bind_eq_ok, checked_eq_ok] at h
  obtain ⟨δ, _, ⟨hneg, rfl⟩, _, s₁, hdebit, hmod⟩ := h
  obtain ⟨hδ, hδsym⟩ := Asset.neg_eq_ok hneg
  have hsymbol : IsSymbol s.tokens r.2.name δ.symbol := by
    rw [hδsym, ← hsym]
    exact isSymbol_of_mem hr
  obtain ⟨t, rfl, hmove, -, -⟩ := adjustSide_eq_ok hdebit hsound.balances
  obtain ⟨a, b, hc, ha, hf, rfl⟩ := modifyIn_eq_ok.mp hmod
  obtain rfl := eq_of_mem (lookup_eq_some.mp ha) hr
  obtain ⟨n, hsub, rfl⟩ := map_eq_ok hf
  obtain ⟨-, hn, -⟩ := Asset.sub_eq_ok hsub
  have hn := safeSub_eq_ok hn
  have hle := isSymbol_replace ha hc rfl rfl
  refine hsound.reissue hle ?_ ?_ ?_
  · refine forall_replace (h := hc) hsound.issued_le ?_
    have := hsound.issued_le r.2 (mem_values.mpr ⟨r.1, hr⟩)
    dsimp only
    omega
  · intro x hx
    exact (hmove.good s.tokens hsymbol hsound.balances x hx).mono hle
  · have htotal := issued_replace ha hc rfl
    have hx : n.amount - r.2.totalBalance.amount = δ.amount := by omega
    simp only [hx] at htotal
    refine htotal.trans ?_
    change issued s.tokens + _ = _
    rw [hsound.conserved, hmove.total]
    abel

theorem sound_creditIssue {op : IssueTokenOperation} {good : Table TokenObject}
    (h : creditIssue v op s = .ok u s') (hgood : ∀ b ∈ s.balances.values, GoodBalance good b)
    (hpos : 0 < op.reissueAmount.amount) :
    ∃ t, s' = { s with balances := t } ∧
      BalancesMoved op.name op.reissueAmount.amount op.reissueAmount.symbol s.balances t := by
  simp only [creditIssue, bind_eq_ok, findIn_eq_ok] at h
  obtain ⟨found, _, ⟨hfound, rfl⟩, h⟩ := h
  cases found with
  | none =>
    simp only [bind_eq_ok, createIn_eq_ok, pure_eq_ok] at h
    obtain ⟨_, _, ⟨hc, -, rfl⟩, -, rfl⟩ := h
    exact ⟨_, rfl, open_moved hc hpos.le⟩
  | some b =>
    obtain ⟨hmem, htoken⟩ := IsBalance.mem hfound
    have hread : 0 ≤ (Side.balance.read b.2).amount :=
      (hgood b.2 (mem_values.mpr ⟨b.1, hmem⟩)).balance_nonneg
    rw [← htoken]
    exact addSide_eq_ok hmem (add_nonneg hread hpos.le) h

theorem sound_issueToken {op : IssueTokenOperation} {r : Nat × TokenObject} (hsound : TokenSound v lost s)
    (hr : r ∈ s.tokens.rows) (hname : r.2.name = op.name) (hpos : 0 < op.reissueAmount.amount)
    (h : issueToken v op r s = .ok u s') : TokenSound v lost s' := by
  simp only [issueToken, bind_eq_ok, checked_eq_ok, fcAssert_eq_ok] at h
  obtain ⟨_, _, ⟨hsym, rfl⟩, unit, _, ⟨-, rfl⟩, total, _, ⟨-, rfl⟩, fits, _, ⟨-, rfl⟩, _, _, ⟨-, rfl⟩, _, s₁,
    hmod, hcredit⟩ := h
  obtain ⟨a, b, hc, ha, hf, rfl⟩ := modifyIn_eq_ok.mp hmod
  obtain rfl := eq_of_mem (lookup_eq_some.mp ha) hr
  obtain ⟨n, hadd, rfl⟩ := map_eq_ok hf
  obtain ⟨-, hn, -⟩ := Asset.add_eq_ok hadd
  have hlimit := le_of_safeAdd hpos hn
  have hn := safeAdd_eq_ok hn
  obtain ⟨t, rfl, hmove⟩ := sound_creditIssue hcredit hsound.balances hpos
  have hle := isSymbol_replace ha hc rfl rfl
  have hsymbol : IsSymbol s.tokens op.name op.reissueAmount.symbol := by
    rw [← hname, ← beq_iff_eq.mp hsym]
    exact isSymbol_of_mem hr
  refine hsound.reissue hle ?_ ?_ ?_
  · refine forall_replace (h := hc) hsound.issued_le ?_
    dsimp only
    omega
  · intro x hx
    exact (hmove.good s.tokens hsymbol hsound.balances x hx).mono hle
  · have htotal := issued_replace ha hc rfl
    have hx : n.amount - r.2.totalBalance.amount = op.reissueAmount.amount := by omega
    simp only [hx] at htotal
    refine htotal.trans ?_
    change issued s.tokens + _ = _
    have hmoved : inAccounts t = inAccounts s.balances + _ := hmove.total
    rw [hsound.conserved, hmoved, hname]
    abel

/-! ## New tokens -/

/-- The lowest byte of a made symbol is the number of decimals. -/
theorem makeSymbol_mod (upper : Bytes) (hlen : upper.length < 8) : makeSymbol upper % 256 = 6 := by
  have hfold : ∀ (cs : List (UInt8 × Nat)) (acc : UInt64), (∀ p ∈ cs, p.2 < 7) → acc.toNat % 256 = 6 →
      (cs.foldl (fun acc (p : UInt8 × Nat) =>
        acc ||| ((p.1.toUInt64 ||| (if 128 ≤ p.1 then 0xffffffffffffff00 else 0)) <<<
          (UInt64.ofNat (8 * (p.2 + 1))))) acc).toNat % 256 = 6 := by
    intro cs
    induction cs with
    | nil => exact fun acc _ h => h
    | cons p cs ih =>
      intro acc hcs hacc
      rw [List.foldl_cons]
      apply ih _ fun q hq => hcs q (List.mem_cons_of_mem _ hq)
      have hp : p.2 < 7 := hcs p List.mem_cons_self
      have hshift : ∀ x : UInt64, (x <<< UInt64.ofNat (8 * (p.2 + 1))).toNat % 256 = 0 := by
        intro x
        have hk : (UInt64.ofNat (8 * (p.2 + 1))).toNat % 64 = 8 * p.2 + 8 := by
          rw [UInt64.toNat_ofNat']
          omega
        rw [UInt64.toNat_shiftLeft, hk, Nat.shiftLeft_eq, pow_add, ← mul_assoc,
          Nat.mod_mod_of_dvd _ (by norm_num), show (256 : Nat) = 2 ^ 8 from rfl, Nat.mul_mod_left]
      rw [UInt64.toNat_or, show (256 : Nat) = 2 ^ 8 from rfl, Nat.or_mod_two_pow]
      rw [show (2 : Nat) ^ 8 = 256 from rfl, hshift, hacc]
      rfl
  unfold makeSymbol
  refine hfold _ _ ?_ rfl
  intro p hp
  have := List.snd_lt_of_mem_zipIdx hp
  omega

theorem precision_makeSymbol (upper : Bytes) (hlen : upper.length < 8) :
    precision (makeSymbol upper) = .ok 1000000 := by
  have hbyte : symbolByte (makeSymbol upper) 0 = 6 := by
    unfold symbolByte
    rw [pow_zero, Nat.div_one]
    exact makeSymbol_mod upper hlen
  unfold precision
  rw [hbyte]
  rfl

/-- No balance is of a token that does not exist. -/
theorem TokenSound.openBalance_eq_ok {op : CreateTokenOperation} {supply : Asset} {good : Table TokenObject}
    (h : openBalance v op supply s = .ok u s') (hgood : ∀ b ∈ s.balances.values, GoodBalance good b)
    (hnew : ∀ y, ¬ IsSymbol good op.name y) (hpos : 0 ≤ supply.amount) :
    ∃ t, s' = { s with balances := t } ∧ BalancesMoved op.name supply.amount supply.symbol s.balances t := by
  simp only [openBalance, bind_eq_ok, findIn_eq_ok] at h
  obtain ⟨found, _, ⟨hfound, rfl⟩, h⟩ := h
  cases found with
  | none =>
    simp only [bind_eq_ok, createIn_eq_ok, pure_eq_ok] at h
    obtain ⟨_, _, ⟨hc, -, rfl⟩, -, rfl⟩ := h
    exact ⟨_, rfl, open_moved hc hpos⟩
  | some b =>
    obtain ⟨hmem, htoken⟩ := IsBalance.mem hfound
    have hb := (hgood b.2 (mem_values.mpr ⟨b.1, hmem⟩)).balance_symbol
    rw [htoken] at hb
    exact absurd hb (hnew _)

/-- A new token with what is issued of it. -/
theorem TokenSound.newToken {x : TokenObject} {t : Table TokenBalanceObject} (hsound : TokenSound v lost s)
    (hc : s.tokens.clashes s.tokens.nextId x = false)
    (hmove : BalancesMoved x.name x.totalBalance.amount x.symbol s.balances t)
    (hlimit : x.totalBalance.amount ≤ int64Max) :
    TokenSound v lost { s with tokens := s.tokens.insert x hc, balances := t } := by
  have hle : ∀ n y, IsSymbol s.tokens n y → IsSymbol (s.tokens.insert x hc) n y := isSymbol_insert hc
  have hx : IsSymbol (s.tokens.insert x hc) x.name x.symbol := by
    refine ⟨x, ?_, rfl, rfl⟩
    rw [values_insert]
    exact Multiset.mem_cons_self _ _
  refine hsound.reissue hle ?_ ?_ ?_
  · exact forall_insert hsound.issued_le hlimit
  · exact hmove.good _ hx fun b hb => (hsound.balances b hb).mono hle
  · have hissued : issued (s.tokens.insert x hc) = single x.name x.totalBalance.amount + issued s.tokens :=
      sum_insert s.tokens x hc _
    rw [hissued, hsound.conserved, hmove.total]
    abel

theorem sound_storeToken {op : CreateTokenOperation} (hsound : TokenSound v lost s)
    (hvalid : ∀ c ∈ op.validate, c.holds = true) (h : storeToken v op s = .ok u s') : TokenSound v lost s' := by
  simp only [storeToken, bind_eq_ok, findIn_eq_ok, checked_eq_ok, fcAssert_eq_ok, get_eq_ok,
    createIn_eq_ok] at h
  obtain ⟨_, _, ⟨-, rfl⟩, _, _, ⟨-, rfl⟩, found, _, ⟨hfound, rfl⟩, _, _, ⟨hnone, rfl⟩, sgtName, _, ⟨-, rfl⟩, _,
    _, ⟨-, rfl⟩, _, _, ⟨rfl, rfl⟩, _, _, ⟨-, rfl⟩, unit, _, ⟨hunit, rfl⟩, id, _, ⟨hc, -, rfl⟩, hopen⟩ := h
  obtain rfl := Option.isNone_iff_eq_none.mp hnone
  simp only [CreateTokenOperation.validate, List.forall_mem_cons, decide_eq_true_eq, Bool.and_eq_true] at hvalid
  obtain ⟨-, -, -, ⟨-, hlen⟩, -, hlo, hhi, -⟩ := hvalid
  rw [precision_makeSymbol _ (by simpa [toUpper] using hlen)] at hunit
  cases hunit
  have hsupply : 0 ≤ op.initSupplyAmount * 1000000 ∧ op.initSupplyAmount * 1000000 ≤ int64Max := by
    simp only [tokenMax] at hhi
    unfold int64Max
    omega
  have hnew : ∀ y, ¬ IsSymbol s.tokens op.name y := by
    rintro y ⟨x, hx, hname, -⟩
    obtain ⟨i, hi⟩ := mem_values.mp hx
    have := find?_eq_none hfound hi
    simp [hname] at this
  obtain ⟨t, rfl, hmove⟩ := TokenSound.openBalance_eq_ok hopen hsound.balances hnew hsupply.1
  exact hsound.newToken hc hmove hsupply.2

/-! ## Funds and staking -/

theorem takeInitBalance_eq_ok {op : SetupTokenFundOperation} (hsound : TokenSound v lost s)
    (hsym : IsSymbol s.tokens token op.initFundBalance.symbol) (hpos : 0 ≤ op.initFundBalance.amount)
    (h : takeInitBalance v op token s = .ok u s') :
    ∃ t, s' = { s with balances := t } ∧ (∀ b ∈ t.values, GoodBalance s.tokens b) ∧
      inAccounts t + single token op.initFundBalance.amount = inAccounts s.balances := by
  unfold takeInitBalance at h
  split at h
  · simp only [adjustTokenBalance, bind_eq_ok, checked_eq_ok] at h
    obtain ⟨δ, _, ⟨hneg, rfl⟩, hdebit⟩ := h
    obtain ⟨hδ, hδsym⟩ := Asset.neg_eq_ok hneg
    obtain ⟨t, rfl, hmove, -, -⟩ := adjustSide_eq_ok hdebit hsound.balances
    refine ⟨t, rfl, hmove.good s.tokens (hδsym ▸ hsym) hsound.balances, ?_⟩
    rw [hmove.total, hδ, single_neg, neg_add_cancel_right]
  · rename_i hzero
    obtain ⟨-, rfl⟩ := pure_eq_ok.mp h
    have hnone : op.initFundBalance.amount = 0 := le_antisymm (not_lt.mp hzero) hpos
    refine ⟨s.balances, rfl, hsound.balances, ?_⟩
    rw [hnone, single_zero, add_zero]

/-- Setting up a fund: what the publisher pays is in the new fund.  For a fund that exists already the
payment goes nowhere. -/
theorem sound_setupTokenFund {op : SetupTokenFundOperation} {r : Nat × TokenObject} (hsound : TokenSound v lost s)
    (hr : r ∈ s.tokens.rows) (hname : r.2.name = op.token) (hsym : r.2.symbol = op.initFundBalance.symbol)
    (hpos : 0 ≤ op.initFundBalance.amount) (h : setupTokenFund v op r.2 s = .ok u s') :
    ∃ extra, 0 ≤ extra ∧ TokenSound v (lost + extra) s' ∧
      (((s.funds.find? fun f => f.token == op.token && f.fundName == op.fundName).isSome →
        op.initFundBalance.amount = 0) → extra = 0) := by
  simp only [setupTokenFund, bind_eq_ok, findIn_eq_ok] at h
  obtain ⟨found, _, ⟨hfound, rfl⟩, _, s₁, htake, hopen⟩ := h
  have hsymbol : IsSymbol s.tokens r.2.name op.initFundBalance.symbol := hsym ▸ isSymbol_of_mem hr
  obtain ⟨t, rfl, hgood, hsum⟩ := takeInitBalance_eq_ok hsound hsymbol hpos htake
  cases found with
  | some f =>
    obtain ⟨-, rfl⟩ := pure_eq_ok.mp hopen
    have hextra : 0 ≤ single r.2.name op.initFundBalance.amount := single_nonneg.mpr hpos
    refine ⟨_, hextra, ⟨?_, add_nonneg hsound.lost_nonneg hextra, hsound.issued_le, hgood, hsound.funds,
      hsound.stakes, hsound.savings⟩, fun hcareful => ?_⟩
    · rw [hsound.conserved, ← hsum]
      abel
    · rw [hcareful (Option.isSome_iff_exists.mpr ⟨f, hfound⟩), single_zero]
  | none =>
    simp only [openFund, bind_eq_ok, createIn_eq_ok, pure_eq_ok] at hopen
    obtain ⟨_, _, ⟨hc, -, rfl⟩, -, rfl⟩ := hopen
    refine ⟨0, le_rfl, ?_, fun _ => rfl⟩
    rw [add_zero]
    refine hsound.exchange hgood ?_ ?_
    · exact forall_insert hsound.funds ⟨hpos, hname ▸ hsymbol⟩
    · have hfunds : inFunds _ = single op.token op.initFundBalance.amount + inFunds s.funds :=
        sum_insert s.funds _ hc _
      refine (congrArg (inAccounts t + ·) hfunds).trans ?_
      rw [← add_assoc, ← hname, hsum]

theorem sound_storeInterest {op : SetTokenStakingInterestOperation} {rate : ℤ} (hsound : TokenSound v lost s)
    (h : storeInterest v op rate s = .ok u s') : TokenSound v lost s' := by
  simp only [storeInterest, bind_eq_ok, findIn_eq_ok] at h
  obtain ⟨found, _, ⟨-, rfl⟩, h⟩ := h
  split at h
  · simp only [bind_eq_ok, ofOption_eq_ok, removeIn_eq_ok] at h
    obtain ⟨_, _, ⟨-, rfl⟩, rfl⟩ := h
    exact hsound.withInterests
  · simp only [bind_eq_ok, fcAssert_eq_ok] at h
    obtain ⟨_, _, ⟨-, rfl⟩, h⟩ := h
    cases found with
    | none =>
      simp only [bind_eq_ok, createIn_eq_ok, pure_eq_ok] at h
      obtain ⟨_, _, ⟨_, -, rfl⟩, -, rfl⟩ := h
      exact hsound.withInterests
    | some r =>
      obtain ⟨_, _, _, -, -, rfl⟩ := modifyIn_eq_ok.mp h
      exact hsound.withInterests

/-- A balance pays into a fund. -/
theorem sound_payFund {a : AccountName} {fund : FundName} {x δ withdrawDelta : Asset} {s₁ : TokenIndices}
    {u₁ : Unit} (hsound : TokenSound v lost s) (hneg : x.neg = .ok δ)
    (hdebit : adjustSide v .balance a token δ s = .ok u₁ s₁)
    (hcredit : adjustTokenFundBalance v token fund x withdrawDelta s₁ = .ok u s') :
    TokenSound v lost s' ∧ v.hasAccount a = true ∧ IsSymbol s.tokens token x.symbol ∧
      ∃ t f, s' = { s with balances := t, funds := f } := by
  obtain ⟨hδ, hδsym⟩ := Asset.neg_eq_ok hneg
  obtain ⟨t, rfl, hmove, hacc, -⟩ := adjustSide_eq_ok hdebit hsound.balances
  obtain ⟨f, rfl, hfunds, hgood, hsym⟩ := adjustTokenFundBalance_eq_ok hcredit hsound.funds
  have hbalances := hmove.good s.tokens (hδsym ▸ hsym) hsound.balances
  refine ⟨hsound.exchange hbalances hgood ?_, hacc, hsym, t, f, rfl⟩
  have hfunds : inFunds f = inFunds s.funds + single token x.amount := hfunds
  have hzero : single token δ.amount + single token x.amount = 0 := by
    rw [← single_add, hδ, neg_add_cancel, single_zero]
  rw [hmove.total, hfunds, add_add_add_comm, hzero, add_zero]

theorem sound_transferTokenFund {op : TransferTokenFundOperation} (hsound : TokenSound v lost s)
    (h : transferTokenFund v op s = .ok u s') : TokenSound v lost s' := by
  simp only [transferTokenFund, adjustTokenBalance, bind_eq_ok, checked_eq_ok] at h
  obtain ⟨δ, _, ⟨hneg, rfl⟩, _, s₁, hdebit, hcredit⟩ := h
  exact (sound_payFund hsound hneg hdebit hcredit).1

theorem sound_stakeToken {interest : TokenInterest} {op : StakingTokenFundOperation} {r : TokenObject}
    (hsound : TokenSound v lost s) (hname : r.name = op.token)
    (hcareful : ∀ i ∈ s.stakingInterests.find? (fun i => i.token == op.token && i.month == op.month),
      0 ≤ op.amount.amount + (interest op.amount.amount i.2.percentInterestRate).toInt)
    (h : stakeToken interest v op r s = .ok u s') : TokenSound v lost s' := by
  simp only [stakeToken, adjustTokenBalance, bind_eq_ok, findIn_eq_ok, ofOption_eq_ok, fcAssert_eq_ok,
    checked_eq_ok, createIn_eq_ok, pure_eq_ok] at h
  obtain ⟨_, _, ⟨-, rfl⟩, _, _, ⟨-, rfl⟩, _, _, ⟨hrate, rfl⟩, rate, _, ⟨rfl, rfl⟩, due, _, ⟨hdue, rfl⟩, δ, _,
    ⟨hneg, rfl⟩, _, s₁, hdebit, _, s₂, hcredit, id, _, ⟨hc, -, rfl⟩, -, rfl⟩ := h
  rw [hname] at hdebit
  obtain ⟨hsound₂, hacc, hsym, t, f, rfl⟩ := sound_payFund hsound hneg hdebit hcredit
  obtain ⟨-, hsum, hduesym⟩ := Asset.add_eq_ok hdue
  have hamount : 0 ≤ due.amount := by
    rw [safeAdd_eq_ok hsum]
    exact hcareful rate hrate
  exact hsound₂.withStakes (forall_insert hsound₂.stakes ⟨hacc, hamount, hduesym ▸ hsym⟩)

/-! ## Savings -/

theorem sound_createSavings {w : TokenSavingsWithdrawObject} (hsound : TokenSound v lost s)
    (hgood : GoodSavings v s.tokens w) (h : createSavings w s = .ok u s') : TokenSound v lost s' := by
  simp only [createSavings, bind_eq_ok, createIn_eq_ok, modify_eq_ok] at h
  obtain ⟨id, _, ⟨hc, -, rfl⟩, rfl⟩ := h
  exact hsound.withSavings (forall_insert (h := hc) hsound.savings hgood)

/-- The first schedule of an amount: instalments of an equal part never add up to more. -/
theorem tdiv_mul_le {x : ℤ} {m : ℕ} (hx : 0 ≤ x) : ((m - 1 : ℕ) : ℤ) * x.tdiv m ≤ x := by
  rw [Int.tdiv_eq_ediv_of_nonneg hx]
  have hm : ((m - 1 : ℕ) : ℤ) ≤ m := by omega
  have hq : 0 ≤ x / m := Int.ediv_nonneg hx (Int.natCast_nonneg m)
  have hmul : (m : ℤ) * (x / m) ≤ x := by
    rcases Nat.eq_zero_or_pos m with rfl | hpos
    · simpa using hx
    · exact Int.mul_ediv_self_le (by omega)
  exact (mul_le_mul_of_nonneg_right hm hq).trans hmul

theorem sound_transferTokenSavings {fc : TextRules} {op : TransferTokenSavingsOperation}
    (hsound : TokenSound v lost s) (hvalid : ∀ c ∈ op.validate fc, c.holds = true)
    (h : transferTokenSavings v op op.token s = .ok u s') : TokenSound v lost s' := by
  simp only [transferTokenSavings, adjustTokenBalance, adjustTokenSavingsBalance, bind_eq_ok,
    fcAssert_eq_ok, checked_eq_ok] at h
  obtain ⟨_, _, ⟨-, rfl⟩, δ, _, ⟨hneg, rfl⟩, _, s₁, hdebit, _, s₂, hcredit, hcreate⟩ := h
  simp only [TransferTokenSavingsOperation.validate, List.cons_append, List.forall_mem_cons,
    decide_eq_true_eq, Bool.and_eq_true] at hvalid
  obtain ⟨-, -, -, hpos, ⟨hmonth, -⟩, -⟩ := hvalid
  obtain ⟨hδ, hδsym⟩ := Asset.neg_eq_ok hneg
  -- the debit is of a positive amount, so it has seen the symbol of the balance
  obtain ⟨-, -, -, -, hsym⟩ := adjustSide_eq_ok hdebit hsound.balances
  have hsym := hδsym ▸ hsym (by omega)
  obtain ⟨hsound₂, hacc, t, rfl⟩ := sound_twoLegs hsound hsym hneg hdebit hcredit
  refine sound_createSavings hsound₂ ⟨hacc, ⟨?_, ?_⟩, hsym, rfl⟩ hcreate
  · exact Int.tdiv_nonneg hpos.le (Int.natCast_nonneg _)
  · have hleft : (op.splitPayMonth - 1).toNat = op.splitPayMonth.toNat - 1 := by
      have hle : (1 : UInt8) ≤ op.splitPayMonth := by
        rw [UInt8.le_iff_toNat_le]
        exact hmonth
      exact UInt8.toNat_sub_of_le _ _ hle
    simp only [TokenSavingsWithdrawObject.schedule, hleft]
    exact tdiv_mul_le hpos.le

theorem sound_removeSavings {id : Nat} (hsound : TokenSound v lost s) (h : removeSavings id s = .ok u s') :
    TokenSound v lost s' := by
  simp only [removeSavings, bind_eq_ok, removeIn_eq_ok, modify_eq_ok] at h
  obtain ⟨_, _, rfl, rfl⟩ := h
  exact hsound.withSavings (forall_erase hsound.savings)

theorem sound_endTokenSavings {op : EndTokenSavingsOperation} {toSender : Bool} (hsound : TokenSound v lost s)
    (h : endTokenSavings v op toSender s = .ok u s') : TokenSound v lost s' := by
  simp only [endTokenSavings, adjustTokenBalance, adjustTokenSavingsBalance, bind_eq_ok, findIn_eq_ok,
    ofOption_eq_ok, checked_eq_ok] at h
  obtain ⟨_, _, ⟨hfound, rfl⟩, w, _, ⟨rfl, rfl⟩, δ, _, ⟨hneg, rfl⟩, _, s₁, hdebit, _, s₂, hcredit, hremove⟩ := h
  obtain ⟨hmem, hkey⟩ := mem_of_find? hfound
  simp only [Bool.and_eq_true, beq_iff_eq] at hkey
  have hsym : IsSymbol s.tokens op.token w.2.amount.symbol := by
    rw [← hkey.1.1.1]
    exact (hsound.savings w.2 (mem_values.mpr ⟨w.1, hmem⟩)).symbol
  exact sound_removeSavings (sound_twoLegs hsound hsym hneg hdebit hcredit).1 hremove

/-! ## Payouts at the end of a block

The handler runs outside of any session, so here every outcome counts. -/

/-- A debit leaves room for the credit of the same amount. -/
theorem credit_after_debit {t : Table TokenBalanceObject} {f : Table TokenFundObject} (side : Side)
    {account : AccountName} {x : Asset} (hsound : TokenSound v lost s) (hsym : IsSymbol s.tokens token x.symbol)
    (hpos : 0 ≤ x.amount) (hacc : v.hasAccount account = true)
    (hb : ∀ b ∈ t.values, GoodBalance s.tokens b) (hf : ∀ g ∈ f.values, GoodFund s.tokens g)
    (hsum : inAccounts t + inFunds f + single token x.amount = inAccounts s.balances + inFunds s.funds) :
    ∃ s', adjustSide v side account token x { s with balances := t, funds := f } = .ok () s' := by
  refine adjustSide_returns hpos hacc hb hsym ?_
  have hheld := hsound.held_le hsym
  have hfunds : 0 ≤ inFunds f token := inFunds_nonneg hf token
  have htoken := DFunLike.congr_fun hsum token
  simp only [Finsupp.add_apply, single_eq_same] at htoken
  dsimp only
  omega

/-- One round pays one stake out with both its legs, or changes nothing. -/
theorem processTokenFundWithdrawStep_cases (hsound : TokenSound v lost s) :
    after (processTokenFundWithdrawStep v s) = s ∨
      ∃ id w δ f t, (id, w) ∈ s.fundWithdraws.rows ∧ w.amount.neg = .ok δ ∧
        adjustTokenFundBalance v w.token w.fundName δ δ s = .ok () { s with funds := f } ∧
        adjustSide v .balance w.from_ w.token w.amount { s with funds := f } =
          .ok () { s with balances := t, funds := f } ∧
        after (processTokenFundWithdrawStep v s) =
          { s with balances := t, funds := f, fundWithdraws := s.fundWithdraws.erase id } := by
  unfold processTokenFundWithdrawStep
  rw [bind_of_ok (get_apply s)]
  cases hleast : s.fundWithdraws.least? TokenFundWithdrawObject.before with
  | none => exact .inl rfl
  | some r =>
    have hr := mem_of_least? hleast
    have hw := hsound.stakes r.2 (mem_values.mpr ⟨r.1, hr⟩)
    dsimp only
    split
    · exact .inl rfl
    cases hneg : r.2.amount.neg with
    | error e => exact .inl rfl
    | ok δ =>
      obtain ⟨hδ, -⟩ := Asset.neg_eq_ok hneg
      rw [bind_of_ok (show checked (.ok δ) s = .ok δ s from rfl)]
      cases hfund : adjustTokenFundBalance v r.2.token r.2.fundName δ δ s with
      | error e s₁ =>
        rw [bind_of_error hfund, after_error, clean_adjustTokenFundBalance _ _ _ _ _ _ _ _ hfund]
        exact .inl rfl
      | ok _ s₁ =>
        rw [bind_of_ok hfund]
        obtain ⟨f, rfl, hfunds, hgood, -⟩ := adjustTokenFundBalance_eq_ok hfund hsound.funds
        have hzero : single r.2.token δ.amount + single r.2.token r.2.amount.amount = 0 := by
          rw [← single_add, hδ, neg_add_cancel, single_zero]
        obtain ⟨s₂, hcredit⟩ := credit_after_debit .balance hsound hw.symbol hw.nonneg hw.owner
          hsound.balances hgood (by rw [hfunds, add_assoc, add_assoc, hzero, add_zero])
        obtain ⟨t, rfl, -, -, -⟩ := adjustSide_eq_ok hcredit hsound.balances
        rw [adjustTokenBalance, bind_of_ok hcredit]
        exact .inr ⟨r.1, r.2, δ, f, t, hr, hneg, hfund, hcredit, rfl⟩

theorem sound_processTokenFundWithdrawStep (v : CoreView) :
    Always (Kept (TokenSound v lost)) (processTokenFundWithdrawStep v) := by
  intro s hsound
  rcases processTokenFundWithdrawStep_cases hsound with hsame | ⟨id, w, δ, f, t, hw, hneg, hfund, hcredit, hafter⟩
  · rw [hsame]
    exact hsound
  · rw [hafter]
    obtain ⟨hδ, -⟩ := Asset.neg_eq_ok hneg
    have hstake := hsound.stakes w (mem_values.mpr ⟨id, hw⟩)
    obtain ⟨_, hf, hfunds, hgood, -⟩ := adjustTokenFundBalance_eq_ok hfund hsound.funds
    cases hf
    obtain ⟨_, ht, hmove, -, -⟩ := adjustSide_eq_ok hcredit hsound.balances
    cases ht
    have hzero : single w.token δ.amount + single w.token w.amount.amount = 0 := by
      rw [← single_add, hδ, neg_add_cancel, single_zero]
    have hpaid : TokenSound v lost { s with balances := t, funds := f } := by
      refine hsound.exchange (hmove.good s.tokens hstake.symbol hsound.balances) hgood ?_
      rw [hmove.total, hfunds, add_add_add_comm, add_comm (single w.token _), hzero, add_zero]
    exact hpaid.withStakes (forall_erase hpaid.stakes)

theorem sound_processTokenFundWithdraw (v : CoreView) :
    Always (Kept (TokenSound v lost)) (processTokenFundWithdraw v) :=
  always_bind readOnly_get.always fun _ => always_loop (sound_processTokenFundWithdrawStep v) _

/-- Once the savings are debited, the balance is credited as well. -/
theorem payTokenSavings_of_debit {w : TokenSavingsWithdrawObject} {x δ : Asset} {s₁ : TokenIndices}
    (hsound : TokenSound v lost s) (hacc : v.hasAccount w.to_ = true) (hsym : IsSymbol s.tokens w.token x.symbol)
    (hpos : 0 ≤ x.amount) (hneg : x.neg = .ok δ)
    (hdebit : adjustTokenSavingsBalance v w.to_ w.token δ s = .ok () s₁) :
    ∃ t, payTokenSavings v w x s = .ok () { s with balances := t } ∧
      TokenSound v lost { s with balances := t } := by
  obtain ⟨hδ, hδsym⟩ := Asset.neg_eq_ok hneg
  unfold payTokenSavings
  rw [hneg, bind_of_ok (show checked (.ok δ) s = .ok δ s from rfl), bind_of_ok hdebit]
  obtain ⟨t, rfl, hmove, -, -⟩ := adjustSide_eq_ok hdebit hsound.balances
  have hgood := hmove.good s.tokens (hδsym ▸ hsym) hsound.balances
  have hzero : single w.token δ.amount + single w.token x.amount = 0 := by
    rw [← single_add, hδ, neg_add_cancel, single_zero]
  have hsum : inAccounts t + inFunds s.funds + single w.token x.amount =
      inAccounts s.balances + inFunds s.funds := by
    rw [hmove.total, add_right_comm, add_assoc (inAccounts s.balances), hzero, add_zero]
  obtain ⟨s₂, hcredit⟩ := credit_after_debit .balance hsound hsym hpos hacc hgood hsound.funds hsum
  obtain ⟨hsound₂, -, t', rfl⟩ := sound_twoLegs hsound hsym hneg hdebit hcredit
  exact ⟨t', hcredit, hsound₂⟩

/-- Paying out of the savings: both legs or none. -/
theorem sound_payTokenSavings {w : TokenSavingsWithdrawObject} {x : Asset} (hsound : TokenSound v lost s)
    (hacc : v.hasAccount w.to_ = true) (hsym : IsSymbol s.tokens w.token x.symbol) (hpos : 0 ≤ x.amount) :
    (∃ e, payTokenSavings v w x s = .error e s) ∨
      ∃ t, payTokenSavings v w x s = .ok () { s with balances := t } ∧
        TokenSound v lost { s with balances := t } := by
  cases hneg : x.neg with
  | error e =>
    unfold payTokenSavings
    rw [hneg]
    exact .inl ⟨e, rfl⟩
  | ok δ =>
    cases hdebit : adjustTokenSavingsBalance v w.to_ w.token δ s with
    | error e s₁ =>
      refine .inl ⟨e, ?_⟩
      unfold payTokenSavings
      rw [hneg, bind_of_ok (show checked (.ok δ) s = .ok δ s from rfl), bind_of_error hdebit,
        clean_adjustSide _ _ _ _ _ _ _ _ hdebit]
    | ok _ s₁ => exact .inr (payTokenSavings_of_debit hsound hacc hsym hpos hneg hdebit)

theorem schedule_nextTokenInstalment {w w' : TokenSavingsWithdrawObject} {monthly : Asset}
    (horder : w.splitPayOrder ≠ w.splitPayMonth) (hmonthly : monthly.amount = w.schedule.instalment)
    (h : nextTokenInstalment v monthly w = .ok w') : w'.schedule = w.schedule.next := by
  obtain ⟨rest, hrest, rfl⟩ := map_eq_ok h
  obtain ⟨-, hsub, -⟩ := Asset.sub_eq_ok hrest
  have hrest := safeSub_eq_ok hsub
  rw [hmonthly] at hrest
  simp only [TokenSavingsWithdrawObject.schedule, Schedule.next, hrest, sub_succ_toNat horder]

/-- A schedule stays good when it pays an instalment. -/
theorem goodSavings_next {w w' : TokenSavingsWithdrawObject} {monthly : Asset} {t : Table TokenObject}
    (hw : GoodSavings v t w) (horder : w.splitPayOrder ≠ w.splitPayMonth)
    (hmonthly : monthly.amount = w.schedule.instalment) (h : nextTokenInstalment v monthly w = .ok w') :
    GoodSavings v t w' := by
  have hfits := hw.fits.next (sub_ne_zero_toNat horder)
  rw [← schedule_nextTokenInstalment horder hmonthly h] at hfits
  obtain ⟨rest, hrest, rfl⟩ := map_eq_ok h
  obtain ⟨-, -, hsym⟩ := Asset.sub_eq_ok hrest
  exact ⟨hw.payee, hfits, hsym ▸ hw.symbol, hw.total_symbol.trans hsym.symm⟩

/-- Changing a schedule, whatever the outcome. -/
theorem sound_modifySavings {id : Nat} {w : TokenSavingsWithdrawObject}
    {f : TokenSavingsWithdrawObject → Except Error TokenSavingsWithdrawObject} (hsound : TokenSound v lost s)
    (hw : (id, w) ∈ s.savingsWithdraws.rows) (hgood : ∀ w', f w = .ok w' → GoodSavings v s.tokens w') :
    TokenSound v lost (after (modifySavings id f s)) := by
  have hmodify : TokenSound v lost (after (modifyIn Index.savingsWithdraws id f s)) := by
    unfold modifyIn
    rw [after_within]
    have hlookup : (Index.savingsWithdraws.get s).lookup id = some w := lookup_eq_some.mpr hw
    unfold Table.modify
    rw [hlookup]
    dsimp only
    cases hf : f w with
    | error e => exact hsound
    | ok w' =>
      dsimp only
      split
      · exact hsound.withSavings (forall_erase hsound.savings)
      · rename_i hc
        exact hsound.withSavings (forall_replace (h := eq_false_of_ne_true hc) hsound.savings (hgood w' hf))
  unfold modifySavings
  cases hm : modifyIn Index.savingsWithdraws id f s with
  | error e s₁ =>
    rw [hm] at hmodify
    rw [bind_of_error hm]
    exact hmodify
  | ok _ s₁ =>
    rw [hm] at hmodify
    rw [bind_of_ok hm]
    exact TokenSound.withSavings hmodify hmodify.savings

theorem sound_processTokenSavings {id : Nat} {w : TokenSavingsWithdrawObject} (hsound : TokenSound v lost s)
    (hw : (id, w) ∈ s.savingsWithdraws.rows) : TokenSound v lost (after (processTokenSavings v id w s)) := by
  have hgood := hsound.savings w (mem_values.mpr ⟨id, hw⟩)
  unfold processTokenSavings
  split
  · rcases sound_payTokenSavings hsound hgood.payee hgood.symbol hgood.fits.unpaid_nonneg with
      ⟨e, hfail⟩ | ⟨t, hpay, hpaid⟩
    · rw [bind_of_error hfail]
      exact hsound
    · rw [bind_of_ok hpay]
      exact hpaid.withSavings (forall_erase hpaid.savings)
  · rename_i horder
    cases hdiv : safeDiv w.totalAmount.amount w.splitPayMonth.toNat with
    | error e => exact hsound
    | ok monthly =>
      rw [bind_of_ok (show checked (.ok monthly) s = .ok monthly s from rfl)]
      obtain ⟨hmonthly, -⟩ := safeDiv_eq_ok hdiv
      have hsym : IsSymbol s.tokens w.token w.totalAmount.symbol := hgood.total_symbol ▸ hgood.symbol
      have hpos : 0 ≤ monthly := hmonthly ▸ hgood.fits.1
      rcases sound_payTokenSavings (x := ⟨monthly, w.totalAmount.symbol⟩) hsound hgood.payee hsym hpos with
        ⟨e, hfail⟩ | ⟨t, hpay, hpaid⟩
      · rw [bind_of_error hfail]
        exact hsound
      · rw [bind_of_ok hpay]
        have hnext := sound_modifySavings (f := nextTokenInstalment v ⟨monthly, w.totalAmount.symbol⟩) hpaid hw
          fun w' hw' => goodSavings_next hgood horder hmonthly hw'
        cases hm : modifySavings id (nextTokenInstalment v ⟨monthly, w.totalAmount.symbol⟩)
            { s with balances := t } with
        | error e s₁ =>
          rw [hm] at hnext
          rw [bind_of_error hm]
          exact hnext
        | ok _ s₁ =>
          rw [hm] at hnext
          rw [bind_of_ok hm]
          exact hnext

theorem sound_processTokenSavingsFrom (v : CoreView) (fuel : Nat) (cursor : Option Nat) :
    Always (Kept (TokenSound v lost)) (processTokenSavingsFrom v fuel cursor) := by
  induction fuel generalizing cursor with
  | zero =>
    cases cursor with
    | none => exact always_pure _
    | some id => exact always_throw _
  | succ fuel ih =>
    cases cursor with
    | none => exact always_pure _
    | some id =>
      intro s hsound
      unfold processTokenSavingsFrom
      rw [bind_of_ok (get_apply s)]
      cases hlookup : s.savingsWithdraws.lookup id with
      | none => exact hsound
      | some w =>
        rw [bind_of_ok (show ofOption (some w) _ s = .ok w s from rfl)]
        split
        · exact hsound
        have hstep := sound_processTokenSavings hsound (lookup_eq_some.mp hlookup)
        cases hrun : processTokenSavings v id w s with
        | error e s₁ =>
          rw [hrun] at hstep
          rw [bind_of_error hrun]
          exact hstep
        | ok next s₁ =>
          rw [hrun] at hstep
          rw [bind_of_ok hrun]
          exact ih next s₁ hstep

theorem sound_processTokenSavingsWithdraws (v : CoreView) :
    Always (Kept (TokenSound v lost)) (processTokenSavingsWithdraws v) :=
  always_bind readOnly_get.always fun _ => sound_processTokenSavingsFrom v _ _

end Sigmaengine.Token
