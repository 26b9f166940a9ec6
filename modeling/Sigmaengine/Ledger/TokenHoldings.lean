import Mathlib.Data.Finsupp.Order
import Sigmaengine.Ledger.Routines

/-!
# What is held of a token

The holdings of every token at once are a finitely supported function of its name: the balances and
savings of the accounts on one side, the funds on the other.  Each adjustment of `token_util` moves one
of them by its amount, or throws and changes nothing.  A credit that fits in the supply never throws;
that is what keeps the two legs of a payout together in the block handler, whose exceptions are
swallowed with the state they leave.
-/

namespace Sigmaengine.Token

open Sigmaengine Effect Table Finsupp

/-- The total balance of each token. -/
noncomputable def issued (t : Table TokenObject) : TokenName →₀ ℤ :=
  t.sum fun x => single x.name x.totalBalance.amount

/-- What the accounts have of each token, savings included. -/
noncomputable def inAccounts (t : Table TokenBalanceObject) : TokenName →₀ ℤ :=
  t.sum fun b => single b.token (b.balance.amount + b.savingsBalance.amount)

/-- What the funds have of each token. -/
noncomputable def inFunds (t : Table TokenFundObject) : TokenName →₀ ℤ :=
  t.sum fun f => single f.token f.balance.amount

/-- There is a token with this name and symbol. -/
def IsSymbol (t : Table TokenObject) (name : TokenName) (symbol : AssetSymbol) : Prop :=
  ∃ x ∈ t.values, x.name = name ∧ x.symbol = symbol

theorem IsSymbol.unique {t : Table TokenObject} {name : TokenName} {a b : AssetSymbol}
    (ha : IsSymbol t name a) (hb : IsSymbol t name b) : a = b := by
  obtain ⟨x, hx, hxn, rfl⟩ := ha
  obtain ⟨y, hy, hyn, rfl⟩ := hb
  obtain ⟨i, hi⟩ := mem_values.mp hx
  obtain ⟨j, hj⟩ := mem_values.mp hy
  have hclash : Clash.clash x y = true := by simp [Clash.clash, hxn, hyn]
  have hsame := eq_of_clash hi hj hclash
  cases hsame
  rfl

/-- The token found under a name, with its symbol. -/
theorem isSymbol_of_mem {t : Table TokenObject} {r : Nat × TokenObject} (hr : r ∈ t.rows) :
    IsSymbol t r.2.name r.2.symbol :=
  ⟨r.2, mem_values.mpr ⟨r.1, hr⟩, rfl, rfl⟩

/-- A balance object is in the symbol of its token and not in debt. -/
structure GoodBalance (t : Table TokenObject) (b : TokenBalanceObject) : Prop where
  balance_nonneg : 0 ≤ b.balance.amount
  savings_nonneg : 0 ≤ b.savingsBalance.amount
  balance_symbol : IsSymbol t b.token b.balance.symbol
  savings_symbol : IsSymbol t b.token b.savingsBalance.symbol

/-- The same of a fund. -/
structure GoodFund (t : Table TokenObject) (f : TokenFundObject) : Prop where
  nonneg : 0 ≤ f.balance.amount
  symbol : IsSymbol t f.token f.balance.symbol

variable {tokens : Table TokenObject} {s s' : TokenIndices} {u : Unit} {v : CoreView} {side : Side}
  {lost : TokenName →₀ ℤ}
  {account : AccountName} {token : TokenName} {delta : Asset}

theorem inAccounts_nonneg {t : Table TokenBalanceObject} (hgood : ∀ b ∈ t.values, GoodBalance tokens b) :
    0 ≤ inAccounts t :=
  sum_nonneg fun b hb =>
    single_nonneg.mpr (add_nonneg (hgood b hb).balance_nonneg (hgood b hb).savings_nonneg)

theorem inFunds_nonneg {t : Table TokenFundObject} (hgood : ∀ f ∈ t.values, GoodFund tokens f) :
    0 ≤ inFunds t :=
  sum_nonneg fun f hf => single_nonneg.mpr (hgood f hf).nonneg

/-- One balance object holds no more than all of them. -/
theorem le_inAccounts {t : Table TokenBalanceObject} (hgood : ∀ b ∈ t.values, GoodBalance tokens b)
    {b : TokenBalanceObject} (hb : b ∈ t.values) :
    b.balance.amount + b.savingsBalance.amount ≤ inAccounts t b.token := by
  have hpos : ∀ b ∈ t.values, 0 ≤ single b.token (b.balance.amount + b.savingsBalance.amount) := by
    intro b hb
    have := hgood b hb
    exact single_nonneg.mpr (add_nonneg this.balance_nonneg this.savings_nonneg)
  have hle := le_sum_of_mem hpos hb b.token
  rw [single_eq_same] at hle
  exact hle

/-- One fund holds no more than all of them. -/
theorem le_inFunds {t : Table TokenFundObject} (hgood : ∀ f ∈ t.values, GoodFund tokens f) {f : TokenFundObject}
    (hf : f ∈ t.values) : f.balance.amount ≤ inFunds t f.token := by
  have hpos : ∀ f ∈ t.values, 0 ≤ single f.token f.balance.amount := by
    intro f hf
    exact single_nonneg.mpr (hgood f hf).nonneg
  have hle := le_sum_of_mem hpos hf f.token
  rw [single_eq_same] at hle
  exact hle

/-! ## Balances -/

/-- The balances of one token are the same but for `x`; they stay good for its symbol. -/
structure BalancesMoved (token : TokenName) (x : ℤ) (symbol : AssetSymbol)
    (t t' : Table TokenBalanceObject) : Prop where
  total : inAccounts t' = inAccounts t + single token x
  good : ∀ tokens, IsSymbol tokens token symbol → (∀ b ∈ t.values, GoodBalance tokens b) →
    ∀ b ∈ t'.values, GoodBalance tokens b

/-- Replacing a balance object by one of the same token that is not in debt. -/
theorem balancesMoved_replace {t : Table TokenBalanceObject} {id : Nat} {a b : TokenBalanceObject}
    {symbol : AssetSymbol} (ha : t.lookup id = some a) (hc : t.clashes id b = false)
    (htoken : b.token = a.token)
    (hgood : ∀ tokens, GoodBalance tokens a → GoodBalance tokens b) :
    BalancesMoved a.token (b.balance.amount + b.savingsBalance.amount -
      (a.balance.amount + a.savingsBalance.amount)) symbol t (t.replace id b hc) where
  total := by
    unfold inAccounts
    rw [sum_replace ha, htoken, single_sub]
  good := by
    intro tokens _ hall
    have ha := hall a (mem_values.mpr ⟨id, lookup_eq_some.mp ha⟩)
    exact forall_replace hall (hgood tokens ha)

theorem balancesMoved_insert {t : Table TokenBalanceObject} {b : TokenBalanceObject}
    (hc : t.clashes t.nextId b = false) {symbol : AssetSymbol} (hsym : b.balance.symbol = symbol)
    (hsym' : b.savingsBalance.symbol = symbol) (hbal : 0 ≤ b.balance.amount)
    (hsav : 0 ≤ b.savingsBalance.amount) :
    BalancesMoved b.token (b.balance.amount + b.savingsBalance.amount) symbol t (t.insert b hc) where
  total := by
    unfold inAccounts
    rw [sum_insert, add_comm]
  good := by
    intro tokens hs hall
    exact forall_insert hall ⟨hbal, hsav, hsym ▸ hs, hsym' ▸ hs⟩

theorem balancesMoved_erase {t : Table TokenBalanceObject} {id : Nat} {b : TokenBalanceObject}
    {symbol : AssetSymbol} (hb : t.lookup id = some b) :
    BalancesMoved b.token (-(b.balance.amount + b.savingsBalance.amount)) symbol t (t.erase id) where
  total := by
    unfold inAccounts
    rw [sum_erase hb, single_neg, ← sub_eq_add_neg]
  good := by
    intro tokens _ hall
    exact forall_erase hall

theorem addSide_eq_ok {id : Nat} {b : TokenBalanceObject} (hb : (id, b) ∈ s.balances.rows)
    (hpos : 0 ≤ (side.read b).amount + delta.amount) (h : addSide v side id delta s = .ok u s') :
    ∃ t, s' = { s with balances := t } ∧ BalancesMoved b.token delta.amount delta.symbol s.balances t := by
  obtain ⟨a, c, hc, ha, hf, rfl⟩ := modifyIn_eq_ok.mp h
  obtain rfl := eq_of_mem (lookup_eq_some.mp ha) hb
  obtain ⟨n, hadd, rfl⟩ := map_eq_ok hf
  obtain ⟨hsym, hsum, hnsym⟩ := Asset.add_eq_ok hadd
  have hn := safeAdd_eq_ok hsum
  refine ⟨_, rfl, ?_⟩
  cases side with
  | balance =>
    have hmoved : BalancesMoved a.token _ delta.symbol _ _ := balancesMoved_replace ha hc rfl fun _ hgood =>
      ⟨hn.ge.trans' hpos, hgood.savings_nonneg, hnsym ▸ hgood.balance_symbol, hgood.savings_symbol⟩
    have hx : n.amount + a.savingsBalance.amount - (a.balance.amount + a.savingsBalance.amount) =
        delta.amount := by
      simp only [Side.read] at hn
      omega
    simp only [Side.write, hx] at hmoved
    exact hmoved
  | savings =>
    have hmoved : BalancesMoved a.token _ delta.symbol _ _ := balancesMoved_replace ha hc rfl fun _ hgood =>
      ⟨hgood.balance_nonneg, hn.ge.trans' hpos, hgood.balance_symbol, hnsym ▸ hgood.savings_symbol⟩
    have hx : a.balance.amount + n.amount - (a.balance.amount + a.savingsBalance.amount) =
        delta.amount := by
      simp only [Side.read] at hn
      omega
    simp only [Side.write, hx] at hmoved
    exact hmoved

/-- What a search for the balance of an account finds. -/
def IsBalance (t : Table TokenBalanceObject) (account : AccountName) (token : TokenName)
    (found : Option (Nat × TokenBalanceObject)) : Prop :=
  t.find? (fun b => b.account == account && b.token == token) = found

theorem IsBalance.mem {t : Table TokenBalanceObject} {r : Nat × TokenBalanceObject}
    (h : IsBalance t account token (some r)) : r ∈ t.rows ∧ r.2.token = token := by
  obtain ⟨hmem, hkey⟩ := mem_of_find? h
  simp only [Bool.and_eq_true, beq_iff_eq] at hkey
  exact ⟨hmem, hkey.2⟩

theorem debitSide_eq_ok {found : Option (Nat × TokenBalanceObject)}
    (hfound : IsBalance s.balances account token found) (h : debitSide v side found delta s = .ok u s') :
    ∃ t, s' = { s with balances := t } ∧ BalancesMoved token delta.amount delta.symbol s.balances t ∧
      ∃ b ∈ s.balances.values, b.token = token ∧ (side.read b).symbol = delta.symbol := by
  simp only [debitSide, bind_eq_ok, ofOption_eq_ok, fcAssert_eq_ok, checked_eq_ok] at h
  obtain ⟨b, _, ⟨rfl, rfl⟩, _, _, ⟨hsym, rfl⟩, owed, _, ⟨hneg, rfl⟩, h⟩ := h
  obtain ⟨hmem, rfl⟩ := hfound.mem
  obtain ⟨howed, -⟩ := Asset.neg_eq_ok hneg
  have hsymbol : ∃ c ∈ s.balances.values, c.token = b.2.token ∧ (side.read c).symbol = delta.symbol :=
    ⟨b.2, mem_values.mpr ⟨b.1, hmem⟩, rfl, beq_iff_eq.mp hsym⟩
  split at h
  · -- the object is emptied on both sides, so all of it is what the debit takes
    rename_i hempty
    obtain rfl := removeIn_eq_ok.mp h
    refine ⟨_, rfl, ?_, hsymbol⟩
    have hmoved : BalancesMoved b.2.token _ delta.symbol _ _ := balancesMoved_erase (lookup_eq_some.mpr hmem)
    have hx : -(b.2.balance.amount + b.2.savingsBalance.amount) = delta.amount := by
      obtain ⟨hother, hall⟩ := hempty
      have hall := congrArg Asset.amount hall
      cases side <;> simp only [Side.read, Side.other] at hother hall <;> omega
    rw [hx] at hmoved
    exact hmoved
  · obtain ⟨enough, _, ⟨hge, rfl⟩, _, _, ⟨rfl, rfl⟩, hadd⟩ := by
      simpa only [bind_eq_ok, checked_eq_ok, fcAssert_eq_ok] using h
    have hcover : 0 ≤ (side.read b.2).amount + delta.amount := by
      unfold Asset.ge at hge
      split at hge
      · have := of_decide_eq_true (Except.ok.inj hge)
        omega
      · cases hge
    obtain ⟨t, rfl, hmoved⟩ := addSide_eq_ok hmem hcover hadd
    exact ⟨t, rfl, hmoved, hsymbol⟩

theorem open_moved {t : Table TokenBalanceObject} {now : TimePointSec}
    (hc : t.clashes t.nextId (side.open_ now account token delta) = false) (hpos : 0 ≤ delta.amount) :
    BalancesMoved token delta.amount delta.symbol t (t.insert (side.open_ now account token delta) hc) := by
  cases side with
  | balance =>
    have hmoved := balancesMoved_insert hc rfl rfl hpos (le_refl 0)
    simp only [Side.open_, add_zero] at hmoved
    exact hmoved
  | savings =>
    have hmoved := balancesMoved_insert hc rfl rfl (le_refl 0) hpos
    simp only [Side.open_, zero_add] at hmoved
    exact hmoved

theorem creditSide_eq_ok {found : Option (Nat × TokenBalanceObject)} {good : Table TokenObject}
    (hfound : IsBalance s.balances account token found) (hpos : 0 ≤ delta.amount)
    (hgood : ∀ b ∈ s.balances.values, GoodBalance good b)
    (h : creditSide v side account token found delta s = .ok u s') :
    ∃ t, s' = { s with balances := t } ∧ BalancesMoved token delta.amount delta.symbol s.balances t := by
  cases found with
  | none =>
    simp only [creditSide, bind_eq_ok, createIn_eq_ok, pure_eq_ok] at h
    obtain ⟨_, _, ⟨hc, -, rfl⟩, -, rfl⟩ := h
    exact ⟨_, rfl, open_moved hc hpos⟩
  | some b =>
    simp only [creditSide, bind_eq_ok, fcAssert_eq_ok] at h
    obtain ⟨_, _, ⟨-, rfl⟩, hadd⟩ := h
    obtain ⟨hmem, rfl⟩ := hfound.mem
    have hb := hgood b.2 (mem_values.mpr ⟨b.1, hmem⟩)
    have hread : 0 ≤ (side.read b.2).amount := by
      cases side
      · exact hb.balance_nonneg
      · exact hb.savings_nonneg
    exact addSide_eq_ok hmem (add_nonneg hread hpos) hadd

/-- **An adjustment that returns** moves the balances by its amount.  A debit shows that the balance it
takes from is in its symbol. -/
theorem adjustSide_eq_ok {good : Table TokenObject} (h : adjustSide v side account token delta s = .ok u s')
    (hgood : ∀ b ∈ s.balances.values, GoodBalance good b) :
    ∃ t, s' = { s with balances := t } ∧ BalancesMoved token delta.amount delta.symbol s.balances t ∧
      v.hasAccount account = true ∧ (delta.amount < 0 → IsSymbol good token delta.symbol) := by
  simp only [adjustSide, bind_eq_ok, findIn_eq_ok, fcAssert_eq_ok] at h
  obtain ⟨found, _, ⟨hfound, rfl⟩, _, _, ⟨hacc, rfl⟩, h⟩ := h
  split at h
  · obtain ⟨t, rfl, hmoved, b, hb, rfl, hsym⟩ := debitSide_eq_ok hfound h
    refine ⟨t, rfl, hmoved, hacc, fun _ => ?_⟩
    rw [← hsym]
    cases side
    · exact (hgood b hb).balance_symbol
    · exact (hgood b hb).savings_symbol
  · rename_i hpos
    obtain ⟨t, rfl, hmoved⟩ := creditSide_eq_ok hfound (not_lt.mp hpos) hgood h
    exact ⟨t, rfl, hmoved, hacc, fun hneg => absurd hneg hpos⟩

theorem clash_write (now : TimePointSec) (side : Side) (a : Asset) (b x : TokenBalanceObject) :
    Clash.clash x (side.write now a b) = Clash.clash x b := by
  cases side <;> rfl

theorem clean_addSide (v : CoreView) (side : Side) (id : Nat) (delta : Asset) :
    Clean (addSide v side id delta) := by
  apply clean_modifyIn
  intro a b hf x
  obtain ⟨n, -, rfl⟩ := map_eq_ok hf
  exact clash_write v.now side n a x

/-- An adjustment that throws changes nothing. -/
theorem clean_adjustSide (v : CoreView) (side : Side) (account : AccountName) (token : TokenName)
    (delta : Asset) : Clean (adjustSide v side account token delta) := by
  refine clean_bind (readOnly_findIn _) fun found => clean_bind (readOnly_assert _ _) fun _ => ?_
  split
  · refine clean_bind (readOnly_ofOption _ _) fun b => clean_bind (readOnly_assert _ _) fun _ => ?_
    refine clean_bind (readOnly_checked _) fun owed => ?_
    split
    · exact clean_removeIn _
    · refine clean_bind (readOnly_checked _) fun enough => clean_bind (readOnly_assert _ _) fun _ => ?_
      exact clean_addSide v side b.1 delta
  · cases found with
    | none =>
      intro s e s' hm
      cases hcreate : (createIn Index.balances (side.open_ v.now account token delta) : TokenM Nat) s with
      | ok id t =>
        simp only [creditSide, bind_of_ok hcreate] at hm
        cases hm
      | error e' t =>
        simp only [creditSide, bind_of_error hcreate] at hm
        cases hm
        exact clean_createIn _ s e s' hcreate
    | some b => exact clean_bind (readOnly_assert _ _) fun _ => clean_addSide v side b.1 delta

/-- An amount is added when the symbols agree and the sum is in range. -/
theorem addSide_returns {id : Nat} {b : TokenBalanceObject} (hb : (id, b) ∈ s.balances.rows)
    (hsame : (side.read b).symbol = delta.symbol) (hrange : InInt64 ((side.read b).amount + delta.amount)) :
    ∃ s', addSide v side id delta s = .ok () s' := by
  have hsum : (side.read b).add delta = .ok ⟨(side.read b).amount + delta.amount, delta.symbol⟩ := by
    unfold Asset.add
    rw [if_pos hsame, safeAdd_of_inInt64 hrange, hsame]
    rfl
  have hwrite := congrArg (Except.map fun a => side.write v.now a b) hsum
  exact modifyIn_returns (lookup_eq_some.mpr hb) hwrite (clash_write v.now side _ b)

/-- **A credit returns** when the account exists, the symbol is the token's and the sum is in range. -/
theorem adjustSide_returns (hpos : 0 ≤ delta.amount) (hacc : v.hasAccount account = true)
    (hgood : ∀ b ∈ s.balances.values, GoodBalance tokens b) (hsym : IsSymbol tokens token delta.symbol)
    (hroom : inAccounts s.balances token + delta.amount ≤ int64Max) :
    ∃ s', adjustSide v side account token delta s = .ok () s' := by
  cases hfound : s.balances.find? (fun b => b.account == account && b.token == token) with
  | none =>
    have hnew : s.balances.clashes s.balances.nextId (side.open_ v.now account token delta) = false := by
      apply clashes_eq_false
      intro b hb
      obtain ⟨id, hid⟩ := mem_values.mp hb
      have hno := find?_eq_none hfound hid
      cases side <;> exact hno
    refine ⟨{ s with balances := s.balances.insert _ hnew }, ?_⟩
    simp only [adjustSide, bind_eq_ok, findIn_eq_ok, fcAssert_eq_ok]
    refine ⟨none, s, ⟨hfound, rfl⟩, (), s, ⟨hacc, rfl⟩, ?_⟩
    rw [if_neg (not_lt.mpr hpos)]
    simp only [creditSide, bind_eq_ok, createIn_eq_ok, pure_eq_ok]
    exact ⟨_, _, ⟨hnew, rfl, rfl⟩, trivial, rfl⟩
  | some b =>
    obtain ⟨hmem, htoken⟩ := IsBalance.mem hfound
    have hb := hgood b.2 (mem_values.mpr ⟨b.1, hmem⟩)
    have hle := le_inAccounts hgood (mem_values.mpr ⟨b.1, hmem⟩)
    rw [htoken] at hle
    have hread : (side.read b.2).symbol = delta.symbol ∧ 0 ≤ (side.read b.2).amount ∧
        (side.read b.2).amount + delta.amount ≤ int64Max := by
      have := hb.balance_nonneg
      have := hb.savings_nonneg
      cases side with
      | balance =>
        exact ⟨hb.balance_symbol.unique (htoken ▸ hsym), hb.balance_nonneg, by simp only [Side.read]; omega⟩
      | savings =>
        exact ⟨hb.savings_symbol.unique (htoken ▸ hsym), hb.savings_nonneg, by simp only [Side.read]; omega⟩
    obtain ⟨hsame, hlo, hhi⟩ := hread
    have hrange : InInt64 ((side.read b.2).amount + delta.amount) := by
      unfold InInt64 int64Min
      omega
    obtain ⟨s', hadd⟩ := addSide_returns (v := v) hmem hsame hrange
    refine ⟨s', ?_⟩
    simp only [adjustSide, bind_eq_ok, findIn_eq_ok, fcAssert_eq_ok]
    refine ⟨some b, s, ⟨hfound, rfl⟩, (), s, ⟨hacc, rfl⟩, ?_⟩
    rw [if_neg (not_lt.mpr hpos)]
    exact bind_eq_ok.mpr ⟨(), s, fcAssert_eq_ok.mpr ⟨beq_iff_eq.mpr hsame, rfl⟩, hadd⟩

/-! ## Funds -/

theorem moveFund_eq_ok {now : TimePointSec} {withdrawDelta : Asset} {f f' : TokenFundObject}
    (h : moveFund now delta withdrawDelta f = .ok f') :
    f'.token = f.token ∧ f'.fundName = f.fundName ∧ f'.balance.symbol = f.balance.symbol ∧
      f'.balance.amount = f.balance.amount + delta.amount := by
  unfold moveFund at h
  cases hb : f.balance.add delta with
  | error e => simp [hb] at h
  | ok b =>
    cases hw : f.withdrawBalance.add withdrawDelta with
    | error e => simp [hb, hw] at h
    | ok w =>
      simp only [hb, hw] at h
      cases h
      obtain ⟨-, hsum, hsym⟩ := Asset.add_eq_ok hb
      exact ⟨rfl, rfl, hsym, safeAdd_eq_ok hsum⟩

/-- What passes the check leaves no debt. -/
theorem covers_nonneg {field : Asset} (hfield : 0 ≤ field.amount) (h : covers field delta = .ok true) :
    0 ≤ field.amount + delta.amount := by
  unfold covers at h
  split at h
  · omega
  · cases hneg : delta.neg with
    | error e => simp [hneg] at h
    | ok owed =>
      obtain ⟨howed, -⟩ := Asset.neg_eq_ok hneg
      simp only [hneg, Asset.ge] at h
      split at h
      · have := of_decide_eq_true (Except.ok.inj h)
        omega
      · cases h

theorem inFunds_replace {t : Table TokenFundObject} {id : Nat} {a b : TokenFundObject}
    (ha : t.lookup id = some a) (hc : t.clashes id b = false) (htoken : b.token = a.token) :
    inFunds (t.replace id b hc) = inFunds t + single a.token (b.balance.amount - a.balance.amount) := by
  unfold inFunds
  rw [sum_replace ha, htoken, single_sub]

/-- **A fund that is adjusted** moves by the amount; the fund is in the symbol of the amount. -/
theorem adjustTokenFundBalance_eq_ok {good : Table TokenObject} {fund : FundName} {withdrawDelta : Asset}
    (h : adjustTokenFundBalance v token fund delta withdrawDelta s = .ok u s')
    (hgood : ∀ f ∈ s.funds.values, GoodFund good f) :
    ∃ t, s' = { s with funds := t } ∧ inFunds t = inFunds s.funds + single token delta.amount ∧
      (∀ f ∈ t.values, GoodFund good f) ∧ IsSymbol good token delta.symbol := by
  simp only [adjustTokenFundBalance, bind_eq_ok, findIn_eq_ok, ofOption_eq_ok, fcAssert_eq_ok,
    checked_eq_ok] at h
  obtain ⟨_, _, ⟨hfound, rfl⟩, f, _, ⟨rfl, rfl⟩, _, _, ⟨hsym, rfl⟩, enough, _, ⟨hcover, rfl⟩, _, _,
    ⟨rfl, rfl⟩, _, _, ⟨-, rfl⟩, _, _, ⟨-, rfl⟩, hmod⟩ := h
  obtain ⟨hmem, hkey⟩ := mem_of_find? hfound
  simp only [Bool.and_eq_true, beq_iff_eq] at hkey
  obtain ⟨a, b, hc, ha, hf, rfl⟩ := modifyIn_eq_ok.mp hmod
  obtain rfl := eq_of_mem (lookup_eq_some.mp ha) hmem
  obtain ⟨htoken, -, hbsym, hamount⟩ := moveFund_eq_ok hf
  have hfgood := hgood f.2 (mem_values.mpr ⟨f.1, hmem⟩)
  have hnonneg : 0 ≤ b.balance.amount := by
    rw [hamount]
    exact covers_nonneg hfgood.nonneg hcover
  have hsymbol : IsSymbol good b.token b.balance.symbol := by
    rw [htoken, hbsym]
    exact hfgood.symbol
  refine ⟨_, rfl, ?_, forall_replace hgood ⟨hnonneg, hsymbol⟩, ?_⟩
  · have hsum := inFunds_replace ha hc htoken
    rw [hamount, add_sub_cancel_left, hkey.1] at hsum
    exact hsum
  · rw [← hkey.1, ← beq_iff_eq.mp hsym]
    exact hfgood.symbol

theorem clean_adjustTokenFundBalance (v : CoreView) (token : TokenName) (fund : FundName)
    (delta withdrawDelta : Asset) : Clean (adjustTokenFundBalance v token fund delta withdrawDelta) := by
  refine clean_bind (readOnly_findIn _) fun found => clean_bind (readOnly_ofOption _ _) fun f => ?_
  refine clean_bind (readOnly_assert _ _) fun _ => clean_bind (readOnly_checked _) fun enough => ?_
  refine clean_bind (readOnly_assert _ _) fun _ => clean_bind (readOnly_checked _) fun enough => ?_
  refine clean_bind (readOnly_assert _ _) fun _ => clean_modifyIn ?_
  intro a b hf x
  obtain ⟨htoken, hfund, -, -⟩ := moveFund_eq_ok hf
  simp only [Clash.clash, htoken, hfund]

/-! ## Sound states -/

/-- A stake pays a nonnegative amount of its token to an account that exists. -/
structure GoodStake (v : CoreView) (t : Table TokenObject) (w : TokenFundWithdrawObject) : Prop where
  owner : v.hasAccount w.from_ = true
  nonneg : 0 ≤ w.amount.amount
  symbol : IsSymbol t w.token w.amount.symbol

/-- The schedule of a withdrawal from the savings. -/
def TokenSavingsWithdrawObject.schedule (w : TokenSavingsWithdrawObject) : Schedule AccountName where
  payee := w.to_
  unpaid := w.amount.amount
  instalment := w.totalAmount.amount.tdiv w.splitPayMonth.toNat
  left := (w.splitPayMonth - w.splitPayOrder).toNat
  months := w.splitPayMonth.toNat

/-- A schedule pays its token to an account that exists, and its instalments fit in its amount. -/
structure GoodSavings (v : CoreView) (t : Table TokenObject) (w : TokenSavingsWithdrawObject) : Prop where
  payee : v.hasAccount w.to_ = true
  fits : w.schedule.Fits
  symbol : IsSymbol t w.token w.amount.symbol
  total_symbol : w.totalAmount.symbol = w.amount.symbol

/-- Every token is conserved but for what was lost of it, and every object that will move some is in
order. -/
structure TokenSound (v : CoreView) (lost : TokenName →₀ ℤ) (s : TokenIndices) : Prop where
  conserved : issued s.tokens = inAccounts s.balances + inFunds s.funds + lost
  lost_nonneg : 0 ≤ lost
  issued_le : ∀ x ∈ s.tokens.values, x.totalBalance.amount ≤ int64Max
  balances : ∀ b ∈ s.balances.values, GoodBalance s.tokens b
  funds : ∀ f ∈ s.funds.values, GoodFund s.tokens f
  stakes : ∀ w ∈ s.fundWithdraws.values, GoodStake v s.tokens w
  savings : ∀ w ∈ s.savingsWithdraws.values, GoodSavings v s.tokens w

/-- More accounts do no harm. -/
theorem TokenSound.mono {v v' : CoreView} (hsound : TokenSound v lost s)
    (hle : ∀ n, v.hasAccount n = true → v'.hasAccount n = true) : TokenSound v' lost s where
  conserved := hsound.conserved
  lost_nonneg := hsound.lost_nonneg
  issued_le := hsound.issued_le
  balances := hsound.balances
  funds := hsound.funds
  stakes w hw := { hsound.stakes w hw with owner := hle _ (hsound.stakes w hw).owner }
  savings w hw := { hsound.savings w hw with payee := hle _ (hsound.savings w hw).payee }

/-- Money of a token that goes from one place to another. -/
theorem TokenSound.exchange {t : Table TokenBalanceObject} {f : Table TokenFundObject}
    (hsound : TokenSound v lost s) (hb : ∀ b ∈ t.values, GoodBalance s.tokens b)
    (hf : ∀ g ∈ f.values, GoodFund s.tokens g)
    (hsum : inAccounts t + inFunds f = inAccounts s.balances + inFunds s.funds) :
    TokenSound v lost { s with balances := t, funds := f } :=
  ⟨hsound.conserved.trans (by rw [hsum]), hsound.lost_nonneg, hsound.issued_le, hb, hf, hsound.stakes,
    hsound.savings⟩

theorem issued_apply {t : Table TokenObject} {x : TokenObject} (hx : x ∈ t.values) :
    issued t x.name = x.totalBalance.amount := by
  obtain ⟨id, hid⟩ := mem_values.mp hx
  have hkey : ∀ a b : TokenObject, a.name = b.name → Clash.clash a b = true := by
    intro a b hname
    simp [Clash.clash, hname]
  exact sum_single_apply hid hkey fun a => a.totalBalance.amount

/-- What accounts and funds have of a token is at most its total. -/
theorem TokenSound.held_le_total (hsound : TokenSound v lost s) {x : TokenObject} (hx : x ∈ s.tokens.values) :
    inAccounts s.balances x.name + inFunds s.funds x.name ≤ x.totalBalance.amount := by
  have hconserved := DFunLike.congr_fun hsound.conserved x.name
  rw [issued_apply hx, Finsupp.add_apply, Finsupp.add_apply] at hconserved
  have hlost : 0 ≤ lost x.name := hsound.lost_nonneg x.name
  omega

/-- What accounts and funds have of a token is within the range of an amount. -/
theorem TokenSound.held_le (hsound : TokenSound v lost s) {symbol : AssetSymbol}
    (hsym : IsSymbol s.tokens token symbol) :
    inAccounts s.balances token + inFunds s.funds token ≤ int64Max := by
  obtain ⟨x, hx, rfl, -⟩ := hsym
  exact (hsound.held_le_total hx).trans (hsound.issued_le x hx)

end Sigmaengine.Token
