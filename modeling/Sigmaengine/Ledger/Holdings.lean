import Sigmaengine.Ledger.TokenFrames
import Sigmaengine.Ledger.TokenRuns

/-!
# Whose tokens an operation moves

The holdings of an account are its balance and its savings of every token.  An operation of the token plugin changes those
of the accounts that sign for it and, without being asked, those of a recipient or a publisher.

Main result: `holdings_tokenEvaluator`.
-/

namespace Sigmaengine.Token

open Effect Table

/-! ## Holdings -/

/-- The balance and the savings of an account. -/
def TokenIndices.holdings (s : TokenIndices) (a : AccountName) (token : TokenName) : Int × Int :=
  ((s.balances.at? fun b => b.account == a && b.token == token).map fun b =>
    (b.balance.amount, b.savingsBalance.amount)).getD (0, 0)

/-- An amount added on one side. -/
def Side.shift : Side → Int → Int × Int → Int × Int
  | .balance, x, h => (h.1 + x, h.2)
  | .savings, x, h => (h.1, h.2 + x)

variable {s s' : TokenIndices} {u : Unit} {v : CoreView} {side : Side} {account a : AccountName} {token t : TokenName}
  {delta : Asset} {b : TokenBalanceObject} {id : Nat}

theorem shift_eq_self {x : Int} {h : Int × Int} : side.shift x h = h ↔ x = 0 := by
  cases side with
  | balance => simp [Side.shift, Prod.ext_iff]
  | savings => simp [Side.shift, Prod.ext_iff]

theorem uniqueKey_holdings (a : AccountName) (t : TokenName) :
    UniqueKey fun b : TokenBalanceObject => b.account == a && b.token == t := by
  intro x y hx hy
  simp only [Bool.and_eq_true, beq_iff_eq] at hx hy
  simp [Clash.clash, hx, hy]

theorem isKey_iff : (b.account == a && b.token == t) = true ↔ a = b.account ∧ t = b.token := by
  rw [Bool.and_eq_true, beq_iff_eq, beq_iff_eq, eq_comm, @eq_comm _ b.token]

theorem holdings_of_mem (hb : (id, b) ∈ s.balances.rows) :
    s.holdings b.account b.token = (b.balance.amount, b.savingsBalance.amount) := by
  have hat := (at?_eq_some (uniqueKey_holdings b.account b.token)).mpr
    ⟨mem_values.mpr ⟨id, hb⟩, by simp⟩
  unfold TokenIndices.holdings
  rw [hat]
  rfl

theorem holdings_of_none (h : s.balances.find? (fun b => b.account == a && b.token == t) = none) :
    s.holdings a t = (0, 0) := by
  unfold TokenIndices.holdings at?
  rw [h]
  rfl

/-- A balance object written under its own key. -/
theorem holdings_replace {c : TokenBalanceObject} (hc : s.balances.clashes id c = false)
    (hb : s.balances.lookup id = some b) (haccount : c.account = b.account) (htoken : c.token = b.token) :
    ({ s with balances := s.balances.replace id c hc } : TokenIndices).holdings a t =
      if a = b.account ∧ t = b.token then (c.balance.amount, c.savingsBalance.amount) else s.holdings a t := by
  unfold TokenIndices.holdings
  rw [at?_replace (uniqueKey_holdings a t) hb hc (by rw [haccount, htoken])]
  by_cases hkey : a = b.account ∧ t = b.token
  · rw [if_pos (isKey_iff.mpr hkey), if_pos hkey]
    rfl
  · rw [if_neg (mt isKey_iff.mp hkey), if_neg hkey]

theorem holdings_insert {hc : s.balances.clashes s.balances.nextId b = false} :
    ({ s with balances := s.balances.insert b hc } : TokenIndices).holdings a t =
      if a = b.account ∧ t = b.token then (b.balance.amount, b.savingsBalance.amount) else s.holdings a t := by
  unfold TokenIndices.holdings
  rw [at?_insert (uniqueKey_holdings a t) hc]
  by_cases hkey : a = b.account ∧ t = b.token
  · rw [if_pos (isKey_iff.mpr hkey), if_pos hkey]
    rfl
  · rw [if_neg (mt isKey_iff.mp hkey), if_neg hkey]

theorem holdings_erase (hb : s.balances.lookup id = some b) :
    ({ s with balances := s.balances.erase id } : TokenIndices).holdings a t =
      if a = b.account ∧ t = b.token then (0, 0) else s.holdings a t := by
  unfold TokenIndices.holdings
  rw [at?_erase (uniqueKey_holdings a t) hb]
  by_cases hkey : a = b.account ∧ t = b.token
  · rw [if_pos (isKey_iff.mpr hkey), if_pos hkey]
    rfl
  · rw [if_neg (mt isKey_iff.mp hkey), if_neg hkey]

/-! ## Adjustments -/

/-- The holdings differ by an amount on one side of one account's token. -/
def Shifted (side : Side) (account : AccountName) (token : TokenName) (x : Int) (s s' : TokenIndices) : Prop :=
  ∀ a t, s'.holdings a t = if a = account ∧ t = token then side.shift x (s.holdings a t) else s.holdings a t

theorem shifted_addSide (hb : (id, b) ∈ s.balances.rows) (h : addSide v side id delta s = .ok u s') :
    Shifted side b.account b.token delta.amount s s' := by
  obtain ⟨c, e, hc, hfound, hf, rfl⟩ := modifyIn_eq_ok.mp h
  obtain rfl := eq_of_mem (lookup_eq_some.mp hfound) hb
  obtain ⟨n, hadd, rfl⟩ := map_eq_ok hf
  obtain ⟨-, hsum, -⟩ := Asset.add_eq_ok hadd
  have hn := safeAdd_eq_ok hsum
  intro a t
  refine (holdings_replace (a := a) (t := t) hc hfound (by cases side <;> rfl) (by cases side <;> rfl)).trans ?_
  by_cases hkey : a = c.account ∧ t = c.token
  · obtain ⟨rfl, rfl⟩ := hkey
    rw [if_pos ⟨rfl, rfl⟩, if_pos ⟨rfl, rfl⟩, holdings_of_mem hb]
    cases side with
    | balance => exact Prod.ext hn rfl
    | savings => exact Prod.ext rfl hn
  · rw [if_neg hkey, if_neg hkey]

theorem shifted_debitSide {found : Option (Nat × TokenBalanceObject)}
    (hfound : s.balances.find? (fun b => b.account == account && b.token == token) = found)
    (h : debitSide v side found delta s = .ok u s') : Shifted side account token delta.amount s s' := by
  simp only [debitSide, bind_eq_ok, ofOption_eq_ok, fcAssert_eq_ok, checked_eq_ok] at h
  obtain ⟨b, _, ⟨rfl, rfl⟩, _, _, ⟨-, rfl⟩, owed, _, ⟨hneg, rfl⟩, h⟩ := h
  obtain ⟨hmem, hkey⟩ := mem_of_find? hfound
  obtain ⟨rfl, rfl⟩ := isKey_iff.mp hkey
  obtain ⟨howed, -⟩ := Asset.neg_eq_ok hneg
  split at h
  · -- both sides of the object are empty then
    rename_i hempty
    obtain ⟨hother, hall⟩ := hempty
    obtain rfl := removeIn_eq_ok.mp h
    intro a t
    refine (holdings_erase (a := a) (t := t) (lookup_eq_some.mpr hmem)).trans ?_
    have hread : (side.read b.2).amount + delta.amount = 0 := by
      rw [hall, howed]
      omega
    by_cases hat : a = b.2.account ∧ t = b.2.token
    · obtain ⟨rfl, rfl⟩ := hat
      rw [if_pos ⟨rfl, rfl⟩, if_pos ⟨rfl, rfl⟩, holdings_of_mem hmem]
      cases side with
      | balance => exact Prod.ext hread.symm hother.symm
      | savings => exact Prod.ext hother.symm hread.symm
    · rw [if_neg hat, if_neg hat]
  · simp only [bind_eq_ok, checked_eq_ok, fcAssert_eq_ok] at h
    obtain ⟨_, _, ⟨-, rfl⟩, _, _, ⟨-, rfl⟩, hadd⟩ := h
    exact shifted_addSide hmem hadd

/-- A fresh object holds the amount on this side. -/
theorem shifted_open {now : TimePointSec}
    (hfound : s.balances.find? (fun b => b.account == account && b.token == token) = none)
    (hc : s.balances.clashes s.balances.nextId (side.open_ now account token delta) = false) :
    Shifted side account token delta.amount s
      { s with balances := s.balances.insert (side.open_ now account token delta) hc } := by
  intro a t
  refine (holdings_insert (a := a) (t := t)).trans ?_
  by_cases hat : a = account ∧ t = token
  · obtain ⟨rfl, rfl⟩ := hat
    rw [if_pos (by cases side <;> exact ⟨rfl, rfl⟩), if_pos ⟨rfl, rfl⟩, holdings_of_none hfound]
    cases side with
    | balance => exact Prod.ext (zero_add _).symm rfl
    | savings => exact Prod.ext rfl (zero_add _).symm
  · rw [if_neg (by cases side <;> exact hat), if_neg hat]

/-- **An adjustment** shifts the holdings by its amount. -/
theorem shifted_adjustSide (h : adjustSide v side account token delta s = .ok u s') :
    Shifted side account token delta.amount s s' := by
  simp only [adjustSide, bind_eq_ok, findIn_eq_ok, fcAssert_eq_ok] at h
  obtain ⟨found, _, ⟨hfound, rfl⟩, _, _, ⟨-, rfl⟩, h⟩ := h
  split at h
  · exact shifted_debitSide hfound h
  · cases found with
    | none =>
      simp only [creditSide, bind_eq_ok, createIn_eq_ok, pure_eq_ok] at h
      obtain ⟨_, _, ⟨hc, -, rfl⟩, -, rfl⟩ := h
      exact shifted_open hfound hc
    | some b =>
      simp only [creditSide, bind_eq_ok, fcAssert_eq_ok] at h
      obtain ⟨_, _, ⟨-, rfl⟩, hadd⟩ := h
      obtain ⟨hmem, hkey⟩ := mem_of_find? hfound
      obtain ⟨rfl, rfl⟩ := isKey_iff.mp hkey
      exact shifted_addSide hmem hadd

theorem Shifted.of_ne {x : Int} (h : Shifted side account token x s s') (ha : a ≠ account) :
    s'.holdings a = s.holdings a := by
  funext t
  rw [h a t, if_neg fun hkey => ha hkey.1]

theorem Shifted.eq_iff {x : Int} (h : Shifted side a token x s s') : s'.holdings a = s.holdings a ↔ x = 0 := by
  constructor
  · intro heq
    have hat := h a token
    rw [heq, if_pos ⟨rfl, rfl⟩] at hat
    exact shift_eq_self.mp hat.symm
  · rintro rfl
    funext t
    rw [h a t]
    split
    · exact shift_eq_self.mpr rfl
    · rfl

/-- Neither balances nor savings differ. -/
def SameBalances (s s' : TokenIndices) : Prop := s'.balances = s.balances

instance : Std.Refl SameBalances := ⟨fun _ => rfl⟩

instance : IsTrans TokenIndices SameBalances := ⟨fun _ _ _ h h' => h'.trans h⟩

theorem SameBalances.holdings (h : SameBalances s s') : s'.holdings = s.holdings := by
  unfold TokenIndices.holdings
  rw [h]

theorem holdings_of_always {α : Type} {m : TokenM α} {r : α} (hm : Always SameBalances m) (h : m s = .ok r s') :
    s'.holdings = s.holdings :=
  (hm.runs s r s' h).holdings

theorem sameBalances_adjustTokenFundBalance (v : CoreView) (token : TokenName) (fund : FundName)
    (delta withdrawDelta : Asset) : Always SameBalances (adjustTokenFundBalance v token fund delta withdrawDelta) :=
  always_adjustTokenFundBalance (fun _ _ => rfl) v token fund delta withdrawDelta

/-! ## Operations -/

theorem holdings_openBalance {op : CreateTokenOperation} {supply : Asset} (h : openBalance v op supply s = .ok u s')
    (a : AccountName) (t : TokenName) :
    s'.holdings a t = if a = op.publisher ∧ t = op.name then (supply.amount, (s.holdings a t).2) else s.holdings a t := by
  simp only [openBalance, bind_eq_ok, findIn_eq_ok] at h
  obtain ⟨found, _, ⟨hfound, rfl⟩, h⟩ := h
  cases found with
  | none =>
    simp only [bind_eq_ok, createIn_eq_ok, pure_eq_ok] at h
    obtain ⟨_, _, ⟨hc, -, rfl⟩, -, rfl⟩ := h
    have hopen : Shifted .balance op.publisher op.name supply.amount s
        { s with balances := s.balances.insert (Side.balance.open_ v.now op.publisher op.name supply) hc } :=
      shifted_open hfound hc
    refine (hopen a t).trans ?_
    split
    · rename_i hkey
      obtain ⟨rfl, rfl⟩ := hkey
      rw [holdings_of_none hfound]
      exact Prod.ext (zero_add _) rfl
    · rfl
  | some r =>
    obtain ⟨b, c, hc, hlookup, hf, rfl⟩ := modifyIn_eq_ok.mp h
    obtain ⟨hmem, hkey⟩ := mem_of_find? hfound
    obtain rfl := eq_of_mem (lookup_eq_some.mp hlookup) hmem
    obtain ⟨hpublisher, hname⟩ := isKey_iff.mp hkey
    cases hf
    have hreplace := holdings_replace (a := a) (t := t) hc hlookup rfl rfl
    refine hreplace.trans ?_
    rw [hpublisher, hname]
    split
    · rename_i hat
      obtain ⟨rfl, rfl⟩ := hat
      rw [holdings_of_mem hmem]
    · rfl

theorem shifted_creditIssue {op : IssueTokenOperation} (h : creditIssue v op s = .ok u s') :
    Shifted .balance op.publisher op.name op.reissueAmount.amount s s' := by
  simp only [creditIssue, bind_eq_ok, findIn_eq_ok] at h
  obtain ⟨found, _, ⟨hfound, rfl⟩, h⟩ := h
  cases found with
  | none =>
    simp only [bind_eq_ok, createIn_eq_ok, pure_eq_ok] at h
    obtain ⟨_, _, ⟨hc, -, rfl⟩, -, rfl⟩ := h
    exact shifted_open hfound hc
  | some r =>
    obtain ⟨hmem, hkey⟩ := mem_of_find? hfound
    obtain ⟨hpublisher, hname⟩ := isKey_iff.mp hkey
    rw [hpublisher, hname]
    exact shifted_addSide hmem h

/-- The account, unless nothing is added. -/
def unlessZero (a : AccountName) (x : Int) : Option AccountName := if x = 0 then none else some a

theorem unlessZero_eq_some {x : Int} {b : AccountName} : unlessZero b x = some a ↔ x ≠ 0 ∧ b = a := by
  unfold unlessZero
  by_cases hx : x = 0
  · simp [hx]
  · simp [hx]

/-- The supply that a new token starts with. -/
def CreateTokenOperation.supply (op : CreateTokenOperation) : Int :=
  match precision (makeSymbol (toUpper op.symbolName)) with
  | .ok unit => op.initSupplyAmount * unit
  | .error _ => 0

/-- The schedule that is ended. -/
def savingsOf (s : TokenIndices) (op : EndTokenSavingsOperation) : Option TokenSavingsWithdrawObject :=
  s.savingsWithdraws.at? fun w =>
    w.token == op.token && w.from_ == op.from_ && w.to_ == op.to_ && w.requestId == op.requestId

/-- The account whose holdings an operation changes without a signature of its own. -/
def TokenOperation.unasked (s : TokenIndices) : TokenOperation → Option AccountName
  | .createToken op => unlessZero op.publisher (op.supply - (s.holdings op.publisher op.name).1)
  | .issueToken op => unlessZero op.publisher op.reissueAmount.amount
  | .transferToken op => unlessZero op.to_ op.amount.amount
  | .transferTokenSavings op => unlessZero op.to_ op.amount.amount
  | .cancelTransferTokenSavings op | .concludeTransferTokenSavings op =>
    (savingsOf s op).bind fun w => unlessZero op.to_ w.amount.amount
  | _ => none

/-- The account that signs, where one does. -/
def TokenOperation.signer : TokenOperation → Option AccountName
  | .createToken _ => none
  | .issueToken _ => none
  | .transferToken op => some op.from_
  | .burnToken op => some op.account
  | .setupTokenFund op => some op.tokenPublisher
  | .setTokenStakingInterest op => some op.tokenPublisher
  | .transferTokenFund op => some op.from_
  | .stakingTokenFund op => some op.from_
  | .transferTokenSavings op => some op.from_
  | .cancelTransferTokenSavings op => some op.from_
  | .concludeTransferTokenSavings op => some op.from_

theorem holdings_storeToken {op : CreateTokenOperation} (h : storeToken v op s = .ok u s') (a : AccountName) :
    s'.holdings a ≠ s.holdings a ↔ unlessZero op.publisher (op.supply - (s.holdings op.publisher op.name).1) = some a := by
  simp only [storeToken, bind_eq_ok, findIn_eq_ok, fcAssert_eq_ok, checked_eq_ok, get_eq_ok, createIn_eq_ok] at h
  obtain ⟨_, _, ⟨-, rfl⟩, _, _, ⟨-, rfl⟩, _, _, ⟨-, rfl⟩, _, _, ⟨-, rfl⟩, _, _, ⟨-, rfl⟩, _, _, ⟨-, rfl⟩, _, _,
    ⟨rfl, rfl⟩, _, _, ⟨-, rfl⟩, unit, _, ⟨hunit, rfl⟩, _, _, ⟨hc, -, rfl⟩, hopen⟩ := h
  have hsupply : op.supply = op.initSupplyAmount * unit := by
    unfold CreateTokenOperation.supply
    rw [hunit]
  have hat : ∀ a t, s'.holdings a t = if a = op.publisher ∧ t = op.name then
      (op.initSupplyAmount * unit, (s.holdings a t).2) else s.holdings a t := holdings_openBalance hopen
  rw [unlessZero_eq_some, hsupply]
  constructor
  · intro hne
    by_cases ha : a = op.publisher
    · subst ha
      refine ⟨fun hx => hne ?_, rfl⟩
      funext t
      rw [hat]
      split
      · rename_i hkey
        rw [hkey.2]
        exact Prod.ext (by omega) rfl
      · rfl
    · refine absurd ?_ hne
      funext t
      rw [hat, if_neg fun hkey => ha hkey.1]
  · rintro ⟨hx, rfl⟩ heq
    have hname := hat op.publisher op.name
    rw [heq, if_pos ⟨rfl, rfl⟩] at hname
    have hfst : (s.holdings op.publisher op.name).1 = op.initSupplyAmount * unit := congrArg Prod.fst hname
    omega

/-- A shift of the holdings of one account, seen from all that do not sign. -/
theorem holdings_of_shift {s₁ : TokenIndices} {x : Int} (h : Shifted side account token x s₁ s')
    (hother : s₁.holdings a = s.holdings a) :
    s'.holdings a ≠ s.holdings a ↔ unlessZero account x = some a := by
  rw [unlessZero_eq_some, ← hother]
  by_cases ha : account = a
  · subst ha
    rw [Ne, h.eq_iff]
    simp
  · simp [h.of_ne (Ne.symm ha), ha]

theorem holdings_issueToken {op : IssueTokenOperation} {r : Nat × TokenObject} (h : issueToken v op r s = .ok u s')
    (a : AccountName) :
    s'.holdings a ≠ s.holdings a ↔ unlessZero op.publisher op.reissueAmount.amount = some a := by
  simp only [issueToken, bind_eq_ok, fcAssert_eq_ok, checked_eq_ok] at h
  obtain ⟨_, _, ⟨-, rfl⟩, _, _, ⟨-, rfl⟩, _, _, ⟨-, rfl⟩, _, _, ⟨-, rfl⟩, _, _, ⟨-, rfl⟩, _, t, hmodify, hcredit⟩ := h
  obtain ⟨_, _, hc, -, -, rfl⟩ := modifyIn_eq_ok.mp hmodify
  exact holdings_of_shift (shifted_creditIssue hcredit) rfl

theorem holdings_transferToken {op : TransferTokenOperation} (h : transferToken v op token s = .ok u s')
    (ha : a ≠ op.from_) : s'.holdings a ≠ s.holdings a ↔ unlessZero op.to_ op.amount.amount = some a := by
  simp only [transferToken, bind_eq_ok, checked_eq_ok] at h
  obtain ⟨delta, _, ⟨-, rfl⟩, _, t, hdebit, hcredit⟩ := h
  exact holdings_of_shift (shifted_adjustSide hcredit) ((shifted_adjustSide hdebit).of_ne ha)

theorem holdings_burnToken {op : BurnTokenOperation} {r : Nat × TokenObject} (h : burnToken v op r s = .ok u s')
    (ha : a ≠ op.account) : s'.holdings a = s.holdings a := by
  simp only [burnToken, bind_eq_ok, checked_eq_ok] at h
  obtain ⟨delta, _, ⟨-, rfl⟩, _, t, hdebit, hmodify⟩ := h
  obtain ⟨_, _, hc, -, -, rfl⟩ := modifyIn_eq_ok.mp hmodify
  exact (shifted_adjustSide hdebit).of_ne ha

theorem holdings_setupTokenFund {op : SetupTokenFundOperation} {r : TokenObject}
    (h : setupTokenFund v op r s = .ok u s') (ha : a ≠ op.tokenPublisher) : s'.holdings a = s.holdings a := by
  simp only [setupTokenFund, bind_eq_ok, findIn_eq_ok] at h
  obtain ⟨found, _, ⟨-, rfl⟩, _, t, htake, hopen⟩ := h
  have hopened : t.holdings = s'.holdings := by
    refine (holdings_of_always ?_ hopen).symm
    cases found with
    | none => exact always_bind (always_within (fun _ _ => rfl) _) fun _ => always_pure _
    | some f => exact always_pure _
  rw [← hopened]
  unfold takeInitBalance at htake
  split at htake
  · simp only [bind_eq_ok, checked_eq_ok] at htake
    obtain ⟨delta, _, ⟨-, rfl⟩, hdebit⟩ := htake
    exact (shifted_adjustSide hdebit).of_ne ha
  · obtain ⟨-, rfl⟩ := pure_eq_ok.mp htake
    rfl

theorem holdings_transferTokenFund {op : TransferTokenFundOperation} (h : transferTokenFund v op s = .ok u s')
    (ha : a ≠ op.from_) : s'.holdings a = s.holdings a := by
  simp only [transferTokenFund, bind_eq_ok, checked_eq_ok] at h
  obtain ⟨delta, _, ⟨-, rfl⟩, _, t, hdebit, hfund⟩ := h
  rw [holdings_of_always (sameBalances_adjustTokenFundBalance _ _ _ _ _) hfund]
  exact (shifted_adjustSide hdebit).of_ne ha

theorem holdings_stakeToken {interest : TokenInterest} {op : StakingTokenFundOperation} {r : TokenObject}
    (h : stakeToken interest v op r s = .ok u s') (ha : a ≠ op.from_) : s'.holdings a = s.holdings a := by
  simp only [stakeToken, bind_eq_ok, findIn_eq_ok, fcAssert_eq_ok, ofOption_eq_ok, checked_eq_ok, createIn_eq_ok,
    pure_eq_ok] at h
  obtain ⟨_, _, ⟨-, rfl⟩, _, _, ⟨-, rfl⟩, _, _, ⟨-, rfl⟩, _, _, ⟨-, rfl⟩, _, _, ⟨-, rfl⟩, _, _, ⟨-, rfl⟩, _, t, hdebit, _,
    t', hfund, _, _, ⟨_, -, rfl⟩, -, rfl⟩ := h
  have hsame := holdings_of_always (sameBalances_adjustTokenFundBalance _ _ _ _ _) hfund
  exact (congrFun hsame a).trans ((shifted_adjustSide hdebit).of_ne ha)

theorem holdings_transferTokenSavings {op : TransferTokenSavingsOperation}
    (h : transferTokenSavings v op token s = .ok u s') (ha : a ≠ op.from_) :
    s'.holdings a ≠ s.holdings a ↔ unlessZero op.to_ op.amount.amount = some a := by
  simp only [transferTokenSavings, bind_eq_ok, fcAssert_eq_ok, checked_eq_ok] at h
  obtain ⟨_, _, ⟨-, rfl⟩, delta, _, ⟨-, rfl⟩, _, t, hdebit, _, t', hcredit, hcreate⟩ := h
  have hsame : s'.holdings = t'.holdings := by
    refine holdings_of_always ?_ hcreate
    exact always_bind (always_within (fun _ _ => rfl) _) fun _ => fun _ => rfl
  rw [hsame]
  exact holdings_of_shift (shifted_adjustSide hcredit) ((shifted_adjustSide hdebit).of_ne ha)

/-- The savings of an account that become its balance. -/
theorem holdings_of_release {s₁ : TokenIndices} {x : Int} (hdebit : Shifted .savings account token (-x) s s₁)
    (hcredit : Shifted .balance account token x s₁ s') :
    s'.holdings a ≠ s.holdings a ↔ unlessZero account x = some a := by
  rw [unlessZero_eq_some]
  by_cases ha : account = a
  · subst ha
    refine ⟨fun hne => ⟨fun hx => hne ?_, rfl⟩, fun hx heq => hx.1 ?_⟩
    · rw [hcredit.eq_iff.mpr hx, hdebit.eq_iff.mpr (by omega)]
    · have hbalance := hcredit account token
      rw [heq, if_pos ⟨rfl, rfl⟩, hdebit account token, if_pos ⟨rfl, rfl⟩] at hbalance
      have hfst : (s.holdings account token).1 = (s.holdings account token).1 + x := congrArg Prod.fst hbalance
      omega
  · have hsame : s'.holdings a = s.holdings a := (hcredit.of_ne (Ne.symm ha)).trans (hdebit.of_ne (Ne.symm ha))
    simp [hsame, ha]

theorem unlessZero_neg (a : AccountName) (x : Int) : unlessZero a (-x) = unlessZero a x := by
  unfold unlessZero
  by_cases hx : x = 0
  · simp [hx]
  · simp [hx]

theorem holdings_endTokenSavings {op : EndTokenSavingsOperation} {toSender : Bool}
    (h : endTokenSavings v op toSender s = .ok u s') (ha : a ≠ op.from_) :
    s'.holdings a ≠ s.holdings a ↔ ((savingsOf s op).bind fun w => unlessZero op.to_ w.amount.amount) = some a := by
  simp only [endTokenSavings, bind_eq_ok, findIn_eq_ok, ofOption_eq_ok, checked_eq_ok] at h
  obtain ⟨found, _, ⟨hfound, rfl⟩, w, _, ⟨rfl, rfl⟩, delta, _, ⟨hneg, rfl⟩, _, t, hdebit, _, t', hcredit, hremove⟩ := h
  have hsavings : savingsOf s op = some w.2 := congrArg (Option.map Prod.snd) hfound
  have hto : w.2.to_ = op.to_ := by
    obtain ⟨-, hkey⟩ := mem_of_find? hfound
    simp only [Bool.and_eq_true, beq_iff_eq] at hkey
    exact hkey.1.2
  obtain ⟨hdelta, -⟩ := Asset.neg_eq_ok hneg
  have hdebit := shifted_adjustSide hdebit
  have hcredit := shifted_adjustSide hcredit
  have hsame : s'.holdings = t'.holdings := by
    refine holdings_of_always ?_ hremove
    exact always_bind (always_within (fun _ _ => rfl) _) fun _ => fun _ => rfl
  rw [hsame, hsavings, Option.bind_some]
  rw [hdelta, hto] at hdebit
  cases toSender with
  | true =>
    rw [hcredit.of_ne ha, ← unlessZero_neg]
    exact holdings_of_shift hdebit rfl
  | false =>
    rw [if_neg Bool.false_ne_true, hto] at hcredit
    exact holdings_of_release hdebit hcredit

/-- **Operations of the token plugin**: whoever does not sign keeps its holdings, apart from the account that is not
asked. -/
theorem holdings_tokenEvaluator {interest : TokenInterest} {op : TokenOperation} {d d' : Database}
    (h : tokenEvaluator interest op d = .ok u d') (ha : op.signer ≠ some a) :
    d'.token.holdings a ≠ d.token.holdings a ↔ op.unasked d.token = some a := by
  have hnobody : d'.token.holdings a = d.token.holdings a →
      (d'.token.holdings a ≠ d.token.holdings a ↔ (none : Option AccountName) = some a) := by
    intro hsame
    simp [hsame]
  have hne : ∀ b, op.signer = some b → a ≠ b := by
    rintro b hb rfl
    exact ha hb
  have hstep := tokenStep_of_evaluator h
  cases op with
  | createToken op => exact holdings_storeToken hstep a
  | issueToken op =>
    obtain ⟨r, -, -, hrun⟩ := hstep
    exact holdings_issueToken hrun a
  | transferToken op =>
    obtain ⟨r, -, -, hrun⟩ := hstep
    exact holdings_transferToken hrun (hne _ rfl)
  | burnToken op =>
    obtain ⟨r, -, -, hrun⟩ := hstep
    exact hnobody (holdings_burnToken hrun (hne _ rfl))
  | setupTokenFund op =>
    obtain ⟨r, -, -, -, hrun⟩ := hstep
    exact hnobody (holdings_setupTokenFund hrun (hne _ rfl))
  | setTokenStakingInterest op =>
    obtain ⟨rate, hrun⟩ := hstep
    have hsame := holdings_of_always (always_storeInterest (fun _ _ => rfl) _ op rate) hrun
    exact hnobody (congrFun hsame a)
  | transferTokenFund op => exact hnobody (holdings_transferTokenFund hstep (hne _ rfl))
  | stakingTokenFund op =>
    obtain ⟨r, -, hrun⟩ := hstep
    exact hnobody (holdings_stakeToken hrun (hne _ rfl))
  | transferTokenSavings op => exact holdings_transferTokenSavings hstep (hne _ rfl)
  | cancelTransferTokenSavings op | concludeTransferTokenSavings op =>
    exact holdings_endTokenSavings hstep (hne _ rfl)

end Sigmaengine.Token
