import Sigmaengine.Consensus.Slots
import Sigmaengine.Ledger.TokenRuns

/-!
# Token savings are backed

What an account has in the savings of a token is what the schedules still owe it.  Both sides are
finitely supported functions of the account and the token (`saved`, `owed`), and an operation that
returns moves them together.  The block handler runs outside of any session; there the backing is what
makes every debit of the savings succeed, so the handler never stops between the two.
-/

namespace Sigmaengine.Token

open Sigmaengine Effect Table Finsupp

variable {s s' : TokenIndices} {u : Unit} {v : CoreView} {side : Side} {account : AccountName}
  {token : TokenName} {delta : Asset} {lost : TokenName →₀ ℤ}

/-! ## Savings and debts -/

/-- What each account has in the savings of each token. -/
noncomputable def saved (t : Table TokenBalanceObject) : AccountName × TokenName →₀ ℤ :=
  t.sum fun b => single (b.account, b.token) b.savingsBalance.amount

/-- What the schedules still owe each account of each token. -/
noncomputable def owed (t : Table TokenSavingsWithdrawObject) : AccountName × TokenName →₀ ℤ :=
  t.sum fun w => single (w.to_, w.token) w.amount.amount

/-- What an adjustment of a side does to the savings. -/
noncomputable def Side.savingsDelta (side : Side) (key : AccountName × TokenName) (x : ℤ) :
    AccountName × TokenName →₀ ℤ :=
  match side with
  | .balance => 0
  | .savings => single key x

theorem saved_replace {t : Table TokenBalanceObject} {id : Nat} {a b : TokenBalanceObject}
    (ha : t.lookup id = some a) (hc : t.clashes id b = false) (hkey : (b.account, b.token) = (a.account, a.token)) :
    saved (t.replace id b hc) =
      saved t + single (a.account, a.token) (b.savingsBalance.amount - a.savingsBalance.amount) := by
  unfold saved
  rw [sum_replace ha, hkey, single_sub]

theorem saved_addSide {id : Nat} {b : TokenBalanceObject} (hb : (id, b) ∈ s.balances.rows)
    (h : addSide v side id delta s = .ok u s') :
    ∃ t, s' = { s with balances := t } ∧
      saved t = saved s.balances + side.savingsDelta (b.account, b.token) delta.amount := by
  obtain ⟨a, c, hc, ha, hf, rfl⟩ := modifyIn_eq_ok.mp h
  obtain rfl := eq_of_mem (lookup_eq_some.mp ha) hb
  obtain ⟨n, hadd, rfl⟩ := map_eq_ok hf
  obtain ⟨-, hsum, -⟩ := Asset.add_eq_ok hadd
  have hn := safeAdd_eq_ok hsum
  refine ⟨_, rfl, ?_⟩
  cases side with
  | balance =>
    refine (saved_replace ha hc rfl).trans ?_
    simp only [Side.write, Side.savingsDelta, sub_self, single_zero]
    rfl
  | savings =>
    refine (saved_replace ha hc rfl).trans ?_
    have hx : n.amount - a.savingsBalance.amount = delta.amount := by
      simp only [Side.read] at hn
      omega
    simp only [Side.write, Side.savingsDelta, hx]
    rfl

theorem saved_open {t : Table TokenBalanceObject} {now : TimePointSec}
    (hc : t.clashes t.nextId (side.open_ now account token delta) = false) :
    saved (t.insert (side.open_ now account token delta) hc) =
      saved t + side.savingsDelta (account, token) delta.amount := by
  unfold saved
  rw [sum_insert, add_comm]
  cases side with
  | balance => simp only [Side.open_, Side.savingsDelta, single_zero]
  | savings => rfl

/-- **An adjustment that returns** moves the savings only on their own side. -/
theorem saved_adjustSide (h : adjustSide v side account token delta s = .ok u s') :
    ∃ t, s' = { s with balances := t } ∧
      saved t = saved s.balances + side.savingsDelta (account, token) delta.amount := by
  simp only [adjustSide, bind_eq_ok, findIn_eq_ok, fcAssert_eq_ok] at h
  obtain ⟨found, _, ⟨hfound, rfl⟩, _, _, ⟨-, rfl⟩, h⟩ := h
  have hkeys : ∀ b, found = some b → b ∈ s.balances.rows ∧ (b.2.account, b.2.token) = (account, token) := by
    rintro b rfl
    obtain ⟨hmem, hkey⟩ := mem_of_find? hfound
    simp only [Bool.and_eq_true, beq_iff_eq] at hkey
    exact ⟨hmem, Prod.ext hkey.1 hkey.2⟩
  split at h
  · simp only [debitSide, bind_eq_ok, ofOption_eq_ok, fcAssert_eq_ok, checked_eq_ok] at h
    obtain ⟨b, _, ⟨rfl, rfl⟩, _, _, ⟨-, rfl⟩, owed, _, ⟨hneg, rfl⟩, h⟩ := h
    obtain ⟨hmem, hkey⟩ := hkeys b rfl
    obtain ⟨howed, -⟩ := Asset.neg_eq_ok hneg
    split at h
    · -- the object is emptied on both sides
      rename_i hempty
      obtain rfl := removeIn_eq_ok.mp h
      refine ⟨_, rfl, ?_⟩
      have herase := sum_erase (lookup_eq_some.mpr hmem)
        fun b : TokenBalanceObject => single (b.account, b.token) b.savingsBalance.amount
      refine herase.trans ?_
      rw [hkey]
      obtain ⟨hother, hall⟩ := hempty
      have hall := congrArg Asset.amount hall
      cases side with
      | balance =>
        simp only [Side.other] at hother
        rw [hother, single_zero, sub_zero]
        exact (add_zero _).symm
      | savings =>
        have hx : -b.2.savingsBalance.amount = delta.amount := by
          simp only [Side.read] at hall
          omega
        rw [sub_eq_add_neg, ← single_neg, hx]
        rfl
    · simp only [bind_eq_ok, checked_eq_ok, fcAssert_eq_ok] at h
      obtain ⟨_, _, ⟨-, rfl⟩, _, _, ⟨-, rfl⟩, hadd⟩ := h
      rw [← hkey]
      exact saved_addSide hmem hadd
  · cases found with
    | none =>
      simp only [creditSide, bind_eq_ok, createIn_eq_ok, pure_eq_ok] at h
      obtain ⟨_, _, ⟨hc, -, rfl⟩, -, rfl⟩ := h
      exact ⟨_, rfl, saved_open hc⟩
    | some b =>
      simp only [creditSide, bind_eq_ok, fcAssert_eq_ok] at h
      obtain ⟨_, _, ⟨-, rfl⟩, hadd⟩ := h
      obtain ⟨hmem, hkey⟩ := hkeys b rfl
      rw [← hkey]
      exact saved_addSide hmem hadd

/-! ## Code that leaves savings and schedules alone -/

/-- The savings, the schedules and their order are the same. -/
def SavingsStay (s s' : TokenIndices) : Prop :=
  saved s'.balances = saved s.balances ∧ s'.savingsWithdraws = s.savingsWithdraws ∧
    s'.bySavingsNextDate = s.bySavingsNextDate

instance : Std.Refl SavingsStay := ⟨fun _ => ⟨rfl, rfl, rfl⟩⟩

instance : IsTrans TokenIndices SavingsStay :=
  ⟨fun _ _ _ h h' => ⟨h'.1.trans h.1, h'.2.1.trans h.2.1, h'.2.2.trans h.2.2⟩⟩

theorem savingsStay_adjustTokenBalance (v : CoreView) (account : AccountName) (token : TokenName) (delta : Asset) :
    Always SavingsStay (adjustTokenBalance v account token delta) := by
  refine always_of_clean ?_ (clean_adjustSide v .balance account token delta)
  intro s u s' h
  obtain ⟨t, rfl, ht⟩ := saved_adjustSide h
  exact ⟨ht.trans (add_zero _), rfl, rfl⟩

theorem savingsStay_adjustTokenFundBalance (v : CoreView) (token : TokenName) (fund : FundName)
    (delta withdrawDelta : Asset) :
    Always SavingsStay (adjustTokenFundBalance v token fund delta withdrawDelta) := by
  refine always_bind (readOnly_findIn _).always fun found => ?_
  refine always_bind (readOnly_ofOption _ _).always fun f => ?_
  refine always_bind (readOnly_assert _ _).always fun _ => ?_
  refine always_bind (readOnly_checked _).always fun enough => ?_
  refine always_bind (readOnly_assert _ _).always fun _ => ?_
  refine always_bind (readOnly_checked _).always fun enough => ?_
  exact always_bind (readOnly_assert _ _).always fun _ => always_within (fun _ _ => ⟨rfl, rfl, rfl⟩) _

/-- A new balance object, or one whose balance alone changes. -/
theorem savingsStay_openBalance {now : TimePointSec} :
    Runs SavingsStay (createIn Index.balances (Side.balance.open_ now account token delta) : TokenM Nat) := by
  intro s id s' h
  obtain ⟨hc, -, rfl⟩ := createIn_eq_ok.mp h
  exact ⟨(saved_open hc).trans (add_zero _), rfl, rfl⟩

theorem savingsStay_modifyBalance {id : Nat} {f : TokenBalanceObject → Except Error TokenBalanceObject}
    (hf : ∀ a b, f a = .ok b → (b.account, b.token) = (a.account, a.token) ∧ b.savingsBalance = a.savingsBalance) :
    Runs SavingsStay (modifyIn Index.balances id f) := by
  intro s u s' h
  obtain ⟨a, b, hc, ha, hab, rfl⟩ := modifyIn_eq_ok.mp h
  obtain ⟨hkey, hsame⟩ := hf a b hab
  refine ⟨(saved_replace ha hc hkey).trans ?_, rfl, rfl⟩
  rw [hsame, sub_self, single_zero, add_zero]
  rfl

theorem savingsStay_storeToken (v : CoreView) (op : CreateTokenOperation) : Runs SavingsStay (storeToken v op) := by
  refine runs_bind (readOnly_findIn _).always.runs fun _ => runs_bind (readOnly_assert _ _).always.runs fun _ => ?_
  refine runs_bind (readOnly_findIn _).always.runs fun _ => runs_bind (readOnly_assert _ _).always.runs fun _ => ?_
  refine runs_bind (readOnly_checked _).always.runs fun _ => runs_bind (readOnly_assert _ _).always.runs fun _ => ?_
  refine runs_bind readOnly_get.always.runs fun _ => runs_bind (readOnly_checked _).always.runs fun _ => ?_
  refine runs_bind (readOnly_checked _).always.runs fun _ => ?_
  refine runs_bind (always_within (fun _ _ => ⟨rfl, rfl, rfl⟩) _).runs fun _ => ?_
  refine runs_bind (readOnly_findIn _).always.runs fun found => ?_
  cases found with
  | none => exact runs_bind savingsStay_openBalance fun _ => runs_pure _
  | some b =>
    refine savingsStay_modifyBalance fun a b hab => ?_
    cases hab
    exact ⟨rfl, rfl⟩

theorem savingsStay_issueToken (v : CoreView) (op : IssueTokenOperation) (r : Nat × TokenObject) :
    Runs SavingsStay (issueToken v op r) := by
  refine runs_bind (readOnly_assert _ _).always.runs fun _ => runs_bind (readOnly_checked _).always.runs fun _ => ?_
  refine runs_bind (readOnly_checked _).always.runs fun _ => runs_bind (readOnly_checked _).always.runs fun _ => ?_
  refine runs_bind (readOnly_assert _ _).always.runs fun _ => ?_
  refine runs_bind (always_within (fun _ _ => ⟨rfl, rfl, rfl⟩) _).runs fun _ => ?_
  refine runs_bind (readOnly_findIn _).always.runs fun found => ?_
  cases found with
  | none => exact runs_bind savingsStay_openBalance fun _ => runs_pure _
  | some b =>
    refine savingsStay_modifyBalance fun a c hac => ?_
    obtain ⟨n, -, rfl⟩ := map_eq_ok hac
    exact ⟨rfl, rfl⟩

theorem savingsStay_transferToken (v : CoreView) (op : TransferTokenOperation) (token : TokenName) :
    Always SavingsStay (transferToken v op token) := by
  refine always_bind (readOnly_checked _).always fun _ => ?_
  exact always_bind (savingsStay_adjustTokenBalance _ _ _ _) fun _ => savingsStay_adjustTokenBalance _ _ _ _

theorem savingsStay_burnToken (v : CoreView) (op : BurnTokenOperation) (r : Nat × TokenObject) :
    Always SavingsStay (burnToken v op r) := by
  refine always_bind (readOnly_checked _).always fun _ => ?_
  exact always_bind (savingsStay_adjustTokenBalance _ _ _ _) fun _ => always_within (fun _ _ => ⟨rfl, rfl, rfl⟩) _

theorem savingsStay_setupTokenFund (v : CoreView) (op : SetupTokenFundOperation) (r : TokenObject) :
    Always SavingsStay (setupTokenFund v op r) := by
  refine always_bind (readOnly_findIn _).always fun found => always_bind ?_ fun _ => ?_
  · unfold takeInitBalance
    split
    · exact always_bind (readOnly_checked _).always fun _ => savingsStay_adjustTokenBalance _ _ _ _
    · exact always_pure _
  · cases found with
    | none => exact always_bind (always_within (fun _ _ => ⟨rfl, rfl, rfl⟩) _) fun _ => always_pure _
    | some f => exact always_pure _

theorem savingsStay_storeInterest (v : CoreView) (op : SetTokenStakingInterestOperation) (rate : Int) :
    Always SavingsStay (storeInterest v op rate) := by
  refine always_bind (readOnly_findIn _).always fun found => ?_
  split
  · exact always_bind (readOnly_ofOption _ _).always fun _ => always_within (fun _ _ => ⟨rfl, rfl, rfl⟩) _
  · refine always_bind (readOnly_assert _ _).always fun _ => ?_
    cases found with
    | none => exact always_bind (always_within (fun _ _ => ⟨rfl, rfl, rfl⟩) _) fun _ => always_pure _
    | some r => exact always_within (fun _ _ => ⟨rfl, rfl, rfl⟩) _

theorem savingsStay_transferTokenFund (v : CoreView) (op : TransferTokenFundOperation) :
    Always SavingsStay (transferTokenFund v op) := by
  refine always_bind (readOnly_checked _).always fun _ => ?_
  exact always_bind (savingsStay_adjustTokenBalance _ _ _ _) fun _ => savingsStay_adjustTokenFundBalance _ _ _ _ _

theorem savingsStay_stakeToken (interest : TokenInterest) (v : CoreView) (op : StakingTokenFundOperation)
    (r : TokenObject) : Always SavingsStay (stakeToken interest v op r) := by
  refine always_bind (readOnly_findIn _).always fun _ => always_bind (readOnly_assert _ _).always fun _ => ?_
  refine always_bind (readOnly_findIn _).always fun _ => always_bind (readOnly_ofOption _ _).always fun _ => ?_
  refine always_bind (readOnly_checked _).always fun _ => always_bind (readOnly_checked _).always fun _ => ?_
  refine always_bind (savingsStay_adjustTokenBalance _ _ _ _) fun _ => ?_
  refine always_bind (savingsStay_adjustTokenFundBalance _ _ _ _ _) fun _ => ?_
  exact always_bind (always_within (fun _ _ => ⟨rfl, rfl, rfl⟩) _) fun _ => always_pure _

theorem savingsStay_processTokenFundWithdraw (v : CoreView) : Always SavingsStay (processTokenFundWithdraw v) := by
  refine always_bind readOnly_get.always fun _ => always_loop ?_ _
  refine always_bind readOnly_get.always fun s => ?_
  split
  · exact always_pure _
  · split
    · exact always_pure _
    · refine always_bind (readOnly_checked _).always fun _ => ?_
      refine always_bind (savingsStay_adjustTokenFundBalance _ _ _ _ _) fun _ => ?_
      refine always_bind (savingsStay_adjustTokenBalance _ _ _ _) fun _ => ?_
      exact always_bind (always_within (fun _ _ => ⟨rfl, rfl, rfl⟩) _) fun _ => always_pure _

/-! ## Backed states -/

/-- Sound tokens, of which some may be lost, whose savings are what the schedules owe. -/
structure TokenBacked (v : CoreView) (s : TokenIndices) : Prop where
  sound : ∃ lost, TokenSound v lost s
  backed : saved s.balances = owed s.savingsWithdraws
  /-- The order of the schedules names schedules that exist. -/
  linked : ∀ id ∈ s.bySavingsNextDate, ∃ w, s.savingsWithdraws.lookup id = some w
  months : ∀ w ∈ s.savingsWithdraws.values, w.splitPayMonth ≠ 0

theorem TokenBacked.stay (hs : TokenBacked v s) (hstay : SavingsStay s s') (hsound : ∃ lost, TokenSound v lost s') :
    TokenBacked v s' where
  sound := hsound
  backed := by rw [hstay.1, hstay.2.1, hs.backed]
  linked := by rw [hstay.2.1, hstay.2.2]; exact hs.linked
  months := by rw [hstay.2.1]; exact hs.months

theorem owed_insert {t : Table TokenSavingsWithdrawObject} {w : TokenSavingsWithdrawObject}
    (hc : t.clashes t.nextId w = false) :
    owed (t.insert w hc) = owed t + single (w.to_, w.token) w.amount.amount := by
  unfold owed
  rw [sum_insert, add_comm]

theorem owed_erase {t : Table TokenSavingsWithdrawObject} {id : Nat} {w : TokenSavingsWithdrawObject}
    (hw : t.lookup id = some w) : owed (t.erase id) = owed t - single (w.to_, w.token) w.amount.amount := by
  unfold owed
  rw [sum_erase hw]

theorem mem_insertByDate {t : Table TokenSavingsWithdrawObject} {id x : Nat} {order : List Nat} :
    x ∈ insertByDate t id order ↔ x = id ∨ x ∈ order := by
  induction order with
  | nil => simp [insertByDate]
  | cons y ys ih =>
    unfold insertByDate
    split
    · simp
    · rw [List.mem_cons, ih, List.mem_cons]
      exact or_left_comm

theorem mem_relink {t : Table TokenSavingsWithdrawObject} {id x : Nat} {order : List Nat}
    (h : x ∈ relink t id order) : x = id ∨ x ∈ order := by
  unfold relink at h
  dsimp only at h
  split at h
  · rcases mem_insertByDate.mp h with hx | hx
    · exact .inl hx
    · exact .inr (List.mem_of_mem_filter hx)
  · exact .inr h

theorem mem_entryAfter {id x : Nat} {order : List Nat} (h : entryAfter id order = some x) : x ∈ order := by
  induction order with
  | nil => cases h
  | cons y ys ih =>
    unfold entryAfter at h
    split at h
    · exact List.mem_cons_of_mem _ (List.mem_of_head? h)
    · exact List.mem_cons_of_mem _ (ih h)

/-- A schedule for what was just put into the savings. -/
theorem TokenBacked.createSavings {t : Table TokenBalanceObject} {w : TokenSavingsWithdrawObject}
    (hs : TokenBacked v s) (hsound : ∃ lost, TokenSound v lost s')
    (ht : saved t = saved s.balances + single (w.to_, w.token) w.amount.amount) (hmonth : w.splitPayMonth ≠ 0)
    (h : Token.createSavings w { s with balances := t } = .ok u s') : TokenBacked v s' := by
  simp only [Token.createSavings, bind_eq_ok, createIn_eq_ok, modify_eq_ok] at h
  obtain ⟨id, _, ⟨hc, rfl, rfl⟩, rfl⟩ := h
  refine ⟨hsound, ?_, ?_, forall_insert (h := hc) hs.months hmonth⟩
  · refine ht.trans ?_
    rw [hs.backed]
    exact (owed_insert (t := s.savingsWithdraws) hc).symm
  · intro x hx
    have hlookup := lookup_insert s.savingsWithdraws (a := w) hc x
    split at hlookup
    next => exact ⟨w, hlookup⟩
    next hne =>
      rcases mem_insertByDate.mp hx with heq | hx
      · exact absurd heq hne
      · obtain ⟨y, hy⟩ := hs.linked x hx
        exact ⟨y, hlookup.trans hy⟩

/-- The end of a schedule whose amount was just taken off the savings. -/
theorem TokenBacked.removeSavings {t : Table TokenBalanceObject} {id : Nat} {w : TokenSavingsWithdrawObject}
    (hs : TokenBacked v s) (hsound : ∃ lost, TokenSound v lost s') (hw : s.savingsWithdraws.lookup id = some w)
    (ht : saved t = saved s.balances - single (w.to_, w.token) w.amount.amount)
    (h : Token.removeSavings id { s with balances := t } = .ok u s') : TokenBacked v s' := by
  simp only [Token.removeSavings, bind_eq_ok, removeIn_eq_ok, modify_eq_ok] at h
  obtain ⟨_, _, rfl, rfl⟩ := h
  refine ⟨hsound, ?_, ?_, forall_erase hs.months⟩
  · change saved t = owed (s.savingsWithdraws.erase id)
    rw [ht, hs.backed, owed_erase hw]
  · intro x hx
    obtain ⟨hmem, hne⟩ := List.mem_filter.mp hx
    obtain ⟨y, hy⟩ := hs.linked x hmem
    exact ⟨y, lookup_eq_some.mpr (mem_erase.mpr ⟨lookup_eq_some.mp hy, by simpa using hne⟩)⟩

theorem backed_transferTokenSavings {fc : TextRules} {op : TransferTokenSavingsOperation} (hs : TokenBacked v s)
    (hvalid : ∀ c ∈ op.validate fc, c.holds = true) (h : transferTokenSavings v op op.token s = .ok u s') :
    TokenBacked v s' := by
  obtain ⟨lost, hsound⟩ := hs.sound
  have hsound' := sound_transferTokenSavings hsound hvalid h
  simp only [transferTokenSavings, bind_eq_ok, fcAssert_eq_ok, checked_eq_ok] at h
  obtain ⟨_, _, ⟨-, rfl⟩, δ, _, ⟨-, rfl⟩, _, s₁, hdebit, _, s₂, hcredit, hcreate⟩ := h
  simp only [TransferTokenSavingsOperation.validate, List.cons_append, List.forall_mem_cons,
    decide_eq_true_eq, Bool.and_eq_true] at hvalid
  obtain ⟨-, -, -, -, ⟨hmonth, -⟩, -⟩ := hvalid
  obtain ⟨t, rfl, ht⟩ := saved_adjustSide hdebit
  obtain ⟨t', rfl, ht'⟩ := saved_adjustSide hcredit
  refine hs.createSavings ⟨lost, hsound'⟩ ?_ ?_ hcreate
  · exact ht'.trans (congrArg (· + _) (ht.trans (add_zero _)))
  · rintro hzero
    dsimp only at hzero
    rw [hzero] at hmonth
    exact absurd hmonth (by decide)

theorem backed_endTokenSavings {op : EndTokenSavingsOperation} {toSender : Bool} (hs : TokenBacked v s)
    (h : endTokenSavings v op toSender s = .ok u s') : TokenBacked v s' := by
  obtain ⟨lost, hsound⟩ := hs.sound
  have hsound' := sound_endTokenSavings hsound h
  simp only [endTokenSavings, bind_eq_ok, findIn_eq_ok, ofOption_eq_ok, checked_eq_ok] at h
  obtain ⟨_, _, ⟨hfound, rfl⟩, w, _, ⟨rfl, rfl⟩, δ, _, ⟨hneg, rfl⟩, _, s₁, hdebit, _, s₂, hcredit, hremove⟩ := h
  obtain ⟨hmem, hkey⟩ := mem_of_find? hfound
  simp only [Bool.and_eq_true, beq_iff_eq] at hkey
  obtain ⟨hδ, -⟩ := Asset.neg_eq_ok hneg
  obtain ⟨t, rfl, ht⟩ := saved_adjustSide hdebit
  obtain ⟨t', rfl, ht'⟩ := saved_adjustSide hcredit
  refine hs.removeSavings ⟨lost, hsound'⟩ (lookup_eq_some.mpr hmem) ?_ hremove
  refine (ht'.trans (add_zero _)).trans (ht.trans ?_)
  rw [sub_eq_add_neg, ← single_neg, ← hδ, hkey.1.1.1]
  rfl

/-! ## Payouts of the block handler -/

/-- What a schedule owes is in the savings. -/
theorem TokenBacked.owed_le_saved (hs : TokenBacked v s) {id : Nat} {w : TokenSavingsWithdrawObject}
    (hw : (id, w) ∈ s.savingsWithdraws.rows) : w.amount.amount ≤ saved s.balances (w.to_, w.token) := by
  obtain ⟨lost, hsound⟩ := hs.sound
  have hpos : ∀ x ∈ s.savingsWithdraws.values, 0 ≤ single (x.to_, x.token) x.amount.amount :=
    fun x hx => single_nonneg.mpr (hsound.savings x hx).fits.unpaid_nonneg
  have hle := le_sum_of_mem hpos (mem_values.mpr ⟨id, hw⟩) (w.to_, w.token)
  rw [single_eq_same] at hle
  rw [hs.backed]
  exact hle

theorem saved_eq {t : Table TokenBalanceObject} {b : Nat × TokenBalanceObject} (hb : b ∈ t.rows) :
    saved t (b.2.account, b.2.token) = b.2.savingsBalance.amount := by
  refine sum_single_apply hb (fun x y hxy => ?_) fun b => b.savingsBalance.amount
  obtain ⟨haccount, htoken⟩ := Prod.mk.injEq .. ▸ hxy
  simp [Clash.clash, haccount, htoken]

theorem saved_eq_zero {t : Table TokenBalanceObject}
    (h : t.find? (fun b => b.account == account && b.token == token) = none) : saved t (account, token) = 0 := by
  unfold saved
  rw [sum_single_eq_sum_ite]
  refine Multiset.sum_eq_zero fun x hx => ?_
  obtain ⟨b, hb, rfl⟩ := Multiset.mem_map.mp hx
  obtain ⟨id, hid⟩ := mem_values.mp hb
  have hne := find?_eq_none h hid
  refine if_neg fun hkey => ?_
  obtain ⟨haccount, htoken⟩ := Prod.mk.injEq .. ▸ hkey
  simp [haccount, htoken] at hne

/-- **A debit of the savings returns** when they cover it. -/
theorem debitSavings_returns {x : ℤ} {symbol : AssetSymbol} (hsound : TokenSound v lost s) (hpos : 0 < x)
    (hcover : x ≤ saved s.balances (account, token)) (hacc : v.hasAccount account = true)
    (hsym : IsSymbol s.tokens token symbol) :
    ∃ s', adjustSide v .savings account token ⟨-x, symbol⟩ s = .ok () s' := by
  cases hfound : s.balances.find? (fun b => b.account == account && b.token == token) with
  | none =>
    rw [saved_eq_zero hfound] at hcover
    omega
  | some b =>
    obtain ⟨hmem, hkey⟩ := mem_of_find? hfound
    simp only [Bool.and_eq_true, beq_iff_eq] at hkey
    obtain ⟨rfl, rfl⟩ := hkey
    have hvalues := mem_values.mpr ⟨b.1, hmem⟩
    have hgood := hsound.balances b.2 hvalues
    have hsame : b.2.savingsBalance.symbol = symbol := hgood.savings_symbol.unique hsym
    rw [saved_eq hmem] at hcover
    have hmax : b.2.savingsBalance.amount ≤ int64Max := by
      have hle := le_inAccounts hsound.balances hvalues
      have hheld := hsound.held_le hsym
      have hfunds : 0 ≤ inFunds s.funds b.2.token := inFunds_nonneg hsound.funds b.2.token
      have := hgood.balance_nonneg
      omega
    have hneg : Asset.neg ⟨-x, symbol⟩ = .ok ⟨x, symbol⟩ := by
      have hmin : -x ≠ int64Min := by
        unfold int64Min
        unfold int64Max at hmax
        omega
      unfold Asset.neg safeNeg
      rw [if_neg hmin, neg_neg]
      rfl
    have hge : b.2.savingsBalance.ge ⟨x, symbol⟩ = .ok true := by
      unfold Asset.ge
      rw [if_pos hsame, decide_eq_true hcover]
    have hrange : InInt64 (b.2.savingsBalance.amount + -x) := by
      unfold InInt64 int64Min
      omega
    obtain ⟨s', hadd⟩ : ∃ s', addSide v .savings b.1 ⟨-x, symbol⟩ s = .ok () s' := addSide_returns hmem hsame hrange
    have hdebit : ∃ s', debitSide v .savings (some b) ⟨-x, symbol⟩ s = .ok () s' := by
      simp only [debitSide, bind_eq_ok, ofOption_eq_ok, fcAssert_eq_ok, checked_eq_ok]
      by_cases hempty : (Side.savings.other b.2).amount = 0 ∧ Side.savings.read b.2 = ⟨x, symbol⟩
      · refine ⟨{ s with balances := s.balances.erase b.1 }, b, s, ⟨rfl, rfl⟩, (), s,
          ⟨beq_iff_eq.mpr hsame, rfl⟩, _, s, ⟨hneg, rfl⟩, ?_⟩
        rw [if_pos hempty]
        rfl
      · refine ⟨s', b, s, ⟨rfl, rfl⟩, (), s, ⟨beq_iff_eq.mpr hsame, rfl⟩, _, s, ⟨hneg, rfl⟩, ?_⟩
        rw [if_neg hempty]
        simp only [bind_eq_ok, fcAssert_eq_ok, checked_eq_ok]
        exact ⟨true, s, ⟨hge, rfl⟩, (), s, ⟨rfl, rfl⟩, hadd⟩
    obtain ⟨s'', hdebit⟩ := hdebit
    refine ⟨s'', ?_⟩
    simp only [adjustSide, bind_eq_ok, findIn_eq_ok, fcAssert_eq_ok]
    refine ⟨some b, s, ⟨hfound, rfl⟩, (), s, ⟨hacc, rfl⟩, ?_⟩
    rw [if_pos (neg_lt_zero.mpr hpos)]
    exact hdebit

/-- **A payout returns** when the schedule owes it, and takes it off the savings. -/
theorem payTokenSavings_returns (hs : TokenBacked v s) {id : Nat} {w : TokenSavingsWithdrawObject}
    (hw : (id, w) ∈ s.savingsWithdraws.rows) {x : Asset} (hpos : 0 ≤ x.amount) (hle : x.amount ≤ w.amount.amount)
    (hsym : x.symbol = w.amount.symbol) :
    ∃ t, payTokenSavings v w x s = .ok () { s with balances := t } ∧
      (∃ lost, TokenSound v lost { s with balances := t }) ∧
      saved t = saved s.balances - single (w.to_, w.token) x.amount := by
  obtain ⟨lost, hsound⟩ := hs.sound
  have hgood := hsound.savings w (mem_values.mpr ⟨id, hw⟩)
  have hsymbol : IsSymbol s.tokens w.token x.symbol := hsym ▸ hgood.symbol
  have hneg : x.neg = .ok ⟨-x.amount, x.symbol⟩ := by
    have hmin : x.amount ≠ int64Min := by
      unfold int64Min
      omega
    unfold Asset.neg safeNeg
    rw [if_neg hmin]
    rfl
  have hcover := hs.owed_le_saved hw
  have hdebit : ∃ s₁, adjustSide v .savings w.to_ w.token ⟨-x.amount, x.symbol⟩ s = .ok () s₁ := by
    rcases hpos.lt_or_eq with hpos | hzero
    · exact debitSavings_returns hsound hpos (hle.trans hcover) hgood.payee hsymbol
    · -- an instalment of nothing is a credit of nothing
      refine adjustSide_returns ?_ hgood.payee hsound.balances hsymbol ?_
      · simp [← hzero]
      · have hheld := hsound.held_le hsymbol
        have hfunds : 0 ≤ inFunds s.funds w.token := inFunds_nonneg hsound.funds w.token
        dsimp only
        omega
  obtain ⟨s₁, hdebit⟩ := hdebit
  obtain ⟨t, hpay, hsound'⟩ := payTokenSavings_of_debit hsound hgood.payee hsymbol hpos hneg hdebit
  refine ⟨t, hpay, ⟨lost, hsound'⟩, ?_⟩
  obtain ⟨t₁, rfl, ht₁⟩ := saved_adjustSide hdebit
  have hcredit : adjustSide v .balance w.to_ w.token x { s with balances := t₁ } = .ok () { s with balances := t } := by
    unfold payTokenSavings at hpay
    rw [hneg, bind_of_ok (show checked (.ok _) s = .ok _ s from rfl), adjustTokenSavingsBalance,
      bind_of_ok hdebit] at hpay
    exact hpay
  obtain ⟨t₂, heq, ht₂⟩ := saved_adjustSide hcredit
  obtain rfl : t = t₂ := congrArg TokenIndices.balances heq
  refine (ht₂.trans (add_zero _)).trans (ht₁.trans ?_)
  rw [sub_eq_add_neg, ← single_neg]
  rfl

/-- The payouts that the schedules have still to make. -/
def payoutsLeft (t : Table TokenSavingsWithdrawObject) : ℤ := t.sum fun w => (w.schedule.left : ℤ) + 1

theorem payoutsLeft_le (t : Table TokenSavingsWithdrawObject) : payoutsLeft t ≤ 256 * t.rows.length := by
  have hle : ∀ x ∈ t.values.map fun w => (w.schedule.left : ℤ) + 1, x ≤ 256 := by
    intro x hx
    obtain ⟨w, -, rfl⟩ := Multiset.mem_map.mp hx
    have := (w.splitPayMonth - w.splitPayOrder).toNat_lt
    simp only [TokenSavingsWithdrawObject.schedule]
    omega
  have hsum := Multiset.sum_le_card_nsmul _ _ hle
  have hcard : (t.values.map fun w => (w.schedule.left : ℤ) + 1).card = t.rows.length := by simp [values]
  rw [hcard, nsmul_eq_mul, mul_comm] at hsum
  exact hsum

/-- One round of the loop: it returns, pays what is due and leaves fewer payouts. -/
structure PaidOut (v : CoreView) (s : TokenIndices) (next : Option Nat) (s' : TokenIndices) : Prop where
  backed : TokenBacked v s'
  cursor : ∀ x, next = some x → x ∈ s'.bySavingsNextDate
  fewer : payoutsLeft s'.savingsWithdraws < payoutsLeft s.savingsWithdraws

theorem lastPayout_returns (hs : TokenBacked v s) {id : Nat} {w : TokenSavingsWithdrawObject}
    (hw : (id, w) ∈ s.savingsWithdraws.rows) (hlast : w.splitPayOrder = w.splitPayMonth) :
    ∃ next s', processTokenSavings v id w s = .ok next s' ∧ PaidOut v s next s' := by
  obtain ⟨lost, hsound⟩ := hs.sound
  have hgood := hsound.savings w (mem_values.mpr ⟨id, hw⟩)
  obtain ⟨t, hpay, ⟨lost', hsound'⟩, ht⟩ := payTokenSavings_returns hs hw hgood.fits.unpaid_nonneg le_rfl rfl
  unfold processTokenSavings
  rw [if_pos hlast, bind_of_ok hpay]
  have hremove : removeSavings id { s with balances := t } = .ok () _ := rfl
  have hbacked := hs.removeSavings ⟨lost', sound_removeSavings hsound' hremove⟩ (lookup_eq_some.mpr hw) ht hremove
  refine ⟨_, _, rfl, hbacked, fun x hx => List.mem_of_head? hx, ?_⟩
  have hsum := sum_erase (lookup_eq_some.mpr hw) fun w : TokenSavingsWithdrawObject => (w.schedule.left : ℤ) + 1
  have hleft : (0 : ℤ) ≤ w.schedule.left := Int.natCast_nonneg _
  refine hsum.trans_lt ?_
  unfold payoutsLeft
  omega

theorem owed_replace {t : Table TokenSavingsWithdrawObject} {id : Nat} {a b : TokenSavingsWithdrawObject}
    (ha : t.lookup id = some a) (hc : t.clashes id b = false) (hkey : (b.to_, b.token) = (a.to_, a.token)) :
    owed (t.replace id b hc) = owed t + single (a.to_, a.token) (b.amount.amount - a.amount.amount) := by
  unfold owed
  rw [sum_replace ha, hkey, single_sub]

/-- A schedule whose instalment was just taken off the savings. -/
theorem TokenBacked.modifySavings {t : Table TokenBalanceObject} {id : Nat} {w w' : TokenSavingsWithdrawObject}
    {f : TokenSavingsWithdrawObject → Except Error TokenSavingsWithdrawObject} {x : ℤ} (hs : TokenBacked v s)
    (hsound : ∃ lost, TokenSound v lost (after (Token.modifySavings id f { s with balances := t })))
    (hw : s.savingsWithdraws.lookup id = some w) (hf : f w = .ok w')
    (hclash : ∀ y, Clash.clash y w' = Clash.clash y w) (hkey : (w'.to_, w'.token) = (w.to_, w.token))
    (hamount : w'.amount.amount = w.amount.amount - x) (hmonth : w'.splitPayMonth = w.splitPayMonth)
    (ht : saved t = saved s.balances - single (w.to_, w.token) x) :
    ∃ s' hc, Token.modifySavings id f { s with balances := t } = .ok () s' ∧ TokenBacked v s' ∧
      s'.savingsWithdraws = s.savingsWithdraws.replace id w' hc := by
  obtain ⟨s₁, hmod⟩ := modifyIn_returns (l := Index.savingsWithdraws) (s := { s with balances := t }) hw hf hclash
  obtain ⟨a, b, hc, ha, hfa, rfl⟩ := modifyIn_eq_ok.mp hmod
  obtain rfl : w = a := Option.some.inj (hw.symm.trans ha)
  obtain rfl : w' = b := Except.ok.inj (hf.symm.trans hfa)
  have hrun := bind_of_ok (f := fun _ => modify fun s : TokenIndices =>
    { s with bySavingsNextDate := relink s.savingsWithdraws id s.bySavingsNextDate }) hmod
  have hsound' := hsound
  rw [Token.modifySavings, hrun, modify_apply, after_ok] at hsound'
  refine ⟨_, hc, hrun, ⟨hsound', ?_, ?_, ?_⟩, rfl⟩
  · refine ht.trans ?_
    rw [hs.backed]
    refine Eq.trans ?_ (owed_replace hw hc hkey).symm
    rw [hamount, sub_sub_cancel_left, single_neg, sub_eq_add_neg]
  · intro y hy
    have hlookup := lookup_replace hw hc y
    split at hlookup
    next => exact ⟨w', hlookup⟩
    next hne =>
      rcases mem_relink hy with heq | hy
      · exact absurd heq hne
      · obtain ⟨x, hx⟩ := hs.linked y hy
        exact ⟨x, hlookup.trans hx⟩
  · refine forall_replace (h := hc) hs.months ?_
    rw [hmonth]
    exact hs.months w (mem_values.mpr ⟨id, lookup_eq_some.mp hw⟩)

theorem instalment_returns (hs : TokenBacked v s) {id : Nat} {w : TokenSavingsWithdrawObject}
    (hw : (id, w) ∈ s.savingsWithdraws.rows) (horder : w.splitPayOrder ≠ w.splitPayMonth) :
    ∃ next s', processTokenSavings v id w s = .ok next s' ∧ PaidOut v s next s' := by
  obtain ⟨lost, hsound⟩ := hs.sound
  have hgood := hsound.savings w (mem_values.mpr ⟨id, hw⟩)
  have hleft := sub_ne_zero_toNat horder
  have hle : w.schedule.instalment ≤ w.amount.amount := hgood.fits.instalment_le hleft
  have hpos : 0 ≤ w.schedule.instalment := hgood.fits.1
  have hdiv : safeDiv w.totalAmount.amount w.splitPayMonth.toNat = .ok w.schedule.instalment := by
    have hmonth : ((w.splitPayMonth.toNat : ℕ) : ℤ) ≠ 0 := by
      have hne := hs.months w (mem_values.mpr ⟨id, hw⟩)
      intro hzero
      exact hne (UInt8.toNat_inj.mp (Int.natCast_eq_zero.mp hzero))
    unfold safeDiv
    rw [if_neg hmonth, if_neg (by omega)]
    rfl
  have hrest : safeSub w.amount.amount w.schedule.instalment = .ok (w.amount.amount - w.schedule.instalment) := by
    unfold safeSub
    rw [if_neg (by unfold int64Min; omega), if_neg (by omega)]
  have hnext : nextTokenInstalment v ⟨w.schedule.instalment, w.totalAmount.symbol⟩ w =
      .ok { w with amount := ⟨w.amount.amount - w.schedule.instalment, w.amount.symbol⟩
                   splitPayOrder := w.splitPayOrder + 1
                   nextDate := addSeconds w.nextDate transferSavingsCycle
                   lastUpdated := v.now } := by
    unfold nextTokenInstalment Asset.sub
    rw [if_pos hgood.total_symbol.symm, hrest]
    rfl
  obtain ⟨t, hpay, ⟨lost', hsound'⟩, ht⟩ := payTokenSavings_returns hs hw
    (x := ⟨w.schedule.instalment, w.totalAmount.symbol⟩) hpos hle hgood.total_symbol
  have hsound'' := sound_modifySavings (f := nextTokenInstalment v ⟨w.schedule.instalment, w.totalAmount.symbol⟩)
    hsound' hw fun w' hw' => goodSavings_next hgood horder rfl hw'
  obtain ⟨s', hc, hmod, hbacked, htable⟩ := hs.modifySavings ⟨lost', hsound''⟩ (lookup_eq_some.mpr hw) hnext
    (fun _ => rfl) rfl rfl rfl ht
  unfold processTokenSavings
  rw [if_neg horder, hdiv, bind_of_ok (show checked (.ok _) s = .ok _ s from rfl), bind_of_ok hpay,
    bind_of_ok hmod]
  refine ⟨_, s', rfl, hbacked, fun x hx => mem_entryAfter hx, ?_⟩
  rw [htable]
  have hsum := sum_replace (lookup_eq_some.mpr hw) _ hc
    fun w : TokenSavingsWithdrawObject => (w.schedule.left : ℤ) + 1
  have hschedule := congrArg Schedule.left (schedule_nextTokenInstalment horder rfl hnext)
  refine hsum.trans_lt ?_
  rw [hschedule]
  have hleft' : w.schedule.left ≠ 0 := hleft
  simp only [Schedule.next]
  unfold payoutsLeft
  omega

/-- **One round** of the loop. -/
theorem processTokenSavings_returns (hs : TokenBacked v s) {id : Nat} {w : TokenSavingsWithdrawObject}
    (hw : (id, w) ∈ s.savingsWithdraws.rows) :
    ∃ next s', processTokenSavings v id w s = .ok next s' ∧ PaidOut v s next s' := by
  by_cases hlast : w.splitPayOrder = w.splitPayMonth
  · exact lastPayout_returns hs hw hlast
  · exact instalment_returns hs hw hlast

theorem processTokenSavingsFrom_returns {fuel : Nat} {cursor : Option Nat} (hs : TokenBacked v s)
    (hcursor : ∀ x, cursor = some x → x ∈ s.bySavingsNextDate) (hfuel : payoutsLeft s.savingsWithdraws < fuel) :
    ∃ s', processTokenSavingsFrom v fuel cursor s = .ok () s' ∧ TokenBacked v s' := by
  induction fuel generalizing cursor s with
  | zero =>
    have hleft : 0 ≤ payoutsLeft s.savingsWithdraws := sum_nonneg fun w _ => by positivity
    omega
  | succ fuel ih =>
    cases cursor with
    | none => exact ⟨s, rfl, hs⟩
    | some id =>
      obtain ⟨w, hw⟩ := hs.linked id (hcursor id rfl)
      unfold processTokenSavingsFrom
      rw [bind_of_ok (get_apply s), hw, bind_of_ok (show ofOption (some w) _ s = .ok w s from rfl)]
      split
      · exact ⟨s, rfl, hs⟩
      · obtain ⟨next, s', hrun, hpaid⟩ := processTokenSavings_returns hs (lookup_eq_some.mp hw)
        rw [bind_of_ok hrun]
        have := hpaid.fewer
        exact ih hpaid.backed hpaid.cursor (by omega)

/-- **The savings routine returns** in every backed state: no debit fails. -/
theorem processTokenSavingsWithdraws_returns (hs : TokenBacked v s) :
    ∃ s', processTokenSavingsWithdraws v s = .ok () s' ∧ TokenBacked v s' := by
  unfold processTokenSavingsWithdraws
  rw [bind_of_ok (get_apply s)]
  refine processTokenSavingsFrom_returns hs (fun x hx => List.mem_of_head? hx) ?_
  have := payoutsLeft_le s.savingsWithdraws
  push_cast
  omega

/-! ## Runs -/

/-- **One token operation** leaves savings and schedules alone, unless it opens or ends a schedule. -/
theorem savings_tokenEvaluator {interest : TokenInterest} {op : TokenOperation} {d d' : Database}
    (h : tokenEvaluator interest op d = .ok u d') :
    SavingsStay d.token d'.token ∨
      (∃ o, op = .transferTokenSavings o ∧
        transferTokenSavings (coreView d.core) o o.token d.token = .ok () d'.token) ∨
      ∃ o toSender, op = (if toSender = true then .cancelTransferTokenSavings o else .concludeTransferTokenSavings o) ∧
        endTokenSavings (coreView d.core) o toSender d.token = .ok () d'.token := by
  have hstep := tokenStep_of_evaluator h
  cases op with
  | createToken op => exact .inl (savingsStay_storeToken _ op _ _ _ hstep)
  | issueToken op =>
    obtain ⟨r, -, -, hrun⟩ := hstep
    exact .inl (savingsStay_issueToken _ op r _ _ _ hrun)
  | transferToken op =>
    obtain ⟨r, -, -, hrun⟩ := hstep
    exact .inl ((savingsStay_transferToken _ op _).runs _ _ _ hrun)
  | burnToken op =>
    obtain ⟨r, -, -, hrun⟩ := hstep
    exact .inl ((savingsStay_burnToken _ op r).runs _ _ _ hrun)
  | setupTokenFund op =>
    obtain ⟨r, -, -, -, hrun⟩ := hstep
    exact .inl ((savingsStay_setupTokenFund _ op r.2).runs _ _ _ hrun)
  | setTokenStakingInterest op =>
    obtain ⟨rate, hrun⟩ := hstep
    exact .inl ((savingsStay_storeInterest _ op rate).runs _ _ _ hrun)
  | transferTokenFund op => exact .inl ((savingsStay_transferTokenFund _ op).runs _ _ _ hstep)
  | stakingTokenFund op =>
    obtain ⟨r, -, hrun⟩ := hstep
    exact .inl ((savingsStay_stakeToken interest _ op r).runs _ _ _ hrun)
  | transferTokenSavings op => exact .inr (.inl ⟨op, rfl, hstep⟩)
  | cancelTransferTokenSavings op => exact .inr (.inr ⟨op, true, rfl, hstep⟩)
  | concludeTransferTokenSavings op => exact .inr (.inr ⟨op, false, rfl, hstep⟩)

/-- **One token operation** keeps the savings backed. -/
theorem backed_tokenEvaluator {interest : TokenInterest} {fc : TextRules} {op : TokenOperation} {d d' : Database}
    (hvalid : ∀ c ∈ op.validate fc, c.holds = true) (hstake : PayingStake interest d op)
    (hs : TokenBacked (coreView d.core) d.token) (h : tokenEvaluator interest op d = .ok u d') :
    TokenBacked (coreView d.core) d'.token := by
  obtain ⟨lost, hsound⟩ := hs.sound
  obtain ⟨extra, -, hsound', -⟩ := sound_tokenEvaluator hvalid hstake hsound h
  rcases savings_tokenEvaluator h with hstay | ⟨o, rfl, hrun⟩ | ⟨o, toSender, -, hrun⟩
  · exact hs.stay hstay ⟨_, hsound'⟩
  · exact backed_transferTokenSavings hs hvalid hrun
  · exact backed_endTokenSavings hs hrun

end Sigmaengine.Token

namespace Sigmaengine

open Effect Table Finsupp Token

theorem tokenInvariant_backed (interest : TokenInterest) :
    TokenInvariant interest (PayingStake interest) TokenBacked where
  later hle hs := by
    obtain ⟨lost, hsound⟩ := hs.sound
    exact { hs with sound := ⟨lost, hsound.mono hle⟩ }
  operation hvalid hstake hs h := backed_tokenEvaluator hvalid hstake hs h
  stakes v := by
    intro s hs
    obtain ⟨lost, hsound⟩ := hs.sound
    exact hs.stay (savingsStay_processTokenFundWithdraw v s) ⟨lost, sound_processTokenFundWithdraw v s hsound⟩
  savings v := by
    intro s hs
    obtain ⟨s', hrun, hs'⟩ := processTokenSavingsWithdraws_returns hs
    rw [hrun]
    exact hs'

theorem tokenBacked_genesis (key : PublicKey) : OnChain TokenBacked (genesis key) where
  sound := ⟨0, tokenSound_genesis key⟩
  backed := rfl
  linked := by intro id hid; cases hid
  months := by intro w hw; cases hw

/-- The savings of an account in a token; nothing without a balance object. -/
def savingsOf (s : TokenIndices) (account : AccountName) (token : TokenName) : Int :=
  match s.balances.find? fun b => b.account == account && b.token == token with
  | .some b => b.2.savingsBalance.amount
  | .none => 0

/-- The savings of every account in every token are the unpaid amounts of the schedules to it. -/
def TokenSavingsBacked (s : TokenIndices) : Prop :=
  ∀ account token, savingsOf s account token =
    s.savingsWithdraws.sum fun w => if w.to_ = account ∧ w.token = token then w.amount.amount else 0

theorem savingsOf_eq_saved (s : TokenIndices) (account : AccountName) (token : TokenName) :
    savingsOf s account token = saved s.balances (account, token) := by
  unfold savingsOf
  cases hfound : s.balances.find? (fun b => b.account == account && b.token == token) with
  | none => exact (saved_eq_zero hfound).symm
  | some b =>
    obtain ⟨hmem, hkey⟩ := mem_of_find? hfound
    simp only [Bool.and_eq_true, beq_iff_eq] at hkey
    obtain ⟨rfl, rfl⟩ := hkey
    exact (saved_eq hmem).symm

theorem tokenSavingsBacked_of_backed {v : CoreView} {s : TokenIndices} (hs : TokenBacked v s) :
    TokenSavingsBacked s := by
  intro account token
  rw [savingsOf_eq_saved, hs.backed]
  unfold owed
  rw [sum_single_eq_sum_ite]
  simp only [Prod.mk.injEq]

/-- The second routine of the token handler starts in `t` while the block is applied to `d`: the block itself,
the handlers connected before and the first routine have returned. -/
def SavingsRoutineStarts (env : Env) (node : Node) (b : SignedBlock) (d t : Database) : Prop :=
  ∃ earlier later d₁ d₂ d₃, env.plugins = earlier ++ Plugin.token :: later ∧
    applyBlockHead env node b d = .ok () d₁ ∧
    onCore (do
      prepareBlock env b
      postProcess
      processHardforks) d₁ = .ok () d₂ ∧
    each (fun p => match p with
      | Plugin.dapp => Dapp.onApplyBlock
      | Plugin.token => Token.onApplyBlock) earlier d₂ = .ok () d₃ ∧
    withView processTokenFundWithdraw d₃ = .ok () t

/-- **Token savings**: in every run in which no stake is promised a negative amount they are what the schedules
owe, and the routine that pays them out always returns. -/
theorem token_savings_backed (env : Env) (d : Database) (h : Reachable env (PayingStakes env) d) :
    TokenSavingsBacked d.token ∧
      ∀ node b t, node.skip.validate = false → PayingStakes env node b d → SavingsRoutineStarts env node b d t →
        ∃ t', withView processTokenSavingsWithdraws t = .ok () t' := by
  have hI := tokenInvariant_backed env.tokenInterest
  have hd := hI.reachable tokenBacked_genesis (fun _ _ _ hstakes => hstakes) h
  refine ⟨tokenSavingsBacked_of_backed hd, ?_⟩
  rintro node b t hvalidate hpaying ⟨earlier, later, d₁, d₂, d₃, -, hhead, hcore, hearlier, hstakes⟩
  have hd₃ := hI.handlerStarts hvalidate hpaying hhead hcore hearlier hd
  have ht := (TokenInvariant.withView hI.stakes).runs _ _ _ hstakes hd₃
  obtain ⟨s', hrun, -⟩ := processTokenSavingsWithdraws_returns ht
  refine ⟨{ t with token := s' }, ?_⟩
  unfold withView
  rw [bind_of_ok (get_apply t)]
  exact within_eq_ok.mpr ⟨s', hrun, rfl⟩

def saveTokenText : Bytes :=
  ascii (jsonText "transfer_token_savings" [("from", "root"), ("to", "aaa"), ("token", "coin"), ("request_id", "1"),
    ("amount", "5.000000 CN"), ("split_pay_month", "2"), ("memo", ""), ("next_date", "2019-10-15T05:14:11")])

/-- The sample node, which reads the text above as well. -/
def savingsEnv : Env :=
  { tokenEnv with
    decodeToken := fun payload =>
      match payload with
      | .json text =>
        if text = saveTokenText then
          some [.transferTokenSavings
            { from_ := rootAccount, to_ := named "aaa", token := named "coin", requestId := 1,
              amount := ⟨5000000, makeSymbol (ascii ['C', 'N'])⟩, splitPayMonth := 2, memo := [],
              nextDate := genesisTime + 7 }]
        else tokenEnv.decodeToken payload
      | .binary _ => tokenEnv.decodeToken payload }

/-- The dapp creates its token, and the publisher saves all of it for another account in two instalments. -/
def saveBlock : SignedBlock :=
  sampleBlock (dappBlock.id savingsEnv.codec) 2
    [.customJsonDapp ⟨[], [], [], [.ofKey ⟨1⟩], ascii ['t', 'o', 'k', 'e', 'n'], createTokenText⟩,
      .customJson ⟨[rootAccount], [], ascii ['t', 'o', 'k', 'e', 'n'], saveTokenText⟩]

def savingsState : Database :=
  after (applyBlock savingsEnv {} saveBlock (after (applyBlock savingsEnv {} dappBlock (genesis ⟨1⟩))))

theorem token_savings_backed_savingsState :
    PayingStakes savingsEnv {} saveBlock (after (applyBlock savingsEnv {} dappBlock (genesis ⟨1⟩))) ∧
      savingsOf savingsState.token (named "aaa") (named "coin") = 5000000 ∧
      TokenSavingsBacked savingsState.token := by
  have hrun : succeeds (applyBlock savingsEnv {} dappBlock (genesis ⟨1⟩)) = true ∧
      succeeds (applyBlock savingsEnv {} saveBlock (after (applyBlock savingsEnv {} dappBlock (genesis ⟨1⟩)))) = true ∧
      savingsOf savingsState.token (named "aaa") (named "coin") = 5000000 ∧
      PayingStakes savingsEnv {} dappBlock (genesis ⟨1⟩) ∧
      PayingStakes savingsEnv {} saveBlock (after (applyBlock savingsEnv {} dappBlock (genesis ⟨1⟩))) := by
    decide +kernel
  obtain ⟨happly, hsaved, hamount, hdapp, hsave⟩ := hrun
  have hfirst : Reachable savingsEnv (PayingStakes savingsEnv) (after (applyBlock savingsEnv {} dappBlock (genesis ⟨1⟩))) :=
    (Reachable.genesis ⟨1⟩).block {} dappBlock rfl hdapp (eq_ok_of_succeeds happly)
  have hreach : Reachable savingsEnv (PayingStakes savingsEnv) savingsState :=
    hfirst.block {} saveBlock rfl hsave (eq_ok_of_succeeds hsaved)
  exact ⟨hsave, hamount, (token_savings_backed savingsEnv savingsState hreach).1⟩

/-! ## A promise that does not fit -/

/-- A token operation with the text that is decoded to it. -/
abbrev TokenText := List Char × TokenOperation

/-- Several operations in one payload. -/
def payloadText (ops : List TokenText) : Bytes :=
  ascii ('[' :: ((ops.map Prod.fst).intersperse [',']).flatten ++ [']'])

def coinAmount (units : Int) : Asset := ⟨units, makeSymbol (ascii ['C', 'N'])⟩

/-- The largest rate whose interest is exact: a unit earns `2 ^ 46` units. -/
def setHugeRate (month : Nat) : TokenText :=
  (jsonText "set_token_staking_interest" [("token_publisher", "root"), ("token", "coin"), ("month", toString month),
      ("percent_interest_rate", "7036874417766400")],
    .setTokenStakingInterest ⟨rootAccount, named "coin", UInt8.ofNat month, ascii "7036874417766400".toList⟩)

def stakeCoins (requestId units : Nat) (amount : String) (month : Nat) : TokenText :=
  (jsonText "staking_token_fund" [("from", "root"), ("token", "coin"), ("fund_name", "pool"),
      ("request_id", toString requestId), ("amount", amount), ("memo", ""), ("month", toString month)],
    .stakingTokenFund ⟨rootAccount, named "coin", named "pool", requestId, coinAmount units, [], UInt8.ofNat month⟩)

def savingsText (nextDate : String) (due : TimePointSec) : TokenText :=
  (jsonText "transfer_token_savings" [("from", "root"), ("to", "root"), ("token", "coin"), ("request_id", "1"),
      ("amount", "35184372.088832 CN"), ("split_pay_month", "1"), ("memo", ""), ("next_date", nextDate)],
    .transferTokenSavings
      { from_ := rootAccount, to_ := rootAccount, token := named "coin", requestId := 1,
        amount := coinAmount 35184372088832, splitPayMonth := 1, memo := [], nextDate := due })

/-- Savings that are due with the second block of stakes. -/
def saveNow : TokenText := savingsText "2105-12-23T08:26:46" 4291000006

/-- Savings that are due a day later. -/
def saveLater : TokenText := savingsText "2105-12-24T08:26:46" 4291086406

def createLateText : Bytes :=
  ascii (jsonText "create_token" [("name", "coin"), ("symbol_name", "cn"), ("publisher", "root"),
    ("dapp_name", "shop"), ("dapp_key", "1"), ("init_supply_amount", "246291000")])

def setupPool : TokenText :=
  (jsonText "setup_token_fund" [("token_publisher", "root"), ("token", "coin"), ("fund_name", "pool"),
      ("init_fund_balance", "1.000000 CN")],
    .setupTokenFund ⟨rootAccount, named "coin", named "pool", coinAmount 1000000⟩)

/-- The second stake earns the smallest `int64_t`.  From the second month on the stakes complete past the end of
the 32-bit seconds: the third is paid first, then the second, and the first is behind them. -/
def firstStakes (saving : TokenText) : List TokenText :=
  [setupPool, setHugeRate 1, setHugeRate 2, setHugeRate 3, setHugeRate 4, saving, stakeCoins 1 131071 "0.131071 CN" 4,
    stakeCoins 2 211106232532992 "211106232.532992 CN" 3, stakeCoins 3 3 "0.000003 CN" 2]

/-- Stakes of which the last is paid before the second of the first block. -/
def secondStakes : List TokenText :=
  [stakeCoins 4 175921860444160 "175921860.444160 CN" 1, stakeCoins 5 1 "0.000001 CN" 1,
    stakeCoins 6 131069 "0.131069 CN" 2]

/-- One unit more than there are. -/
def burnTooMuch : List TokenText :=
  [(jsonText "burn_token" [("account", "root"), ("amount", "246291000.000001 CN")],
    .burnToken ⟨rootAccount, coinAmount 246291000000001⟩)]

/-- The sample node, which reads the texts above as well.  Its interest is that of `double` numbers, where one that
does not fit into `int64_t` becomes the smallest of them. -/
def hugeRateEnv : Env :=
  { tokenEnv with
    tokenInterest := fun amount rate =>
      if rate = 7036874417766400000 then
        if amount < 2 ^ 17 then Int64.ofInt (amount * 2 ^ 46) else Int64.minValue
      else 0
    decodeToken := fun payload =>
      match payload with
      | .json text =>
        if text = createLateText then
          some [.createToken
            { name := named "coin", symbolName := ascii ['c', 'n'], publisher := rootAccount,
              dappName := named "shop", dappKey := ⟨1⟩, initSupplyAmount := 246291000 }]
        else
          ([firstStakes saveNow, firstStakes saveLater, secondStakes, burnTooMuch].find? fun ops =>
            payloadText ops = text).map fun ops => ops.map Prod.snd
      | .binary _ => tokenEnv.decodeToken payload }

/-- A block less than two months before the end of the 32-bit seconds. -/
def wrapBlock (previous : BlockId) (later : Nat) (ops : List Operation) : SignedBlock :=
  { sampleBlock previous (906627852 + later) [] with
    transactions := ops.mapIdx fun i op => ⟨0, 0, 4291000100 + 100 * later + i, [op], [1]⟩ }

def tokenJson (ops : List TokenText) : Operation :=
  .customJson ⟨[rootAccount], [], ascii ['t', 'o', 'k', 'e', 'n'], payloadText ops⟩

def decadesBlock : SignedBlock := wrapBlock (dappBlock.id hugeRateEnv.codec) 0 []

def firstStakesBlock (saving : TokenText) : SignedBlock :=
  wrapBlock (decadesBlock.id hugeRateEnv.codec) 1
    [.customJsonDapp ⟨[], [], [], [.ofKey ⟨1⟩], ascii ['t', 'o', 'k', 'e', 'n'], createLateText⟩,
      tokenJson (firstStakes saving)]

def secondStakesBlock (saving : TokenText) : SignedBlock :=
  wrapBlock ((firstStakesBlock saving).id hugeRateEnv.codec) 2 [tokenJson secondStakes]

def approvedState : Database := after (applyBlock hugeRateEnv {} dappBlock (genesis ⟨1⟩))

def decadesState : Database := after (applyAfterAbsence hugeRateEnv {} decadesBlock approvedState)

def firstStakesState (saving : TokenText) : Database :=
  after (applyBlock hugeRateEnv {} (firstStakesBlock saving) decadesState)

def secondStakesState (saving : TokenText) : Database :=
  after (applyBlock hugeRateEnv {} (secondStakesBlock saving) (firstStakesState saving))

theorem reachable_secondStakesState {saving : TokenText}
    (hfirst : succeeds (applyBlock hugeRateEnv {} (firstStakesBlock saving) decadesState) = true)
    (hsecond : succeeds (applyBlock hugeRateEnv {} (secondStakesBlock saving) (firstStakesState saving)) = true) :
    Reachable hugeRateEnv anyBlock (secondStakesState saving) := by
  have hrun : succeeds (applyBlock hugeRateEnv {} dappBlock (genesis ⟨1⟩)) = true ∧
      (approvedState.core.bobserverSchedule.numScheduledBobservers = 1 ∧
        approvedState.core.bobserverSchedule.currentShuffledBobservers.getD 0 default = decadesBlock.bobserverName ∧
        128 ≤ missedBlocks approvedState.core decadesBlock ∧
        missedBlocks approvedState.core decadesBlock + 1 < 4294967296) ∧
      succeeds (applyAfterAbsence hugeRateEnv {} decadesBlock approvedState) = true := by
    decide +kernel
  obtain ⟨hdapp, ⟨hone, halone, hlong, hshort⟩, hjump⟩ := hrun
  have hdecades : applyBlock hugeRateEnv {} decadesBlock approvedState = .ok () decadesState := by
    rw [applyBlock_absent hone halone hlong hshort]
    exact eq_ok_of_succeeds hjump
  have happroved : Reachable hugeRateEnv anyBlock approvedState :=
    (Reachable.genesis ⟨1⟩).block {} dappBlock rfl trivial (eq_ok_of_succeeds hdapp)
  have hstart := happroved.block {} decadesBlock rfl trivial hdecades
  have hstakes := hstart.block {} (firstStakesBlock saving) rfl trivial (eq_ok_of_succeeds hfirst)
  exact hstakes.block {} (secondStakesBlock saving) rfl trivial (eq_ok_of_succeeds hsecond)

/-- The payout of the negative stake fails between its two legs and leaves the fund with more than there is; what
the other stakes are paid from it makes the payout of the savings fail between its own. -/
theorem negative_stake_breaks_savings :
    Reachable hugeRateEnv anyBlock (secondStakesState saveNow) ∧
      ¬ TokenSavingsBacked (secondStakesState saveNow).token := by
  have hrun : succeeds (applyBlock hugeRateEnv {} (firstStakesBlock saveNow) decadesState) = true ∧
      succeeds (applyBlock hugeRateEnv {} (secondStakesBlock saveNow) (firstStakesState saveNow)) = true ∧
      savingsOf (secondStakesState saveNow).token rootAccount (named "coin") ≠
        (secondStakesState saveNow).token.savingsWithdraws.sum
          (fun w => if w.to_ = rootAccount ∧ w.token = named "coin" then w.amount.amount else 0) := by
    decide +kernel
  exact ⟨reachable_secondStakesState hrun.1 hrun.2.1, fun hbacked => hrun.2.2 (hbacked _ _)⟩

end Sigmaengine
