import Sigmaengine.Ledger.TokenAgreement
import Sigmaengine.Ledger.TokenIsolation
import Sigmaengine.Lib.Instalments

/-!
# What a schedule pays

`transfer_token_savings` opens a schedule under the next free id, and the schedule keeps that id until it is
paid off, concluded or cancelled.  A `ScheduleRun` is what the token plugin does from then on, with a record of
the payouts of that schedule: for each of them, what the balance of the party concerned has grown by.

The record is one of the histories of an instalment plan, whatever else the plugin does in between.
-/

namespace Sigmaengine.Token

open Sigmaengine Effect Table Instalments

variable {s s' : TokenIndices} {u : Unit} {v : CoreView} {account : AccountName} {token : TokenName} {id : Nat}
  {op : TransferTokenSavingsOperation} {w : TokenSavingsWithdrawObject}

/-! ## Balances -/

/-- What is free of a balance object. -/
def freeAmount (o : Option TokenBalanceObject) : ℤ := (o.map fun b => b.balance.amount).getD 0

/-- What the balance of an account has grown by. -/
def gain (account : AccountName) (token : TokenName) (s s' : TokenIndices) : ℤ :=
  freeAmount (balanceOf s' account token) - freeAmount (balanceOf s account token)

theorem freeAmount_adjusted_balance {now : TimePointSec} {delta : Asset} {o : Option TokenBalanceObject} :
    freeAmount (adjusted now .balance account token delta o) = freeAmount o + delta.amount := by
  cases o with
  | none => exact (zero_add _).symm
  | some b =>
    by_cases hall : delta.amount < 0 ∧ (Side.balance.other b).amount = 0 ∧
        Side.balance.read b = ⟨-delta.amount, delta.symbol⟩
    · have hread : b.balance.amount = -delta.amount := congrArg Asset.amount hall.2.2
      simp only [adjusted, if_pos hall, freeAmount, Option.map_none, Option.map_some, Option.getD_none,
        Option.getD_some]
      omega
    · simp only [adjusted, if_neg hall, freeAmount, Option.map_some, Option.getD_some]
      rfl

theorem freeAmount_adjusted_savings {now : TimePointSec} {delta : Asset} {o : Option TokenBalanceObject} :
    freeAmount (adjusted now .savings account token delta o) = freeAmount o := by
  cases o with
  | none => rfl
  | some b =>
    by_cases hall : delta.amount < 0 ∧ (Side.savings.other b).amount = 0 ∧
        Side.savings.read b = ⟨-delta.amount, delta.symbol⟩
    · have hother : b.balance.amount = 0 := hall.2.1
      simp only [adjusted, if_pos hall, freeAmount, Option.map_none, Option.map_some, Option.getD_none,
        Option.getD_some]
      exact hother.symm
    · simp only [adjusted, if_neg hall, freeAmount, Option.map_some, Option.getD_some]
      rfl

/-- Savings that change leave every balance alone. -/
theorem freeAmount_adjustSavings {delta : Asset} (h : adjustTokenSavingsBalance v account token delta s = .ok u s')
    (a : AccountName) (k : TokenName) : freeAmount (balanceOf s' a k) = freeAmount (balanceOf s a k) := by
  have hchanged := balanceChanged_adjustSide h
  by_cases hkey : (a, k) = (account, token)
  · obtain ⟨rfl, rfl⟩ := Prod.mk.inj hkey
    rw [hchanged.here, freeAmount_adjusted_savings]
  · rw [hchanged.others a k hkey]

theorem freeAmount_adjustBalance {delta : Asset} (h : adjustTokenBalance v account token delta s = .ok u s') :
    freeAmount (balanceOf s' account token) = freeAmount (balanceOf s account token) + delta.amount := by
  rw [(balanceChanged_adjustSide h).here, freeAmount_adjusted_balance]

theorem SavingsPaid.gain_eq {now : TimePointSec} (h : SavingsPaid now id w s s') :
    gain w.to_ w.token s s' = (payoutOf w).amount := by
  unfold gain
  rw [h.balance, freeAmount_adjusted_balance, freeAmount_adjusted_savings]
  omega

/-- **The end of a schedule**, inverted: what is left of it goes to one of its parties. -/
theorem endTokenSavings_eq_ok {o : EndTokenSavingsOperation} {toSender : Bool}
    (h : endTokenSavings v o toSender s = .ok u s') :
    ∃ x w b, s.savingsWithdraws.lookup x = some w ∧
      s' = { s with balances := b, savingsWithdraws := s.savingsWithdraws.erase x,
                    bySavingsNextDate := s.bySavingsNextDate.filter (· != x) } ∧
      gain (if toSender = true then w.from_ else w.to_) w.token s s' = w.amount.amount := by
  simp only [endTokenSavings, bind_eq_ok, findIn_eq_ok, ofOption_eq_ok, checked_eq_ok, removeSavings,
    removeIn_eq_ok, Effect.modify_eq_ok] at h
  obtain ⟨_, _, ⟨hfound, rfl⟩, r, _, ⟨rfl, rfl⟩, δ, _, ⟨-, rfl⟩, _, s₁, hdebit, _, s₂, hcredit, _, _, ⟨_, _, rfl, rfl⟩, rfl, rfl⟩ := h
  obtain ⟨hmem, hkey⟩ := mem_of_find? hfound
  simp only [Bool.and_eq_true, beq_iff_eq] at hkey
  obtain ⟨⟨⟨htoken, hfrom⟩, -⟩, -⟩ := hkey
  obtain ⟨b, rfl, -⟩ := saved_adjustSide hdebit
  obtain ⟨b', rfl, -⟩ := saved_adjustSide hcredit
  refine ⟨r.1, r.2, b', lookup_eq_some.mpr hmem, rfl, ?_⟩
  have hgain := freeAmount_adjustBalance hcredit
  rw [freeAmount_adjustSavings hdebit] at hgain
  rw [htoken, hfrom]
  unfold gain
  change freeAmount (balanceOf { s with balances := b' } _ _) - _ = _
  rw [hgain]
  omega

/-! ## Runs -/

/-- The payouts of the schedule `id` in a walk of the block handler over the queue. -/
def walkPayouts (op : TransferTokenSavingsOperation) (id : Nat) (v : CoreView) :
    Nat → Option Nat → TokenIndices → List Payout
  | 0, _, _ => []
  | _ + 1, none, _ => []
  | fuel + 1, some x, s =>
    match s.savingsWithdraws.lookup x with
    | none => []
    | some w =>
      if v.now < w.nextDate then []
      else
        match processTokenSavings v x w s with
        | .error _ _ => []
        | .ok next s' =>
          (if x = id then [.payment (gain op.to_ op.token s s')] else []) ++ walkPayouts op id v fuel next s'

/-- The payouts of the schedule `id` in one call of `process_token_savings_withdraws`. -/
def blockPayouts (op : TransferTokenSavingsOperation) (id : Nat) (v : CoreView) (s : TokenIndices) : List Payout :=
  walkPayouts op id v (256 * s.savingsWithdraws.rows.length + 1) s.bySavingsNextDate.head? s

/-- The payout of the schedule `id` by an operation that takes it away. -/
def endPayouts (op : TransferTokenSavingsOperation) (id : Nat) (o : TokenOperation) (s s' : TokenIndices) :
    List Payout :=
  if (s.savingsWithdraws.lookup id).isSome && (s'.savingsWithdraws.lookup id).isNone then
    match o with
    | .cancelTransferTokenSavings _ => [.cancelled (gain op.from_ op.token s s')]
    | .concludeTransferTokenSavings _ => [.concluded (gain op.to_ op.token s s')]
    | _ => []
  else []

/-- What the token plugin does from `s₀` on, with the payouts of the schedule `id`, which was opened by `op`:
token operations that are accepted, and the two routines of the block handler, at any time and in any order.
Nothing else touches its indices. -/
inductive ScheduleRun (env : Env) (op : TransferTokenSavingsOperation) (id : Nat) (s₀ : TokenIndices) :
    List Payout → TokenIndices → Prop
  | start : ScheduleRun env op id s₀ [] s₀
  | operation {es : List Payout} {d d' : Database} (o : TokenOperation) (h : ScheduleRun env op id s₀ es d.token)
      (haccepted : tokenEvaluator env.tokenInterest o d = .ok () d') :
      ScheduleRun env op id s₀ (es ++ endPayouts op id o d.token d'.token) d'.token
  | stakes {es : List Payout} {s : TokenIndices} (v : CoreView) (h : ScheduleRun env op id s₀ es s) :
      ScheduleRun env op id s₀ es (after (processTokenFundWithdraw v s))
  | savings {es : List Payout} {s s' : TokenIndices} (v : CoreView) (h : ScheduleRun env op id s₀ es s)
      (hreturns : processTokenSavingsWithdraws v s = .ok () s') :
      ScheduleRun env op id s₀ (es ++ blockPayouts op id v s) s'

/-! ## The plan behind a schedule -/

/-- How the savings are to be paid out. -/
def planOf (op : TransferTokenSavingsOperation) : Plan :=
  ⟨op.amount.amount, op.amount.amount / (op.splitPayMonth.toNat : ℤ), op.splitPayMonth.toNat⟩

/-- The schedule after `k` payments. -/
structure Paid (op : TransferTokenSavingsOperation) (k : ℕ) (w : TokenSavingsWithdrawObject) : Prop where
  from_eq : w.from_ = op.from_
  to_eq : w.to_ = op.to_
  token_eq : w.token = op.token
  amount : w.amount.amount = (planOf op).rest k
  total : w.totalAmount.amount = op.amount.amount
  order : w.splitPayOrder.toNat = k + 1
  month : w.splitPayMonth = op.splitPayMonth

/-- Where the plan stands: after so many payments, or over for good. -/
def Stands (op : TransferTokenSavingsOperation) (id : Nat) (s : TokenIndices) : Option ℕ → Prop
  | some k => ∃ w, s.savingsWithdraws.lookup id = some w ∧ Paid op k w
  | none => s.savingsWithdraws.lookup id = none ∧ id < s.savingsWithdraws.nextId

/-- The payouts so far are a history of the plan. -/
def OnRecord (op : TransferTokenSavingsOperation) (id : Nat) (es : List Payout) (s : TokenIndices) : Prop :=
  ∃ state, (planOf op).History es state ∧ Stands op id s state

variable {k : ℕ} {es : List Payout} {state : Option ℕ} {next : Option Nat}

theorem Stands.of_lookup (h : Stands op id s state)
    (hlookup : s'.savingsWithdraws.lookup id = s.savingsWithdraws.lookup id)
    (hnext : s.savingsWithdraws.nextId ≤ s'.savingsWithdraws.nextId) : Stands op id s' state := by
  cases state with
  | some k =>
    obtain ⟨w, hw, hpaid⟩ := h
    exact ⟨w, hlookup.trans hw, hpaid⟩
  | none => exact ⟨hlookup.trans h.1, lt_of_lt_of_le h.2 hnext⟩

theorem OnRecord.of_lookup (h : OnRecord op id es s)
    (hlookup : s'.savingsWithdraws.lookup id = s.savingsWithdraws.lookup id)
    (hnext : s.savingsWithdraws.nextId ≤ s'.savingsWithdraws.nextId) : OnRecord op id es s' := by
  obtain ⟨state, hhistory, hstands⟩ := h
  exact ⟨state, hhistory, hstands.of_lookup hlookup hnext⟩

theorem OnRecord.of_same (h : OnRecord op id es s) (hsame : s'.savingsWithdraws = s.savingsWithdraws) :
    OnRecord op id es s' := by
  apply h.of_lookup <;> rw [hsame]

theorem Paid.isLast_iff (h : Paid op k w) : IsLast w ↔ k + 1 = (planOf op).parts := by
  unfold IsLast
  rw [← UInt8.toNat_inj, h.order, h.month]
  rfl

/-- The schedule pays what the plan says. -/
theorem Paid.payoutOf_eq (h : Paid op k w) (hpos : 0 < op.amount.amount) :
    (payoutOf w).amount = (planOf op).part k := by
  by_cases hlast : IsLast w
  · rw [payoutOf_last hlast, Plan.part_last (h.isLast_iff.mp hlast), h.amount]
  · have hmore : k + 1 ≠ (planOf op).parts := mt h.isLast_iff.mpr hlast
    rw [payoutOf_more hlast, Plan.part, if_neg hmore]
    change w.totalAmount.amount.tdiv w.splitPayMonth.toNat = _
    rw [h.total, h.month, Int.tdiv_eq_ediv_of_nonneg hpos.le]
    rfl

theorem Paid.succ (h : Paid op k w) (hpos : 0 < op.amount.amount) (hk : k + 1 < (planOf op).parts)
    (now : TimePointSec) : Paid op (k + 1) (afterInstalment now w) where
  from_eq := h.from_eq
  to_eq := h.to_eq
  token_eq := h.token_eq
  amount := by
    have hmore : ¬ IsLast w := fun hlast => by have := h.isLast_iff.mp hlast; omega
    have hpart := h.payoutOf_eq hpos
    rw [payoutOf_more hmore, Plan.part_of_lt hk] at hpart
    rw [Plan.rest_succ, ← h.amount, ← hpart]
    rfl
  total := h.total
  order := by
    have hbound : (planOf op).parts < 256 := op.splitPayMonth.toNat_lt
    change (w.splitPayOrder + 1).toNat = k + 1 + 1
    rw [UInt8.toNat_add, h.order]
    exact Nat.mod_eq_of_lt (by show k + 1 + 1 < 256; omega)
  month := h.month

/-- **A schedule that is opened** gets the next id and has not paid anything. -/
theorem transferTokenSavings_eq_ok (h : transferTokenSavings v op op.token s = .ok u s') :
    ∃ w hc, s'.savingsWithdraws = s.savingsWithdraws.insert w hc ∧ Paid op 0 w := by
  simp only [transferTokenSavings, bind_eq_ok, fcAssert_eq_ok, checked_eq_ok] at h
  obtain ⟨_, _, ⟨-, rfl⟩, δ, _, ⟨-, rfl⟩, _, s₁, hdebit, _, s₂, hcredit, hcreate⟩ := h
  obtain ⟨b, rfl, -⟩ := saved_adjustSide hdebit
  obtain ⟨b', rfl, -⟩ := saved_adjustSide hcredit
  simp only [createSavings, bind_eq_ok, createIn_eq_ok, modify_eq_ok] at hcreate
  obtain ⟨_, _, ⟨hc, rfl, rfl⟩, rfl⟩ := hcreate
  refine ⟨_, hc, rfl, ⟨rfl, rfl, rfl, ?_, rfl, rfl, rfl⟩⟩
  simp [Plan.rest, planOf]

/-! ## One payment -/

theorem nextId_processTokenSavings {x : Nat} (hw : s.savingsWithdraws.lookup x = some w)
    (h : processTokenSavings v x w s = .ok next s') : s'.savingsWithdraws.nextId = s.savingsWithdraws.nextId := by
  obtain ⟨b, -, ⟨-, -, rfl⟩ | ⟨-, -, hc, rfl⟩⟩ := processTokenSavings_eq_ok hw h
  · rfl
  · rfl

/-- **One payout** of the handler: another schedule is left alone, and this one makes its next payment. -/
theorem OnRecord.processTokenSavings {x : Nat} (h : OnRecord op id es s) (hpos : 0 < op.amount.amount)
    (hw : s.savingsWithdraws.lookup x = some w) (hrun : Token.processTokenSavings v x w s = .ok next s') :
    OnRecord op id (es ++ if x = id then [.payment (gain op.to_ op.token s s')] else []) s' := by
  have hpaid := savingsPaid_of_ok hw hrun
  have hnext := nextId_processTokenSavings hw hrun
  by_cases hx : x = id
  · subst hx
    rw [if_pos rfl]
    obtain ⟨state, hhistory, hstands⟩ := h
    cases state with
    | none =>
      rw [hstands.1] at hw
      cases hw
    | some k =>
      obtain ⟨_, hw', hk⟩ := hstands
      obtain rfl := Option.some.inj (hw.symm.trans hw')
      have hgain := hpaid.gain_eq
      rw [hk.payoutOf_eq hpos, hk.to_eq, hk.token_eq] at hgain
      rw [hgain]
      refine ⟨_, hhistory.pay, ?_⟩
      have hlookup := hpaid.schedules x
      rw [if_pos rfl] at hlookup
      by_cases hlast : k + 1 = (planOf op).parts
      · rw [if_pos hlast]
        rw [remaining, if_pos (hk.isLast_iff.mpr hlast)] at hlookup
        refine ⟨hlookup, ?_⟩
        rw [hnext]
        exact s.savingsWithdraws.fresh _ (lookup_eq_some.mp hw)
      · rw [if_neg hlast]
        rw [remaining, if_neg (mt hk.isLast_iff.mp hlast)] at hlookup
        have hlt := hhistory.lt_of_running
        exact ⟨_, hlookup, hk.succ hpos (by omega) _⟩
  · rw [if_neg hx, List.append_nil]
    refine h.of_lookup ?_ hnext.ge
    rw [hpaid.schedules id, if_neg (Ne.symm hx)]

/-- **The walk of the handler**, by induction on its rounds. -/
theorem OnRecord.walk {fuel : Nat} {cursor : Option Nat} (h : OnRecord op id es s) (hpos : 0 < op.amount.amount)
    (hrun : processTokenSavingsFrom v fuel cursor s = .ok u s') :
    OnRecord op id (es ++ walkPayouts op id v fuel cursor s) s' := by
  induction fuel generalizing es cursor s with
  | zero =>
    rcases processTokenSavingsFrom_eq_ok hrun with ⟨rfl, -⟩ | ⟨_, _, _, _, _, hfuel, -⟩
    · rw [walkPayouts, List.append_nil]
      exact h
    · cases hfuel
  | succ fuel ih =>
    rcases processTokenSavingsFrom_eq_ok hrun with ⟨rfl, hlater⟩ | ⟨_, x, w, next, s₁, hfuel, rfl, hw, hdue, hstep, hrest⟩
    · have hnone : walkPayouts op id v (fuel + 1) cursor s' = [] := by
        cases cursor with
        | none => rfl
        | some x =>
          unfold walkPayouts
          cases hw : s'.savingsWithdraws.lookup x with
          | none => rfl
          | some w =>
            have hdate := hlater x rfl
            rw [dateOf_eq hw] at hdate
            exact if_pos hdate
      rw [hnone, List.append_nil]
      exact h
    · cases hfuel
      have hpays : walkPayouts op id v (fuel + 1) (some x) s =
          (if x = id then [.payment (gain op.to_ op.token s s₁)] else []) ++ walkPayouts op id v fuel next s₁ := by
        rw [walkPayouts]
        simp only [hw, if_neg (not_lt.mpr hdue), hstep]
      rw [hpays, ← List.append_assoc]
      exact ih (h.processTokenSavings hpos hw hstep) hrest

/-! ## One operation -/

theorem Stands.lookup_isSome (h : Stands op id s state) : (s.savingsWithdraws.lookup id).isSome = state.isSome := by
  cases state with
  | some k =>
    obtain ⟨w, hw, -⟩ := h
    rw [hw]
    rfl
  | none =>
    rw [h.1]
    rfl

theorem endPayouts_of_lookup {o : TokenOperation}
    (hlookup : s'.savingsWithdraws.lookup id = s.savingsWithdraws.lookup id) : endPayouts op id o s s' = [] := by
  unfold endPayouts
  rw [hlookup]
  cases s.savingsWithdraws.lookup id with
  | none => rfl
  | some w => rfl

/-- **One token operation**: the schedule is left alone, unless the operation ends it. -/
theorem OnRecord.tokenEvaluator {interest : TokenInterest} {o : TokenOperation} {d d' : Database}
    (h : OnRecord op id es d.token) (hrun : Token.tokenEvaluator interest o d = .ok u d') :
    OnRecord op id (es ++ endPayouts op id o d.token d'.token) d'.token := by
  have hkeep : ∀ {s' : TokenIndices}, s'.savingsWithdraws.lookup id = d.token.savingsWithdraws.lookup id →
      d.token.savingsWithdraws.nextId ≤ s'.savingsWithdraws.nextId →
      OnRecord op id (es ++ endPayouts op id o d.token s') s' := by
    intro s' hlookup hnext
    rw [endPayouts_of_lookup hlookup, List.append_nil]
    exact h.of_lookup hlookup hnext
  rcases savings_tokenEvaluator hrun with ⟨-, htable, -⟩ | ⟨_, rfl, htransfer⟩ | ⟨_, toSender, rfl, hend⟩
  · apply hkeep <;> rw [htable]
  · -- a new schedule gets a new id
    obtain ⟨w, hc, htable, -⟩ := transferTokenSavings_eq_ok htransfer
    obtain ⟨state, hhistory, hstands⟩ := h
    have hold : id ≠ d.token.savingsWithdraws.nextId := by
      cases state with
      | some k =>
        obtain ⟨w, hw, -⟩ := hstands
        exact Nat.ne_of_lt (d.token.savingsWithdraws.fresh _ (lookup_eq_some.mp hw))
      | none => exact Nat.ne_of_lt hstands.2
    refine hkeep ?_ ?_
    · rw [htable, lookup_insert, if_neg hold]
    · rw [htable]
      exact Nat.le_succ _
  · obtain ⟨x, w, b, hw, hs', hgain⟩ := endTokenSavings_eq_ok hend
    have htable : d'.token.savingsWithdraws = d.token.savingsWithdraws.erase x := by rw [hs']
    by_cases hx : x = id
    · subst hx
      obtain ⟨state, hhistory, hstands⟩ := h
      have hgone : d'.token.savingsWithdraws.lookup x = none := by rw [htable, lookup_erase, if_pos rfl]
      have hnext : x < d'.token.savingsWithdraws.nextId := by
        rw [htable]
        exact d.token.savingsWithdraws.fresh _ (lookup_eq_some.mp hw)
      cases state with
      | none =>
        rw [hstands.1] at hw
        cases hw
      | some k =>
        obtain ⟨_, hw', hk⟩ := hstands
        obtain rfl := Option.some.inj (hw.symm.trans hw')
        rw [hk.amount, hk.token_eq, hk.from_eq, hk.to_eq] at hgain
        refine ⟨none, ?_, hgone, hnext⟩
        unfold endPayouts
        rw [hw, hgone]
        cases toSender with
        | true =>
          simp only [if_pos] at hgain
          simp only [Option.isSome_some, Option.isNone_none, Bool.and_self, if_pos, hgain]
          exact hhistory.cancel
        | false =>
          simp only [Bool.false_eq_true, if_false] at hgain
          simp only [Option.isSome_some, Option.isNone_none, Bool.and_self, if_pos, Bool.false_eq_true, if_false,
            hgain]
          exact hhistory.conclude
    · refine hkeep ?_ ?_
      · rw [htable, lookup_erase, if_neg (Ne.symm hx)]
      · rw [htable]
        exact Nat.le_refl _

/-- **Runs**: the payouts stay a history of the plan. -/
theorem OnRecord.run {env : Env} {s₀ : TokenIndices} (h : OnRecord op id [] s₀) (hpos : 0 < op.amount.amount)
    (hrun : ScheduleRun env op id s₀ es s) : OnRecord op id es s := by
  induction hrun with
  | start => exact h
  | operation o _ haccepted ih => exact ih.tokenEvaluator haccepted
  | stakes v _ ih => exact ih.of_same (savingsStay_processTokenFundWithdraw v _).2.1
  | savings v _ hreturns ih =>
    unfold processTokenSavingsWithdraws at hreturns
    rw [bind_of_ok (get_apply _)] at hreturns
    exact ih.walk hpos hreturns

/-- The schedule that an accepted `transfer_token_savings` opens has made no payment. -/
theorem onRecord_opened {interest : TokenInterest} {d d' : Database} (hparts : op.splitPayMonth ≠ 0)
    (h : Token.tokenEvaluator interest (.transferTokenSavings op) d = .ok u d') :
    OnRecord op d.token.savingsWithdraws.nextId [] d'.token := by
  have hstep : transferTokenSavings (coreView d.core) op op.token d.token = .ok () d'.token := tokenStep_of_evaluator h
  obtain ⟨w, hc, htable, hpaid⟩ := transferTokenSavings_eq_ok hstep
  have hlookup : d'.token.savingsWithdraws.lookup d.token.savingsWithdraws.nextId = some w := by
    rw [htable, lookup_insert, if_pos rfl]
  have hpos : 0 < (planOf op).parts := Nat.pos_of_ne_zero fun hzero => hparts (UInt8.toNat_inj.mp hzero)
  exact ⟨some 0, .running hpos, w, hlookup, hpaid⟩

/-! ## Blocks are runs -/

/-! ## What the payouts add up to -/

/-- The schedule is over. -/
def Gone (id : Nat) (s : TokenIndices) : Prop := s.savingsWithdraws.lookup id = none

/-- The payouts of savings of `amount` over `months`, as far as they have come. -/
structure AddsUp (amount : ℤ) (months : ℕ) (gone : Prop) (es : List Payout) : Prop where
  /-- Once it is over, and not cancelled, the recipient has got the amount. -/
  total : gone → (∀ x, .cancelled x ∉ es) → (es.map Payout.credited).sum = amount
  /-- A payment of the handler that is not the last is an equal part. -/
  regular : ∀ i x, es[i]? = some (.payment x) → i + 1 < months → x = amount / (months : ℤ)
  count : es.length ≤ months
  last : es.length = months → gone
  /-- A cancellation comes last and returns what the payments before it have left over. -/
  refund : ∀ x, .cancelled x ∈ es → ∃ k < months,
    es = List.replicate k (.payment (amount / (months : ℤ))) ++ [.cancelled x] ∧
      x = amount - k * (amount / (months : ℤ)) ∧ gone

theorem OnRecord.addsUp (h : OnRecord op id es s) (hparts : op.splitPayMonth ≠ 0) :
    AddsUp op.amount.amount op.splitPayMonth.toNat (Gone id s) es := by
  obtain ⟨state, hhistory, hstands⟩ := h
  have hpos : 0 < (planOf op).parts := Nat.pos_of_ne_zero fun hzero => hparts (UInt8.toNat_inj.mp hzero)
  have hsome := hstands.lookup_isSome
  refine ⟨?_, fun i x hx hi => hhistory.payment_eq hx hi, hhistory.length_le, ?_, ?_⟩
  · intro hgone hkept
    cases state with
    | some k =>
      rw [hgone] at hsome
      cases hsome
    | none => exact hhistory.sum_credited hpos hkept
  · intro hlength
    cases state with
    | some k =>
      have hk := hhistory.lt_of_running
      have hlen := hhistory.length_eq_of_running
      change es.length = (planOf op).parts at hlength
      omega
    | none => exact hstands.1
  · intro x hx
    obtain ⟨k, hk, hes, hrest, rfl⟩ := hhistory.cancelled_mem hx
    exact ⟨k, hk, hes, hrest, hstands.1⟩

end Sigmaengine.Token

namespace Sigmaengine

open Effect Table Token Instalments

/-- **Token savings add up**: whatever the token plugin does after it has accepted the operation. -/
theorem token_savings_add_up (env : Env) (op : TransferTokenSavingsOperation) (d d' : Database) (es : List Payout)
    (s : TokenIndices) (hvalid : ∀ c ∈ op.validate env.fc, c.holds = true)
    (haccepted : tokenEvaluator env.tokenInterest (.transferTokenSavings op) d = .ok () d')
    (hrun : ScheduleRun env op d.token.savingsWithdraws.nextId d'.token es s) :
    AddsUp op.amount.amount op.splitPayMonth.toNat (Gone d.token.savingsWithdraws.nextId s) es := by
  simp only [TransferTokenSavingsOperation.validate, List.cons_append, List.forall_mem_cons, decide_eq_true_eq,
    Bool.and_eq_true] at hvalid
  obtain ⟨-, -, -, hpos, ⟨hmonth, -⟩, -⟩ := hvalid
  have hparts : op.splitPayMonth ≠ 0 := by
    rintro hzero
    rw [hzero] at hmonth
    exact absurd hmonth (by decide)
  exact ((onRecord_opened hparts haccepted).run hpos hrun).addsUp hparts

/-- All of a token, saved for another account in two instalments. -/
def coinSavings : TransferTokenSavingsOperation :=
  { from_ := rootAccount, to_ := named "aaa", token := named "coin", requestId := 1,
    amount := ⟨5000000, makeSymbol (ascii ['C', 'N'])⟩, splitPayMonth := 2, memo := [], nextDate := genesisTime + 7 }

def coinState : Database :=
  after (tokenEvaluator tokenEnv.tokenInterest (.transferTokenSavings coinSavings) (fundState 0))

def coinView (now : TimePointSec) : CoreView := { coreView coinState.core with now := now }

/-- The first instalment is paid. -/
def coinPaid : TokenIndices := after (processTokenSavingsWithdraws (coinView (genesisTime + 7)) coinState.token)

deriving instance DecidableEq for Payout

theorem token_savings_add_up_coinSavings :
    blockPayouts coinSavings 0 (coinView (genesisTime + 7)) coinState.token = [.payment 2500000] ∧
      AddsUp 5000000 2 (Gone 0 coinPaid) [.payment 2500000] := by
  have hstates : (fundState 0).token.savingsWithdraws.nextId = 0 ∧
      succeeds (tokenEvaluator tokenEnv.tokenInterest (.transferTokenSavings coinSavings) (fundState 0)) = true ∧
      succeeds (processTokenSavingsWithdraws (coinView (genesisTime + 7)) coinState.token) = true ∧
      blockPayouts coinSavings 0 (coinView (genesisTime + 7)) coinState.token = [.payment 2500000] := by
    decide +kernel
  obtain ⟨hid, haccepted, hpays, hpayouts⟩ := hstates
  have hrun : ScheduleRun tokenEnv coinSavings 0 coinState.token [.payment 2500000] coinPaid := by
    have hstart : ScheduleRun tokenEnv coinSavings 0 coinState.token [] coinState.token := .start
    have hstep := hstart.savings (coinView (genesisTime + 7)) (eq_ok_of_succeeds hpays)
    rw [hpayouts] at hstep
    exact hstep
  rw [← hid] at hrun
  have hadds := token_savings_add_up tokenEnv coinSavings (fundState 0) coinState _ _ (by decide +kernel)
    (eq_ok_of_succeeds haccepted) hrun
  rw [hid] at hadds
  exact ⟨hpayouts, hadds⟩

end Sigmaengine
