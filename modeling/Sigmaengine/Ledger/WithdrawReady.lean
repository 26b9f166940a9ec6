import Sigmaengine.Ledger.Solvency
import Sigmaengine.Ledger.TokenBacking

/-!
# Withdraw-ready amounts

A fund keeps the sum of what its stakes will be paid beside its balance.  The core adds to it when a stake is
made and subtracts when one is paid, concluded or returned; the token plugin does the same for each pair of a
token and a fund.  Both sums are exact in every reachable state.
-/

namespace Sigmaengine.Token

open Sigmaengine Effect Table Finsupp

/-- What the funds count as promised, by token and fund. -/
noncomputable def ready (t : Table TokenFundObject) : TokenName × FundName →₀ ℤ :=
  t.sum fun f => single (f.token, f.fundName) f.withdrawBalance.amount

/-- What the stakes will be paid, by token and fund. -/
noncomputable def promised (t : Table TokenFundWithdrawObject) : TokenName × FundName →₀ ℤ :=
  t.sum fun w => single (w.token, w.fundName) w.amount.amount

/-- The promised amount of a fund is in the symbol of its token, not negative and in range. -/
structure GoodWithdraw (t : Table TokenObject) (f : TokenFundObject) : Prop where
  nonneg : 0 ≤ f.withdrawBalance.amount
  le : f.withdrawBalance.amount ≤ int64Max
  symbol : IsSymbol t f.token f.withdrawBalance.symbol

variable {s s' : TokenIndices} {u : Unit} {v : CoreView} {token : TokenName} {delta : Asset}

theorem moveFund_withdraw {now : TimePointSec} {withdrawDelta : Asset} {f f' : TokenFundObject}
    (h : moveFund now delta withdrawDelta f = .ok f') :
    f'.withdrawBalance.amount = f.withdrawBalance.amount + withdrawDelta.amount ∧
      f'.withdrawBalance.symbol = f.withdrawBalance.symbol ∧
      (f.withdrawBalance.amount ≤ int64Max → f'.withdrawBalance.amount ≤ int64Max) := by
  unfold moveFund at h
  cases hb : f.balance.add delta with
  | error e => simp [hb] at h
  | ok b =>
    cases hw : f.withdrawBalance.add withdrawDelta with
    | error e => simp [hb, hw] at h
    | ok w =>
      simp only [hb, hw] at h
      cases h
      obtain ⟨-, hsum, hsym⟩ := Asset.add_eq_ok hw
      have hamount := safeAdd_eq_ok hsum
      refine ⟨hamount, hsym, fun hle => ?_⟩
      rw [hamount]
      exact safeAdd_le hle hsum

theorem ready_replace {t : Table TokenFundObject} {id : Nat} {a b : TokenFundObject}
    (ha : t.lookup id = some a) (hc : t.clashes id b = false) (hkey : (b.token, b.fundName) = (a.token, a.fundName)) :
    ready (t.replace id b hc) =
      ready t + single (a.token, a.fundName) (b.withdrawBalance.amount - a.withdrawBalance.amount) := by
  unfold ready
  rw [sum_replace ha, hkey, single_sub]

/-- **A fund that is adjusted** counts the second amount as promised. -/
theorem ready_adjustTokenFundBalance {fund : FundName} {withdrawDelta : Asset}
    (h : adjustTokenFundBalance v token fund delta withdrawDelta s = .ok u s') :
    ∃ t, s' = { s with funds := t } ∧ ready t = ready s.funds + single (token, fund) withdrawDelta.amount ∧
      ∀ tokens, (∀ f ∈ s.funds.values, GoodWithdraw tokens f) → ∀ f ∈ t.values, GoodWithdraw tokens f := by
  simp only [adjustTokenFundBalance, bind_eq_ok, findIn_eq_ok, ofOption_eq_ok, fcAssert_eq_ok,
    checked_eq_ok] at h
  obtain ⟨_, _, ⟨hfound, rfl⟩, f, _, ⟨rfl, rfl⟩, _, _, ⟨-, rfl⟩, _, _, ⟨-, rfl⟩, _, _, ⟨-, rfl⟩, enough, _,
    ⟨hcover, rfl⟩, _, _, ⟨rfl, rfl⟩, hmod⟩ := h
  obtain ⟨hmem, hkey⟩ := mem_of_find? hfound
  simp only [Bool.and_eq_true, beq_iff_eq] at hkey
  obtain ⟨a, b, hc, ha, hf, rfl⟩ := modifyIn_eq_ok.mp hmod
  obtain rfl := eq_of_mem (lookup_eq_some.mp ha) hmem
  obtain ⟨htoken, hfund, -, -⟩ := moveFund_eq_ok hf
  obtain ⟨hamount, hsymbol, hle⟩ := moveFund_withdraw hf
  refine ⟨_, rfl, ?_, ?_⟩
  · have hsum := ready_replace ha hc (Prod.ext htoken hfund)
    rw [hamount, add_sub_cancel_left, hkey.1, hkey.2] at hsum
    exact hsum
  · intro tokens hall
    have hgood := hall f.2 (mem_values.mpr ⟨f.1, hmem⟩)
    refine forall_replace hall ⟨?_, hle hgood.le, ?_⟩
    · rw [hamount]
      exact covers_nonneg hgood.nonneg hcover
    · rw [htoken, hsymbol]
      exact hgood.symbol

/-! ## Code that leaves the promises alone -/

/-- The same stakes, and the same promised amounts. -/
def StakesStay (s s' : TokenIndices) : Prop :=
  ready s'.funds = ready s.funds ∧ s'.fundWithdraws = s.fundWithdraws

instance : Std.Refl StakesStay := ⟨fun _ => ⟨rfl, rfl⟩⟩

instance : IsTrans TokenIndices StakesStay := ⟨fun _ _ _ h h' => ⟨h'.1.trans h.1, h'.2.trans h.2⟩⟩

theorem stakesStay_tokens : Blind StakesStay Index.tokens := fun _ _ => ⟨rfl, rfl⟩

theorem stakesStay_balances : Blind StakesStay Index.balances := fun _ _ => ⟨rfl, rfl⟩

theorem stakesStay_savings : Blind StakesStay savingsPart := fun _ _ => ⟨rfl, rfl⟩

theorem stakesStay_transferTokenFund (v : CoreView) (op : TransferTokenFundOperation) :
    Runs StakesStay (transferTokenFund v op) := by
  refine runs_bind (readOnly_checked _).always.runs fun delta => ?_
  refine runs_bind (always_adjustSide stakesStay_balances _ _ _ _ _).runs fun _ => ?_
  intro s u s' h
  obtain ⟨t, rfl, hready, -⟩ := ready_adjustTokenFundBalance h
  rw [single_zero, add_zero] at hready
  exact ⟨hready, rfl⟩

/-- A fund starts with nothing promised. -/
theorem stakesStay_setupTokenFund (v : CoreView) (op : SetupTokenFundOperation) (token : TokenObject) :
    Runs StakesStay (setupTokenFund v op token) := by
  refine runs_bind (readOnly_findIn _).always.runs fun found => runs_bind (Always.runs ?_) fun _ => ?_
  · unfold takeInitBalance
    split
    · exact always_bind (readOnly_checked _).always fun delta => always_adjustSide stakesStay_balances _ _ _ _ _
    · exact always_pure _
  · cases found with
    | none =>
      intro s u s' h
      simp only [openFund, bind_eq_ok, createIn_eq_ok, pure_eq_ok] at h
      obtain ⟨_, _, ⟨hc, -, rfl⟩, -, rfl⟩ := h
      refine ⟨(sum_insert s.funds _ hc _).trans ?_, rfl⟩
      rw [single_zero, zero_add]
      rfl
    | some f => exact runs_pure _

/-- **One token operation** leaves the promises alone, unless it makes a stake. -/
theorem stakes_tokenEvaluator {interest : TokenInterest} {op : TokenOperation} {d d' : Database}
    (h : tokenEvaluator interest op d = .ok u d') :
    StakesStay d.token d'.token ∨
      ∃ o r, op = .stakingTokenFund o ∧ r.name = o.token ∧
        stakeToken interest (coreView d.core) o r d.token = .ok () d'.token := by
  have hstep := tokenStep_of_evaluator h
  cases op with
  | createToken op => exact .inl ((always_storeToken stakesStay_tokens stakesStay_balances _ op).runs _ _ _ hstep)
  | issueToken op =>
    obtain ⟨r, -, -, hrun⟩ := hstep
    exact .inl ((always_issueToken stakesStay_tokens stakesStay_balances _ op r).runs _ _ _ hrun)
  | transferToken op =>
    obtain ⟨r, -, -, hrun⟩ := hstep
    exact .inl ((always_transferToken stakesStay_balances _ op _).runs _ _ _ hrun)
  | burnToken op =>
    obtain ⟨r, -, -, hrun⟩ := hstep
    exact .inl ((always_burnToken stakesStay_tokens stakesStay_balances _ op r).runs _ _ _ hrun)
  | setupTokenFund op =>
    obtain ⟨r, -, -, -, hrun⟩ := hstep
    exact .inl (stakesStay_setupTokenFund _ op r.2 _ _ _ hrun)
  | setTokenStakingInterest op =>
    obtain ⟨rate, hrun⟩ := hstep
    exact .inl ((always_storeInterest (fun _ _ => ⟨rfl, rfl⟩) _ op rate).runs _ _ _ hrun)
  | transferTokenFund op => exact .inl (stakesStay_transferTokenFund _ op _ _ _ hstep)
  | stakingTokenFund op =>
    obtain ⟨r, hname, hrun⟩ := hstep
    exact .inr ⟨op, r, rfl, hname, hrun⟩
  | transferTokenSavings op =>
    exact .inl ((always_transferTokenSavings stakesStay_balances stakesStay_savings _ op _).runs _ _ _ hstep)
  | cancelTransferTokenSavings op | concludeTransferTokenSavings op =>
    exact .inl ((always_endTokenSavings stakesStay_balances stakesStay_savings _ op _).runs _ _ _ hstep)

/-! ## Booked stakes -/

/-- Sound tokens, of which some may be lost, whose funds count exactly what their stakes will be paid. -/
structure TokenReady (v : CoreView) (s : TokenIndices) : Prop where
  sound : ∃ lost, TokenSound v lost s
  booked : ready s.funds = promised s.fundWithdraws

theorem TokenReady.stay (hs : TokenReady v s) (hstay : StakesStay s s') (hsound : ∃ lost, TokenSound v lost s') :
    TokenReady v s' where
  sound := hsound
  booked := by rw [hstay.1, hstay.2, hs.booked]

/-- Principal and interest are added to the fund and to the stake alike. -/
theorem booked_stakeToken {interest : TokenInterest} {op : StakingTokenFundOperation} {r : TokenObject}
    (hs : ready s.funds = promised s.fundWithdraws) (h : stakeToken interest v op r s = .ok u s') :
    ready s'.funds = promised s'.fundWithdraws := by
  simp only [stakeToken, adjustTokenBalance, bind_eq_ok, findIn_eq_ok, ofOption_eq_ok, fcAssert_eq_ok,
    checked_eq_ok, createIn_eq_ok, pure_eq_ok] at h
  obtain ⟨_, _, ⟨-, rfl⟩, _, _, ⟨-, rfl⟩, _, _, ⟨-, rfl⟩, rate, _, ⟨rfl, rfl⟩, due, _, ⟨-, rfl⟩, δ, _,
    ⟨-, rfl⟩, _, s₁, hdebit, _, s₂, hcredit, id, _, ⟨hc, -, rfl⟩, -, rfl⟩ := h
  have hstay := (always_adjustSide stakesStay_balances _ _ _ _ _).runs _ _ _ hdebit
  obtain ⟨t, rfl, hready, -⟩ := ready_adjustTokenFundBalance hcredit
  have hinsert : promised _ = single (op.token, op.fundName) due.amount + promised s₁.fundWithdraws :=
    sum_insert s₁.fundWithdraws _ hc _
  refine hready.trans (Eq.trans ?_ hinsert.symm)
  rw [hstay.1, hstay.2, hs, add_comm]

/-- A payout takes off the fund what the stake stood for. -/
theorem ready_processTokenFundWithdrawStep (v : CoreView) :
    Always (Kept (TokenReady v)) (processTokenFundWithdrawStep v) := by
  intro s hs
  obtain ⟨lost, hsound⟩ := hs.sound
  have hsound' := sound_processTokenFundWithdrawStep v s hsound
  rcases processTokenFundWithdrawStep_cases hsound with hsame | ⟨id, w, δ, f, t, hw, hneg, hfund, -, hafter⟩
  · rw [hsame]
    exact hs
  · refine ⟨⟨lost, hsound'⟩, ?_⟩
    rw [hafter]
    obtain ⟨hδ, -⟩ := Asset.neg_eq_ok hneg
    obtain ⟨_, hf, hready, -⟩ := ready_adjustTokenFundBalance hfund
    cases hf
    have herase : promised (s.fundWithdraws.erase id) =
        promised s.fundWithdraws - single (w.token, w.fundName) w.amount.amount :=
      sum_erase (lookup_eq_some.mpr hw) _
    refine hready.trans (Eq.trans ?_ herase.symm)
    rw [hδ, single_neg, hs.booked, sub_eq_add_neg]

end Sigmaengine.Token

namespace Sigmaengine

open Effect Table Finsupp Ledger Token

/-- The interest of a stake, as far as C++ defines it: a `double` is truncated when it is converted to
`int64_t`, so an amount that is not negative earns nothing negative. -/
def KeepsSign (interest : TokenInterest) : Prop :=
  ∀ amount rate, 0 ≤ amount → 0 ≤ (interest amount rate).toInt

theorem KeepsSign.payingStake {interest : TokenInterest} (hinterest : KeepsSign interest) {fc : TextRules}
    {op : TokenOperation} {d : Database} (hvalid : ∀ c ∈ op.validate fc, c.holds = true) :
    PayingStake interest d op := by
  cases op with
  | stakingTokenFund op =>
    intro i hi
    have hamount : 0 ≤ op.amount.amount := of_decide_eq_true (hvalid _ (.tail _ (.tail _ (.tail _ (.head _)))))
    exact add_nonneg hamount (hinterest _ _ hamount)
  | _ => trivial

/-- **Booked stakes** are an invariant of the token plugin. -/
theorem tokenInvariant_ready {interest : TokenInterest} (hinterest : KeepsSign interest) :
    TokenInvariant interest (fun _ _ => True) TokenReady where
  later hle hs := by
    obtain ⟨lost, hsound⟩ := hs.sound
    exact { hs with sound := ⟨lost, hsound.mono hle⟩ }
  operation hvalid _ hs h := by
    obtain ⟨lost, hsound⟩ := hs.sound
    obtain ⟨extra, -, hsound', -⟩ := sound_tokenEvaluator hvalid (hinterest.payingStake hvalid) hsound h
    rcases stakes_tokenEvaluator h with hstay | ⟨o, r, -, -, hrun⟩
    · exact hs.stay hstay ⟨_, hsound'⟩
    · exact ⟨⟨_, hsound'⟩, booked_stakeToken hs.booked hrun⟩
  stakes v := always_bind readOnly_get.always fun _ => always_loop (ready_processTokenFundWithdrawStep v) _
  savings v := by
    intro s hs
    obtain ⟨lost, hsound⟩ := hs.sound
    have hstay := always_processTokenSavingsWithdraws stakesStay_balances stakesStay_savings v s
    exact hs.stay hstay ⟨lost, sound_processTokenSavingsWithdraws v s hsound⟩

theorem tokenReady_genesis (key : PublicKey) : OnChain TokenReady (genesis key) where
  sound := ⟨0, tokenSound_genesis key⟩
  booked := rfl

/-! ## Both kinds of funds -/

/-- Every fund of the chain counts as ready what the pending stakes in it will be paid. -/
def FundsBooked (c : Core) : Prop :=
  ∀ r ∈ c.commonFunds.rows, r.2.fundWithdrawReady =
    c.fundWithdraws.sum fun w => if FixedString.ofBytes w.fundName = r.2.name then w.amount else 0

/-- Every fund of a token counts as ready what the pending stakes in it will be paid. -/
def TokenFundsBooked (s : TokenIndices) : Prop :=
  ∀ r ∈ s.funds.rows, r.2.withdrawBalance.amount =
    s.fundWithdraws.sum fun w => if w.token = r.2.token ∧ w.fundName = r.2.fundName then w.amount.amount else 0

theorem staked_apply (t : Table FundWithdrawObject) (n : CommonFundName) :
    staked (t.values.map FundWithdrawObject.stake) n =
      t.sum fun w => if FixedString.ofBytes w.fundName = n then w.amount else 0 := by
  have hsum : staked (t.values.map FundWithdrawObject.stake) =
      t.sum fun w => single (FixedString.ofBytes w.fundName) w.amount := by
    unfold staked Table.sum
    rw [Multiset.map_map]
    rfl
  rw [hsum, sum_single_eq_sum_ite]

theorem fundsBooked_of_duesBacked {c : Core} {votes : Set ℤ} (h : DuesBacked (c.ledger votes)) : FundsBooked c := by
  intro r hr
  rw [← sum_single_apply hr clash_of_fund_eq CommonFundObject.fundWithdrawReady, ← staked_apply]
  exact congrArg (fun f => f r.2.name) h

theorem tokenFundsBooked_of_ready {v : CoreView} {s : TokenIndices} (hs : TokenReady v s) : TokenFundsBooked s := by
  intro r hr
  have hkey : ∀ a b : TokenFundObject, (a.token, a.fundName) = (b.token, b.fundName) → Clash.clash a b = true := by
    intro a b hab
    obtain ⟨htoken, hfund⟩ := Prod.mk.inj hab
    simp [Clash.clash, htoken, hfund]
  rw [← sum_single_apply hr hkey fun f => f.withdrawBalance.amount]
  refine (congrArg (fun f => f (r.2.token, r.2.fundName)) hs.booked).trans ?_
  unfold promised
  rw [sum_single_eq_sum_ite]
  simp only [Prod.mk.injEq]

theorem reachable_duesBacked {env : Env} {ok : Node → SignedBlock → Database → Prop} {d : Database}
    (h : Reachable env ok d) : DuesBacked d.ledger := by
  refine (reachable_invariant (P := fun L => Closed nullAccount int64Max L ∧ DuesBacked L)
    (fun node b d _ => blockCare_none node b d) (fun key => ?_) ?_ h).2
  · rw [genesis_ledger]
    have hlimit : (0 : ℤ) ≤ int64Max := by decide
    exact ⟨⟨by simp, rfl, by simp, by simp, by simp, Set.subsingleton_singleton, hlimit, fun _ => hlimit⟩, rfl⟩
  · intro L L' hstep hL
    exact ⟨hL.1.step hstep, hL.2.step hL.1 hstep⟩

/-- **Withdraw-ready bookkeeping**: whatever the interest of a stake was, the funds of the chain and of the tokens
count exactly what their pending stakes will be paid. -/
theorem withdraw_ready_booked (env : Env) (hinterest : KeepsSign env.tokenInterest) (d : Database)
    (h : Reachable env anyBlock d) : FundsBooked d.core ∧ TokenFundsBooked d.token := by
  have hready := (tokenInvariant_ready hinterest).reachable tokenReady_genesis (fun _ _ _ _ _ _ _ _ => trivial) h
  exact ⟨fundsBooked_of_duesBacked (reachable_duesBacked h), tokenFundsBooked_of_ready hready⟩

def setInterestText : Bytes :=
  ascii (jsonText "set_token_staking_interest" [("token_publisher", "root"), ("token", "coin"), ("month", "1"),
    ("percent_interest_rate", "50")])

def stakeTokenText : Bytes :=
  ascii (jsonText "staking_token_fund" [("from", "root"), ("token", "coin"), ("fund_name", "pool"),
    ("request_id", "1"), ("amount", "2.000000 CN"), ("memo", ""), ("month", "1")])

/-- The bits of `100.0`. -/
def hundred : Double := 0x4059000000000000

/-- The sample node, which reads the texts above as well and computes the interest of the samples. -/
def stakingEnv : Env :=
  { tokenEnv with
    fundArithmetic :=
      { toDouble := fun text => if text = ascii ['1', '0', '0'] then some hundred else none
        aboveMinusOne := fun percent => percent == hundred
        interest := fun amount percent => if percent = hundred then Int64.ofInt amount else 0 }
    tokenInterest := fun amount rate => if amount = 2000000 ∧ rate = 50000 then 1000000 else 0
    decodeToken := fun payload =>
      match payload with
      | .json text =>
        if text = setInterestText then
          some [.setTokenStakingInterest
            { tokenPublisher := rootAccount, token := named "coin", month := 1,
              percentInterestRate := ascii ['5', '0'] }]
        else if text = stakeTokenText then
          some [.stakingTokenFund
            { from_ := rootAccount, token := named "coin", fundName := named "pool", requestId := 1,
              amount := ⟨2000000, makeSymbol (ascii ['C', 'N'])⟩, memo := [], month := 1 }]
        else tokenEnv.decodeToken payload
      | .binary _ => tokenEnv.decodeToken payload }

/-- A stake in the fund of the chain at 100 percent, and one in the fund of a new token at 50 percent. -/
def stakingBlock : SignedBlock :=
  sampleBlock (dappBlock.id stakingEnv.codec) 2
    [.print ⟨rootAccount, rootAccount, sgt 10⟩,
      .setFundInterest ⟨rootAccount, depositFundName, 0, 1, ascii ['1', '0', '0']⟩,
      .stakingFund
        { from_ := rootAccount, fundName := depositFundName, requestId := 1, amount := sgt 4, memo := [],
          usertype := 0, month := 1 },
      .customJsonDapp ⟨[], [], [], [.ofKey ⟨1⟩], ascii ['t', 'o', 'k', 'e', 'n'], createTokenText⟩,
      .customJson ⟨[rootAccount], [], ascii ['t', 'o', 'k', 'e', 'n'], setupTokenFundText⟩,
      .customJson ⟨[rootAccount], [], ascii ['t', 'o', 'k', 'e', 'n'], setInterestText⟩,
      .customJson ⟨[rootAccount], [], ascii ['t', 'o', 'k', 'e', 'n'], stakeTokenText⟩]

def stakingState : Database :=
  after (applyBlock stakingEnv {} stakingBlock (after (applyBlock stakingEnv {} dappBlock (genesis ⟨1⟩))))

theorem keepsSign_stakingEnv : KeepsSign stakingEnv.tokenInterest := by
  intro amount rate _
  simp only [stakingEnv]
  split <;> decide

theorem reachable_stakingState {ok : Node → SignedBlock → Database → Prop} (hdapp : ok {} dappBlock (genesis ⟨1⟩))
    (hstaking : ok {} stakingBlock (after (applyBlock stakingEnv {} dappBlock (genesis ⟨1⟩)))) :
    Reachable stakingEnv ok stakingState := by
  have hrun : succeeds (applyBlock stakingEnv {} dappBlock (genesis ⟨1⟩)) = true ∧
      succeeds (applyBlock stakingEnv {} stakingBlock
        (after (applyBlock stakingEnv {} dappBlock (genesis ⟨1⟩)))) = true := by
    decide +kernel
  have hfirst : Reachable stakingEnv ok (after (applyBlock stakingEnv {} dappBlock (genesis ⟨1⟩))) :=
    (Reachable.genesis ⟨1⟩).block {} dappBlock rfl hdapp (eq_ok_of_succeeds hrun.1)
  exact hfirst.block {} stakingBlock rfl hstaking (eq_ok_of_succeeds hrun.2)

theorem withdraw_ready_booked_stakingState :
    KeepsSign stakingEnv.tokenInterest ∧
      stakingState.core.commonFunds.rows.map (fun r => r.2.fundWithdrawReady) = [8] ∧
      stakingState.token.funds.rows.map (fun r => r.2.withdrawBalance.amount) = [3000000] ∧
      FundsBooked stakingState.core ∧ TokenFundsBooked stakingState.token := by
  have hready : stakingState.core.commonFunds.rows.map (fun r => r.2.fundWithdrawReady) = [8] ∧
      stakingState.token.funds.rows.map (fun r => r.2.withdrawBalance.amount) = [3000000] := by
    decide +kernel
  exact ⟨keepsSign_stakingEnv, hready.1, hready.2,
    withdraw_ready_booked stakingEnv keepsSign_stakingEnv stakingState (reachable_stakingState trivial trivial)⟩

end Sigmaengine
