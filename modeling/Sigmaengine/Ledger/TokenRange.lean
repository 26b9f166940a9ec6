import Sigmaengine.Ledger.WithdrawReady

/-!
# The range of token amounts

The cap on the supply of a token is checked in whole units when it is created and in millionths when more of it is
issued; every token has six decimals, so both are the same bound.  What is held of a token is at most its total, so
every amount the plugin stores stays far from the limits of `int64_t`, and the two products it computes without a
check are exact.
-/

namespace Sigmaengine.Token

open Sigmaengine Effect Table Finsupp

/-- Ninety billion tokens in millionths. -/
def supplyCap : ℤ := tokenMax * 1000000

/-- A token has six decimals, is counted in its own symbol and is within the cap. -/
structure GoodToken (x : TokenObject) : Prop where
  total_le : x.totalBalance.amount ≤ supplyCap
  symbol : x.totalBalance.symbol = x.symbol
  unit : precision x.symbol = .ok 1000000

variable {s s' : TokenIndices} {u : Unit} {v : CoreView}

/-! ## The table of tokens -/

/-- No symbol is taken back, and good tokens stay good. -/
def TokensKept (s s' : TokenIndices) : Prop :=
  (∀ n y, IsSymbol s.tokens n y → IsSymbol s'.tokens n y) ∧
    ((∀ x ∈ s.tokens.values, GoodToken x) → ∀ x ∈ s'.tokens.values, GoodToken x)

theorem TokensKept.trans {s₁ : TokenIndices} (h : TokensKept s s₁) (h' : TokensKept s₁ s') : TokensKept s s' :=
  ⟨fun n y hy => h'.1 n y (h.1 n y hy), fun hall => h'.2 (h.2 hall)⟩

theorem tokensKept_of_same (h : SameTokens s s') : TokensKept s s' := by
  unfold TokensKept
  rw [show s'.tokens = s.tokens from h]
  exact ⟨fun _ _ hy => hy, fun hall => hall⟩

theorem tokensKept_replace {id : Nat} {a b : TokenObject} (ha : s.tokens.lookup id = some a)
    (hc : s.tokens.clashes id b = false) (hname : b.name = a.name) (hsym : b.symbol = a.symbol)
    (hgood : GoodToken a → GoodToken b) (ht : s'.tokens = s.tokens.replace id b hc) : TokensKept s s' := by
  unfold TokensKept
  rw [ht]
  refine ⟨isSymbol_replace ha hc hname hsym, fun hall => forall_replace hall (hgood (hall a ?_))⟩
  exact mem_values.mpr ⟨id, lookup_eq_some.mp ha⟩

theorem tokensKept_storeToken {op : CreateTokenOperation} (hvalid : ∀ c ∈ op.validate, c.holds = true)
    (h : storeToken v op s = .ok u s') : TokensKept s s' := by
  simp only [storeToken, bind_eq_ok, findIn_eq_ok, checked_eq_ok, fcAssert_eq_ok, get_eq_ok,
    createIn_eq_ok] at h
  obtain ⟨_, _, ⟨-, rfl⟩, _, _, ⟨-, rfl⟩, found, _, ⟨-, rfl⟩, _, _, ⟨-, rfl⟩, sgtName, _, ⟨-, rfl⟩, _,
    _, ⟨-, rfl⟩, _, _, ⟨rfl, rfl⟩, _, _, ⟨-, rfl⟩, unit, _, ⟨hunit, rfl⟩, id, _, ⟨hc, -, rfl⟩, hopen⟩ := h
  simp only [CreateTokenOperation.validate, List.forall_mem_cons, decide_eq_true_eq, Bool.and_eq_true] at hvalid
  obtain ⟨-, -, -, ⟨-, hlen⟩, -, -, hhi, -⟩ := hvalid
  have hmade := precision_makeSymbol (toUpper op.symbolName) (by simpa [toUpper] using hlen)
  rw [hmade] at hunit
  cases hunit
  have hsame : s'.tokens = s.tokens.insert _ hc := (always_openBalance sameTokens_balances _ _ _).runs _ _ _ hopen
  unfold TokensKept
  rw [hsame]
  refine ⟨isSymbol_insert hc, fun hall => forall_insert hall ⟨?_, rfl, hmade⟩⟩
  unfold supplyCap
  exact Int.mul_le_mul_of_nonneg_right hhi (by decide)

/-- The sum that was compared with the cap is the one that is stored. -/
theorem tokensKept_issueToken {op : IssueTokenOperation} {r : Nat × TokenObject} (hr : r ∈ s.tokens.rows)
    (h : issueToken v op r s = .ok u s') : TokensKept s s' := by
  simp only [issueToken, bind_eq_ok, checked_eq_ok, fcAssert_eq_ok] at h
  obtain ⟨_, _, ⟨hsym, rfl⟩, unit, _, ⟨hunit, rfl⟩, total, _, ⟨htotal, rfl⟩, fits, _, ⟨hfits, rfl⟩, _, _,
    ⟨rfl, rfl⟩, _, s₁, hmod, hcredit⟩ := h
  obtain ⟨a, b, hc, ha, hf, rfl⟩ := modifyIn_eq_ok.mp hmod
  obtain rfl := eq_of_mem (lookup_eq_some.mp ha) hr
  obtain ⟨n, hadd, rfl⟩ := map_eq_ok hf
  obtain ⟨-, hn, hnsym⟩ := Asset.add_eq_ok hadd
  obtain ⟨-, hsum, -⟩ := Asset.add_eq_ok htotal
  have hkept : SameTokens _ s' := (always_creditIssue sameTokens_balances _ _).runs _ _ _ hcredit
  refine tokensKept_replace ha hc rfl rfl (fun hgood => ⟨?_, hnsym.trans hgood.symbol, hgood.unit⟩) hkept
  rw [← beq_iff_eq.mp hsym, hgood.unit] at hunit
  cases hunit
  have hle : total.amount ≤ supplyCap := by
    unfold Asset.le at hfits
    split at hfits
    · rename_i heq
      rw [heq]
      exact le_refl _
    · split at hfits
      · exact (of_decide_eq_true (Except.ok.inj hfits)).le
      · cases hfits
  have hn := safeAdd_eq_ok hn
  have hsum := safeAdd_eq_ok hsum
  dsimp only
  omega

theorem tokensKept_burnToken {op : BurnTokenOperation} {r : Nat × TokenObject}
    (hpos : 0 ≤ op.amount.amount) (h : burnToken v op r s = .ok u s') : TokensKept s s' := by
  simp only [burnToken, adjustTokenBalance, bind_eq_ok, checked_eq_ok] at h
  obtain ⟨δ, _, ⟨-, rfl⟩, _, s₁, hdebit, hmod⟩ := h
  have hsame : s₁.tokens = s.tokens := (always_adjustSide sameTokens_balances _ _ _ _ _).runs _ _ _ hdebit
  obtain ⟨a, b, hc, ha, hf, rfl⟩ := modifyIn_eq_ok.mp hmod
  simp only [Index.tokens] at ha hc
  obtain ⟨n, hsub, rfl⟩ := map_eq_ok hf
  obtain ⟨-, hn, hnsym⟩ := Asset.sub_eq_ok hsub
  have hn := safeSub_eq_ok hn
  have hkept : TokensKept s₁ { s₁ with tokens := s₁.tokens.replace r.1 { a with totalBalance := n } hc } := by
    refine tokensKept_replace ha hc rfl rfl (fun hgood => ⟨?_, hnsym.trans hgood.symbol, hgood.unit⟩) rfl
    have := hgood.total_le
    dsimp only
    omega
  exact (tokensKept_of_same hsame).trans hkept

/-- **One token operation** keeps every token good. -/
theorem tokensKept_tokenEvaluator {interest : TokenInterest} {fc : TextRules} {op : TokenOperation}
    {d d' : Database} (hvalid : ∀ c ∈ op.validate fc, c.holds = true)
    (h : tokenEvaluator interest op d = .ok u d') : TokensKept d.token d'.token := by
  by_cases hop : changesTotal op = true
  · have hstep := tokenStep_of_evaluator h
    cases op with
    | createToken op => exact tokensKept_storeToken hvalid hstep
    | issueToken op =>
      obtain ⟨r, hr, -, hrun⟩ := hstep
      exact tokensKept_issueToken hr hrun
    | burnToken op =>
      obtain ⟨r, -, -, hrun⟩ := hstep
      exact tokensKept_burnToken (of_decide_eq_true (hvalid _ (.tail _ (.head _)))) hrun
    | _ => cases hop
  · exact tokensKept_of_same
      ((sameTokens_tokenEvaluator interest op (Bool.not_eq_true _ ▸ hop)).runs _ _ _ h)

/-! ## The promised amounts of the funds -/

/-- Good promised amounts stay good, whatever the tokens are. -/
def WithdrawsKept (s s' : TokenIndices) : Prop :=
  ∀ tokens, (∀ f ∈ s.funds.values, GoodWithdraw tokens f) → ∀ f ∈ s'.funds.values, GoodWithdraw tokens f

instance : Std.Refl WithdrawsKept := ⟨fun _ _ h => h⟩

instance : IsTrans TokenIndices WithdrawsKept := ⟨fun _ _ _ h h' tokens hall => h' tokens (h tokens hall)⟩

theorem withdrawsKept_tokens : Blind WithdrawsKept Index.tokens := fun _ _ _ hall => hall

theorem withdrawsKept_balances : Blind WithdrawsKept Index.balances := fun _ _ _ hall => hall

theorem withdrawsKept_fundWithdraws : Blind WithdrawsKept Index.fundWithdraws := fun _ _ _ hall => hall

theorem withdrawsKept_savings : Blind WithdrawsKept savingsPart := fun _ _ _ hall => hall

theorem withdrawsKept_adjustTokenFundBalance (v : CoreView) (token : TokenName) (fund : FundName)
    (delta withdrawDelta : Asset) :
    Always WithdrawsKept (adjustTokenFundBalance v token fund delta withdrawDelta) := by
  refine always_of_clean ?_ (clean_adjustTokenFundBalance v token fund delta withdrawDelta)
  intro s u s' h
  obtain ⟨t, rfl, -, hgood⟩ := ready_adjustTokenFundBalance h
  exact hgood

theorem withdrawsKept_stakeToken (interest : TokenInterest) (v : CoreView) (op : StakingTokenFundOperation)
    (r : TokenObject) : Always WithdrawsKept (stakeToken interest v op r) := by
  refine always_bind (readOnly_findIn _).always fun _ => always_bind (readOnly_assert _ _).always fun _ => ?_
  refine always_bind (readOnly_findIn _).always fun _ => always_bind (readOnly_ofOption _ _).always fun _ => ?_
  refine always_bind (readOnly_checked _).always fun _ => always_bind (readOnly_checked _).always fun _ => ?_
  refine always_bind (always_adjustSide withdrawsKept_balances _ _ _ _ _) fun _ => ?_
  refine always_bind (withdrawsKept_adjustTokenFundBalance _ _ _ _ _) fun _ => ?_
  exact always_bind (always_within withdrawsKept_fundWithdraws _) fun _ => always_pure _

theorem withdrawsKept_processTokenFundWithdraw (v : CoreView) :
    Always WithdrawsKept (processTokenFundWithdraw v) := by
  refine always_bind readOnly_get.always fun _ => always_loop ?_ _
  refine always_bind readOnly_get.always fun s => ?_
  split
  · exact always_pure _
  · split
    · exact always_pure _
    · refine always_bind (readOnly_checked _).always fun _ => ?_
      refine always_bind (withdrawsKept_adjustTokenFundBalance _ _ _ _ _) fun _ => ?_
      refine always_bind (always_adjustSide withdrawsKept_balances _ _ _ _ _) fun _ => ?_
      exact always_bind (always_within withdrawsKept_fundWithdraws _) fun _ => always_pure _

/-- A new fund promises nothing, in the symbol of the token it names. -/
theorem withdraws_setupTokenFund {op : SetupTokenFundOperation} {r : Nat × TokenObject} (hr : r ∈ s.tokens.rows)
    (hname : r.2.name = op.token) (hall : ∀ f ∈ s.funds.values, GoodWithdraw s.tokens f)
    (h : setupTokenFund v op r.2 s = .ok u s') : ∀ f ∈ s'.funds.values, GoodWithdraw s.tokens f := by
  simp only [setupTokenFund, bind_eq_ok, findIn_eq_ok] at h
  obtain ⟨found, _, ⟨-, rfl⟩, _, s₁, htake, hopen⟩ := h
  have hkept : WithdrawsKept s s₁ := by
    unfold takeInitBalance at htake
    split at htake
    · obtain ⟨δ, _, hneg, hadjust⟩ := bind_eq_ok.mp htake
      obtain rfl := (readOnly_checked _).eq_of_ok hneg
      exact (always_adjustSide withdrawsKept_balances _ _ _ _ _).runs _ _ _ hadjust
    · obtain ⟨-, rfl⟩ := pure_eq_ok.mp htake
      exact Std.Refl.refl s
  have hall := hkept s.tokens hall
  cases found with
  | some f =>
    obtain ⟨-, rfl⟩ := pure_eq_ok.mp hopen
    exact hall
  | none =>
    simp only [openFund, bind_eq_ok, createIn_eq_ok, pure_eq_ok] at hopen
    obtain ⟨_, _, ⟨hc, -, rfl⟩, -, rfl⟩ := hopen
    have hlimit : (0 : ℤ) ≤ int64Max := by decide
    refine forall_insert (h := hc) hall ⟨le_refl 0, hlimit, ?_⟩
    dsimp only
    rw [← hname]
    exact isSymbol_of_mem hr

theorem GoodWithdraw.mono {t t' : Table TokenObject} {f : TokenFundObject} (h : GoodWithdraw t f)
    (hle : ∀ n y, IsSymbol t n y → IsSymbol t' n y) : GoodWithdraw t' f :=
  ⟨h.nonneg, h.le, hle _ _ h.symbol⟩

/-- **One token operation** keeps the promised amounts good for the tokens it finds. -/
theorem withdraws_tokenEvaluator {interest : TokenInterest} {op : TokenOperation} {d d' : Database}
    (hall : ∀ f ∈ d.token.funds.values, GoodWithdraw d.token.tokens f)
    (h : tokenEvaluator interest op d = .ok u d') :
    ∀ f ∈ d'.token.funds.values, GoodWithdraw d.token.tokens f := by
  have hstep := tokenStep_of_evaluator h
  cases op with
  | createToken op =>
    exact (always_storeToken withdrawsKept_tokens withdrawsKept_balances _ op).runs _ _ _ hstep _ hall
  | issueToken op =>
    obtain ⟨r, -, -, hrun⟩ := hstep
    exact (always_issueToken withdrawsKept_tokens withdrawsKept_balances _ op r).runs _ _ _ hrun _ hall
  | transferToken op =>
    obtain ⟨r, -, -, hrun⟩ := hstep
    exact (always_transferToken withdrawsKept_balances _ op _).runs _ _ _ hrun _ hall
  | burnToken op =>
    obtain ⟨r, -, -, hrun⟩ := hstep
    exact (always_burnToken withdrawsKept_tokens withdrawsKept_balances _ op r).runs _ _ _ hrun _ hall
  | setupTokenFund op =>
    obtain ⟨r, hr, hname, -, hrun⟩ := hstep
    exact withdraws_setupTokenFund hr hname hall hrun
  | setTokenStakingInterest op =>
    obtain ⟨rate, hrun⟩ := hstep
    exact (always_storeInterest (R := WithdrawsKept) (fun _ _ _ hall => hall) _ op rate).runs _ _ _ hrun _ hall
  | transferTokenFund op =>
    obtain ⟨_, _, hneg, hrest⟩ := bind_eq_ok.mp hstep
    obtain rfl := (readOnly_checked _).eq_of_ok hneg
    refine (always_bind (always_adjustSide withdrawsKept_balances _ _ _ _ _) fun _ => ?_).runs _ _ _ hrest _ hall
    exact withdrawsKept_adjustTokenFundBalance _ _ _ _ _
  | stakingTokenFund op =>
    obtain ⟨r, -, hrun⟩ := hstep
    exact (withdrawsKept_stakeToken interest _ op r).runs _ _ _ hrun _ hall
  | transferTokenSavings op =>
    exact (always_transferTokenSavings withdrawsKept_balances withdrawsKept_savings _ op _).runs _ _ _ hstep _ hall
  | cancelTransferTokenSavings op | concludeTransferTokenSavings op =>
    exact (always_endTokenSavings withdrawsKept_balances withdrawsKept_savings _ op _).runs _ _ _ hstep _ hall

/-! ## Ranged states -/

/-- Sound tokens within the cap, and funds with good promised amounts. -/
structure TokenRanged (v : CoreView) (s : TokenIndices) : Prop where
  sound : ∃ lost, TokenSound v lost s
  tokens : ∀ x ∈ s.tokens.values, GoodToken x
  withdraws : ∀ f ∈ s.funds.values, GoodWithdraw s.tokens f

/-- What runs after a block leaves the tokens as they are. -/
theorem TokenRanged.later (hs : TokenRanged v s) (hsame : SameTokens s s') (hkept : WithdrawsKept s s')
    (hsound : ∃ lost, TokenSound v lost s') : TokenRanged v s' where
  sound := hsound
  tokens := by
    rw [show s'.tokens = s.tokens from hsame]
    exact hs.tokens
  withdraws := by
    rw [show s'.tokens = s.tokens from hsame]
    exact hkept _ hs.withdraws

end Sigmaengine.Token

namespace Sigmaengine

open Effect Table Finsupp Token

/-- **The ranges** are an invariant of the token plugin. -/
theorem tokenInvariant_ranged (interest : TokenInterest) :
    TokenInvariant interest (PayingStake interest) TokenRanged where
  later hle hs := by
    obtain ⟨lost, hsound⟩ := hs.sound
    exact { hs with sound := ⟨lost, hsound.mono hle⟩ }
  operation hvalid hstake hs h := by
    obtain ⟨lost, hsound⟩ := hs.sound
    obtain ⟨extra, -, hsound', -⟩ := sound_tokenEvaluator hvalid hstake hsound h
    obtain ⟨hle, hgood⟩ := tokensKept_tokenEvaluator hvalid h
    have hfunds := withdraws_tokenEvaluator hs.withdraws h
    exact ⟨⟨_, hsound'⟩, hgood hs.tokens, fun f hf => (hfunds f hf).mono hle⟩
  stakes v := by
    intro s hs
    obtain ⟨lost, hsound⟩ := hs.sound
    have hsame := always_processTokenFundWithdraw sameTokens_balances sameTokens_funds sameTokens_fundWithdraws v s
    exact hs.later hsame (withdrawsKept_processTokenFundWithdraw v s)
      ⟨lost, sound_processTokenFundWithdraw v s hsound⟩
  savings v := by
    intro s hs
    obtain ⟨lost, hsound⟩ := hs.sound
    have hsame := always_processTokenSavingsWithdraws sameTokens_balances sameTokens_savings v s
    have hkept := always_processTokenSavingsWithdraws withdrawsKept_balances withdrawsKept_savings v s
    exact hs.later hsame hkept ⟨lost, sound_processTokenSavingsWithdraws v s hsound⟩

theorem tokenRanged_genesis (key : PublicKey) : OnChain TokenRanged (genesis key) where
  sound := ⟨0, tokenSound_genesis key⟩
  tokens := by intro x hx; cases hx
  withdraws := by intro f hf; cases hf

/-! ## Inside a block -/

/-- The token operation `next` starts in `t` while the block is applied to `d`: the transactions before its own, the
operations before its own and the token operations before it have been applied, and those of its payload are valid. -/
def TokenOperationStarts (env : Env) (node : Node) (b : SignedBlock) (d : Database) (next : TokenOperation)
    (t : Database) : Prop :=
  ∃ signing trxs trx trxs' ops op ops' earlier later d₁ d₂ d₃ d₄,
    onCore (applyBlockHeader env node b) d = .ok signing d₁ ∧
    b.transactions = trxs ++ trx :: trxs' ∧ each (applyTransaction env node) trxs d₁ = .ok () d₂ ∧
    onCore (admitTransaction env node trx) d₂ = .ok () d₃ ∧
    trx.operations = ops ++ op :: ops' ∧ each (applyOperation env node) ops d₃ = .ok () d₄ ∧
    tokenOperations env op = earlier ++ next :: later ∧
    (∀ o ∈ tokenOperations env op, ∀ c ∈ o.validate env.fc, c.holds = true) ∧
    each (tokenEvaluator env.tokenInterest) earlier d₄ = .ok () t

/-- The token operations before one in its block, and the one itself, meet what is asked of those of the block. -/
theorem TokenInvariant.operationStarts {env : Env} {ok : Database → TokenOperation → Prop}
    {I : CoreView → TokenIndices → Prop} (hI : TokenInvariant env.tokenInterest ok I) {node : Node} {b : SignedBlock}
    {d t : Database} {next : TokenOperation} (hvalidate : node.skip.validate = false)
    (hok : EachOperation env node (EachTokenOperation env ok) b d) (hd : OnChain I d)
    (h : TokenOperationStarts env node b d next t) :
    OnChain I t ∧ ok t next ∧ ∀ c ∈ next.validate env.fc, c.holds = true := by
  obtain ⟨signing, trxs, trx, trxs', ops, op, ops', earlier, later, d₁, d₂, d₃, d₄, hheader, hblock, htrxs, hpassed,
    hops, hrun, hinner, hvalid, hevaluate⟩ := h
  simp only [EachOperation, blockTrace, hheader, after_ok, hblock, trxTrace_append htrxs, trxTrace, hpassed, hops,
    opTrace_append hrun, opTrace, List.forall_mem_append, List.forall_mem_cons] at hok
  obtain ⟨hokTrxs, ⟨hokOps, hokOp, -⟩, -⟩ := hok
  simp only [EachTokenOperation, tokenTrace, hinner, innerTrace_append hevaluate, innerTrace,
    List.forall_mem_append, List.forall_mem_cons] at hokOp
  obtain ⟨hokEarlier, hokNext, -⟩ := hokOp
  have hop : ∀ op d d', op.Valid env.fc → EachTokenOperation env ok d op →
      Sigmaengine.applyOperation env node op d = .ok () d' → Kept (OnChain I) d d' :=
    fun op d d' hop hmeets => hI.applyOperation hop hmeets
  have hadm : ∀ trx, Runs (Kept (OnChain I)) (Sigmaengine.onCore (admitTransaction env node trx)) := fun trx =>
    hI.onCore fun votes c u c' hc => (same_admitTransaction env node trx c u c' hc).sim
  have hd₁ := hI.onCore (fun votes c n c' hc => sim_applyBlockHeader hc) _ _ _ hheader hd
  have hd₂ := runs_transactions (admits_valid hvalidate) hop hadm hokTrxs htrxs hd₁
  have hd₃ := hadm trx _ _ _ hpassed hd₂
  obtain ⟨c, hc, -⟩ := within_eq_ok.mp hpassed
  have hvalidOps : ∀ o ∈ ops, o.Valid env.fc := by
    intro o ho
    refine admits_valid hvalidate _ _ _ _ hc o ?_
    rw [hops]
    exact List.mem_append_left _ ho
  have hd₄ := runs_operations hop hvalidOps hokOps hrun hd₃
  rw [hinner] at hvalid
  refine ⟨?_, hokNext, hvalid next (List.mem_append_right _ List.mem_cons_self)⟩
  exact hI.innerOperations (fun o ho => hvalid o (List.mem_append_left _ ho)) hokEarlier hd₄ hevaluate

/-! ## The ranges -/

/-- The amount is not negative, fits in an `int64_t` and carries the symbol of the token. -/
def AmountOf (x : TokenObject) (a : Asset) : Prop := 0 ≤ a.amount ∧ InInt64 a.amount ∧ a.symbol = x.symbol

/-- Every total is within the cap, and every other amount is one of its token. -/
structure TokensInRange (s : TokenIndices) : Prop where
  totals : ∀ x ∈ s.tokens.values, x.totalBalance.amount ≤ tokenMax * 10 ^ 6 ∧ AmountOf x x.totalBalance
  balances : ∀ b ∈ s.balances.values, ∃ x ∈ s.tokens.values, x.name = b.token ∧ AmountOf x b.balance ∧
    AmountOf x b.savingsBalance
  funds : ∀ f ∈ s.funds.values, ∃ x ∈ s.tokens.values, x.name = f.token ∧ AmountOf x f.balance ∧
    AmountOf x f.withdrawBalance

theorem amountOf_of_le {x : TokenObject} {a : Asset} (hpos : 0 ≤ a.amount) (hle : a.amount ≤ int64Max)
    (hsym : a.symbol = x.symbol) : AmountOf x a := by
  refine ⟨hpos, ⟨?_, hle⟩, hsym⟩
  unfold int64Min
  omega

theorem tokensInRange_of_ranged {v : CoreView} {s : TokenIndices} (hs : TokenRanged v s) : TokensInRange s := by
  obtain ⟨lost, hsound⟩ := hs.sound
  have haccounts : ∀ n, 0 ≤ inAccounts s.balances n := inAccounts_nonneg hsound.balances
  have hfunds : ∀ n, 0 ≤ inFunds s.funds n := inFunds_nonneg hsound.funds
  refine ⟨fun x hx => ?_, fun b hb => ?_, fun f hf => ?_⟩
  · have hgood := hs.tokens x hx
    have hheld := hsound.held_le_total hx
    have := haccounts x.name
    have := hfunds x.name
    exact ⟨hgood.total_le, amountOf_of_le (by omega) (hsound.issued_le x hx) hgood.symbol⟩
  · have hgood := hsound.balances b hb
    obtain ⟨x, hx, hname, hsym⟩ := hgood.balance_symbol
    have hsavings := hgood.savings_symbol.unique ⟨x, hx, hname, rfl⟩
    have hheld := hsound.held_le hgood.balance_symbol
    have hle := le_inAccounts hsound.balances hb
    have := hfunds b.token
    have := hgood.balance_nonneg
    have := hgood.savings_nonneg
    exact ⟨x, hx, hname, amountOf_of_le hgood.balance_nonneg (by omega) hsym.symm,
      amountOf_of_le hgood.savings_nonneg (by omega) hsavings⟩
  · have hgood := hsound.funds f hf
    have hready := hs.withdraws f hf
    obtain ⟨x, hx, hname, hsym⟩ := hgood.symbol
    have hwithdraw := hready.symbol.unique ⟨x, hx, hname, rfl⟩
    have hheld := hsound.held_le hgood.symbol
    have hle := le_inFunds hsound.funds hf
    have := haccounts f.token
    exact ⟨x, hx, hname, amountOf_of_le hgood.nonneg (by omega) hsym.symm,
      amountOf_of_le hready.nonneg hready.le hwithdraw⟩

/-- What `create_token` and `issue_token` multiply in plain `int64_t`, where they come to it: the supply and the cap
in millionths.  Every other sum and difference is one of `fc::safe`, which is computed only when it fits. -/
def plainProducts (s : TokenIndices) : TokenOperation → List ℤ
  | .createToken op =>
    (precision (makeSymbol (toUpper op.symbolName))).toOption.toList.map fun unit => op.initSupplyAmount * unit
  | .issueToken op =>
    match s.tokens.find? fun t => t.name == op.name with
    | .some r =>
      if r.2.symbol = op.reissueAmount.symbol then
        (precision op.reissueAmount.symbol).toOption.toList.map fun unit => tokenMax * unit
      else []
    | .none => []
  | _ => []

theorem plainProducts_inInt64 {fc : TextRules} {s : TokenIndices} {op : TokenOperation}
    (hgood : ∀ x ∈ s.tokens.values, GoodToken x) (hvalid : ∀ c ∈ op.validate fc, c.holds = true) :
    ∀ x ∈ plainProducts s op, InInt64 x := by
  intro x hx
  cases op with
  | createToken op =>
    simp only [TokenOperation.validate, CreateTokenOperation.validate, List.forall_mem_cons, decide_eq_true_eq,
      Bool.and_eq_true] at hvalid
    obtain ⟨-, -, -, ⟨-, hlen⟩, -, hlo, hhi, -⟩ := hvalid
    have hmade := precision_makeSymbol (toUpper op.symbolName) (by simpa [toUpper] using hlen)
    simp only [plainProducts, hmade, Except.toOption, Option.toList_some, List.map_cons, List.map_nil,
      List.mem_singleton] at hx
    subst hx
    simp only [tokenMax] at hhi
    unfold InInt64 int64Min int64Max
    omega
  | issueToken op =>
    simp only [plainProducts] at hx
    split at hx
    next r hr =>
      obtain ⟨hmem, -⟩ := mem_of_find? hr
      split at hx
      next hsym =>
        rw [← hsym, (hgood r.2 (mem_values.mpr ⟨r.1, hmem⟩)).unit] at hx
        simp only [Except.toOption, Option.toList_some, List.map_cons, List.map_nil, List.mem_singleton] at hx
        subst hx
        decide
      next => cases hx
    next => cases hx
  | _ => cases hx

/-- **The range of token amounts**: in every run in which no stake is promised a negative amount, and wherever a token
operation starts inside of a block, every total is within the cap and every amount is a nonnegative `int64_t` in the
symbol of its token; and no product that `create_token` or `issue_token` computes there leaves `int64_t`. -/
theorem token_amounts_in_range (env : Env) (d : Database) (h : Reachable env (PayingStakes env) d) :
    TokensInRange d.token ∧
      ∀ node b next t, node.skip.validate = false → PayingStakes env node b d → TokenOperationStarts env node b d next t →
        TokensInRange t.token ∧ (∀ x ∈ plainProducts t.token next, InInt64 x) ∧
          ∀ u t', tokenEvaluator env.tokenInterest next t = .ok u t' → TokensInRange t'.token := by
  have hI := tokenInvariant_ranged env.tokenInterest
  have hd := hI.reachable tokenRanged_genesis (fun _ _ _ hstakes => hstakes) h
  refine ⟨tokensInRange_of_ranged hd, fun node b next t hvalidate hpaying hstarts => ?_⟩
  obtain ⟨ht, hstake, hvalid⟩ := hI.operationStarts hvalidate hpaying hd hstarts
  refine ⟨tokensInRange_of_ranged ht, plainProducts_inInt64 ht.tokens hvalid, fun u t' hrun => ?_⟩
  exact tokensInRange_of_ranged (hI.operation hvalid hstake ht hrun)

theorem token_amounts_in_range_stakingState :
    PayingStakes stakingEnv {} stakingBlock (after (applyBlock stakingEnv {} dappBlock (genesis ⟨1⟩))) ∧
      stakingState.token.tokens.rows.map (fun r => r.2.totalBalance.amount) = [5000000] ∧
      TokensInRange stakingState.token := by
  have hrun : PayingStakes stakingEnv {} dappBlock (genesis ⟨1⟩) ∧
      PayingStakes stakingEnv {} stakingBlock (after (applyBlock stakingEnv {} dappBlock (genesis ⟨1⟩))) ∧
      stakingState.token.tokens.rows.map (fun r => r.2.totalBalance.amount) = [5000000] := by
    decide +kernel
  obtain ⟨hdapp, hstaking, htotal⟩ := hrun
  exact ⟨hstaking, htotal,
    (token_amounts_in_range stakingEnv stakingState (reachable_stakingState hdapp hstaking)).1⟩

/-- The publisher burns one unit more than there are. -/
def overBurnBlock : SignedBlock :=
  wrapBlock ((secondStakesBlock saveLater).id hugeRateEnv.codec) 3 [tokenJson burnTooMuch]

def overBurnState : Database := after (applyBlock hugeRateEnv {} overBurnBlock (secondStakesState saveLater))

/-- What a negative stake leaves in the fund is paid out to other stakes, and burned. -/
theorem negative_stake_burns_below_zero :
    Reachable hugeRateEnv anyBlock overBurnState ∧ ¬ TokensInRange overBurnState.token := by
  have hrun : succeeds (applyBlock hugeRateEnv {} (firstStakesBlock saveLater) decadesState) = true ∧
      succeeds (applyBlock hugeRateEnv {} (secondStakesBlock saveLater) (firstStakesState saveLater)) = true ∧
      succeeds (applyBlock hugeRateEnv {} overBurnBlock (secondStakesState saveLater)) = true ∧
      ∃ r ∈ overBurnState.token.tokens.rows, r.2.totalBalance.amount < 0 := by
    decide +kernel
  obtain ⟨hfirst, hsecond, hburn, r, hr, hneg⟩ := hrun
  have hreach := (reachable_secondStakesState hfirst hsecond).block {} overBurnBlock rfl trivial
    (eq_ok_of_succeeds hburn)
  refine ⟨hreach, fun hrange => ?_⟩
  exact absurd (hrange.totals r.2 (mem_values.mpr ⟨r.1, hr⟩)).2.1 (not_le.mpr hneg)

end Sigmaengine
