import Sigmaengine.Ledger.Runs

/-!
# Core supply conservation

The invariants of the ledger hold at genesis, so they hold in every reachable state.  The first of
them is conservation: the supply counter is what accounts, funds and the reward fund hold.
-/

namespace Sigmaengine

open Effect Table Finsupp Ledger

/-! ## Genesis -/

theorem genesis_accounts (key : PublicKey) :
    (genesis key).core.accounts.values = ↑(genesisAccounts key initSupply) := by
  have hnames : ((genesisAccounts key initSupply).map AccountObject.name).Pairwise (· ≠ ·) := by
    simp only [genesisAccounts, List.map_cons, List.map_nil]
    decide +kernel
  have hdistinct := (List.pairwise_map.mp hnames).imp
    (S := fun a b => Clash.clash a b = false) fun h => beq_false_of_ne h
  simp only [genesis, initGenesis]
  exact values_ofList hdistinct

theorem genesis_funds (key : PublicKey) : (genesis key).core.commonFunds.values = {depositFund} :=
  values_ofList (List.pairwise_singleton _ _)

theorem genesis_bobservers (key : PublicKey) :
    (genesis key).core.bobservers.values = {{ account := initMinerName, signingKey := key }} :=
  values_ofList (List.pairwise_singleton _ _)

theorem genesis_members (key : PublicKey) :
    memberNames (genesis key).core.accounts = {minerAccount, nullAccount, tempAccount, initMinerName} := by
  ext n
  simp only [memberNames, genesis_accounts, genesisAccounts, Multiset.mem_coe, List.mem_cons,
    List.not_mem_nil, or_false, exists_eq_or_imp, exists_eq_left, Set.mem_ofPred_eq, Set.mem_insert_iff,
    Set.mem_singleton_iff, eq_comm]

theorem genesis_payees (key : PublicKey) : payeeNames (genesis key).core.bobservers = {initMinerName} := by
  have hsize : (default : AccountName).size = 0 := by decide +kernel
  ext n
  simp [payeeNames, genesis_bobservers, hsize]

/-- No genesis account holds anything. -/
theorem genesis_sum (key : PublicKey) (w : AccountObject → ℤ)
    (hw : ∀ a ∈ genesisAccounts key initSupply, w a = 0) :
    ((genesis key).core.accounts.sum fun a => single a.name (w a)) = 0 := by
  unfold Table.sum
  rw [genesis_accounts]
  refine Multiset.sum_eq_zero fun x hx => ?_
  obtain ⟨a, ha, rfl⟩ := Multiset.mem_map.mp hx
  rw [hw a (Multiset.mem_coe.mp ha), single_zero]

/-- The ledger of genesis holds nothing and promises nothing. -/
theorem genesis_ledger (key : PublicKey) :
    (genesis key).ledger =
      { members := {minerAccount, nullAccount, tempAccount, initMinerName}
        named := {initMinerName}
        producers := {initMinerName}
        producer := initMinerName
        pools := {.ofBytes depositFundName}
        balance := 0, savings := 0, pool := 0, due := 0
        reward := 0, supply := 0, fee := 0, feeVotes := ∅, schedules := 0, stakes := 0 } := by
  have hnamed : payeeNames (genesis key).core.bobservers ∪
      recoveringNames (genesis key).core.changeRecoveryAccountRequests = {initMinerName} := by
    rw [genesis_payees]
    ext n
    simp [recoveringNames, genesis, initGenesis]
  have hpools : poolNames (genesis key).core.commonFunds = {.ofBytes depositFundName} := by
    ext n
    simp [poolNames, genesis_funds, depositFund, eq_comm]
  have hzero : toInt64Bits initSupply = 0 := by decide +kernel
  have hbal := genesis_sum key AccountObject.balance (by simp [genesisAccounts, hzero])
  have hsav := genesis_sum key AccountObject.savingsBalance (by simp [genesisAccounts])
  have hpool : poolBalances (genesis key).core.commonFunds = 0 := by
    simp [poolBalances, Table.sum, genesis_funds, depositFund]
  have hdue : poolDues (genesis key).core.commonFunds = 0 := by
    simp [poolDues, Table.sum, genesis_funds, depositFund]
  have hvotes : feeVoteSet (genesis key).feeVotes = ∅ := by
    ext x
    simp [feeVoteSet, genesis, initGenesis]
  have hproducers : bobserverNames (genesis key).core.bobservers = {initMinerName} := by
    ext n
    simp [bobserverNames, genesis_bobservers, eq_comm]
  simp only [Database.ledger, Core.ledger, genesis_members, hnamed, hproducers, hpools, balances, savings, hbal, hsav,
    hpool, hdue, hvotes]
  rw [show (genesis key).core.dgp.currentSupply = 0 from hzero]
  rfl

/-! ## Reachable states -/

variable {env : Env} {d : Database} {ok : Node → SignedBlock → Database → Prop}

/-- **Invariant rule for runs**: what holds of the empty ledger and is kept by steps holds in every
reachable state. -/
theorem reachable_invariant {care : Care} {P : Ledger AccountName CommonFundName → Prop}
    (hok : ∀ node b d, ok node b d → BlockCare env care node b d)
    (hgenesis : ∀ key, P (genesis key).ledger)
    (hstep : ∀ L L', Step care nullAccount int64Max L L' → P L → P L') (h : Reachable env ok d) :
    P d.ledger := by
  obtain ⟨key, hmoves⟩ := reachable_moves hok h
  exact hmoves.preserves hstep (hgenesis key)

/-- With nothing asked, every block qualifies. -/
theorem blockCare_none (node : Node) (b : SignedBlock) (d : Database) :
    BlockCare env ⟨False, False, False⟩ node b d :=
  ⟨fun _ _ => ⟨False.elim, False.elim⟩, False.elim⟩

theorem reachable_conserved (h : Reachable env ok d) : Conserved d.ledger := by
  refine reachable_invariant (fun node b d _ => blockCare_none node b d) (fun key => ?_)
    (fun _ _ => Conserved.step) h
  rw [genesis_ledger]
  simp [Conserved]

theorem reachable_feeNonneg (h : Reachable env ok d) : FeeNonneg d.ledger := by
  refine reachable_invariant (fun node b d _ => blockCare_none node b d) (fun key => ?_)
    (fun _ _ => FeeNonneg.step) h
  rw [genesis_ledger]
  simp [FeeNonneg]

/-! ## The counters of the source -/

theorem degree_sum_single {α κ : Type} [Clash α] (t : Table α) (key : α → κ) (w : α → ℤ) :
    (t.sum fun a => single (key a) (w a)).degree = t.sum w := by
  unfold Table.sum
  rw [map_multiset_sum, Multiset.map_map]
  simp only [Function.comp_def, degree_single]

/-- Conservation as the source counts. -/
theorem conserved_iff (c : Core) (votes : Set ℤ) :
    Conserved (c.ledger votes) ↔
      c.dgp.currentSupply = c.accounts.sum (fun a => a.balance + a.savingsBalance) +
        c.commonFunds.sum (fun f => f.fundBalance) + c.dappRewardFund.fundBalance := by
  have hsplit : c.accounts.sum (fun a => a.balance + a.savingsBalance) =
      c.accounts.sum (fun a => a.balance) + c.accounts.sum (fun a => a.savingsBalance) :=
    Multiset.sum_map_add
  simp only [Conserved, Core.ledger, balances, savings, poolBalances, degree_sum_single, hsplit]

/-! ## The reward fund at the end of a block -/

/-- The reward fund is untouched. -/
def SameReward (c c' : Core) : Prop := c'.dappRewardFund = c.dappRewardFund

instance : Std.Refl SameReward := ⟨fun _ => rfl⟩

instance : IsTrans Core SameReward := ⟨fun _ _ _ h h' => h'.trans h⟩

theorem sameReward_within {α τ : Type} {l : Part Core τ} (h : ∀ t s, SameReward s (l.set t s))
    (m : Prog Error τ α) : Runs SameReward (within l m) :=
  (always_within h m).runs

theorem sameReward_paySavings (r : Nat × AccountObject) (amount : ℤ) :
    Runs SameReward (paySavings r amount) := by
  refine runs_bind (readOnly_assert _ _).always.runs fun _ => ?_
  refine runs_bind (sameReward_within (l := Index.accounts) (fun _ _ => rfl) _) fun _ => ?_
  refine runs_bind (readOnly_checked _).always.runs fun _ => ?_
  exact sameReward_within (l := Index.accounts) (fun _ _ => rfl) _

theorem sameReward_payFinal (id : Nat) (w : SavingsWithdrawObject) : Runs SameReward (payFinal id w) := by
  refine runs_bind (readOnly_getAccount _).always.runs fun q => ?_
  refine runs_bind (sameReward_paySavings _ _) fun _ => ?_
  refine runs_bind (sameReward_within (l := Index.savingsWithdraws) (fun _ _ => rfl) _) fun _ => ?_
  exact readOnly_firstSavingsWithdraw.always.runs

theorem sameReward_payInstalment (id : Nat) (w : SavingsWithdrawObject) :
    Runs SameReward (payInstalment id w) := by
  refine runs_bind (readOnly_getAccount _).always.runs fun q => ?_
  refine runs_bind (readOnly_checked _).always.runs fun monthly => ?_
  refine runs_bind (sameReward_paySavings _ _) fun _ => ?_
  refine runs_bind (sameReward_within (l := Index.savingsWithdraws) (fun _ _ => rfl) _) fun _ => ?_
  refine runs_bind readOnly_firstSavingsWithdraw.always.runs fun next => ?_
  refine runs_bind (readOnly_checked _).always.runs fun rest => ?_
  exact runs_bind (sameReward_within (l := Index.savingsWithdraws) (fun _ _ => rfl) _) fun _ => runs_pure _

theorem sameReward_processSavingsWithdraw (id : Nat) : Runs SameReward (processSavingsWithdraw id) := by
  refine runs_bind readOnly_get.always.runs fun s => runs_bind (readOnly_ofOption _ _).always.runs fun w => ?_
  split
  · exact runs_pure _
  split
  · exact sameReward_payFinal _ _
  · exact sameReward_payInstalment _ _

theorem sameReward_adjustFund (name : Bytes) (f : CommonFundObject → Except Error CommonFundObject) :
    Runs SameReward (getCommonFund name >>= fun fund => modifyIn Index.commonFunds fund.1 f) := by
  refine runs_bind (readOnly_getIn _).always.runs fun fund => ?_
  exact sameReward_within (l := Index.commonFunds) (fun _ _ => rfl) _

theorem sameReward_processFundWithdraw : Runs SameReward processFundWithdraw := by
  refine runs_bind readOnly_get.always.runs fun s => ?_
  cases s.fundWithdraws.least? FundWithdrawObject.before with
  | none => exact runs_pure _
  | some r =>
    dsimp only
    split
    · exact runs_pure _
    refine runs_bind (readOnly_getIn _).always.runs fun fund => ?_
    split
    · exact runs_pure _
    refine runs_bind ?_ fun _ => runs_pure _
    refine runs_bind (readOnly_getAccount _).always.runs fun q => ?_
    refine runs_bind (sameReward_within (l := Index.accounts) (fun _ _ => rfl) _) fun _ => ?_
    refine runs_bind (readOnly_checked _).always.runs fun δ => ?_
    refine runs_bind (sameReward_adjustFund _ _) fun _ => runs_bind (sameReward_adjustFund _ _) fun _ => ?_
    exact sameReward_within (l := Index.fundWithdraws) (fun _ _ => rfl) _

theorem sameReward_applyRecoveryChange : Runs SameReward applyRecoveryChange := by
  refine runs_bind readOnly_get.always.runs fun s => ?_
  cases s.changeRecoveryAccountRequests.least? ChangeRecoveryAccountRequestObject.before with
  | none => exact runs_pure _
  | some r =>
    dsimp only
    split
    · refine runs_bind (readOnly_getAccount _).always.runs fun a => ?_
      refine runs_bind (sameReward_within (l := Index.accounts) (fun _ _ => rfl) _) fun _ => ?_
      exact runs_bind (sameReward_within (l := Index.changeRecoveryAccountRequests) (fun _ _ => rfl) _)
        fun _ => runs_pure _
    · exact runs_pure _

theorem Same.reward {c c' : Core} (h : Same c c') :
    c'.dappRewardFund.fundBalance = c.dappRewardFund.fundBalance :=
  congrArg Ledger.reward (h ∅)

/-- The rest of the routines leave the balance of the reward fund alone. -/
theorem processFunds_rest {c c' : Core} {u : Unit}
    (h : (do processSavingsWithdraws; processFundWithdraws; accountRecoveryProcessing) c = .ok u c') :
    c'.dappRewardFund.fundBalance = c.dappRewardFund.fundBalance := by
  simp only [bind_eq_ok, processSavingsWithdraws, processFundWithdraws, accountRecoveryProcessing,
    get_eq_ok] at h
  obtain ⟨_, c₁, ⟨_, _, ⟨rfl, rfl⟩, first, _, hfirst, hsav⟩, _, c₂, ⟨_, _, ⟨rfl, rfl⟩, hfund⟩, _, _, ⟨rfl, rfl⟩, _, c₃, hreq, _,
    c₄, hhist, hrec⟩ := h
  obtain rfl := readOnly_firstSavingsWithdraw.eq_of_ok hfirst
  have h₁ := runs_follow sameReward_processSavingsWithdraw _ _ _ _ _ hsav
  have h₂ := runs_loop sameReward_processFundWithdraw _ _ _ _ hfund
  have h₅ := runs_loop sameReward_applyRecoveryChange _ _ _ _ hrec
  rw [h₅, (runs_loop same_clearOwnerHistory _ _ _ _ hhist).reward,
    (runs_loop same_clearRecoveryRequest _ _ _ _ hreq).reward, h₂, h₁]

theorem notifyAppliedBlock_reward {d d' : Database} {u : Unit} (h : notifyAppliedBlock env d = .ok u d') :
    d'.core.dappRewardFund = d.core.dappRewardFund := by
  let R : Database → Database → Prop := fun d d' => SameReward d.core d'.core
  have : Std.Refl R := ⟨fun _ => rfl⟩
  have : IsTrans Database R := ⟨fun _ _ _ h h' => Eq.trans h' h⟩
  have hdapp : ∀ {α : Type} (m : Dapp.DappM α), Always R (onDapp m) :=
    fun m => always_within (fun _ _ => rfl) m
  have htoken : ∀ (m : Token.CoreView → Token.TokenM Unit), Always R (Token.withView m) :=
    fun m => always_bind readOnly_get.always fun _ => always_within (fun _ _ => rfl) _
  refine runs_attempt (R := R) (always_each (fun p => ?_) env.plugins) _ _ _ h
  cases p with
  | token => exact always_bind (htoken _) fun _ => htoken _
  | dapp =>
    refine always_bind readOnly_get.always fun s => ?_
    dsimp only
    split
    · refine always_bind (hdapp _) fun _ => always_bind ?_ fun _ => fun d => rfl
      exact Dapp.always_aggregateTrxFeeVote (fun _ _ => rfl) _
    · exact always_pure _

/-- The reward fund when the per-block routines start is not in debt. -/
theorem reward_nonneg_at_postProcess {node : Node} {b : SignedBlock} {d₁ : Database} {c₁ c₂ : Core}
    {u u₁ u₂ : Unit} (h : Reachable env ok d) (hvalidate : node.skip.validate = false)
    (hhead : applyBlockHead env node b d = .ok u d₁) (hprep : prepareBlock env b d₁.core = .ok u₁ c₁)
    (hnull : clearNullAccountBalance c₁ = .ok u₂ c₂) : 0 ≤ c₂.dappRewardFund.fundBalance := by
  have hsim : Moves ⟨False, False, False⟩ nullAccount int64Max d.ledger (c₂.ledger (feeVoteSet d₁.feeVotes)) :=
    (dbSim_applyBlockHead hvalidate (blockCare_none node b d).1 hhead).trans <|
      (same_prepareBlock env b _ _ _ hprep).sim.trans (sim_clearNullAccountBalance False.elim hnull)
  exact (hsim.preserves (fun _ _ => FeeNonneg.step) (reachable_feeNonneg h)).2.1

/-- No reachable state has anything in the reward fund: `process_funds` pays it out in every block. -/
theorem reachable_reward (h : Reachable env ok d) : d.core.dappRewardFund.fundBalance = 0 := by
  cases h with
  | genesis key => rfl
  | block node b h hvalidate hok happly =>
    obtain ⟨_, d₁, hhead, htail⟩ := bind_eq_ok.mp happly
    obtain ⟨_, d₂, hcore, hnotify⟩ := bind_eq_ok.mp htail
    obtain ⟨c, hc, rfl⟩ := within_eq_ok.mp hcore
    simp only [bind_eq_ok, postProcess] at hc
    obtain ⟨_, c₁, hprep, _, c₂, ⟨_, c₃, hnull, _, c₄, hfunds, hrest⟩, hhard⟩ := hc
    rw [notifyAppliedBlock_reward hnotify]
    change c.dappRewardFund.fundBalance = 0
    rw [(same_processHardforks _ _ _ hhard).reward]
    have hrest' := processFunds_rest (by simpa only [bind_eq_ok] using hrest)
    rw [hrest']
    exact processFunds_reward hfunds (reward_nonneg_at_postProcess h hvalidate hhead hprep hnull)

/-! ## The audit -/

theorem safeAdd_eq_error {a b : ℤ} {e : Error} (h : safeAdd a b = .error e) :
    e = .overflow ∨ e = .underflow := by
  unfold safeAdd at h
  split at h
  · cases h
    exact .inl rfl
  · split at h
    · cases h
      exact .inr rfl
    · cases h

/-- A checked sum over a list returns the sum or an arithmetic error. -/
theorem foldl_checked {α : Type} {f : ℤ → α → Except Error ℤ} {w : α → ℤ}
    (hok : ∀ n a m, f n a = .ok m → m = n + w a)
    (herr : ∀ n a e, f n a = .error e → e = .overflow ∨ e = .underflow) (as : List α) (n : ℤ) :
    (∀ m, as.foldl (fun acc a => acc >>= fun n => f n a) (.ok n) = .ok m → m = n + (as.map w).sum) ∧
      ∀ e, as.foldl (fun acc a => acc >>= fun n => f n a) (.ok n) = .error e →
        e = .overflow ∨ e = .underflow := by
  have herror : ∀ (as : List α) (e : Error),
      as.foldl (fun acc a => acc >>= fun n => f n a) (.error e) = .error e := by
    intro as e
    induction as with
    | nil => rfl
    | cons a as ih => exact ih
  induction as generalizing n with
  | nil =>
    refine ⟨fun m h => ?_, fun e h => by cases h⟩
    cases h
    simp
  | cons a as ih =>
    rw [List.foldl_cons, show ((.ok n : Except Error ℤ) >>= fun n => f n a) = f n a from rfl]
    cases hf : f n a with
    | error e =>
      rw [herror]
      refine ⟨fun m h => (by cases h), fun e' h => ?_⟩
      cases h
      exact herr n a e hf
    | ok m =>
      refine ⟨fun k h => ?_, (ih m).2⟩
      rw [(ih m).1 k h, hok n a m hf, List.map_cons, List.sum_cons]
      omega

theorem sum_eq_rows_sum {α : Type} [Clash α] (t : Table α) (w : α → ℤ) :
    t.sum w = (t.rows.map fun r => w r.2).sum := by
  simp [Table.sum, values, Function.comp_def]

theorem getTotalSupply_spec (c : Core) :
    (∀ total, getTotalSupply c = .ok total →
      total = c.accounts.sum (fun a => a.balance + a.savingsBalance) +
        c.commonFunds.sum (fun f => f.fundBalance)) ∧
      ∀ e, getTotalSupply c = .error e → e = .overflow ∨ e = .underflow := by
  have hacc := foldl_checked (f := fun n (r : Nat × AccountObject) => do
      let n ← safeAdd n r.2.balance
      safeAdd n r.2.savingsBalance) (w := fun r => r.2.balance + r.2.savingsBalance)
    (fun n r m h => ?_) (fun n r e h => ?_) c.accounts.rows 0
  · have hfund := foldl_checked (f := fun n (r : Nat × CommonFundObject) => safeAdd n r.2.fundBalance)
      (w := fun r => r.2.fundBalance) (fun n r m h => safeAdd_eq_ok h) (fun n r e h => safeAdd_eq_error h)
      c.commonFunds.rows
    unfold getTotalSupply
    rw [sum_eq_rows_sum, sum_eq_rows_sum]
    cases hA : c.accounts.rows.foldl (fun acc r => do
        let n ← acc
        let n ← safeAdd n r.2.balance
        safeAdd n r.2.savingsBalance) (.ok 0) with
    | error e =>
      refine ⟨fun total h => (by cases h), fun e' h => ?_⟩
      cases h
      exact hacc.2 _ hA
    | ok n =>
      refine ⟨fun total h => ?_, (hfund n).2⟩
      rw [(hfund n).1 total h, hacc.1 n hA, zero_add]
  · cases hb : safeAdd n r.2.balance with
    | error e => rw [hb] at h; cases h
    | ok k =>
      rw [hb] at h
      rw [safeAdd_eq_ok (show safeAdd k r.2.savingsBalance = .ok m from h), safeAdd_eq_ok hb]
      omega
  · cases hb : safeAdd n r.2.balance with
    | error e' =>
      rw [hb] at h
      cases h
      exact safeAdd_eq_error hb
    | ok k =>
      rw [hb] at h
      exact safeAdd_eq_error h

/-- **Core supply conservation.**  In every reachable state the supply counter is what accounts, funds
and the reward fund hold; `process_funds` empties the reward fund in every block; and the assertion of
`validate_invariants` never fires. -/
theorem supply_conserved (env : Env) (d : Database) (h : Reachable env anyBlock d) :
    (d.core.dgp.currentSupply = d.core.accounts.sum (fun a => a.balance + a.savingsBalance) +
      d.core.commonFunds.sum (fun f => f.fundBalance) + d.core.dappRewardFund.fundBalance) ∧
    (∀ node b d₁ c₁ c₂ c₃, node.skip.validate = false → applyBlockHead env node b d = .ok () d₁ →
      prepareBlock env b d₁.core = .ok () c₁ → clearNullAccountBalance c₁ = .ok () c₂ →
      processFunds c₂ = .ok () c₃ → c₃.dappRewardFund.fundBalance = 0) ∧
    d.core.dappRewardFund.fundBalance = 0 ∧
    ∀ e c, validateInvariants d.core = .error e c → e ≠ .assertion "gpo.current_supply == total_supply" := by
  have hcons := (conserved_iff d.core (feeVoteSet d.feeVotes)).mp (reachable_conserved h)
  have hreward := reachable_reward h
  refine ⟨hcons, ?_, hreward, ?_⟩
  · intro node b d₁ c₁ c₂ c₃ hvalidate hhead hprep hnull hfunds
    exact processFunds_reward hfunds (reward_nonneg_at_postProcess h hvalidate hhead hprep hnull)
  · intro e c hm
    obtain ⟨htotal, herror⟩ := getTotalSupply_spec d.core
    unfold validateInvariants at hm
    rw [bind_of_ok (get_apply d.core)] at hm
    cases hsum : getTotalSupply d.core with
    | error e' =>
      rw [hsum, bind_of_error (show checked (.error e') d.core = .error e' d.core from rfl)] at hm
      cases hm
      rcases herror e hsum with rfl | rfl <;> simp
    | ok total =>
      -- the audit's sum leaves the reward fund out, which is empty
      have heq : d.core.dgp.currentSupply = total := by rw [hcons, hreward, htotal total hsum, add_zero]
      rw [hsum, bind_of_ok (show checked (.ok total) d.core = .ok total d.core from rfl)] at hm
      simp only [heq, beq_self_eq_true] at hm
      cases hm

/-- After printing, burning and saving, what is left of the supply is in the savings. -/
theorem supply_conserved_moneyBlock :
    (sampleAfter moneyBlock (genesis ⟨1⟩)).core.dgp.currentSupply = 7 ∧
    (sampleAfter moneyBlock (genesis ⟨1⟩)).core.dgp.currentSupply =
      (sampleAfter moneyBlock (genesis ⟨1⟩)).core.accounts.sum (fun a => a.balance + a.savingsBalance) +
        (sampleAfter moneyBlock (genesis ⟨1⟩)).core.commonFunds.sum (fun f => f.fundBalance) +
        (sampleAfter moneyBlock (genesis ⟨1⟩)).core.dappRewardFund.fundBalance := by
  refine ⟨by decide +kernel, (supply_conserved sampleEnv _ ?_).1⟩
  exact reachable_sampleAfter (.genesis _) trivial (by decide +kernel)

end Sigmaengine
