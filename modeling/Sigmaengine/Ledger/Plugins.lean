import Sigmaengine.Ledger.Routines

/-!
# The plugins refine the ledger

Plugin code touches the core in three ways: it charges the dapp fee, it stamps the author of a post,
and the votes of the block producers set the fee.  Everything else is `Quiet`.
-/

namespace Sigmaengine

open Effect Table Finsupp Ledger

/-- The ledger stays, and accounts keep their ids. -/
def Quiet (d d' : Database) : Prop :=
  d'.ledger = d.ledger ∧ ∀ id n, NameAt d.core.accounts id n → NameAt d'.core.accounts id n

instance : Std.Refl Quiet := ⟨fun _ => ⟨rfl, fun _ _ h => h⟩⟩

instance : IsTrans Database Quiet :=
  ⟨fun _ _ _ h h' => ⟨h'.1.trans h.1, fun id n hn => h'.2 id n (h.2 id n hn)⟩⟩

variable (care : Care)

/-- The second database is reached from the first by ledger steps. -/
def DbSim (d d' : Database) : Prop := Moves care nullAccount int64Max d.ledger d'.ledger

instance : Std.Refl (DbSim care) := ⟨fun _ => Moves.refl _⟩

instance : IsTrans Database (DbSim care) := ⟨fun _ _ _ => Moves.trans⟩

variable {care} {α : Type}

theorem Quiet.dbSim {d d' : Database} (h : Quiet d d') : DbSim care d d' := by
  unfold DbSim
  rw [h.1]
  exact Moves.refl _

theorem dbSim_of_quiet {m : ChainM α} (h : Runs Quiet m) : Runs (DbSim care) m :=
  fun d a d' hm => (h d a d' hm).dbSim

/-- A core program that refines the ledger does so in the whole database. -/
theorem dbSim_onCore {m : CoreM α} {d d' : Database} {a : α}
    (h : ∀ c', m d.core = .ok a c' → Sim care (feeVoteSet d.feeVotes) d.core c')
    (hm : onCore m d = .ok a d') : DbSim care d d' := by
  obtain ⟨c', hc, rfl⟩ := within_eq_ok.mp hm
  exact h c' hc

/-! ## Quiet programs -/

theorem quiet_onDapp (m : Prog Error Dapp.DappIndices α) : Always Quiet (onDapp m) :=
  always_within (fun _ _ => ⟨rfl, fun _ _ h => h⟩) m

theorem quiet_onToken (m : Prog Error Token.TokenIndices α) : Always Quiet (onToken m) :=
  always_within (fun _ _ => ⟨rfl, fun _ _ h => h⟩) m

theorem quiet_withView (m : Token.CoreView → Token.TokenM α) : Always Quiet (Token.withView m) :=
  always_bind readOnly_get.always fun _ => quiet_onToken _

theorem quiet_readCore {m : CoreM α} (h : ReadOnly m) : Runs Quiet (onCore m) :=
  (readOnly_within (l := corePart) h).always.runs

theorem quiet_assert (c : Bool) (text : String) : Runs Quiet (fcAssert c text : ChainM Unit) :=
  (readOnly_assert c (Error.assertion text)).always.runs

theorem quiet_ofOption (o : Option α) (e : Error) : Runs Quiet (ofOption o e : ChainM α) :=
  (readOnly_ofOption o e).always.runs

theorem quiet_checked (x : Except Error α) : Runs Quiet (checked x : ChainM α) :=
  (readOnly_checked x).always.runs

/-- Stamping an author changes nothing a ledger shows. -/
theorem quiet_touchPost (author : Nat × AccountObject) (isRoot : Bool) (now : TimePointSec) :
    Runs Quiet (onCore (Dapp.touchPost author isRoot now)) := by
  intro d u d' hm
  obtain ⟨c, hc, rfl⟩ := within_eq_ok.mp hm
  simp only [Dapp.touchPost, bind_eq_ok, fcAssert_eq_ok] at hc
  obtain ⟨_, _, ⟨-, rfl⟩, _, _, ⟨-, rfl⟩, hmod⟩ := hc
  have hsame := same_modifyAccount author.1 (by rintro a _ ⟨⟩; exact ⟨rfl, rfl, rfl⟩) _ _ _ hmod
  obtain ⟨a, b, t, -, -, rfl, hmove⟩ := modifyAccount_eq_ok hmod (by rintro a _ ⟨⟩; rfl)
  exact ⟨hsame _, hmove.nameAt⟩

/-! ## The fee -/

theorem checkDappFee_eq_ok {payer : AccountName} {fee : Nat × Int} {c c' : Core}
    (h : checkDappFee payer c = .ok fee c') :
    c' = c ∧ NameAt c.accounts fee.1 payer ∧ fee.2 = c.dgp.dappTransactionFee ∧
      fee.2 ≤ balances c.accounts payer := by
  simp only [checkDappFee, bind_eq_ok, get_eq_ok, fcAssert_eq_ok, pure_eq_ok] at h
  obtain ⟨_, _, ⟨rfl, rfl⟩, r, _, hget, _, _, ⟨henough, rfl⟩, rfl, rfl⟩ := h
  obtain ⟨rfl, hfound⟩ := getAccount_eq_ok hget
  exact ⟨rfl, hfound.nameAt, rfl, (of_decide_eq_true henough).trans hfound.balance.ge⟩

theorem sim_payDappFee {votes : Set ℤ} {payer : AccountName} {fee : Nat × Int} {c c' : Core} {u : Unit}
    (hn : NameAt c.accounts fee.1 payer) (hfee : fee.2 = c.dgp.dappTransactionFee)
    (henough : fee.2 ≤ balances c.accounts payer) (h : payDappFee fee c = .ok u c') :
    Sim care votes c c' := by
  simp only [payDappFee, bind_eq_ok, checked_eq_ok] at h
  obtain ⟨δ, _, ⟨hneg, rfl⟩, _, _, hdebit, hreward⟩ := h
  obtain ⟨hδ, -⟩ := neg_sgt_eq_ok hneg
  obtain ⟨t, rfl, -, hmove⟩ := adjustBalance_eq_ok hdebit hn
  obtain rfl := adjustDappRewardFundBalance_eq_ok hreward
  rw [hfee] at henough hδ
  refine sim_of_step (Step.charge _ payer henough) ?_
  simp only [Core.ledger, hmove.balance, hmove.savings, hmove.members, hδ, hfee, sgt, single_neg,
    add_zero, ← sub_eq_add_neg]

/-- **The fee**: between the check and the payment nothing moves, so the payment is covered. -/
theorem dbSim_withDappFee {payer : AccountName} {m : ChainM Unit} (hm : Runs Quiet m) :
    Runs (DbSim care) (withDappFee payer m) := by
  intro d u d' h
  simp only [withDappFee, bind_eq_ok] at h
  obtain ⟨fee, _, hcheck, _, t, hmid, hpay⟩ := h
  obtain ⟨c, hc, rfl⟩ := within_eq_ok.mp hcheck
  obtain ⟨rfl, hn, hfee, henough⟩ := checkDappFee_eq_ok hc
  rw [corePart.set_get] at hmid
  obtain ⟨hsame, hnames⟩ := hm _ _ _ hmid
  have hfee' : t.core.dgp.dappTransactionFee = d.core.dgp.dappTransactionFee :=
    congrArg Ledger.fee hsame
  have hbal : balances t.core.accounts = balances d.core.accounts := congrArg Ledger.balance hsame
  refine Moves.trans (hm _ _ _ hmid).dbSim (dbSim_onCore (fun c' hc' => ?_) hpay)
  exact sim_payDappFee (hnames _ _ hn) (hfee.trans hfee'.symm) (henough.trans (by rw [hbal]; rfl)) hc'

/-! ## Dapp operations -/

theorem dbSim_createDapp (op : Dapp.DappKeyOperation) : Runs (DbSim care) (Dapp.createDappEvaluator op) := by
  refine dbSim_of_quiet ?_
  refine runs_bind (quiet_readCore readOnly_headBlockTime) fun now => ?_
  refine runs_bind (quiet_readCore (readOnly_findIn _)) fun owner => ?_
  refine runs_bind (quiet_ofOption _ _) fun owner => runs_bind (quiet_ofOption _ _) fun key => ?_
  exact (quiet_onDapp _).runs

theorem dbSim_updateDappKey (op : Dapp.DappKeyOperation) :
    Runs (DbSim care) (Dapp.updateDappKeyEvaluator op) := by
  refine runs_bind (dbSim_of_quiet (quiet_onDapp _).runs) fun dapp => ?_
  refine runs_bind (dbSim_of_quiet (quiet_assert _ _)) fun _ => dbSim_withDappFee ?_
  exact runs_bind (quiet_ofOption _ _) fun key => (quiet_onDapp _).runs

theorem dbSim_joinDapp (op : Dapp.MemberOperation) : Runs (DbSim care) (Dapp.joinDappEvaluator op) := by
  refine runs_bind (dbSim_of_quiet (quiet_readCore readOnly_headBlockTime)) fun now => ?_
  refine runs_bind (dbSim_of_quiet (quiet_readCore (readOnly_findIn _))) fun account => ?_
  refine runs_bind (dbSim_of_quiet (quiet_ofOption _ _)) fun account => ?_
  refine runs_bind (dbSim_of_quiet (quiet_onDapp _).runs) fun dapp => ?_
  refine runs_bind (dbSim_of_quiet (quiet_onDapp _).runs) fun _ => ?_
  exact dbSim_withDappFee (quiet_onDapp _).runs

theorem dbSim_leaveDapp (op : Dapp.MemberOperation) : Runs (DbSim care) (Dapp.leaveDappEvaluator op) := by
  refine runs_bind (dbSim_of_quiet (quiet_readCore (readOnly_findIn _))) fun account => ?_
  refine runs_bind (dbSim_of_quiet (quiet_assert _ _)) fun _ => ?_
  refine runs_bind (dbSim_of_quiet (quiet_onDapp _).runs) fun dapp => ?_
  exact dbSim_withDappFee (quiet_onDapp _).runs

theorem quiet_writeComment (op : Dapp.CommentDappOperation) (now : TimePointSec)
    (author : Nat × AccountObject) (parent existing : Option (Nat × Dapp.DappCommentObject)) :
    Runs Quiet (Dapp.writeComment op now author parent existing) := by
  cases existing with
  | none =>
    refine runs_bind (quiet_onDapp _).runs fun _ => runs_bind (quiet_touchPost _ _ _) fun _ => ?_
    exact (quiet_onDapp _).runs
  | some c => exact (quiet_onDapp _).runs

theorem dbSim_commentDapp (fc : TextRules) (op : Dapp.CommentDappOperation) :
    Runs (DbSim care) (Dapp.commentDappEvaluator fc op) := by
  refine runs_bind (dbSim_of_quiet (quiet_onDapp _).runs) fun dapp => ?_
  refine runs_bind (dbSim_of_quiet (quiet_onDapp _).runs) fun _ => ?_
  refine runs_bind (dbSim_of_quiet (quiet_onDapp _).runs) fun _ => dbSim_withDappFee ?_
  refine runs_bind (quiet_assert _ _) fun _ => runs_bind (quiet_onDapp _).runs fun existing => ?_
  refine runs_bind (quiet_readCore (readOnly_getAccount _)) fun author => ?_
  refine runs_bind (quiet_onDapp _).runs fun parent => runs_bind (quiet_assert _ _) fun _ => ?_
  exact runs_bind (quiet_readCore readOnly_headBlockTime) fun now => quiet_writeComment _ _ _ _ _

theorem dbSim_commentVoteDapp (op : Dapp.CommentVoteDappOperation) :
    Runs (DbSim care) (Dapp.commentVoteDappEvaluator op) := by
  refine runs_bind (dbSim_of_quiet (quiet_onDapp _).runs) fun dapp => ?_
  refine runs_bind (dbSim_of_quiet (quiet_onDapp _).runs) fun _ => dbSim_withDappFee ?_
  refine runs_bind (quiet_onDapp _).runs fun comment => ?_
  refine runs_bind (quiet_readCore (readOnly_getAccount _)) fun voter => ?_
  refine runs_bind (quiet_readCore readOnly_headBlockTime) fun now => ?_
  refine runs_bind (quiet_assert _ _) fun _ => runs_bind (quiet_ofOption _ _) fun type => ?_
  exact (quiet_onDapp _).runs

theorem dbSim_deleteCommentDapp (op : Dapp.DeleteCommentDappOperation) :
    Runs (DbSim care) (Dapp.deleteCommentDappEvaluator op) := by
  refine runs_bind (dbSim_of_quiet (quiet_onDapp _).runs) fun found => ?_
  refine runs_bind (dbSim_of_quiet (quiet_ofOption _ _)) fun comment => ?_
  refine runs_bind (dbSim_of_quiet (quiet_assert _ _)) fun _ => ?_
  refine runs_bind (dbSim_of_quiet (quiet_onDapp _).runs) fun dapp => dbSim_withDappFee ?_
  exact runs_bind (quiet_readCore readOnly_headBlockTime) fun now => (quiet_onDapp _).runs

theorem readOnly_requireBproducer (voter : AccountName) : ReadOnly (Dapp.requireBproducer voter) :=
  (readOnly_findIn _).bind fun _ => readOnly_assert _ _

theorem dbSim_voteDapp (op : Dapp.VoteDappOperation) : Runs (DbSim care) (Dapp.voteDappEvaluator op) := by
  refine dbSim_of_quiet ?_
  refine runs_bind (quiet_readCore (readOnly_requireBproducer _)) fun _ => ?_
  refine runs_bind (quiet_readCore readOnly_headBlockTime) fun now => ?_
  exact runs_bind (quiet_ofOption _ _) fun vote => (quiet_onDapp _).runs

/-- New votes that were there before or are not negative. -/
theorem dbSim_vote {d : Database} {t : Table Dapp.DappTrxFeeVoteObject}
    (h : ∀ v ∈ t.values, v ∈ d.feeVotes.values ∨ 0 ≤ v.trxFee) :
    DbSim care d { d with feeVotes := t } := by
  refine (Step.vote _ (feeVoteSet t) ?_).moves
  rintro x ⟨v, hv, rfl⟩
  rcases h v hv with hold | hnew
  · exact .inl ⟨v, hold, rfl⟩
  · exact .inr hnew

theorem dbSim_voteDappTrxFee (op : Dapp.VoteDappTrxFeeOperation) (hpos : 0 ≤ op.trxFee.amount) :
    Runs (DbSim care) (Dapp.voteDappTrxFeeEvaluator op) := by
  refine runs_bind (dbSim_of_quiet (quiet_readCore (readOnly_requireBproducer _))) fun _ => ?_
  refine runs_bind (dbSim_of_quiet (quiet_readCore readOnly_headBlockTime)) fun now => ?_
  refine runs_bind (readOnly_findIn _).always.runs fun found => ?_
  cases found with
  | none =>
    intro d u d' h
    simp only [bind_eq_ok, createIn_eq_ok, pure_eq_ok] at h
    obtain ⟨id, _, ⟨hc, -, rfl⟩, -, rfl⟩ := h
    refine dbSim_vote fun v hv => ?_
    rw [values_insert, Multiset.mem_cons] at hv
    rcases hv with rfl | hv
    · exact .inr hpos
    · exact .inl hv
  | some r =>
    intro d u d' h
    obtain ⟨a, b, hc, ha, hf, rfl⟩ := modifyIn_eq_ok.mp h
    cases hf
    refine dbSim_vote fun v hv => ?_
    rw [values_replace ha, Multiset.mem_cons] at hv
    rcases hv with rfl | hv
    · exact .inr hpos
    · exact .inl (by
        rw [show d.feeVotes.values = _ from (cons_values_erase ha).symm]
        exact Multiset.mem_cons_of_mem hv)

theorem dbSim_dappEvaluator (fc : TextRules) (op : Dapp.DappOperation)
    (hvalid : ∀ c ∈ op.validate fc, c.holds = true) : Runs (DbSim care) (Dapp.dappEvaluator fc op) := by
  cases op with
  | createDapp op => exact dbSim_createDapp op
  | updateDappKey op => exact dbSim_updateDappKey op
  | commentDapp op => exact dbSim_commentDapp fc op
  | commentVoteDapp op => exact dbSim_commentVoteDapp op
  | deleteCommentDapp op => exact dbSim_deleteCommentDapp op
  | joinDapp op => exact dbSim_joinDapp op
  | leaveDapp op => exact dbSim_leaveDapp op
  | voteDapp op => exact dbSim_voteDapp op
  | voteDappTrxFee op =>
    refine dbSim_voteDappTrxFee op ?_
    have := hvalid _ (List.mem_cons_of_mem _ List.mem_cons_self)
    exact of_decide_eq_true this

/-! ## Token operations -/

theorem dbSim_tokenEvaluator (interest : Token.TokenInterest) (op : Token.TokenOperation) :
    Runs (DbSim care) (Token.tokenEvaluator interest op) := by
  -- every evaluator reads, asserts and then charges the fee around code of the token part
  have htoken : ∀ {β : Type} (m : Token.TokenM β), Runs (DbSim care) (onToken m) :=
    fun m => dbSim_of_quiet (quiet_onToken m).runs
  have hdapp : ∀ {β : Type} (m : Dapp.DappM β), Runs (DbSim care) (onDapp m) :=
    fun m => dbSim_of_quiet (quiet_onDapp m).runs
  have hassert : ∀ c text, Runs (DbSim care) (fcAssert c text : ChainM Unit) :=
    fun c text => dbSim_of_quiet (quiet_assert c text)
  have hfee : ∀ payer (m : Token.CoreView → Token.TokenM Unit),
      Runs (DbSim care) (withDappFee payer (Token.withView m)) :=
    fun payer m => dbSim_withDappFee (quiet_withView m).runs
  cases op with
  | createToken op =>
    refine runs_bind (hdapp _) fun dapp => runs_bind (hassert _ _) fun _ => ?_
    exact runs_bind (hassert _ _) fun _ => runs_bind (hdapp _) fun _ => hfee _ _
  | issueToken op =>
    refine runs_bind (htoken _) fun token => runs_bind (hdapp _) fun dapp => ?_
    exact runs_bind (hassert _ _) fun _ => runs_bind (hassert _ _) fun _ => hfee _ _
  | transferToken op => exact runs_bind (htoken _) fun token => hfee _ _
  | burnToken op =>
    refine runs_bind (htoken _) fun token => runs_bind (hdapp _) fun dapp => ?_
    exact runs_bind (hassert _ _) fun _ => hfee _ _
  | setupTokenFund op =>
    refine runs_bind (htoken _) fun token => runs_bind (hassert _ _) fun _ => ?_
    exact runs_bind (hassert _ _) fun _ => hfee _ _
  | setTokenStakingInterest op =>
    refine runs_bind (htoken _) fun token => runs_bind (hassert _ _) fun _ => dbSim_withDappFee ?_
    exact runs_bind (quiet_checked _) fun rate => (quiet_withView _).runs
  | transferTokenFund op =>
    exact runs_bind (htoken _) fun token => runs_bind (hassert _ _) fun _ => hfee _ _
  | stakingTokenFund op => exact runs_bind (htoken _) fun token => hfee _ _
  | transferTokenSavings op => exact runs_bind (htoken _) fun token => hfee _ _
  | cancelTransferTokenSavings op => exact runs_bind (htoken _) fun token => hfee _ _
  | concludeTransferTokenSavings op => exact runs_bind (htoken _) fun token => hfee _ _

/-! ## The applied-block handlers -/

theorem mem_of_medianFee {t : Table Dapp.DappTrxFeeVoteObject} {now : TimePointSec} {fee : Asset}
    (h : Dapp.medianFee t now = some fee) : fee.amount ∈ feeVoteSet t := by
  unfold Dapp.medianFee at h
  dsimp only at h
  split at h
  · obtain ⟨v, hv, rfl⟩ := List.mem_map.mp (Median.mem_of_upper h)
    exact ⟨v.2, mem_values.mpr ⟨v.1, List.mem_of_mem_filter hv⟩, rfl⟩
  · cases h

theorem dbSim_aggregateTrxFeeVote (now : TimePointSec) :
    Always (DbSim care) (Dapp.aggregateTrxFeeVote now) := by
  intro d
  rcases Dapp.after_aggregateTrxFeeVote now d with h | ⟨fee, hfee, h⟩
  · rw [h]
    exact Moves.refl _
  · rw [h]
    exact (Step.setFee d.ledger fee.amount (mem_of_medianFee hfee)).moves

theorem dbSim_dappOnApplyBlock : Always (DbSim care) Dapp.onApplyBlock := by
  refine always_bind readOnly_get.always fun d => ?_
  dsimp only
  split
  · refine always_bind (fun d => (quiet_onDapp _ d).dbSim) fun _ => ?_
    exact always_bind (dbSim_aggregateTrxFeeVote _) fun _ => fun d => Moves.refl _
  · exact always_pure _

theorem dbSim_tokenOnApplyBlock : Always (DbSim care) Token.onApplyBlock :=
  always_bind (fun d => (quiet_withView _ d).dbSim) fun _ => fun d => (quiet_withView _ d).dbSim

theorem dbSim_notifyAppliedBlock (env : Env) : Runs (DbSim care) (notifyAppliedBlock env) := by
  refine runs_attempt (always_each (fun p => ?_) _)
  cases p with
  | dapp => exact dbSim_dappOnApplyBlock
  | token => exact dbSim_tokenOnApplyBlock

end Sigmaengine
