import Sigmaengine.Chain.Frames
import Sigmaengine.Ledger.Plugins

/-!
# What token code leaves alone

Only creating, issuing and burning write the table of tokens, and only code of the token plugin writes
its indices at all.  Both facts hold for every outcome, exceptions included.
-/

namespace Sigmaengine.Token

open Sigmaengine Effect Table

/-! ## What each routine writes -/

section Writes

variable {R : TokenIndices → TokenIndices → Prop} [Std.Refl R] [IsTrans TokenIndices R]

/-- The relation does not look at one of the indices. -/
def Blind {τ : Type} (R : TokenIndices → TokenIndices → Prop) (l : Part TokenIndices τ) : Prop :=
  ∀ t s, R s (l.set t s)

/-- The schedules with their order. -/
def savingsPart : Part TokenIndices (Table TokenSavingsWithdrawObject × List Nat) :=
  ⟨fun s => (s.savingsWithdraws, s.bySavingsNextDate),
    fun p s => { s with savingsWithdraws := p.1, bySavingsNextDate := p.2 }, fun _ _ => rfl, fun _ => rfl⟩

theorem always_adjustSide (hb : Blind R Index.balances) (v : CoreView) (side : Side) (account : AccountName)
    (token : TokenName) (delta : Asset) : Always R (adjustSide v side account token delta) := by
  refine always_bind (readOnly_findIn _).always fun found => ?_
  refine always_bind (readOnly_assert _ _).always fun _ => ?_
  split
  · refine always_bind (readOnly_ofOption _ _).always fun b => ?_
    refine always_bind (readOnly_assert _ _).always fun _ => ?_
    refine always_bind (readOnly_checked _).always fun owed => ?_
    split
    · exact always_within hb _
    · refine always_bind (readOnly_checked _).always fun enough => ?_
      exact always_bind (readOnly_assert _ _).always fun _ => always_within hb _
  · cases found with
    | none => exact always_bind (always_within hb _) fun _ => always_pure _
    | some b => exact always_bind (readOnly_assert _ _).always fun _ => always_within hb _

theorem always_adjustTokenFundBalance (hf : Blind R Index.funds) (v : CoreView) (token : TokenName)
    (fund : FundName) (delta withdrawDelta : Asset) :
    Always R (adjustTokenFundBalance v token fund delta withdrawDelta) := by
  refine always_bind (readOnly_findIn _).always fun found => ?_
  refine always_bind (readOnly_ofOption _ _).always fun f => ?_
  refine always_bind (readOnly_assert _ _).always fun _ => ?_
  refine always_bind (readOnly_checked _).always fun enough => ?_
  refine always_bind (readOnly_assert _ _).always fun _ => ?_
  refine always_bind (readOnly_checked _).always fun enough => ?_
  exact always_bind (readOnly_assert _ _).always fun _ => always_within hf _

theorem always_openBalance (hb : Blind R Index.balances) (v : CoreView) (op : CreateTokenOperation)
    (supply : Asset) : Always R (openBalance v op supply) := by
  refine always_bind (readOnly_findIn _).always fun found => ?_
  cases found with
  | none => exact always_bind (always_within hb _) fun _ => always_pure _
  | some b => exact always_within hb _

theorem always_creditIssue (hb : Blind R Index.balances) (v : CoreView) (op : IssueTokenOperation) :
    Always R (creditIssue v op) := by
  refine always_bind (readOnly_findIn _).always fun found => ?_
  cases found with
  | none => exact always_bind (always_within hb _) fun _ => always_pure _
  | some b => exact always_within hb _

theorem always_storeToken (ht : Blind R Index.tokens) (hb : Blind R Index.balances) (v : CoreView)
    (op : CreateTokenOperation) : Always R (storeToken v op) := by
  refine always_bind (readOnly_findIn _).always fun _ => always_bind (readOnly_assert _ _).always fun _ => ?_
  refine always_bind (readOnly_findIn _).always fun _ => always_bind (readOnly_assert _ _).always fun _ => ?_
  refine always_bind (readOnly_checked _).always fun _ => always_bind (readOnly_assert _ _).always fun _ => ?_
  refine always_bind readOnly_get.always fun _ => always_bind (readOnly_checked _).always fun _ => ?_
  refine always_bind (readOnly_checked _).always fun _ => always_bind (always_within ht _) fun _ => ?_
  exact always_openBalance hb _ _ _

theorem always_issueToken (ht : Blind R Index.tokens) (hb : Blind R Index.balances) (v : CoreView)
    (op : IssueTokenOperation) (r : Nat × TokenObject) : Always R (issueToken v op r) := by
  refine always_bind (readOnly_assert _ _).always fun _ => always_bind (readOnly_checked _).always fun _ => ?_
  refine always_bind (readOnly_checked _).always fun _ => always_bind (readOnly_checked _).always fun _ => ?_
  refine always_bind (readOnly_assert _ _).always fun _ => always_bind (always_within ht _) fun _ => ?_
  exact always_creditIssue hb _ _

theorem always_transferToken (hb : Blind R Index.balances) (v : CoreView) (op : TransferTokenOperation)
    (token : TokenName) : Always R (transferToken v op token) := by
  refine always_bind (readOnly_checked _).always fun delta => ?_
  exact always_bind (always_adjustSide hb _ _ _ _ _) fun _ => always_adjustSide hb _ _ _ _ _

theorem always_burnToken (ht : Blind R Index.tokens) (hb : Blind R Index.balances) (v : CoreView)
    (op : BurnTokenOperation) (r : Nat × TokenObject) : Always R (burnToken v op r) := by
  refine always_bind (readOnly_checked _).always fun _ => ?_
  exact always_bind (always_adjustSide hb _ _ _ _ _) fun _ => always_within ht _

theorem always_setupTokenFund (hb : Blind R Index.balances) (hf : Blind R Index.funds) (v : CoreView)
    (op : SetupTokenFundOperation) (token : TokenObject) : Always R (setupTokenFund v op token) := by
  refine always_bind (readOnly_findIn _).always fun found => always_bind ?_ fun _ => ?_
  · unfold takeInitBalance
    split
    · exact always_bind (readOnly_checked _).always fun delta => always_adjustSide hb _ _ _ _ _
    · exact always_pure _
  · cases found with
    | none => exact always_bind (always_within hf _) fun _ => always_pure _
    | some f => exact always_pure _

theorem always_storeInterest (hi : Blind R Index.stakingInterests) (v : CoreView)
    (op : SetTokenStakingInterestOperation) (rate : Int) : Always R (storeInterest v op rate) := by
  refine always_bind (readOnly_findIn _).always fun found => ?_
  split
  · exact always_bind (readOnly_ofOption _ _).always fun i => always_within hi _
  · refine always_bind (readOnly_assert _ _).always fun _ => ?_
    cases found with
    | none => exact always_bind (always_within hi _) fun _ => always_pure _
    | some i => exact always_within hi _

theorem always_transferTokenFund (hb : Blind R Index.balances) (hf : Blind R Index.funds) (v : CoreView)
    (op : TransferTokenFundOperation) : Always R (transferTokenFund v op) := by
  refine always_bind (readOnly_checked _).always fun delta => ?_
  exact always_bind (always_adjustSide hb _ _ _ _ _) fun _ => always_adjustTokenFundBalance hf _ _ _ _ _

theorem always_stakeToken (hb : Blind R Index.balances) (hf : Blind R Index.funds)
    (hw : Blind R Index.fundWithdraws) (interest : TokenInterest) (v : CoreView) (op : StakingTokenFundOperation)
    (token : TokenObject) : Always R (stakeToken interest v op token) := by
  refine always_bind (readOnly_findIn _).always fun found => ?_
  refine always_bind (readOnly_assert _ _).always fun _ => ?_
  refine always_bind (readOnly_findIn _).always fun rate => ?_
  refine always_bind (readOnly_ofOption _ _).always fun rate => ?_
  refine always_bind (readOnly_checked _).always fun due => ?_
  refine always_bind (readOnly_checked _).always fun delta => ?_
  refine always_bind (always_adjustSide hb _ _ _ _ _) fun _ => ?_
  refine always_bind (always_adjustTokenFundBalance hf _ _ _ _ _) fun _ => ?_
  exact always_bind (always_within hw _) fun _ => always_pure _

omit [Std.Refl R] [IsTrans TokenIndices R] in
theorem always_savingsTable {α : Type} (hs : Blind R savingsPart)
    (m : Prog Error (Table TokenSavingsWithdrawObject) α) : Always R (within Index.savingsWithdraws m) :=
  always_within (fun t s => hs (t, s.bySavingsNextDate) s) m

omit [Std.Refl R] [IsTrans TokenIndices R] in
theorem always_reorder (hs : Blind R savingsPart) (f : TokenIndices → List Nat) :
    Always R (modify fun s => { s with bySavingsNextDate := f s } : TokenM Unit) :=
  fun s => hs (s.savingsWithdraws, f s) s

omit [Std.Refl R] in
theorem always_removeSavings (hs : Blind R savingsPart) (id : Nat) : Always R (removeSavings id) :=
  always_bind (always_savingsTable hs _) fun _ => always_reorder hs _

theorem always_transferTokenSavings (hb : Blind R Index.balances) (hs : Blind R savingsPart) (v : CoreView)
    (op : TransferTokenSavingsOperation) (token : TokenName) : Always R (transferTokenSavings v op token) := by
  refine always_bind (readOnly_assert _ _).always fun _ => ?_
  refine always_bind (readOnly_checked _).always fun delta => ?_
  refine always_bind (always_adjustSide hb _ _ _ _ _) fun _ => ?_
  refine always_bind (always_adjustSide hb _ _ _ _ _) fun _ => ?_
  exact always_bind (always_savingsTable hs _) fun _ => always_reorder hs _

theorem always_endTokenSavings (hb : Blind R Index.balances) (hs : Blind R savingsPart) (v : CoreView)
    (op : EndTokenSavingsOperation) (toSender : Bool) : Always R (endTokenSavings v op toSender) := by
  refine always_bind (readOnly_findIn _).always fun found => ?_
  refine always_bind (readOnly_ofOption _ _).always fun w => ?_
  refine always_bind (readOnly_checked _).always fun delta => ?_
  refine always_bind (always_adjustSide hb _ _ _ _ _) fun _ => ?_
  exact always_bind (always_adjustSide hb _ _ _ _ _) fun _ => always_removeSavings hs _

theorem always_processTokenFundWithdraw (hb : Blind R Index.balances) (hf : Blind R Index.funds)
    (hw : Blind R Index.fundWithdraws) (v : CoreView) : Always R (processTokenFundWithdraw v) := by
  refine always_bind readOnly_get.always fun s => always_loop ?_ _
  refine always_bind readOnly_get.always fun s => ?_
  split
  · exact always_pure _
  · split
    · exact always_pure _
    · refine always_bind (readOnly_checked _).always fun delta => ?_
      refine always_bind (always_adjustTokenFundBalance hf _ _ _ _ _) fun _ => ?_
      refine always_bind (always_adjustSide hb _ _ _ _ _) fun _ => ?_
      exact always_bind (always_within hw _) fun _ => always_pure _

theorem always_payTokenSavings (hb : Blind R Index.balances) (v : CoreView) (w : TokenSavingsWithdrawObject)
    (amount : Asset) : Always R (payTokenSavings v w amount) := by
  refine always_bind (readOnly_checked _).always fun delta => ?_
  exact always_bind (always_adjustSide hb _ _ _ _ _) fun _ => always_adjustSide hb _ _ _ _ _

theorem always_processTokenSavings (hb : Blind R Index.balances) (hs : Blind R savingsPart) (v : CoreView)
    (id : Nat) (w : TokenSavingsWithdrawObject) : Always R (processTokenSavings v id w) := by
  unfold processTokenSavings
  split
  · refine always_bind (always_payTokenSavings hb _ _ _) fun _ => ?_
    refine always_bind (always_removeSavings hs _) fun _ => ?_
    exact always_bind readOnly_get.always fun _ => always_pure _
  · refine always_bind (readOnly_checked _).always fun monthly => ?_
    refine always_bind (always_payTokenSavings hb _ _ _) fun _ => always_bind ?_ fun _ => ?_
    · exact always_bind (always_savingsTable hs _) fun _ => always_reorder hs _
    · exact always_bind readOnly_get.always fun _ => always_pure _

theorem always_processTokenSavingsFrom (hb : Blind R Index.balances) (hs : Blind R savingsPart) (v : CoreView)
    (fuel : Nat) (cursor : Option Nat) : Always R (processTokenSavingsFrom v fuel cursor) := by
  induction fuel generalizing cursor with
  | zero =>
    cases cursor with
    | none => exact always_pure _
    | some id => exact always_throw _
  | succ n ih =>
    cases cursor with
    | none => exact always_pure _
    | some id =>
      refine always_bind readOnly_get.always fun s => ?_
      refine always_bind (readOnly_ofOption _ _).always fun w => ?_
      split
      · exact always_pure _
      · exact always_bind (always_processTokenSavings hb hs _ _ _) fun next => ih next

theorem always_processTokenSavingsWithdraws (hb : Blind R Index.balances) (hs : Blind R savingsPart)
    (v : CoreView) : Always R (processTokenSavingsWithdraws v) :=
  always_bind readOnly_get.always fun _ => always_processTokenSavingsFrom hb hs _ _ _

end Writes

/-! ## The table of tokens -/

/-- The table of tokens, and with it every total balance, is the same. -/
def SameTokens (s s' : TokenIndices) : Prop := s'.tokens = s.tokens

instance : Std.Refl SameTokens := ⟨fun _ => rfl⟩

instance : IsTrans TokenIndices SameTokens := ⟨fun _ _ _ h h' => h'.trans h⟩

theorem sameTokens_balances : Blind SameTokens Index.balances := fun _ _ => rfl

theorem sameTokens_funds : Blind SameTokens Index.funds := fun _ _ => rfl

theorem sameTokens_fundWithdraws : Blind SameTokens Index.fundWithdraws := fun _ _ => rfl

theorem sameTokens_savings : Blind SameTokens savingsPart := fun _ _ => rfl

end Sigmaengine.Token

namespace Sigmaengine

open Effect Table Token

/-! ## The token indices -/

/-- A relation on the whole state that only looks at the token indices. -/
def OnTokens (R : TokenIndices → TokenIndices → Prop) (d d' : Database) : Prop := R d.token d'.token

variable {R : TokenIndices → TokenIndices → Prop} {α : Type}

instance [Std.Refl R] : Std.Refl (OnTokens R) := ⟨fun d => Std.Refl.refl d.token⟩

instance [IsTrans TokenIndices R] : IsTrans Database (OnTokens R) :=
  ⟨fun _ _ _ h h' => IsTrans.trans (r := R) _ _ _ h h'⟩

theorem onTokens_onToken {m : TokenM α} (h : Always R m) : Always (OnTokens R) (onToken m) := by
  intro d
  unfold OnTokens onToken
  rw [after_within]
  exact h d.token

section Frames

variable [Std.Refl R]

theorem onTokens_onCore (m : CoreM α) : Always (OnTokens R) (onCore m) :=
  always_within (fun _ d => Std.Refl.refl d.token) m

theorem onTokens_onDapp (m : Dapp.DappM α) : Always (OnTokens R) (onDapp m) :=
  always_within (fun _ d => Std.Refl.refl d.token) m

theorem onTokens_feeVotes (m : Prog Error (Table Dapp.DappTrxFeeVoteObject) α) :
    Always (OnTokens R) (within feeVotePart m) :=
  always_within (fun _ d => Std.Refl.refl d.token) m

variable [IsTrans TokenIndices R]

theorem onTokens_withView {m : CoreView → TokenM α} (h : ∀ v, Always R (m v)) :
    Always (OnTokens R) (withView m) :=
  always_bind readOnly_get.always fun _ => onTokens_onToken (h _)

theorem onTokens_withDappFee {payer : AccountName} {m : ChainM Unit} (h : Always (OnTokens R) m) :
    Always (OnTokens R) (withDappFee payer m) :=
  always_bind (onTokens_onCore _) fun _ => always_bind h fun _ => onTokens_onCore _

/-- **Dapp operations** never touch the token indices. -/
theorem onTokens_dappEvaluator (fc : TextRules) (op : Dapp.DappOperation) :
    Always (OnTokens R) (Dapp.dappEvaluator fc op) :=
  always_dappEvaluator fc (fun _ => onTokens_onCore _) (fun _ _ _ => onTokens_onCore _) onTokens_onDapp
    onTokens_feeVotes op

theorem onTokens_dappOnApplyBlock : Always (OnTokens R) Dapp.onApplyBlock := by
  refine always_bind readOnly_get.always fun d => ?_
  dsimp only
  split
  · refine always_bind (onTokens_onDapp _) fun _ => always_bind ?_ fun _ => onTokens_onCore _
    exact Dapp.always_aggregateTrxFeeVote (fun _ s => Std.Refl.refl s.token) _
  · exact always_pure _

end Frames

/-! ## Total balances -/

/-- Create, issue and burn. -/
def changesTotal : TokenOperation → Bool
  | .createToken _ | .issueToken _ | .burnToken _ => true
  | _ => false

/-- **Only create, issue and burn change a total balance.** -/
theorem sameTokens_tokenEvaluator (interest : TokenInterest) (op : TokenOperation)
    (hop : changesTotal op = false) : Always (OnTokens SameTokens) (tokenEvaluator interest op) := by
  have hassert : ∀ c text, Always (OnTokens SameTokens) (fcAssert c text : ChainM Unit) :=
    fun c text => (readOnly_assert c (Error.assertion text)).always
  have hname : ∀ name, Always (OnTokens SameTokens) (onToken (requireToken name)) := fun name =>
    onTokens_onToken (always_bind (readOnly_findIn _).always fun _ => (readOnly_ofOption _ _).always)
  have hsymbol : ∀ symbol, Always (OnTokens SameTokens) (onToken (requireSymbol symbol)) := fun symbol =>
    onTokens_onToken (always_bind (readOnly_findIn _).always fun _ => (readOnly_ofOption _ _).always)
  cases op with
  | createToken op => cases hop
  | issueToken op => cases hop
  | burnToken op => cases hop
  | transferToken op =>
    refine always_bind (hsymbol _) fun token => onTokens_withDappFee (onTokens_withView fun v => ?_)
    exact always_transferToken sameTokens_balances _ _ _
  | setupTokenFund op =>
    refine always_bind (hname _) fun token => always_bind (hassert _ _) fun _ => ?_
    refine always_bind (hassert _ _) fun _ => onTokens_withDappFee (onTokens_withView fun v => ?_)
    exact always_setupTokenFund sameTokens_balances sameTokens_funds _ _ _
  | setTokenStakingInterest op =>
    refine always_bind (hname _) fun token => always_bind (hassert _ _) fun _ => onTokens_withDappFee ?_
    refine always_bind (readOnly_checked _).always fun rate => onTokens_withView fun v => ?_
    exact always_storeInterest (fun _ _ => rfl) _ _ _
  | transferTokenFund op =>
    refine always_bind (hname _) fun token => always_bind (hassert _ _) fun _ => ?_
    refine onTokens_withDappFee (onTokens_withView fun v => ?_)
    exact always_transferTokenFund sameTokens_balances sameTokens_funds _ _
  | stakingTokenFund op =>
    refine always_bind (hname _) fun token => onTokens_withDappFee (onTokens_withView fun v => ?_)
    exact always_stakeToken sameTokens_balances sameTokens_funds sameTokens_fundWithdraws _ _ _ _
  | transferTokenSavings op =>
    refine always_bind (hname _) fun token => onTokens_withDappFee (onTokens_withView fun v => ?_)
    exact always_transferTokenSavings sameTokens_balances sameTokens_savings _ _ _
  | cancelTransferTokenSavings op =>
    refine always_bind (hname _) fun token => onTokens_withDappFee (onTokens_withView fun v => ?_)
    exact always_endTokenSavings sameTokens_balances sameTokens_savings _ _ _
  | concludeTransferTokenSavings op =>
    refine always_bind (hname _) fun token => onTokens_withDappFee (onTokens_withView fun v => ?_)
    exact always_endTokenSavings sameTokens_balances sameTokens_savings _ _ _

theorem sameTokens_tokenOnApplyBlock : Always (OnTokens SameTokens) Token.onApplyBlock :=
  always_bind
    (onTokens_withView (always_processTokenFundWithdraw sameTokens_balances sameTokens_funds sameTokens_fundWithdraws))
    fun _ => onTokens_withView (always_processTokenSavingsWithdraws sameTokens_balances sameTokens_savings)

/-- The handlers that run after a block change no total balance. -/
theorem sameTokens_notifyAppliedBlock (env : Env) : Always (OnTokens SameTokens) (notifyAppliedBlock env) := by
  refine always_attempt (always_each (fun p => ?_) _)
  cases p with
  | dapp => exact onTokens_dappOnApplyBlock
  | token => exact sameTokens_tokenOnApplyBlock

end Sigmaengine
