import Sigmaengine.Ledger.Runs
import Sigmaengine.Ledger.TokenFrames
import Sigmaengine.Ledger.TokenOperations

/-!
# Token supply over runs

Token operations travel inside custom operations.  Setting up a fund that exists already takes the
initial balance off the publisher and puts it nowhere; a stake that would be paid a negative amount can
fail between the two legs of its payout.  In runs without either, every token is conserved.
-/

namespace Sigmaengine

open Effect Table Finsupp Ledger Token

variable {env : Env} {node : Node} {d d' : Database} {u : Unit}

/-! ## The token operations of an operation -/

/-- The token operations a payload carries to the token plugin. -/
def tokenPayload (env : Env) (id : Bytes) (payload : Payload) : List TokenOperation :=
  if id = ascii ['d', 'a', 'p', 'p'] ∧ Plugin.dapp ∈ env.plugins then []
  else if id = ascii ['t', 'o', 'k', 'e', 'n'] ∧ Plugin.token ∈ env.plugins then
    (env.decodeToken payload).getD []
  else []

def tokenOperations (env : Env) : Operation → List TokenOperation
  | .customJson o => tokenPayload env o.id (.json o.json)
  | .customBinary o => tokenPayload env o.id (.binary o.payload)
  | .customJsonDapp o => tokenPayload env o.id (.json o.payload)
  | _ => []

/-- Token operations in order, each with the state it finds. -/
def innerTrace (interest : TokenInterest) : List TokenOperation → Database → List (Database × TokenOperation)
  | [], _ => []
  | op :: ops, d => (d, op) :: innerTrace interest ops (after (tokenEvaluator interest op d))

def tokenTrace (env : Env) (op : Operation) (d : Database) : List (Database × TokenOperation) :=
  innerTrace env.tokenInterest (tokenOperations env op) d

theorem innerTrace_append {interest : TokenInterest} {ops rest : List TokenOperation}
    (h : each (tokenEvaluator interest) ops d = .ok u d') :
    innerTrace interest (ops ++ rest) d = innerTrace interest ops d ++ innerTrace interest rest d' := by
  induction ops generalizing d with
  | nil =>
    obtain ⟨-, rfl⟩ := pure_eq_ok.mp h
    rfl
  | cons op ops ih =>
    obtain ⟨_, t, hfirst, hrest⟩ := bind_eq_ok.mp h
    simp only [List.cons_append, innerTrace, hfirst, after_ok, ih hrest]

/-- What the code takes on trust: a fund that exists is set up without an initial balance, and the
interest of a stake does not turn it negative. -/
def TokenCareful (interest : TokenInterest) (d : Database) : TokenOperation → Prop
  | .setupTokenFund op =>
    (d.token.funds.find? fun f => f.token == op.token && f.fundName == op.fundName).isSome →
      op.initFundBalance.amount = 0
  | .stakingTokenFund op =>
    ∀ i ∈ d.token.stakingInterests.find? (fun i => i.token == op.token && i.month == op.month),
      0 ≤ op.amount.amount + (interest op.amount.amount i.2.percentInterestRate).toInt
  | _ => True

/-- A stake is not promised a negative amount. -/
def PayingStake (interest : TokenInterest) (d : Database) : TokenOperation → Prop
  | .stakingTokenFund op => TokenCareful interest d (.stakingTokenFund op)
  | _ => True

/-- What an operation runs: code of the core, or a payload. -/
theorem applyOperation_cases (env : Env) (node : Node) (op : Operation) :
    (∃ m : CoreM Unit, applyOperation env node op = onCore m) ∨
      ∃ id payload size text, applyOperation env node op =
        customPayloadEvaluator env node op id payload size text ∧
        tokenOperations env op = tokenPayload env id payload := by
  cases op with
  | customJson o => exact .inr ⟨_, _, _, _, rfl, rfl⟩
  | customBinary o => exact .inr ⟨_, _, _, _, rfl, rfl⟩
  | customJsonDapp o => exact .inr ⟨_, _, _, _, rfl, rfl⟩
  | resetAccount o =>
    exact .inl ⟨throw (.assertion "Reset Account Operation is currently disabled."), rfl⟩
  | setResetAccount o =>
    exact .inl ⟨throw (.assertion "Set Reset Account Operation is currently disabled."), rfl⟩
  | virtual => exact .inl ⟨throw (.assertion "no registered evaluator for this operation"), rfl⟩
  | _ => exact .inl ⟨_, rfl⟩

/-! ## Invariants of the token plugin -/

/-- A property of the token indices, given the accounts that exist, that every part of the token plugin
keeps.  `ok` is what it asks of the token operations in the state they find. -/
structure TokenInvariant (interest : TokenInterest) (ok : Database → TokenOperation → Prop)
    (I : CoreView → TokenIndices → Prop) : Prop where
  later : ∀ {v v' : CoreView} {s : TokenIndices}, (∀ n, v.hasAccount n = true → v'.hasAccount n = true) →
    I v s → I v' s
  operation : ∀ {fc : TextRules} {op : TokenOperation} {d d' : Database} {u : Unit},
    (∀ c ∈ op.validate fc, c.holds = true) → ok d op → I (coreView d.core) d.token →
    tokenEvaluator interest op d = .ok u d' → I (coreView d.core) d'.token
  stakes : ∀ v, Always (Kept (I v)) (processTokenFundWithdraw v)
  savings : ∀ v, Always (Kept (I v)) (processTokenSavingsWithdraws v)

/-- The property of the whole state. -/
def OnChain (I : CoreView → TokenIndices → Prop) (d : Database) : Prop := I (coreView d.core) d.token

theorem hasAccount_iff {c : Core} {n : AccountName} :
    (coreView c).hasAccount n = true ↔ n ∈ memberNames c.accounts := by
  constructor
  · intro h
    obtain ⟨r, hr⟩ := Option.isSome_iff_exists.mp h
    obtain ⟨hmem, hname⟩ := mem_of_find? hr
    exact ⟨r.2, mem_values.mpr ⟨r.1, hmem⟩, beq_iff_eq.mp hname⟩
  · intro h
    obtain ⟨r, hr⟩ := getAccount_of_member (s := c) h
    obtain ⟨hfind, -⟩ := getIn_eq_ok.mp hr
    exact Option.isSome_iff_exists.mpr ⟨r, hfind⟩

/-- Nothing asked of the users of the chain. -/
def noCare : Care := ⟨False, False, False⟩

/-- No account goes away. -/
theorem hasAccount_later (hsim : DbSim noCare d d') (n : AccountName) (hn : (coreView d.core).hasAccount n = true) :
    (coreView d'.core).hasAccount n = true := by
  rw [hasAccount_iff] at hn ⊢
  exact hsim.members_subset hn

/-! ## Evaluators -/

/-- Around the fee, only the code of the token plugin touches its indices. -/
theorem withDappFee_eq_ok {payer : AccountName} {m : CoreView → TokenM Unit}
    (h : withDappFee payer (withView m) d = .ok u d') : m (coreView d.core) d.token = .ok () d'.token := by
  simp only [withDappFee, withView, bind_eq_ok, get_eq_ok] at h
  obtain ⟨fee, _, hcheck, _, t, ⟨_, _, ⟨rfl, rfl⟩, hm⟩, hpay⟩ := h
  obtain ⟨c, hc, rfl⟩ := within_eq_ok.mp hcheck
  obtain ⟨rfl, -⟩ := checkDappFee_eq_ok hc
  obtain ⟨s, hs, rfl⟩ := within_eq_ok.mp hm
  obtain ⟨c', -, rfl⟩ := within_eq_ok.mp hpay
  exact hs

theorem requireToken_eq_ok {name : TokenName} {r : Nat × TokenObject}
    (h : onToken (requireToken name) d = .ok r d') :
    d' = d ∧ r ∈ d.token.tokens.rows ∧ r.2.name = name := by
  obtain ⟨s, hs, rfl⟩ := within_eq_ok.mp h
  simp only [requireToken, bind_eq_ok, findIn_eq_ok, ofOption_eq_ok] at hs
  obtain ⟨_, _, ⟨hfind, rfl⟩, rfl, rfl⟩ := hs
  obtain ⟨hmem, hname⟩ := mem_of_find? hfind
  exact ⟨tokenPart.set_get d, hmem, beq_iff_eq.mp hname⟩

theorem requireSymbol_eq_ok {symbol : AssetSymbol} {r : Nat × TokenObject}
    (h : onToken (requireSymbol symbol) d = .ok r d') :
    d' = d ∧ r ∈ d.token.tokens.rows ∧ r.2.symbol = symbol := by
  obtain ⟨s, hs, rfl⟩ := within_eq_ok.mp h
  simp only [requireSymbol, bind_eq_ok, findIn_eq_ok, ofOption_eq_ok] at hs
  obtain ⟨_, _, ⟨hfind, rfl⟩, rfl, rfl⟩ := hs
  obtain ⟨hmem, hsym⟩ := mem_of_find? hfind
  exact ⟨tokenPart.set_get d, hmem, beq_iff_eq.mp hsym⟩

/-- The rate is read before anything is stored. -/
theorem storeInterest_of_fee {op : SetTokenStakingInterestOperation} {payer : AccountName}
    (h : withDappFee payer (do
      let rate ← checked (parseRate op.percentInterestRate)
      withView fun v => storeInterest v op rate) d = .ok u d') :
    ∃ rate, withDappFee payer (withView fun v => storeInterest v op rate) d = .ok u d' := by
  cases hrate : parseRate op.percentInterestRate with
  | error e =>
    simp only [withDappFee, bind_eq_ok, hrate, checked_eq_ok] at h
    obtain ⟨_, _, -, _, _, ⟨_, _, ⟨hfalse, -⟩, -⟩, -⟩ := h
    cases hfalse
  | ok rate =>
    rw [hrate] at h
    exact ⟨rate, h⟩

/-- What a token operation does to the token indices when it returns, with what its evaluator has found. -/
def TokenStep (interest : TokenInterest) (v : CoreView) (s s' : TokenIndices) : TokenOperation → Prop
  | .createToken op => storeToken v op s = .ok () s'
  | .issueToken op => ∃ r ∈ s.tokens.rows, r.2.name = op.name ∧ issueToken v op r s = .ok () s'
  | .transferToken op =>
    ∃ r ∈ s.tokens.rows, r.2.symbol = op.amount.symbol ∧ transferToken v op r.2.name s = .ok () s'
  | .burnToken op => ∃ r ∈ s.tokens.rows, r.2.symbol = op.amount.symbol ∧ burnToken v op r s = .ok () s'
  | .setupTokenFund op => ∃ r ∈ s.tokens.rows, r.2.name = op.token ∧ r.2.symbol = op.initFundBalance.symbol ∧
      setupTokenFund v op r.2 s = .ok () s'
  | .setTokenStakingInterest op => ∃ rate, storeInterest v op rate s = .ok () s'
  | .transferTokenFund op => transferTokenFund v op s = .ok () s'
  | .stakingTokenFund op => ∃ r : TokenObject, r.name = op.token ∧ stakeToken interest v op r s = .ok () s'
  | .transferTokenSavings op => transferTokenSavings v op op.token s = .ok () s'
  | .cancelTransferTokenSavings op => endTokenSavings v op true s = .ok () s'
  | .concludeTransferTokenSavings op => endTokenSavings v op false s = .ok () s'

/-- **One token operation**, inverted. -/
theorem tokenStep_of_evaluator {interest : TokenInterest} {op : TokenOperation}
    (h : tokenEvaluator interest op d = .ok u d') : TokenStep interest (coreView d.core) d.token d'.token op := by
  cases op with
  | createToken op =>
    simp only [tokenEvaluator, createTokenEvaluator, bind_eq_ok, fcAssert_eq_ok] at h
    obtain ⟨dapp, _, hdapp, _, _, ⟨-, rfl⟩, _, _, ⟨-, rfl⟩, _, _, happroved, hfee⟩ := h
    obtain rfl := (readOnly_requireDapp _ _).eq_of_ok hdapp
    obtain rfl := (readOnly_requireApproved _).eq_of_ok happroved
    exact withDappFee_eq_ok hfee
  | issueToken op =>
    simp only [tokenEvaluator, issueTokenEvaluator, bind_eq_ok, fcAssert_eq_ok] at h
    obtain ⟨r, _, hget, dapp, _, hdapp, _, _, ⟨-, rfl⟩, _, _, ⟨-, rfl⟩, hfee⟩ := h
    obtain ⟨rfl, hr, hname⟩ := requireToken_eq_ok hget
    obtain rfl := (readOnly_requireDapp _ _).eq_of_ok hdapp
    exact ⟨r, hr, hname, withDappFee_eq_ok hfee⟩
  | transferToken op =>
    simp only [tokenEvaluator, transferTokenEvaluator, bind_eq_ok] at h
    obtain ⟨r, _, hget, hfee⟩ := h
    obtain ⟨rfl, hr, hsym⟩ := requireSymbol_eq_ok hget
    exact ⟨r, hr, hsym, withDappFee_eq_ok hfee⟩
  | burnToken op =>
    simp only [tokenEvaluator, burnTokenEvaluator, bind_eq_ok, fcAssert_eq_ok] at h
    obtain ⟨r, _, hget, dapp, _, hdapp, _, _, ⟨-, rfl⟩, hfee⟩ := h
    obtain ⟨rfl, hr, hsym⟩ := requireSymbol_eq_ok hget
    obtain rfl := (readOnly_requireDapp _ _).eq_of_ok hdapp
    exact ⟨r, hr, hsym, withDappFee_eq_ok hfee⟩
  | setupTokenFund op =>
    simp only [tokenEvaluator, setupTokenFundEvaluator, bind_eq_ok, fcAssert_eq_ok] at h
    obtain ⟨r, _, hget, _, _, ⟨-, rfl⟩, _, _, ⟨hsym, rfl⟩, hfee⟩ := h
    obtain ⟨rfl, hr, hname⟩ := requireToken_eq_ok hget
    exact ⟨r, hr, hname, beq_iff_eq.mp hsym, withDappFee_eq_ok hfee⟩
  | setTokenStakingInterest op =>
    simp only [tokenEvaluator, setTokenStakingInterestEvaluator, bind_eq_ok, fcAssert_eq_ok] at h
    obtain ⟨r, _, hget, _, _, ⟨-, rfl⟩, hfee⟩ := h
    obtain ⟨rfl, -, -⟩ := requireToken_eq_ok hget
    obtain ⟨rate, hstore⟩ := storeInterest_of_fee hfee
    exact ⟨rate, withDappFee_eq_ok hstore⟩
  | transferTokenFund op =>
    simp only [tokenEvaluator, transferTokenFundEvaluator, bind_eq_ok, fcAssert_eq_ok] at h
    obtain ⟨r, _, hget, _, _, ⟨-, rfl⟩, hfee⟩ := h
    obtain ⟨rfl, -, -⟩ := requireToken_eq_ok hget
    exact withDappFee_eq_ok hfee
  | stakingTokenFund op =>
    simp only [tokenEvaluator, stakingTokenFundEvaluator, bind_eq_ok] at h
    obtain ⟨r, _, hget, hfee⟩ := h
    obtain ⟨rfl, -, hname⟩ := requireToken_eq_ok hget
    exact ⟨r.2, hname, withDappFee_eq_ok hfee⟩
  | transferTokenSavings op =>
    simp only [tokenEvaluator, transferTokenSavingsEvaluator, bind_eq_ok] at h
    obtain ⟨r, _, hget, hfee⟩ := h
    obtain ⟨rfl, -, hname⟩ := requireToken_eq_ok hget
    have hrun := withDappFee_eq_ok hfee
    rw [hname] at hrun
    exact hrun
  | cancelTransferTokenSavings op | concludeTransferTokenSavings op =>
    obtain ⟨r, _, hget, hfee⟩ := bind_eq_ok.mp h
    obtain ⟨rfl, -, -⟩ := requireToken_eq_ok hget
    exact withDappFee_eq_ok hfee

theorem TokenCareful.payingStake {interest : TokenInterest} {op : TokenOperation} (h : TokenCareful interest d op) :
    PayingStake interest d op := by
  cases op with
  | stakingTokenFund op => exact h
  | _ => trivial

/-- **One token operation**: what its evaluator leaves in the token indices is sound.  A careful one
loses nothing. -/
theorem sound_tokenEvaluator {interest : TokenInterest} {fc : TextRules} {op : TokenOperation}
    {lost : TokenName →₀ ℤ} (hvalid : ∀ c ∈ op.validate fc, c.holds = true)
    (hstake : PayingStake interest d op)
    (hsound : TokenSound (coreView d.core) lost d.token) (h : tokenEvaluator interest op d = .ok u d') :
    ∃ extra, 0 ≤ extra ∧ TokenSound (coreView d.core) (lost + extra) d'.token ∧
      (TokenCareful interest d op → extra = 0) := by
  have hnothing : TokenSound (coreView d.core) lost d'.token → ∃ extra, 0 ≤ extra ∧
      TokenSound (coreView d.core) (lost + extra) d'.token ∧ (TokenCareful interest d op → extra = 0) := by
    intro hsound'
    refine ⟨0, le_rfl, ?_, fun _ => rfl⟩
    rwa [add_zero]
  have hstep := tokenStep_of_evaluator h
  cases op with
  | createToken op => exact hnothing (sound_storeToken hsound hvalid hstep)
  | issueToken op =>
    obtain ⟨r, hr, hname, hrun⟩ := hstep
    have hpos := amount_pos hvalid (.tail _ (.tail _ (.head _))) rfl
    exact hnothing (sound_issueToken hsound hr hname hpos hrun)
  | transferToken op =>
    obtain ⟨r, hr, hsym, hrun⟩ := hstep
    have hsymbol := isSymbol_of_mem hr
    rw [hsym] at hsymbol
    exact hnothing (sound_transferToken hsound hsymbol hrun)
  | burnToken op =>
    obtain ⟨r, hr, hsym, hrun⟩ := hstep
    have hpos : 0 ≤ op.amount.amount := of_decide_eq_true (hvalid _ (.tail _ (.head _)))
    exact hnothing (sound_burnToken hsound hr hsym hpos hrun)
  | setupTokenFund op =>
    obtain ⟨r, hr, hname, hsym, hrun⟩ := hstep
    have hpos : 0 ≤ op.initFundBalance.amount :=
      of_decide_eq_true (hvalid _ (.tail _ (.tail _ (.tail _ (.head _)))))
    exact sound_setupTokenFund hsound hr hname hsym hpos hrun
  | setTokenStakingInterest op =>
    obtain ⟨rate, hrun⟩ := hstep
    exact hnothing (sound_storeInterest hsound hrun)
  | transferTokenFund op => exact hnothing (sound_transferTokenFund hsound hstep)
  | stakingTokenFund op =>
    obtain ⟨r, hname, hrun⟩ := hstep
    exact hnothing (sound_stakeToken hsound hname hstake hrun)
  | transferTokenSavings op => exact hnothing (sound_transferTokenSavings hsound hvalid hstep)
  | cancelTransferTokenSavings op | concludeTransferTokenSavings op =>
    exact hnothing (sound_endTokenSavings hsound hstep)

/-- Sound tokens with nothing lost. -/
theorem tokenInvariant_sound (interest : TokenInterest) :
    TokenInvariant interest (TokenCareful interest) (fun v s => TokenSound v 0 s) where
  later hle hsound := hsound.mono hle
  operation hvalid hcareful hsound h := by
    obtain ⟨extra, -, hsound', hextra⟩ := sound_tokenEvaluator hvalid hcareful.payingStake hsound h
    rw [hextra hcareful, add_zero] at hsound'
    exact hsound'
  stakes := sound_processTokenFundWithdraw
  savings := sound_processTokenSavingsWithdraws

/-! ## Operations, transactions and blocks -/

/-- The token operations of an operation meet `ok` in the states they find. -/
def EachTokenOperation (env : Env) (ok : Database → TokenOperation → Prop) (d : Database) (op : Operation) : Prop :=
  ∀ p ∈ tokenTrace env op d, ok p.1 p.2

/-- The token operations of an operation are careful in the states they find. -/
def CarefulOperation (env : Env) (d : Database) (op : Operation) : Prop :=
  ∀ p ∈ tokenTrace env op d, TokenCareful env.tokenInterest p.1 p.2

/-- What the code takes on trust, in every operation of a block. -/
def CarefulTokens (env : Env) (node : Node) (b : SignedBlock) (d : Database) : Prop :=
  EachOperation env node (CarefulOperation env) b d

/-- No stake of the block is promised a negative amount. -/
def PayingStakes (env : Env) (node : Node) (b : SignedBlock) (d : Database) : Prop :=
  EachOperation env node (EachTokenOperation env (PayingStake env.tokenInterest)) b d

/-- A custom operation ends where its interpreter does, whether it throws or not. -/
theorem customPayload_eq_ok {op : Operation} {id : Bytes} {payload : Payload} {size : Nat} {text : String}
    (h : customPayloadEvaluator env node op id payload size text d = .ok u d') :
    d' = after (interpret env id payload (op.getRequiredAuthorities {}) d) := by
  obtain ⟨_, t, hassert, hrun⟩ := bind_eq_ok.mp h
  obtain ⟨-, rfl⟩ := fcAssert_eq_ok.mp hassert
  by_cases hproducing : node.isProducing = true
  · simp only [if_pos hproducing] at hrun
    exact (congrArg after hrun).symm
  · simp only [if_neg hproducing] at hrun
    exact (attempt_eq_ok.mp hrun).symm

namespace TokenInvariant

variable {ok : Database → TokenOperation → Prop} {I : CoreView → TokenIndices → Prop}

theorem of_token (hI : TokenInvariant env.tokenInterest ok I) (hsim : DbSim noCare d d')
    (htoken : d'.token = d.token) (h : OnChain I d) : OnChain I d' := by
  unfold OnChain
  rw [htoken]
  exact hI.later (hasAccount_later hsim) h

/-- Token operations in order; an account never goes away in between. -/
theorem innerOperations {interest : TokenInterest} (hI : TokenInvariant interest ok I) {fc : TextRules}
    {ops : List TokenOperation} (hvalid : ∀ op ∈ ops, ∀ c ∈ op.validate fc, c.holds = true)
    (hok : ∀ p ∈ innerTrace interest ops d, ok p.1 p.2) (hd : OnChain I d)
    (h : each (tokenEvaluator interest) ops d = .ok u d') : OnChain I d' := by
  induction ops generalizing d with
  | nil =>
    obtain ⟨-, rfl⟩ := pure_eq_ok.mp h
    exact hd
  | cons op ops ih =>
    obtain ⟨_, t, hfirst, hrest⟩ := bind_eq_ok.mp h
    have hhead := hok (d, op) List.mem_cons_self
    have htoken := hI.operation (hvalid op List.mem_cons_self) hhead hd hfirst
    have hsim : DbSim noCare d t := dbSim_tokenEvaluator interest op _ _ _ hfirst
    refine ih (fun o ho => hvalid o (List.mem_cons_of_mem _ ho)) ?_ (hI.later (hasAccount_later hsim) htoken) hrest
    intro p hp
    refine hok p ?_
    simp only [innerTrace, hfirst, after_ok]
    exact List.mem_cons_of_mem _ hp

variable (hI : TokenInvariant env.tokenInterest ok I)

include hI

/-- A payload that throws is undone as a whole. -/
theorem applyTokenPayload {payload : Payload} {outer : RequiredAuthorities}
    (hok : ∀ ops, env.decodeToken payload = some ops → ∀ p ∈ innerTrace env.tokenInterest ops d, ok p.1 p.2)
    (hd : OnChain I d) : OnChain I (after (Sigmaengine.applyTokenPayload env payload outer d)) := by
  unfold Sigmaengine.applyTokenPayload
  cases hops : env.decodeToken payload with
  | none => exact hd
  | some ops =>
    change OnChain I (after (atomically _ d))
    unfold atomically
    split
    next hrun =>
      simp only [bind_eq_ok, each_checked_eq_ok, fcAssert_eq_ok] at hrun
      obtain ⟨_, _, ⟨hvalid, rfl⟩, _, _, ⟨-, rfl⟩, _, _, ⟨-, rfl⟩, _, _, ⟨-, rfl⟩, _, _, ⟨-, rfl⟩, hrun⟩ := hrun
      exact hI.innerOperations (fun op hop => runChecks_eq_ok.mp (hvalid op hop)) (hok ops hops) hd hrun
    next => exact hd

theorem interpret {id : Bytes} {payload : Payload} {outer : RequiredAuthorities}
    (hok : ∀ p ∈ innerTrace env.tokenInterest (tokenPayload env id payload) d, ok p.1 p.2)
    (hd : OnChain I d) : OnChain I (after (Sigmaengine.interpret env id payload outer d)) := by
  have hsim : DbSim noCare d (after (Sigmaengine.interpret env id payload outer d)) :=
    dbSim_interpret id payload outer d
  unfold Sigmaengine.interpret at hsim ⊢
  unfold tokenPayload at hok
  split at hok
  next hdapp =>
    rw [if_pos hdapp] at hsim ⊢
    refine hI.of_token hsim ?_ hd
    have hsame : Always (OnTokens fun s s' => s' = s) (applyDappPayload env payload outer) := by
      refine always_bind (readOnly_ofOption _ _).always fun ops => ?_
      exact runs_applyOperations fun op _ => (onTokens_dappEvaluator env.fc op).runs
    exact hsame d
  next hdapp =>
    rw [if_neg hdapp] at hsim ⊢
    split at hok
    next htoken =>
      rw [if_pos htoken]
      refine hI.applyTokenPayload (fun ops hops => ?_) hd
      rw [hops] at hok
      exact hok
    next htoken =>
      rw [if_neg htoken]
      exact hd

/-- **One operation** of the chain. -/
theorem applyOperation {op : Operation} (hvalid : op.Valid env.fc) (hok : EachTokenOperation env ok d op)
    (h : Sigmaengine.applyOperation env node op d = .ok u d') : Kept (OnChain I) d d' := by
  intro hd
  rcases applyOperation_cases env node op with ⟨m, hm⟩ | ⟨id, payload, size, text, hm, hops⟩
  · have hsim : DbSim noCare d d' := dbSim_applyOperation hvalid False.elim False.elim h
    rw [hm] at h
    refine hI.of_token hsim ?_ hd
    have hsame : Always (OnTokens fun s s' => s' = s) (onCore m) := onTokens_onCore m
    exact hsame.runs _ _ _ h
  · rw [hm] at h
    obtain rfl := customPayload_eq_ok h
    refine hI.interpret ?_ hd
    rw [← hops]
    exact hok

/-- Core code that no account leaves. -/
theorem onCore {α : Type} {m : CoreM α} (h : ∀ votes, Runs (Sim noCare votes) m) :
    Runs (Kept (OnChain I)) (Sigmaengine.onCore m) := by
  intro d a d' hm hd
  have hsim : DbSim noCare d d' := dbSim_onCore (fun c' hc => h _ _ _ _ hc) hm
  obtain ⟨c, -, rfl⟩ := within_eq_ok.mp hm
  exact hI.of_token hsim rfl hd

theorem applyBlockHead {b : SignedBlock} (hvalidate : node.skip.validate = false)
    (hok : EachOperation env node (EachTokenOperation env ok) b d)
    (h : Sigmaengine.applyBlockHead env node b d = .ok u d') : Kept (OnChain I) d d' := by
  refine runs_applyBlockHead (admits_valid hvalidate) ?_ ?_ ?_ hok h
  · intro op d d' hvalid hop hrun
    exact hI.applyOperation hvalid hop hrun
  · intro m hm
    exact hI.onCore fun votes c u c' hc => (hm c u c' hc).sim
  · exact hI.onCore fun votes c n c' hc => sim_applyBlockHeader hc

/-- The per-block routines on the chain's own objects. -/
theorem coreTail (b : SignedBlock) : Runs (Kept (OnChain I)) (Sigmaengine.onCore do
    prepareBlock env b
    postProcess
    processHardforks) := by
  refine hI.onCore fun votes => ?_
  refine runs_bind (fun _ _ _ hprep => (same_prepareBlock env b _ _ _ hprep).sim) fun _ => ?_
  refine runs_bind (fun _ _ _ hpost => sim_postProcess False.elim hpost) fun _ => ?_
  exact fun _ _ _ hhard => (same_processHardforks _ _ _ hhard).sim

omit hI in
/-- Token code run by the block handler. -/
theorem withView {m : CoreView → TokenM Unit} (h : ∀ v, Always (Kept (I v)) (m v)) :
    Always (Kept (OnChain I)) (Token.withView m) := by
  intro d hd
  unfold Token.withView
  rw [bind_of_ok (get_apply d), OnChain, onToken, after_within]
  exact h (coreView d.core) d.token hd

theorem handler (p : Plugin) : Always (Kept (OnChain I)) (match p with
    | .dapp => Dapp.onApplyBlock
    | .token => Token.onApplyBlock) := by
  cases p with
  | dapp =>
    intro d hd
    have hsame : Always (OnTokens fun s s' => s' = s) Dapp.onApplyBlock := onTokens_dappOnApplyBlock
    exact hI.of_token (dbSim_dappOnApplyBlock d) (hsame d) hd
  | token => exact always_bind (withView hI.stakes) fun _ => withView hI.savings

/-- Up to some of the handlers of a block. -/
theorem handlerStarts {b : SignedBlock} {earlier : List Plugin} {d₁ d₂ t : Database} {u' u'' : Unit}
    (hvalidate : node.skip.validate = false) (hok : EachOperation env node (EachTokenOperation env ok) b d)
    (hhead : Sigmaengine.applyBlockHead env node b d = .ok u d₁)
    (hcore : Sigmaengine.onCore (do
      prepareBlock env b
      postProcess
      processHardforks) d₁ = .ok u' d₂)
    (hearlier : each (fun p => match p with
      | .dapp => Dapp.onApplyBlock
      | .token => Token.onApplyBlock) earlier d₂ = .ok u'' t) : Kept (OnChain I) d t := by
  intro hd
  have hd₁ := hI.applyBlockHead hvalidate hok hhead hd
  have hd₂ := hI.coreTail b _ _ _ hcore hd₁
  exact (always_each hI.handler earlier).runs _ _ _ hearlier hd₂

/-- **One block.** -/
theorem applyBlock {b : SignedBlock} (hvalidate : node.skip.validate = false)
    (hok : EachOperation env node (EachTokenOperation env ok) b d)
    (h : Sigmaengine.applyBlock env node b d = .ok u d') : Kept (OnChain I) d d' := by
  obtain ⟨_, t, hhead, htail⟩ := bind_eq_ok.mp h
  obtain ⟨_, t', hcore, hnotify⟩ := bind_eq_ok.mp htail
  intro hd
  have hcoreTail := hI.coreTail b _ _ _ hcore (hI.applyBlockHead hvalidate hok hhead hd)
  exact runs_attempt (always_each hI.handler _) _ _ _ hnotify hcoreTail

/-- **Runs**: the property holds in every state that is reached. -/
theorem reachable {okBlock : Node → SignedBlock → Database → Prop} (hgenesis : ∀ key, OnChain I (genesis key))
    (hokBlock : ∀ node b d, okBlock node b d → EachOperation env node (EachTokenOperation env ok) b d)
    (h : Reachable env okBlock d) : OnChain I d := by
  induction h with
  | genesis key => exact hgenesis key
  | block node b h hvalidate hblock happly ih => exact hI.applyBlock hvalidate (hokBlock _ _ _ hblock) happly ih

end TokenInvariant

theorem tokenSound_genesis (key : PublicKey) : TokenSound (coreView (genesis key).core) 0 (genesis key).token where
  conserved := rfl
  lost_nonneg := le_rfl
  issued_le := by intro x hx; cases hx
  balances := by intro x hx; cases hx
  funds := by intro x hx; cases hx
  stakes := by intro x hx; cases hx
  savings := by intro x hx; cases hx

/-- **Runs** of careful blocks. -/
theorem reachable_tokenSound (h : Reachable env (CarefulTokens env) d) : TokenSound (coreView d.core) 0 d.token :=
  (tokenInvariant_sound env.tokenInterest).reachable tokenSound_genesis (fun _ _ _ hblock => hblock) h

/-! ## Conservation -/

/-- Every token's total is what the accounts and the funds hold of it. -/
def TokensConserved (s : TokenIndices) : Prop :=
  ∀ r ∈ s.tokens.rows, r.2.totalBalance.amount =
    s.balances.sum (fun b => if b.token = r.2.name then b.balance.amount + b.savingsBalance.amount else 0) +
      s.funds.sum (fun f => if f.token = r.2.name then f.balance.amount else 0)

theorem tokensConserved_of_sound {v : CoreView} {s : TokenIndices} (hsound : TokenSound v 0 s) :
    TokensConserved s := by
  intro r hr
  rw [← issued_apply (mem_values.mpr ⟨r.1, hr⟩), hsound.conserved, add_zero, Finsupp.add_apply]
  unfold inAccounts inFunds
  rw [sum_single_eq_sum_ite, sum_single_eq_sum_ite]

theorem sameTokens_interpret {id : Bytes} {payload : Payload}
    (hops : ∀ o ∈ tokenPayload env id payload, changesTotal o = false) (outer : RequiredAuthorities) :
    Always (OnTokens SameTokens) (interpret env id payload outer) := by
  unfold tokenPayload at hops
  unfold interpret
  split at hops
  next hdapp =>
    rw [if_pos hdapp]
    refine always_bind (readOnly_ofOption _ _).always fun ops => ?_
    exact runs_applyOperations fun op _ => (onTokens_dappEvaluator env.fc op).runs
  next hdapp =>
    rw [if_neg hdapp]
    split at hops
    next htoken =>
      rw [if_pos htoken]
      unfold applyTokenPayload
      cases hdecode : env.decodeToken payload with
      | none => exact always_throw _
      | some ops =>
        rw [hdecode] at hops
        refine always_atomically ?_
        refine runs_bind (readOnly_each (fun _ => readOnly_checked _) _).always.runs fun _ => ?_
        dsimp only
        refine runs_bind (readOnly_assert _ _).always.runs fun _ => ?_
        refine runs_bind (readOnly_assert _ _).always.runs fun _ => ?_
        refine runs_bind (readOnly_assert _ _).always.runs fun _ => ?_
        refine runs_bind (readOnly_assert _ _).always.runs fun _ => ?_
        exact runs_each_of_mem fun op hop => (sameTokens_tokenEvaluator _ op (hops op hop)).runs
    next htoken =>
      rw [if_neg htoken]
      exact always_pure _

/-- An operation that carries no create, issue or burn leaves every total balance. -/
theorem sameTokens_applyOperation {op : Operation} (hops : ∀ o ∈ tokenOperations env op, changesTotal o = false) :
    Always (OnTokens SameTokens) (applyOperation env node op) := by
  rcases applyOperation_cases env node op with ⟨m, hm⟩ | ⟨id, payload, size, text, hm, hpayload⟩
  · rw [hm]
    exact onTokens_onCore m
  · rw [hm]
    rw [hpayload] at hops
    have hinterpret := sameTokens_interpret hops (op.getRequiredAuthorities {})
    refine always_bind (readOnly_assert _ _).always fun _ => ?_
    dsimp only
    split
    · exact hinterpret
    · exact always_attempt hinterpret

theorem sameTokens_applyBlock {b : SignedBlock}
    (hops : ∀ trx ∈ b.transactions, ∀ op ∈ trx.operations, ∀ o ∈ tokenOperations env op, changesTotal o = false) :
    Always (OnTokens SameTokens) (applyBlock env node b) := by
  refine always_bind ?_ fun _ => ?_
  · refine always_bind (onTokens_onCore _) fun signing => always_bind ?_ fun _ => onTokens_onCore _
    refine always_each_of_mem fun trx htrx => ?_
    refine always_bind (onTokens_onCore _) fun _ => always_each_of_mem fun op hop => ?_
    exact sameTokens_applyOperation (hops trx htrx op hop)
  · exact always_bind (onTokens_onCore _) fun _ => sameTokens_notifyAppliedBlock env

/-- **Token supply**: in runs of careful blocks every token is conserved; only create, issue and burn
change a total balance, and nothing between the operations does. -/
theorem token_supply_conserved (env : Env) (d : Database) (h : Reachable env (CarefulTokens env) d) :
    TokensConserved d.token ∧
      (∀ node op, (∀ o ∈ tokenOperations env op, changesTotal o = false) →
        (after (applyOperation env node op d)).token.tokens = d.token.tokens) ∧
      ∀ node b, (∀ trx ∈ b.transactions, ∀ op ∈ trx.operations, ∀ o ∈ tokenOperations env op,
          changesTotal o = false) →
        (after (applyBlock env node b d)).token.tokens = d.token.tokens := by
  refine ⟨tokensConserved_of_sound (reachable_tokenSound h), ?_, ?_⟩
  · intro node op hops
    exact sameTokens_applyOperation hops d
  · intro node b hops
    exact sameTokens_applyBlock hops d

/-! ## A dapp with a token -/

instance (interest : TokenInterest) (d : Database) (op : TokenOperation) :
    Decidable (TokenCareful interest d op) :=
  match op with
  | .setupTokenFund _ => inferInstanceAs (Decidable (_ → _))
  | .stakingTokenFund _ => inferInstanceAs (Decidable (∀ _ ∈ _, _))
  | .createToken _ | .issueToken _ | .transferToken _ | .burnToken _ | .setTokenStakingInterest _
  | .transferTokenFund _ | .transferTokenSavings _ | .cancelTransferTokenSavings _
  | .concludeTransferTokenSavings _ => isTrue trivial

instance (interest : TokenInterest) (d : Database) (op : TokenOperation) :
    Decidable (PayingStake interest d op) :=
  match op with
  | .stakingTokenFund op => inferInstanceAs (Decidable (TokenCareful interest d (.stakingTokenFund op)))
  | .createToken _ | .issueToken _ | .transferToken _ | .burnToken _ | .setupTokenFund _
  | .setTokenStakingInterest _ | .transferTokenFund _ | .transferTokenSavings _ | .cancelTransferTokenSavings _
  | .concludeTransferTokenSavings _ => isTrue trivial

instance (env : Env) (d : Database) (op : Operation) : Decidable (CarefulOperation env d op) :=
  inferInstanceAs (Decidable (∀ _ ∈ _, _))

instance (env : Env) (node : Node) (b : SignedBlock) (d : Database) : Decidable (CarefulTokens env node b d) :=
  inferInstanceAs (Decidable (EachOperation _ _ _ _ _))

instance (env : Env) (node : Node) (b : SignedBlock) (d : Database) : Decidable (PayingStakes env node b d) :=
  inferInstanceAs (Decidable (∀ p ∈ blockTrace env node b d, ∀ q ∈ tokenTrace env p.2 p.1,
    PayingStake env.tokenInterest q.1 q.2))

instance (s : TokenIndices) : Decidable (TokensConserved s) := inferInstanceAs (Decidable (∀ _ ∈ _, _))

def named {w : Nat} (text : String) : FixedString w := .ofBytes (ascii text.toList)

/-- The text of one plugin operation, in the form `fc::json` reads. -/
def jsonText (operation : String) (fields : List (String × String)) : List Char :=
  let quoted (text : String) : List Char := '"' :: text.toList ++ ['"']
  let members := (fields.map fun f => quoted f.1 ++ ':' :: quoted f.2).intersperse [',']
  '[' :: quoted operation ++ [',', '\x7b'] ++ members.flatten ++ ['\x7d', ']']

/-- The eleven block producers whose votes approve the dapp. -/
def producers : List String := ["root", "aaa", "bbb", "ccc", "ddd", "eee", "fff", "ggg", "hhh", "iii", "jjj"]

def createDappText : Bytes :=
  ascii (jsonText "create_dapp" [("owner", "root"), ("dapp_name", "shop"), ("dapp_key", "1")])

def voteDappText : Bytes :=
  let votes := producers.map fun n => jsonText "vote_dapp" [("voter", n), ("dapp_name", "shop"), ("vote", "102")]
  ascii ('[' :: (votes.intersperse [',']).flatten ++ [']'])

def createTokenText : Bytes :=
  ascii (jsonText "create_token" [("name", "coin"), ("symbol_name", "cn"), ("publisher", "root"),
    ("dapp_name", "shop"), ("dapp_key", "1"), ("init_supply_amount", "5")])

def setupTokenFundText : Bytes :=
  ascii (jsonText "setup_token_fund" [("token_publisher", "root"), ("token", "coin"), ("fund_name", "pool"),
    ("init_fund_balance", "1.000000 CN")])

/-- The sample node with both plugins, reading the texts above. -/
def tokenEnv : Env :=
  { sampleEnv with
    plugins := [.dapp, .token]
    decodeDapp := fun
      | .json text =>
        if text = createDappText then some [.createDapp ⟨rootAccount, named "shop", some ⟨1⟩⟩]
        else if text = voteDappText then some (producers.map fun n => .voteDapp ⟨named n, named "shop", 102⟩)
        else none
      | .binary _ => none
    decodeToken := fun
      | .json text =>
        if text = createTokenText then
          some [.createToken
            { name := named "coin", symbolName := ascii ['c', 'n'], publisher := rootAccount,
              dappName := named "shop", dappKey := ⟨1⟩, initSupplyAmount := 5 }]
        else if text = setupTokenFundText then
          some [.setupTokenFund
            { tokenPublisher := rootAccount, token := named "coin", fundName := named "pool",
              initFundBalance := ⟨1000000, makeSymbol (ascii ['C', 'N'])⟩ }]
        else none
      | .binary _ => none }

def createProducer (name : String) : Operation :=
  .accountCreate
    { creator := initMinerName, newAccountName := named name, owner := .ofKey ⟨1⟩, active := .ofKey ⟨1⟩,
      posting := .ofKey ⟨1⟩, memoKey := ⟨1⟩, jsonMetadata := [] }

def enlistProducer (name : String) : List Operation :=
  [.bobserverUpdate ⟨rootAccount, named name, [1], ⟨1⟩⟩, .updateBproducer ⟨rootAccount, named name, true⟩]

/-- The producers are installed, and the dapp is created and voted for. -/
def dappBlock : SignedBlock :=
  sampleBlock {} 1 (producers.map createProducer ++ producers.flatMap enlistProducer ++
    [.customJson ⟨[rootAccount], [], ascii ['d', 'a', 'p', 'p'], createDappText⟩,
      .customJson ⟨producers.map named, [], ascii ['d', 'a', 'p', 'p'], voteDappText⟩])

/-- The dapp creates its token and sets up the same fund a number of times. -/
def fundBlock (times : Nat) : SignedBlock :=
  sampleBlock (dappBlock.id tokenEnv.codec) 2
    (.customJsonDapp ⟨[], [], [], [.ofKey ⟨1⟩], ascii ['t', 'o', 'k', 'e', 'n'], createTokenText⟩ ::
      List.replicate times
        (.customJson ⟨[rootAccount], [], ascii ['t', 'o', 'k', 'e', 'n'], setupTokenFundText⟩))

def dappState : Database := after (applyBlock tokenEnv {} dappBlock (genesis ⟨1⟩))

def fundState (times : Nat) : Database := after (applyBlock tokenEnv {} (fundBlock times) dappState)

theorem applyBlock_dappBlock : applyBlock tokenEnv {} dappBlock (genesis ⟨1⟩) = .ok () dappState := by
  have h : succeeds (applyBlock tokenEnv {} dappBlock (genesis ⟨1⟩)) = true := by decide +kernel
  exact eq_ok_of_succeeds h

theorem reachable_fundState {ok : Node → SignedBlock → Database → Prop} {times : Nat}
    (hdapp : ok {} dappBlock (genesis ⟨1⟩)) (hfund : ok {} (fundBlock times) dappState)
    (hrun : succeeds (applyBlock tokenEnv {} (fundBlock times) dappState) = true) :
    Reachable tokenEnv ok (fundState times) := by
  have hdappState : Reachable tokenEnv ok dappState :=
    (Reachable.genesis ⟨1⟩).block {} dappBlock rfl hdapp applyBlock_dappBlock
  exact hdappState.block {} (fundBlock times) rfl hfund (eq_ok_of_succeeds hrun)

theorem token_supply_conserved_fundState : CarefulTokens tokenEnv {} (fundBlock 1) dappState ∧
    (fundState 1).token.funds.rows.length = 1 ∧ TokensConserved (fundState 1).token := by
  have hrun : CarefulTokens tokenEnv {} dappBlock (genesis ⟨1⟩) ∧ CarefulTokens tokenEnv {} (fundBlock 1) dappState ∧
      succeeds (applyBlock tokenEnv {} (fundBlock 1) dappState) = true ∧ (fundState 1).token.funds.rows.length = 1 := by
    decide +kernel
  obtain ⟨hdapp, hfund, happly, hlength⟩ := hrun
  have hreach : Reachable tokenEnv (CarefulTokens tokenEnv) (fundState 1) :=
    reachable_fundState hdapp hfund happly
  exact ⟨hfund, hlength, (token_supply_conserved tokenEnv (fundState 1) hreach).1⟩

/-- Setting up the same fund twice loses the second initial balance. -/
theorem fund_set_up_twice_loses_tokens :
    Reachable tokenEnv anyBlock (fundState 2) ∧ ¬ TokensConserved (fundState 2).token := by
  have hrun : succeeds (applyBlock tokenEnv {} (fundBlock 2) dappState) = true ∧ ¬ TokensConserved (fundState 2).token := by
    decide +kernel
  exact ⟨reachable_fundState trivial trivial hrun.1, hrun.2⟩

end Sigmaengine
