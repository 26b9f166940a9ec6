import Sigmaengine.Consensus.Authority
import Sigmaengine.Dapp.Impact
import Sigmaengine.Ledger.Fees
import Sigmaengine.Ledger.Holdings

/-!
# The accounts an operation has an impact on

`impacted.cpp` against the evaluators.  A visitor lists the accounts of every operation by hand; two operations of the core
and six of the token plugin change an account that the list of their outer operation need not have.

Main result: `impacted_accounts_complete_iff`.
-/

namespace Sigmaengine

open Effect Table Reading Raw Variant

/-! ## The operation of the bobserver plugin -/

/-- `enable_content_editing_operation`. -/
structure EnableContentEditingOperation where
  account : AccountName
  relockTime : TimePointSec

namespace EnableContentEditingOperation

/-- `bobserver_plugin_operation`. -/
def format : Raw.Format EnableContentEditingOperation where
  count := 1
  size := 80
  which _ := 0
  packFields op := packName op.account ++ packLittleEndian 4 op.relockTime
  unpackFields
    | 0 => do
      let account ← unpackName 64
      let relockTime ← littleEndian 4
      return ⟨account, relockTime⟩
    | _ => failure

def variantFormat (rules : VariantRules) : VariantFormat EnableContentEditingOperation where
  names := [ascii ['e', 'n', 'a', 'b', 'l', 'e', '_', 'c', 'o', 'n', 't', 'e', 'n', 't', '_', 'e', 'd', 'i', 't', 'i',
    'n', 'g']]
  initial := ⟨default, 0⟩
  readFields
    | 0, fields => do
      let account ← member fields ['a', 'c', 'c', 'o', 'u', 'n', 't'] (asName rules) default
      let relockTime ← member fields ['r', 'e', 'l', 'o', 'c', 'k', '_', 't', 'i', 'm', 'e'] (asTime rules) 0
      return ⟨account, relockTime⟩
    | _, _ => none

def getRequiredAuthorities (r : RequiredAuthorities) (op : EnableContentEditingOperation) : RequiredAuthorities :=
  r.addActive [op.account]

end EnableContentEditingOperation

/-! ## The history -/

namespace AccountHistory

/-- `flat_set::insert`, one after the other. -/
def insertAll (result : List AccountName) (accounts : List AccountName) : List AccountName :=
  accounts.foldl (fun s a => flatInsert a s) result

/-- The default of both visitors: the accounts that have to sign. -/
def visitRequired (result : List AccountName) (required : RequiredAuthorities) : List AccountName :=
  insertAll (insertAll (insertAll result required.posting) required.active) required.owner

def visitDapp (result : List AccountName) (op : Dapp.DappOperation) : List AccountName :=
  visitRequired result (op.getRequiredAuthorities {})

def visitToken (result : List AccountName) (op : Token.TokenOperation) : List AccountName :=
  visitRequired result (op.getRequiredAuthorities {})

def visitBobserver (result : List AccountName) (op : EnableContentEditingOperation) : List AccountName :=
  visitRequired result (op.getRequiredAuthorities {})

variable (rules : VariantRules)

/-- `get_impacted_account_from_custom` of JSON; a text that `fc::json` does not read throws. -/
def impactedFromJson (json : Bytes) (result : List AccountName) : Option (List AccountName) :=
  (rules.fromString json).map fun var =>
    (EnableContentEditingOperation.variantFormat rules).processInnerOperation visitBobserver rules var
      ((Token.variantFormat rules).processInnerOperation visitToken rules var
        ((Dapp.variantFormat rules).processInnerOperation visitDapp rules var result))

/-- `get_impacted_account_from_custom` of binary data. -/
def impactedFromData (data : Bytes) (result : List AccountName) : List AccountName :=
  EnableContentEditingOperation.format.processInnerOperation visitBobserver data
    (Token.format.processInnerOperation visitToken data (Dapp.format.processInnerOperation visitDapp data result))

/-- `operation_get_impacted_accounts` of an operation in a transaction. -/
def operationGetImpactedAccounts (op : Operation) (result : List AccountName) : Option (List AccountName) :=
  match op with
  | .accountCreate op => some (insertAll result [op.newAccountName, op.creator])
  | .bobserverUpdate op => some (insertAll result [op.owner])
  | .transfer op => some (insertAll result [op.from_, op.to_])
  | .requestAccountRecovery op => some (insertAll result [op.accountToRecover, op.recoveryAccount])
  | .recoverAccount op => some (insertAll result [op.accountToRecover])
  | .changeRecoveryAccount op => some (insertAll result [op.accountToRecover])
  | .updateBproducer op => some (insertAll result [op.bobserver])
  | .exceptBobserver op => some (insertAll result [op.bobserver])
  | .accountAuth op => some (insertAll result [op.account])
  | .customJson op => impactedFromJson rules op.json result
  | .customJsonDapp op => impactedFromJson rules op.payload result
  | .customBinary op => some (impactedFromData op.payload result)
  | .print op => some (insertAll result [op.account, op.root])
  | .burn op => some (insertAll result [op.account, op.root])
  | .transferSavings op => some (insertAll result [op.from_, op.to_])
  | .cancelTransferSavings op => some (insertAll result [op.from_, op.to_])
  | .conclusionTransferSavings op => some (insertAll result [op.from_, op.to_])
  | .stakingFund op => some (insertAll result [op.from_])
  | .conclusionStaking op => some (insertAll result [op.from_])
  | .returnStakingFund op => some (insertAll result [op.root])
  | .transferFund op => some (insertAll result [op.from_])
  | .setFundInterest op => some (insertAll result [op.root])
  | .setBlacklistAccount op => some (insertAll result [op.root])
  | op => some (visitRequired result (op.getRequiredAuthorities {}))

/-! ## What is in the set -/

variable {rules} {result : List AccountName} {a : AccountName}

theorem mem_insertAll {accounts : List AccountName} : a ∈ insertAll result accounts ↔ a ∈ accounts ∨ a ∈ result :=
  RequiredAuthorities.mem_inserted

/-- The account has to sign, whatever the level. -/
def Signs (required : RequiredAuthorities) (a : AccountName) : Prop :=
  a ∈ required.posting ∨ a ∈ required.active ∨ a ∈ required.owner

theorem mem_visitRequired {required : RequiredAuthorities} :
    a ∈ visitRequired result required ↔ a ∈ result ∨ Signs required a := by
  unfold visitRequired Signs
  simp only [mem_insertAll]
  tauto

theorem mem_visitDapp (op : Dapp.DappOperation) :
    a ∈ visitDapp result op ↔ a ∈ result ∨ Signs (op.getRequiredAuthorities {}) a :=
  mem_visitRequired

theorem mem_visitToken (op : Token.TokenOperation) :
    a ∈ visitToken result op ↔ a ∈ result ∨ Signs (op.getRequiredAuthorities {}) a :=
  mem_visitRequired

theorem mem_visitBobserver (op : EnableContentEditingOperation) :
    a ∈ visitBobserver result op ↔ a ∈ result ∨ Signs (op.getRequiredAuthorities {}) a :=
  mem_visitRequired

/-- The account has to sign for an operation that the payload reads as, of whichever plugin. -/
def SignsFor (rules : VariantRules) (payload : Payload) (a : AccountName) : Prop :=
  (∃ op ∈ (decodePayload rules (Dapp.variantFormat rules) Dapp.format payload).getD [],
      Signs (op.getRequiredAuthorities {}) a) ∨
    (∃ op ∈ (decodePayload rules (Token.variantFormat rules) Token.format payload).getD [],
      Signs (op.getRequiredAuthorities {}) a) ∨
    ∃ op ∈ (decodePayload rules (EnableContentEditingOperation.variantFormat rules) EnableContentEditingOperation.format
      payload).getD [], Signs (op.getRequiredAuthorities {}) a

theorem mem_impactedFromJson {json : Bytes} (h : impactedFromJson rules json [] = some result) :
    a ∈ result ↔ SignsFor rules (.json json) a := by
  obtain ⟨var, hvar, rfl⟩ := Option.map_eq_some_iff.mp h
  rw [VariantFormat.mem_processInnerOperation fun _ => mem_visitBobserver,
    VariantFormat.mem_processInnerOperation fun _ => mem_visitToken,
    VariantFormat.mem_processInnerOperation fun _ => mem_visitDapp]
  simp only [SignsFor, decodePayload, hvar, Option.bind_some, List.not_mem_nil, false_or, or_assoc]

theorem mem_impactedFromData {data : Bytes} : a ∈ impactedFromData data [] ↔ SignsFor rules (.binary data) a := by
  unfold impactedFromData
  rw [Raw.Format.mem_processInnerOperation fun _ => mem_visitBobserver,
    Raw.Format.mem_processInnerOperation fun _ => mem_visitToken,
    Raw.Format.mem_processInnerOperation fun _ => mem_visitDapp]
  simp only [SignsFor, decodePayload, List.not_mem_nil, false_or, or_assoc]

/-- **The impact of what is carried**: whoever signs for what the payload reads as. -/
theorem mem_operationGetImpactedAccounts {op : Operation} {id : Bytes} {payload : Payload}
    (hcarried : carried op = some (id, payload)) (h : operationGetImpactedAccounts rules op [] = some result) :
    a ∈ result ↔ SignsFor rules payload a := by
  cases op with
  | customJson op =>
    cases hcarried
    exact mem_impactedFromJson h
  | customJsonDapp op =>
    cases hcarried
    exact mem_impactedFromJson h
  | customBinary op =>
    cases hcarried
    cases h
    exact mem_impactedFromData
  | _ => cases hcarried

/-! ## What changes without being asked -/

/-- The account that an operation of the core changes without its signature. -/
def unaskedByCore (s : Core) : Operation → Option AccountName
  | .setBlacklistAccount op =>
    (s.accounts.at? fun x => x.name == op.account).bind fun x =>
      if x.banned = op.banned then none else some op.account
  | .returnStakingFund op =>
    (s.fundWithdraws.at? fun f =>
      f.from_ == op.to_ && cStr f.fundName == cStr op.fundName && f.requestId == op.requestId).bind fun f =>
        Token.unlessZero op.to_ f.amount
  | _ => none

section Core

variable {env : Env} {node : Node} {d d' : Database} {s s' : Core} {u : Unit} {op : Operation}

/-- What the account of a row shows before and after it is changed. -/
theorem standing_modifyAccount {id : Nat} {x y : AccountObject} (hc : s.accounts.clashes id y = false)
    (hx : s.accounts.lookup id = some x) (hname : y.name = x.name) :
    (s.standing none x.name).1 = some (x.balance, x.savingsBalance, x.banned) ∧
      (({ s with accounts := s.accounts.replace id y hc } : Core).standing none x.name).1 =
        some (y.balance, y.savingsBalance, y.banned) := by
  have hold : s.accounts.at? (fun z => z.name == x.name) = some x :=
    (at?_eq_some (uniqueKey_name x.name)).mpr ⟨mem_values.mpr ⟨id, lookup_eq_some.mp hx⟩, by simp⟩
  have hnew : (s.accounts.replace id y hc).at? (fun z => z.name == x.name) = some y := by
    rw [at?_replace (uniqueKey_name x.name) hx hc (by rw [hname]), if_pos (by simp)]
  unfold Core.standing
  rw [hold, hnew]
  simp

theorem standing_setBlacklistAccount {o : SetBlacklistAccountOperation}
    (h : setBlacklistAccountEvaluator o s = .ok u s') (a : AccountName) :
    s'.standing none a ≠ s.standing none a ↔ unaskedByCore s (.setBlacklistAccount o) = some a := by
  have hspares : Runs (Spares none s.names [o.account]) _ := spares_setBlacklistAccount o
  have hothers := (hspares _ _ _ h rfl).2
  simp only [setBlacklistAccountEvaluator, bind_eq_ok] at h
  obtain ⟨_, _, hroot, r, _, hget, h⟩ := h
  obtain rfl := (readOnly_requireRoot _ _).eq_of_ok hroot
  obtain ⟨hfind, rfl⟩ := getIn_eq_ok.mp hget
  have hat : s.accounts.at? (fun x => x.name == o.account) = some r.2 := congrArg (Option.map Prod.snd) hfind
  obtain ⟨hmem, hname⟩ := mem_of_find? hfind
  rw [beq_iff_eq] at hname
  have hunasked : unaskedByCore s (.setBlacklistAccount o) =
      if r.2.banned = o.banned then none else some o.account :=
    congrArg (Option.bind · fun x : AccountObject => if x.banned = o.banned then none else some o.account) hat
  rw [hunasked]
  by_cases hsame : r.2.banned = o.banned
  · rw [if_pos hsame] at h ⊢
    obtain ⟨-, rfl⟩ := pure_eq_ok.mp h
    simp
  · rw [if_neg hsame] at h ⊢
    by_cases ha : a = o.account
    · obtain ⟨x, y, hc, hx, hf, rfl⟩ := modifyIn_eq_ok.mp h
      obtain rfl := eq_of_mem (lookup_eq_some.mp hx) hmem
      cases hf
      obtain ⟨hold, hnew⟩ := standing_modifyAccount hc hx rfl
      rw [ha, ← hname]
      refine iff_of_true (fun heq => hsame ?_) rfl
      have hboth := hnew.symm.trans ((congrArg Prod.fst heq).trans hold)
      exact (congrArg (fun p : Int × Int × Bool => p.2.2) (Option.some.inj hboth)).symm
    · have hkept := hothers a (by simpa using ha)
      simp [hkept, eq_comm, ha]

theorem standing_endStaking {owner : AccountName} {fundName : Bytes} {requestId : Nat} {f : Nat × FundWithdrawObject}
    (h : endStaking owner fundName requestId s = .ok u s')
    (hfind : s.fundWithdraws.find? (fun f =>
      f.from_ == owner && cStr f.fundName == cStr fundName && f.requestId == requestId) = some f) (a : AccountName) :
    s'.standing none a ≠ s.standing none a ↔ Token.unlessZero owner f.2.amount = some a := by
  have hspares : Runs (Spares none s.names [owner]) _ := spares_endStaking owner fundName requestId
  have hothers := (hspares _ _ _ h rfl).2
  simp only [endStaking, bind_eq_ok, fcAssert_eq_ok, checked_eq_ok] at h
  obtain ⟨w, _, hw, fund, _, hfund, _, _, ⟨-, rfl⟩, r, _, hget, _, t, hcredit, delta, _, ⟨-, rfl⟩, _, t₁, hpool, _, t₂,
    hdue, hremove⟩ := h
  obtain ⟨hfind', rfl⟩ := getIn_eq_ok.mp hw
  obtain rfl := Option.some.inj (hfind'.symm.trans hfind)
  obtain ⟨-, rfl⟩ := getIn_eq_ok.mp hfund
  obtain ⟨hfound, rfl⟩ := getIn_eq_ok.mp hget
  obtain ⟨hmem, hname⟩ := mem_of_find? hfound
  rw [beq_iff_eq] at hname
  rw [Token.unlessZero_eq_some]
  by_cases ha : owner = a
  · subst ha
    -- after the credit only the fund and its queue are written
    have hrest : SameAccounts t s' := by
      have hpool := (always_bind (always_getIn _) fun _ => sameAccounts_within _ fun _ _ => rfl :
        Always SameAccounts (adjustFundBalance fundName delta)).runs _ _ _ hpool
      have hdue := (always_bind (always_getIn _) fun _ => sameAccounts_within _ fun _ _ => rfl :
        Always SameAccounts (adjustFundWithdrawBalance fundName delta)).runs _ _ _ hdue
      have hremove := (sameAccounts_within _ fun _ _ => rfl :
        Always SameAccounts (removeIn Index.fundWithdraws w.1)).runs _ _ _ hremove
      exact (hremove.trans hdue).trans hpool
    have hspared : Spares none t.names [] t s' := hrest.spares
    have hstanding : s'.standing none owner = t.standing none owner := (hspared rfl).2 owner List.not_mem_nil
    rw [hstanding]
    obtain ⟨x, y, hc, hx, hadjust, rfl⟩ := modifyIn_eq_ok.mp hcredit
    obtain rfl := eq_of_mem (lookup_eq_some.mp hx) hmem
    obtain ⟨n, hn, rfl⟩ := map_eq_ok hadjust
    have hn := safeAdd_eq_ok (adjust_eq_ok hn).2
    obtain ⟨hold, hnew⟩ := standing_modifyAccount hc hx rfl
    rw [← hname]
    constructor
    · refine fun hne => ⟨fun hzero => hne ?_, rfl⟩
      refine Prod.ext (hnew.trans (Eq.trans ?_ hold.symm)) rfl
      have hsum : n = r.2.balance := by
        rw [hn]
        show r.2.balance + w.2.amount = r.2.balance
        omega
      rw [hsum]
    · rintro ⟨hne, -⟩ heq
      have hboth := Option.some.inj (hnew.symm.trans ((congrArg Prod.fst heq).trans hold))
      have hsum : n = r.2.balance := congrArg Prod.fst hboth
      have hadd : n = r.2.balance + w.2.amount := hn
      omega
  · have hkept := hothers a (by simpa [eq_comm] using ha)
    simp [hkept, ha]

theorem standing_returnStakingFund {o : ReturnStakingFundOperation}
    (h : returnStakingFundEvaluator o s = .ok u s') (a : AccountName) :
    s'.standing none a ≠ s.standing none a ↔ unaskedByCore s (.returnStakingFund o) = some a := by
  obtain ⟨_, _, hroot, hend⟩ := bind_eq_ok.mp h
  obtain rfl := (readOnly_requireRoot _ _).eq_of_ok hroot
  obtain ⟨f, _, hget, -⟩ := bind_eq_ok.mp hend
  obtain ⟨hfind, -⟩ := getIn_eq_ok.mp hget
  have hat : s.fundWithdraws.at? (fun f =>
      f.from_ == o.to_ && cStr f.fundName == cStr o.fundName && f.requestId == o.requestId) = some f.2 :=
    congrArg (Option.map Prod.snd) hfind
  have hunasked : unaskedByCore s (.returnStakingFund o) = Token.unlessZero o.to_ f.2.amount :=
    congrArg (Option.bind · fun f : FundWithdrawObject => Token.unlessZero o.to_ f.amount) hat
  rw [hunasked]
  exact standing_endStaking hend hfind a

/-- **An operation of the core**: what it changes outside of the list of the history is not asked. -/
theorem standing_outside (hcarried : carried op = none) (h : applyOperation env node op d = .ok u d')
    (hresult : operationGetImpactedAccounts rules op [] = some result) (ha : a ∉ result) :
    d'.core.standing none a ≠ d.core.standing none a ↔ unaskedByCore d.core op = some a := by
  have hothers : ∀ a ∉ op.affected, d'.core.standing none a = d.core.standing none a :=
    (standing_of_applyOperation hcarried h).1
  have hlisted : a ∉ op.affected → unaskedByCore d.core op = none →
      (d'.core.standing none a ≠ d.core.standing none a ↔ unaskedByCore d.core op = some a) := by
    intro hfree hnone
    simp [hothers a hfree, hnone]
  have hfree : ∀ accounts, some (insertAll [] accounts) = some result → a ∉ accounts := by
    intro accounts heq hmem
    rw [← Option.some.inj heq] at ha
    exact ha (mem_insertAll.mpr (.inl hmem))
  cases op with
  | accountCreate op =>
    have := hfree _ hresult
    exact hlisted (by simp_all [Operation.affected]) rfl
  | accountUpdate op =>
    refine hlisted ?_ rfl
    rw [← Option.some.inj hresult, mem_visitRequired] at ha
    rw [Operation.affected, List.mem_singleton]
    rintro rfl
    refine ha (.inr ?_)
    have hrequired : (Operation.accountUpdate op).getRequiredAuthorities {} =
        if op.owner.isSome then RequiredAuthorities.addOwner {} [op.account]
        else RequiredAuthorities.addActive {} [op.account] := rfl
    rw [hrequired]
    split
    · exact .inr (.inr (.head _))
    · exact .inr (.inl (.head _))
  | returnStakingFund op =>
    obtain ⟨c, hc, rfl⟩ := onCore_eq_ok.mp h
    exact standing_returnStakingFund hc a
  | setBlacklistAccount op =>
    obtain ⟨c, hc, rfl⟩ := onCore_eq_ok.mp h
    exact standing_setBlacklistAccount hc a
  | customJson op => cases hcarried
  | customJsonDapp op => cases hcarried
  | customBinary op => cases hcarried
  | transfer op => exact hlisted (hfree _ hresult) rfl
  | recoverAccount op => exact hlisted (hfree _ hresult) rfl
  | transferSavings op => exact hlisted (hfree _ hresult) rfl
  | cancelTransferSavings op => exact hlisted (hfree _ hresult) rfl
  | conclusionTransferSavings op => exact hlisted (hfree _ hresult) rfl
  | stakingFund op => exact hlisted (hfree _ hresult) rfl
  | conclusionStaking op => exact hlisted (hfree _ hresult) rfl
  | transferFund op => exact hlisted (hfree _ hresult) rfl
  | print op =>
    have := hfree _ hresult
    exact hlisted (by simp_all [Operation.affected]) rfl
  | burn op =>
    have := hfree _ hresult
    exact hlisted (by simp_all [Operation.affected]) rfl
  | _ => exact hlisted List.not_mem_nil rfl

end Core

/-! ## Complete lists -/

/-- An operation at work: one of the core, or one that a plugin finds in an operation of the core. -/
inductive Work
  | core (op : Operation)
  | dapp (outer : Operation) (op : Dapp.DappOperation)
  | token (outer : Operation) (op : Token.TokenOperation)

namespace Work

/-- The operation that the history looks at. -/
def outer : Work → Operation
  | core op => op
  | dapp outer _ => outer
  | token outer _ => outer

def evaluate (env : Env) (node : Node) : Work → ChainM Unit
  | core op => applyOperation env node op
  | dapp _ op => Dapp.dappEvaluator env.fc op
  | token _ op => Token.tokenEvaluator env.tokenInterest op

/-- An operation of the core works itself unless it carries others, which the plugins decode. -/
def Arises (env : Env) : Work → Prop
  | core op => carried op = none
  | dapp outer op => ∃ id payload, carried outer = some (id, payload) ∧ op ∈ (env.decodeDapp payload).getD []
  | token outer op => ∃ id payload, carried outer = some (id, payload) ∧ op ∈ (env.decodeToken payload).getD []

def feePayer (d : Database) : Work → Option AccountName
  | core _ => none
  | dapp _ op => op.feePayer d
  | token _ op => op.feePayer d

/-- The account that is changed without its signature. -/
def unasked (d : Database) : Work → Option AccountName
  | core op => unaskedByCore d.core op
  | dapp _ _ => none
  | token _ op => op.unasked d.token

/-- The account has to sign for the outer operation, or for an operation that its payload reads as. -/
def Signed (rules : VariantRules) (w : Work) (a : AccountName) : Prop :=
  match carried w.outer with
  | none => Signs (w.outer.getRequiredAuthorities {}) a
  | some (_, payload) => SignsFor rules payload a

end Work

/-- Balance, savings, authorities, the banned flag or holdings of tokens differ; the balance of a payer is left out. -/
def Changes (payer : Option AccountName) (d d' : Database) (a : AccountName) : Prop :=
  d'.core.standing payer a ≠ d.core.standing payer a ∨ d'.token.holdings a ≠ d.token.holdings a

/-- Whoever is changed by more than the fee is in the list. -/
def Complete (rules : VariantRules) (w : Work) (d d' : Database) : Prop :=
  ∀ result, operationGetImpactedAccounts rules w.outer [] = some result →
    ∀ a, Changes (w.feePayer d) d d' a → a ∈ result

/-- Whoever is changed and does not pay the fee is in the list. -/
def CompleteButPayer (rules : VariantRules) (w : Work) (d d' : Database) : Prop :=
  ∀ result, operationGetImpactedAccounts rules w.outer [] = some result →
    ∀ a, w.feePayer d ≠ some a → Changes none d d' a → a ∈ result

section Complete

variable {env : Env} {node : Node} {d d' : Database} {u : Unit} {w : Work}

theorem signs_of_signer {op : Token.TokenOperation} (h : op.signer = some a) : Signs (op.getRequiredAuthorities {}) a := by
  cases op with
  | createToken op => cases h
  | issueToken op => cases h
  | _ =>
    cases h
    exact .inr (.inl (.head _))

/-- What the history computes for an operation that arises. -/
theorem impacted_of_arises (hw : w.Arises (env.decoding rules)) (hunasked : w.unasked d = some a)
    (hresult : operationGetImpactedAccounts rules w.outer [] = some result) : a ∈ result ↔ w.Signed rules a := by
  have hcustom : ∀ id payload, carried w.outer = some (id, payload) → (a ∈ result ↔ w.Signed rules a) := by
    intro id payload hcarried
    rw [mem_operationGetImpactedAccounts hcarried hresult, Work.Signed, hcarried]
  cases w with
  | core op =>
    have hnone : carried op = none := hw
    have hsigned : (Work.core op).Signed rules a ↔ Signs (op.getRequiredAuthorities {}) a := by
      unfold Work.Signed
      rw [show carried (Work.core op).outer = none from hnone]
      rfl
    rw [hsigned]
    cases op with
    | setBlacklistAccount op =>
      cases hresult
      simp [Signs, Operation.getRequiredAuthorities, RequiredAuthorities.addActive, insertAll]
    | returnStakingFund op =>
      cases hresult
      simp [Signs, Operation.getRequiredAuthorities, RequiredAuthorities.addActive, insertAll]
    | _ => cases hunasked
  | dapp outer op => cases hunasked
  | token outer op =>
    obtain ⟨id, payload, hcarried, -⟩ := hw
    exact hcustom id payload hcarried

/-- The history finds a set for every operation that arises. -/
theorem impacted_of_unasked (hw : w.Arises (env.decoding rules)) (hunasked : w.unasked d = some a) :
    ∃ result, operationGetImpactedAccounts rules w.outer [] = some result := by
  cases w with
  | core op =>
    cases op with
    | setBlacklistAccount op => exact ⟨_, rfl⟩
    | returnStakingFund op => exact ⟨_, rfl⟩
    | _ => cases hunasked
  | dapp outer op => cases hunasked
  | token outer op =>
    obtain ⟨id, payload, hcarried, hop⟩ := hw
    -- a text that is not read holds no operation
    have hjson : ∀ json, payload = .json json → ∃ result, impactedFromJson rules json [] = some result := by
      rintro json rfl
      cases hvar : rules.fromString json with
      | none => simp [Env.decoding, decodePayload, hvar] at hop
      | some var => exact ⟨_, congrArg (Option.map _) hvar⟩
    cases outer with
    | customJson o =>
      cases hcarried
      exact hjson _ rfl
    | customJsonDapp o =>
      cases hcarried
      exact hjson _ rfl
    | customBinary o => exact ⟨_, rfl⟩
    | _ => cases hcarried

/-- **Outside of the list** exactly the account that is not asked changes. -/
theorem changes_outside (hw : w.Arises (env.decoding rules)) (h : w.evaluate (env.decoding rules) node d = .ok u d')
    (hresult : operationGetImpactedAccounts rules w.outer [] = some result) (ha : a ∉ result) :
    Changes (w.feePayer d) d d' a ↔ w.unasked d = some a := by
  cases w with
  | core op =>
    obtain ⟨-, htoken⟩ : (∀ a ∉ op.affected, d'.core.standing none a = d.core.standing none a) ∧ d'.token = d.token :=
      standing_of_applyOperation hw h
    have hcore := standing_outside hw h hresult ha
    have hchanges : Changes none d d' a ↔ unaskedByCore d.core op = some a := by
      unfold Changes
      rw [htoken]
      simpa using hcore
    exact hchanges
  | dapp outer op =>
    have htoken : d.token = d'.token := (onTokens_dappEvaluator (R := Eq) _ op).runs _ _ _ h
    have hstanding := standing_dappEvaluator h a
    have hsame : ¬ Changes (op.feePayer d) d d' a := by
      unfold Changes
      rw [← htoken]
      simpa using hstanding
    exact iff_of_false hsame (by simp [Work.unasked])
  | token outer op =>
    obtain ⟨id, payload, hcarried, hop⟩ := hw
    rw [mem_operationGetImpactedAccounts hcarried hresult] at ha
    have hsigner : op.signer ≠ some a := by
      intro hsigner
      exact ha (.inr (.inl ⟨op, hop, signs_of_signer hsigner⟩))
    have hholdings := Token.holdings_tokenEvaluator h hsigner
    have hstanding := standing_tokenEvaluator h a
    have hchanges : Changes (op.feePayer d) d d' a ↔ op.unasked d.token = some a := by
      unfold Changes
      rw [hstanding]
      simpa using hholdings
    exact hchanges

theorem standing_of_ne {payer : Option AccountName} {c : Core} (h : payer ≠ some a) :
    c.standing payer a = c.standing none a := by
  simp [Core.standing, h]

theorem changes_of_ne {payer : Option AccountName} (h : payer ≠ some a) : Changes payer d d' a ↔ Changes none d d' a := by
  unfold Changes
  rw [standing_of_ne h, standing_of_ne h]

/-- **Impacted accounts are complete** exactly when the account that is changed without its signature, if there is one,
signs for something that the payload reads as.  Where payers are passed over altogether, it may also be the payer. -/
theorem impacted_accounts_complete_iff (hw : w.Arises (env.decoding rules))
    (h : w.evaluate (env.decoding rules) node d = .ok u d') :
    (Complete rules w d d' ↔ ∀ a, w.unasked d = some a → w.Signed rules a) ∧
      (CompleteButPayer rules w d d' ↔ ∀ a, w.unasked d = some a → w.Signed rules a ∨ w.feePayer d = some a) := by
  constructor
  · constructor
    · intro hcomplete a hunasked
      obtain ⟨result, hresult⟩ := impacted_of_unasked hw hunasked
      rw [← impacted_of_arises hw hunasked hresult]
      by_contra ha
      exact ha (hcomplete result hresult a ((changes_outside hw h hresult ha).mpr hunasked))
    · intro hsigned result hresult a hchanges
      by_contra ha
      have hunasked := (changes_outside hw h hresult ha).mp hchanges
      exact ha ((impacted_of_arises hw hunasked hresult).mpr (hsigned a hunasked))
  · constructor
    · intro hcomplete a hunasked
      obtain ⟨result, hresult⟩ := impacted_of_unasked hw hunasked
      rw [← impacted_of_arises hw hunasked hresult]
      by_contra ha
      rw [not_or] at ha
      have hchanges := (changes_outside hw h hresult ha.1).mpr hunasked
      exact ha.1 (hcomplete result hresult a ha.2 ((changes_of_ne ha.2).mp hchanges))
    · intro hsigned result hresult a hpayer hchanges
      by_contra ha
      have hunasked := (changes_outside hw h hresult ha).mp ((changes_of_ne hpayer).mpr hchanges)
      rcases hsigned a hunasked with hsign | hpays
      · exact ha ((impacted_of_arises hw hunasked hresult).mpr hsign)
      · exact hpayer hpays

end Complete

/-! ### A banned account -/

/-- The chain once the first miner has created the root account. -/
def rootedState : Database :=
  after (applyOperation (sampleEnv.decoding DappHistory.burnRules) {}
    (.accountCreate
      { creator := initMinerName, newAccountName := rootAccount, owner := .ofKey ⟨1⟩, active := .ofKey ⟨1⟩,
        posting := .ofKey ⟨1⟩, memoKey := ⟨1⟩, jsonMetadata := [] })
    (genesis ⟨1⟩))

/-- The root account bans another one. -/
def blacklisting : Work :=
  .core (.setBlacklistAccount { root := rootAccount, account := tempAccount, banned := true })

theorem blacklisting_succeeds :
    succeeds (blacklisting.evaluate (sampleEnv.decoding DappHistory.burnRules) {} rootedState) = true := by
  decide +kernel

/-- The root account prints for another one. -/
def printing : Work := .core (.print ⟨rootAccount, tempAccount, sgt 10⟩)

/-- The account that the money is printed for changes and is told. -/
theorem impacted_accounts_complete_iff_printing : ∃ d',
    printing.evaluate (sampleEnv.decoding DappHistory.burnRules) {} rootedState = .ok () d' ∧
      Changes none rootedState d' tempAccount ∧ printing.unasked rootedState = none ∧
      Complete DappHistory.burnRules printing rootedState d' ∧
      CompleteButPayer DappHistory.burnRules printing rootedState d' := by
  have hrun : succeeds (printing.evaluate (sampleEnv.decoding DappHistory.burnRules) {} rootedState) = true ∧
      (after (printing.evaluate (sampleEnv.decoding DappHistory.burnRules) {} rootedState)).core.standing none tempAccount ≠
        rootedState.core.standing none tempAccount := by
    decide +kernel
  have hunasked : printing.unasked rootedState = none := rfl
  have hnobody : ∀ {P : AccountName → Prop} a, printing.unasked rootedState = some a → P a := by
    intro P a ha
    rw [hunasked] at ha
    cases ha
  have hcomplete := (impacted_accounts_complete_iff (w := printing) rfl (eq_ok_of_succeeds hrun.1)).1.mpr hnobody
  have hbutPayer := (impacted_accounts_complete_iff (w := printing) rfl (eq_ok_of_succeeds hrun.1)).2.mpr hnobody
  exact ⟨_, eq_ok_of_succeeds hrun.1, .inl hrun.2, hunasked, hcomplete, hbutPayer⟩

/-- The history tells the root account of the ban and not the account that is banned. -/
theorem banned_account_is_not_told : ∃ d',
    blacklisting.evaluate (sampleEnv.decoding DappHistory.burnRules) {} rootedState = .ok () d' ∧
      ¬ CompleteButPayer DappHistory.burnRules blacklisting rootedState d' := by
  have hrun := eq_ok_of_succeeds blacklisting_succeeds
  refine ⟨_, hrun, fun hcomplete => ?_⟩
  have hresult : operationGetImpactedAccounts DappHistory.burnRules blacklisting.outer [] = some [rootAccount] := rfl
  have hfree : tempAccount ∉ [rootAccount] := by decide +kernel
  have hunasked : blacklisting.unasked rootedState = some tempAccount := by decide +kernel
  have hchanges := (changes_outside (w := blacklisting) rfl hrun hresult hfree).mpr hunasked
  exact hfree (hcomplete _ hresult _ (fun hnone => by cases hnone) hchanges)

end AccountHistory

end Sigmaengine
