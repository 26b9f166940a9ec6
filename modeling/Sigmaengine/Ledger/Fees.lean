import Sigmaengine.Ledger.Standing

/-!
# Who pays for an operation of a plugin

The operations of the plugins reach the accounts through the fee alone: the payer is found in the indices of the plugins
before the operation, and nothing of an account changes but the balance of the payer.
-/

namespace Sigmaengine

open Effect Table

/-! ## The payer -/

/-- The owner of the dapp with this name. -/
def ownerOfDapp (d : Database) (name : DappName) : Option AccountName :=
  (d.dapp.dapps.find? fun x => x.dappName == name).map fun r => r.2.owner

/-- The account that an operation of the dapp plugin takes the fee from. -/
def Dapp.DappOperation.feePayer (d : Database) : Dapp.DappOperation → Option AccountName
  | .createDapp _ => none
  | .updateDappKey op => some op.owner
  | .commentDapp op => ownerOfDapp d op.dappName
  | .commentVoteDapp op => ownerOfDapp d op.dappName
  | .deleteCommentDapp op => ownerOfDapp d op.dappName
  | .joinDapp op => ownerOfDapp d op.dappName
  | .leaveDapp op => ownerOfDapp d op.dappName
  | .voteDapp _ => none
  | .voteDappTrxFee _ => none

def tokenNamed (d : Database) (name : TokenName) : Option Token.TokenObject :=
  d.token.tokens.at? fun t => t.name == name

def tokenOfSymbol (d : Database) (symbol : AssetSymbol) : Option Token.TokenObject :=
  d.token.tokens.at? fun t => t.symbol == symbol

/-- The account that an operation of the token plugin takes the fee from: the owner of the dapp or the publisher of the
token. -/
def Token.TokenOperation.feePayer (d : Database) : Token.TokenOperation → Option AccountName
  | .createToken op => ownerOfDapp d op.dappName
  | .issueToken op => (tokenNamed d op.name).bind fun t => ownerOfDapp d t.dappName
  | .transferToken op => (tokenOfSymbol d op.amount.symbol).map Token.TokenObject.publisher
  | .burnToken op => (tokenOfSymbol d op.amount.symbol).bind fun t => ownerOfDapp d t.dappName
  | .setupTokenFund op => (tokenNamed d op.token).map Token.TokenObject.publisher
  | .setTokenStakingInterest op => (tokenNamed d op.token).map Token.TokenObject.publisher
  | .transferTokenFund op => (tokenNamed d op.token).map Token.TokenObject.publisher
  | .stakingTokenFund op => (tokenNamed d op.token).map Token.TokenObject.publisher
  | .transferTokenSavings op => (tokenNamed d op.token).map Token.TokenObject.publisher
  | .cancelTransferTokenSavings op => (tokenNamed d op.token).map Token.TokenObject.publisher
  | .concludeTransferTokenSavings op => (tokenNamed d op.token).map Token.TokenObject.publisher

/-! ## What is left alone around the fee -/

section Around

variable {payer : AccountName} {p : Option AccountName} {names : List (Nat × AccountName) × List (Nat × AccountName)}
  {α : Type}

/-- No account changes but the balance of the payer. -/
abbrev OnlyFee (p : Option AccountName) (names : List (Nat × AccountName) × List (Nat × AccountName)) :
    Database → Database → Prop :=
  CoreRel (Spares p names [])

theorem onlyFee_onDapp (m : Dapp.DappM α) : Runs (OnlyFee p names) (onDapp m) := (coreRel_onDapp m).runs

theorem onlyFee_onToken (m : Token.TokenM α) : Runs (OnlyFee p names) (onToken m) := (coreRel_onToken m).runs

theorem onlyFee_readOnly {m : ChainM α} (h : ReadOnly m) : Runs (OnlyFee p names) m := h.always.runs

theorem onlyFee_readCore {m : CoreM α} (h : ReadOnly m) : Runs (OnlyFee p names) (onCore m) :=
  onlyFee_readOnly (readOnly_within (l := corePart) h)

theorem onlyFee_onCore {m : CoreM α} (h : Runs (Spares p names []) m) : Runs (OnlyFee p names) (onCore m) := by
  intro d a d' hm
  obtain ⟨c, hc, rfl⟩ := onCore_eq_ok.mp hm
  exact h _ _ _ hc

theorem onlyFee_withView {m : Token.CoreView → Token.TokenM α} : Runs (OnlyFee p names) (Token.withView m) :=
  runs_bind (onlyFee_readOnly readOnly_get) fun _ => onlyFee_onToken _

/-- **The fee** is taken off the account that was checked. -/
theorem onlyFee_withDappFee {m : ChainM Unit} (hm : Runs (OnlyFee (some payer) names) m) :
    Runs (OnlyFee (some payer) names) (withDappFee payer m) := by
  intro d u d' h hnames
  simp only [withDappFee, bind_eq_ok] at h
  obtain ⟨fee, _, hcheck, _, t, hmid, hpay⟩ := h
  obtain ⟨c, hc, rfl⟩ := onCore_eq_ok.mp hcheck
  obtain ⟨rfl, ⟨a, ha, hname⟩, -, -⟩ := checkDappFee_eq_ok hc
  have hlisted : (fee.1, payer) ∈ names.1 := by
    rw [← hnames, ← hname]
    exact List.mem_map_of_mem (f := fun r : Nat × AccountObject => (r.1, r.2.name)) (lookup_eq_some.mp ha)
  have hreward : ∀ delta, Runs (Spares (some payer) names []) (adjustDappRewardFundBalance delta) := fun delta =>
    spares_of_always (always_bind always_get fun _ => always_bind (always_checked _) fun _ => fun _ => rfl)
  have hpaid : Runs (OnlyFee (some payer) names) (onCore (payDappFee fee)) := by
    refine onlyFee_onCore (runs_bind (spares_checked _) fun delta => ?_)
    exact runs_bind (spares_adjustBalance hlisted (.inr rfl) _) fun _ => hreward _
  exact IsTrans.trans (r := OnlyFee (some payer) names) _ _ _ (hm _ _ _ hmid) (hpaid _ _ _ hpay) hnames

/-- Stamping an author changes nothing of its standing. -/
theorem onlyFee_touchPost (author : Nat × AccountObject) (isRoot : Bool) (now : TimePointSec) :
    Runs (OnlyFee p names) (onCore (Dapp.touchPost author isRoot now)) := by
  refine onlyFee_onCore (runs_fcAssert fun _ => runs_fcAssert fun _ => spares_modifyAccount ?_ ?_)
  · rintro x _ ⟨⟩
    rfl
  · rintro x _ - - ⟨⟩
    exact ⟨rfl, rfl, fun _ => rfl⟩

end Around

/-! ## Operations of the dapp plugin -/

section Operations

variable {d d' : Database} {u : Unit}

theorem ownerOfDapp_eq {name : DappName} {text : String} {r : Nat × Dapp.DappObject} {s : Dapp.DappIndices}
    (h : Dapp.requireDapp name text d.dapp = .ok r s) : ownerOfDapp d name = some r.2.owner ∧ s = d.dapp := by
  obtain ⟨hfind, rfl⟩ := Dapp.requireDapp_eq_ok.mp h
  unfold ownerOfDapp
  rw [hfind]
  exact ⟨rfl, rfl⟩

/-- What runs after the dapp was looked up, with the payer known. -/
theorem standing_afterDapp {name : DappName} {text : String} {k : Nat × Dapp.DappObject → ChainM Unit}
    (hk : ∀ r, Runs (OnlyFee (some r.2.owner) d.core.names) (k r))
    (h : (onDapp (Dapp.requireDapp name text) >>= k) d = .ok u d') (a : AccountName) :
    d'.core.standing (ownerOfDapp d name) a = d.core.standing (ownerOfDapp d name) a := by
  obtain ⟨r, t, hdapp, hrun⟩ := bind_eq_ok.mp h
  obtain ⟨s, hs, rfl⟩ := onDapp_eq_ok.mp hdapp
  obtain ⟨howner, rfl⟩ := ownerOfDapp_eq hs
  rw [howner]
  exact (hk r _ _ _ hrun rfl).2 a List.not_mem_nil

theorem standing_updateDappKey {op : Dapp.DappKeyOperation} (h : Dapp.updateDappKeyEvaluator op d = .ok u d')
    (a : AccountName) : d'.core.standing (some op.owner) a = d.core.standing (some op.owner) a := by
  have hruns : Runs (OnlyFee (some op.owner) d.core.names) (Dapp.updateDappKeyEvaluator op) := by
    refine runs_bind (onlyFee_onDapp _) fun dapp => runs_fcAssert fun _ => onlyFee_withDappFee ?_
    exact runs_bind (onlyFee_readOnly (readOnly_ofOption _ _)) fun key => onlyFee_onDapp _
  exact (hruns _ _ _ h rfl).2 a List.not_mem_nil

theorem standing_commentDapp {fc : TextRules} {op : Dapp.CommentDappOperation}
    (h : Dapp.commentDappEvaluator fc op d = .ok u d') (a : AccountName) :
    d'.core.standing (ownerOfDapp d op.dappName) a = d.core.standing (ownerOfDapp d op.dappName) a := by
  refine standing_afterDapp (fun dapp => ?_) h a
  refine runs_bind (onlyFee_onDapp _) fun _ => runs_bind (onlyFee_onDapp _) fun _ => onlyFee_withDappFee ?_
  refine runs_fcAssert fun _ => runs_bind (onlyFee_onDapp _) fun existing => ?_
  refine runs_bind (onlyFee_readCore (readOnly_getAccount _)) fun author => ?_
  refine runs_bind (onlyFee_onDapp _) fun parent => runs_fcAssert fun _ => ?_
  refine runs_bind (onlyFee_readCore readOnly_headBlockTime) fun now => ?_
  cases existing with
  | none => exact runs_bind (onlyFee_onDapp _) fun _ => runs_bind (onlyFee_touchPost _ _ _) fun _ => onlyFee_onDapp _
  | some c => exact onlyFee_onDapp _

theorem standing_commentVoteDapp {op : Dapp.CommentVoteDappOperation}
    (h : Dapp.commentVoteDappEvaluator op d = .ok u d') (a : AccountName) :
    d'.core.standing (ownerOfDapp d op.dappName) a = d.core.standing (ownerOfDapp d op.dappName) a := by
  refine standing_afterDapp (fun dapp => ?_) h a
  refine runs_bind (onlyFee_onDapp _) fun _ => onlyFee_withDappFee ?_
  refine runs_bind (onlyFee_onDapp _) fun comment => ?_
  refine runs_bind (onlyFee_readCore (readOnly_getAccount _)) fun voter => ?_
  refine runs_bind (onlyFee_readCore readOnly_headBlockTime) fun now => runs_fcAssert fun _ => ?_
  exact runs_bind (onlyFee_readOnly (readOnly_ofOption _ _)) fun type => onlyFee_onDapp _

theorem standing_deleteCommentDapp {op : Dapp.DeleteCommentDappOperation}
    (h : Dapp.deleteCommentDappEvaluator op d = .ok u d') (a : AccountName) :
    d'.core.standing (ownerOfDapp d op.dappName) a = d.core.standing (ownerOfDapp d op.dappName) a := by
  obtain ⟨found, _, hfound, h⟩ := bind_eq_ok.mp h
  obtain rfl := (readOnly_within (l := dappPart) (readOnly_findIn _)).eq_of_ok hfound
  obtain ⟨comment, _, hcomment, h⟩ := bind_eq_ok.mp h
  obtain rfl := (readOnly_ofOption _ _).eq_of_ok hcomment
  obtain ⟨_, _, hleaf, h⟩ := bind_eq_ok.mp h
  obtain ⟨-, rfl⟩ := fcAssert_eq_ok.mp hleaf
  obtain ⟨dapp, _, hdapp, h⟩ := bind_eq_ok.mp h
  obtain ⟨_, hget, rfl⟩ := onDapp_eq_ok.mp hdapp
  obtain ⟨hfind, rfl⟩ := getIn_eq_ok.mp hget
  have howner : ownerOfDapp d op.dappName = some dapp.2.owner :=
    congrArg (Option.map fun r : Nat × Dapp.DappObject => r.2.owner) hfind
  have hruns : Runs (OnlyFee (some dapp.2.owner) d.core.names) (withDappFee dapp.2.owner do
      let now ← onCore headBlockTime
      onDapp (Dapp.deleteComment comment now)) :=
    onlyFee_withDappFee (runs_bind (onlyFee_readCore readOnly_headBlockTime) fun now => onlyFee_onDapp _)
  rw [howner]
  exact (hruns _ _ _ h rfl).2 a List.not_mem_nil

theorem standing_joinDapp {op : Dapp.MemberOperation} (h : Dapp.joinDappEvaluator op d = .ok u d') (a : AccountName) :
    d'.core.standing (ownerOfDapp d op.dappName) a = d.core.standing (ownerOfDapp d op.dappName) a := by
  obtain ⟨now, _, hnow, h⟩ := bind_eq_ok.mp h
  obtain rfl := (readOnly_within (l := corePart) readOnly_headBlockTime).eq_of_ok hnow
  obtain ⟨found, _, hfound, h⟩ := bind_eq_ok.mp h
  obtain rfl := (readOnly_within (l := corePart) (readOnly_findIn _)).eq_of_ok hfound
  obtain ⟨account, _, haccount, h⟩ := bind_eq_ok.mp h
  obtain rfl := (readOnly_ofOption _ _).eq_of_ok haccount
  refine standing_afterDapp (fun dapp => ?_) h a
  exact runs_bind (onlyFee_onDapp _) fun _ => onlyFee_withDappFee (onlyFee_onDapp _)

theorem standing_leaveDapp {op : Dapp.MemberOperation} (h : Dapp.leaveDappEvaluator op d = .ok u d') (a : AccountName) :
    d'.core.standing (ownerOfDapp d op.dappName) a = d.core.standing (ownerOfDapp d op.dappName) a := by
  obtain ⟨found, _, hfound, h⟩ := bind_eq_ok.mp h
  obtain rfl := (readOnly_within (l := corePart) (readOnly_findIn _)).eq_of_ok hfound
  obtain ⟨_, _, hsome, h⟩ := bind_eq_ok.mp h
  obtain ⟨-, rfl⟩ := fcAssert_eq_ok.mp hsome
  exact standing_afterDapp (fun dapp => onlyFee_withDappFee (onlyFee_onDapp _)) h a

/-- Operations that nobody pays for. -/
theorem standing_ofFree {m : ChainM Unit} (hm : Runs (OnlyFee none d.core.names) m) (h : m d = .ok u d')
    (a : AccountName) : d'.core.standing none a = d.core.standing none a :=
  (hm _ _ _ h rfl).2 a List.not_mem_nil

/-- **An operation of the dapp plugin** changes nothing of an account but the balance of the payer. -/
theorem standing_dappEvaluator {fc : TextRules} {op : Dapp.DappOperation} (h : Dapp.dappEvaluator fc op d = .ok u d')
    (a : AccountName) : d'.core.standing (op.feePayer d) a = d.core.standing (op.feePayer d) a := by
  cases op with
  | createDapp op =>
    refine standing_ofFree ?_ h a
    refine runs_bind (onlyFee_readCore readOnly_headBlockTime) fun now => ?_
    refine runs_bind (onlyFee_readCore (readOnly_findIn _)) fun owner => ?_
    refine runs_bind (onlyFee_readOnly (readOnly_ofOption _ _)) fun owner => ?_
    exact runs_bind (onlyFee_readOnly (readOnly_ofOption _ _)) fun key => onlyFee_onDapp _
  | updateDappKey op => exact standing_updateDappKey h a
  | commentDapp op => exact standing_commentDapp h a
  | commentVoteDapp op => exact standing_commentVoteDapp h a
  | deleteCommentDapp op => exact standing_deleteCommentDapp h a
  | joinDapp op => exact standing_joinDapp h a
  | leaveDapp op => exact standing_leaveDapp h a
  | voteDapp op =>
    refine standing_ofFree ?_ h a
    refine runs_bind (onlyFee_readCore (readOnly_requireBproducer _)) fun _ => ?_
    refine runs_bind (onlyFee_readCore readOnly_headBlockTime) fun now => ?_
    exact runs_bind (onlyFee_readOnly (readOnly_ofOption _ _)) fun vote => onlyFee_onDapp _
  | voteDappTrxFee op =>
    have hvotes : ∀ {β : Type} (m : Prog Error (Table Dapp.DappTrxFeeVoteObject) β),
        Runs (OnlyFee none d.core.names) (within feeVotePart m) := fun m =>
      (always_within (fun _ d => Std.Refl.refl (r := Spares none _ []) d.core) m).runs
    refine standing_ofFree ?_ h a
    refine runs_bind (onlyFee_readCore (readOnly_requireBproducer _)) fun _ => ?_
    refine runs_bind (onlyFee_readCore readOnly_headBlockTime) fun now => ?_
    refine runs_bind (onlyFee_readOnly (readOnly_findIn _)) fun found => ?_
    cases found with
    | none => exact runs_bind (hvotes _) fun _ => runs_pure _
    | some v => exact hvotes _

/-! ## Operations of the token plugin -/

theorem tokenNamed_eq {name : TokenName} {r : Nat × Token.TokenObject} {t : Database}
    (h : onToken (Token.requireToken name) d = .ok r t) : tokenNamed d name = some r.2 ∧ t = d := by
  obtain ⟨s, hs, rfl⟩ := within_eq_ok.mp h
  simp only [Token.requireToken, bind_eq_ok, findIn_eq_ok, ofOption_eq_ok] at hs
  obtain ⟨_, _, ⟨hfind, rfl⟩, rfl, rfl⟩ := hs
  exact ⟨congrArg (Option.map Prod.snd) hfind, rfl⟩

theorem tokenOfSymbol_eq {symbol : AssetSymbol} {r : Nat × Token.TokenObject} {t : Database}
    (h : onToken (Token.requireSymbol symbol) d = .ok r t) : tokenOfSymbol d symbol = some r.2 ∧ t = d := by
  obtain ⟨s, hs, rfl⟩ := within_eq_ok.mp h
  simp only [Token.requireSymbol, bind_eq_ok, findIn_eq_ok, ofOption_eq_ok] at hs
  obtain ⟨_, _, ⟨hfind, rfl⟩, rfl, rfl⟩ := hs
  exact ⟨congrArg (Option.map Prod.snd) hfind, rfl⟩

/-- What runs after the token was looked up by its name, with its publisher as the payer. -/
theorem standing_afterToken {name : TokenName} {k : Nat × Token.TokenObject → ChainM Unit}
    (hk : ∀ r, Runs (OnlyFee (some r.2.publisher) d.core.names) (k r))
    (h : (onToken (Token.requireToken name) >>= k) d = .ok u d') (a : AccountName) :
    d'.core.standing ((tokenNamed d name).map Token.TokenObject.publisher) a =
      d.core.standing ((tokenNamed d name).map Token.TokenObject.publisher) a := by
  obtain ⟨r, t, htoken, hrun⟩ := bind_eq_ok.mp h
  obtain ⟨hnamed, rfl⟩ := tokenNamed_eq htoken
  rw [hnamed]
  exact (hk r _ _ _ hrun rfl).2 a List.not_mem_nil

/-- **An operation of the token plugin** changes nothing of an account but the balance of the payer. -/
theorem standing_tokenEvaluator {interest : Token.TokenInterest} {op : Token.TokenOperation}
    (h : Token.tokenEvaluator interest op d = .ok u d') (a : AccountName) :
    d'.core.standing (op.feePayer d) a = d.core.standing (op.feePayer d) a := by
  cases op with
  | createToken op =>
    refine standing_afterDapp (fun dapp => runs_fcAssert fun _ => runs_fcAssert fun _ => ?_) h a
    exact runs_bind (onlyFee_onDapp _) fun _ => onlyFee_withDappFee onlyFee_withView
  | issueToken op =>
    obtain ⟨r, t, htoken, hrun⟩ := bind_eq_ok.mp h
    obtain ⟨hnamed, rfl⟩ := tokenNamed_eq htoken
    have hpayer : (Token.TokenOperation.issueToken op).feePayer t = ownerOfDapp t r.2.dappName :=
      congrArg (Option.bind · fun x : Token.TokenObject => ownerOfDapp t x.dappName) hnamed
    rw [hpayer]
    refine standing_afterDapp (fun dapp => runs_fcAssert fun _ => runs_fcAssert fun _ => ?_) hrun a
    exact onlyFee_withDappFee onlyFee_withView
  | transferToken op =>
    obtain ⟨r, t, htoken, hrun⟩ := bind_eq_ok.mp h
    obtain ⟨hsymbol, rfl⟩ := tokenOfSymbol_eq htoken
    have hpayer : (Token.TokenOperation.transferToken op).feePayer t = some r.2.publisher :=
      congrArg (Option.map Token.TokenObject.publisher) hsymbol
    rw [hpayer]
    exact (onlyFee_withDappFee onlyFee_withView _ _ _ hrun rfl).2 a List.not_mem_nil
  | burnToken op =>
    obtain ⟨r, t, htoken, hrun⟩ := bind_eq_ok.mp h
    obtain ⟨hsymbol, rfl⟩ := tokenOfSymbol_eq htoken
    have hpayer : (Token.TokenOperation.burnToken op).feePayer t = ownerOfDapp t r.2.dappName :=
      congrArg (Option.bind · fun x : Token.TokenObject => ownerOfDapp t x.dappName) hsymbol
    rw [hpayer]
    exact standing_afterDapp (fun dapp => runs_fcAssert fun _ => onlyFee_withDappFee onlyFee_withView) hrun a
  | setupTokenFund op =>
    refine standing_afterToken (fun r => runs_fcAssert fun _ => runs_fcAssert fun _ => ?_) h a
    exact onlyFee_withDappFee onlyFee_withView
  | setTokenStakingInterest op =>
    refine standing_afterToken (fun r => runs_fcAssert fun _ => onlyFee_withDappFee ?_) h a
    exact runs_bind (onlyFee_readOnly (readOnly_checked _)) fun rate => onlyFee_withView
  | transferTokenFund op =>
    exact standing_afterToken (fun r => runs_fcAssert fun _ => onlyFee_withDappFee onlyFee_withView) h a
  | stakingTokenFund op => exact standing_afterToken (fun r => onlyFee_withDappFee onlyFee_withView) h a
  | transferTokenSavings op => exact standing_afterToken (fun r => onlyFee_withDappFee onlyFee_withView) h a
  | cancelTransferTokenSavings op => exact standing_afterToken (fun r => onlyFee_withDappFee onlyFee_withView) h a
  | concludeTransferTokenSavings op => exact standing_afterToken (fun r => onlyFee_withDappFee onlyFee_withView) h a

end Operations

end Sigmaengine
