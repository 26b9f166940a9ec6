import Sigmaengine.Consensus.Recovery
import Sigmaengine.Dapp.Runs

/-!
# Who votes on comments

Accounts are never removed, so whoever has voted on a comment is still there: the votes on a comment can be listed with
the names of the voters.
-/

namespace Sigmaengine

open Effect Table Dapp

variable {env : Env} {node : Node} {d d' : Database}

/-- Every account is still there, with its name. -/
def AccountsKept (s s' : Core) : Prop := Retains AccountObject.name s.accounts s'.accounts

instance : Std.Refl AccountsKept := ⟨fun _ => .refl _⟩

instance : IsTrans Core AccountsKept := ⟨fun _ _ _ h h' => h.trans h'⟩

/-- The voters of all votes on comments are accounts. -/
def VotersKnown (d : Database) : Prop :=
  ∀ v ∈ d.dapp.commentVotes.values, ∃ a, d.core.accounts.lookup v.voter = some a

/-- Accounts stay, and voters are known if they were before. -/
def VotersStay (d d' : Database) : Prop := AccountsKept d.core d'.core ∧ Kept VotersKnown d d'

instance : Std.Refl VotersStay := ⟨fun _ => ⟨.refl _, id⟩⟩

instance : IsTrans Database VotersStay := ⟨fun _ _ _ h h' => ⟨h.1.trans h'.1, h'.2 ∘ h.2⟩⟩

/-- The voters that were accounts before still are. -/
theorem votersStay_of_known (hcore : AccountsKept d.core d'.core)
    (hvotes : VotersKnown d → ∀ v ∈ d'.dapp.commentVotes.values, ∃ a, d.core.accounts.lookup v.voter = some a) :
    VotersStay d d' := by
  refine ⟨hcore, fun hd v hv => ?_⟩
  obtain ⟨a, ha⟩ := hvotes hd v hv
  obtain ⟨a', ha', -⟩ := hcore _ a ha
  exact ⟨a', ha'⟩

theorem votersStay_of_same (hcore : AccountsKept d.core d'.core) (hforum : SameForum d d') : VotersStay d d' := by
  apply votersStay_of_known hcore
  intro hd
  rw [show d'.dapp.commentVotes = d.dapp.commentVotes from congrArg Prod.snd hforum]
  exact hd

/-! ## Accounts -/

theorem PartnersKept.accountsKept {s s' : Core} (h : PartnersKept s s') : AccountsKept s s' := by
  intro id a ha
  obtain ⟨a', ha', hkey⟩ := h id a ha
  exact ⟨a', ha', congrArg Prod.fst hkey⟩

theorem operationRuns_accountsKept : OperationRuns AccountsKept := by
  have hkept : ∀ {m : CoreM Unit}, Always PartnersKept m → Runs AccountsKept m := fun h =>
    (h.mono fun _ _ => PartnersKept.accountsKept).runs
  have h := operationFrame_partnersKept
  constructor
  · exact fun _ _ hmoney => hmoney.partnersKept.accountsKept
  · exact fun o => hkept (h.accountCreate o)
  · exact fun o => hkept (h.accountUpdate o)
  · exact fun o => hkept (h.requestAccountRecovery o)
  · exact fun o => hkept (h.recoverAccount o)
  · exact fun o => hkept (h.changeRecoveryAccount o)
  · exact fun o => hkept (h.bobserverUpdate o)
  · exact fun o => hkept (h.updateBproducer o)
  · exact fun o => hkept (h.exceptBobserver o)

theorem Upkeep.accountsKept {s s' : Core} (h : Upkeep s s') : AccountsKept s s' := by
  have hrecovery : s'.recovery = s.recovery := congrArg Prod.fst h
  simp only [Core.recovery, Prod.mk.injEq] at hrecovery
  exact PartnersKept.accountsKept (retains_of_rows hrecovery.1)

/-- A new recovery account leaves the accounts as they are. -/
theorem accountsKept_accountRecoveryProcessing : Runs AccountsKept accountRecoveryProcessing := by
  have hsame : ∀ {α : Type} {m : CoreM α}, (∀ c u c', m c = .ok u c' → c'.accounts = c.accounts) → Runs AccountsKept m :=
    fun h c u c' hm => by
      unfold AccountsKept
      rw [h c u c' hm]
      exact .refl _
  refine runs_bind readOnly_get.always.runs fun s => runs_bind (runs_loop ?_ _) fun _ =>
    runs_bind (runs_loop ?_ _) fun _ => runs_loop ?_ _
  · refine runs_bind readOnly_get.always.runs fun s => ?_
    split
    · exact runs_pure _
    · split
      · refine runs_bind (hsame fun c u c' h => ?_) fun _ => runs_pure _
        rw [removeIn_eq_ok.mp h]
        rfl
      · exact runs_pure _
  · refine runs_bind readOnly_get.always.runs fun s => ?_
    split
    · exact runs_pure _
    · split
      · refine runs_bind (hsame fun c u c' h => ?_) fun _ => runs_pure _
        rw [removeIn_eq_ok.mp h]
        rfl
      · exact runs_pure _
  · refine runs_bind readOnly_get.always.runs fun s => ?_
    split
    · exact runs_pure _
    · split
      · refine runs_bind (readOnly_getIn _).always.runs fun account => ?_
        refine runs_bind ?_ fun _ => runs_bind (hsame fun c u c' h => ?_) fun _ => runs_pure _
        · intro c u c' h
          obtain ⟨a, b, hc, ha, hf, rfl⟩ := modifyIn_eq_ok.mp h
          cases hf
          exact retains_replace ha hc rfl
        · rw [removeIn_eq_ok.mp h]
          rfl
      · exact runs_pure _

/-! ## Operations of the dapp plugin -/

/-- **One step** of the dapp plugin: the voter of a new vote has just been looked up. -/
theorem Dapp.DappStep.voters {op : DappOperation} {s' : DappIndices} (h : DappStep d op s') (hd : VotersKnown d) :
    ∀ v ∈ s'.commentVotes.values, ∃ a, d.core.accounts.lookup v.voter = some a := by
  cases h with
  | created | rekeyed | joined | left | voteCast | voteChanged | feeVoted => exact hd
  | @posted op _ now r parent hfound happroved hname hparent hnew hstore =>
    obtain ⟨hc, hcount⟩ := storeComment_eq_ok hstore
    cases parent with
    | none => exact hcount ▸ hd
    | some p =>
      rw [(runs_countChild (k := fun c => c.place) (fun _ _ _ => rfl) _ _ _ _ _ _ hcount).commentVotes]
      exact hd
  | edited hfound hedit =>
    rw [(runs_editComment (k := fun c => c.place) (fun _ _ _ => rfl) _ _ _ _ _ _ hedit).commentVotes]
    exact hd
  | @voted op _ type c voter now hfound hvoter htype hcast =>
    obtain ⟨c', hc, hlookup, hstore⟩ := castVote_eq_ok hcast
    rcases hstore with ⟨-, hv, rfl⟩ | ⟨r, hr, -, -, -, hv, rfl⟩
    · exact forall_insert (h := hv) hd ⟨voter.2, lookup_eq_some.mpr (mem_of_find? hvoter).1⟩
    · exact forall_replace (h := hv) hd (hd r.2 (mem_values.mpr ⟨r.1, hr⟩))
  | @deleted op _ c now hfound hleaf hdelete =>
    obtain ⟨s₁, hcount, rfl⟩ := deleteComment_eq_ok hdelete
    have hlayout := runs_uncountChild (k := fun c => c.place) (fun _ _ _ => rfl) _ _ _ _ _ _ hcount
    intro v hv
    have hv : v ∈ s₁.commentVotes.values := hv
    rw [hlayout.commentVotes] at hv
    exact hd v (mem_values_without.mp hv).1

theorem votersStay_dappEvaluator (fc : TextRules) (op : DappOperation) : Runs VotersStay (dappEvaluator fc op) := by
  have hpays : ∀ {m : CoreM Unit}, Always MoneyOnly m → Always (CoreRel AccountsKept) (onCore m) := fun h =>
    coreRel_onCore (h.mono operationRuns_accountsKept.money)
  have hcore := always_dappEvaluator fc (fun fee => hpays (moneyOnly_payDappFee fee))
    (fun author isRoot now => hpays (moneyOnly_touchPost author isRoot now)) coreRel_onDapp
    (fun m => always_within (fun _ s => Std.Refl.refl s.core) m) op
  intro d u d' h
  exact votersStay_of_known (hcore.runs _ _ _ h) (dappStep_dappEvaluator h).voters

/-! ## Runs -/

theorem votersStay_tokenEvaluator (interest : Token.TokenInterest) (op : Token.TokenOperation) :
    Always VotersStay (Token.tokenEvaluator interest op) := by
  have hcore := always_tokenEvaluator interest (R := CoreRel AccountsKept)
    (fun fee => coreRel_onCore ((moneyOnly_payDappFee fee).mono operationRuns_accountsKept.money)) coreRel_onToken op
  intro d
  exact votersStay_of_same (hcore d) (congrArg DappIndices.forum (sameDapp_tokenEvaluator interest op d))

theorem votersStay_interpret (id : Bytes) (payload : Payload) (outer : RequiredAuthorities) :
    Always VotersStay (interpret env id payload outer) := by
  unfold interpret
  split
  · exact always_bind (readOnly_ofOption _ _).always fun ops =>
      always_applyOperations_of_runs (votersStay_dappEvaluator env.fc)
  · split
    · exact always_bind (readOnly_ofOption _ _).always fun ops =>
        always_applyOperations_of_runs fun op => (votersStay_tokenEvaluator env.tokenInterest op).runs
    · exact always_pure _

theorem votersStay_applyOperation (node : Node) (op : Operation) : Runs VotersStay (applyOperation env node op) := by
  have hcore : Runs (CoreRel AccountsKept) (applyOperation env node op) :=
    operationRuns_accountsKept.applyOperation node op
  rcases applyOperation_carried env node op with ⟨m, hm⟩ | ⟨id, payload, size, text, -, hm⟩
  · intro d u d' h
    have hforum := (sameForum_onCore m).runs
    rw [← hm] at hforum
    exact votersStay_of_same (hcore _ _ _ h) (hforum _ _ _ h)
  · rw [hm]
    refine Always.runs (always_bind (readOnly_assert _ _).always fun _ => ?_)
    dsimp only
    split
    · exact votersStay_interpret _ _ _
    · exact always_attempt (votersStay_interpret _ _ _)

/-- What the chain does to its own indices. -/
theorem votersStay_onCore {α : Type} {m : CoreM α} (h : Runs AccountsKept m) : Runs VotersStay (onCore m) := by
  intro d a d' hm
  exact votersStay_of_same (runs_onCore h _ _ _ hm) ((sameForum_onCore m).runs _ _ _ hm)

theorem votersStay_applyTransaction (node : Node) (trx : SignedTransaction) :
    Runs VotersStay (applyTransaction env node trx) := by
  have hadmit : Always AccountsKept (admitTransaction env node trx) :=
    always_admitTransaction (fun _ _ => .refl _) env node trx
  exact runs_bind (votersStay_onCore hadmit.runs) fun _ => runs_each (votersStay_applyOperation node) _

theorem votersStay_applyBlock (node : Node) (b : SignedBlock) : Runs VotersStay (applyBlock env node b) := by
  have hkeep : ∀ {α : Type} {m : CoreM α}, Always Upkeep m → Runs AccountsKept m := fun h =>
    (h.mono fun _ _ => Upkeep.accountsKept).runs
  have hmoney : ∀ {α : Type} {m : CoreM α}, Always MoneyOnly m → Runs AccountsKept m := fun h =>
    (h.mono operationRuns_accountsKept.money).runs
  have hpost : Runs AccountsKept postProcess := by
    refine runs_bind (hmoney moneyOnly_clearNullAccountBalance) fun _ => ?_
    refine runs_bind (hmoney moneyOnly_processFunds) fun _ => ?_
    refine runs_bind (hmoney moneyOnly_processSavingsWithdraws) fun _ => ?_
    exact runs_bind (hmoney moneyOnly_processFundWithdraws) fun _ => accountsKept_accountRecoveryProcessing
  refine runs_bind (runs_bind (votersStay_onCore (hkeep headFrame_upkeep.applyBlockHeader)) fun signing => ?_) fun _ => ?_
  · refine runs_bind (runs_each (votersStay_applyTransaction node) _) fun _ => votersStay_onCore ?_
    refine runs_bind (hkeep headFrame_upkeep.updateGlobalDynamicData) fun _ => ?_
    refine runs_bind (hkeep (upkeep_updateSigningBobserver signing)) fun _ => ?_
    exact hkeep headFrame_upkeep.updateLastIrreversibleBlock
  · refine runs_bind (votersStay_onCore ?_) fun _ => ?_
    · refine runs_bind (hkeep upkeep_prepareBlock) fun _ => runs_bind hpost fun _ => ?_
      exact hkeep upkeep_processHardforks
    · intro d u d' h
      have hcore := ((moneyOnly_notifyAppliedBlock env).mono fun _ _ h => (MoneyOnly.upkeep h).accountsKept).runs
      exact votersStay_of_same (hcore _ _ _ h) ((sameForum_notifyAppliedBlock env).runs _ _ _ h)

/-- **In every reachable state** the voters are accounts. -/
theorem Reached.votersKnown (h : Reached env d) : VotersKnown d := by
  induction h with
  | genesis key => exact fun v hv => absurd hv (Multiset.notMem_zero v)
  | block node b _ happly ih => exact (votersStay_applyBlock node b _ _ _ happly).2 ih
  | transaction node trx _ happly ih => exact (votersStay_applyTransaction node trx _ _ _ happly).2 ih

end Sigmaengine
