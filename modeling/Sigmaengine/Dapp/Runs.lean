import Sigmaengine.Dapp.Steps
import Sigmaengine.Ledger.TokenRuns

/-!
# Runs of the dapp plugin

`Visited` are the states operations are run in, in runs whose dapp operations meet `ok` in the state they
find.  Operations of a payload that is undone do not count.  What is said about comments and the votes
on them is kept when the operations keep it: nothing else writes the two tables.
-/

namespace Sigmaengine

open Effect Table Dapp

variable {env : Env} {node : Node} {d d' : Database} {u : Unit}

/-! ## The dapp operations of an operation -/

/-- The dapp operations a payload carries to the dapp plugin. -/
def dappPayload (env : Env) (id : Bytes) (payload : Payload) : List DappOperation :=
  if id = ascii ['d', 'a', 'p', 'p'] ∧ Plugin.dapp ∈ env.plugins then (env.decodeDapp payload).getD [] else []

/-- Dapp operations in order, each with the state it finds. -/
def dappTrace (fc : TextRules) : List DappOperation → Database → List (Database × DappOperation)
  | [], _ => []
  | op :: ops, d => (d, op) :: dappTrace fc ops (after (dappEvaluator fc op d))

/-- The dapp operations that are carried out meet `ok` in the states they find. -/
def EachDapp (env : Env) (ok : Database → DappOperation → Prop) (d : Database) (op : Operation) : Prop :=
  ∀ c ∈ carried op, succeeds (interpret env c.1 c.2 (op.getRequiredAuthorities {}) d) = true →
    ∀ p ∈ dappTrace env.fc (dappPayload env c.1 c.2) d, ok p.1 p.2

/-- No restriction. -/
def anyOperation : Database → DappOperation → Prop := fun _ _ => True

theorem eachOperation_any (env : Env) (node : Node) (b : SignedBlock) (d : Database) :
    EachOperation env node (EachDapp env anyOperation) b d :=
  fun _ _ _ _ _ _ _ => trivial

/-- The states operations are run in, when every dapp operation that is carried out meets `ok` in the state it
finds: those that blocks and pending transactions lead to, whatever the chain has done to its own indices
since, and those after one more operation of a plugin. -/
inductive Visited (env : Env) (ok : Database → DappOperation → Prop) : Database → Prop
  | genesis (initPublicKey : PublicKey) : Visited env ok (Sigmaengine.genesis initPublicKey)
  | block {d d' : Database} (node : Node) (b : SignedBlock) (h : Visited env ok d)
      (hok : EachOperation env node (EachDapp env ok) b d) (happly : applyBlock env node b d = .ok () d') :
      Visited env ok d'
  | transaction {d d' : Database} (node : Node) (trx : SignedTransaction) (h : Visited env ok d)
      (hok : ∀ p ∈ opTrace env node trx.operations (after (onCore (admitTransaction env node trx) d)),
        EachDapp env ok p.1 p.2)
      (happly : applyTransaction env node trx d = .ok () d') : Visited env ok d'
  | core {d : Database} (c : Core) (h : Visited env ok d) : Visited env ok { d with core := c }
  | dapp {d d' : Database} (op : DappOperation) (h : Visited env ok d) (hok : ok d op)
      (hrun : dappEvaluator env.fc op d = .ok () d') : Visited env ok d'
  | token {d d' : Database} (op : Token.TokenOperation) (h : Visited env ok d)
      (hrun : Token.tokenEvaluator env.tokenInterest op d = .ok () d') : Visited env ok d'

/-- **Invariants of the plugins** hold wherever an operation is run. -/
theorem Visited.plugins {ok : Database → DappOperation → Prop} {I : Database → Prop}
    (hgenesis : ∀ key, I (Sigmaengine.genesis key)) (hI : PluginFrame env (Kept I)) (h : Visited env ok d) : I d := by
  induction h with
  | genesis key => exact hgenesis key
  | block node b h _ happly ih => exact (hI.applyBlock node b).runs _ _ _ happly ih
  | transaction node trx h _ happly ih => exact (hI.applyTransaction node trx).runs _ _ _ happly ih
  | core c h ih => exact hI.core _ c ih
  | dapp op h _ hrun ih => exact hI.dapp op _ _ _ hrun ih
  | token op h hrun ih => exact hI.token op _ _ _ hrun ih

/-! ## What leaves the dapp indices alone -/

/-- The dapp indices were not touched. -/
def SameDapp (d d' : Database) : Prop := d'.dapp = d.dapp

instance : Std.Refl SameDapp := ⟨fun _ => rfl⟩

instance : IsTrans Database SameDapp := ⟨fun _ _ _ h h' => h'.trans h⟩

theorem sameDapp_tokenEvaluator (interest : Token.TokenInterest) (op : Token.TokenOperation) :
    Always SameDapp (Token.tokenEvaluator interest op) :=
  always_tokenEvaluator interest (fun _ => always_within (fun _ _ => rfl) _)
    (fun m => always_within (fun _ _ => rfl) m) op

theorem sameDapp_tokenOnApplyBlock : Always SameDapp Token.onApplyBlock := by
  have hview : ∀ m : Token.CoreView → Token.TokenM Unit, Always SameDapp (Token.withView m) := fun m =>
    always_bind readOnly_get.always fun _ => always_within (fun _ _ => rfl) _
  exact always_bind (hview _) fun _ => hview _

/-! ## Comments and votes on comments -/

/-- The comments and the votes on them. -/
def Dapp.DappIndices.forum (s : DappIndices) : Table DappCommentObject × Table DappCommentVoteObject :=
  (s.comments, s.commentVotes)

/-- Neither comments nor votes on them were touched. -/
def SameForum (d d' : Database) : Prop := d'.dapp.forum = d.dapp.forum

instance : Std.Refl SameForum := ⟨fun _ => rfl⟩

instance : IsTrans Database SameForum := ⟨fun _ _ _ h h' => h'.trans h⟩

theorem removeVotes_eq (name : DappName) (s : DappIndices) :
    removeVotes name s = .ok () { s with votes := s.votes.without fun v => v.dappName == name } := by
  unfold removeVotes
  rw [bind_of_ok (get_apply s)]
  exact each_removeIn (fun _ _ _ => rfl) _ s

theorem removeUsers_eq (name : DappName) (s : DappIndices) :
    removeUsers name s = .ok () { s with users := s.users.without fun u => u.dappName == name } := by
  unfold removeUsers
  rw [bind_of_ok (get_apply s)]
  exact each_removeIn (fun _ _ _ => rfl) _ s

theorem sameForum_aggregate (now : TimePointSec) :
    Always (fun s s' : DappIndices => s'.forum = s.forum) (aggregateDappApproveVote now) := by
  have : Std.Refl fun s s' : DappIndices => s'.forum = s.forum := ⟨fun _ => rfl⟩
  have : IsTrans DappIndices fun s s' : DappIndices => s'.forum = s.forum := ⟨fun _ _ _ h h' => h'.trans h⟩
  have hvotes : ∀ name, Always (fun s s' : DappIndices => s'.forum = s.forum) (removeVotes name) := fun name s => by
    rw [removeVotes_eq]
    rfl
  have husers : ∀ name, Always (fun s s' : DappIndices => s'.forum = s.forum) (removeUsers name) := fun name s => by
    rw [removeUsers_eq]
    rfl
  refine always_bind always_get fun s => always_each (fun r => ?_) _
  refine always_bind always_get fun s => always_bind ?_ fun _ => ?_
  · unfold setDappState
    split
    · exact always_pure _
    · exact always_within (fun _ _ => rfl) _
  · cases settledState s r.2 with
    | pending => exact always_pure _
    | approval => exact hvotes _
    | rejection =>
      exact always_bind (hvotes _) fun _ => always_bind (husers _) fun _ => always_within (fun _ _ => rfl) _

theorem sameForum_onCore {α : Type} (m : CoreM α) : Always SameForum (onCore m) := always_within (fun _ _ => rfl) m

theorem sameForum_notifyAppliedBlock (env : Env) : Always SameForum (notifyAppliedBlock env) := by
  refine always_attempt (always_each (fun p => ?_) _)
  cases p with
  | dapp =>
    refine always_bind readOnly_get.always fun d => ?_
    dsimp only
    split
    · refine always_bind (fun d => ?_) fun _ => always_bind ?_ fun _ => sameForum_onCore _
      · unfold SameForum onDapp
        rw [after_within]
        exact sameForum_aggregate _ d.dapp
      · exact always_aggregateTrxFeeVote (fun _ _ => rfl) _
    · exact always_pure _
  | token => exact sameDapp_tokenOnApplyBlock.mono fun d d' h => congrArg DappIndices.forum h

/-! ## The rule -/

section Rule

variable {ok : Database → DappOperation → Prop} {I : Table DappCommentObject × Table DappCommentVoteObject → Prop}

/-- The property of the whole state. -/
def OfForum (I : Table DappCommentObject × Table DappCommentVoteObject → Prop) (d : Database) : Prop := I d.dapp.forum

theorem keeps_sameForum (h : SameForum d d') : Kept (OfForum I) d d' := by
  intro hd
  unfold OfForum
  rw [h]
  exact hd

variable (hstep : ∀ d op s', DappStep d op s' → ok d op → I d.dapp.forum → I s'.forum)
include hstep

theorem keeps_dappOperations {ops : List DappOperation} (hok : ∀ p ∈ dappTrace env.fc ops d, ok p.1 p.2)
    (h : each (dappEvaluator env.fc) ops d = .ok u d') : Kept (OfForum I) d d' := by
  induction ops generalizing d with
  | nil =>
    obtain ⟨-, rfl⟩ := pure_eq_ok.mp h
    exact id
  | cons op ops ih =>
    obtain ⟨_, t, hfirst, hrest⟩ := bind_eq_ok.mp h
    intro hd
    refine ih (fun p hp => hok p ?_) hrest (hstep d op _ (dappStep_dappEvaluator hfirst) (hok _ List.mem_cons_self) hd)
    simp only [dappTrace, hfirst, after_ok]
    exact List.mem_cons_of_mem _ hp

omit hstep in
theorem applyOperations_inside {ω : Type} {validate : ω → List Check}
    {required : RequiredAuthorities → ω → RequiredAuthorities} {evaluate : ω → ChainM Unit} {ops : List ω}
    {outer : RequiredAuthorities} (h : applyOperations validate required evaluate ops outer d = .ok u d') :
    each evaluate ops d = .ok () d' := by
  simp only [applyOperations, atomically_eq_ok, bind_eq_ok, each_checked_eq_ok, fcAssert, assert_eq_ok] at h
  obtain ⟨_, _, ⟨-, rfl⟩, _, _, ⟨-, rfl⟩, _, _, ⟨-, rfl⟩, _, _, ⟨-, rfl⟩, _, _, ⟨-, rfl⟩, hrun⟩ := h
  exact hrun

/-- A payload that throws is undone as a whole. -/
theorem keeps_applyDappPayload {payload : Payload} {outer : RequiredAuthorities}
    (hok : succeeds (applyDappPayload env payload outer d) = true →
      ∀ p ∈ dappTrace env.fc ((env.decodeDapp payload).getD []) d, ok p.1 p.2) :
    Kept (OfForum I) d (after (applyDappPayload env payload outer d)) := by
  unfold applyDappPayload at hok ⊢
  cases hops : env.decodeDapp payload with
  | none => exact id
  | some ops =>
    simp only [hops, Option.getD_some, ofOption] at hok ⊢
    rw [show (pure ops >>= fun ops => applyOperations (DappOperation.validate env.fc) DappOperation.getRequiredAuthorities
      (dappEvaluator env.fc) ops outer : ChainM Unit) = applyOperations _ _ _ ops outer from rfl] at hok ⊢
    cases hrun : applyOperations (DappOperation.validate env.fc) DappOperation.getRequiredAuthorities
        (dappEvaluator env.fc) ops outer d with
    | ok v t =>
      rw [hrun] at hok
      exact keeps_dappOperations hstep (hok rfl) (applyOperations_inside hrun)
    | error e t =>
      have hundone : t = d := by
        unfold applyOperations atomically at hrun
        split at hrun
        · cases hrun
        · cases hrun
          rfl
      rw [after_error, hundone]
      exact id

omit hstep in
theorem sameForum_applyTokenPayload (payload : Payload) (outer : RequiredAuthorities) :
    Always SameForum (applyTokenPayload env payload outer) :=
  always_bind (readOnly_ofOption _ _).always fun _ => always_applyOperations fun op =>
    (sameDapp_tokenEvaluator env.tokenInterest op).mono fun _ _ h => congrArg DappIndices.forum h

theorem keeps_interpret {id : Bytes} {payload : Payload} {outer : RequiredAuthorities}
    (hok : succeeds (interpret env id payload outer d) = true →
      ∀ p ∈ dappTrace env.fc (dappPayload env id payload) d, ok p.1 p.2) :
    Kept (OfForum I) d (after (interpret env id payload outer d)) := by
  unfold interpret dappPayload at *
  by_cases hdapp : id = ascii ['d', 'a', 'p', 'p'] ∧ Plugin.dapp ∈ env.plugins
  · simp only [if_pos hdapp] at hok ⊢
    exact keeps_applyDappPayload hstep hok
  · simp only [if_neg hdapp] at hok ⊢
    split
    · exact keeps_sameForum (sameForum_applyTokenPayload payload outer d)
    · exact fun hd => hd

theorem keeps_applyOperation {op : Operation} (hok : EachDapp env ok d op)
    (h : applyOperation env node op d = .ok u d') : Kept (OfForum I) d d' := by
  rcases applyOperation_carried env node op with ⟨m, hm⟩ | ⟨id, payload, size, text, hcarried, hm⟩
  · rw [hm] at h
    exact keeps_sameForum ((sameForum_onCore m).runs _ _ _ h)
  · rw [hm] at h
    obtain rfl := customPayload_eq_ok h
    exact keeps_interpret hstep (hok _ hcarried)

/-- **Runs**: what is said about comments and the votes on them holds wherever an operation is run. -/
theorem Visited.forum (hgenesis : I (Table.empty, Table.empty)) (h : Visited env ok d) : I d.dapp.forum := by
  have hop : ∀ {node : Node} op d d', True → EachDapp env ok d op → applyOperation env node op d = .ok () d' →
      Kept (OfForum I) d d' := fun op d d' _ hok h => keeps_applyOperation hstep hok h
  have hcore : ∀ {α : Type} (m : CoreM α), Runs (Kept (OfForum I)) (onCore m) := fun m =>
    ((sameForum_onCore m).mono fun _ _ => keeps_sameForum).runs
  have hadmits : ∀ node, Admits env node fun _ => True := fun _ _ _ _ _ _ _ _ => trivial
  induction h with
  | genesis key => exact hgenesis
  | block node b h hok happly ih =>
    obtain ⟨_, t, hhead, htail⟩ := bind_eq_ok.mp happly
    obtain ⟨_, t', htailCore, hnotify⟩ := bind_eq_ok.mp htail
    have ht := runs_applyBlockHead (hadmits node) hop (fun m _ => hcore m) (hcore _) hok hhead ih
    exact keeps_sameForum ((sameForum_notifyAppliedBlock env).runs _ _ _ hnotify) (hcore _ _ _ _ htailCore ht)
  | transaction node trx h hok happly ih =>
    exact runs_applyTransaction (hadmits node) hop (hcore _) hok happly ih
  | core c h ih => exact ih
  | dapp op h hok hrun ih => exact hstep _ op _ (dappStep_dappEvaluator hrun) hok ih
  | token op h hrun ih =>
    have hsame := (sameDapp_tokenEvaluator env.tokenInterest op).runs _ _ _ hrun
    exact keeps_sameForum (congrArg DappIndices.forum hsame) ih

end Rule

end Sigmaengine
