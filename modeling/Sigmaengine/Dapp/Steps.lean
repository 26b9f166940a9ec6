import Sigmaengine.Chain.Reached

/-!
# What an operation does to the dapp indices

`DappStep` lists what the operations of the plugin make of its own indices, with the checks made before.
`dappStep_dappEvaluator` says that there is nothing else.
-/

namespace Sigmaengine

open Effect Table

variable {d d' : Database} {α : Type}

theorem onCore_eq_ok {m : CoreM α} {a : α} :
    onCore m d = .ok a d' ↔ ∃ c, m d.core = .ok a c ∧ d' = { d with core := c } := by
  unfold onCore
  rw [within_eq_ok]
  exact exists_congr fun c => and_congr_right fun _ => eq_comm

theorem onDapp_eq_ok {m : Dapp.DappM α} {a : α} :
    onDapp m d = .ok a d' ↔ ∃ s, m d.dapp = .ok a s ∧ d' = { d with dapp := s } := by
  unfold onDapp
  rw [within_eq_ok]
  exact exists_congr fun s => and_congr_right fun _ => eq_comm

/-- What is paid for runs before the core changes. -/
theorem withDappFee_inside {payer : AccountName} {m : ChainM Unit} {u : Unit}
    (h : withDappFee payer m d = .ok u d') :
    ∃ d₂ c, m d = .ok () d₂ ∧ d' = { d₂ with core := c } := by
  have hcheck : ReadOnly (checkDappFee payer) :=
    readOnly_get.bind fun _ => (readOnly_getIn _).bind fun _ => (readOnly_assert _ _).bind fun _ => readOnly_pure _
  simp only [withDappFee, bind_eq_ok] at h
  obtain ⟨fee, t, hfee, _, d₂, hm, hpay⟩ := h
  obtain rfl := (readOnly_within (l := corePart) hcheck).eq_of_ok hfee
  obtain ⟨c, -, rfl⟩ := onCore_eq_ok.mp hpay
  exact ⟨d₂, c, hm, rfl⟩

namespace Dapp

variable {s s' : DappIndices}

/-! ## Lookups -/

theorem requireDapp_eq_ok {name : DappName} {text : String} {r : Nat × DappObject} :
    requireDapp name text s = .ok r s' ↔ s.dapps.find? (fun x => x.dappName == name) = some r ∧ s = s' := by
  simp only [requireDapp, bind_eq_ok, findIn_eq_ok, ofOption_eq_ok]
  constructor
  · rintro ⟨_, _, ⟨hfind, rfl⟩, rfl, rfl⟩
    exact ⟨hfind, rfl⟩
  · rintro ⟨hfind, rfl⟩
    exact ⟨_, s, ⟨hfind, rfl⟩, rfl, rfl⟩

theorem mem_of_requireDapp {name : DappName} {text : String} {r : Nat × DappObject}
    (h : requireDapp name text s = .ok r s') : r ∈ s.dapps.rows ∧ r.2.dappName = name ∧ s = s' := by
  obtain ⟨hfind, rfl⟩ := requireDapp_eq_ok.mp h
  obtain ⟨hmem, hname⟩ := mem_of_find? hfind
  exact ⟨hmem, beq_iff_eq.mp hname, rfl⟩

theorem requireApproved_eq_ok {x : DappObject} {u : Unit} :
    requireApproved x s = .ok u s' ↔ x.dappState = .approval ∧ s = s' := by
  unfold requireApproved fcAssert
  rw [assert_eq_ok, beq_iff_eq]

theorem readOnly_requireMember (dapp : DappName) (account : AccountName) (text : String) :
    ReadOnly (requireMember dapp account text) :=
  (readOnly_findIn _).bind fun _ => readOnly_assert _ _

theorem readOnly_getParent (op : CommentDappOperation) : ReadOnly (getParent op) := by
  unfold getParent
  split
  · exact readOnly_pure _
  · exact (readOnly_getIn _).bind fun _ => (readOnly_assert _ _).bind fun _ => readOnly_pure _

theorem readOnly_checkAllowReplies (parent : Option (Nat × DappCommentObject)) :
    ReadOnly (checkAllowReplies parent) := by
  cases parent with
  | none => exact readOnly_pure _
  | some p => exact readOnly_get.bind fun _ => (readOnly_ofOption _ _).bind fun _ => readOnly_assert _ _

/-! ## Steps -/

/-- The indices after an operation, with what was checked before they were changed. -/
inductive DappStep (d : Database) : DappOperation → DappIndices → Prop
  | created {op : DappKeyOperation} {x : DappObject} {user : DappUserObject} (hpending : x.dappState = .pending)
      (hid : user.dappId = d.dapp.dapps.nextId) (hname : user.dappName = x.dappName)
      (hx : d.dapp.dapps.clashes d.dapp.dapps.nextId x = false)
      (huser : d.dapp.users.clashes d.dapp.users.nextId user = false) :
      DappStep d (.createDapp op)
        { d.dapp with dapps := d.dapp.dapps.insert x hx, users := d.dapp.users.insert user huser }
  | rekeyed {op : DappKeyOperation} {id : Nat} {x : DappObject} {key : PublicKey}
      (hfound : d.dapp.dapps.lookup id = some x) (hx : d.dapp.dapps.clashes id { x with dappKey := key } = false) :
      DappStep d (.updateDappKey op) { d.dapp with dapps := d.dapp.dapps.replace id { x with dappKey := key } hx }
  | joined {op : MemberOperation} {r : Nat × DappObject} {user : DappUserObject} (hfound : r ∈ d.dapp.dapps.rows)
      (happroved : r.2.dappState = .approval) (hid : user.dappId = r.1) (hname : user.dappName = r.2.dappName)
      (huser : d.dapp.users.clashes d.dapp.users.nextId user = false) :
      DappStep d (.joinDapp op) { d.dapp with users := d.dapp.users.insert user huser }
  | left {op : MemberOperation} (id : Nat) :
      DappStep d (.leaveDapp op) { d.dapp with users := d.dapp.users.erase id }
  | posted {op : CommentDappOperation} {s' : DappIndices} {now : TimePointSec} {r : Nat × DappObject}
      {parent : Option (Nat × DappCommentObject)} (hfound : r ∈ d.dapp.dapps.rows)
      (happroved : r.2.dappState = .approval) (hname : r.2.dappName = op.dappName)
      (hparent : getParent op d.dapp = .ok parent d.dapp)
      (hnew : d.dapp.comments.find? (isPermlink op.dappName op.author op.permlink) = none)
      (hstore : storeComment op now parent d.dapp = .ok () s') : DappStep d (.commentDapp op) s'
  | edited {op : CommentDappOperation} {s' : DappIndices} {now : TimePointSec} {r : Nat × DappCommentObject}
      (hfound : d.dapp.comments.find? (isPermlink op.dappName op.author op.permlink) = some r)
      (hedit : editComment op now r.1 d.dapp = .ok () s') : DappStep d (.commentDapp op) s'
  | voted {op : CommentVoteDappOperation} {s' : DappIndices} {type : CommentVoteType} {c : Nat × DappCommentObject}
      {voter : Nat × AccountObject} {now : TimePointSec}
      (hfound : d.dapp.comments.find? (isPermlink op.dappName op.author op.permlink) = some c)
      (hvoter : d.core.accounts.find? (fun a => a.name == op.voter) = some voter)
      (htype : CommentVoteType.ofNat? op.voteType = some type)
      (hcast : castVote op.dappName type c.1 voter.1 now d.dapp = .ok () s') : DappStep d (.commentVoteDapp op) s'
  | deleted {op : DeleteCommentDappOperation} {s' : DappIndices} {c : Nat × DappCommentObject} {now : TimePointSec}
      (hfound : d.dapp.comments.find? (isPermlink op.dappName op.author op.permlink) = some c)
      (hleaf : c.2.children = 0) (hdelete : deleteComment c now d.dapp = .ok () s') :
      DappStep d (.deleteCommentDapp op) s'
  | voteCast {op : VoteDappOperation} {r : Nat × DappObject} {v : DappVoteObject} (hfound : r ∈ d.dapp.dapps.rows)
      (hpending : r.2.dappState = .pending) (hname : v.dappName = r.2.dappName)
      (hv : d.dapp.votes.clashes d.dapp.votes.nextId v = false) :
      DappStep d (.voteDapp op) { d.dapp with votes := d.dapp.votes.insert v hv }
  | voteChanged {op : VoteDappOperation} {r : Nat × DappObject} {id : Nat} {v : DappVoteObject}
      (hfound : r ∈ d.dapp.dapps.rows) (hpending : r.2.dappState = .pending) (hname : v.dappName = r.2.dappName)
      (hv : d.dapp.votes.clashes id v = false) :
      DappStep d (.voteDapp op) { d.dapp with votes := d.dapp.votes.replace id v hv }
  | feeVoted {op : VoteDappTrxFeeOperation} : DappStep d (.voteDappTrxFee op) d.dapp

/-! ## Evaluators -/

section Evaluators

variable {u : Unit}

theorem dappStep_createDapp {op : DappKeyOperation} (h : createDappEvaluator op d = .ok u d') :
    DappStep d (.createDapp op) d'.dapp := by
  simp only [createDappEvaluator, bind_eq_ok, onCore_eq_ok, onDapp_eq_ok, ofOption_eq_ok, findIn_eq_ok,
    createIn_eq_ok, fcAssert, assert_eq_ok, pure_eq_ok] at h
  obtain ⟨now, _, ⟨_, -, rfl⟩, _, _, ⟨_, -, rfl⟩, owner, _, ⟨-, rfl⟩, key, _, ⟨-, rfl⟩, _, ⟨_, _, ⟨-, rfl⟩,
    _, _, ⟨-, rfl⟩, id, _, ⟨hx, rfl, rfl⟩, _, _, ⟨huser, -, rfl⟩, -, rfl⟩, rfl⟩ := h
  exact DappStep.created (d := d) rfl rfl rfl hx huser

theorem dappStep_updateDappKey {op : DappKeyOperation} (h : updateDappKeyEvaluator op d = .ok u d') :
    DappStep d (.updateDappKey op) d'.dapp := by
  simp only [updateDappKeyEvaluator, bind_eq_ok, onDapp_eq_ok, fcAssert, assert_eq_ok] at h
  obtain ⟨r, _, ⟨s, hr, rfl⟩, _, _, ⟨-, rfl⟩, hpaid⟩ := h
  obtain ⟨hmem, -, rfl⟩ := mem_of_requireDapp hr
  obtain ⟨d₂, c, hm, rfl⟩ := withDappFee_inside hpaid
  simp only [bind_eq_ok, ofOption_eq_ok, onDapp_eq_ok, modifyIn_eq_ok] at hm
  obtain ⟨key, _, ⟨-, rfl⟩, _, ⟨x, y, hx, hlookup, hy, rfl⟩, rfl⟩ := hm
  cases hy
  exact DappStep.rekeyed (d := d) hlookup hx

theorem dappStep_joinDapp {op : MemberOperation} (h : joinDappEvaluator op d = .ok u d') :
    DappStep d (.joinDapp op) d'.dapp := by
  simp only [joinDappEvaluator, bind_eq_ok, onCore_eq_ok, onDapp_eq_ok, ofOption_eq_ok] at h
  obtain ⟨now, _, ⟨_, -, rfl⟩, _, _, ⟨_, -, rfl⟩, account, _, ⟨-, rfl⟩, r, _, ⟨s, hr, rfl⟩, _, _,
    ⟨_, hstate, rfl⟩, hpaid⟩ := h
  obtain ⟨hmem, hname, rfl⟩ := mem_of_requireDapp hr
  obtain ⟨happroved, rfl⟩ := requireApproved_eq_ok.mp hstate
  obtain ⟨d₂, c, hm, rfl⟩ := withDappFee_inside hpaid
  simp only [bind_eq_ok, onDapp_eq_ok, findIn_eq_ok, createIn_eq_ok, fcAssert, assert_eq_ok, pure_eq_ok] at hm
  obtain ⟨_, ⟨_, _, ⟨-, rfl⟩, _, _, ⟨-, rfl⟩, _, _, ⟨huser, -, rfl⟩, -, rfl⟩, rfl⟩ := hm
  exact DappStep.joined (d := d) hmem happroved rfl hname.symm huser

theorem dappStep_leaveDapp {op : MemberOperation} (h : leaveDappEvaluator op d = .ok u d') :
    DappStep d (.leaveDapp op) d'.dapp := by
  simp only [leaveDappEvaluator, bind_eq_ok, onCore_eq_ok, onDapp_eq_ok, fcAssert, assert_eq_ok] at h
  obtain ⟨account, _, ⟨_, -, rfl⟩, _, _, ⟨-, rfl⟩, r, _, ⟨s, hr, rfl⟩, hpaid⟩ := h
  obtain ⟨hmem, hname, rfl⟩ := mem_of_requireDapp hr
  obtain ⟨d₂, c, hm, rfl⟩ := withDappFee_inside hpaid
  simp only [bind_eq_ok, onDapp_eq_ok, findIn_eq_ok, ofOption_eq_ok, removeIn_eq_ok] at hm
  obtain ⟨_, ⟨_, _, ⟨-, rfl⟩, user, _, ⟨-, rfl⟩, rfl⟩, rfl⟩ := hm
  exact DappStep.left (d := d) user.1

theorem dappStep_commentDapp {fc : TextRules} {op : CommentDappOperation} (h : commentDappEvaluator fc op d = .ok u d') :
    DappStep d (.commentDapp op) d'.dapp := by
  simp only [commentDappEvaluator, bind_eq_ok, onDapp_eq_ok] at h
  obtain ⟨r, _, ⟨s, hr, rfl⟩, _, _, ⟨_, hstate, rfl⟩, _, _, ⟨_, hmember, rfl⟩, hpaid⟩ := h
  obtain ⟨hmem, hname, rfl⟩ := mem_of_requireDapp hr
  obtain ⟨happroved, rfl⟩ := requireApproved_eq_ok.mp hstate
  obtain rfl := (readOnly_requireMember _ _ _).eq_of_ok hmember
  obtain ⟨d₂, c, hm, rfl⟩ := withDappFee_inside hpaid
  simp only [bind_eq_ok, onCore_eq_ok, onDapp_eq_ok, findIn_eq_ok, fcAssert, assert_eq_ok] at hm
  obtain ⟨_, _, ⟨-, rfl⟩, existing, _, ⟨_, ⟨hfind, rfl⟩, rfl⟩, author, _, ⟨_, -, rfl⟩, parent, _, ⟨s, hparent, rfl⟩,
    _, _, ⟨-, rfl⟩, now, _, ⟨_, -, rfl⟩, hwrite⟩ := hm
  obtain rfl := (readOnly_getParent op).eq_of_ok hparent
  cases existing with
  | none =>
    simp only [writeComment, bind_eq_ok, onCore_eq_ok, onDapp_eq_ok] at hwrite
    obtain ⟨_, _, ⟨_, hallow, rfl⟩, _, _, ⟨_, -, rfl⟩, s', hstore, rfl⟩ := hwrite
    obtain rfl := (readOnly_checkAllowReplies parent).eq_of_ok hallow
    exact DappStep.posted (d := d) hmem happroved hname hparent hfind hstore
  | some found =>
    obtain ⟨s', hedit, rfl⟩ := onDapp_eq_ok.mp hwrite
    exact DappStep.edited (d := d) hfind hedit

theorem dappStep_commentVoteDapp {op : CommentVoteDappOperation} (h : commentVoteDappEvaluator op d = .ok u d') :
    DappStep d (.commentVoteDapp op) d'.dapp := by
  simp only [commentVoteDappEvaluator, bind_eq_ok, onDapp_eq_ok] at h
  obtain ⟨r, _, ⟨s, hr, rfl⟩, _, _, ⟨_, hmember, rfl⟩, hpaid⟩ := h
  obtain ⟨hmem, hname, rfl⟩ := mem_of_requireDapp hr
  obtain rfl := (readOnly_requireMember _ _ _).eq_of_ok hmember
  obtain ⟨d₂, c, hm, rfl⟩ := withDappFee_inside hpaid
  simp only [bind_eq_ok, onCore_eq_ok, onDapp_eq_ok, ofOption_eq_ok, fcAssert, assert_eq_ok, getComment,
    getIn_eq_ok] at hm
  obtain ⟨comment, _, ⟨_, ⟨hfind, rfl⟩, rfl⟩, voter, _, ⟨_, hvoter, rfl⟩, now, _, ⟨_, -, rfl⟩, _, _, ⟨-, rfl⟩, type, _,
    ⟨htype, rfl⟩, s', hcast, rfl⟩ := hm
  exact DappStep.voted (d := d) hfind (getIn_eq_ok.mp hvoter).1 htype hcast

theorem dappStep_deleteCommentDapp {op : DeleteCommentDappOperation}
    (h : deleteCommentDappEvaluator op d = .ok u d') : DappStep d (.deleteCommentDapp op) d'.dapp := by
  simp only [deleteCommentDappEvaluator, bind_eq_ok, onDapp_eq_ok, findIn_eq_ok, getIn_eq_ok, ofOption_eq_ok, fcAssert,
    assert_eq_ok] at h
  obtain ⟨_, _, ⟨_, ⟨hfind, rfl⟩, rfl⟩, comment, _, ⟨rfl, rfl⟩, _, _, ⟨hleaf, rfl⟩, dapp, _, ⟨_, ⟨-, rfl⟩, rfl⟩,
    hpaid⟩ := h
  obtain ⟨d₂, c, hm, rfl⟩ := withDappFee_inside hpaid
  simp only [bind_eq_ok, onCore_eq_ok, onDapp_eq_ok] at hm
  obtain ⟨now, _, ⟨_, -, rfl⟩, s', hdelete, rfl⟩ := hm
  exact DappStep.deleted (d := d) hfind (of_decide_eq_true hleaf) hdelete

theorem dappStep_voteDapp {op : VoteDappOperation} (h : voteDappEvaluator op d = .ok u d') :
    DappStep d (.voteDapp op) d'.dapp := by
  simp only [voteDappEvaluator, bind_eq_ok, onCore_eq_ok, onDapp_eq_ok, ofOption_eq_ok, findIn_eq_ok, fcAssert,
    assert_eq_ok] at h
  obtain ⟨_, _, ⟨_, -, rfl⟩, now, _, ⟨_, -, rfl⟩, vote, _, ⟨-, rfl⟩, s', ⟨r, _, hr, _, _, ⟨hpending, rfl⟩, found, _,
    ⟨hfind, rfl⟩, hstore⟩, rfl⟩ := h
  obtain ⟨hmem, hname, rfl⟩ := mem_of_requireDapp hr
  cases found with
  | none =>
    simp only [bind_eq_ok, createIn_eq_ok, pure_eq_ok] at hstore
    obtain ⟨_, _, ⟨hv, -, rfl⟩, -, rfl⟩ := hstore
    exact DappStep.voteCast (d := d) hmem (beq_iff_eq.mp hpending) hname.symm hv
  | some q =>
    obtain ⟨v, w, hv, hlookup, hw, rfl⟩ := modifyIn_eq_ok.mp hstore
    obtain ⟨hq, hkey⟩ := mem_of_find? hfind
    obtain rfl : q.2 = v := Option.some.inj ((lookup_eq_some.mpr hq).symm.trans hlookup)
    simp only [Bool.and_eq_true, beq_iff_eq] at hkey
    cases hw
    refine DappStep.voteChanged (d := d) hmem (beq_iff_eq.mp hpending) ?_ hv
    exact hkey.1.trans hname.symm

/-- **The operations of the plugin** change its indices in these ways only. -/
theorem dappStep_dappEvaluator {fc : TextRules} {op : DappOperation} (h : dappEvaluator fc op d = .ok u d') :
    DappStep d op d'.dapp := by
  cases op with
  | createDapp op => exact dappStep_createDapp h
  | updateDappKey op => exact dappStep_updateDappKey h
  | commentDapp op => exact dappStep_commentDapp h
  | commentVoteDapp op => exact dappStep_commentVoteDapp h
  | deleteCommentDapp op => exact dappStep_deleteCommentDapp h
  | joinDapp op => exact dappStep_joinDapp h
  | leaveDapp op => exact dappStep_leaveDapp h
  | voteDapp op => exact dappStep_voteDapp h
  | voteDappTrxFee op =>
    simp only [dappEvaluator, voteDappTrxFeeEvaluator, bind_eq_ok, onCore_eq_ok, findIn_eq_ok] at h
    obtain ⟨_, _, ⟨_, -, rfl⟩, now, _, ⟨_, -, rfl⟩, found, _, ⟨-, rfl⟩, hstore⟩ := h
    cases found with
    | none =>
      simp only [bind_eq_ok, createIn_eq_ok, pure_eq_ok] at hstore
      obtain ⟨_, _, ⟨-, -, rfl⟩, -, rfl⟩ := hstore
      exact .feeVoted
    | some v =>
      obtain ⟨_, _, -, -, -, rfl⟩ := modifyIn_eq_ok.mp hstore
      exact .feeVoted

end Evaluators

/-! ## Comments stay where they are -/

/-- Where a comment stands: all of it but its times, its flags and its counters. -/
def DappCommentObject.place (c : DappCommentObject) :
    DappName × AccountName × Bytes × AccountName × Bytes × Nat × Nat :=
  (c.dappName, c.parentAuthor, c.parentPermlink, c.author, c.permlink, c.depth, c.rootComment)

section Rows

variable {κ : Type} {k : DappCommentObject → κ}

/-- The indices, with no more of a comment than `k` tells. -/
def DappIndices.layout (k : DappCommentObject → κ) (s : DappIndices) :=
  (s.dapps, s.users, s.votes, s.commentVotes, s.comments.rows.map fun r => (r.1, k r.2), s.comments.nextId)

/-- No index has changed, as far as `k` tells. -/
def SameRows (k : DappCommentObject → κ) (s s' : DappIndices) : Prop := s'.layout k = s.layout k

/-- Every comment stays where it is. -/
abbrev SameLayout : DappIndices → DappIndices → Prop := SameRows DappCommentObject.place

instance : Std.Refl (SameRows k) := ⟨fun _ => rfl⟩

instance : IsTrans DappIndices (SameRows k) := ⟨fun _ _ _ h h' => h'.trans h⟩

namespace SameRows

variable (h : SameRows k s s')
include h

theorem dapps : s'.dapps = s.dapps := congrArg Prod.fst h

theorem users : s'.users = s.users := congrArg (fun p => p.2.1) h

theorem votes : s'.votes = s.votes := congrArg (fun p => p.2.2.1) h

theorem commentVotes : s'.commentVotes = s.commentVotes := congrArg (fun p => p.2.2.2.1) h

theorem places : (s'.comments.rows.map fun r => (r.1, k r.2)) = s.comments.rows.map fun r => (r.1, k r.2) :=
  congrArg (fun p => p.2.2.2.2.1) h

/-- Every comment was there before. -/
theorem lookup {id : Nat} {c : DappCommentObject} (hc : s'.comments.lookup id = some c) :
    ∃ c₀, s.comments.lookup id = some c₀ ∧ k c₀ = k c :=
  retains_of_rows h.places.symm id c hc

theorem retains : Retains k s.comments s'.comments := retains_of_rows h.places

end SameRows

theorem sameRows_replace {id : Nat} {a b : DappCommentObject} (ha : s.comments.lookup id = some a)
    (hc : s.comments.clashes id b = false) (hkey : k b = k a) :
    SameRows k s { s with comments := s.comments.replace id b hc } :=
  congrArg (fun rows => (s.dapps, s.users, s.votes, s.commentVotes, rows, s.comments.nextId))
    (map_rows_replace ha hc hkey)

theorem runs_modifyComment {id : Nat} {f : DappCommentObject → Except Error DappCommentObject}
    (hf : ∀ a b, f a = .ok b → k b = k a) : Runs (SameRows k) (modifyIn Index.comments id f) := by
  intro s u s' h
  obtain ⟨a, b, hc, ha, hfa, rfl⟩ := modifyIn_eq_ok.mp h
  exact sameRows_replace ha hc (hf a b hfa)

/-- Counting touches nothing but the number of descendants and the time of the last change. -/
theorem runs_countChild (hk : ∀ c n t, k { c with children := n, active := t } = k c) (now : TimePointSec) (fuel : Nat)
    (p : Nat × DappCommentObject) : Runs (SameRows k) (countChild now fuel p) := by
  induction fuel generalizing p with
  | zero => exact runs_throw _
  | succ n ih =>
    refine runs_bind (runs_modifyComment fun a b h => by cases h; exact hk _ _ _) fun _ => ?_
    split
    · exact runs_pure _
    · exact runs_bind (readOnly_getIn _).always.runs fun next => ih next

theorem runs_uncountChild (hk : ∀ c n t, k { c with children := n, active := t } = k c) (now : TimePointSec)
    (fuel : Nat) (c : DappCommentObject) : Runs (SameRows k) (uncountChild now fuel c) := by
  induction fuel generalizing c with
  | zero => exact runs_throw _
  | succ n ih =>
    unfold uncountChild
    split
    · exact runs_pure _
    · refine runs_bind (readOnly_findIn _).always.runs fun found => ?_
      cases found with
      | none => exact runs_pure _
      | some q => exact runs_bind (runs_modifyComment fun a b h => by cases h; exact hk _ _ _) fun _ => ih q.2

/-- An edit touches nothing but two times. -/
theorem runs_editComment (hk : ∀ c t t', k { c with lastUpdate := t, active := t' } = k c)
    (op : CommentDappOperation) (now : TimePointSec) (id : Nat) : Runs (SameRows k) (editComment op now id) := by
  refine runs_bind (runs_modifyComment fun a b h => by cases h; exact hk _ _ _) fun _ => ?_
  refine runs_modifyComment fun a b h => ?_
  split at h
  · cases h
  · split at h
    · cases h
    · cases h
      rfl

end Rows

theorem place_countVote (type : CommentVoteType) (c : DappCommentObject) : (countVote type c).place = c.place := by
  cases type <;> rfl

/-! ## Storing, voting and deleting, in steps -/

section Inversions

variable {u : Unit} {now : TimePointSec}

/-- A new comment is stored first and counted on its ancestors afterwards. -/
theorem storeComment_eq_ok {op : CommentDappOperation} {parent : Option (Nat × DappCommentObject)}
    (h : storeComment op now parent s = .ok u s') :
    ∃ hc : s.comments.clashes s.comments.nextId (newComment op now s.comments.nextId parent) = false,
      match parent with
      | none => s' = { s with comments := s.comments.insert _ hc }
      | some p =>
        countChild now (s.comments.rows.length + 1) p { s with comments := s.comments.insert _ hc } = .ok () s' := by
  simp only [storeComment, bind_eq_ok, get_eq_ok, createIn_eq_ok] at h
  obtain ⟨_, _, ⟨rfl, rfl⟩, _, _, ⟨hc, -, rfl⟩, hcount⟩ := h
  refine ⟨hc, ?_⟩
  cases parent with
  | none => exact (pure_eq_ok.mp hcount).2.symm
  | some p => exact hcount

/-- A vote is counted first and stored afterwards. -/
theorem castVote_eq_ok {dapp : DappName} {type : CommentVoteType} {comment voter : Nat}
    (h : castVote dapp type comment voter now s = .ok u s') :
    ∃ c hc, s.comments.lookup comment = some c ∧
      ((s.commentVotes.find? (fun v => v.comment == comment && v.voter == voter && v.voteType == type) = none ∧
        ∃ hv, s' = { s with
          comments := s.comments.replace comment (countVote type c) hc
          commentVotes := s.commentVotes.insert ⟨dapp, voter, comment, type, now⟩ hv }) ∨
      ∃ r ∈ s.commentVotes.rows, r.2.comment = comment ∧ r.2.voter = voter ∧ r.2.voteType = type ∧
        ∃ hv, s' = { s with
          comments := s.comments.replace comment (countVote type c) hc
          commentVotes := s.commentVotes.replace r.1 { r.2 with lastUpdate := now } hv }) := by
  simp only [castVote, bind_eq_ok, findIn_eq_ok, modifyIn_eq_ok] at h
  obtain ⟨found, _, ⟨hfind, rfl⟩, _, _, ⟨c, b, hc, hlookup, hb, rfl⟩, hstore⟩ := h
  cases hb
  refine ⟨c, hc, hlookup, ?_⟩
  cases found with
  | none =>
    simp only [bind_eq_ok, createIn_eq_ok, pure_eq_ok] at hstore
    obtain ⟨_, _, ⟨hv, -, rfl⟩, -, rfl⟩ := hstore
    exact .inl ⟨hfind, hv, rfl⟩
  | some r =>
    obtain ⟨v, w, hv, hlookup', hw, rfl⟩ := modifyIn_eq_ok.mp hstore
    obtain ⟨hr, hkey⟩ := mem_of_find? hfind
    obtain rfl : r.2 = v := Option.some.inj ((lookup_eq_some.mpr hr).symm.trans hlookup')
    simp only [Bool.and_eq_true, beq_iff_eq] at hkey
    cases hw
    exact .inr ⟨r, hr, hkey.1.1, hkey.1.2, hkey.2, hv, rfl⟩

/-- The votes go first, then the ancestors are told, then the comment goes. -/
theorem deleteComment_eq_ok {c : Nat × DappCommentObject} (h : deleteComment c now s = .ok u s') :
    ∃ s₁, uncountChild now (s.comments.rows.length + 1) c.2
        { s with commentVotes := s.commentVotes.without fun v => v.comment == c.1 } = .ok () s₁ ∧
      s' = { s₁ with comments := s₁.comments.erase c.1 } := by
  simp only [deleteComment, bind_eq_ok, get_eq_ok] at h
  obtain ⟨_, _, ⟨rfl, rfl⟩, _, _, hvotes, _, s₁, hcount, hremove⟩ := h
  rw [each_removeIn fun _ _ _ => rfl] at hvotes
  cases hvotes
  exact ⟨s₁, hcount, removeIn_eq_ok.mp hremove⟩

end Inversions

end Dapp

end Sigmaengine
