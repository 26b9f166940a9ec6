import Sigmaengine.Chain.State
import Sigmaengine.Lib.Median

/-!
# Dapp plugin: evaluators and block processing

`dapp_evaluators.cpp` and the applied-block handler of `dapp_plugin.cpp`.
-/

namespace Sigmaengine.Dapp

open Sigmaengine Effect Table

variable (fc : TextRules)

abbrev DappM (α : Type) := Prog Error DappIndices α

namespace Index

def dapps : Part DappIndices (Table DappObject) :=
  ⟨DappIndices.dapps, fun t s => { s with dapps := t }, fun _ _ => rfl, fun _ => rfl⟩

def comments : Part DappIndices (Table DappCommentObject) :=
  ⟨DappIndices.comments, fun t s => { s with comments := t }, fun _ _ => rfl, fun _ => rfl⟩

def commentVotes : Part DappIndices (Table DappCommentVoteObject) :=
  ⟨DappIndices.commentVotes, fun t s => { s with commentVotes := t }, fun _ _ => rfl, fun _ => rfl⟩

def users : Part DappIndices (Table DappUserObject) :=
  ⟨DappIndices.users, fun t s => { s with users := t }, fun _ _ => rfl, fun _ => rfl⟩

def votes : Part DappIndices (Table DappVoteObject) :=
  ⟨DappIndices.votes, fun t s => { s with votes := t }, fun _ _ => rfl, fun _ => rfl⟩

end Index

/-! ## Lookups -/

/-- The dapp with the given name, or the assertion the caller makes. -/
def requireDapp (name : DappName) (text : String) : DappM (Nat × DappObject) := do
  let found ← findIn Index.dapps fun d => d.dappName == name
  ofOption found (.assertion text)

def requireApproved (d : DappObject) : DappM Unit :=
  fcAssert (d.dappState == .approval) "The state of $dapp dapp is $state, not APPROVAL"

def requireMember (dapp : DappName) (account : AccountName) (text : String) : DappM Unit := do
  let found ← findIn Index.users fun u => u.dappName == dapp && u.accountName == account
  fcAssert found.isSome text

def isPermlink (dapp : DappName) (author : AccountName) (permlink : Bytes) (c : DappCommentObject) :
    Bool :=
  c.dappName == dapp && c.author == author && cStr c.permlink == cStr permlink

def getComment (dapp : DappName) (author : AccountName) (permlink : Bytes) :
    DappM (Nat × DappCommentObject) :=
  getIn Index.comments (isPermlink dapp author permlink)

/-! ## Dapps and members -/

def createDappEvaluator (op : DappKeyOperation) : ChainM Unit := do
  let now ← onCore headBlockTime
  let owner ← onCore (findIn Sigmaengine.Index.accounts fun a => a.name == op.owner)
  let owner ← ofOption owner (.assertion "$owner accounts is not exist")
  let key ← ofOption op.dappKey (.assertion "There isn't dapp_key")
  onDapp do
    let found ← findIn Index.dapps fun d => d.dappName == op.dappName
    fcAssert found.isNone "$name dapp is exist"
    let id ← createIn Index.dapps
      { dappName := op.dappName, owner := op.owner, dappKey := key, dappState := .pending,
        created := now, lastUpdated := now }
    let _ ← createIn Index.users
      { dappId := id, dappName := op.dappName, accountId := owner.1, accountName := op.owner,
        joinDateTime := now }

def updateDappKeyEvaluator (op : DappKeyOperation) : ChainM Unit := do
  let dapp ← onDapp (requireDapp op.dappName "$name dapp is not exist in Sigma.")
  fcAssert (dapp.2.owner == op.owner) "$owner isn't owner."
  withDappFee op.owner do
    let key ← ofOption op.dappKey (.assertion "There isn't dapp_key")
    onDapp (modifyIn Index.dapps dapp.1 fun d => .ok { d with dappKey := key })

def joinDappEvaluator (op : MemberOperation) : ChainM Unit := do
  let now ← onCore headBlockTime
  let account ← onCore (findIn Sigmaengine.Index.accounts fun a => a.name == op.accountName)
  let account ← ofOption account (.assertion "$account accounts is not exist.")
  let dapp ← onDapp (requireDapp op.dappName "$dapp dapp is not exist.")
  onDapp (requireApproved dapp.2)
  withDappFee dapp.2.owner do
    onDapp do
      let found ← findIn Index.users fun u => u.accountName == op.accountName && u.dappName == op.dappName
      fcAssert found.isNone "You have already joined $dapp dapp."
      let _ ← createIn Index.users
        { dappId := dapp.1, dappName := op.dappName, accountId := account.1,
          accountName := op.accountName, joinDateTime := now }

def leaveDappEvaluator (op : MemberOperation) : ChainM Unit := do
  let account ← onCore (findIn Sigmaengine.Index.accounts fun a => a.name == op.accountName)
  fcAssert account.isSome "$account accounts is not exist."
  let dapp ← onDapp (requireDapp op.dappName "$dapp dapp is not exist.")
  withDappFee dapp.2.owner do
    onDapp do
      let found ← findIn Index.users fun u => u.accountName == op.accountName && u.dappName == op.dappName
      let user ← ofOption found (.assertion "You isn't member of $dapp dapp")
      removeIn Index.users user.1

/-! ## Comments -/

/-- `strcmp_equal` of the source: texts of equal length pass without being compared. -/
def strcmpEqual (a b : Bytes) : Bool := a.length == b.length || cStr a == cStr b

/-- The parent a comment operation names, if it is a reply. -/
def getParent (op : CommentDappOperation) : DappM (Option (Nat × DappCommentObject)) :=
  if op.parentAuthor = default then pure none
  else do
    let parent ← getComment op.dappName op.parentAuthor op.parentPermlink
    fcAssert (parent.2.depth < maxCommentDepth) "Comment is nested $x posts deep, maximum depth is $y."
    return some parent

/-- Count a new descendant on every ancestor. -/
def countChild (now : TimePointSec) : Nat → Nat × DappCommentObject → DappM Unit
  | 0, _ => throw .diverged
  | fuel + 1, (id, p) => do
    modifyIn Index.comments id fun c =>
      .ok { c with children := (c.children + 1) % 4294967296, active := now }
    if p.parentAuthor = default then pure ()
    else do
      let next ← getComment p.dappName p.parentAuthor p.parentPermlink
      countChild now fuel next

/-- The object a new comment is stored as. -/
def newComment (op : CommentDappOperation) (now : TimePointSec) (id : Nat) :
    Option (Nat × DappCommentObject) → DappCommentObject
  | none =>
    { dappName := op.dappName, category := op.parentPermlink, parentAuthor := default,
      parentPermlink := op.parentPermlink, author := op.author, permlink := op.permlink,
      lastUpdate := now, created := now, active := now, rootComment := id }
  | some (_, p) =>
    { dappName := op.dappName, category := p.category, parentAuthor := p.author,
      parentPermlink := p.permlink, author := op.author, permlink := op.permlink,
      lastUpdate := now, created := now, active := now, depth := p.depth + 1,
      rootComment := p.rootComment }

/-- Replies must be allowed on the root of the thread. -/
def checkAllowReplies : Option (Nat × DappCommentObject) → DappM Unit
  | none => pure ()
  | some (_, p) => do
    let s ← get
    let root ← ofOption (s.comments.lookup p.rootComment) .notFound
    fcAssert root.allowReplies "The parent comment has disabled replies."

/-- Posts and replies are rate limited; the account remembers the time of the last one. -/
def touchPost (author : Nat × AccountObject) (isRoot : Bool) (now : TimePointSec) : CoreM Unit := do
  fcAssert (!isRoot || author.2.lastRootPost + minRootCommentInterval < now)
    "You may only post once every 5 minutes."
  fcAssert (isRoot || author.2.lastPost + minReplyInterval < now)
    "You may only comment once every 20 seconds."
  modifyIn Sigmaengine.Index.accounts author.1 fun a =>
    .ok { a with
      lastRootPost := if isRoot then now else a.lastRootPost
      lastPost := now
      postCount := (a.postCount + 1) % 4294967296 }

def storeComment (op : CommentDappOperation) (now : TimePointSec)
    (parent : Option (Nat × DappCommentObject)) : DappM Unit := do
  let s ← get
  let _ ← createIn Index.comments (newComment op now s.comments.nextId parent)
  match parent with
  | none => pure ()
  | some p => countChild now (s.comments.rows.length + 1) p

/-- An edit keeps the parent the comment was created under.  The two times are assigned before the assertions, so
an edit that is refused has touched the comment. -/
def editComment (op : CommentDappOperation) (now : TimePointSec) (id : Nat) : DappM Unit := do
  modifyIn Index.comments id fun c => .ok { c with lastUpdate := now, active := now }
  modifyIn Index.comments id fun c =>
    if c.parentAuthor ≠ op.parentAuthor then
      .error (.assertion "The parent of a comment cannot change.")
    else if !strcmpEqual c.parentPermlink op.parentPermlink then
      .error (.assertion "The permlink of a comment cannot change.")
    else .ok c

/-- Create the comment, or edit the one with the same author and permlink. -/
def writeComment (op : CommentDappOperation) (now : TimePointSec) (author : Nat × AccountObject)
    (parent existing : Option (Nat × DappCommentObject)) : ChainM Unit :=
  match existing with
  | none => do
    onDapp (checkAllowReplies parent)
    onCore (touchPost author (op.parentAuthor = default) now)
    onDapp (storeComment op now parent)
  | some (id, _) => onDapp (editComment op now id)

def commentDappEvaluator (op : CommentDappOperation) : ChainM Unit := do
  let dapp ← onDapp (requireDapp op.dappName "$name dapp is not exist")
  onDapp (requireApproved dapp.2)
  onDapp (requireMember op.dappName op.author "$author isn't member of $dapp dapp")
  withDappFee dapp.2.owner do
    fcAssert (op.title.length + op.body.length + op.jsonMetadata.length ≠ 0)
      "Cannot update comment because nothing appears to be changing."
    let existing ← onDapp (findIn Index.comments (isPermlink op.dappName op.author op.permlink))
    let author ← onCore (getAccount op.author)
    let parent ← onDapp (getParent op)
    fcAssert (op.jsonMetadata.isEmpty || fc.isUtf8 op.jsonMetadata) "JSON Metadata must be UTF-8"
    let now ← onCore headBlockTime
    writeComment op now author parent existing

/-- One more like or dislike. -/
def countVote (type : CommentVoteType) (c : DappCommentObject) : DappCommentObject :=
  match type with
  | .like => { c with likeCount := (c.likeCount + 1) % 4294967296 }
  | .dislike => { c with dislikeCount := (c.dislikeCount + 1) % 4294967296 }

def castVote (dapp : DappName) (type : CommentVoteType) (comment voter : Nat) (now : TimePointSec) :
    DappM Unit := do
  let found ← findIn Index.commentVotes fun v =>
    v.comment == comment && v.voter == voter && v.voteType == type
  modifyIn Index.comments comment fun c => .ok (countVote type c)
  match found with
  | none => do
    let _ ← createIn Index.commentVotes
      { dappName := dapp, voter := voter, comment := comment, voteType := type, lastUpdate := now }
  | some (id, _) => modifyIn Index.commentVotes id fun v => .ok { v with lastUpdate := now }

def commentVoteDappEvaluator (op : CommentVoteDappOperation) : ChainM Unit := do
  let dapp ← onDapp (requireDapp op.dappName "$name dapp is not exist")
  onDapp (requireMember op.dappName op.voter "$voter isn't member of $dapp dapp")
  withDappFee dapp.2.owner do
    let comment ← onDapp (getComment op.dappName op.author op.permlink)
    let voter ← onCore (getAccount op.voter)
    let now ← onCore headBlockTime
    fcAssert comment.2.allowVotes "This comment(feed) can't be vote for."
    let type ← ofOption (CommentVoteType.ofNat? op.voteType) (.assertion "Please check vote type")
    onDapp (castVote op.dappName type comment.1 voter.1 now)

/-- Take a deleted comment off the count of every ancestor that can be found. -/
def uncountChild (now : TimePointSec) : Nat → DappCommentObject → DappM Unit
  | 0, _ => throw .diverged
  | fuel + 1, c =>
    if c.parentAuthor = default then pure ()
    else do
      let found ← findIn Index.comments (isPermlink c.dappName c.parentAuthor c.parentPermlink)
      match found with
      | none => pure ()
      | some (id, p) => do
        modifyIn Index.comments id fun q =>
          .ok { q with children := (q.children + 4294967295) % 4294967296, active := now }
        uncountChild now fuel p

def deleteComment (comment : Nat × DappCommentObject) (now : TimePointSec) : DappM Unit := do
  let s ← get
  let votes := (s.commentVotes.rows.filter fun v => v.2.comment == comment.1).map Prod.fst
  each (removeIn Index.commentVotes) votes
  uncountChild now (s.comments.rows.length + 1) comment.2
  removeIn Index.comments comment.1

def deleteCommentDappEvaluator (op : DeleteCommentDappOperation) : ChainM Unit := do
  let found ← onDapp (findIn Index.comments (isPermlink op.dappName op.author op.permlink))
  let comment ← ofOption found (.assertion "don't find a comment")
  fcAssert (comment.2.children = 0) "Cannot delete a comment with replies."
  let dapp ← onDapp (getIn Index.dapps fun d => d.dappName == op.dappName)
  withDappFee dapp.2.owner do
    let now ← onCore headBlockTime
    onDapp (deleteComment comment now)

/-! ## Votes of the block producers -/

/-- The voter is the owner of a block producer. -/
def requireBproducer (voter : AccountName) : CoreM Unit := do
  let found ← findIn Sigmaengine.Index.bobservers fun b => b.bpOwner == voter
  fcAssert (found.any fun b => b.2.isBproducer) "$account is not bp"

def voteDappEvaluator (op : VoteDappOperation) : ChainM Unit := do
  onCore (requireBproducer op.voter)
  let now ← onCore headBlockTime
  let vote ← ofOption (DappState.ofNat? op.vote) (.assertion "Vote type should be APPROVAL(102) or REJECTION(103).")
  onDapp do
    let dapp ← requireDapp op.dappName "$dapp dapp is not exist."
    fcAssert (dapp.2.dappState == .pending) "The state of $dapp dapp is $state, not PENDING"
    let found ← findIn Index.votes fun v => v.dappName == op.dappName && v.voter == op.voter
    match found with
    | none => do
      let _ ← createIn Index.votes
        { dappName := op.dappName, voter := op.voter, vote := vote, lastUpdate := now }
    | some (id, _) => modifyIn Index.votes id fun v => .ok { v with vote := vote, lastUpdate := now }

def voteDappTrxFeeEvaluator (op : VoteDappTrxFeeOperation) : ChainM Unit := do
  onCore (requireBproducer op.voter)
  let now ← onCore headBlockTime
  let found ← findIn feeVotePart fun v => v.voter == op.voter
  match found with
  | none => do
    let _ ← createIn feeVotePart
      { voter := op.voter, trxFee := op.trxFee.amount, trxFeeSymbol := op.trxFee.symbol, lastUpdate := now }
  | some (id, _) =>
    modifyIn feeVotePart id fun v =>
      .ok { v with trxFee := op.trxFee.amount, trxFeeSymbol := op.trxFee.symbol, lastUpdate := now }

def dappEvaluator : DappOperation → ChainM Unit
  | .createDapp op => createDappEvaluator op
  | .updateDappKey op => updateDappKeyEvaluator op
  | .commentDapp op => commentDappEvaluator fc op
  | .commentVoteDapp op => commentVoteDappEvaluator op
  | .deleteCommentDapp op => deleteCommentDappEvaluator op
  | .joinDapp op => joinDappEvaluator op
  | .leaveDapp op => leaveDappEvaluator op
  | .voteDapp op => voteDappEvaluator op
  | .voteDappTrxFee op => voteDappTrxFeeEvaluator op

omit fc

/-! ## Aggregation of votes -/

/-- The votes a pending dapp has received. -/
def countVotes (s : DappIndices) (dapp : DappName) (vote : DappState) : Nat :=
  (s.votes.rows.filter fun v => v.2.dappName == dapp && v.2.vote == vote).length

/-- The state a dapp is in after its votes are counted. -/
def settledState (s : DappIndices) (d : DappObject) : DappState :=
  if d.dappState ≠ .pending then d.dappState
  else if hardforkRequiredBobserversHf2 ≤ countVotes s d.dappName .approval then .approval
  else if hardforkRequiredBobserversHf2 ≤ countVotes s d.dappName .rejection then .rejection
  else .pending

def setDappState (now : TimePointSec) (dapp : Nat × DappObject) (state : DappState) : DappM Unit :=
  if state = dapp.2.dappState then pure ()
  else modifyIn Index.dapps dapp.1 fun d => .ok { d with dappState := state, lastUpdated := now }

def removeVotes (dapp : DappName) : DappM Unit := do
  let s ← get
  each (removeIn Index.votes) ((s.votes.rows.filter fun v => v.2.dappName == dapp).map Prod.fst)

def removeUsers (dapp : DappName) : DappM Unit := do
  let s ← get
  each (removeIn Index.users) ((s.users.rows.filter fun u => u.2.dappName == dapp).map Prod.fst)

/-- What is dropped with the new state: votes of a settled dapp, users and the dapp when rejected. -/
def dropSettled (dapp : Nat × DappObject) : DappState → DappM Unit
  | .pending => pure ()
  | .approval => removeVotes dapp.2.dappName
  | .rejection => do
    removeVotes dapp.2.dappName
    removeUsers dapp.2.dappName
    removeIn Index.dapps dapp.1

def aggregateDapp (now : TimePointSec) (dapp : Nat × DappObject) : DappM Unit := do
  let s ← get
  setDappState now dapp (settledState s dapp.2)
  dropSettled dapp (settledState s dapp.2)

def aggregateDappApproveVote (now : TimePointSec) : DappM Unit := do
  let s ← get
  each (aggregateDapp now) s.dapps.rows

/-- The fee votes that are not older than the limit. -/
def freshFees (votes : Table DappTrxFeeVoteObject) (now : TimePointSec) : List Asset :=
  (votes.rows.filter fun v => now < addSeconds v.2.lastUpdate maxFeedAgeSeconds).map
    fun v => ⟨v.2.trxFee, v.2.trxFeeSymbol⟩

/-- Enough votes to sort; the comparison asserts that two symbols are the same. -/
def Comparable (fees : List Asset) : Prop :=
  minFeeds ≤ fees.length → ∀ a ∈ fees, ∀ b ∈ fees, a.symbol = b.symbol

instance (fees : List Asset) : Decidable (Comparable fees) := inferInstanceAs (Decidable (_ → _))

/-- The median of the fresh votes, when there are enough of them. -/
def medianFee (votes : Table DappTrxFeeVoteObject) (now : TimePointSec) : Option Asset :=
  let fees := freshFees votes now
  if minFeeds ≤ fees.length then Median.upper Asset.amount fees else none

def setTransactionFee (fee : Asset) (d : Database) : Database :=
  { d with
    core := { d.core with dgp := { d.core.dgp with dappTransactionFee := fee.amount } }
    dappTransactionFeeSymbol := fee.symbol }

def aggregateTrxFeeVote (now : TimePointSec) : ChainM Unit := do
  let s ← get
  fcAssert (Comparable (freshFees s.feeVotes now)) "a.symbol == b.symbol"
  match medianFee s.feeVotes now with
  | none => pure ()
  | some fee => modify (setTransactionFee fee)

theorem aggregateTrxFeeVote_apply (now : TimePointSec) (d : Database) :
    aggregateTrxFeeVote now d =
      if Comparable (freshFees d.feeVotes now) then
        match medianFee d.feeVotes now with
        | none => .ok () d
        | some fee => .ok () (setTransactionFee fee d)
      else .error (.assertion "a.symbol == b.symbol") d := by
  unfold aggregateTrxFeeVote
  rw [bind_of_ok (get_apply d)]
  by_cases hcomparable : Comparable (freshFees d.feeVotes now)
  · have hassert : (fcAssert (Comparable (freshFees d.feeVotes now)) "a.symbol == b.symbol" : ChainM Unit) d =
        .ok () d := fcAssert_eq_ok.mpr ⟨decide_eq_true hcomparable, rfl⟩
    rw [if_pos hcomparable, bind_of_ok hassert]
    cases medianFee d.feeVotes now <;> rfl
  · have hassert : (fcAssert (Comparable (freshFees d.feeVotes now)) "a.symbol == b.symbol" : ChainM Unit) d =
        .error (.assertion "a.symbol == b.symbol") d := by
      rw [decide_eq_false hcomparable]
      rfl
    rw [if_neg hcomparable, bind_of_error hassert]

/-- The fee stays, or becomes the median. -/
theorem after_aggregateTrxFeeVote (now : TimePointSec) (d : Database) :
    after (aggregateTrxFeeVote now d) = d ∨
      ∃ fee, medianFee d.feeVotes now = some fee ∧ after (aggregateTrxFeeVote now d) = setTransactionFee fee d := by
  rw [aggregateTrxFeeVote_apply]
  split_ifs
  · cases hfee : medianFee d.feeVotes now with
    | none => exact .inl rfl
    | some fee => exact .inr ⟨fee, rfl, rfl⟩
  · exact .inl rfl

theorem always_aggregateTrxFeeVote {R : Database → Database → Prop} [Std.Refl R]
    (hfee : ∀ fee d, R d (setTransactionFee fee d)) (now : TimePointSec) : Always R (aggregateTrxFeeVote now) := by
  intro d
  rcases after_aggregateTrxFeeVote now d with h | ⟨fee, -, h⟩
  · rw [h]
    exact Std.Refl.refl d
  · rw [h]
    exact hfee fee d

/-- `dapp_plugin_impl::on_apply_block`. -/
def onApplyBlock : ChainM Unit := do
  let s ← get
  let now := s.core.dgp.time
  -- the sum is a `time_point`, and is converted back to 32 bits to be compared
  if addSeconds s.core.dgp.lastDappVotingAggregationTime 3600 < now then do
    onDapp (aggregateDappApproveVote now)
    aggregateTrxFeeVote now
    onCore (modify fun c => { c with dgp := { c.dgp with lastDappVotingAggregationTime := now } })
  else pure ()

end Sigmaengine.Dapp
