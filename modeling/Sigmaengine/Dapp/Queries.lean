import Sigmaengine.Chain.Database
import Sigmaengine.Dapp.Evaluators
import Sigmaengine.Lib.Index
import Sigmaengine.Protocol.Ordering

/-!
# Queries of the dapp plugin

`dapp_api.cpp`: what a node answers about the comments of a dapp and the votes on them.  Each query walks an index over
all dapps from where it finds its start, and stops on a condition of its own.
-/

namespace Sigmaengine.Dapp

open OrderedIndex

/-! ## Indices -/

abbrev Comment := Nat × DappCommentObject

abbrev CommentVote := Nat × DappCommentVoteObject

/-- `time_point_sec::maximum()`. -/
def maximumTime : TimePointSec := 4294967295

/-- The keys of the indices; times go down. -/
def byDappAndCreated (c : Comment) : DappName ×ₗ (Natᵒᵈ ×ₗ Nat) :=
  toLex (c.2.dappName, toLex (OrderDual.toDual c.2.created, c.1))

def byAuthorLastUpdate (c : Comment) : DappName ×ₗ (AccountName ×ₗ (Natᵒᵈ ×ₗ Nat)) :=
  toLex (c.2.dappName, toLex (c.2.author, toLex (OrderDual.toDual c.2.lastUpdate, c.1)))

def byLastUpdate (c : Comment) : DappName ×ₗ (AccountName ×ₗ (Natᵒᵈ ×ₗ Nat)) :=
  toLex (c.2.dappName, toLex (c.2.parentAuthor, toLex (OrderDual.toDual c.2.lastUpdate, c.1)))

def CommentVoteType.toNat : CommentVoteType → Nat
  | .like => 11
  | .dislike => 12

def byCommentVoter (v : CommentVote) : Nat ×ₗ (Nat ×ₗ (Nat ×ₗ Nat)) :=
  toLex (v.2.comment, toLex (v.2.voter, toLex (v.2.voteType.toNat, v.2.lastUpdate)))

def byVoterComment (v : CommentVote) : Nat ×ₗ (Nat ×ₗ (Nat ×ₗ Nat)) :=
  toLex (v.2.voter, toLex (v.2.comment, toLex (v.2.voteType.toNat, v.2.lastUpdate)))

/-- `iterator_to`. -/
def iteratorTo {α κ : Type} [LinearOrder κ] (key : Nat × α → κ) (rows : List (Nat × α)) (id : Nat) : List (Nat × α) :=
  (ordered key rows).dropWhile fun r => r.1 != id

/-! ## What is returned, and what is thrown -/

structure CommentVoteApiObject where
  voter : AccountName
  time : TimePointSec

/-- `dapp_discussion`. -/
structure DappDiscussion where
  id : Nat
  comment : DappCommentObject
  likeVotes : List CommentVoteApiObject
  dislikeVotes : List CommentVoteApiObject

structure AccountVoteApiObject where
  dappName : DappName
  author : AccountName
  permlink : Bytes
  type : CommentVoteType
  time : TimePointSec

/-- An exception; while an object was looked at, with the dapp of the object. -/
inductive Thrown where
  | refused (e : Error)
  | at_ (dapp : DappName) (e : Error)

abbrev Query := Except Thrown

def expect (c : Bool) (text : String) : Query Unit := if c then .ok () else .error (.refused (.assertion text))

/-! ## The votes on a comment -/

variable (d : Database)

/-- `get_dapp_active_votes`. -/
def getDappActiveVotes (dappName : DappName) (author : AccountName) (permlink : Bytes) (type : CommentVoteType) :
    Except Error (List CommentVoteApiObject) :=
  match d.dapp.comments.find? (isPermlink dappName author permlink) with
  | none => .error .notFound
  | some c =>
    let votes := prefixBound byCommentVoter d.dapp.commentVotes.rows (fun v => v.2.comment) c.1
    ((votes.takeWhile fun v => v.2.comment = c.1).filter fun v => v.2.voteType = type).mapM fun v =>
      match d.core.accounts.lookup v.2.voter with
      | none => .error .notFound
      | some voter => .ok ⟨voter.name, v.2.lastUpdate⟩

/-- A comment with the votes on it.  Its author goes through a `string`. -/
def discussion (dappName : DappName) (c : Comment) : Except Error DappDiscussion := do
  let author := .ofBytes c.2.author.toBytes
  let likeVotes ← getDappActiveVotes d dappName author c.2.permlink .like
  let dislikeVotes ← getDappActiveVotes d dappName author c.2.permlink .dislike
  return ⟨c.1, c.2, likeVotes, dislikeVotes⟩

/-- `get_dapp_discussion`. -/
def getDappDiscussion (id : Nat) : Except Error DappDiscussion :=
  match d.dapp.comments.lookup id with
  | none => .error .notFound
  | some c => discussion d (.ofBytes c.dappName.toBytes) (id, c)

/-! ## The contents of a dapp -/

structure DappDiscussionQuery where
  dappName : DappName
  limit : Nat
  startAuthor : Option Bytes := none
  startPermlink : Option Bytes := none
  parentAuthor : Option Bytes := none

/-- The loop of `get_dapp_discussions`, which catches what a comment throws. -/
def discussionsLoop (query : DappDiscussionQuery) (filter exit : DappDiscussion → Bool) (ignoreParent : Bool) :
    Nat → List Comment → List DappDiscussion
  | 0, _ => []
  | _, [] => []
  | left + 1, itr :: rest =>
    if query.dappName ≠ itr.2.dappName then []
    else if !ignoreParent && itr.2.parentAuthor != .ofBytes (query.parentAuthor.getD []) then []
    else
      match getDappDiscussion d itr.1 with
      | .error _ => discussionsLoop query filter exit ignoreParent (left + 1) rest
      | .ok comment =>
        if filter comment then discussionsLoop query filter exit ignoreParent (left + 1) rest
        else if exit comment then []
        else comment :: discussionsLoop query filter exit ignoreParent left rest

/-- `get_dapp_discussions`. -/
def getDappDiscussions {κ : Type} [LinearOrder κ] (query : DappDiscussionQuery) (key : Comment → κ)
    (commentItr : List Comment) (filter exit : DappDiscussion → Bool) (ignoreParent : Bool) :
    Query (List DappDiscussion) := do
  expect (query.limit ≤ 100) "limit <= 100"
  let startAuthor := query.startAuthor.getD []
  let startPermlink := query.startPermlink.getD []
  let itr ←
    if startAuthor ≠ [] ∧ startPermlink ≠ [] then
      match d.dapp.comments.find? (isPermlink query.dappName (.ofBytes startAuthor) startPermlink) with
      | none => .error (.refused (.assertion "Comment is not in account's comments"))
      | some start => .ok (iteratorTo key d.dapp.comments.rows start.1)
    else .ok commentItr
  return discussionsLoop d query filter exit ignoreParent query.limit itr

/-- The root comments of a dapp are those without a parent. -/
def isRoot (c : DappCommentObject) : Bool := c.parentAuthor.size == 0

def lookupDappContents (dappName : DappName) (lastAuthor lastPermlink : Bytes) (limit : Nat) :
    Query (List DappDiscussion) := do
  expect (0 < limit ∧ limit ≤ 100) "limit > 0 && limit <= 100"
  let createdItr := prefixBound byDappAndCreated d.dapp.comments.rows
    (fun c => toLex (c.2.dappName, OrderDual.toDual c.2.created)) (toLex (dappName, OrderDual.toDual maximumTime))
  let query : DappDiscussionQuery :=
    { dappName := dappName, limit := limit
      startAuthor := if lastAuthor ≠ [] then some lastAuthor else none
      startPermlink := if lastPermlink ≠ [] then some lastPermlink else none }
  getDappDiscussions d query byDappAndCreated createdItr (fun c => !isRoot c.comment) (fun _ => false) true

/-! ## Comments of an author, and replies to one -/

/-- The loops of the next two queries: as long as the comments have something in common, up to a number of those that
are shown. -/
def walk (dappName : DappName) (inCommon shown : DappCommentObject → Bool) : Nat → List Comment → Query (List DappDiscussion)
  | 0, _ => .ok []
  | _, [] => .ok []
  | left + 1, itr :: rest =>
    if inCommon itr.2 then
      if shown itr.2 then
        match discussion d dappName itr with
        | .error e => .error (.at_ itr.2.dappName e)
        | .ok c => (walk dappName inCommon shown left rest).map (c :: ·)
      else walk dappName inCommon shown (left + 1) rest
    else .ok []

/-- The comment that a query starts with. -/
def startComment (dappName : DappName) (author : AccountName) (permlink : Bytes) : Query Comment :=
  match d.dapp.comments.find? (isPermlink dappName author permlink) with
  | none => .error (.refused .notFound)
  | some start => .ok start

/-- Where the comments of an author before a date begin. -/
def discussionsStart (dappName : DappName) (author : AccountName) (startPermlink : Bytes) (beforeDate : TimePointSec) :
    Query (List Comment) := do
  let beforeDate := if beforeDate = 0 then maximumTime else beforeDate
  let itr := prefixBound byAuthorLastUpdate d.dapp.comments.rows
    (fun c => toLex (c.2.dappName, toLex (c.2.author, OrderDual.toDual c.2.lastUpdate)))
    (toLex (dappName, toLex (author, OrderDual.toDual beforeDate)))
  if startPermlink ≠ [] then
    let start ← startComment d dappName author startPermlink
    return if start.2.created < beforeDate then iteratorTo byAuthorLastUpdate d.dapp.comments.rows start.1 else itr
  else return itr

def getDappDiscussionsByAuthorBeforeDate (dappName : DappName) (author : AccountName) (startPermlink : Bytes)
    (beforeDate : TimePointSec) (limit : Nat) : Query (List DappDiscussion) := do
  expect (limit ≤ 100) "limit <= 100"
  let itr ← discussionsStart d dappName author startPermlink beforeDate
  walk d dappName (fun c => c.author = author) isRoot limit itr

/-- Where the replies to an account begin, and the account they are replies to. -/
def repliesStart (dappName : DappName) (account startAuthor : AccountName) (startPermlink : Bytes) :
    Query (List Comment × AccountName) :=
  if startPermlink ≠ [] then do
    let start ← startComment d dappName startAuthor startPermlink
    return (iteratorTo byLastUpdate d.dapp.comments.rows start.1, start.2.parentAuthor)
  else if account.size ≠ 0 then
    .ok (prefixBound byLastUpdate d.dapp.comments.rows (fun c => toLex (c.2.dappName, c.2.parentAuthor))
      (toLex (dappName, account)), account)
  else .ok (ordered byLastUpdate d.dapp.comments.rows, account)

def getDappRepliesByLastUpdate (dappName : DappName) (account startAuthor : AccountName) (startPermlink : Bytes)
    (limit : Nat) : Query (List DappDiscussion) := do
  expect (limit ≤ 100) "limit <= 100"
  let (itr, parentAuthor) ← repliesStart d dappName account startAuthor startPermlink
  walk d dappName (fun c => c.parentAuthor = parentAuthor) (fun _ => true) limit itr

/-! ## The votes of an account -/

def accountVote (v : CommentVote) : Query AccountVoteApiObject :=
  match d.dapp.comments.lookup v.2.comment with
  | none => .error (.at_ v.2.dappName .notFound)
  | some c => .ok ⟨v.2.dappName, c.author, c.permlink, v.2.voteType, v.2.lastUpdate⟩

/-- `get_dapp_account_votes`, which does not use the name of the dapp. -/
def getDappAccountVotes (_dappName : DappName) (voter : AccountName) : Query (List AccountVoteApiObject) :=
  match d.core.accounts.find? fun a => a.name == voter with
  | none => .error (.refused .notFound)
  | some account =>
    ((prefixBound byVoterComment d.dapp.commentVotes.rows (fun v => v.2.voter) account.1).takeWhile
      fun v => v.2.voter ≤ account.1).mapM (accountVote d)

end Sigmaengine.Dapp
