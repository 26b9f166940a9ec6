import Sigmaengine.Chain.Objects

/-!
# Dapp plugin: objects and operations

`dapp_objects.hpp` and `dapp_operations.hpp`.  The title, body and metadata of a comment are written
by one evaluator and read by none, so they are not part of the stored object.
-/

namespace Sigmaengine.Dapp

open Sigmaengine

inductive DappState
  | pending
  | approval
  | rejection
deriving DecidableEq, Repr

inductive CommentVoteType
  | like
  | dislike
deriving DecidableEq, Repr

structure DappObject where
  dappName : DappName
  owner : AccountName
  dappKey : PublicKey
  dappState : DappState := .pending
  created : TimePointSec
  lastUpdated : TimePointSec

instance : Clash DappObject where
  clash a b := a.dappName == b.dappName

structure DappCommentObject where
  dappName : DappName
  category : Bytes
  parentAuthor : AccountName
  parentPermlink : Bytes
  author : AccountName
  permlink : Bytes
  lastUpdate : TimePointSec
  created : TimePointSec
  active : TimePointSec
  depth : Nat := 0
  children : Nat := 0
  likeCount : Nat := 0
  dislikeCount : Nat := 0
  rootComment : Nat
  allowReplies : Bool := true
  allowVotes : Bool := true

/-- `by_permlink` compares permlinks as C strings. -/
instance : Clash DappCommentObject where
  clash a b := a.dappName == b.dappName && a.author == b.author && cStr a.permlink == cStr b.permlink

structure DappCommentVoteObject where
  dappName : DappName
  voter : Nat
  comment : Nat
  voteType : CommentVoteType
  lastUpdate : TimePointSec

/-- `by_comment_voter` (with its permutations) and `by_voter_last_update`. -/
instance : Clash DappCommentVoteObject where
  clash a b := a.voter == b.voter && a.comment == b.comment && a.lastUpdate == b.lastUpdate &&
      (a.voteType == b.voteType || a.dappName == b.dappName)

structure DappUserObject where
  dappId : Nat
  dappName : DappName
  accountId : Nat
  accountName : AccountName
  joinDateTime : TimePointSec

instance : Clash DappUserObject where
  clash a b := a.dappName == b.dappName && a.accountName == b.accountName &&
      a.joinDateTime == b.joinDateTime

structure DappVoteObject where
  dappName : DappName
  voter : AccountName
  vote : DappState
  lastUpdate : TimePointSec

instance : Clash DappVoteObject where
  clash a b := a.dappName == b.dappName && a.voter == b.voter

/-- The asset `trx_fee` is kept in its two parts. -/
structure DappTrxFeeVoteObject where
  voter : AccountName
  trxFee : Int
  trxFeeSymbol : AssetSymbol
  lastUpdate : TimePointSec

instance : Clash DappTrxFeeVoteObject where
  clash a b := a.voter == b.voter

/-- The indices of the dapp plugin, apart from the fee votes. -/
structure DappIndices where
  dapps : Table DappObject
  comments : Table DappCommentObject
  commentVotes : Table DappCommentVoteObject
  users : Table DappUserObject
  votes : Table DappVoteObject

/-! ## Operations -/

/-- `create_dapp_operation` and `update_dapp_key_operation` have the same fields. -/
structure DappKeyOperation where
  owner : AccountName
  dappName : DappName
  dappKey : Option PublicKey

structure CommentDappOperation where
  dappName : DappName
  parentAuthor : AccountName
  parentPermlink : Bytes
  author : AccountName
  permlink : Bytes
  title : Bytes
  body : Bytes
  jsonMetadata : Bytes

structure CommentVoteDappOperation where
  dappName : DappName
  voter : AccountName
  author : AccountName
  permlink : Bytes
  voteType : Nat

structure DeleteCommentDappOperation where
  dappName : DappName
  author : AccountName
  permlink : Bytes

/-- `join_dapp_operation` and `leave_dapp_operation` have the same fields. -/
structure MemberOperation where
  accountName : AccountName
  dappName : DappName

structure VoteDappOperation where
  voter : AccountName
  dappName : DappName
  vote : Nat

structure VoteDappTrxFeeOperation where
  voter : AccountName
  trxFee : Asset

inductive DappOperation
  | createDapp (op : DappKeyOperation)
  | updateDappKey (op : DappKeyOperation)
  | commentDapp (op : CommentDappOperation)
  | commentVoteDapp (op : CommentVoteDappOperation)
  | deleteCommentDapp (op : DeleteCommentDappOperation)
  | joinDapp (op : MemberOperation)
  | leaveDapp (op : MemberOperation)
  | voteDapp (op : VoteDappOperation)
  | voteDappTrxFee (op : VoteDappTrxFeeOperation)

/-- `dapp_state_type` as the number on the wire. -/
def DappState.ofNat? : Nat → Option DappState
  | 101 => some .pending
  | 102 => some .approval
  | 103 => some .rejection
  | _ => none

/-- `comment_vote_type` as the number on the wire. -/
def CommentVoteType.ofNat? : Nat → Option CommentVoteType
  | 11 => some .like
  | 12 => some .dislike
  | _ => none

variable (fc : TextRules)

def dappNameGiven (name : DappName) : Check := ⟨0 < name.size, "dapp_name.size() > 0"⟩

def noSpace (name : DappName) : Check := ⟨!name.toBytes.contains 32, "can't use space in dapp name"⟩

def validatePermlink (permlink : Bytes) : List Check :=
  [⟨permlink.length < maxPermlinkLength, "permlink is too long"⟩,
    ⟨fc.isUtf8 permlink, "permlink not formatted in UTF8"⟩]

def DappKeyOperation.validateCreate (op : DappKeyOperation) : List Check :=
  [validateAccountName op.owner, dappNameGiven op.dappName, noSpace op.dappName,
    ⟨op.dappKey.isSome, "There isn't dapp_key"⟩]

def DappKeyOperation.validateUpdate (op : DappKeyOperation) : List Check :=
  [validateAccountName op.owner, dappNameGiven op.dappName,
    ⟨op.dappKey.isSome, "There isn't dapp_key"⟩]

def CommentDappOperation.validate (op : CommentDappOperation) : List Check :=
  [dappNameGiven op.dappName, ⟨op.title.length < 256, "Title larger than size limit"⟩,
    ⟨fc.isUtf8 op.title, "Title not formatted in UTF8"⟩,
    ⟨0 < op.body.length, "Body is empty"⟩, ⟨fc.isUtf8 op.body, "Body not formatted in UTF8"⟩,
    ⟨op.parentAuthor.size == 0 || isValidAccountName op.parentAuthor.toBytes,
      "Account name $n is invalid"⟩,
    validateAccountName op.author] ++
    validatePermlink fc op.parentPermlink ++ validatePermlink fc op.permlink ++
    [⟨op.jsonMetadata.isEmpty || fc.isValidJson op.jsonMetadata, "JSON Metadata not valid JSON"⟩]

def CommentVoteDappOperation.validate (op : CommentVoteDappOperation) : List Check :=
  [dappNameGiven op.dappName, ⟨0 < op.voter.size, "voter.size() > 0"⟩,
    validateAccountName op.voter, ⟨0 < op.author.size, "author.size() > 0"⟩,
    validateAccountName op.author, ⟨0 < op.permlink.length, "permlink.size() > 0"⟩] ++
    validatePermlink fc op.permlink ++
    [⟨(CommentVoteType.ofNat? op.voteType).isSome, "Please check vote type"⟩]

def DeleteCommentDappOperation.validate (op : DeleteCommentDappOperation) : List Check :=
  [dappNameGiven op.dappName, ⟨0 < op.permlink.length, "permlink.size() > 0"⟩] ++
    validatePermlink fc op.permlink ++ [validateAccountName op.author]

def MemberOperation.validate (op : MemberOperation) : List Check :=
  [validateAccountName op.accountName, dappNameGiven op.dappName, noSpace op.dappName]

def VoteDappOperation.validate (op : VoteDappOperation) : List Check :=
  [validateAccountName op.voter, dappNameGiven op.dappName, noSpace op.dappName,
    ⟨op.vote = 102 || op.vote = 103, "Vote type should be APPROVAL(102) or REJECTION(103)."⟩]

def VoteDappTrxFeeOperation.validate (op : VoteDappTrxFeeOperation) : List Check :=
  [validateAccountName op.voter,
    ⟨0 ≤ op.trxFee.amount, "Transaction fee is greater than 0 or same."⟩,
    ⟨op.trxFee.symbol = sgtSymbol, "Transaction fee is available to use only SNAC"⟩]

def DappOperation.validate : DappOperation → List Check
  | .createDapp op => op.validateCreate
  | .updateDappKey op => op.validateUpdate
  | .commentDapp op => op.validate fc
  | .commentVoteDapp op => op.validate fc
  | .deleteCommentDapp op => op.validate fc
  | .joinDapp op => op.validate
  | .leaveDapp op => op.validate
  | .voteDapp op => op.validate
  | .voteDappTrxFee op => op.validate

omit fc

def DappOperation.getRequiredAuthorities (r : RequiredAuthorities) :
    DappOperation → RequiredAuthorities
  | .createDapp op => r.addActive [op.owner]
  | .updateDappKey op => r.addActive [op.owner]
  | .commentDapp op => r.addPosting [op.author]
  | .commentVoteDapp op => r.addPosting [op.voter]
  | .deleteCommentDapp op => r.addPosting [op.author]
  | .joinDapp op => r.addActive [op.accountName]
  | .leaveDapp op => r.addActive [op.accountName]
  | .voteDapp op => r.addActive [op.voter]
  | .voteDappTrxFee op => r.addActive [op.voter]

end Sigmaengine.Dapp
