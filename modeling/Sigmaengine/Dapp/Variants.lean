import Sigmaengine.Dapp.Packed
import Sigmaengine.Protocol.Variant

/-!
# Operations of the dapp plugin as JSON

The members of each operation under their names in `FC_REFLECT`.
-/

namespace Sigmaengine.Dapp

open Variant

variable (rules : VariantRules) (fields : List (Bytes × Variant))

def readOwner : Option AccountName := member fields ['o', 'w', 'n', 'e', 'r'] (asName rules) default

def readDappName : Option DappName := member fields ['d', 'a', 'p', 'p', '_', 'n', 'a', 'm', 'e'] (asName rules) default

def readAuthor : Option AccountName := member fields ['a', 'u', 't', 'h', 'o', 'r'] (asName rules) default

def readVoter : Option AccountName := member fields ['v', 'o', 't', 'e', 'r'] (asName rules) default

def readPermlink : Option Bytes := member fields ['p', 'e', 'r', 'm', 'l', 'i', 'n', 'k'] (asString rules) []

def readKeyOperation : Option DappKeyOperation := do
  let owner ← readOwner rules fields
  let dappName ← readDappName rules fields
  let dappKey ← member fields ['d', 'a', 'p', 'p', '_', 'k', 'e', 'y'] (asOptionalKey rules) none
  return ⟨owner, dappName, dappKey⟩

def readComment : Option CommentDappOperation := do
  let dappName ← readDappName rules fields
  let parentAuthor ←
    member fields ['p', 'a', 'r', 'e', 'n', 't', '_', 'a', 'u', 't', 'h', 'o', 'r'] (asName rules) default
  let parentPermlink ←
    member fields ['p', 'a', 'r', 'e', 'n', 't', '_', 'p', 'e', 'r', 'm', 'l', 'i', 'n', 'k'] (asString rules) []
  let author ← readAuthor rules fields
  let permlink ← readPermlink rules fields
  let title ← member fields ['t', 'i', 't', 'l', 'e'] (asString rules) []
  let body ← member fields ['b', 'o', 'd', 'y'] (asString rules) []
  let jsonMetadata ←
    member fields ['j', 's', 'o', 'n', '_', 'm', 'e', 't', 'a', 'd', 'a', 't', 'a'] (asString rules) []
  return ⟨dappName, parentAuthor, parentPermlink, author, permlink, title, body, jsonMetadata⟩

def readCommentVote : Option CommentVoteDappOperation := do
  let dappName ← readDappName rules fields
  let voter ← readVoter rules fields
  let author ← readAuthor rules fields
  let permlink ← readPermlink rules fields
  let voteType ← member fields ['v', 'o', 't', 'e', '_', 't', 'y', 'p', 'e'] (asUint16 rules) 0
  return ⟨dappName, voter, author, permlink, voteType⟩

def readDeleteComment : Option DeleteCommentDappOperation := do
  let dappName ← readDappName rules fields
  let author ← readAuthor rules fields
  let permlink ← readPermlink rules fields
  return ⟨dappName, author, permlink⟩

def readMember : Option MemberOperation := do
  let accountName ← member fields ['a', 'c', 'c', 'o', 'u', 'n', 't', '_', 'n', 'a', 'm', 'e'] (asName rules) default
  let dappName ← readDappName rules fields
  return ⟨accountName, dappName⟩

def readVote : Option VoteDappOperation := do
  let voter ← readVoter rules fields
  let dappName ← readDappName rules fields
  let vote ← member fields ['v', 'o', 't', 'e'] (asUint16 rules) 0
  return ⟨voter, dappName, vote⟩

def readVoteTrxFee : Option VoteDappTrxFeeOperation := do
  let voter ← readVoter rules fields
  let trxFee ← member fields ['t', 'r', 'x', '_', 'f', 'e', 'e'] (asAsset rules) ⟨0, sgtSymbol⟩
  return ⟨voter, trxFee⟩

def readFields : Nat → Option DappOperation
  | 0 => .createDapp <$> readKeyOperation rules fields
  | 1 => .updateDappKey <$> readKeyOperation rules fields
  | 2 => .commentDapp <$> readComment rules fields
  | 3 => .commentVoteDapp <$> readCommentVote rules fields
  | 4 => .deleteCommentDapp <$> readDeleteComment rules fields
  | 5 => .joinDapp <$> readMember rules fields
  | 6 => .leaveDapp <$> readMember rules fields
  | 7 => .voteDapp <$> readVote rules fields
  | 8 => .voteDappTrxFee <$> readVoteTrxFee rules fields
  | _ => none

/-- `dapp_operation`. -/
def variantFormat : VariantFormat DappOperation where
  names :=
    [ascii ['c', 'r', 'e', 'a', 't', 'e', '_', 'd', 'a', 'p', 'p'],
      ascii ['u', 'p', 'd', 'a', 't', 'e', '_', 'd', 'a', 'p', 'p', '_', 'k', 'e', 'y'],
      ascii ['c', 'o', 'm', 'm', 'e', 'n', 't', '_', 'd', 'a', 'p', 'p'],
      ascii ['c', 'o', 'm', 'm', 'e', 'n', 't', '_', 'v', 'o', 't', 'e', '_', 'd', 'a', 'p', 'p'],
      ascii ['d', 'e', 'l', 'e', 't', 'e', '_', 'c', 'o', 'm', 'm', 'e', 'n', 't', '_', 'd', 'a', 'p', 'p'],
      ascii ['j', 'o', 'i', 'n', '_', 'd', 'a', 'p', 'p'],
      ascii ['l', 'e', 'a', 'v', 'e', '_', 'd', 'a', 'p', 'p'],
      ascii ['v', 'o', 't', 'e', '_', 'd', 'a', 'p', 'p'],
      ascii ['v', 'o', 't', 'e', '_', 'd', 'a', 'p', 'p', '_', 't', 'r', 'x', '_', 'f', 'e', 'e']]
  initial := .createDapp ⟨default, default, none⟩
  readFields := fun which fields => readFields rules fields which

end Sigmaengine.Dapp
