import Sigmaengine.Protocol.Raw
import Sigmaengine.Dapp.Objects

/-!
# Packed operations of the dapp plugin

`dapp_operation` in `fc::raw`: the fields in the order of `FC_REFLECT`.
-/

namespace Sigmaengine.Dapp

open Sigmaengine Reading Raw

def packFields : DappOperation → Bytes
  | .createDapp op | .updateDappKey op =>
    packName op.owner ++ (packName op.dappName ++ packOptional packKey op.dappKey)
  | .commentDapp op =>
    packName op.dappName ++ (packName op.parentAuthor ++ (packString op.parentPermlink ++ (packName op.author ++
      (packString op.permlink ++ (packString op.title ++ (packString op.body ++ packString op.jsonMetadata))))))
  | .commentVoteDapp op =>
    packName op.dappName ++ (packName op.voter ++ (packName op.author ++ (packString op.permlink ++
      packLittleEndian 2 op.voteType)))
  | .deleteCommentDapp op => packName op.dappName ++ (packName op.author ++ packString op.permlink)
  | .joinDapp op | .leaveDapp op => packName op.accountName ++ packName op.dappName
  | .voteDapp op => packName op.voter ++ (packName op.dappName ++ packLittleEndian 2 op.vote)
  | .voteDappTrxFee op => packName op.voter ++ packAsset op.trxFee

def which : DappOperation → Nat
  | .createDapp _ => 0
  | .updateDappKey _ => 1
  | .commentDapp _ => 2
  | .commentVoteDapp _ => 3
  | .deleteCommentDapp _ => 4
  | .joinDapp _ => 5
  | .leaveDapp _ => 6
  | .voteDapp _ => 7
  | .voteDappTrxFee _ => 8

def unpackKeyOperation : Reader DappKeyOperation := do
  let owner ← unpackName 64
  let dappName ← unpackName 32
  let dappKey ← unpackOptional unpackKey
  return ⟨owner, dappName, dappKey⟩

def unpackMember : Reader MemberOperation := do
  let accountName ← unpackName 64
  let dappName ← unpackName 32
  return ⟨accountName, dappName⟩

def unpackComment : Reader CommentDappOperation := do
  let dappName ← unpackName 32
  let parentAuthor ← unpackName 64
  let parentPermlink ← unpackString
  let author ← unpackName 64
  let permlink ← unpackString
  let title ← unpackString
  let body ← unpackString
  let jsonMetadata ← unpackString
  return ⟨dappName, parentAuthor, parentPermlink, author, permlink, title, body, jsonMetadata⟩

def unpackCommentVote : Reader CommentVoteDappOperation := do
  let dappName ← unpackName 32
  let voter ← unpackName 64
  let author ← unpackName 64
  let permlink ← unpackString
  let voteType ← littleEndian 2
  return ⟨dappName, voter, author, permlink, voteType⟩

def unpackDeleteComment : Reader DeleteCommentDappOperation := do
  let dappName ← unpackName 32
  let author ← unpackName 64
  let permlink ← unpackString
  return ⟨dappName, author, permlink⟩

def unpackVote : Reader VoteDappOperation := do
  let voter ← unpackName 64
  let dappName ← unpackName 32
  let vote ← littleEndian 2
  return ⟨voter, dappName, vote⟩

def unpackVoteTrxFee : Reader VoteDappTrxFeeOperation := do
  let voter ← unpackName 64
  let trxFee ← unpackAsset
  return ⟨voter, trxFee⟩

def unpackFields : Nat → Reader DappOperation
  | 0 => .createDapp <$> unpackKeyOperation
  | 1 => .updateDappKey <$> unpackKeyOperation
  | 2 => .commentDapp <$> unpackComment
  | 3 => .commentVoteDapp <$> unpackCommentVote
  | 4 => .deleteCommentDapp <$> unpackDeleteComment
  | 5 => .joinDapp <$> unpackMember
  | 6 => .leaveDapp <$> unpackMember
  | 7 => .voteDapp <$> unpackVote
  | 8 => .voteDappTrxFee <$> unpackVoteTrxFee
  | _ => failure

/-- `dapp_operation`. -/
def format : Format DappOperation where
  count := 9
  size := 328
  which := which
  packFields := packFields
  unpackFields := unpackFields

/-! ## They are found again -/

def Short (s : Bytes) : Prop := s.length < maxArrayAllocSize

/-- Fields that `fc::raw` can carry. -/
def Packable : DappOperation → Prop
  | .createDapp op | .updateDappKey op => Shown op.owner ∧ Shown op.dappName ∧ ∀ k ∈ op.dappKey, k.data < 256 ^ 33
  | .commentDapp op =>
    Shown op.dappName ∧ Shown op.parentAuthor ∧ Short op.parentPermlink ∧ Shown op.author ∧ Short op.permlink ∧
      Short op.title ∧ Short op.body ∧ Short op.jsonMetadata
  | .commentVoteDapp op =>
    Shown op.dappName ∧ Shown op.voter ∧ Shown op.author ∧ Short op.permlink ∧ op.voteType < 256 ^ 2
  | .deleteCommentDapp op => Shown op.dappName ∧ Shown op.author ∧ Short op.permlink
  | .joinDapp op | .leaveDapp op => Shown op.accountName ∧ Shown op.dappName
  | .voteDapp op => Shown op.voter ∧ Shown op.dappName ∧ op.vote < 256 ^ 2
  | .voteDappTrxFee op =>
    Shown op.voter ∧ -2 ^ 63 ≤ op.trxFee.amount ∧ op.trxFee.amount < 2 ^ 63 ∧ op.trxFee.symbol < 256 ^ 8

theorem reads_account {name : AccountName} (h : Shown name) : Reads (unpackName 64) (packName name) name :=
  reads_name h (by decide)

theorem reads_dappName {name : DappName} (h : Shown name) : Reads (unpackName 32) (packName name) name :=
  reads_name h (by decide)

theorem reads_keyOperation {op : DappKeyOperation} (howner : Shown op.owner) (hdapp : Shown op.dappName)
    (hkey : ∀ k ∈ op.dappKey, k.data < 256 ^ 33) :
    Reads unpackKeyOperation (packName op.owner ++ (packName op.dappName ++ packOptional packKey op.dappKey)) op :=
  (reads_account howner).bind ((reads_dappName hdapp).bind (reads_optional fun k hk => reads_key (hkey k hk)).last)

theorem reads_member {op : MemberOperation} (haccount : Shown op.accountName) (hdapp : Shown op.dappName) :
    Reads unpackMember (packName op.accountName ++ packName op.dappName) op :=
  (reads_account haccount).bind (reads_dappName hdapp).last

theorem reads_fields {op : DappOperation} (h : Packable op) : Reads (unpackFields (which op)) (packFields op) op := by
  cases op with
  | createDapp op => exact (reads_keyOperation h.1 h.2.1 h.2.2).map _
  | updateDappKey op => exact (reads_keyOperation h.1 h.2.1 h.2.2).map _
  | commentDapp op =>
    obtain ⟨hdapp, hparent, hlink, hauthor, hpermlink, htitle, hbody, hjson⟩ := h
    have hread : Reads unpackComment _ op := (reads_dappName hdapp).bind ((reads_account hparent).bind
      ((reads_string hlink).bind ((reads_account hauthor).bind ((reads_string hpermlink).bind
        ((reads_string htitle).bind ((reads_string hbody).bind (reads_string hjson).last))))))
    exact hread.map _
  | commentVoteDapp op =>
    obtain ⟨hdapp, hvoter, hauthor, hpermlink, htype⟩ := h
    have hread : Reads unpackCommentVote _ op := (reads_dappName hdapp).bind ((reads_account hvoter).bind
      ((reads_account hauthor).bind ((reads_string hpermlink).bind (reads_littleEndian htype).last)))
    exact hread.map _
  | deleteCommentDapp op =>
    obtain ⟨hdapp, hauthor, hpermlink⟩ := h
    have hread : Reads unpackDeleteComment _ op :=
      (reads_dappName hdapp).bind ((reads_account hauthor).bind (reads_string hpermlink).last)
    exact hread.map _
  | joinDapp op => exact (reads_member h.1 h.2).map _
  | leaveDapp op => exact (reads_member h.1 h.2).map _
  | voteDapp op =>
    obtain ⟨hvoter, hdapp, hvote⟩ := h
    have hread : Reads unpackVote _ op :=
      (reads_account hvoter).bind ((reads_dappName hdapp).bind (reads_littleEndian hvote).last)
    exact hread.map _
  | voteDappTrxFee op =>
    obtain ⟨hvoter, hlow, hhigh, hsymbol⟩ := h
    have hread : Reads unpackVoteTrxFee _ op := (reads_account hvoter).bind (reads_asset hlow hhigh hsymbol).last
    exact hread.map _

end Sigmaengine.Dapp
