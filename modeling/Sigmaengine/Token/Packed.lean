import Sigmaengine.Protocol.Raw
import Sigmaengine.Protocol.Variant

/-!
# Operations of the token plugin on the wire

`token_operation` in `fc::raw` and as JSON: the members of each operation in the order and under the names of
`FC_REFLECT`.
-/

namespace Sigmaengine.Token

open Reading Raw Variant

/-! ## `fc::raw` -/

def packFields : TokenOperation → Bytes
  | .createToken op =>
    packName op.name ++ (packString op.symbolName ++ (packName op.publisher ++ (packKey op.dappKey ++
      (packName op.dappName ++ packInt64 op.initSupplyAmount))))
  | .issueToken op =>
    packName op.name ++ (packName op.publisher ++ (packKey op.dappKey ++ packAsset op.reissueAmount))
  | .transferToken op => packName op.from_ ++ (packName op.to_ ++ (packAsset op.amount ++ packString op.memo))
  | .burnToken op => packName op.account ++ packAsset op.amount
  | .setupTokenFund op =>
    packName op.tokenPublisher ++ (packName op.token ++ (packName op.fundName ++ packAsset op.initFundBalance))
  | .setTokenStakingInterest op =>
    packName op.tokenPublisher ++ (packName op.token ++ (op.month :: packString op.percentInterestRate))
  | .transferTokenFund op =>
    packName op.from_ ++ (packName op.token ++ (packName op.fundName ++ (packAsset op.amount ++ packString op.memo)))
  | .stakingTokenFund op =>
    packName op.from_ ++ (packName op.token ++ (packName op.fundName ++ (packLittleEndian 4 op.requestId ++
      (packAsset op.amount ++ (packString op.memo ++ [op.month])))))
  | .transferTokenSavings op =>
    packName op.token ++ (packName op.from_ ++ (packName op.to_ ++ (packLittleEndian 4 op.requestId ++
      (packAsset op.amount ++ (op.splitPayMonth :: (packString op.memo ++ packLittleEndian 4 op.nextDate))))))
  | .cancelTransferTokenSavings op | .concludeTransferTokenSavings op =>
    packName op.token ++ (packName op.from_ ++ (packName op.to_ ++ packLittleEndian 4 op.requestId))

def which : TokenOperation → Nat
  | .createToken _ => 0
  | .issueToken _ => 1
  | .transferToken _ => 2
  | .burnToken _ => 3
  | .setupTokenFund _ => 4
  | .setTokenStakingInterest _ => 5
  | .transferTokenFund _ => 6
  | .stakingTokenFund _ => 7
  | .transferTokenSavings _ => 8
  | .cancelTransferTokenSavings _ => 9
  | .concludeTransferTokenSavings _ => 10

def unpackUint8 : Reader UInt8 := UInt8.ofNat <$> littleEndian 1

def unpackCreateToken : Reader CreateTokenOperation := do
  let name ← unpackName 64
  let symbolName ← unpackString
  let publisher ← unpackName 64
  let dappKey ← unpackKey
  let dappName ← unpackName 32
  let initSupplyAmount ← unpackInt64
  return ⟨name, symbolName, publisher, dappKey, dappName, initSupplyAmount⟩

def unpackIssueToken : Reader IssueTokenOperation := do
  let name ← unpackName 64
  let publisher ← unpackName 64
  let dappKey ← unpackKey
  let reissueAmount ← unpackAsset
  return ⟨name, publisher, dappKey, reissueAmount⟩

def unpackTransferToken : Reader TransferTokenOperation := do
  let from_ ← unpackName 64
  let to_ ← unpackName 64
  let amount ← unpackAsset
  let memo ← unpackString
  return ⟨from_, to_, amount, memo⟩

def unpackBurnToken : Reader BurnTokenOperation := do
  let account ← unpackName 64
  let amount ← unpackAsset
  return ⟨account, amount⟩

def unpackSetupTokenFund : Reader SetupTokenFundOperation := do
  let tokenPublisher ← unpackName 64
  let token ← unpackName 64
  let fundName ← unpackName 32
  let initFundBalance ← unpackAsset
  return ⟨tokenPublisher, token, fundName, initFundBalance⟩

def unpackSetTokenStakingInterest : Reader SetTokenStakingInterestOperation := do
  let tokenPublisher ← unpackName 64
  let token ← unpackName 64
  let month ← unpackUint8
  let percentInterestRate ← unpackString
  return ⟨tokenPublisher, token, month, percentInterestRate⟩

def unpackTransferTokenFund : Reader TransferTokenFundOperation := do
  let from_ ← unpackName 64
  let token ← unpackName 64
  let fundName ← unpackName 32
  let amount ← unpackAsset
  let memo ← unpackString
  return ⟨from_, token, fundName, amount, memo⟩

def unpackStakingTokenFund : Reader StakingTokenFundOperation := do
  let from_ ← unpackName 64
  let token ← unpackName 64
  let fundName ← unpackName 32
  let requestId ← littleEndian 4
  let amount ← unpackAsset
  let memo ← unpackString
  let month ← unpackUint8
  return ⟨from_, token, fundName, requestId, amount, memo, month⟩

def unpackTransferTokenSavings : Reader TransferTokenSavingsOperation := do
  let token ← unpackName 64
  let from_ ← unpackName 64
  let to_ ← unpackName 64
  let requestId ← littleEndian 4
  let amount ← unpackAsset
  let splitPayMonth ← unpackUint8
  let memo ← unpackString
  let nextDate ← littleEndian 4
  return ⟨token, from_, to_, requestId, amount, splitPayMonth, memo, nextDate⟩

def unpackEndTokenSavings : Reader EndTokenSavingsOperation := do
  let token ← unpackName 64
  let from_ ← unpackName 64
  let to_ ← unpackName 64
  let requestId ← littleEndian 4
  return ⟨token, from_, to_, requestId⟩

def unpackFields : Nat → Reader TokenOperation
  | 0 => .createToken <$> unpackCreateToken
  | 1 => .issueToken <$> unpackIssueToken
  | 2 => .transferToken <$> unpackTransferToken
  | 3 => .burnToken <$> unpackBurnToken
  | 4 => .setupTokenFund <$> unpackSetupTokenFund
  | 5 => .setTokenStakingInterest <$> unpackSetTokenStakingInterest
  | 6 => .transferTokenFund <$> unpackTransferTokenFund
  | 7 => .stakingTokenFund <$> unpackStakingTokenFund
  | 8 => .transferTokenSavings <$> unpackTransferTokenSavings
  | 9 => .cancelTransferTokenSavings <$> unpackEndTokenSavings
  | 10 => .concludeTransferTokenSavings <$> unpackEndTokenSavings
  | _ => failure

/-- `token_operation`. -/
def format : Format TokenOperation where
  count := 11
  size := 272
  which := which
  packFields := packFields
  unpackFields := unpackFields

/-! ## JSON -/

section Members

variable (rules : VariantRules) (fields : List (Bytes × Variant))

def readName : Option TokenName := member fields ['n', 'a', 'm', 'e'] (asName rules) default

def readPublisher : Option AccountName :=
  member fields ['p', 'u', 'b', 'l', 'i', 's', 'h', 'e', 'r'] (asName rules) default

def readDappKey : Option PublicKey := member fields ['d', 'a', 'p', 'p', '_', 'k', 'e', 'y'] (asKey rules) default

def readFrom : Option AccountName := member fields ['f', 'r', 'o', 'm'] (asName rules) default

def readTo : Option AccountName := member fields ['t', 'o'] (asName rules) default

def readAmount : Option Asset := member fields ['a', 'm', 'o', 'u', 'n', 't'] (asAsset rules) ⟨0, sgtSymbol⟩

def readMemo : Option Bytes := member fields ['m', 'e', 'm', 'o'] (asString rules) []

def readTokenPublisher : Option AccountName :=
  member fields ['t', 'o', 'k', 'e', 'n', '_', 'p', 'u', 'b', 'l', 'i', 's', 'h', 'e', 'r'] (asName rules) default

def readToken : Option TokenName := member fields ['t', 'o', 'k', 'e', 'n'] (asName rules) default

def readFundName : Option FundName :=
  member fields ['f', 'u', 'n', 'd', '_', 'n', 'a', 'm', 'e'] (asName rules) default

def readRequestId : Option Nat :=
  member fields ['r', 'e', 'q', 'u', 'e', 's', 't', '_', 'i', 'd'] (asUint32 rules) 0

def readMonth : Option UInt8 := member fields ['m', 'o', 'n', 't', 'h'] (asUint8 rules) 0

def readCreateToken : Option CreateTokenOperation := do
  let name ← readName rules fields
  let symbolName ← member fields ['s', 'y', 'm', 'b', 'o', 'l', '_', 'n', 'a', 'm', 'e'] (asString rules) []
  let publisher ← readPublisher rules fields
  let dappKey ← readDappKey rules fields
  let dappName ← member fields ['d', 'a', 'p', 'p', '_', 'n', 'a', 'm', 'e'] (asName rules) default
  let initSupplyAmount ← member fields
    ['i', 'n', 'i', 't', '_', 's', 'u', 'p', 'p', 'l', 'y', '_', 'a', 'm', 'o', 'u', 'n', 't'] (asInt64 rules) 0
  return ⟨name, symbolName, publisher, dappKey, dappName, initSupplyAmount⟩

def readIssueToken : Option IssueTokenOperation := do
  let name ← readName rules fields
  let publisher ← readPublisher rules fields
  let dappKey ← readDappKey rules fields
  let reissueAmount ← member fields
    ['r', 'e', 'i', 's', 's', 'u', 'e', '_', 'a', 'm', 'o', 'u', 'n', 't'] (asAsset rules) ⟨0, sgtSymbol⟩
  return ⟨name, publisher, dappKey, reissueAmount⟩

def readTransferToken : Option TransferTokenOperation := do
  let from_ ← readFrom rules fields
  let to_ ← readTo rules fields
  let amount ← readAmount rules fields
  let memo ← readMemo rules fields
  return ⟨from_, to_, amount, memo⟩

def readBurnToken : Option BurnTokenOperation := do
  let account ← member fields ['a', 'c', 'c', 'o', 'u', 'n', 't'] (asName rules) default
  let amount ← readAmount rules fields
  return ⟨account, amount⟩

def readSetupTokenFund : Option SetupTokenFundOperation := do
  let tokenPublisher ← readTokenPublisher rules fields
  let token ← readToken rules fields
  let fundName ← readFundName rules fields
  let initFundBalance ← member fields
    ['i', 'n', 'i', 't', '_', 'f', 'u', 'n', 'd', '_', 'b', 'a', 'l', 'a', 'n', 'c', 'e'] (asAsset rules) ⟨0, sgtSymbol⟩
  return ⟨tokenPublisher, token, fundName, initFundBalance⟩

def readSetTokenStakingInterest : Option SetTokenStakingInterestOperation := do
  let tokenPublisher ← readTokenPublisher rules fields
  let token ← readToken rules fields
  let month ← readMonth rules fields
  let percentInterestRate ← member fields
    ['p', 'e', 'r', 'c', 'e', 'n', 't', '_', 'i', 'n', 't', 'e', 'r', 'e', 's', 't', '_', 'r', 'a', 't', 'e']
    (asString rules) []
  return ⟨tokenPublisher, token, month, percentInterestRate⟩

def readTransferTokenFund : Option TransferTokenFundOperation := do
  let from_ ← readFrom rules fields
  let token ← readToken rules fields
  let fundName ← readFundName rules fields
  let amount ← readAmount rules fields
  let memo ← readMemo rules fields
  return ⟨from_, token, fundName, amount, memo⟩

def readStakingTokenFund : Option StakingTokenFundOperation := do
  let from_ ← readFrom rules fields
  let token ← readToken rules fields
  let fundName ← readFundName rules fields
  let requestId ← readRequestId rules fields
  let amount ← readAmount rules fields
  let memo ← readMemo rules fields
  let month ← readMonth rules fields
  return ⟨from_, token, fundName, requestId, amount, memo, month⟩

def readTransferTokenSavings : Option TransferTokenSavingsOperation := do
  let token ← readToken rules fields
  let from_ ← readFrom rules fields
  let to_ ← readTo rules fields
  let requestId ← readRequestId rules fields
  let amount ← readAmount rules fields
  let splitPayMonth ← member fields
    ['s', 'p', 'l', 'i', 't', '_', 'p', 'a', 'y', '_', 'm', 'o', 'n', 't', 'h'] (asUint8 rules) 0
  let memo ← readMemo rules fields
  let nextDate ← member fields ['n', 'e', 'x', 't', '_', 'd', 'a', 't', 'e'] (asTime rules) 0
  return ⟨token, from_, to_, requestId, amount, splitPayMonth, memo, nextDate⟩

def readEndTokenSavings : Option EndTokenSavingsOperation := do
  let token ← readToken rules fields
  let from_ ← readFrom rules fields
  let to_ ← readTo rules fields
  let requestId ← readRequestId rules fields
  return ⟨token, from_, to_, requestId⟩

def readFields : Nat → Option TokenOperation
  | 0 => .createToken <$> readCreateToken rules fields
  | 1 => .issueToken <$> readIssueToken rules fields
  | 2 => .transferToken <$> readTransferToken rules fields
  | 3 => .burnToken <$> readBurnToken rules fields
  | 4 => .setupTokenFund <$> readSetupTokenFund rules fields
  | 5 => .setTokenStakingInterest <$> readSetTokenStakingInterest rules fields
  | 6 => .transferTokenFund <$> readTransferTokenFund rules fields
  | 7 => .stakingTokenFund <$> readStakingTokenFund rules fields
  | 8 => .transferTokenSavings <$> readTransferTokenSavings rules fields
  | 9 => .cancelTransferTokenSavings <$> readEndTokenSavings rules fields
  | 10 => .concludeTransferTokenSavings <$> readEndTokenSavings rules fields
  | _ => none

/-- `token_operation`. -/
def variantFormat : VariantFormat TokenOperation where
  names :=
    [ascii ['c', 'r', 'e', 'a', 't', 'e', '_', 't', 'o', 'k', 'e', 'n'],
      ascii ['i', 's', 's', 'u', 'e', '_', 't', 'o', 'k', 'e', 'n'],
      ascii ['t', 'r', 'a', 'n', 's', 'f', 'e', 'r', '_', 't', 'o', 'k', 'e', 'n'],
      ascii ['b', 'u', 'r', 'n', '_', 't', 'o', 'k', 'e', 'n'],
      ascii ['s', 'e', 't', 'u', 'p', '_', 't', 'o', 'k', 'e', 'n', '_', 'f', 'u', 'n', 'd'],
      ascii ['s', 'e', 't', '_', 't', 'o', 'k', 'e', 'n', '_', 's', 't', 'a', 'k', 'i', 'n', 'g', '_', 'i', 'n', 't',
        'e', 'r', 'e', 's', 't'],
      ascii ['t', 'r', 'a', 'n', 's', 'f', 'e', 'r', '_', 't', 'o', 'k', 'e', 'n', '_', 'f', 'u', 'n', 'd'],
      ascii ['s', 't', 'a', 'k', 'i', 'n', 'g', '_', 't', 'o', 'k', 'e', 'n', '_', 'f', 'u', 'n', 'd'],
      ascii ['t', 'r', 'a', 'n', 's', 'f', 'e', 'r', '_', 't', 'o', 'k', 'e', 'n', '_', 's', 'a', 'v', 'i', 'n', 'g',
        's'],
      ascii ['c', 'a', 'n', 'c', 'e', 'l', '_', 't', 'r', 'a', 'n', 's', 'f', 'e', 'r', '_', 't', 'o', 'k', 'e', 'n', '_',
        's', 'a', 'v', 'i', 'n', 'g', 's'],
      ascii ['c', 'o', 'n', 'c', 'l', 'u', 'd', 'e', '_', 't', 'r', 'a', 'n', 's', 'f', 'e', 'r', '_', 't', 'o', 'k', 'e',
        'n', '_', 's', 'a', 'v', 'i', 'n', 'g', 's']]
  initial := .createToken ⟨default, [], default, default, default, 0⟩
  readFields := fun which fields => readFields rules fields which

end Members

end Sigmaengine.Token
