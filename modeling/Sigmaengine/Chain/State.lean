import Sigmaengine.Chain.Evaluators
import Sigmaengine.Token.Objects

/-!
# The whole state

The chain's own indices together with those of the two plugins whose operations travel inside custom
operations.  Plugin code reaches the core only through `onCore`.
-/

namespace Sigmaengine

open Effect Table

structure Database where
  core : Core
  dapp : Dapp.DappIndices
  /-- The votes on the dapp transaction fee, the one index of the dapp plugin that money depends on. -/
  feeVotes : Table Dapp.DappTrxFeeVoteObject
  /-- The symbol of the dapp transaction fee, whose amount is one of the global properties. -/
  dappTransactionFeeSymbol : AssetSymbol
  token : Token.TokenIndices

abbrev ChainM (α : Type) := Prog Error Database α

def corePart : Part Database Core :=
  ⟨Database.core, fun t s => { s with core := t }, fun _ _ => rfl, fun _ => rfl⟩

def dappPart : Part Database Dapp.DappIndices :=
  ⟨Database.dapp, fun t s => { s with dapp := t }, fun _ _ => rfl, fun _ => rfl⟩

def feeVotePart : Part Database (Table Dapp.DappTrxFeeVoteObject) :=
  ⟨Database.feeVotes, fun t s => { s with feeVotes := t }, fun _ _ => rfl, fun _ => rfl⟩

def tokenPart : Part Database Token.TokenIndices :=
  ⟨Database.token, fun t s => { s with token := t }, fun _ _ => rfl, fun _ => rfl⟩

variable {α : Type}

def onCore (m : CoreM α) : ChainM α := within corePart m

def onDapp (m : Prog Error Dapp.DappIndices α) : ChainM α := within dappPart m

def onToken (m : Prog Error Token.TokenIndices α) : ChainM α := within tokenPart m

/-! ## The dapp transaction fee

Eighteen evaluators of the two plugins open with the same check and close with the same payment. -/

/-- The payer can afford the fee; returns the payer's account and the fee. -/
def checkDappFee (payer : AccountName) : CoreM (Nat × Int) := do
  let fee := (← get).dgp.dappTransactionFee
  let account ← getAccount payer
  fcAssert (fee ≤ account.2.balance) "Balance of $account account is less than dapp transaction fee"
  return (account.1, fee)

/-- Move the fee from the payer to the reward fund. -/
def payDappFee (fee : Nat × Int) : CoreM Unit := do
  let delta ← checked (sgt fee.2).neg
  adjustBalance fee.1 delta
  adjustDappRewardFundBalance (sgt fee.2)

/-- Run `m` between the check and the payment. -/
def withDappFee (payer : AccountName) (m : ChainM Unit) : ChainM Unit := do
  let fee ← onCore (checkDappFee payer)
  m
  onCore (payDappFee fee)

end Sigmaengine
