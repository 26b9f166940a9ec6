import Sigmaengine.Chain.Reached
import Sigmaengine.Dapp.Variants
import Sigmaengine.Ledger.Runs
import Sigmaengine.Protocol.InnerOperations
import Sigmaengine.Token.Packed

/-!
# The dapps an operation has an impact on

`dapp_impacted.cpp` against the interpreters.  The history decodes the payload of a custom operation without looking at its
id, as the operations of either plugin, so a payload that reads as both leaves traces of operations that nobody runs.

Main result: `dapp_impact_iff`.
-/

namespace Sigmaengine

open Variant

/-! ## The interpreters -/

/-- `get_inner_operation` of a plugin. -/
def decodePayload {α : Type} (rules : VariantRules) (f : VariantFormat α) (raw : Raw.Format α) :
    Payload → Option (List α)
  | .json text => (rules.fromString text).bind (f.getInnerOperation rules)
  | .binary data => raw.getInnerOperation data

/-- The environment in which payloads are decoded as the source does it. -/
def Env.decoding (env : Env) (rules : VariantRules) : Env :=
  { env with
    decodeDapp := decodePayload rules (Dapp.variantFormat rules) Dapp.format
    decodeToken := decodePayload rules (Token.variantFormat rules) Token.format }

/-- The interpreter that an id selects. -/
def selected (id : Bytes) : Option Plugin :=
  if id = ascii ['d', 'a', 'p', 'p'] then some .dapp
  else if id = ascii ['t', 'o', 'k', 'e', 'n'] then some .token
  else none

/-! ## The history -/

namespace DappHistory

/-- The dapp is inserted unless it is there. -/
def insertDapp (result : List DappName) (dappName : DappName) : List DappName :=
  if result.contains dappName then result else dappName :: result

/-- The dapp of a token that is found. -/
def insertDappOf (db : Database) (isToken : Token.TokenObject → Bool) (result : List DappName) : List DappName :=
  match db.token.tokens.find? isToken with
  | some token => insertDapp result token.2.dappName
  | none => result

/-- `get_dapp_name_visitor_from_custom` on the operations of the dapp plugin. -/
def visitDapp (result : List DappName) : Dapp.DappOperation → List DappName
  | .createDapp op | .updateDappKey op => insertDapp result op.dappName
  | .commentDapp op => insertDapp result op.dappName
  | .commentVoteDapp op => insertDapp result op.dappName
  | .deleteCommentDapp op => insertDapp result op.dappName
  | .joinDapp op | .leaveDapp op => insertDapp result op.dappName
  | .voteDapp op => insertDapp result op.dappName
  | .voteDappTrxFee _ => result

/-- `get_dapp_name_visitor_from_custom` on the operations of the token plugin. -/
def visitToken (db : Database) (result : List DappName) : Token.TokenOperation → List DappName
  | .createToken op => insertDapp result op.dappName
  | .issueToken op => insertDappOf db (fun t => t.name == op.name) result
  | .transferToken op => insertDappOf db (fun t => t.symbol == op.amount.symbol) result
  | .burnToken op => insertDappOf db (fun t => t.symbol == op.amount.symbol) result
  | .setupTokenFund op => insertDappOf db (fun t => t.name == op.token) result
  | .setTokenStakingInterest op => insertDappOf db (fun t => t.name == op.token) result
  | .transferTokenFund op => insertDappOf db (fun t => t.name == op.token) result
  | .stakingTokenFund op => insertDappOf db (fun t => t.name == op.token) result
  | .transferTokenSavings op => insertDappOf db (fun t => t.name == op.token) result
  | .cancelTransferTokenSavings op | .concludeTransferTokenSavings op =>
    insertDappOf db (fun t => t.name == op.token) result

section Impacted

variable (rules : VariantRules) (db : Database)

/-- `get_imapcted_dapp_from_custom` of JSON; the operations of the bobserver plugin, which come third, are visited without
effect.  A text that `fc::json` does not read throws. -/
def impactedFromJson (json : Bytes) (result : List DappName) : Option (List DappName) :=
  (rules.fromString json).map fun var =>
    (Token.variantFormat rules).processInnerOperation (visitToken db) rules var
      ((Dapp.variantFormat rules).processInnerOperation visitDapp rules var result)

/-- `get_imapcted_dapp_from_custom` of binary data. -/
def impactedFromData (data : Bytes) (result : List DappName) : List DappName :=
  Token.format.processInnerOperation (visitToken db) data (Dapp.format.processInnerOperation visitDapp data result)

/-- `operation_get_impacted_dapp` of an operation in a transaction. -/
def operationGetImpactedDapp (op : Operation) (result : List DappName) : Option (List DappName) :=
  match op with
  | .customJson op => impactedFromJson rules db op.json result
  | .customJsonDapp op => impactedFromJson rules db op.payload result
  | .customBinary op => some (impactedFromData db op.payload result)
  | _ => some result

end Impacted

/-! ## What operations address -/

/-- The dapp that an operation names. -/
def namedDapp : Dapp.DappOperation → Option DappName
  | .createDapp op | .updateDappKey op => some op.dappName
  | .commentDapp op => some op.dappName
  | .commentVoteDapp op => some op.dappName
  | .deleteCommentDapp op => some op.dappName
  | .joinDapp op | .leaveDapp op => some op.dappName
  | .voteDapp op => some op.dappName
  | .voteDappTrxFee _ => none

/-- The token an operation is about. -/
def isNamedToken : Token.TokenOperation → Token.TokenObject → Bool
  | .createToken _, _ => false
  | .issueToken op, t => t.name == op.name
  | .transferToken op, t => t.symbol == op.amount.symbol
  | .burnToken op, t => t.symbol == op.amount.symbol
  | .setupTokenFund op, t => t.name == op.token
  | .setTokenStakingInterest op, t => t.name == op.token
  | .transferTokenFund op, t => t.name == op.token
  | .stakingTokenFund op, t => t.name == op.token
  | .transferTokenSavings op, t => t.name == op.token
  | .cancelTransferTokenSavings op, t | .concludeTransferTokenSavings op, t => t.name == op.token

/-- The dapp of an operation of the token plugin: named, or that of the token. -/
def dappOfToken (db : Database) (op : Token.TokenOperation) : Option DappName :=
  match op with
  | .createToken op => some op.dappName
  | op => (db.token.tokens.find? (isNamedToken op)).map fun token => token.2.dappName

/-- The dapps addressed by the operations that a plugin decodes from a payload. -/
def addressed (env : Env) (db : Database) (plugin : Plugin) (payload : Payload) : List DappName :=
  match plugin with
  | .dapp => ((env.decodeDapp payload).getD []).filterMap namedDapp
  | .token => ((env.decodeToken payload).getD []).filterMap (dappOfToken db)

/-! ## The history decodes like the interpreters -/

section Agreement

variable {db : Database} {result : List DappName} {d : DappName}

theorem mem_insertDapp {dappName : DappName} : d ∈ insertDapp result dappName ↔ d ∈ result ∨ dappName = d := by
  unfold insertDapp
  split
  · rename_i hmem
    rw [List.contains_iff_mem] at hmem
    constructor
    · exact .inl
    · rintro (h | rfl)
      · exact h
      · exact hmem
  · rw [List.mem_cons, or_comm, eq_comm]

theorem mem_insertDappOf {isToken : Token.TokenObject → Bool} : d ∈ insertDappOf db isToken result ↔
    d ∈ result ∨ (db.token.tokens.find? isToken).map (fun token => token.2.dappName) = some d := by
  unfold insertDappOf
  cases db.token.tokens.find? isToken with
  | none => simp
  | some token => simp [mem_insertDapp]

theorem mem_visitDapp (op : Dapp.DappOperation) : d ∈ visitDapp result op ↔ d ∈ result ∨ namedDapp op = some d := by
  cases op with
  | voteDappTrxFee op => simp [visitDapp, namedDapp]
  | _ => simp [visitDapp, namedDapp, mem_insertDapp]

theorem mem_visitToken (op : Token.TokenOperation) :
    d ∈ visitToken db result op ↔ d ∈ result ∨ dappOfToken db op = some d := by
  cases op with
  | createToken op => simp [visitToken, dappOfToken, mem_insertDapp]
  | _ => exact mem_insertDappOf

end Agreement

/-! ## Impact and execution -/

/-- The plugin whose operations are also tried. -/
def other : Plugin → Plugin
  | .dapp => .token
  | .token => .dapp

section Impact

variable {rules : VariantRules} {db : Database} {env : Env} {op : Operation} {id : Bytes} {payload : Payload}
  {result : List DappName} {d : DappName}

theorem mem_impactedFromJson {json : Bytes} (h : impactedFromJson rules db json [] = some result) : d ∈ result ↔
    d ∈ addressed (env.decoding rules) db .dapp (.json json) ∨ d ∈ addressed (env.decoding rules) db .token (.json json) := by
  obtain ⟨var, hvar, rfl⟩ := Option.map_eq_some_iff.mp h
  rw [VariantFormat.mem_processInnerOperation fun _ => mem_visitToken,
    VariantFormat.mem_processInnerOperation fun _ => mem_visitDapp]
  simp [addressed, Env.decoding, decodePayload, hvar]

theorem mem_impactedFromData {data : Bytes} : d ∈ impactedFromData db data [] ↔
    d ∈ addressed (env.decoding rules) db .dapp (.binary data) ∨
      d ∈ addressed (env.decoding rules) db .token (.binary data) := by
  unfold impactedFromData
  rw [Raw.Format.mem_processInnerOperation fun _ => mem_visitToken,
    Raw.Format.mem_processInnerOperation fun _ => mem_visitDapp]
  simp [addressed, Env.decoding, decodePayload]

/-- **The history** finds what the payload addresses as operations of either plugin. -/
theorem mem_operationGetImpactedDapp (hcarried : carried op = some (id, payload))
    (h : operationGetImpactedDapp rules db op [] = some result) : d ∈ result ↔
      d ∈ addressed (env.decoding rules) db .dapp payload ∨ d ∈ addressed (env.decoding rules) db .token payload := by
  cases op with
  | customJson op =>
    cases hcarried
    exact mem_impactedFromJson h
  | customJsonDapp op =>
    cases hcarried
    exact mem_impactedFromJson h
  | customBinary op =>
    cases hcarried
    cases h
    exact mem_impactedFromData
  | _ => cases hcarried

/-- Where the history throws, no operation is decoded. -/
theorem addressed_of_not_read (hcarried : carried op = some (id, payload))
    (h : operationGetImpactedDapp rules db op [] = none) (plugin : Plugin) :
    addressed (env.decoding rules) db plugin payload = [] := by
  have hjson : ∀ json, impactedFromJson rules db json [] = none →
      addressed (env.decoding rules) db plugin (.json json) = [] := by
    intro json h
    have hvar : rules.fromString json = none := Option.map_eq_none_iff.mp h
    cases plugin <;> simp [addressed, Env.decoding, decodePayload, hvar]
  cases op with
  | customJson op =>
    cases hcarried
    exact hjson _ h
  | customJsonDapp op =>
    cases hcarried
    exact hjson _ h
  | customBinary op => cases h
  | _ => cases hcarried

variable (rules db env op)

/-- The history computes the dapps that the operations of the selected plugin address, and so none that only the other
reading does. -/
def ImpactAgrees : Prop :=
  ∀ id payload plugin, carried op = some (id, payload) → selected id = some plugin →
    ∀ result, operationGetImpactedDapp rules db op [] = some result →
      ∀ d, d ∈ result ↔ d ∈ addressed (env.decoding rules) db plugin payload

/-- The payload also reads as operations of the other plugin, and one of them addresses a dapp that no operation of the
selected plugin addresses. -/
def Stray : Prop :=
  ∃ id payload plugin, carried op = some (id, payload) ∧ selected id = some plugin ∧
    ∃ d ∈ addressed (env.decoding rules) db (other plugin) payload, d ∉ addressed (env.decoding rules) db plugin payload

variable {rules db env op}

/-- **Impact and execution agree** unless the payload has a stray reading. -/
theorem dapp_impact_iff (rules : VariantRules) (db : Database) (env : Env) (op : Operation) :
    ImpactAgrees rules db env op ↔ ¬ Stray rules db env op := by
  have hmem : ∀ id payload plugin, carried op = some (id, payload) →
      ∀ result, operationGetImpactedDapp rules db op [] = some result → ∀ d, d ∈ result ↔
        d ∈ addressed (env.decoding rules) db plugin payload ∨
          d ∈ addressed (env.decoding rules) db (other plugin) payload := by
    intro id payload plugin hcarried result hresult d
    rw [@mem_operationGetImpactedDapp rules db env _ _ _ _ _ hcarried hresult]
    cases plugin with
    | dapp => rfl
    | token => exact or_comm
  constructor
  · rintro hagrees ⟨id, payload, plugin, hcarried, hselected, d, hother, hown⟩
    cases hresult : operationGetImpactedDapp rules db op [] with
    | none =>
      rw [addressed_of_not_read hcarried hresult] at hother
      cases hother
    | some result =>
      have hsame := hagrees id payload plugin hcarried hselected result hresult
      exact hown ((hsame d).mp ((hmem id payload plugin hcarried result hresult d).mpr (.inr hother)))
  · intro hclean id payload plugin hcarried hselected result hresult d
    have hother : ∀ d ∈ addressed (env.decoding rules) db (other plugin) payload,
        d ∈ addressed (env.decoding rules) db plugin payload := by
      intro d hd
      by_contra hown
      exact hclean ⟨id, payload, plugin, hcarried, hselected, d, hd, hown⟩
    rw [hmem id payload plugin hcarried result hresult]
    constructor
    · rintro (h | h)
      · exact h
      · exact hother d h
    · exact .inl

/-! ### A payload with two readings -/

/-- A burnt token. -/
def burnByNumber : Variant :=
  .array [.uint64 3, .object
    [(ascii ['a', 'c', 'c', 'o', 'u', 'n', 't'], .string (ascii ['a', 'l', 'i', 'c', 'e'])),
      (ascii ['a', 'm', 'o', 'u', 'n', 't'], .string (ascii "1.000000 GLD".toList))]]

def burnText : Bytes :=
  ascii ['[', '3', ',', '\x7b', '"', 'a', 'c', 'c', 'o', 'u', 'n', 't', '"', ':', '"', 'a', 'l', 'i', 'c', 'e', '"', ',',
    '"', 'a', 'm', 'o', 'u', 'n', 't', '"', ':', '"', '1', '.', '0', '0', '0', '0', '0', '0', ' ', 'G', 'L', 'D', '"',
    '\x7d', ']']

/-- The conversions of this one text. -/
def burnRules : VariantRules where
  fromString text := if text = burnText then some burnByNumber else none
  doubleToString _ := []
  doubleToInt64 _ := 0
  doubleToUint64 _ := 0
  toUint64 _ := none
  publicKey _ := none
  fromIsoString _ := none

def burnOperation : Operation := .customJson
  { requiredAuths := [.ofBytes (ascii ['a', 'l', 'i', 'c', 'e'])], requiredPostingAuths := [],
    id := ascii ['t', 'o', 'k', 'e', 'n'], json := burnText }

/-- A token of the shop. -/
def goldToken : Token.TokenObject where
  name := .ofBytes (ascii ['g', 'o', 'l', 'd'])
  symbol := Token.symbolOf 6 (ascii ['G', 'L', 'D'])
  publisher := .ofBytes (ascii ['a', 'l', 'i', 'c', 'e'])
  dappName := .ofBytes (ascii ['s', 'h', 'o', 'p'])
  initSupply := ⟨100000000, Token.symbolOf 6 (ascii ['G', 'L', 'D'])⟩
  totalBalance := ⟨100000000, Token.symbolOf 6 (ascii ['G', 'L', 'D'])⟩
  created := 0
  lastUpdated := 0

def goldState : Database :=
  { genesis ⟨1⟩ with
    token := { (genesis ⟨1⟩).token with tokens := (genesis ⟨1⟩).token.tokens.insert goldToken (by decide +kernel) } }

/-- As an operation of the dapp plugin the payload is a vote on a comment of the dapp without a name. -/
theorem burn_by_number_is_a_stray_vote : ¬ ImpactAgrees burnRules goldState sampleEnv burnOperation := by
  intro hagrees
  have hresult : operationGetImpactedDapp burnRules goldState burnOperation [] =
      some [.ofBytes (ascii ['s', 'h', 'o', 'p']), default] := by decide +kernel
  have hsame := hagrees _ _ .token rfl (by decide +kernel) _ hresult
  have hown : default ∉ addressed (sampleEnv.decoding burnRules) goldState .token (.json burnText) := by
    decide +kernel
  exact hown ((hsame default).mp (.tail _ (.head _)))

end Impact

end DappHistory

end Sigmaengine
