import Sigmaengine.Protocol.Operations

/-!
# Transactions, blocks and signatures

`transaction.hpp`, `block.hpp` and `sign_state.cpp`.  Hashing, packing and key recovery are the
fields of `Codec`; everything the chain does with their results is here.
-/

namespace Sigmaengine

open Effect

structure SignedTransaction where
  refBlockNum : Nat
  refBlockPrefix : Nat
  expiration : TimePointSec
  operations : List Operation
  signatures : List Nat

/-- `block_id_type`: the block number in the first word, then the hash.  `word` is `_hash[1]`. -/
structure BlockId where
  num : Nat := 0
  word : Nat := 0
  rest : Nat := 0
deriving DecidableEq, Repr

instance : Inhabited BlockId := ⟨{}⟩

/-- `version`, ordered by its number. -/
abbrev Version := Nat

/-- `hardfork_version`: a version without the revision in its low 16 bits. -/
abbrev HardforkVersion := { v : Version // v % 65536 = 0 }

/-- What the assignment of a `hardfork_version` stores: `v_num & 0xFFFF0000`. -/
def Version.toHardfork (v : Version) : HardforkVersion := ⟨v / 65536 * 65536, Nat.mul_mod_left _ _⟩

instance : Inhabited HardforkVersion := ⟨⟨0, rfl⟩⟩

/-- `block_header_extensions`. -/
inductive HeaderExtension
  | void
  | version (v : Version)
  | hardforkVersionVote (v : Version) (time : TimePointSec)

structure SignedBlockHeader where
  previous : BlockId
  timestamp : TimePointSec
  bobserver : Bytes
  transactionMerkleRoot : Nat
  extensions : List HeaderExtension
  bobserverSignature : Nat

structure SignedBlock extends SignedBlockHeader where
  transactions : List SignedTransaction

/-- Hashes, packed sizes and recovered keys. -/
structure Codec where
  /-- The words of the `sha224` of a signed header that follow the block number in its id. -/
  headerHash : SignedBlockHeader → Nat × Nat
  transactionId : SignedTransaction → Nat
  merkleDigest : SignedTransaction → Nat
  hashPair : Nat → Nat → Nat
  checksum : Nat → Nat
  transactionPackSize : SignedTransaction → Nat
  blockPackSize : SignedBlock → Nat
  /-- `signee()`; `none` when no key can be recovered. -/
  signee : SignedBlockHeader → Option PublicKey
  /-- The key recovered from each signature of a transaction. -/
  signatureKey : SignedTransaction → Nat → Option PublicKey

variable (cd : Codec)

/-- `block_num()` counts on from the number stored in `previous`. -/
def SignedBlockHeader.blockNum (b : SignedBlockHeader) : Nat := (b.previous.num + 1) % 4294967296

/-- `id()`: the hash of the signed header with the block number put in front. -/
def SignedBlockHeader.id (b : SignedBlockHeader) : BlockId where
  num := b.blockNum
  word := (cd.headerHash b).1
  rest := (cd.headerHash b).2

def SignedBlockHeader.bobserverName (b : SignedBlockHeader) : AccountName := .ofBytes b.bobserver

/-- One level of the merkle tree: pairs are hashed, an odd last node moves up unchanged. -/
def merkleLevel : List Nat → List Nat
  | a :: b :: ids => cd.hashPair a b :: merkleLevel ids
  | ids => ids

/-- The levels down to the root; a level at least halves the list, so its length is fuel enough. -/
def merkleFold : Nat → List Nat → Nat
  | 0, ids => ids.headD 0
  | _ + 1, [id] => id
  | fuel + 1, ids => merkleFold fuel (merkleLevel cd ids)

def SignedBlock.calculateMerkleRoot (b : SignedBlock) : Nat :=
  match b.transactions with
  | [] => 0
  | txs => cd.checksum (merkleFold cd txs.length (txs.map cd.merkleDigest))

/-- `transaction::validate`. -/
def SignedTransaction.validate (fc : TextRules) (trx : SignedTransaction) : List Check :=
  ⟨0 < trx.operations.length, "A transaction must have at least one operation"⟩ ::
    trx.operations.flatMap fun op => op.validate fc

/-! ## Authority checks -/

/-- `sign_state`: which keys signed and have been used, and which accounts are approved.  Accounts are
known by the `std::string` of their names here. -/
structure SignState where
  providedSignatures : List (PublicKey × Bool)
  availableKeys : List PublicKey
  approvedBy : List Bytes

namespace SignState

def init (sigs keys : List PublicKey) : SignState :=
  ⟨sigs.map fun k => (k, false), keys, [ascii ['t', 'e', 'm', 'p']]⟩

/-- `signed_by`: mark the key as used. -/
def signedBy (k : PublicKey) : Prog Error SignState Bool := fun s =>
  if s.providedSignatures.any fun p => p.1 == k then
    .ok true { s with
      providedSignatures := s.providedSignatures.map fun p => if p.1 = k then (k, true) else p }
  else if s.availableKeys.contains k then
    .ok true { s with providedSignatures := (k, true) :: s.providedSignatures }
  else .ok false s

def approve (id : Bytes) : Prog Error SignState Unit :=
  modify fun s => { s with approvedBy := id :: s.approvedBy }

/-- The weight of the keys that signed, and whether a key met the threshold. -/
def checkKeys (threshold : Nat) : List (PublicKey × Nat) → Nat → Prog Error SignState (Nat × Bool)
  | [], total => pure (total, false)
  | (k, w) :: ks, total => do
    let signed ← signedBy k
    let total' := if signed then (total + w) % 4294967296 else total
    if signed && threshold ≤ total' then pure (total', true) else checkKeys threshold ks total'

/-- The weight of the accounts, given how to check the authority of one of them. -/
def checkAccounts (threshold : Nat) (check : Bytes → Prog Error SignState Bool) :
    List (AccountName × Nat) → Nat → Prog Error SignState Nat
  | [], total => pure total
  | (a, w) :: as, total => do
    let s ← get
    let ok ← if s.approvedBy.contains a.toBytes then pure true else check a.toBytes
    let total' := if ok then (total + w) % 4294967296 else total
    if ok && threshold ≤ total' then pure total' else checkAccounts threshold check as total'

/-- `check_authority( auth, depth )`, with `left` levels of nested accounts still allowed. -/
def checkAuthority (getActive : Bytes → Option Authority) :
    Nat → Authority → Prog Error SignState Bool
  | left, auth => do
    let (total, met) ← checkKeys auth.weightThreshold auth.keyAuths 0
    if met then pure true
    else do
      let total ← checkAccounts auth.weightThreshold
        (fun id =>
          match left with
          | 0 => pure false
          | left + 1 => do
            let nested ← ofOption (getActive id) .notFound
            let ok ← checkAuthority getActive left nested
            if ok then do
              approve id
              pure true
            else pure false)
        auth.accountAuths total
      pure (decide (auth.weightThreshold ≤ total))

/-- `check_authority( id )`. -/
def checkAccount (getActive : Bytes → Option Authority) (depth : Nat) (id : Bytes) :
    Prog Error SignState Bool := do
  let s ← get
  if s.approvedBy.contains id then pure true
  else do
    let auth ← ofOption (getActive id) .notFound
    checkAuthority getActive depth auth

/-- `remove_unused_signatures`: whether some signature was never used. -/
def hasUnused (s : SignState) : Bool := s.providedSignatures.any fun p => !p.2

end SignState

/-- `SIGMAENGINE_MAX_SIG_CHECK_DEPTH`. -/
def maxSigCheckDepth : Nat := 2

/-- The authority objects of an account, as the getters of `_apply_transaction` read them. -/
structure AuthorityGetters where
  getActive : Bytes → Option Authority
  getOwner : Bytes → Option Authority
  getPosting : Bytes → Option Authority

open SignState in
/-- Try the alternatives in order until one authority of the account is satisfied. -/
def requireOneOf (error : String) : List (Prog Error SignState Bool) → Prog Error SignState Unit
  | [] => throw (.assertion error)
  | p :: ps => do
    let ok ← p
    if ok then pure () else requireOneOf error ps

open SignState in
/-- `verify_authority` over the required authorities of a transaction. -/
def verifyAuthority (g : AuthorityGetters) (r : RequiredAuthorities) (sigs : List PublicKey) :
    Except Error Unit :=
  let stored (get : Bytes → Option Authority) (nested : Bytes → Option Authority)
      (a : AccountName) : Prog Error SignState Bool := do
    let auth ← ofOption (get a.toBytes) .notFound
    checkAuthority nested maxSigCheckDepth auth
  let body : Prog Error SignState Unit :=
    if r.posting ≠ [] then do
      fcAssert (r.active.isEmpty) "required_active.size() == 0"
      fcAssert (r.owner.isEmpty) "required_owner.size() == 0"
      fcAssert (r.other.isEmpty) "other.size() == 0"
      each (fun a => requireOneOf "Missing Posting Authority"
        [checkAccount g.getPosting maxSigCheckDepth a.toBytes, stored g.getActive g.getPosting a,
          stored g.getOwner g.getPosting a]) r.posting
    else do
      each (fun auth => requireOneOf "Missing Authority"
        [checkAuthority g.getActive maxSigCheckDepth auth]) r.other
      each (fun a => requireOneOf "Missing Active Authority"
        [checkAccount g.getActive maxSigCheckDepth a.toBytes, stored g.getOwner g.getActive a]) r.active
      each (fun a => requireOneOf "Missing Owner Authority"
        [stored g.getOwner g.getActive a]) r.owner
  match body (SignState.init sigs []) with
  | .error e _ => .error e
  | .ok _ s => if s.hasUnused then .error (.assertion "Unnecessary signature(s) detected") else .ok ()

/-- `get_signature_keys`: the recovered keys, which must be distinct. -/
def SignedTransaction.getSignatureKeys (trx : SignedTransaction) : Except Error (List PublicKey) :=
  trx.signatures.foldl (fun acc sig => do
    let keys ← acc
    match cd.signatureKey trx sig with
    | none => .error (.assertion "unable to reconstruct public key from signature")
    | some k =>
      if keys.contains k then .error (.assertion "Duplicate Signature detected")
      else .ok (keys ++ [k])) (.ok [])

end Sigmaengine
