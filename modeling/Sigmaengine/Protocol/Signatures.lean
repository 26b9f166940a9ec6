import Sigmaengine.Protocol.Block

/-!
# Which signatures a transaction needs

`verify_authority` with its recursion bound, `get_required_signatures` and `minimize_required_signatures` of
`transaction.cpp`.
-/

namespace Sigmaengine

open Effect SignState

variable (cd : Codec)

/-- `get_authority( id )` and the check of what it returns. -/
def checkStored (get nested : Bytes → Option Authority) (depth : Nat) (a : AccountName) :
    Prog Error SignState Bool := do
  let auth ← ofOption (get a.toBytes) .notFound
  checkAuthority nested depth auth

/-- The checks of `verify_authority`, with `max_recursion_depth`. -/
def checkRequired (g : AuthorityGetters) (depth : Nat) (r : RequiredAuthorities) : Prog Error SignState Unit :=
  if r.posting ≠ [] then do
    fcAssert (r.active.isEmpty) "required_active.size() == 0"
    fcAssert (r.owner.isEmpty) "required_owner.size() == 0"
    fcAssert (r.other.isEmpty) "other.size() == 0"
    each (fun a => requireOneOf "Missing Posting Authority"
      [checkAccount g.getPosting depth a.toBytes, checkStored g.getActive g.getPosting depth a,
        checkStored g.getOwner g.getPosting depth a]) r.posting
  else do
    each (fun auth => requireOneOf "Missing Authority" [checkAuthority g.getActive depth auth]) r.other
    each (fun a => requireOneOf "Missing Active Authority"
      [checkAccount g.getActive depth a.toBytes, checkStored g.getOwner g.getActive depth a]) r.active
    each (fun a => requireOneOf "Missing Owner Authority" [checkStored g.getOwner g.getActive depth a]) r.owner

def unnecessarySignature : Error := .assertion "Unnecessary signature(s) detected"

/-- `verify_authority`. -/
def verifyAuthorityAt (depth : Nat) (g : AuthorityGetters) (r : RequiredAuthorities) (sigs : List PublicKey) :
    Except Error Unit :=
  match checkRequired g depth r (SignState.init sigs []) with
  | .error e _ => .error e
  | .ok _ s => if s.hasUnused then .error unnecessarySignature else .ok ()

theorem verifyAuthority_eq (g : AuthorityGetters) (r : RequiredAuthorities) (sigs : List PublicKey) :
    verifyAuthority g r sigs = verifyAuthorityAt maxSigCheckDepth g r sigs := rfl

/-- `tx_missing_owner_auth`, `tx_missing_active_auth`, `tx_missing_posting_auth` and `tx_missing_other_auth`. -/
def missingAuthority : List Error :=
  [.assertion "Missing Owner Authority", .assertion "Missing Active Authority",
    .assertion "Missing Posting Authority", .assertion "Missing Authority"]

/-! ## The signatures to give -/

/-- Insertion into a `set<public_key_type>`. -/
def insertKey (k : PublicKey) : List PublicKey → List PublicKey
  | [] => [k]
  | x :: xs => if k.data < x.data then k :: x :: xs else if k.data = x.data then x :: xs else x :: insertKey k xs

def keySet (ks : List PublicKey) : List PublicKey := ks.foldr insertKey []

/-- The checks of `get_required_signatures`; what they answer does not matter, only which keys they use. -/
def useSignatures (g : AuthorityGetters) (depth : Nat) (r : RequiredAuthorities) : Prog Error SignState Unit :=
  if r.posting ≠ [] then do
    fcAssert (r.owner.isEmpty) "!required_owner.size()"
    fcAssert (r.active.isEmpty) "!required_active.size()"
    each (fun a => do
      let _ ← checkAccount g.getPosting depth a.toBytes) r.posting
  else do
    each (fun auth => do
      let _ ← checkAuthority g.getActive depth auth) r.other
    each (fun a => do
      let _ ← checkStored g.getOwner g.getActive depth a) r.owner
    each (fun a => do
      let _ ← checkAccount g.getActive depth a.toBytes) r.active

def requiredOf (ops : List Operation) : RequiredAuthorities := ops.foldl (fun r op => op.getRequiredAuthorities r) {}

/-- `get_required_signatures`. -/
def SignedTransaction.getRequiredSignatures (trx : SignedTransaction) (available : List PublicKey)
    (g : AuthorityGetters) (depth : Nat) : Except Error (List PublicKey) := do
  let sigs ← trx.getSignatureKeys cd
  match useSignatures g depth (requiredOf trx.operations) (SignState.init sigs available) with
  | .error e _ => .error e
  | .ok _ s =>
    let used := (s.providedSignatures.filter (·.2)).map Prod.fst
    return keySet (used.filter available.contains)

/-- The loop of `minimize_required_signatures`: a key stays away when the rest is accepted. -/
def dropKeys (verify : List PublicKey → Except Error Unit) :
    List PublicKey → List PublicKey → Except Error (List PublicKey)
  | [], result => .ok result
  | k :: ks, result =>
    match verify (result.erase k) with
    | .ok _ => dropKeys verify ks (result.erase k)
    | .error e => if missingAuthority.contains e then dropKeys verify ks result else .error e

/-- `minimize_required_signatures`. -/
def SignedTransaction.minimizeRequiredSignatures (trx : SignedTransaction) (available : List PublicKey)
    (g : AuthorityGetters) (depth : Nat) : Except Error (List PublicKey) := do
  let s ← trx.getRequiredSignatures cd available g depth
  dropKeys (verifyAuthorityAt depth g (requiredOf trx.operations)) s s

end Sigmaengine
