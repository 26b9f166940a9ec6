import Sigmaengine.Consensus.MinimalSignatures
import Sigmaengine.Consensus.PotentialSignatures

/-!
# Signers of an account

`verify_account_authority` is asked whether some keys may sign for an account.  It checks a transfer of the account that
nobody has signed; the keys it is given go nowhere.
-/

namespace Sigmaengine

open Effect SignState

variable (cd : Codec)

/-- `verify_authority` of the api. -/
def verifyTransactionAuthority (s : Core) (trx : SignedTransaction) : Except Error Bool := do
  let sigs ← trx.getSignatureKeys cd
  verifyAuthorityAt maxSigCheckDepth (authorityGetters s) (requiredOf trx.operations) sigs
  return true

def verifyAccountAuthority (s : Core) (name : Bytes) (_keys : List PublicKey) : Except Error Bool :=
  if name.length = 0 then .error (.assertion "name.size() > 0")
  else
    match s.accounts.find? fun a => a.name == .ofBytes name with
    | none => .error (.assertion "no such account")
    | some account =>
      -- a dummy transfer
      let op : TransferOperation := { from_ := account.2.name, to_ := default, amount := ⟨0, sgtSymbol⟩, memo := [] }
      verifyTransactionAuthority cd s
        { refBlockNum := 0, refBlockPrefix := 0, expiration := 0, operations := [.transfer op], signatures := [] }

/-! ## What it is to answer -/

/-- The authority that stands for an account that is not there: nothing satisfies it. -/
def noAuthority : Authority := { weightThreshold := 1 }

/-- The authorities of the accounts, as the checker looks them up. -/
def Core.assignment (s : Core) : Assignment where
  active id := ((authorityGetters s).getActive id).getD noAuthority
  owner id := ((authorityGetters s).getOwner id).getD noAuthority
  posting id := ((authorityGetters s).getPosting id).getD noAuthority

/-- What a transfer of an account requires. -/
def activeOf (a : AccountName) : RequiredAuthorities := { active := [a] }

/-- The active or the owner authority of the account is satisfied by the keys within the bound, and every key is used to
find that out. -/
def SignersSuffice (s : Core) (a : AccountName) (keys : List PublicKey) : Prop :=
  (approvedWithin keys s.assignment.active (maxSigCheckDepth + 1) a.toBytes = true ∨
      satisfiedWithin keys s.assignment.active maxSigCheckDepth (s.assignment.owner a.toBytes) = true) ∧
    ∀ k ∈ keys, k ∈ usedFor keys s.assignment.active maxSigCheckDepth (s.assignment.groups (activeOf a))

instance (s : Core) (a : AccountName) (keys : List PublicKey) : Decidable (SignersSuffice s a keys) :=
  inferInstanceAs (Decidable (_ ∧ _))

/-- `true` if the signers suffice, an exception otherwise. -/
def AnswersSigners (s : Core) (a : AccountName) (keys : List PublicKey) (r : Except Error Bool) : Prop :=
  (SignersSuffice s a keys → r = .ok true) ∧ (¬ SignersSuffice s a keys → ∃ e, r = .error e)

/-- The check accepts what the account does without any signature. -/
def NeedsNoSignature (s : Core) (a : AccountName) : Prop :=
  Accepts (verifyAuthorityAt maxSigCheckDepth (authorityGetters s) (activeOf a)) []

instance (s : Core) (a : AccountName) : Decidable (NeedsNoSignature s a) := by
  unfold NeedsNoSignature
  infer_instance

/-- The account has authorities. -/
def HasAuthorities (s : Core) (id : Bytes) : Prop := ((authorityGetters s).getActive id).isSome = true

/-- The accounts nested at most `left` levels deep have authorities. -/
def CompleteWithin (s : Core) : Nat → Authority → Prop
  | left, auth => ∀ e ∈ auth.accountAuths,
    match left with
    | 0 => True
    | left + 1 => HasAuthorities s e.1.toBytes ∧ CompleteWithin s left (s.assignment.active e.1.toBytes)

/-- Every lookup succeeds that the check of the account makes. -/
structure Complete (s : Core) (a : AccountName) : Prop where
  own : HasAuthorities s a.toBytes
  active : CompleteWithin s maxSigCheckDepth (s.assignment.active a.toBytes)
  owner : CompleteWithin s maxSigCheckDepth (s.assignment.owner a.toBytes)

/-- The accounts do not carry the authority. -/
def TooLight (opened : List Bytes) (auth : Authority) : Prop :=
  weightOf (fun a => decide (a.toBytes ∈ opened)) auth.accountAuths < auth.weightThreshold

instance (opened : List Bytes) (auth : Authority) : Decidable (TooLight opened auth) := inferInstanceAs (Decidable (_ < _))

/-- Neither do they carry the authority of another account that is nested at most `left` levels deep. -/
def ClosedWithin (s : Core) (opened : List Bytes) : Nat → Authority → Prop
  | left, auth => ∀ e ∈ auth.accountAuths,
    match left with
    | 0 => True
    | left + 1 => e.1.toBytes = tempId ∨
      (e.1.toBytes ∈ opened ∨ TooLight opened (s.assignment.active e.1.toBytes)) ∧
        ClosedWithin s opened left (s.assignment.active e.1.toBytes)

/-- What the accounts carry of those within reach is their own. -/
structure Keyless (s : Core) (opened : List Bytes) (auth : Authority) : Prop where
  light : TooLight opened auth
  closed : ClosedWithin s opened maxSigCheckDepth auth

/-- Without a signature `temp` and all accounts that follow from it carry neither the active nor the owner authority. -/
def NeedsKeys (s : Core) (a : AccountName) : Prop :=
  ∃ opened, tempId ∈ opened ∧ Keyless s opened (s.assignment.active a.toBytes) ∧
    Keyless s opened (s.assignment.owner a.toBytes)

/-- The bound cuts nothing that matters without signatures: no accounts carry the authorities, however they follow from
`temp`, or all lookups succeed and nothing is nested deeper. -/
def Decided (s : Core) (a : AccountName) : Prop :=
  a.toBytes = tempId ∨ NeedsKeys s a ∨
    Complete s a ∧ s.assignment.Fit (activeOf a) ∧ Uncut s.assignment (activeOf a) maxSigCheckDepth

/-! ## Where every lookup succeeds -/

section Lookups

variable {s : Core} {a : AccountName} {keys : List PublicKey}

theorem checkAccounts_congr {threshold : Nat} {check check' : Bytes → Prog Error SignState Bool}
    {as : List (AccountName × Nat)} (h : ∀ e ∈ as, check e.1.toBytes = check' e.1.toBytes) (total : Nat) :
    checkAccounts threshold check as total = checkAccounts threshold check' as total := by
  induction as generalizing total with
  | nil => rfl
  | cons e as ih =>
    obtain ⟨a, w⟩ := e
    obtain ⟨hone, hrest⟩ := List.forall_mem_cons.mp h
    unfold checkAccounts
    rw [show check a.toBytes = check' a.toBytes from hone]
    simp only [ih hrest]

theorem HasAuthorities.active_eq {id : Bytes} (h : HasAuthorities s id) :
    (authorityGetters s).getActive id = some (s.assignment.active id) := by
  obtain ⟨auth, hget⟩ := Option.isSome_iff_exists.mp h
  simp only [Core.assignment, hget, Option.getD_some]

theorem HasAuthorities.owner_eq {id : Bytes} (h : HasAuthorities s id) :
    (authorityGetters s).getOwner id = some (s.assignment.owner id) := by
  obtain ⟨auth, hget⟩ := Option.isSome_iff_exists.mp h
  obtain ⟨r, hr, -⟩ := Option.map_eq_some_iff.mp hget
  simp only [Core.assignment, authorityGetters, hr, Option.map_some, Option.getD_some]

theorem completeWithin_succ {left : Nat} {auth : Authority} : CompleteWithin s (left + 1) auth ↔
    ∀ e ∈ auth.accountAuths, HasAuthorities s e.1.toBytes ∧ CompleteWithin s left (s.assignment.active e.1.toBytes) := by
  rw [CompleteWithin]

theorem CompleteWithin.checkAuthority_eq (left : Nat) {auth : Authority} (h : CompleteWithin s left auth) :
    checkAuthority (authorityGetters s).getActive left auth =
      checkAuthority s.assignment.getters.getActive left auth := by
  induction left generalizing auth with
  | zero => rfl
  | succ left ih =>
    rw [completeWithin_succ] at h
    unfold checkAuthority
    congr 1
    funext p
    dsimp only
    split
    · rfl
    · congr 1
      refine checkAccounts_congr (fun e he => ?_) _
      obtain ⟨hhas, hbelow⟩ := h e he
      rw [hhas.active_eq]
      simp only [ofOption, Assignment.getters, pure_bind]
      rw [ih hbelow]
      rfl

theorem Complete.checkAccount_eq (h : Complete s a) :
    checkAccount (authorityGetters s).getActive maxSigCheckDepth a.toBytes =
      checkAccount s.assignment.getters.getActive maxSigCheckDepth a.toBytes := by
  unfold checkAccount
  rw [h.own.active_eq]
  simp only [ofOption, Assignment.getters, pure_bind]
  rw [h.active.checkAuthority_eq]
  rfl

theorem Complete.checkStored_eq (h : Complete s a) :
    checkStored (authorityGetters s).getOwner (authorityGetters s).getActive maxSigCheckDepth a =
      checkStored s.assignment.getters.getOwner s.assignment.getters.getActive maxSigCheckDepth a := by
  unfold checkStored
  rw [h.own.owner_eq]
  simp only [ofOption, Assignment.getters, pure_bind]
  exact h.owner.checkAuthority_eq

theorem Complete.verifyAuthorityAt_eq (h : Complete s a) :
    verifyAuthorityAt maxSigCheckDepth (authorityGetters s) (activeOf a) keys =
      verifyAuthorityAt maxSigCheckDepth s.assignment.getters (activeOf a) keys := by
  unfold verifyAuthorityAt
  rw [checkRequired_active _ rfl, checkRequired_active _ rfl]
  simp only [activeOf, each, h.checkAccount_eq, h.checkStored_eq]

/-- Where nothing is cut, what needs no signature is what no signers at all suffice for. -/
theorem Complete.needsNoSignature_iff (h : Complete s a) (hfit : s.assignment.Fit (activeOf a))
    (huncut : Uncut s.assignment (activeOf a) maxSigCheckDepth) : NeedsNoSignature s a ↔ SignersSuffice s a [] := by
  have hmixed : ¬ Mixed (activeOf a) := fun hmixed => hmixed.1 rfl
  have hgroups : s.assignment.groups (activeOf a) = [("Missing Authority", []), ("Missing Active Authority",
      [[.account a.toBytes, .authority (s.assignment.owner a.toBytes)]]), ("Missing Owner Authority", [])] := rfl
  have hmet : verdict [] s.assignment.active maxSigCheckDepth (s.assignment.groups (activeOf a)) = none ↔
      approvedWithin [] s.assignment.active (maxSigCheckDepth + 1) a.toBytes = true ∨
        satisfiedWithin [] s.assignment.active maxSigCheckDepth (s.assignment.owner a.toBytes) = true := by
    rw [verdict_eq_none, hgroups]
    simp only [List.forall_mem_cons, tryAll_fst, Alternative.met]
    simp
  unfold NeedsNoSignature SignersSuffice
  rw [← hmet]
  unfold Accepts
  rw [h.verifyAuthorityAt_eq]
  exact accepts_iff hfit huncut hmixed

end Lookups

/-! ## Where a signature is needed -/

section Unsigned

variable {s : Core} {a : AccountName} {opened : List Bytes} {auth : Authority} {t t' : SignState}

theorem closedWithin_succ {left : Nat} : ClosedWithin s opened (left + 1) auth ↔
    ∀ e ∈ auth.accountAuths, e.1.toBytes = tempId ∨
      (e.1.toBytes ∈ opened ∨ TooLight opened (s.assignment.active e.1.toBytes)) ∧
        ClosedWithin s opened left (s.assignment.active e.1.toBytes) := by
  rw [ClosedWithin]

/-- Nobody has signed, no key is offered, and the accounts approved are among the opened ones. -/
structure Unsigned (opened : List Bytes) (t : SignState) : Prop where
  unsigned : t.providedSignatures = []
  offered : t.availableKeys = []
  temp : tempId ∈ t.approvedBy
  approved : ∀ id ∈ t.approvedBy, id ∈ opened

theorem unsigned_init (h : tempId ∈ opened) : Unsigned opened (SignState.init [] []) where
  unsigned := rfl
  offered := rfl
  temp := List.mem_singleton.mpr rfl
  approved id hid := by rwa [List.mem_singleton.mp hid]

/-- Where nobody has signed the check answers `true` only if `met`, and approves opened accounts only. -/
def Opens (opened : List Bytes) (met : Prop) (p : Prog Error SignState Bool) : Prop :=
  ∀ t ok t', Unsigned opened t → p t = .ok ok t' → Unsigned opened t' ∧ (ok = true → met)

theorem checkAccounts_opens {threshold total n : Nat} {check : Bytes → Prog Error SignState Bool}
    {as : List (AccountName × Nat)} (ht : Unsigned opened t)
    (hcheck : ∀ e ∈ as, e.1.toBytes ≠ tempId → Opens opened (e.1.toBytes ∈ opened) (check e.1.toBytes))
    (h : checkAccounts threshold check as total t = .ok n t') :
    Unsigned opened t' ∧ n ≤ total + weightOf (fun a => decide (a.toBytes ∈ opened)) as := by
  induction as generalizing total t with
  | nil =>
    obtain ⟨rfl, rfl⟩ := pure_eq_ok.mp h
    exact ⟨ht, Nat.le_add_right _ _⟩
  | cons e as ih =>
    obtain ⟨a, w⟩ := e
    obtain ⟨hone, hrest⟩ := List.forall_mem_cons.mp hcheck
    obtain ⟨_, _, hget, h⟩ := bind_eq_ok.mp h
    obtain ⟨rfl, rfl⟩ := get_eq_ok.mp hget
    -- the answer comes from the cache or from the check
    have hanswer : ∃ ok t₁, Unsigned opened t₁ ∧ (ok = true → a.toBytes ∈ opened) ∧
        (if (ok && decide (threshold ≤ if ok = true then (total + w) % 4294967296 else total)) = true then
          pure (if ok = true then (total + w) % 4294967296 else total)
        else checkAccounts threshold check as (if ok = true then (total + w) % 4294967296 else total)) t₁ =
          .ok n t' := by
      split at h
      next hcached => exact ⟨true, t, ht, fun _ => ht.approved _ (List.contains_iff_mem.mp hcached), h⟩
      next hcached =>
        obtain ⟨ok, t₁, hok, h⟩ := bind_eq_ok.mp h
        have htemp : a.toBytes ≠ tempId := fun heq =>
          hcached (List.contains_iff_mem.mpr (by rw [heq]; exact ht.temp))
        obtain ⟨ht₁, hopened⟩ := hone htemp t ok t₁ ht hok
        exact ⟨ok, t₁, ht₁, hopened, h⟩
    obtain ⟨ok, t₁, ht₁, hopened, h⟩ := hanswer
    rw [weightOf_cons]
    cases ok with
    | false =>
      simp only [Bool.false_and, Bool.false_eq_true, if_false] at h
      obtain ⟨ht', hle⟩ := ih ht₁ hrest h
      exact ⟨ht', by omega⟩
    | true =>
      have hmod := Nat.mod_le (total + w) 4294967296
      simp only [if_true, Bool.true_and, decide_eq_true_eq] at h
      rw [if_pos (decide_eq_true (hopened rfl))]
      split at h
      next =>
        obtain ⟨rfl, rfl⟩ := pure_eq_ok.mp h
        exact ⟨ht₁, by omega⟩
      next =>
        obtain ⟨ht', hle⟩ := ih ht₁ hrest h
        exact ⟨ht', by omega⟩

theorem weigh_opens {check : Bytes → Prog Error SignState Bool}
    (hcheck : ∀ e ∈ auth.accountAuths, e.1.toBytes ≠ tempId → Opens opened (e.1.toBytes ∈ opened) (check e.1.toBytes)) :
    Opens opened (¬ TooLight opened auth) (checkKeys auth.weightThreshold auth.keyAuths 0 >>= fun counted =>
      if counted.2 then pure true
      else do
        let total ← checkAccounts auth.weightThreshold check auth.accountAuths counted.1
        pure (decide (auth.weightThreshold ≤ total))) := by
  intro t ok t' ht h
  rw [bind_of_ok (checkKeys_unsigned ht.unsigned ht.offered auth.weightThreshold auth.keyAuths 0)] at h
  simp only [Bool.false_eq_true, if_false] at h
  obtain ⟨total, t₁, haccounts, h⟩ := bind_eq_ok.mp h
  obtain ⟨rfl, rfl⟩ := pure_eq_ok.mp h
  obtain ⟨ht', hle⟩ := checkAccounts_opens ht hcheck haccounts
  refine ⟨ht', fun hreached hlight => ?_⟩
  have hthreshold := of_decide_eq_true hreached
  unfold TooLight at hlight
  omega

/-- **Without a signature** a check that answers `true` is carried by opened accounts, whatever was approved before. -/
theorem checkAuthority_opens (left : Nat) (h : ClosedWithin s opened left auth) :
    Opens opened (¬ TooLight opened auth) (checkAuthority (authorityGetters s).getActive left auth) := by
  induction left generalizing auth with
  | zero =>
    unfold checkAuthority
    refine weigh_opens fun e _ _ t ok t' ht hrun => ?_
    obtain ⟨rfl, rfl⟩ := pure_eq_ok.mp hrun
    exact ⟨ht, fun hok => absurd hok Bool.false_ne_true⟩
  | succ left ih =>
    rw [closedWithin_succ] at h
    unfold checkAuthority
    refine weigh_opens fun e he htemp t ok t' ht hrun => ?_
    simp only [bind_eq_ok, ofOption_eq_ok] at hrun
    obtain ⟨own, _, ⟨hown, rfl⟩, met, t₁, hnested, hrun⟩ := hrun
    have hactive : s.assignment.active e.1.toBytes = own := by
      simp only [Core.assignment, hown, Option.getD_some]
    obtain ⟨hopened, hclosed⟩ := (h e he).resolve_left htemp
    rw [hactive] at hopened hclosed
    obtain ⟨ht₁, hmet⟩ := ih hclosed _ _ _ ht hnested
    cases met with
    | false =>
      obtain ⟨rfl, rfl⟩ := pure_eq_ok.mp hrun
      exact ⟨ht₁, fun hok => absurd hok Bool.false_ne_true⟩
    | true =>
      have hmem : e.1.toBytes ∈ opened := hopened.resolve_right (hmet rfl)
      obtain ⟨_, t₂, happrove, hrun⟩ := bind_eq_ok.mp hrun
      obtain rfl := modify_eq_ok.mp happrove
      obtain ⟨rfl, rfl⟩ := pure_eq_ok.mp hrun
      refine ⟨⟨ht₁.unsigned, ht₁.offered, List.mem_cons_of_mem _ ht₁.temp, fun id hid => ?_⟩, fun _ => hmem⟩
      rcases List.mem_cons.mp hid with rfl | hold
      · exact hmem
      · exact ht₁.approved id hold

theorem Keyless.opens {get : Bytes → Option Authority} {id : Bytes} (h : Keyless s opened ((get id).getD noAuthority)) :
    Opens opened False (do
      let auth ← ofOption (get id) .notFound
      checkAuthority (authorityGetters s).getActive maxSigCheckDepth auth) := by
  intro t ok t' ht hrun
  obtain ⟨auth, _, hread, hrun⟩ := bind_eq_ok.mp hrun
  obtain ⟨hauth, rfl⟩ := ofOption_eq_ok.mp hread
  rw [hauth, Option.getD_some] at h
  obtain ⟨ht', hmet⟩ := checkAuthority_opens maxSigCheckDepth h.closed t ok t' ht hrun
  exact ⟨ht', fun hok => hmet hok h.light⟩

theorem NeedsKeys.not_needsNoSignature (h : NeedsKeys s a) (ha : a.toBytes ≠ tempId) : ¬ NeedsNoSignature s a := by
  obtain ⟨opened, htemp, hactive, howner⟩ := h
  have hnever : ∀ t', requireOneOf "Missing Active Authority"
      [checkAccount (authorityGetters s).getActive maxSigCheckDepth a.toBytes,
        checkStored (authorityGetters s).getOwner (authorityGetters s).getActive maxSigCheckDepth a]
      (SignState.init [] []) ≠ .ok () t' := by
    intro t' hrun
    have huncached : ¬ (SignState.init [] []).approvedBy.contains a.toBytes = true := fun hcached =>
      ha (List.mem_singleton.mp (List.contains_iff_mem.mp hcached))
    obtain ⟨ok, t₁, hok, hrun⟩ := bind_eq_ok.mp hrun
    unfold checkAccount at hok
    rw [bind_of_ok (get_apply _), if_neg huncached] at hok
    obtain ⟨ht₁, hnot⟩ := hactive.opens _ _ _ (unsigned_init htemp) hok
    cases ok with
    | true => exact hnot rfl
    | false =>
      obtain ⟨ok, t₂, hok, hrun⟩ := bind_eq_ok.mp hrun
      obtain ⟨-, hnot⟩ := howner.opens _ _ _ ht₁ hok
      cases ok with
      | true => exact hnot rfl
      | false => cases hrun
  unfold NeedsNoSignature Accepts verifyAuthorityAt
  intro haccepts
  split at haccepts
  next => cases haccepts
  next u t' hrun =>
    rw [checkRequired_active _ rfl] at hrun
    simp only [activeOf, each, pure_bind] at hrun
    obtain ⟨_, _, hrun, -⟩ := bind_eq_ok.mp hrun
    obtain ⟨_, _, hrun, -⟩ := bind_eq_ok.mp hrun
    exact hnever _ hrun

theorem not_tooLight_of_satisfiedWithin {left : Nat}
    (hentries : ∀ e ∈ auth.accountAuths, approvedWithin [] s.assignment.active left e.1.toBytes = true →
      e.1.toBytes ∈ opened)
    (h : satisfiedWithin [] s.assignment.active left auth = true) : ¬ TooLight opened auth := by
  have hkeys : weightOf (fun k => decide (k ∈ ([] : List PublicKey))) auth.keyAuths = 0 := by simp [weightOf]
  have haccounts : weightOf (fun a => approvedWithin [] s.assignment.active left a.toBytes) auth.accountAuths ≤
      weightOf (fun a => decide (a.toBytes ∈ opened)) auth.accountAuths :=
    weightOf_mono fun e he happroved => decide_eq_true (hentries e he happroved)
  rw [satisfiedWithin_eq, decide_eq_true_eq, hkeys] at h
  unfold TooLight
  omega

/-- What is approved within the bound is opened. -/
theorem ClosedWithin.opened_of_approvedWithin (htemp : tempId ∈ opened) (left : Nat) (h : ClosedWithin s opened left auth) :
    ∀ e ∈ auth.accountAuths, approvedWithin [] s.assignment.active left e.1.toBytes = true → e.1.toBytes ∈ opened := by
  induction left generalizing auth with
  | zero =>
    intro e _ happroved
    by_cases hid : e.1.toBytes = tempId
    · rwa [hid]
    · simp [approvedWithin, hid] at happroved
  | succ left ih =>
    intro e he happroved
    by_cases hid : e.1.toBytes = tempId
    · rwa [hid]
    · obtain ⟨hopened, hclosed⟩ := (closedWithin_succ.mp h e he).resolve_left hid
      unfold approvedWithin at happroved
      rw [if_neg hid] at happroved
      exact hopened.resolve_right (not_tooLight_of_satisfiedWithin (ih hclosed) happroved)

theorem Keyless.not_satisfiedWithin (h : Keyless s opened auth) (htemp : tempId ∈ opened) :
    ¬ satisfiedWithin [] s.assignment.active maxSigCheckDepth auth = true := fun hsatisfied =>
  not_tooLight_of_satisfiedWithin (h.closed.opened_of_approvedWithin htemp maxSigCheckDepth) hsatisfied h.light

theorem NeedsKeys.not_signersSuffice (h : NeedsKeys s a) (ha : a.toBytes ≠ tempId) : ¬ SignersSuffice s a [] := by
  obtain ⟨opened, htemp, hactive, howner⟩ := h
  rintro ⟨hactive' | howner', -⟩
  · unfold approvedWithin at hactive'
    rw [if_neg ha] at hactive'
    exact hactive.not_satisfiedWithin htemp hactive'
  · exact howner.not_satisfiedWithin htemp howner'

/-- `temp` is approved from the start. -/
theorem needsNoSignature_temp (ha : a.toBytes = tempId) : NeedsNoSignature s a ∧ SignersSuffice s a [] := by
  have haccount : checkAccount (authorityGetters s).getActive maxSigCheckDepth a.toBytes (SignState.init [] []) =
      .ok true (SignState.init [] []) := by
    unfold checkAccount
    have hkept : (SignState.init [] []).approvedBy.contains a.toBytes = true := by
      rw [ha]
      exact List.contains_iff_mem.mpr (List.mem_singleton.mpr rfl)
    rw [bind_of_ok (get_apply _), if_pos hkept]
    rfl
  have hrun : checkRequired (authorityGetters s) maxSigCheckDepth (activeOf a) (SignState.init [] []) =
      .ok () (SignState.init [] []) := by
    rw [checkRequired_active _ rfl]
    simp only [activeOf, each, pure_bind]
    have hone : requireOneOf "Missing Active Authority"
        [checkAccount (authorityGetters s).getActive maxSigCheckDepth a.toBytes,
          checkStored (authorityGetters s).getOwner (authorityGetters s).getActive maxSigCheckDepth a]
        (SignState.init [] []) = .ok () (SignState.init [] []) := by
      unfold requireOneOf
      rw [bind_of_ok haccount, if_pos rfl]
      rfl
    rw [bind_of_ok (show (requireOneOf _ _ >>= fun _ => pure ()) (SignState.init [] []) = .ok () _ from by
      rw [bind_of_ok hone]
      rfl)]
    rfl
  constructor
  · unfold NeedsNoSignature Accepts verifyAuthorityAt
    rw [hrun]
    rfl
  · refine ⟨.inl ?_, fun k hk => absurd hk List.not_mem_nil⟩
    unfold approvedWithin
    rw [if_pos ha]

/-- What needs no signature is what no signers at all suffice for. -/
theorem Decided.needsNoSignature_iff (h : Decided s a) : NeedsNoSignature s a ↔ SignersSuffice s a [] := by
  by_cases ha : a.toBytes = tempId
  · obtain ⟨hneeds, hsuffice⟩ := needsNoSignature_temp ha
    exact iff_of_true hneeds hsuffice
  · rcases h.resolve_left ha with hkeys | ⟨hcomplete, hfit, huncut⟩
    · exact iff_of_false (hkeys.not_needsNoSignature ha) (hkeys.not_signersSuffice ha)
    · exact hcomplete.needsNoSignature_iff hfit huncut

end Unsigned

/-! ## The keys go nowhere -/

theorem required_transfer (op : TransferOperation) : requiredOf [.transfer op] = activeOf op.from_ := rfl

theorem verifyTransactionAuthority_unsigned (s : Core) (ops : List Operation) :
    verifyTransactionAuthority cd s ⟨0, 0, 0, ops, []⟩ = (do
      verifyAuthorityAt maxSigCheckDepth (authorityGetters s) (requiredOf ops) []
      return true) := rfl

theorem verifyAccountAuthority_cases (s : Core) (name : Bytes) (keys : List PublicKey) (row : Nat × AccountObject)
    (hname : name.length ≠ 0) (hrow : (s.accounts.find? fun a => a.name == .ofBytes name) = some row) :
    (NeedsNoSignature s row.2.name ∧ verifyAccountAuthority cd s name keys = .ok true) ∨
      (¬ NeedsNoSignature s row.2.name ∧ ∃ e, verifyAccountAuthority cd s name keys = .error e) := by
  unfold verifyAccountAuthority NeedsNoSignature Accepts
  rw [if_neg hname, hrow]
  simp only
  rw [verifyTransactionAuthority_unsigned, required_transfer]
  cases hcheck : verifyAuthorityAt maxSigCheckDepth (authorityGetters s) (activeOf row.2.name) [] with
  | ok u => exact .inl ⟨rfl, rfl⟩
  | error e => exact .inr ⟨(fun h => by cases h), e, rfl⟩

/-- The answer is right where the keys suffice just if no signature is needed. -/
theorem answersSigners_iff (s : Core) (name : Bytes) (row : Nat × AccountObject) (hname : name.length ≠ 0)
    (hrow : (s.accounts.find? fun a => a.name == .ofBytes name) = some row) (keys : List PublicKey) :
    AnswersSigners s row.2.name keys (verifyAccountAuthority cd s name keys) ↔
      (NeedsNoSignature s row.2.name ↔ SignersSuffice s row.2.name keys) := by
  unfold AnswersSigners
  rcases verifyAccountAuthority_cases cd s name keys row hname hrow with ⟨hneeds, hrun⟩ | ⟨hneeds, e, hrun⟩
  · rw [hrun]
    constructor
    · intro h
      refine iff_of_true hneeds ?_
      by_contra hnot
      obtain ⟨e, he⟩ := h.2 hnot
      cases he
    · exact fun h => ⟨fun _ => rfl, fun hnot => absurd (h.mp hneeds) hnot⟩
  · rw [hrun]
    constructor
    · intro h
      refine iff_of_false hneeds fun hsuffice => ?_
      cases h.1 hsuffice
    · exact fun h => ⟨fun hsuffice => absurd (h.mpr hsuffice) hneeds, fun _ => ⟨e, rfl⟩⟩

/-- **Signers of an account.**  Whatever keys are given, the answer is right exactly where they suffice just if no signers
at all do; and in every state it is right for those signers that suffice just if some others do for whom it is right. -/
theorem account_signers (s : Core) (name : Bytes) (keys : List PublicKey) (row : Nat × AccountObject)
    (hname : name.length ≠ 0) (hrow : (s.accounts.find? fun a => a.name == .ofBytes name) = some row) :
    (Decided s row.2.name → (AnswersSigners s row.2.name keys (verifyAccountAuthority cd s name keys) ↔
      (SignersSuffice s row.2.name [] ↔ SignersSuffice s row.2.name keys))) ∧
    ∀ others, AnswersSigners s row.2.name others (verifyAccountAuthority cd s name others) →
      (AnswersSigners s row.2.name keys (verifyAccountAuthority cd s name keys) ↔
        (SignersSuffice s row.2.name others ↔ SignersSuffice s row.2.name keys)) := by
  have hanswers := answersSigners_iff cd s name row hname hrow
  refine ⟨fun hdecided => ?_, fun others hright => ?_⟩
  · rw [hanswers keys, hdecided.needsNoSignature_iff]
  · rw [hanswers keys, (hanswers others).mp hright]

/-! ### Eve and her key -/

def eveState : Core := (sampleAfter eveBlock (genesis ⟨1⟩)).core

theorem eve_found : ((eveState.accounts.find? fun a => a.name == .ofBytes eve.toBytes).map fun r => r.2.name) = some eve := by
  decide +kernel

theorem needsKeys_eve : NeedsKeys eveState eve := by
  have hown : eveState.assignment.active eve.toBytes = .ofKey ⟨2⟩ ∧ eveState.assignment.owner eve.toBytes = .ofKey ⟨2⟩ := by
    decide +kernel
  have hkeyless : Keyless eveState [tempId] (.ofKey ⟨2⟩) :=
    ⟨by decide, closedWithin_succ.mpr fun e he => absurd he List.not_mem_nil⟩
  exact ⟨[tempId], List.mem_singleton.mpr rfl, by rw [hown.1]; exact hkeyless, by rw [hown.2]; exact hkeyless⟩

/-- A key that is not hers does not suffice, and she does need a signature: the answer is right. -/
theorem account_signers_otherKey :
    AnswersSigners eveState eve [⟨3⟩] (verifyAccountAuthority sampleEnv.codec eveState eve.toBytes [⟨3⟩]) := by
  have hnot : ¬ SignersSuffice eveState eve [] ∧ ¬ SignersSuffice eveState eve [⟨3⟩] := by decide +kernel
  obtain ⟨row, hrow, hname⟩ := Option.map_eq_some_iff.mp eve_found
  obtain ⟨hanswer, -⟩ := account_signers sampleEnv.codec eveState eve.toBytes [⟨3⟩] row (by decide +kernel) hrow
  rw [hname] at hanswer
  exact (hanswer (.inr (.inl needsKeys_eve))).mpr (iff_of_false hnot.1 hnot.2)

/-- Eve has the key 2, and is told that an authority is missing. -/
theorem key_of_eve_ignored :
    ((eveState.accounts.find? fun a => a.name == .ofBytes eve.toBytes).map fun r => r.2.name) = some eve ∧
      SignersSuffice eveState eve [⟨2⟩] ∧
      verifyAccountAuthority sampleEnv.codec eveState eve.toBytes [⟨2⟩] = .error (.assertion "Missing Active Authority") ∧
      ¬ AnswersSigners eveState eve [⟨2⟩] (verifyAccountAuthority sampleEnv.codec eveState eve.toBytes [⟨2⟩]) := by
  have hruns : SignersSuffice eveState eve [⟨2⟩] ∧
      verifyAccountAuthority sampleEnv.codec eveState eve.toBytes [⟨2⟩] =
        .error (.assertion "Missing Active Authority") := by
    decide +kernel
  obtain ⟨hsuffice, hrun⟩ := hruns
  refine ⟨eve_found, hsuffice, hrun, fun h => ?_⟩
  rw [hrun] at h
  cases h.1 hsuffice

end Sigmaengine
