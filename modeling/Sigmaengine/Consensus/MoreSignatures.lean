import Sigmaengine.Consensus.Verdicts

/-!
# More signatures

Whether more signatures can hurt, and whether the order of the operations matters, for `verify_authority`.
-/

namespace Sigmaengine

open Effect SignState RequiredAuthorities

/-! ## The order of the operations -/

section Order

variable {a b c : AccountName} {as as' s : List AccountName}

theorem flatInsert_self : flatInsert a (a :: s) = a :: s := by
  simp [flatInsert]

theorem flatInsert_of_lt (h : a.lt b = true) : flatInsert a (b :: s) = a :: b :: s := by
  have hne : a ≠ b := by
    rintro rfl
    simp [FixedString.lt] at h
  simp [flatInsert, hne, h]

theorem flatInsert_of_gt (h : b.lt a = true) : flatInsert a (b :: s) = b :: flatInsert a s := by
  simp only [FixedString.lt, decide_eq_true_eq] at h
  have hne : a ≠ b := by
    rintro rfl
    omega
  have hnot : ¬ a.lt b = true := by
    simp only [FixedString.lt, decide_eq_true_eq]
    omega
  simp [flatInsert, hne, hnot]

theorem lt_total (a b : AccountName) : a = b ∨ a.lt b = true ∨ b.lt a = true := by
  simp only [FixedString.lt, decide_eq_true_eq]
  rcases Nat.lt_trichotomy a.data.toNat b.data.toNat with h | h | h
  · exact .inr (.inl h)
  · left
    obtain ⟨a⟩ := a
    obtain ⟨b⟩ := b
    exact congrArg _ (BitVec.eq_of_toNat_eq h)
  · exact .inr (.inr h)

theorem lt_trans_name (h : a.lt b = true) (h' : b.lt c = true) : a.lt c = true := by
  simp only [FixedString.lt, decide_eq_true_eq] at h h' ⊢
  omega

theorem flatInsert_comm_of_lt (hab : a.lt b = true) (s : List AccountName) :
    flatInsert a (flatInsert b s) = flatInsert b (flatInsert a s) := by
  induction s with
  | nil =>
    show flatInsert a [b] = flatInsert b [a]
    rw [flatInsert_of_lt hab, flatInsert_of_gt hab]
    rfl
  | cons c cs ih =>
    rcases lt_total b c with rfl | hbc | hcb
    · rw [flatInsert_self, flatInsert_of_lt hab, flatInsert_of_gt hab, flatInsert_self]
    · rw [flatInsert_of_lt hbc, flatInsert_of_lt hab, flatInsert_of_lt (lt_trans_name hab hbc), flatInsert_of_gt hab,
        flatInsert_of_lt hbc]
    · rw [flatInsert_of_gt hcb]
      rcases lt_total a c with rfl | hac | hca
      · rw [flatInsert_self, flatInsert_self, flatInsert_of_gt hcb]
      · rw [flatInsert_of_lt hac, flatInsert_of_lt hac, flatInsert_of_gt hab, flatInsert_of_gt hcb]
      · rw [flatInsert_of_gt hca, flatInsert_of_gt hca, flatInsert_of_gt hcb, ih]

/-- In which order names are inserted does not matter. -/
theorem flatInsert_comm (a b : AccountName) (s : List AccountName) :
    flatInsert a (flatInsert b s) = flatInsert b (flatInsert a s) := by
  rcases lt_total a b with rfl | hab | hba
  · rfl
  · exact flatInsert_comm_of_lt hab s
  · exact (flatInsert_comm_of_lt hba s).symm

theorem inserted_perm (h : as.Perm as') (s : List AccountName) :
    as.foldl (fun s a => flatInsert a s) s = as'.foldl (fun s a => flatInsert a s) s :=
  h.foldl_eq' (fun a _ b _ s => flatInsert_comm b a s) s

namespace RequiredAuthorities

variable {r r' q q' : RequiredAuthorities}

/-- `q` on top of `r`. -/
def join (r q : RequiredAuthorities) : RequiredAuthorities :=
  (((r.addActive q.active).addOwner q.owner).addPosting q.posting).addOther q.other

/-- The same, but for the order of the authorities that are required by themselves. -/
structure Alike (r r' : RequiredAuthorities) : Prop where
  active : r.active = r'.active
  owner : r.owner = r'.owner
  posting : r.posting = r'.posting
  other : r.other.Perm r'.other

theorem foldl_join (qs : List RequiredAuthorities) (r : RequiredAuthorities) : qs.foldl join r =
    r.join ⟨qs.flatMap (·.active), qs.flatMap (·.owner), qs.flatMap (·.posting), qs.flatMap (·.other)⟩ := by
  induction qs generalizing r with
  | nil => simp [join, addActive, addOwner, addPosting, addOther]
  | cons q qs ih =>
    rw [List.foldl_cons, ih]
    simp [join, addActive, addOwner, addPosting, addOther, List.foldl_append]

theorem join_perm {qs qs' : List RequiredAuthorities} (h : qs.Perm qs') (r : RequiredAuthorities) :
    Alike (qs.foldl join r) (qs'.foldl join r) := by
  rw [foldl_join, foldl_join]
  constructor
  · exact inserted_perm (h.flatMap_right _) _
  · exact inserted_perm (h.flatMap_right _) _
  · exact inserted_perm (h.flatMap_right _) _
  · exact (h.flatMap_right _).append_left _

end RequiredAuthorities

/-- What the operation requires by itself. -/
theorem exists_join (op : Operation) : ∃ q, ∀ r, op.getRequiredAuthorities r = r.join q := by
  have hactive : ∀ as, ∃ q, ∀ r : RequiredAuthorities, r.addActive as = r.join q :=
    fun as => ⟨{ active := as }, fun r => by simp [join, addOwner, addPosting, addOther]⟩
  have howner : ∀ as, ∃ q, ∀ r : RequiredAuthorities, r.addOwner as = r.join q :=
    fun as => ⟨{ owner := as }, fun r => by simp [join, addActive, addPosting, addOther]⟩
  have hposting : ∀ as, ∃ q, ∀ r : RequiredAuthorities, r.addPosting as = r.join q :=
    fun as => ⟨{ posting := as }, fun r => by simp [join, addActive, addOwner, addOther]⟩
  cases op with
  | customJson o =>
    refine ⟨{ active := o.requiredAuths, posting := o.requiredPostingAuths }, fun r => ?_⟩
    simp [Operation.getRequiredAuthorities, join, addActive, addOwner, addPosting, addOther]
  | customBinary o | customJsonDapp o =>
    exact ⟨⟨o.requiredActiveAuths, o.requiredOwnerAuths, o.requiredPostingAuths, o.requiredAuths⟩, fun r => rfl⟩
  | accountUpdate o =>
    simp only [Operation.getRequiredAuthorities]
    split
    · exact howner _
    · exact hactive _
  | setResetAccount o =>
    simp only [Operation.getRequiredAuthorities]
    split
    · exact howner _
    · exact hposting _
  | recoverAccount o =>
    refine ⟨{ other := [o.newOwnerAuthority, o.recentOwnerAuthority] }, fun r => ?_⟩
    simp [Operation.getRequiredAuthorities, join, addActive, addOwner, addPosting]
  | changeRecoveryAccount o | declineVotingRights o => exact howner _
  | virtual => exact ⟨{}, fun r => by simp [Operation.getRequiredAuthorities, join, addActive, addOwner, addPosting, addOther]⟩
  | _ => exact hactive _

/-- **The order of the operations** changes no more than the order of the authorities that are required by
themselves. -/
theorem requiredOf_perm {ops ops' : List Operation} (h : ops.Perm ops') : Alike (requiredOf ops) (requiredOf ops') := by
  choose q hq using exists_join
  have hjoin : ∀ ops, requiredOf ops = (ops.map q).foldl join {} := by
    intro ops
    unfold requiredOf
    rw [List.foldl_map]
    simp only [hq]
  rw [hjoin, hjoin]
  exact join_perm (h.map q) {}

end Order

/-! ## What is required with posting authority -/

/-- The assertion that fails where posting authority is required next to another one. -/
def mixedError (r : RequiredAuthorities) : Error :=
  if r.active ≠ [] then .assertion "required_active.size() == 0"
  else if r.owner ≠ [] then .assertion "required_owner.size() == 0"
  else .assertion "other.size() == 0"

section Answers

variable {g : Assignment} {r r' : RequiredAuthorities} {depth : Nat} {keys keys' : List PublicKey}

theorem verifyAuthorityAt_mixed (getters : AuthorityGetters) (h : Mixed r) :
    verifyAuthorityAt depth getters r keys = .error (mixedError r) := by
  obtain ⟨hposting, hothers⟩ := h
  unfold verifyAuthorityAt checkRequired mixedError
  rw [if_pos hposting]
  cases hactive : r.active with
  | cons a as => rfl
  | nil =>
    cases howner : r.owner with
    | cons a as => rfl
    | nil =>
      cases hother : r.other with
      | cons a as => rfl
      | nil => exact absurd ⟨hactive, howner, hother⟩ hothers

theorem not_mixed_of_missesNothing {getters : AuthorityGetters}
    (h : MissesNothing (verifyAuthorityAt depth getters r keys)) : ¬ Mixed r := by
  intro hmixed
  rw [verifyAuthorityAt_mixed getters hmixed] at h
  unfold MissesNothing mixedError unnecessarySignature at h
  split at h
  · simp at h
  · split at h <;> simp at h

namespace RequiredAuthorities

theorem Alike.mixed_iff (h : Alike r r') : Mixed r ↔ Mixed r' := by
  have hother : r.other = [] ↔ r'.other = [] := by
    constructor
    · intro hnil
      exact (hnil ▸ h.other).nil_eq.symm
    · intro hnil
      exact (hnil ▸ h.other).eq_nil
  unfold Mixed
  rw [h.active, h.owner, h.posting, hother]

theorem Alike.mixedError_eq (h : Alike r r') : mixedError r = mixedError r' := by
  unfold mixedError
  rw [h.active, h.owner]

theorem Alike.nested_eq (h : Alike r r') : g.nested r = g.nested r' := by
  unfold Assignment.nested
  rw [h.posting]

theorem Alike.groups (h : Alike r r') : AlikeGroups (g.groups r) (g.groups r') := by
  unfold Assignment.groups
  rw [h.active, h.owner, h.posting]
  split
  · exact .cons ⟨rfl, fun _ => .rfl⟩ .nil
  · refine .cons ⟨rfl, fun alts => ?_⟩ (.cons ⟨rfl, fun _ => .rfl⟩ (.cons ⟨rfl, fun _ => .rfl⟩ .nil))
    exact (h.other.map _).mem_iff

theorem Alike.fit (h : Alike r r') (hfit : g.Fit r) : g.Fit r' :=
  ⟨hfit.active, hfit.owner, hfit.posting, fun auth hauth => hfit.other auth (h.other.mem_iff.mpr hauth)⟩

theorem Alike.uncut (h : Alike r r') (huncut : Uncut g r depth) : Uncut g r' depth := by
  unfold Uncut at huncut ⊢
  rw [← h.nested_eq]
  exact h.groups.forall_iff.mp huncut

end RequiredAuthorities

/-- **Where nothing is cut** the order of what is required does not matter. -/
theorem verifyAuthorityAt_alike (h : Alike r r') (hfit : g.Fit r) (huncut : Uncut g r depth) :
    verifyAuthorityAt depth g.getters r' keys = verifyAuthorityAt depth g.getters r keys := by
  by_cases hmixed : Mixed r
  · rw [verifyAuthorityAt_mixed _ hmixed, verifyAuthorityAt_mixed _ (h.mixed_iff.mp hmixed), h.mixedError_eq]
  · have hmixed' : ¬ Mixed r' := fun h' => hmixed (h.mixed_iff.mpr h')
    rw [verifyAuthorityAt_eq hfit huncut hmixed, verifyAuthorityAt_eq (h.fit hfit) (h.uncut huncut) hmixed', ← h.nested_eq,
      h.groups.verdict_eq]
    simp only [h.groups.mem_usedFor_iff]

end Answers

/-! ## More signatures -/

/-- The keys satisfy every required authority within the bound, each by itself: no approval left over from another check
counts. -/
def Satisfies (g : Assignment) (r : RequiredAuthorities) (depth : Nat) (keys : List PublicKey) : Prop :=
  ¬ Mixed r ∧ verdict keys (g.nested r) depth (g.groups r) = none

theorem Satisfies.alike {g : Assignment} {r r' : RequiredAuthorities} {depth : Nat} {keys : List PublicKey}
    (h : Satisfies g r depth keys) (halike : Alike r r') : Satisfies g r' depth keys := by
  refine ⟨fun hmixed => h.1 (halike.mixed_iff.mpr hmixed), ?_⟩
  rw [← halike.nested_eq, ← halike.groups.verdict_eq]
  exact h.2

theorem Satisfies.mono {g : Assignment} {r : RequiredAuthorities} {depth : Nat} {keys keys' : List PublicKey}
    (h : Satisfies g r depth keys) (hsub : keys ⊆ keys') : Satisfies g r depth keys' :=
  ⟨h.1, verdict_mono hsub h.2⟩

/-- Where nothing is cut, the keys that pass are those that satisfy everything. -/
theorem satisfies_of_missesNothing {g : Assignment} {r : RequiredAuthorities} {depth : Nat} {keys : List PublicKey}
    (hfit : g.Fit r) (huncut : Uncut g r depth) (h : MissesNothing (verifyAuthorityAt depth g.getters r keys)) :
    Satisfies g r depth keys := by
  have hmixed := not_mixed_of_missesNothing h
  refine ⟨hmixed, ?_⟩
  rw [verifyAuthorityAt_eq hfit huncut hmixed] at h
  cases hverdict : verdict keys (g.nested r) depth (g.groups r) with
  | none => rfl
  | some text =>
    rw [hverdict] at h
    rcases h with h | h
    · cases h
    · have hmissing := mem_missingAuthority hverdict
      rw [Except.error.inj h] at hmissing
      exact absurd hmissing unnecessarySignature_not_missing

/-- **More signatures never hurt** keys that satisfy every required authority within the bound, and neither does another
order of the operations.  Where nothing is cut these are all keys that pass, and the order changes nothing at all. -/
theorem more_signatures_miss_nothing (g : Assignment) (depth : Nat) (ops : List Operation) (hfit : g.Fit (requiredOf ops)) :
    (∀ keys, Satisfies g (requiredOf ops) depth keys → ∀ keys' ops', keys ⊆ keys' → ops.Perm ops' →
      MissesNothing (verifyAuthorityAt depth g.getters (requiredOf ops') keys')) ∧
    (Uncut g (requiredOf ops) depth →
      (∀ keys, MissesNothing (verifyAuthorityAt depth g.getters (requiredOf ops) keys) → ∀ keys', keys ⊆ keys' →
        MissesNothing (verifyAuthorityAt depth g.getters (requiredOf ops) keys')) ∧
      ∀ keys ops', ops.Perm ops' → verifyAuthorityAt depth g.getters (requiredOf ops') keys =
        verifyAuthorityAt depth g.getters (requiredOf ops) keys) ∧
    ∀ keys ops', ops.Perm ops' → (requiredOf ops').other = (requiredOf ops).other →
      verifyAuthorityAt depth g.getters (requiredOf ops') keys = verifyAuthorityAt depth g.getters (requiredOf ops) keys := by
  refine ⟨fun keys h keys' ops' hsub hperm => ?_, fun huncut => ⟨fun keys h keys' hsub => ?_, fun keys ops' hperm => ?_⟩,
    fun keys ops' hperm hother => ?_⟩
  · have halike := requiredOf_perm hperm
    obtain ⟨hmixed, hmet⟩ := (h.mono hsub).alike halike
    exact missesNothing_of_verdict (halike.fit hfit) hmixed hmet
  · obtain ⟨hmixed, hmet⟩ := (satisfies_of_missesNothing hfit huncut h).mono hsub
    exact missesNothing_of_verdict hfit hmixed hmet
  · exact verifyAuthorityAt_alike (requiredOf_perm hperm) hfit huncut
  · obtain ⟨hactive, howner, hposting, -⟩ := requiredOf_perm hperm
    rw [show requiredOf ops' = requiredOf ops from RequiredAuthorities.ext hactive.symm howner.symm hposting.symm hother]

/-! ### Accounts with cached approvals -/

/-- One of these keys or one of these accounts is enough. -/
def anyOf (keys : List PublicKey) (accounts : List AccountName) : Authority where
  weightThreshold := 1
  accountAuths := accounts.map fun a => (a, 1)
  keyAuths := keys.map fun k => (k, 1)

def alice : AccountName := .ofBytes (ascii ['a', 'l', 'i', 'c', 'e'])
def bob : AccountName := .ofBytes (ascii ['b', 'o', 'b'])
def carol : AccountName := .ofBytes (ascii ['c', 'a', 'r', 'o', 'l'])
def dave : AccountName := .ofBytes (ascii ['d', 'a', 'v', 'e'])
def erin : AccountName := .ofBytes (ascii ['e', 'r', 'i', 'n'])

/-- Bob needs carol, three levels down; alice needs her too, or the key 2. -/
def sharedCarol : Assignment where
  active id :=
    if id = alice.toBytes then anyOf [⟨2⟩] [carol]
    else if id = bob.toBytes then anyOf [] [dave]
    else if id = dave.toBytes then anyOf [] [erin]
    else if id = erin.toBytes then anyOf [] [carol]
    else if id = carol.toBytes then anyOf [⟨1⟩] []
    else anyOf [] []
  owner _ := anyOf [] []
  posting _ := anyOf [] []

/-- An operation that requires the authority by itself. -/
def requiring (auth : Authority) : Operation := .customBinary ⟨[], [], [], [auth], [], []⟩

theorem fit_sharedCarol {r : RequiredAuthorities} (h : r.other = []) : sharedCarol.Fit r where
  active id := by
    unfold sharedCarol
    simp only
    split_ifs <;> decide
  owner _ := show Fits (anyOf [] []) by decide
  posting _ := show Fits (anyOf [] []) by decide
  other auth hauth := by
    rw [h] at hauth
    cases hauth

/-- Carol is approved for alice, and bob lives on that: with the key 2 alice does without carol, and bob is missing.  In the
same way one order of two authorities passes and the other does not. -/
theorem a_further_signature_can_hurt :
    verifyAuthorityAt 2 sharedCarol.getters (requiredOf [.custom ⟨[alice, bob], []⟩]) [⟨1⟩] = .ok () ∧
    verifyAuthorityAt 2 sharedCarol.getters (requiredOf [.custom ⟨[alice, bob], []⟩]) [⟨1⟩, ⟨2⟩] =
      .error (.assertion "Missing Active Authority") ∧
    verifyAuthorityAt 2 sharedCarol.getters
      (requiredOf [requiring (anyOf [] [carol]), requiring (anyOf [] [dave])]) [⟨1⟩] = .ok () ∧
    verifyAuthorityAt 2 sharedCarol.getters
      (requiredOf [requiring (anyOf [] [dave]), requiring (anyOf [] [carol])]) [⟨1⟩] =
        .error (.assertion "Missing Authority") := by
  decide +kernel

/-- Four levels down nothing is cut. -/
theorem more_signatures_miss_nothing_witness :
    MissesNothing (verifyAuthorityAt 3 sharedCarol.getters (requiredOf [.custom ⟨[alice, bob], []⟩]) [⟨1⟩, ⟨2⟩]) :=
  (more_signatures_miss_nothing sharedCarol 3 [.custom ⟨[alice, bob], []⟩] (fit_sharedCarol rfl)).1 [⟨1⟩]
    ⟨fun h => h.1 (by decide +kernel), by decide +kernel⟩ [⟨1⟩, ⟨2⟩] _ (by decide) (.refl _)

end Sigmaengine
