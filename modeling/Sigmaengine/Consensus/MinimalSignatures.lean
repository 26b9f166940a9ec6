import Sigmaengine.Consensus.MoreSignatures
import Sigmaengine.Lib.Shrink
import Sigmaengine.Protocol.Merkle

/-!
# Minimal signatures

What `minimize_required_signatures` makes of the keys that `get_required_signatures` returns.
-/

namespace Sigmaengine

open Effect Shrink

/-! ## Sets of keys -/

section KeySets

variable {k x : PublicKey} {ks : List PublicKey}

theorem mem_insertKey (h : x ∈ insertKey k ks) : x = k ∨ x ∈ ks := by
  induction ks with
  | nil => exact .inl (List.mem_singleton.mp h)
  | cons y ys ih =>
    unfold insertKey at h
    split at h
    · exact List.mem_cons.mp h
    · split at h
      · exact .inr h
      · rcases List.mem_cons.mp h with rfl | h
        · exact .inr (.head _)
        · exact (ih h).imp_right (.tail _)

theorem insertKey_sorted (h : ks.Pairwise fun a b => a.data < b.data) :
    (insertKey k ks).Pairwise fun a b => a.data < b.data := by
  induction ks with
  | nil => exact List.pairwise_singleton _ _
  | cons y ys ih =>
    obtain ⟨hy, hys⟩ := List.pairwise_cons.mp h
    unfold insertKey
    split
    · rename_i hlt
      refine .cons (fun z hz => ?_) h
      rcases List.mem_cons.mp hz with rfl | hz
      · exact hlt
      · exact hlt.trans (hy z hz)
    · split
      · exact h
      · refine .cons (fun z hz => ?_) (ih hys)
        rcases mem_insertKey hz with rfl | hz
        · omega
        · exact hy z hz

theorem keySet_sorted (ks : List PublicKey) : (keySet ks).Pairwise fun a b => a.data < b.data := by
  induction ks with
  | nil => exact .nil
  | cons k ks ih => exact insertKey_sorted ih

theorem keySet_nodup (ks : List PublicKey) : (keySet ks).Nodup := by
  refine (keySet_sorted ks).imp fun h => ?_
  rintro rfl
  omega

theorem getRequiredSignatures_nodup {cd : Codec} {trx : SignedTransaction} {available required : List PublicKey}
    {g : AuthorityGetters} {depth : Nat} (h : trx.getRequiredSignatures cd available g depth = .ok required) :
    required.Nodup := by
  unfold SignedTransaction.getRequiredSignatures at h
  cases hsigs : trx.getSignatureKeys cd with
  | error e =>
    rw [hsigs] at h
    cases h
  | ok sigs =>
    simp only [hsigs, bind, Except.bind] at h
    split at h
    · cases h
    · cases h
      exact keySet_nodup _

end KeySets

/-! ## Dropping keys -/

/-- The keys are accepted. -/
def Accepts (verify : List PublicKey → Except Error Unit) (keys : List PublicKey) : Prop := verify keys = .ok ()

instance (verify : List PublicKey → Except Error Unit) : DecidablePred (Accepts verify) :=
  fun keys => inferInstanceAs (Decidable (verify keys = .ok ()))

/-- Some authority is missing. -/
def Misses (verify : List PublicKey → Except Error Unit) (keys : List PublicKey) : Prop :=
  ∃ e ∈ missingAuthority, verify keys = .error e

section Dropping

variable {verify : List PublicKey → Except Error Unit} {ks keys result : List PublicKey}

/-- What the loop returns is what is left when each key is taken out that the rest does without. -/
theorem eq_shrink_of_dropKeys (h : dropKeys verify ks keys = .ok result) : result = shrink (Accepts verify) ks keys := by
  induction ks generalizing keys with
  | nil => exact (Except.ok.inj h).symm
  | cons k ks ih =>
    unfold dropKeys at h
    unfold shrink
    by_cases hrest : Accepts verify (keys.erase k)
    · rw [if_pos hrest]
      rw [show verify (keys.erase k) = .ok () from hrest] at h
      exact ih h
    · rw [if_neg hrest]
      cases herror : verify (keys.erase k) with
      | ok u => exact absurd herror hrest
      | error e =>
        rw [herror] at h
        simp only at h
        split at h
        · exact ih h
        · cases h

/-- The loop returns when a key that is taken out of accepted ones leaves accepted ones or a missing authority. -/
theorem dropKeys_eq_ok (hcaught : ∀ keys k, Accepts verify keys → Accepts verify (keys.erase k) ∨ Misses verify (keys.erase k))
    (haccepted : Accepts verify keys) : dropKeys verify ks keys = .ok (shrink (Accepts verify) ks keys) := by
  induction ks generalizing keys with
  | nil => rfl
  | cons k ks ih =>
    unfold dropKeys shrink
    rcases hcaught keys k haccepted with hrest | hmissing
    · rw [if_pos hrest, show verify (keys.erase k) = .ok () from hrest]
      exact ih hrest
    · obtain ⟨e, he, hrest⟩ := hmissing
      have hnot : ¬ Accepts verify (keys.erase k) := by
        unfold Accepts
        rw [hrest]
        exact fun h => by cases h
      rw [if_neg hnot, hrest]
      simp only [List.contains_iff_mem, he, if_true]
      exact ih haccepted

end Dropping

/-! ## Where nothing is cut -/

section Uncut

variable {g : Assignment} {r : RequiredAuthorities} {depth : Nat} {keys keys' : List PublicKey}

theorem usedFor_anti {nested : Bytes → Authority} {groups : List (String × List (List Alternative))} (hsub : keys ⊆ keys')
    {k : PublicKey} (hk : k ∈ usedFor keys' nested depth groups) (hold : k ∈ keys) :
    k ∈ usedFor keys nested depth groups := by
  obtain ⟨gr, hgr, alts, halts, hk⟩ := mem_usedFor.mp hk
  exact mem_usedFor.mpr ⟨gr, hgr, alts, halts, tryAll_anti hsub k hk hold⟩

variable (hfit : g.Fit r) (huncut : Uncut g r depth) (hmixed : ¬ Mixed r)

include hfit huncut hmixed

theorem accepts_iff : Accepts (verifyAuthorityAt depth g.getters r) keys ↔
    verdict keys (g.nested r) depth (g.groups r) = none ∧ ∀ k ∈ keys, k ∈ usedFor keys (g.nested r) depth (g.groups r) := by
  unfold Accepts
  rw [verifyAuthorityAt_eq hfit huncut hmixed]
  cases verdict keys (g.nested r) depth (g.groups r) with
  | some text => simp
  | none =>
    simp only [true_and]
    constructor
    · intro h
      by_contra hnot
      rw [if_neg hnot] at h
      cases h
    · exact fun h => if_pos h

theorem misses_iff : Misses (verifyAuthorityAt depth g.getters r) keys ↔
    verdict keys (g.nested r) depth (g.groups r) ≠ none := by
  unfold Misses
  rw [verifyAuthorityAt_eq hfit huncut hmixed]
  cases hverdict : verdict keys (g.nested r) depth (g.groups r) with
  | some text => simpa using mem_missingAuthority hverdict
  | none =>
    simp only [ne_eq, not_true_eq_false, iff_false]
    rintro ⟨e, he, h⟩
    split at h
    · cases h
    · cases h
      exact unnecessarySignature_not_missing he

/-- Keys taken out of accepted ones leave accepted ones or a missing authority: what was used stays in use. -/
theorem accepts_or_misses (hsub : keys ⊆ keys') (h : Accepts (verifyAuthorityAt depth g.getters r) keys') :
    Accepts (verifyAuthorityAt depth g.getters r) keys ∨ Misses (verifyAuthorityAt depth g.getters r) keys := by
  rw [accepts_iff hfit huncut hmixed] at h ⊢
  rw [misses_iff hfit huncut hmixed]
  by_cases hverdict : verdict keys (g.nested r) depth (g.groups r) = none
  · exact .inl ⟨hverdict, fun k hk => usedFor_anti hsub (h.2 k (hsub hk)) hk⟩
  · exact .inr hverdict

theorem Misses.anti (hsub : keys ⊆ keys') (h : Misses (verifyAuthorityAt depth g.getters r) keys') :
    Misses (verifyAuthorityAt depth g.getters r) keys := by
  rw [misses_iff hfit huncut hmixed] at h ⊢
  exact fun hnone => h (verdict_mono hsub hnone)

end Uncut

/-- **Minimised signatures.**  What is returned is accepted and contains nothing new.  Where nothing is cut something is
returned, and no key can be removed from it without losing a required authority. -/
theorem minimized_signatures (cd : Codec) (trx : SignedTransaction) (available required : List PublicKey) (g : Assignment)
    (depth : Nat) (hrequired : trx.getRequiredSignatures cd available g.getters depth = .ok required)
    (haccepted : verifyAuthorityAt depth g.getters (requiredOf trx.operations) required = .ok ()) :
    (∀ result, trx.minimizeRequiredSignatures cd available g.getters depth = .ok result →
      result.Sublist required ∧ verifyAuthorityAt depth g.getters (requiredOf trx.operations) result = .ok ()) ∧
    (g.Fit (requiredOf trx.operations) → Uncut g (requiredOf trx.operations) depth →
      ∃ result, trx.minimizeRequiredSignatures cd available g.getters depth = .ok result ∧
        ∀ k ∈ result, ∃ e ∈ missingAuthority,
          verifyAuthorityAt depth g.getters (requiredOf trx.operations) (result.erase k) = .error e) := by
  have hrun : trx.minimizeRequiredSignatures cd available g.getters depth =
      dropKeys (verifyAuthorityAt depth g.getters (requiredOf trx.operations)) required required := by
    unfold SignedTransaction.minimizeRequiredSignatures
    rw [hrequired]
    rfl
  rw [hrun]
  constructor
  · intro result h
    rw [eq_shrink_of_dropKeys h]
    exact ⟨shrink_sublist, @holds_shrink _ _ (Accepts _) _ _ _ haccepted⟩
  · intro hfit huncut
    have hmixed : ¬ Mixed (requiredOf trx.operations) := not_mixed_of_missesNothing (.inl haccepted)
    refine ⟨_, dropKeys_eq_ok (fun keys k h => ?_) haccepted, fun k hk => ?_⟩
    · exact accepts_or_misses hfit huncut hmixed List.erase_subset h
    · show Misses (verifyAuthorityAt depth g.getters (requiredOf trx.operations)) _
      refine lost_erase_shrink (fun ys c h hnot => ?_) (fun ys zs hsub h => ?_) haccepted
        (getRequiredSignatures_nodup hrequired) (shrink_sublist.subset hk) hk
      · exact (accepts_or_misses hfit huncut hmixed List.erase_subset h).resolve_left hnot
      · exact h.anti hfit huncut hmixed hsub.subset

/-! ### Approvals that come and go -/

def frank : AccountName := .ofBytes (ascii ['f', 'r', 'a', 'n', 'k'])
def zoe : AccountName := .ofBytes (ascii ['z', 'o', 'e'])

/-- Carol and frank have the key 2.  Alice needs a key or carol, and carol is three levels below dave. -/
def threeNeeds (aliceKey : PublicKey) (bobs : Authority) : Assignment where
  active id :=
    if id = alice.toBytes then anyOf [aliceKey] [carol]
    else if id = bob.toBytes then bobs
    else if id = carol.toBytes then anyOf [⟨2⟩] []
    else if id = dave.toBytes then anyOf [] [erin]
    else if id = erin.toBytes then anyOf [] [carol]
    else if id = frank.toBytes then anyOf [⟨2⟩] []
    else if id = zoe.toBytes then anyOf [⟨3⟩] []
    else anyOf [] []
  owner _ := anyOf [] []
  posting _ := anyOf [] []

/-- A transaction of the three. -/
def trxOfThree : SignedTransaction where
  refBlockNum := 0
  refBlockPrefix := 0
  expiration := 0
  operations := [.custom ⟨[alice, bob, frank], []⟩]
  signatures := []

/-- Without the key of alice, bob is approved by dave and the key of zoe is not used any more: the loop throws.  And where the
last key goes, bob's own key is no longer needed, which the loop has kept. -/
theorem minimized_signatures_can_fail :
    (trxOfThree.getRequiredSignatures pairingCodec [⟨1⟩, ⟨2⟩, ⟨3⟩] (threeNeeds ⟨1⟩ (anyOf [] [dave, zoe])).getters 2 =
        .ok [⟨1⟩, ⟨2⟩, ⟨3⟩] ∧
      verifyAuthorityAt 2 (threeNeeds ⟨1⟩ (anyOf [] [dave, zoe])).getters (requiredOf trxOfThree.operations)
        [⟨1⟩, ⟨2⟩, ⟨3⟩] = .ok () ∧
      trxOfThree.minimizeRequiredSignatures pairingCodec [⟨1⟩, ⟨2⟩, ⟨3⟩]
        (threeNeeds ⟨1⟩ (anyOf [] [dave, zoe])).getters 2 = .error unnecessarySignature) ∧
    trxOfThree.getRequiredSignatures pairingCodec [⟨1⟩, ⟨2⟩, ⟨3⟩] (threeNeeds ⟨3⟩ (anyOf [⟨1⟩] [dave])).getters 2 =
        .ok [⟨1⟩, ⟨2⟩, ⟨3⟩] ∧
      verifyAuthorityAt 2 (threeNeeds ⟨3⟩ (anyOf [⟨1⟩] [dave])).getters (requiredOf trxOfThree.operations)
        [⟨1⟩, ⟨2⟩, ⟨3⟩] = .ok () ∧
      trxOfThree.minimizeRequiredSignatures pairingCodec [⟨1⟩, ⟨2⟩, ⟨3⟩] (threeNeeds ⟨3⟩ (anyOf [⟨1⟩] [dave])).getters 2 =
        .ok [⟨1⟩, ⟨2⟩] ∧
      verifyAuthorityAt 2 (threeNeeds ⟨3⟩ (anyOf [⟨1⟩] [dave])).getters (requiredOf trxOfThree.operations) [⟨2⟩] =
        .ok () := by
  decide +kernel

/-- One level more, and one key is left. -/
theorem minimized_signatures_witness :
    trxOfThree.minimizeRequiredSignatures pairingCodec [⟨1⟩, ⟨2⟩, ⟨3⟩] (threeNeeds ⟨3⟩ (anyOf [⟨1⟩] [dave])).getters 3 =
        .ok [⟨2⟩] ∧
      List.Sublist [⟨2⟩] ([⟨1⟩, ⟨2⟩, ⟨3⟩] : List PublicKey) ∧
      verifyAuthorityAt 3 (threeNeeds ⟨3⟩ (anyOf [⟨1⟩] [dave])).getters (requiredOf trxOfThree.operations) [⟨2⟩] = .ok () := by
  have hresult : trxOfThree.minimizeRequiredSignatures pairingCodec [⟨1⟩, ⟨2⟩, ⟨3⟩]
      (threeNeeds ⟨3⟩ (anyOf [⟨1⟩] [dave])).getters 3 = .ok [⟨2⟩] := by decide +kernel
  exact ⟨hresult, (minimized_signatures pairingCodec trxOfThree [⟨1⟩, ⟨2⟩, ⟨3⟩] [⟨1⟩, ⟨2⟩, ⟨3⟩]
    (threeNeeds ⟨3⟩ (anyOf [⟨1⟩] [dave])) 3 (by decide +kernel) (by decide +kernel)).1 [⟨2⟩] hresult⟩

end Sigmaengine
