import Sigmaengine.Consensus.MinimalSignatures
import Sigmaengine.Consensus.PotentialSignatures

/-!
# Required signatures

`get_required_signatures` runs the checks of `verify_authority` with the keys it is offered, and returns those that were
used.  With these keys the same checks take the same course.
-/

namespace Sigmaengine

open Effect SignState

/-! ## The same check with the keys that were used -/

section Mirrors

variable {available R : List PublicKey} {s v : SignState} {α β : Type}

/-- Keys are offered, and those that have been used are among them. -/
structure Offered (available : List PublicKey) (s : SignState) : Prop where
  offered : s.availableKeys = available
  used : ∀ p ∈ s.providedSignatures, p.2 = true ∧ p.1 ∈ available
  temp : tempId ∈ s.approvedBy

/-- The same approvals where the keys `R` have signed. -/
structure Twin (R : List PublicKey) (s v : SignState) : Prop where
  signed : ∀ k, Signed v k ↔ k ∈ R
  offered : v.availableKeys = []
  approved : v.approvedBy = s.approvedBy

/-- Where all keys used so far have signed, the program gives the same answer. -/
def Mirrors (available : List PublicKey) (p : Prog Error SignState α) : Prop :=
  ∀ s a s', Offered available s → p s = .ok a s' → Offered available s' ∧ (∀ k, Used s k → Used s' k) ∧
    ∀ R, R ⊆ available → (∀ k, Used s' k → k ∈ R) → ∀ v, Twin R s v → ∃ v', p v = .ok a v' ∧ Twin R s' v'

theorem mirrors_pure (a : α) : Mirrors available (pure a : Prog Error SignState α) := by
  intro s b s' hs h
  obtain ⟨rfl, rfl⟩ := pure_eq_ok.mp h
  exact ⟨hs, fun _ hk => hk, fun R _ _ v hv => ⟨v, rfl, hv⟩⟩

theorem mirrors_bind {x : Prog Error SignState α} {f : α → Prog Error SignState β} (hx : Mirrors available x)
    (hf : ∀ a, Mirrors available (f a)) : Mirrors available (x >>= f) := by
  intro s b s' hs h
  obtain ⟨a, t, hxa, hfa⟩ := bind_eq_ok.mp h
  obtain ⟨ht, hused, hmirror⟩ := hx s a t hs hxa
  obtain ⟨hs', hused', hmirror'⟩ := hf a t b s' ht hfa
  refine ⟨hs', fun k hk => hused' k (hused k hk), fun R hR hall v hv => ?_⟩
  obtain ⟨w, hw, htw⟩ := hmirror R hR (fun k hk => hall k (hused' k hk)) v hv
  obtain ⟨v', hv', htwin⟩ := hmirror' R hR hall w htw
  exact ⟨v', (bind_of_ok hw).trans hv', htwin⟩

theorem mirrors_signedBy (k : PublicKey) : Mirrors available (signedBy k) := by
  intro s b s' hs h
  have hyes : ∀ R v, k ∈ R → Twin R s v → signedBy k v = .ok true (mark k v) :=
    fun R v hk hv => signedBy_of_signed ((hv.signed k).mpr hk)
  have htwin : ∀ R v t, t.approvedBy = s.approvedBy → Twin R s v → Twin R t (mark k v) := by
    intro R v t happroved hv
    exact ⟨fun x => signed_mark.trans (hv.signed x), hv.offered, hv.approved.trans happroved.symm⟩
  unfold signedBy at h
  split at h
  · rename_i hsigned
    cases h
    have hsigned' := signed_iff.mpr hsigned
    have hused : ∀ x, Used (mark k s) x ↔ Used s x ∨ x ∈ [k] := fun x => used_mark hsigned'
    obtain ⟨b, hb⟩ := hsigned'
    refine ⟨⟨hs.offered, fun p hp => ?_, hs.temp⟩, fun x hx => (hused x).mpr (.inl hx), fun R _ hall v hv => ?_⟩
    · obtain ⟨q, hq, rfl⟩ := List.mem_map.mp hp
      split
      · exact ⟨rfl, (hs.used (k, b) hb).2⟩
      · exact hs.used q hq
    · exact ⟨mark k v, hyes R v (hall k ((hused k).mpr (.inr (List.mem_singleton.mpr rfl)))) hv, htwin R v _ rfl hv⟩
  · rename_i hunsigned
    split at h
    · rename_i hoffered
      cases h
      refine ⟨⟨hs.offered, fun p hp => ?_, hs.temp⟩, fun x hx => .tail _ hx, fun R _ hall v hv => ?_⟩
      · rcases List.mem_cons.mp hp with rfl | hp
        · exact ⟨rfl, hs.offered ▸ List.contains_iff_mem.mp hoffered⟩
        · exact hs.used p hp
      · exact ⟨mark k v, hyes R v (hall k (.head _)) hv, htwin R v _ rfl hv⟩
    · rename_i hnot
      cases h
      refine ⟨hs, fun _ hx => hx, fun R hR _ v hv => ⟨v, signedBy_of_not_signed hv.offered fun hk => hnot ?_, hv⟩⟩
      rw [hs.offered]
      exact List.contains_iff_mem.mpr (hR ((hv.signed k).mp hk))

theorem mirrors_approve (id : Bytes) : Mirrors available (approve id) := by
  intro s u s' hs h
  obtain rfl := modify_eq_ok.mp h
  refine ⟨⟨hs.offered, hs.used, .tail _ hs.temp⟩, fun _ hk => hk, fun R _ _ v hv => ⟨_, rfl, ?_⟩⟩
  exact ⟨hv.signed, hv.offered, congrArg (id :: ·) hv.approved⟩

theorem mirrors_checkKeys {threshold total : Nat} {ks : List (PublicKey × Nat)} :
    Mirrors available (checkKeys threshold ks total) := by
  induction ks generalizing total with
  | nil => exact mirrors_pure _
  | cons p ks ih =>
    obtain ⟨k, w⟩ := p
    unfold checkKeys
    refine mirrors_bind (mirrors_signedBy k) fun signed => ?_
    by_cases hmet : (signed && decide (threshold ≤ if signed then (total + w) % 4294967296 else total)) = true
    · simp only [hmet, if_true]
      exact mirrors_pure _
    · simp only [hmet, Bool.false_eq_true, if_false]
      exact ih

/-- `p` for an account that is approved, otherwise `q`. -/
def ifApproved (id : Bytes) (p q : Prog Error SignState α) : Prog Error SignState α := fun s =>
  if s.approvedBy.contains id = true then p s else q s

theorem mirrors_ifApproved {id : Bytes} {p q : Prog Error SignState α} (hp : Mirrors available p)
    (hq : Mirrors available q) : Mirrors available (ifApproved id p q) := by
  intro s a s' hs h
  have hsame : ∀ {R} {v : SignState}, Twin R s v → v.approvedBy.contains id = s.approvedBy.contains id :=
    fun hv => by rw [hv.approved]
  unfold ifApproved at h
  split at h
  · rename_i hkept
    obtain ⟨hs', hused, hmirror⟩ := hp s a s' hs h
    refine ⟨hs', hused, fun R hR hall v hv => ?_⟩
    obtain ⟨v', hv', htwin⟩ := hmirror R hR hall v hv
    refine ⟨v', ?_, htwin⟩
    unfold ifApproved
    rw [hsame hv, if_pos hkept]
    exact hv'
  · rename_i hnew
    obtain ⟨hs', hused, hmirror⟩ := hq s a s' hs h
    refine ⟨hs', hused, fun R hR hall v hv => ?_⟩
    obtain ⟨v', hv', htwin⟩ := hmirror R hR hall v hv
    refine ⟨v', ?_, htwin⟩
    unfold ifApproved
    rw [hsame hv, if_neg hnew]
    exact hv'

theorem checkAccounts_eq_ifApproved {threshold total : Nat} {check : Bytes → Prog Error SignState Bool}
    {a : AccountName} {w : Nat} {as : List (AccountName × Nat)} : checkAccounts threshold check ((a, w) :: as) total =
      ifApproved a.toBytes (pure true) (check a.toBytes) >>= fun b =>
        if b && threshold ≤ (if b then (total + w) % 4294967296 else total) then
          pure (if b then (total + w) % 4294967296 else total)
        else checkAccounts threshold check as (if b then (total + w) % 4294967296 else total) := by
  funext s
  rw [checkAccounts, bind_of_ok (get_apply s)]
  by_cases hkept : s.approvedBy.contains a.toBytes = true
  · have hfirst : ifApproved a.toBytes (pure true) (check a.toBytes) s = .ok true s := if_pos hkept
    rw [bind_of_ok hfirst, if_pos hkept]
    rfl
  · have hfirst : ifApproved a.toBytes (pure true) (check a.toBytes) s = check a.toBytes s := if_neg hkept
    rw [bind_congr_left hfirst, if_neg hkept]

theorem mirrors_checkAccounts {threshold total : Nat} {check : Bytes → Prog Error SignState Bool}
    {as : List (AccountName × Nat)} (hcheck : ∀ id, Mirrors available (check id)) :
    Mirrors available (checkAccounts threshold check as total) := by
  induction as generalizing total with
  | nil => exact mirrors_pure _
  | cons e as ih =>
    obtain ⟨a, w⟩ := e
    rw [checkAccounts_eq_ifApproved]
    refine mirrors_bind (mirrors_ifApproved (mirrors_pure true) (hcheck a.toBytes)) fun b => ?_
    by_cases hmet : (b && decide (threshold ≤ if b = true then (total + w) % 4294967296 else total)) = true
    · rw [if_pos hmet]
      exact mirrors_pure _
    · rw [if_neg hmet]
      exact ih

theorem mirrors_checkAuthority {nested : Bytes → Authority} {left : Nat} {auth : Authority} :
    Mirrors available (checkAuthority (fun id => some (nested id)) left auth) := by
  have hstep : ∀ (auth : Authority) (check : Bytes → Prog Error SignState Bool), (∀ id, Mirrors available (check id)) →
      Mirrors available (do
        let p ← checkKeys auth.weightThreshold auth.keyAuths 0
        if p.2 then pure true
        else do
          let total ← checkAccounts auth.weightThreshold check auth.accountAuths p.1
          pure (decide (auth.weightThreshold ≤ total))) := by
    intro auth check hcheck
    refine mirrors_bind mirrors_checkKeys fun p => ?_
    by_cases hmet : p.2 = true
    · simp only [hmet, if_true]
      exact mirrors_pure _
    · simp only [hmet, Bool.false_eq_true, if_false]
      exact mirrors_bind (mirrors_checkAccounts hcheck) fun t => mirrors_pure _
  induction left generalizing auth with
  | zero =>
    unfold checkAuthority
    exact hstep auth _ fun id => mirrors_pure _
  | succ left ih =>
    unfold checkAuthority
    refine hstep auth _ fun id => ?_
    show Mirrors available (checkAuthority (fun id => some (nested id)) left (nested id) >>= _)
    refine mirrors_bind ih fun ok => ?_
    split
    · exact mirrors_bind (mirrors_approve id) fun _ => mirrors_pure _
    · exact mirrors_pure _

theorem mirrors_checkStored {get nested : Bytes → Authority} {depth : Nat} {a : AccountName} :
    Mirrors available (checkStored (fun id => some (get id)) (fun id => some (nested id)) depth a) :=
  mirrors_checkAuthority

theorem mirrors_checkAccount {nested : Bytes → Authority} {depth : Nat} {id : Bytes} :
    Mirrors available (checkAccount (fun id => some (nested id)) depth id) := by
  have heq : checkAccount (fun id => some (nested id)) depth id =
      ifApproved id (pure true) (checkAuthority (fun id => some (nested id)) depth (nested id)) := by
    funext s
    unfold checkAccount ifApproved
    rw [bind_of_ok (get_apply s)]
    split
    · rfl
    · rfl
  rw [heq]
  exact mirrors_ifApproved (mirrors_pure true) mirrors_checkAuthority

end Mirrors

/-! ## The course of the checks -/

/-- One check without an alternative: it is met. -/
theorem requireOneOf_single {error : String} {p : Prog Error SignState Bool} {s s' : SignState}
    (h : requireOneOf error [p] s = .ok () s') : p s = .ok true s' := by
  obtain ⟨answer, t, hanswer, hrest⟩ := bind_eq_ok.mp h
  cases answer with
  | true =>
    obtain ⟨-, rfl⟩ := pure_eq_ok.mp hrest
    exact hanswer
  | false => exact (throw_eq_ok.mp hrest).elim

section Follows

variable {available R : List PublicKey} {p q p' q' : Prog Error SignState Unit}

/-- Where `p` returns with offered keys, `q` does where the used ones have signed. -/
def Follows (available : List PublicKey) (p q : Prog Error SignState Unit) : Prop :=
  ∀ s s', Offered available s → p s = .ok () s' → Offered available s' ∧ (∀ k, Used s k → Used s' k) ∧
    ∀ R, R ⊆ available → (∀ k, Used s' k → k ∈ R) → ∀ v, Twin R s v → ∃ v', q v = .ok () v' ∧ Twin R s' v'

theorem Follows.seq (h : Follows available p q) (h' : Follows available p' q') :
    Follows available (do p; p') (do q; q') := by
  intro s s' hs hrun
  obtain ⟨⟨⟩, t, hp, hp'⟩ := bind_eq_ok.mp hrun
  obtain ⟨ht, hused, hfollow⟩ := h s t hs hp
  obtain ⟨hs', hused', hfollow'⟩ := h' t s' ht hp'
  refine ⟨hs', fun k hk => hused' k (hused k hk), fun R hR hall v hv => ?_⟩
  obtain ⟨w, hw, htw⟩ := hfollow R hR (fun k hk => hall k (hused' k hk)) v hv
  obtain ⟨v', hv', htwin⟩ := hfollow' R hR hall w htw
  exact ⟨v', (bind_of_ok hw).trans hv', htwin⟩

theorem follows_nothing : Follows available (pure ()) (pure ()) := by
  intro s s' hs hrun
  obtain ⟨-, rfl⟩ := pure_eq_ok.mp hrun
  exact ⟨hs, fun _ hk => hk, fun R _ _ v hv => ⟨v, rfl, hv⟩⟩

/-- Checks that are all met, each the first of its alternatives. -/
theorem follows_each {β : Type} {check : β → Prog Error SignState Bool} {error error' : String}
    {others : β → List (Prog Error SignState Bool)} {bs : List β} (hcheck : ∀ b, Mirrors available (check b)) :
    Follows available (each (fun b => requireOneOf error [check b]) bs)
      (each (fun b => requireOneOf error' (check b :: others b)) bs) := by
  induction bs with
  | nil => exact follows_nothing
  | cons b bs ih =>
    refine Follows.seq (fun s s' hs hrun => ?_) ih
    obtain ⟨ht, hused, hmirror⟩ := hcheck b s true s' hs (requireOneOf_single hrun)
    refine ⟨ht, hused, fun R hR hall v hv => ?_⟩
    obtain ⟨v', hv', htwin⟩ := hmirror R hR hall v hv
    refine ⟨v', ?_, htwin⟩
    show (check b >>= _) v = _
    rw [bind_of_ok hv', if_pos rfl]
    rfl

theorem offered_init (available : List PublicKey) : Offered available (SignState.init [] available) :=
  ⟨rfl, fun _ hp => absurd hp List.not_mem_nil, List.mem_singleton.mpr rfl⟩

theorem twin_init (available R : List PublicKey) : Twin R (SignState.init [] available) (SignState.init R []) := by
  refine ⟨fun k => ?_, rfl, rfl⟩
  simp [Signed, SignState.init]

end Follows

/-! ## The first choices -/

section Choices

variable {g : Assignment} {r : RequiredAuthorities} {depth : Nat} {available R : List PublicKey}

/-- The checks of `get_required_signatures`, each of which has to be met. -/
def checkFirst (getters : AuthorityGetters) (depth : Nat) (r : RequiredAuthorities) : Prog Error SignState Unit :=
  if r.posting ≠ [] then
    each (fun a => requireOneOf "Missing Posting Authority" [checkAccount getters.getPosting depth a.toBytes]) r.posting
  else do
    each (fun auth => requireOneOf "Missing Authority" [checkAuthority getters.getActive depth auth]) r.other
    each (fun a => requireOneOf "Missing Owner Authority" [checkStored getters.getOwner getters.getActive depth a]) r.owner
    each (fun a => requireOneOf "Missing Active Authority" [checkAccount getters.getActive depth a.toBytes]) r.active

/-- The offered keys meet each authority that `get_required_signatures` asks for, one after the other: for an account
this one, and not only an alternative. -/
structure FirstChoices (g : Assignment) (r : RequiredAuthorities) (depth : Nat) (available : List PublicKey) : Prop where
  unmixed : ¬ Mixed r
  met : succeeds (checkFirst g.getters depth r (SignState.init [] available)) = true

theorem each_of_met {β : Type} {check : β → Prog Error SignState Bool} {error : String} {bs : List β}
    {s s' : SignState} (h : each (fun b => requireOneOf error [check b]) bs s = .ok () s') :
    each (fun b => do let _ ← check b) bs s = .ok () s' := by
  induction bs generalizing s with
  | nil => exact h
  | cons b bs ih =>
    obtain ⟨_, t, hone, hrest⟩ := bind_eq_ok.mp h
    have hdiscard : (do let _ ← check b : Prog Error SignState Unit) s = .ok () t := by
      rw [bind_of_ok (requireOneOf_single hone)]
      rfl
    unfold each
    rw [bind_of_ok hdiscard]
    exact ih hrest

/-- The keys used are the same whether the answers matter or not. -/
theorem useSignatures_of_checkFirst {s s' : SignState} (hmixed : ¬ Mixed r)
    (h : checkFirst g.getters depth r s = .ok () s') : useSignatures g.getters depth r s = .ok () s' := by
  unfold checkFirst at h
  unfold useSignatures
  by_cases hposting : r.posting ≠ []
  · unfold Mixed at hmixed
    push Not at hmixed
    obtain ⟨hactive, howner, -⟩ := hmixed hposting
    rw [if_pos hposting] at h ⊢
    rw [hactive, howner]
    exact each_of_met h
  · rw [if_neg hposting] at h ⊢
    obtain ⟨_, t, hother, h⟩ := bind_eq_ok.mp h
    obtain ⟨_, u, howner, hactive⟩ := bind_eq_ok.mp h
    rw [bind_of_ok (each_of_met hother), bind_of_ok (each_of_met howner)]
    exact each_of_met hactive

/-- Posting, or active, or owner authority: the checks come in the same order. -/
theorem follows_checkRequired (hmixed : ¬ Mixed r) (hone : r.posting ≠ [] ∨ r.active = [] ∨ r.owner = []) :
    Follows available (checkFirst g.getters depth r) (checkRequired g.getters depth r) := by
  unfold checkFirst
  by_cases hposting : r.posting ≠ []
  · rw [checkRequired_posting _ hposting hmixed, if_pos hposting]
    exact follows_each fun a => mirrors_checkAccount
  · rw [if_neg hposting, checkRequired_active _ (not_not.mp hposting)]
    refine Follows.seq (follows_each fun auth => mirrors_checkAuthority) ?_
    have hactive := @follows_each available _ (fun a : AccountName => checkAccount g.getters.getActive depth a.toBytes)
      "Missing Active Authority" "Missing Active Authority"
      (fun a => [checkStored g.getters.getOwner g.getters.getActive depth a]) r.active fun a => mirrors_checkAccount
    have howner := @follows_each available _ (checkStored g.getters.getOwner g.getters.getActive depth)
      "Missing Owner Authority" "Missing Owner Authority" (fun _ => []) r.owner fun a => mirrors_checkStored
    rcases hone.resolve_left hposting with hnone | hnone
    · rw [hnone]
      simp only [each, pure_bind, bind_pure_unit]
      exact howner
    · rw [hnone]
      simp only [each, pure_bind, bind_pure_unit]
      exact hactive

theorem follows_checkFirst (hposting : r.posting = []) :
    Follows available (checkFirst g.getters depth r) (checkFirst g.getters depth r) := by
  unfold checkFirst
  rw [if_neg (not_not.mpr hposting)]
  refine Follows.seq (follows_each fun auth => ?_) (Follows.seq (follows_each fun a => ?_) (follows_each fun a => ?_))
  · exact mirrors_checkAuthority
  · exact mirrors_checkStored
  · exact mirrors_checkAccount

/-- The first choices in the order of `get_required_signatures`, with exceptions. -/
def firstGroups (g : Assignment) (r : RequiredAuthorities) : List (String × List (List Alternative)) :=
  [("Missing Authority", r.other.map fun auth => [.authority auth]),
    ("Missing Owner Authority", r.owner.map fun a => [.authority (g.owner a.toBytes)]),
    ("Missing Active Authority", r.active.map fun a => [.account a.toBytes])]

theorem checkFirst_asks (hfit : g.Fit r) (huncut : Uncut g r depth) (hposting : r.posting = []) :
    Asks R g.active depth (firstGroups g r) (checkFirst g.getters depth r) := by
  have hnested : g.nested r = g.active := if_neg (not_not.mpr hposting)
  unfold Uncut Assignment.groups at huncut
  rw [if_neg (not_not.mpr hposting), hnested] at huncut
  simp only [List.forall_mem_cons, List.forall_mem_map] at huncut
  obtain ⟨hother, hactive, howner, -⟩ := huncut
  unfold checkFirst firstGroups
  rw [if_neg (not_not.mpr hposting)]
  refine asks_cons (fun auth hauth => ?_) (asks_cons (fun a ha => ?_) (asks_last fun a ha => ?_))
  · exact .cons (checkAuthority_exact hfit.active depth (hfit.other auth hauth) (hother auth hauth).1) .nil
  · exact .cons (finds_stored hfit.active (hfit.owner _) (howner a ha).1) .nil
  · exact .cons (finds_account hfit.active (hactive a ha).1) .nil

/-- The first choices are among the alternatives. -/
theorem verdict_of_firstGroups (hposting : r.posting = []) (h : verdict R g.active depth (firstGroups g r) = none) :
    verdict R (g.nested r) depth (g.groups r) = none := by
  have hnested : g.nested r = g.active := if_neg (not_not.mpr hposting)
  rw [verdict_eq_none, firstGroups] at h
  rw [verdict_eq_none, Assignment.groups, if_neg (not_not.mpr hposting), hnested]
  simp only [List.forall_mem_cons, List.forall_mem_map, tryAll_fst] at h ⊢
  obtain ⟨hother, howner, hactive, -⟩ := h
  refine ⟨hother, fun a ha => ?_, howner, fun gr hgr => absurd hgr List.not_mem_nil⟩
  obtain ⟨alt, halt, hmet⟩ := hactive a ha
  exact ⟨alt, List.mem_singleton.mp halt ▸ List.mem_cons_self, hmet⟩

end Choices

/-! ## Required signatures -/

section Required

variable {cd : Codec} {trx : SignedTransaction} {g : Assignment} {depth : Nat} {available : List PublicKey}

/-- What is returned are the offered keys that were used. -/
theorem getRequiredSignatures_of_run (hunsigned : trx.signatures = []) {s : SignState}
    (hrun : useSignatures g.getters depth (requiredOf trx.operations) (SignState.init [] available) = .ok () s) :
    ∃ required, trx.getRequiredSignatures cd available g.getters depth = .ok required ∧
      ∀ k, k ∈ required ↔ Used s k ∧ k ∈ available := by
  have hsigs : trx.getSignatureKeys cd = .ok [] := by
    unfold SignedTransaction.getSignatureKeys
    rw [hunsigned]
    rfl
  refine ⟨keySet (((s.providedSignatures.filter (·.2)).map Prod.fst).filter available.contains), ?_, fun k => ?_⟩
  · unfold SignedTransaction.getRequiredSignatures
    rw [hsigs]
    simp only [bind, Except.bind]
    rw [hrun]
    rfl
  · rw [mem_keySet_iff, List.mem_filter, List.contains_iff_mem]
    refine and_congr_left fun _ => ?_
    unfold Used
    simp

/-- **Required signatures.**  Where the offered keys meet what is checked, and the checks come in the order of
`verify_authority` or nothing is cut, no authority is missing with the keys that are returned. -/
theorem required_signatures (hunsigned : trx.signatures = [])
    (hchoices : FirstChoices g (requiredOf trx.operations) depth available)
    (horder : (requiredOf trx.operations).posting ≠ [] ∨ (requiredOf trx.operations).active = [] ∨
      (requiredOf trx.operations).owner = [] ∨
        g.Fit (requiredOf trx.operations) ∧ Uncut g (requiredOf trx.operations) depth) :
    ∃ required, trx.getRequiredSignatures cd available g.getters depth = .ok required ∧
      MissesNothing (verifyAuthorityAt depth g.getters (requiredOf trx.operations) required) := by
  obtain ⟨hmixed, hmet⟩ := hchoices
  obtain ⟨s', hmet⟩ : ∃ s', checkFirst g.getters depth (requiredOf trx.operations) (SignState.init [] available) =
      .ok () s' := ⟨_, eq_ok_of_succeeds hmet⟩
  obtain ⟨required, hrequired, hmem⟩ := @getRequiredSignatures_of_run cd trx g depth available hunsigned s'
    (useSignatures_of_checkFirst hmixed hmet)
  refine ⟨required, hrequired, ?_⟩
  have hsub : required ⊆ available := fun k hk => ((hmem k).mp hk).2
  have hs := offered_init available
  by_cases hone : (requiredOf trx.operations).posting ≠ [] ∨ (requiredOf trx.operations).active = [] ∨
      (requiredOf trx.operations).owner = []
  · obtain ⟨hs', -, hfollow⟩ := follows_checkRequired hmixed hone _ _ hs hmet
    have hall : ∀ k, Used s' k → k ∈ required := fun k hk => (hmem k).mpr ⟨hk, (hs'.used (k, true) hk).2⟩
    obtain ⟨v', hv', -⟩ := hfollow required hsub hall _ (twin_init available required)
    unfold verifyAuthorityAt MissesNothing
    rw [hv']
    simp only
    split
    · exact .inr rfl
    · exact .inl rfl
  · push Not at hone
    obtain ⟨hposting, hactive, howner⟩ := hone
    obtain ⟨hfit, huncut⟩ := ((horder.resolve_left (not_not.mpr hposting)).resolve_left hactive).resolve_left howner
    obtain ⟨hs', -, hfollow⟩ := follows_checkFirst hposting _ _ hs hmet
    have hall : ∀ k, Used s' k → k ∈ required := fun k hk => (hmem k).mpr ⟨hk, (hs'.used (k, true) hk).2⟩
    obtain ⟨v', hv', -⟩ := hfollow required hsub hall _ (twin_init available required)
    refine missesNothing_of_verdict hfit hmixed (verdict_of_firstGroups hposting ?_)
    obtain ⟨-, hmissing⟩ := checkFirst_asks hfit huncut hposting _ (exact_init required g.active)
    cases hverdict : verdict required g.active depth (firstGroups g (requiredOf trx.operations)) with
    | none => rfl
    | some text =>
      obtain ⟨w, hw⟩ := hmissing text hverdict
      rw [hv'] at hw
      cases hw

end Required

/-- One key for everything. -/
def oneKey : Assignment where
  active _ := anyOf [⟨1⟩] []
  owner _ := anyOf [⟨1⟩] []
  posting _ := anyOf [⟨1⟩] []

/-- An operation of alice that needs her posting authority. -/
def postingOfAlice : SignedTransaction where
  refBlockNum := 0
  refBlockPrefix := 0
  expiration := 0
  operations := [.customJson ⟨[], [alice], [], []⟩]
  signatures := []

/-- Alice and bob sign: carol is approved for alice, and counts for bob, who has her below the bound. -/
def signedByBoth : SignedTransaction where
  refBlockNum := 0
  refBlockPrefix := 0
  expiration := 0
  operations := [.custom ⟨[alice, bob], []⟩]
  signatures := []

/-- Everybody has the posting key 1, the active key 2 and the owner key 3. -/
def threeKeys : Assignment where
  active _ := anyOf [⟨2⟩] []
  owner _ := anyOf [⟨3⟩] []
  posting _ := anyOf [⟨1⟩] []

end Sigmaengine
