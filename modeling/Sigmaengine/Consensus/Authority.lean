import Sigmaengine.Ledger.Runs
import Sigmaengine.Protocol.Signatures

/-!
# Who has authorised a transaction

`Satisfied` says inductively when keys satisfy an authority.  `sign_state` decides it with a cut at a
fixed depth and a cache of approved accounts; both only make it answer `false` more often (`SignState.Sound`).

The checker knows accounts by the `std::string` of their names, so what it approves is about the right
account only for names that survive the conversion (`Plain`).
-/

namespace Sigmaengine

open Effect Table

/-! ## Satisfaction -/

/-- The keys satisfy the authority: those that signed and the account entries that are approved carry
enough weight together.  `nested` is the authority an account entry stands for. -/
inductive Satisfied (keys : List PublicKey) (nested : AccountName → Option Authority) : Authority → Prop
  | intro (auth : Authority) (ks : List (PublicKey × Nat)) (as : List (AccountName × Nat))
      (own : AccountName → Authority) (hks : ks.Sublist auth.keyAuths) (hsigned : ∀ k ∈ ks, k.1 ∈ keys)
      (has : as.Sublist auth.accountAuths)
      (hown : ∀ a ∈ as, a.1 ≠ tempAccount → nested a.1 = some (own a.1))
      (happroved : ∀ a ∈ as, a.1 ≠ tempAccount → Satisfied keys nested (own a.1))
      (hweight : auth.weightThreshold ≤ (ks.map Prod.snd).sum + (as.map Prod.snd).sum) :
      Satisfied keys nested auth

variable {keys : List PublicKey} {nested : AccountName → Option Authority}

/-- The authority that `get` has for the account is satisfied. -/
def Meets (keys : List PublicKey) (nested get : AccountName → Option Authority) (a : AccountName) : Prop :=
  ∃ auth, get a = some auth ∧ Satisfied keys nested auth

/-- The account `temp`, or one whose own authority is satisfied. -/
def Approved (keys : List PublicKey) (nested : AccountName → Option Authority) (a : AccountName) : Prop :=
  a = tempAccount ∨ Meets keys nested nested a

theorem satisfied_of_weights {auth : Authority} {ks : List (PublicKey × Nat)} {as : List (AccountName × Nat)}
    (hks : ks.Sublist auth.keyAuths) (hsigned : ∀ k ∈ ks, k.1 ∈ keys) (has : as.Sublist auth.accountAuths)
    (happroved : ∀ a ∈ as, Approved keys nested a.1)
    (hweight : auth.weightThreshold ≤ (ks.map Prod.snd).sum + (as.map Prod.snd).sum) :
    Satisfied keys nested auth := by
  have hmeets : ∀ a ∈ as, a.1 ≠ tempAccount → Meets keys nested nested a.1 := by
    intro a ha hne
    rcases happroved a ha with heq | hmeets
    · exact absurd heq hne
    · exact hmeets
  refine .intro auth ks as (fun a => (nested a).getD default) hks hsigned has ?_ ?_ hweight
  · intro a ha hne
    obtain ⟨x, hx, -⟩ := hmeets a ha hne
    rw [hx, Option.getD_some]
  · intro a ha hne
    obtain ⟨x, hx, hsat⟩ := hmeets a ha hne
    rwa [hx, Option.getD_some]

theorem satisfied_of_open {auth : Authority} (h : auth.weightThreshold = 0) : Satisfied keys nested auth :=
  satisfied_of_weights (List.nil_sublist _) (by simp) (List.nil_sublist _) (by simp) (by omega)

/-! ## Names as strings -/

/-- The name survives the conversion to `std::string` and back. -/
def Plain (a : AccountName) : Prop := FixedString.ofBytes a.toBytes = a

instance (a : AccountName) : Decidable (Plain a) := inferInstanceAs (Decidable (_ = _))

/-- The name that the checker knows the account by. -/
def shownName (a : AccountName) : AccountName := .ofBytes a.toBytes

/-- The name survives, or what is left of it is not the name of an account that the keys satisfy. -/
def ToldApart (keys : List PublicKey) (nested : AccountName → Option Authority) (a : AccountName) : Prop :=
  Plain a ∨ ¬ Approved keys nested (shownName a)

theorem ToldApart.approved {a : AccountName} (h : ToldApart keys nested a) (happroved : Approved keys nested (shownName a)) :
    Approved keys nested a := by
  rcases h with hplain | hnot
  · rwa [← hplain]
  · exact absurd happroved hnot

def Authority.entryNames (auth : Authority) : List AccountName := auth.accountAuths.map Prod.fst

/-- The names that the check of an authority comes across: its account entries, and `left` times those of the
authorities they stand for. -/
def namesBelow (nested : AccountName → Option Authority) : Nat → Authority → List AccountName
  | 0, auth => auth.entryNames
  | left + 1, auth =>
    auth.entryNames ++
      auth.entryNames.flatMap fun a => (nested (shownName a)).toList.flatMap (namesBelow nested left)

/-- The check of the authority comes across no name that is taken for an approved account. -/
def ToldBelow (keys : List PublicKey) (nested : AccountName → Option Authority) (left : Nat) (auth : Authority) :
    Prop := ∀ a ∈ namesBelow nested left auth, ToldApart keys nested a

theorem ToldBelow.entries {left : Nat} {auth : Authority} (h : ToldBelow keys nested left auth) :
    ∀ e ∈ auth.accountAuths, ToldApart keys nested e.1 := by
  intro e he
  have hname : e.1 ∈ auth.entryNames := List.mem_map_of_mem he
  refine h _ ?_
  cases left with
  | zero => exact hname
  | succ left => exact List.mem_append_left _ hname

theorem ToldBelow.below {left : Nat} {auth own : Authority} (h : ToldBelow keys nested (left + 1) auth)
    {e : AccountName × Nat} (he : e ∈ auth.accountAuths) (hown : nested (shownName e.1) = some own) :
    ToldBelow keys nested left own := by
  intro a ha
  refine h a (List.mem_append_right _ (List.mem_flatMap.mpr ⟨e.1, List.mem_map_of_mem he, ?_⟩))
  exact List.mem_flatMap.mpr ⟨own, by rw [hown]; exact List.mem_singleton.mpr rfl, ha⟩

/-- `get` reads by the string what `own` has for the name left. -/
def ReadsShown (get : Bytes → Option Authority) (own : AccountName → Option Authority) : Prop :=
  ∀ id, get id = own (.ofBytes id)

/-! ## The checker -/

namespace SignState

/-- The signatures are among `keys`, and every approved account is approved by them. -/
structure Sound (keys : List PublicKey) (nested : AccountName → Option Authority) (s : SignState) : Prop where
  provided : ∀ p ∈ s.providedSignatures, p.1 ∈ keys
  available : s.availableKeys = []
  approved : ∀ a : AccountName, a.toBytes ∈ s.approvedBy → Approved keys nested (shownName a)

/-- A check that answers `true` only when `Q` holds. -/
def SoundCheck (keys : List PublicKey) (nested : AccountName → Option Authority) (Q : Prop)
    (p : Prog Error SignState Bool) : Prop :=
  ∀ s b s', p s = .ok b s' → Sound keys nested s → Sound keys nested s' ∧ (b = true → Q)

theorem sound_init : Sound keys nested (init keys []) where
  provided p hp := by
    obtain ⟨k, hk, rfl⟩ := List.mem_map.mp hp
    exact hk
  available := rfl
  approved a hmem := by
    refine .inl ?_
    unfold shownName
    rw [List.mem_singleton.mp hmem]
    decide +kernel

theorem sound_signedBy (k : PublicKey) : SoundCheck keys nested (k ∈ keys) (signedBy k) := by
  intro s b s' h hs
  unfold signedBy at h
  split at h
  next hsigned =>
    obtain ⟨p, hp, hpk⟩ := List.any_eq_true.mp hsigned
    have hk : k ∈ keys := eq_of_beq hpk ▸ hs.provided p hp
    cases h
    refine ⟨⟨?_, hs.available, hs.approved⟩, fun _ => hk⟩
    intro q hq
    obtain ⟨x, hx, rfl⟩ := List.mem_map.mp hq
    split
    · exact hk
    · exact hs.provided x hx
  next =>
    rw [hs.available] at h
    cases h
    exact ⟨hs, fun hb => by cases hb⟩

/-- The weight that `checkKeys` counts is carried by keys that signed. -/
theorem sound_checkKeys (threshold : Nat) (ks : List (PublicKey × Nat)) (total : Nat) {s s' : SignState}
    {t : Nat} {met : Bool} (h : checkKeys threshold ks total s = .ok (t, met) s') (hs : Sound keys nested s) :
    Sound keys nested s' ∧ (met = true → threshold ≤ t) ∧
      ∃ used : List (PublicKey × Nat), used.Sublist ks ∧ (∀ k ∈ used, k.1 ∈ keys) ∧ t ≤ total + (used.map Prod.snd).sum := by
  induction ks generalizing total s with
  | nil =>
    obtain ⟨hpair, rfl⟩ := pure_eq_ok.mp h
    cases hpair
    exact ⟨hs, (fun hb => absurd hb Bool.false_ne_true), [], List.nil_sublist _, by simp, by simp⟩
  | cons p ks ih =>
    obtain ⟨k, w⟩ := p
    obtain ⟨signed, s₁, hsigned, h⟩ := bind_eq_ok.mp h
    obtain ⟨hs₁, hkey⟩ := sound_signedBy k s signed s₁ hsigned hs
    cases signed with
    | false =>
      obtain ⟨hs', hmet, used, hsub, hused, hle⟩ := ih total h hs₁
      exact ⟨hs', hmet, used, hsub.cons _, hused, hle⟩
    | true =>
      have hmod := Nat.mod_le (total + w) 4294967296
      simp only [if_true, Bool.true_and, decide_eq_true_eq] at h
      split at h
      next hreached =>
        obtain ⟨hpair, rfl⟩ := pure_eq_ok.mp h
        cases hpair
        exact ⟨hs₁, fun _ => hreached, [(k, w)], List.singleton_sublist.mpr List.mem_cons_self,
          by simpa using hkey rfl, by simpa using hmod⟩
      next =>
        obtain ⟨hs', hmet, used, hsub, hused, hle⟩ := ih _ h hs₁
        refine ⟨hs', hmet, (k, w) :: used, hsub.cons_cons _, ?_, ?_⟩
        · rw [List.forall_mem_cons]
          exact ⟨hkey rfl, hused⟩
        · rw [List.map_cons, List.sum_cons]
          omega

/-- The weight that `checkAccounts` counts is carried by approved accounts. -/
theorem sound_checkAccounts (threshold : Nat) {check : Bytes → Prog Error SignState Bool}
    (as : List (AccountName × Nat))
    (hcheck : ∀ e ∈ as, SoundCheck keys nested (Approved keys nested (shownName e.1)) (check e.1.toBytes))
    (htold : ∀ e ∈ as, ToldApart keys nested e.1) (total : Nat) {s s' : SignState} {t : Nat}
    (h : checkAccounts threshold check as total s = .ok t s') (hs : Sound keys nested s) :
    Sound keys nested s' ∧
      ∃ used : List (AccountName × Nat), used.Sublist as ∧ (∀ e ∈ used, Approved keys nested e.1) ∧
        t ≤ total + (used.map Prod.snd).sum := by
  induction as generalizing total s with
  | nil =>
    obtain ⟨rfl, rfl⟩ := pure_eq_ok.mp h
    exact ⟨hs, [], List.nil_sublist _, by simp, by simp⟩
  | cons e as ih =>
    obtain ⟨a, w⟩ := e
    rw [List.forall_mem_cons] at hcheck htold
    obtain ⟨hone, hcheck⟩ := hcheck
    obtain ⟨ha, htold⟩ := htold
    obtain ⟨_, _, hget, h⟩ := bind_eq_ok.mp h
    obtain ⟨rfl, rfl⟩ := get_eq_ok.mp hget
    -- the answer comes from the cache or from the check
    have hanswer : ∃ ok s₁, Sound keys nested s₁ ∧ (ok = true → Approved keys nested a) ∧
        (if (ok && decide (threshold ≤ if ok = true then (total + w) % 4294967296 else total)) = true then
          pure (if ok = true then (total + w) % 4294967296 else total)
        else checkAccounts threshold check as (if ok = true then (total + w) % 4294967296 else total)) s₁ =
          .ok t s' := by
      split at h
      next hcached =>
        exact ⟨true, s, hs, fun _ => ha.approved (hs.approved a (List.contains_iff_mem.mp hcached)), h⟩
      next =>
        obtain ⟨ok, s₁, hok, h⟩ := bind_eq_ok.mp h
        obtain ⟨hs₁, happroved⟩ := hone s ok s₁ hok hs
        exact ⟨ok, s₁, hs₁, fun hb => ha.approved (happroved hb), h⟩
    obtain ⟨ok, s₁, hs₁, happroved, h⟩ := hanswer
    cases ok with
    | false =>
      obtain ⟨hs', used, hsub, hused, hle⟩ := ih hcheck htold total h hs₁
      exact ⟨hs', used, hsub.cons _, hused, hle⟩
    | true =>
      have hmod := Nat.mod_le (total + w) 4294967296
      simp only [if_true, Bool.true_and, decide_eq_true_eq] at h
      split at h
      next =>
        obtain ⟨rfl, rfl⟩ := pure_eq_ok.mp h
        exact ⟨hs₁, [(a, w)], List.singleton_sublist.mpr List.mem_cons_self, by simpa using happroved rfl,
          by simpa using hmod⟩
      next =>
        obtain ⟨hs', used, hsub, hused, hle⟩ := ih hcheck htold _ h hs₁
        refine ⟨hs', (a, w) :: used, hsub.cons_cons _, ?_, ?_⟩
        · rw [List.forall_mem_cons]
          exact ⟨happroved rfl, hused⟩
        · rw [List.map_cons, List.sum_cons]
          omega

/-- One level of the check, given a sound check of the accounts. -/
theorem sound_weigh {check : Bytes → Prog Error SignState Bool}
    {auth : Authority}
    (hcheck : ∀ e ∈ auth.accountAuths,
      SoundCheck keys nested (Approved keys nested (shownName e.1)) (check e.1.toBytes))
    (htold : ∀ e ∈ auth.accountAuths, ToldApart keys nested e.1) :
    SoundCheck keys nested (Satisfied keys nested auth) (do
      let (total, met) ← checkKeys auth.weightThreshold auth.keyAuths 0
      if met then pure true
      else do
        let total ← checkAccounts auth.weightThreshold check auth.accountAuths total
        pure (decide (auth.weightThreshold ≤ total))) := by
  intro s b s' h hs
  obtain ⟨⟨t, met⟩, s₁, hkeys, h⟩ := bind_eq_ok.mp h
  obtain ⟨hs₁, hmet, ks, hsub, hsigned, hle⟩ := sound_checkKeys _ _ _ hkeys hs
  cases met with
  | true =>
    obtain ⟨rfl, rfl⟩ := pure_eq_ok.mp h
    refine ⟨hs₁, fun _ => satisfied_of_weights hsub hsigned (List.nil_sublist _) (by simp) ?_⟩
    have := hmet rfl
    rw [List.map_nil, List.sum_nil]
    omega
  | false =>
    obtain ⟨t', s₂, haccounts, h⟩ := bind_eq_ok.mp h
    obtain ⟨rfl, rfl⟩ := pure_eq_ok.mp h
    obtain ⟨hs₂, as, hsub', happroved, hle'⟩ := sound_checkAccounts _ _ hcheck htold _ haccounts hs₁
    refine ⟨hs₂, fun hreached => satisfied_of_weights hsub hsigned hsub' happroved ?_⟩
    have := of_decide_eq_true hreached
    omega

section Getter

variable {getActive : Bytes → Option Authority} (hget : ReadsShown getActive nested)

include hget

/-- **The recursive check**: whatever the cache held and wherever the recursion was cut, `true` means that
the authority is satisfied. -/
theorem sound_checkAuthority (left : Nat) {auth : Authority} (hauth : ToldBelow keys nested left auth) :
    SoundCheck keys nested (Satisfied keys nested auth) (checkAuthority getActive left auth) := by
  induction left generalizing auth with
  | zero =>
    unfold checkAuthority
    refine sound_weigh (fun e he s b s' h hs => ?_) hauth.entries
    obtain ⟨rfl, rfl⟩ := pure_eq_ok.mp h
    exact ⟨hs, fun hb => absurd hb Bool.false_ne_true⟩
  | succ left ih =>
    unfold checkAuthority
    refine sound_weigh (fun e he s b s' h hs => ?_) hauth.entries
    simp only [bind_eq_ok, ofOption_eq_ok] at h
    obtain ⟨own, _, ⟨hown, rfl⟩, ok, s₁, hnested, h⟩ := h
    rw [hget] at hown
    obtain ⟨hs₁, hsat⟩ := ih (hauth.below he hown) _ _ _ hnested hs
    cases ok with
    | false =>
      obtain ⟨rfl, rfl⟩ := pure_eq_ok.mp h
      exact ⟨hs₁, fun hb => absurd hb Bool.false_ne_true⟩
    | true =>
      have happroved : Approved keys nested (shownName e.1) := .inr ⟨own, hown, hsat rfl⟩
      obtain ⟨_, s₂, happrove, h⟩ := bind_eq_ok.mp h
      obtain rfl := modify_eq_ok.mp happrove
      obtain ⟨rfl, rfl⟩ := pure_eq_ok.mp h
      -- the new cache entry stands for every name that is shown as this one
      refine ⟨⟨hs₁.provided, hs₁.available, fun c hmem => ?_⟩, fun _ => happroved⟩
      rcases List.mem_cons.mp hmem with hthis | hold
      · unfold shownName
        rwa [hthis]
      · exact hs₁.approved c hold

theorem sound_checkAccount (depth : Nat) {a : AccountName} (ha : Plain a)
    (htold : ∀ auth, nested a = some auth → ToldBelow keys nested depth auth) :
    SoundCheck keys nested (Approved keys nested a) (checkAccount getActive depth a.toBytes) := by
  intro s b s' h hs
  obtain ⟨_, _, hstate, h⟩ := bind_eq_ok.mp h
  obtain ⟨rfl, rfl⟩ := get_eq_ok.mp hstate
  split at h
  next hcached =>
    obtain ⟨rfl, rfl⟩ := pure_eq_ok.mp h
    have hshown := hs.approved a (List.contains_iff_mem.mp hcached)
    exact ⟨hs, fun _ => ToldApart.approved (.inl ha) hshown⟩
  next =>
    obtain ⟨own, _, hread, h⟩ := bind_eq_ok.mp h
    obtain ⟨hown, rfl⟩ := ofOption_eq_ok.mp hread
    rw [hget, ha] at hown
    obtain ⟨hs', hsat⟩ := sound_checkAuthority hget depth (htold _ hown) _ _ _ h hs
    exact ⟨hs', fun hb => .inr ⟨own, hown, hsat hb⟩⟩

/-- The check of one stored authority of an account. -/
theorem sound_stored (depth : Nat) {get : Bytes → Option Authority} {own : AccountName → Option Authority}
    (hown : ReadsShown get own) {a : AccountName} (ha : Plain a)
    (htold : ∀ auth, own a = some auth → ToldBelow keys nested depth auth) :
    SoundCheck keys nested (Meets keys nested own a) (checkStored get getActive depth a) := by
  intro s b s' h hs
  obtain ⟨auth, _, hread, h⟩ := bind_eq_ok.mp h
  obtain ⟨hauth, rfl⟩ := ofOption_eq_ok.mp hread
  rw [hown, ha] at hauth
  obtain ⟨hs', hsat⟩ := sound_checkAuthority hget depth (htold _ hauth) _ _ _ h hs
  exact ⟨hs', fun hb => ⟨auth, hauth, hsat hb⟩⟩

end Getter

theorem SoundCheck.mono {P Q : Prop} {p : Prog Error SignState Bool} (h : SoundCheck keys nested P p)
    (hPQ : P → Q) : SoundCheck keys nested Q p := by
  intro s b s' hp hs
  obtain ⟨hs', hP⟩ := h s b s' hp hs
  exact ⟨hs', fun hb => hPQ (hP hb)⟩

/-- Alternatives: one of them has answered `true`. -/
theorem sound_requireOneOf {Q : Prop} {error : String} {ps : List (Prog Error SignState Bool)}
    (h : ∀ p ∈ ps, SoundCheck keys nested Q p) {s s' : SignState} {u : Unit}
    (hrun : requireOneOf error ps s = .ok u s') (hs : Sound keys nested s) : Sound keys nested s' ∧ Q := by
  induction ps generalizing s with
  | nil => exact (throw_eq_ok.mp hrun).elim
  | cons p ps ih =>
    rw [List.forall_mem_cons] at h
    obtain ⟨ok, s₁, hp, hrun⟩ := bind_eq_ok.mp hrun
    obtain ⟨hs₁, hQ⟩ := h.1 s ok s₁ hp hs
    cases ok with
    | true =>
      obtain ⟨-, rfl⟩ := pure_eq_ok.mp hrun
      exact ⟨hs₁, hQ rfl⟩
    | false => exact ih h.2 hrun hs₁

theorem sound_each {β : Type} {f : β → Prog Error SignState Unit} {Q : β → Prop} {bs : List β}
    (h : ∀ x ∈ bs, ∀ s u s', f x s = .ok u s' → Sound keys nested s → Sound keys nested s' ∧ Q x)
    {s s' : SignState} {u : Unit} (hrun : each f bs s = .ok u s') (hs : Sound keys nested s) :
    Sound keys nested s' ∧ ∀ x ∈ bs, Q x := by
  induction bs generalizing s with
  | nil =>
    obtain ⟨-, rfl⟩ := pure_eq_ok.mp hrun
    exact ⟨hs, by simp⟩
  | cons x bs ih =>
    rw [List.forall_mem_cons] at h
    obtain ⟨_, s₁, hx, hrun⟩ := bind_eq_ok.mp hrun
    obtain ⟨hs₁, hQ⟩ := h.1 _ _ _ hx hs
    obtain ⟨hs', hrest⟩ := ih h.2 hrun hs₁
    exact ⟨hs', List.forall_mem_cons.mpr ⟨hQ, hrest⟩⟩

end SignState

/-! ## Required authorities -/

attribute [ext] RequiredAuthorities

namespace RequiredAuthorities

/-- Everything required in `r` is required in `r'`. -/
structure Sub (r r' : RequiredAuthorities) : Prop where
  active : r.active ⊆ r'.active
  owner : r.owner ⊆ r'.owner
  posting : r.posting ⊆ r'.posting
  other : r.other ⊆ r'.other

theorem Sub.refl (r : RequiredAuthorities) : Sub r r :=
  ⟨List.Subset.refl _, List.Subset.refl _, List.Subset.refl _, List.Subset.refl _⟩

theorem Sub.trans {r r' r'' : RequiredAuthorities} (h : Sub r r') (h' : Sub r' r'') : Sub r r'' :=
  ⟨List.Subset.trans h.active h'.active, List.Subset.trans h.owner h'.owner,
    List.Subset.trans h.posting h'.posting, List.Subset.trans h.other h'.other⟩

theorem mem_flatInsert {a x : AccountName} {s : List AccountName} : x ∈ flatInsert a s ↔ x = a ∨ x ∈ s := by
  induction s with
  | nil => simp [flatInsert]
  | cons b bs ih =>
    unfold flatInsert
    by_cases hab : a = b
    · rw [if_pos hab, hab]
      simp
    · rw [if_neg hab]
      split
      · simp
      · rw [List.mem_cons, ih, List.mem_cons]
        exact or_left_comm

theorem mem_inserted {as s : List AccountName} {x : AccountName} :
    x ∈ as.foldl (fun s a => flatInsert a s) s ↔ x ∈ as ∨ x ∈ s := by
  induction as generalizing s with
  | nil => simp
  | cons a as ih =>
    rw [List.foldl_cons, ih, mem_flatInsert, List.mem_cons]
    exact ⟨by tauto, by tauto⟩

/-- A function that only adds to what is required, and adds the same to whatever it starts from. -/
structure Adds (f : RequiredAuthorities → RequiredAuthorities) : Prop where
  keeps : ∀ r, Sub r (f r)
  same : ∀ r, Sub (f {}) (f r)

theorem inserted_subset (as s : List AccountName) : s ⊆ as.foldl (fun s a => flatInsert a s) s :=
  fun _ hx => mem_inserted.mpr (.inr hx)

theorem inserted_mono (as : List AccountName) {s s' : List AccountName} (h : s ⊆ s') :
    as.foldl (fun s a => flatInsert a s) s ⊆ as.foldl (fun s a => flatInsert a s) s' := by
  intro x hx
  rcases mem_inserted.mp hx with hx | hx
  · exact mem_inserted.mpr (.inl hx)
  · exact mem_inserted.mpr (.inr (h hx))

theorem addActive_sub (r : RequiredAuthorities) (as : List AccountName) : Sub r (r.addActive as) :=
  ⟨inserted_subset as _, List.Subset.refl _, List.Subset.refl _, List.Subset.refl _⟩

theorem addOwner_sub (r : RequiredAuthorities) (as : List AccountName) : Sub r (r.addOwner as) :=
  ⟨List.Subset.refl _, inserted_subset as _, List.Subset.refl _, List.Subset.refl _⟩

theorem addPosting_sub (r : RequiredAuthorities) (as : List AccountName) : Sub r (r.addPosting as) :=
  ⟨List.Subset.refl _, List.Subset.refl _, inserted_subset as _, List.Subset.refl _⟩

theorem addOther_sub (r : RequiredAuthorities) (as : List Authority) : Sub r (r.addOther as) :=
  ⟨List.Subset.refl _, List.Subset.refl _, List.Subset.refl _, List.subset_append_left _ _⟩

theorem Sub.addActive {r r' : RequiredAuthorities} (h : Sub r r') (as : List AccountName) :
    Sub (r.addActive as) (r'.addActive as) :=
  ⟨inserted_mono as h.active, h.owner, h.posting, h.other⟩

theorem Sub.addOwner {r r' : RequiredAuthorities} (h : Sub r r') (as : List AccountName) :
    Sub (r.addOwner as) (r'.addOwner as) :=
  ⟨h.active, inserted_mono as h.owner, h.posting, h.other⟩

theorem Sub.addPosting {r r' : RequiredAuthorities} (h : Sub r r') (as : List AccountName) :
    Sub (r.addPosting as) (r'.addPosting as) :=
  ⟨h.active, h.owner, inserted_mono as h.posting, h.other⟩

theorem Sub.addOther {r r' : RequiredAuthorities} (h : Sub r r') (as : List Authority) :
    Sub (r.addOther as) (r'.addOther as) := by
  refine ⟨h.active, h.owner, h.posting, fun x hx => ?_⟩
  rcases List.mem_append.mp hx with hx | hx
  · exact List.mem_append_left _ (h.other hx)
  · exact List.mem_append_right _ hx

theorem empty_sub (r : RequiredAuthorities) : Sub {} r :=
  ⟨List.nil_subset _, List.nil_subset _, List.nil_subset _, List.nil_subset _⟩

theorem adds_ite {c : Prop} [Decidable c] {f g : RequiredAuthorities → RequiredAuthorities} (hf : Adds f)
    (hg : Adds g) : Adds fun r => if c then f r else g r := by
  by_cases hc : c
  · simpa only [if_pos hc] using hf
  · simpa only [if_neg hc] using hg

/-- What one of several operations requires is required by all of them together. -/
theorem sub_foldl {ω : Type} {required : RequiredAuthorities → ω → RequiredAuthorities}
    (hadds : ∀ op, Adds fun r => required r op) {ops : List ω} {op : ω} (hop : op ∈ ops)
    (r : RequiredAuthorities) : Sub (required {} op) (ops.foldl required r) := by
  have hkeeps : ∀ (ops : List ω) (r : RequiredAuthorities), Sub r (ops.foldl required r) := by
    intro ops
    induction ops with
    | nil => exact Sub.refl
    | cons o ops ih =>
      intro r
      exact ((hadds o).keeps r).trans (ih _)
  induction ops generalizing r with
  | nil => cases hop
  | cons o ops ih =>
    rcases List.mem_cons.mp hop with rfl | hop
    · exact ((hadds op).same r).trans (hkeeps ops _)
    · exact ih hop _

end RequiredAuthorities

open RequiredAuthorities

theorem adds_operation (op : Operation) : Adds fun r => op.getRequiredAuthorities r := by
  cases op with
  | customJson o =>
    exact ⟨fun r => (addActive_sub r _).trans (addPosting_sub _ _), fun r => ((empty_sub r).addActive _).addPosting _⟩
  | customBinary o | customJsonDapp o =>
    exact ⟨fun r => (((addActive_sub r _).trans (addOwner_sub _ _)).trans (addPosting_sub _ _)).trans
      (addOther_sub _ _), fun r => ((((empty_sub r).addActive _).addOwner _).addPosting _).addOther _⟩
  | accountUpdate o =>
    exact adds_ite ⟨fun r => addOwner_sub r _, fun r => (empty_sub r).addOwner _⟩
      ⟨fun r => addActive_sub r _, fun r => (empty_sub r).addActive _⟩
  | setResetAccount o =>
    exact adds_ite ⟨fun r => addOwner_sub r _, fun r => (empty_sub r).addOwner _⟩
      ⟨fun r => addPosting_sub r _, fun r => (empty_sub r).addPosting _⟩
  | recoverAccount o => exact ⟨fun r => addOther_sub r _, fun r => (empty_sub r).addOther _⟩
  | changeRecoveryAccount o | declineVotingRights o =>
    exact ⟨fun r => addOwner_sub r _, fun r => (empty_sub r).addOwner _⟩
  | virtual => exact ⟨Sub.refl, empty_sub⟩
  | _ => exact ⟨fun r => addActive_sub r _, fun r => (empty_sub r).addActive _⟩

theorem adds_dappOperation (op : Dapp.DappOperation) :
    Adds fun r => Dapp.DappOperation.getRequiredAuthorities r op := by
  cases op with
  | commentDapp o | commentVoteDapp o | deleteCommentDapp o =>
    exact ⟨fun r => addPosting_sub r _, fun r => (empty_sub r).addPosting _⟩
  | _ => exact ⟨fun r => addActive_sub r _, fun r => (empty_sub r).addActive _⟩

theorem adds_tokenOperation (op : Token.TokenOperation) :
    Adds fun r => Token.TokenOperation.getRequiredAuthorities r op := by
  cases op with
  | createToken o | issueToken o => exact ⟨fun r => addOther_sub r _, fun r => (empty_sub r).addOther _⟩
  | _ => exact ⟨fun r => addActive_sub r _, fun r => (empty_sub r).addActive _⟩

/-! ## `verify_authority` -/

/-- The authorities stored for an account. -/
def ownActive (s : Core) (a : AccountName) : Option Authority :=
  (s.accountAuthorities.find? fun o => o.account == a).map fun r => r.2.active

def ownOwner (s : Core) (a : AccountName) : Option Authority :=
  (s.accountAuthorities.find? fun o => o.account == a).map fun r => r.2.owner

def ownPosting (s : Core) (a : AccountName) : Option Authority :=
  (s.accountAuthorities.find? fun o => o.account == a).map fun r => r.2.posting

/-- What an account entry stands for: the own posting authority in a transaction that requires posting,
else the own active authority. -/
def ownNested (s : Core) (posting : Bool) : AccountName → Option Authority :=
  if posting then ownPosting s else ownActive s

/-- The keys satisfy everything in `r`: an active authority may be met by the owner authority, a posting
authority by the active or the owner authority. -/
structure Authorized (s : Core) (keys : List PublicKey) (posting : Bool) (r : RequiredAuthorities) : Prop where
  other : ∀ auth ∈ r.other, Satisfied keys (ownNested s posting) auth
  active : ∀ a ∈ r.active, Meets keys (ownNested s posting) (ownActive s) a ∨
    Meets keys (ownNested s posting) (ownOwner s) a
  owner : ∀ a ∈ r.owner, Meets keys (ownNested s posting) (ownOwner s) a
  posting : ∀ a ∈ r.posting, Meets keys (ownNested s posting) (ownPosting s) a ∨
    Meets keys (ownNested s posting) (ownActive s) a ∨ Meets keys (ownNested s posting) (ownOwner s) a

theorem Authorized.of_sub {s : Core} {posting : Bool} {r r' : RequiredAuthorities}
    (h : Authorized s keys posting r') (hsub : Sub r r') : Authorized s keys posting r :=
  ⟨fun auth hauth => h.other auth (hsub.other hauth), fun a ha => h.active a (hsub.active ha),
    fun a ha => h.owner a (hsub.owner ha), fun a ha => h.posting a (hsub.posting ha)⟩

/-- The authorities from which the check of `r` starts: those required, and those stored for the accounts
required that it may try. -/
def authoritiesTried (s : Core) (r : RequiredAuthorities) : List Authority :=
  r.other ++ r.active.flatMap (fun a => (ownActive s a).toList ++ (ownOwner s a).toList) ++
    r.owner.flatMap (fun a => (ownOwner s a).toList) ++
      r.posting.flatMap fun a => (ownPosting s a).toList ++ (ownActive s a).toList ++ (ownOwner s a).toList

/-- The names that the check comes across: those required are plain, and none of those that it reaches through
account entries is taken for an approved account. -/
def NamesTold (s : Core) (keys : List PublicKey) (r : RequiredAuthorities) : Prop :=
  (∀ a ∈ r.active ++ r.owner ++ r.posting, Plain a) ∧
    ∀ auth ∈ authoritiesTried s r, ToldBelow keys (ownNested s (decide (r.posting ≠ []))) maxSigCheckDepth auth

section Tried

variable {s : Core} {r : RequiredAuthorities} {a : AccountName} {auth : Authority}

theorem tried_other (h : auth ∈ r.other) : auth ∈ authoritiesTried s r :=
  List.mem_append_left _ (List.mem_append_left _ (List.mem_append_left _ h))

theorem tried_active (ha : a ∈ r.active) (h : ownActive s a = some auth ∨ ownOwner s a = some auth) :
    auth ∈ authoritiesTried s r := by
  refine List.mem_append_left _ (List.mem_append_left _ (List.mem_append_right _ (List.mem_flatMap.mpr ⟨a, ha, ?_⟩)))
  rw [List.mem_append, Option.mem_toList, Option.mem_toList]
  exact h

theorem tried_owner (ha : a ∈ r.owner) (h : ownOwner s a = some auth) : auth ∈ authoritiesTried s r :=
  List.mem_append_left _ (List.mem_append_right _ (List.mem_flatMap.mpr ⟨a, ha, Option.mem_toList.mpr h⟩))

theorem tried_posting (ha : a ∈ r.posting)
    (h : (ownPosting s a = some auth ∨ ownActive s a = some auth) ∨ ownOwner s a = some auth) :
    auth ∈ authoritiesTried s r := by
  refine List.mem_append_right _ (List.mem_flatMap.mpr ⟨a, ha, ?_⟩)
  rw [List.mem_append, List.mem_append, Option.mem_toList, Option.mem_toList, Option.mem_toList]
  exact h

end Tried

/-- Where the account `temp` is required, its own authority is open, as genesis makes it. -/
def TempOpen (s : Core) (r : RequiredAuthorities) : Prop :=
  (tempAccount ∈ r.active → (ownActive s tempAccount).any (fun auth => auth.weightThreshold == 0) = true) ∧
    (tempAccount ∈ r.posting → (ownPosting s tempAccount).any (fun auth => auth.weightThreshold == 0) = true)

instance (s : Core) (r : RequiredAuthorities) : Decidable (TempOpen s r) := inferInstanceAs (Decidable (_ ∧ _))

theorem meets_of_open {get : AccountName → Option Authority} {a : AccountName}
    (h : (get a).any (fun auth => auth.weightThreshold == 0) = true) : Meets keys nested get a := by
  cases hauth : get a with
  | none =>
    rw [hauth] at h
    cases h
  | some auth =>
    rw [hauth, Option.any_some] at h
    exact ⟨auth, hauth, satisfied_of_open (eq_of_beq h)⟩

theorem Approved.meets {a : AccountName} (h : Approved keys nested a)
    (htemp : a = tempAccount → (nested a).any (fun auth => auth.weightThreshold == 0) = true) :
    Meets keys nested nested a := by
  rcases h with heq | hmeets
  · exact meets_of_open (htemp heq)
  · exact hmeets

section Whole

open SignState

variable {s : Core} {r : RequiredAuthorities} {t t' : SignState} {u : Unit}

theorem readsShown_active : ReadsShown (authorityGetters s).getActive (ownActive s) := fun _ => rfl

theorem readsShown_owner : ReadsShown (authorityGetters s).getOwner (ownOwner s) := fun _ => rfl

theorem readsShown_posting : ReadsShown (authorityGetters s).getPosting (ownPosting s) := fun _ => rfl

/-- The loop over the required posting accounts. -/
theorem meets_of_posting (hrequired : ∀ a ∈ r.posting, Plain a)
    (htold : ∀ auth ∈ authoritiesTried s r, ToldBelow keys (ownPosting s) maxSigCheckDepth auth) (htemp : TempOpen s r)
    (ht : Sound keys (ownPosting s) t)
    (h : each (fun a => requireOneOf "Missing Posting Authority"
      [checkAccount (authorityGetters s).getPosting maxSigCheckDepth a.toBytes,
        checkStored (authorityGetters s).getActive (authorityGetters s).getPosting maxSigCheckDepth a,
        checkStored (authorityGetters s).getOwner (authorityGetters s).getPosting maxSigCheckDepth a]) r.posting t = .ok u t') :
    ∀ a ∈ r.posting, Meets keys (ownPosting s) (ownPosting s) a ∨ Meets keys (ownPosting s) (ownActive s) a ∨
      Meets keys (ownPosting s) (ownOwner s) a := by
  refine (sound_each (fun a ha s₁ u s₂ hrun hs => sound_requireOneOf ?_ hrun hs) h ht).2
  have hplain := hrequired a ha
  have htried : ∀ auth, (ownPosting s a = some auth ∨ ownActive s a = some auth) ∨ ownOwner s a = some auth →
      ToldBelow keys (ownPosting s) maxSigCheckDepth auth := fun auth hauth => htold auth (tried_posting ha hauth)
  rw [List.forall_mem_cons, List.forall_mem_cons, List.forall_mem_singleton]
  refine ⟨?_, ?_, ?_⟩
  · have hcheck := sound_checkAccount readsShown_posting _ hplain fun auth hauth => htried auth (.inl (.inl hauth))
    refine hcheck.mono fun happroved => .inl (happroved.meets ?_)
    rintro rfl
    exact htemp.2 ha
  · have hcheck := sound_stored readsShown_posting _ readsShown_active hplain fun auth hauth => htried auth (.inl (.inr hauth))
    exact hcheck.mono fun hmeets => .inr (.inl hmeets)
  · have hcheck := sound_stored readsShown_posting _ readsShown_owner hplain fun auth hauth => htried auth (.inr hauth)
    exact hcheck.mono fun hmeets => .inr (.inr hmeets)

/-- The loop over the required active accounts. -/
theorem meets_of_active (hrequired : ∀ a ∈ r.active, Plain a)
    (htold : ∀ auth ∈ authoritiesTried s r, ToldBelow keys (ownActive s) maxSigCheckDepth auth) (htemp : TempOpen s r)
    (ht : Sound keys (ownActive s) t)
    (h : each (fun a => requireOneOf "Missing Active Authority"
      [checkAccount (authorityGetters s).getActive maxSigCheckDepth a.toBytes,
        checkStored (authorityGetters s).getOwner (authorityGetters s).getActive maxSigCheckDepth a]) r.active t = .ok u t') :
    Sound keys (ownActive s) t' ∧
      ∀ a ∈ r.active, Meets keys (ownActive s) (ownActive s) a ∨ Meets keys (ownActive s) (ownOwner s) a := by
  refine sound_each (fun a ha s₁ u s₂ hrun hs => sound_requireOneOf ?_ hrun hs) h ht
  have hplain := hrequired a ha
  have htried : ∀ auth, ownActive s a = some auth ∨ ownOwner s a = some auth →
      ToldBelow keys (ownActive s) maxSigCheckDepth auth := fun auth hauth => htold auth (tried_active ha hauth)
  rw [List.forall_mem_cons, List.forall_mem_singleton]
  refine ⟨?_, ?_⟩
  · have hcheck := sound_checkAccount readsShown_active _ hplain fun auth hauth => htried auth (.inl hauth)
    refine hcheck.mono fun happroved => .inl (happroved.meets ?_)
    rintro rfl
    exact htemp.1 ha
  · have hcheck := sound_stored readsShown_active _ readsShown_owner hplain fun auth hauth => htried auth (.inr hauth)
    exact hcheck.mono fun hmeets => .inr hmeets

/-- **The whole check** is sound where names are told apart and `temp` is open. -/
theorem authorized_of_verifyAuthority (hnames : NamesTold s keys r)
    (htemp : TempOpen s r) (h : verifyAuthority (authorityGetters s) r keys = .ok ()) :
    Authorized s keys (decide (r.posting ≠ [])) r := by
  obtain ⟨hrequired, htold⟩ := hnames
  rw [verifyAuthority_eq] at h
  unfold verifyAuthorityAt at h
  split at h
  next => cases h
  next u s' hbody =>
    unfold checkRequired at hbody
    split at hbody
    next hmode =>
      have hnested : ownNested s (decide (r.posting ≠ [])) = ownPosting s := if_pos (decide_eq_true hmode)
      rw [hnested] at htold
      simp only [bind_eq_ok, fcAssert_eq_ok, List.isEmpty_iff] at hbody
      obtain ⟨_, _, ⟨hnoActive, rfl⟩, _, _, ⟨hnoOwner, rfl⟩, _, _, ⟨hnoOther, rfl⟩, hbody⟩ := hbody
      have hall := meets_of_posting (fun a ha => hrequired a (List.mem_append_right _ ha)) htold htemp sound_init hbody
      refine ⟨?_, ?_, ?_, by rw [hnested]; exact hall⟩
      · rw [hnoOther]
        simp
      · rw [hnoActive]
        simp
      · rw [hnoOwner]
        simp
    next hmode =>
      have hnested : ownNested s (decide (r.posting ≠ [])) = ownActive s := if_neg (by simpa using hmode)
      rw [hnested] at htold
      obtain ⟨_, s₁, hbodyOther, hbody⟩ := bind_eq_ok.mp hbody
      obtain ⟨_, s₂, hbodyActive, hbodyOwner⟩ := bind_eq_ok.mp hbody
      obtain ⟨hs₁, hallOther⟩ := sound_each (Q := fun auth => Satisfied keys (ownActive s) auth)
        (fun auth hauth s₁ u s₂ hrun hs => sound_requireOneOf
          (List.forall_mem_singleton.mpr (sound_checkAuthority readsShown_active _ (htold auth (tried_other hauth)))) hrun hs)
        hbodyOther sound_init
      obtain ⟨hs₂, hallActive⟩ := meets_of_active
        (fun a ha => hrequired a (List.mem_append_left _ (List.mem_append_left _ ha))) htold htemp hs₁ hbodyActive
      obtain ⟨-, hallOwner⟩ := sound_each (Q := fun a => Meets keys (ownActive s) (ownOwner s) a)
        (fun a ha s₁ u s₂ hrun hs => by
          have hplain := hrequired a (List.mem_append_left _ (List.mem_append_right _ ha))
          have hcheck := sound_stored readsShown_active _ readsShown_owner hplain fun auth hauth =>
            htold auth (tried_owner ha hauth)
          exact sound_requireOneOf (List.forall_mem_singleton.mpr hcheck) hrun hs)
        hbodyOwner hs₂
      have hnone : r.posting = [] := not_not.mp hmode
      refine ⟨by rw [hnested]; exact hallOther, by rw [hnested]; exact hallActive,
        by rw [hnested]; exact hallOwner, ?_⟩
      rw [hnone]
      simp

end Whole

/-! ## Inner operations -/

section Inner

variable {ω : Type} {validate : ω → List Check} {required : RequiredAuthorities → ω → RequiredAuthorities}
  {evaluate : ω → ChainM Unit} {ops : List ω} {outer : RequiredAuthorities}

/-- `apply_operations` gets past its checks: the operations are valid and require together exactly what the
outer operation requires. -/
def Executes (validate : ω → List Check) (required : RequiredAuthorities → ω → RequiredAuthorities)
    (ops : List ω) (outer : RequiredAuthorities) : Prop :=
  (∀ op ∈ ops, ∀ c ∈ validate op, c.holds = true) ∧ ops.foldl required {} = outer

instance : Decidable (Executes validate required ops outer) := inferInstanceAs (Decidable (_ ∧ _))

/-- What the evaluated operations require, one by one. -/
def executedRequirements (validate : ω → List Check)
    (required : RequiredAuthorities → ω → RequiredAuthorities) (ops : List ω) (outer : RequiredAuthorities) :
    List RequiredAuthorities :=
  if Executes validate required ops outer then ops.map (required {}) else []

theorem sub_of_executed (hadds : ∀ op, Adds fun r => required r op) {r : RequiredAuthorities}
    (hr : r ∈ executedRequirements validate required ops outer) : Sub r outer := by
  unfold executedRequirements at hr
  split at hr
  next hexec =>
    obtain ⟨op, hop, rfl⟩ := List.mem_map.mp hr
    rw [← hexec.2]
    exact sub_foldl hadds hop {}
  next => cases hr

end Inner

/-- What the inner operations require that `interpret` evaluates. -/
def payloadRequirements (env : Env) (id : Bytes) (payload : Payload) (outer : RequiredAuthorities) :
    List RequiredAuthorities :=
  if id = ascii ['d', 'a', 'p', 'p'] ∧ Plugin.dapp ∈ env.plugins then
    executedRequirements (Dapp.DappOperation.validate env.fc) Dapp.DappOperation.getRequiredAuthorities
      ((env.decodeDapp payload).getD []) outer
  else if id = ascii ['t', 'o', 'k', 'e', 'n'] ∧ Plugin.token ∈ env.plugins then
    executedRequirements (Token.TokenOperation.validate env.fc) Token.TokenOperation.getRequiredAuthorities
      ((env.decodeToken payload).getD []) outer
  else []

/-- What the inner operations of one operation require. -/
def innerRequirements (env : Env) (op : Operation) : List RequiredAuthorities :=
  match op with
  | .customJson o => payloadRequirements env o.id (.json o.json) (op.getRequiredAuthorities {})
  | .customBinary o => payloadRequirements env o.id (.binary o.payload) (op.getRequiredAuthorities {})
  | .customJsonDapp o => payloadRequirements env o.id (.json o.payload) (op.getRequiredAuthorities {})
  | _ => []

/-- No inner operation requires more than the operation that carries it. -/
theorem sub_of_inner (env : Env) (op : Operation) {r : RequiredAuthorities} (hr : r ∈ innerRequirements env op) :
    Sub r (op.getRequiredAuthorities {}) := by
  have hpayload : ∀ {id payload outer}, r ∈ payloadRequirements env id payload outer → Sub r outer := by
    intro id payload outer hr
    unfold payloadRequirements at hr
    split at hr
    · exact sub_of_executed adds_dappOperation hr
    · split at hr
      · exact sub_of_executed adds_tokenOperation hr
      · cases hr
  cases op with
  | customJson o | customBinary o | customJsonDapp o => exact hpayload hr
  | _ => cases hr

/-! ## Transactions -/

/-- What the whole transaction requires. -/
def SignedTransaction.requiredAuthorities (trx : SignedTransaction) : RequiredAuthorities :=
  trx.operations.foldl (fun r op => op.getRequiredAuthorities r) {}

/-- The recovered keys satisfy what each operation requires, and each inner operation it executes. -/
def AuthorizedTransaction (env : Env) (s : Core) (trx : SignedTransaction) : Prop :=
  ∃ keys, trx.getSignatureKeys env.codec = .ok keys ∧ ∀ op ∈ trx.operations,
    ∀ r ∈ op.getRequiredAuthorities {} :: innerRequirements env op,
      Authorized s keys (decide (trx.requiredAuthorities.posting ≠ [])) r

theorem not_satisfied_ofKey {k : PublicKey} (hk : k ∉ keys) : ¬ Satisfied keys nested (.ofKey k) := by
  intro h
  cases h with
  | intro _ ks as own hks hsigned has hown happroved hweight =>
    have hkeys : ks = [] := by
      rcases List.sublist_singleton.mp hks with hnil | hone
      · exact hnil
      · rw [hone] at hsigned
        exact absurd (hsigned _ List.mem_cons_self) hk
    have haccounts : as = [] := List.sublist_nil.mp has
    rw [hkeys, haccounts] at hweight
    exact absurd hweight (by simp [Authority.ofKey])

/-- The name `"eve"`, and the name `"eve\0x"` that is shown as the same string. -/
def eve : AccountName := .ofBytes (ascii ['e', 'v', 'e'])

def hiddenEve : AccountName := .ofBytes (ascii ['e', 'v', 'e'] ++ [0, 120])

def createEve (name : AccountName) (key : PublicKey) : Operation :=
  .accountCreate
    { creator := initMinerName, newAccountName := name, owner := .ofKey key, active := .ofKey key,
      posting := .ofKey key, memoKey := key, jsonMetadata := [] }

/-- The name `"bob\0x"`, where no account is called `"bob"`. -/
def hiddenBob : AccountName := .ofBytes (ascii ['b', 'o', 'b'] ++ [0, 120])

def joint : AccountName := .ofBytes (ascii ['j', 'o', 'i', 'n', 't'])

/-- An account that either of two others may act for, with money. -/
def jointBlock : SignedBlock :=
  sampleBlock {} 1 [createRoot, createEve eve ⟨2⟩, createEve hiddenBob ⟨3⟩,
    .accountCreate
      { creator := initMinerName, newAccountName := joint, owner := .ofKey ⟨4⟩,
        active := { weightThreshold := 1, accountAuths := [(eve, 1), (hiddenBob, 1)] }, posting := .ofKey ⟨4⟩,
        memoKey := ⟨4⟩, jsonMetadata := [] },
    .print ⟨rootAccount, joint, sgt 10⟩]

/-- The one of them spends it. -/
def spendJoint : SignedTransaction :=
  ⟨0, 0, genesisTime + 200, [.transfer { from_ := joint, to_ := eve, amount := sgt 10, memo := [] }], [2]⟩

theorem told_hiddenBob {keys : List PublicKey} {nested : AccountName → Option Authority}
    (hnone : nested (shownName hiddenBob) = none) : ToldApart keys nested hiddenBob := by
  refine .inr ?_
  rintro (htemp | ⟨auth, hauth, -⟩)
  · exact absurd htemp (by decide +kernel)
  · rw [hnone] at hauth
    cases hauth

/-- Two accounts with different keys; the second one has money. -/
def eveBlock : SignedBlock :=
  sampleBlock {} 1 [createRoot, createEve eve ⟨2⟩, createEve hiddenEve ⟨3⟩, .print ⟨rootAccount, hiddenEve, sgt 10⟩]

/-- The key of the first account sends the money of the second. -/
def takeMoney : SignedTransaction :=
  ⟨0, 0, genesisTime + 200, [.transfer { from_ := hiddenEve, to_ := eve, amount := sgt 10, memo := [] }], [2]⟩

end Sigmaengine
