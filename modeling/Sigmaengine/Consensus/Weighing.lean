import Sigmaengine.Protocol.Signatures

/-!
# Authorities without the cache

What keys are worth to an authority when every nested account is checked anew: whether they satisfy it within some
levels of nested accounts (`satisfiedWithin`), and which keys are used until the threshold is met (`weigh`).  More
keys satisfy no less, and of the keys that were there before they use no more.
-/

namespace Sigmaengine

/-- The account that is approved from the start. -/
def tempId : Bytes := ascii ['t', 'e', 'm', 'p']

/-! ## Weights -/

/-- The weight of the entries that count. -/
def weightOf {α : Type} (counts : α → Bool) (entries : List (α × Nat)) : Nat :=
  ((entries.filter fun e => counts e.1).map Prod.snd).sum

section WeightOf

variable {α : Type} {counts counts' : α → Bool} {a : α} {w : Nat} {entries : List (α × Nat)}

theorem weightOf_cons : weightOf counts ((a, w) :: entries) = (if counts a then w else 0) + weightOf counts entries := by
  by_cases h : counts a = true
  · simp [weightOf, h]
  · simp [weightOf, h]

theorem weightOf_mono (h : ∀ e ∈ entries, counts e.1 = true → counts' e.1 = true) :
    weightOf counts entries ≤ weightOf counts' entries := by
  induction entries with
  | nil => simp [weightOf]
  | cons e entries ih =>
    obtain ⟨a, w⟩ := e
    obtain ⟨ha, hrest⟩ := List.forall_mem_cons.mp h
    have hle := ih hrest
    rw [weightOf_cons, weightOf_cons]
    split
    · rename_i hc
      rw [if_pos (ha hc)]
      omega
    · omega

theorem weightOf_le : weightOf counts entries ≤ (entries.map Prod.snd).sum := by
  induction entries with
  | nil => simp [weightOf]
  | cons e entries ih =>
    obtain ⟨a, w⟩ := e
    rw [weightOf_cons, List.map_cons, List.sum_cons]
    split <;> omega

end WeightOf

/-- The weights do not add up to more than `uint32_t` holds. -/
def Fits (auth : Authority) : Prop := (auth.keyAuths.map Prod.snd).sum + (auth.accountAuths.map Prod.snd).sum < 4294967296

instance (auth : Authority) : Decidable (Fits auth) := inferInstanceAs (Decidable (_ < _))

variable (keys : List PublicKey) (nested : Bytes → Authority)

/-- The keys satisfy the authority by themselves and by accounts nested at most `left` levels deep. -/
def satisfiedWithin : Nat → Authority → Bool
  | left, auth =>
    auth.weightThreshold ≤ weightOf (fun k => decide (k ∈ keys)) auth.keyAuths +
      weightOf (fun a => if a.toBytes = tempId then true else
        match left with
        | 0 => false
        | left + 1 => satisfiedWithin left (nested a.toBytes)) auth.accountAuths

/-- An account entry counts: the account is approved from the start, or its authority is satisfied. -/
def approvedWithin (left : Nat) (id : Bytes) : Bool :=
  if id = tempId then true else
    match left with
    | 0 => false
    | left + 1 => satisfiedWithin keys nested left (nested id)

/-- No account is nested deeper than `left` levels. -/
def Shallow : Nat → Authority → Prop
  | left, auth => ∀ e ∈ auth.accountAuths, e.1.toBytes = tempId ∨
    match left with
    | 0 => False
    | left + 1 => Shallow left (nested e.1.toBytes)

/-! ## The keys that are used -/

/-- The weight of the keys in order until the threshold is met, whether it is met, and the keys used. -/
def countKeys (threshold : Nat) : List (PublicKey × Nat) → Nat → (Nat × Bool) × List PublicKey
  | [], total => ((total, false), [])
  | (k, w) :: ks, total =>
    if k ∈ keys then
      if threshold ≤ total + w then ((total + w, true), [k])
      else ((countKeys threshold ks (total + w)).1, k :: (countKeys threshold ks (total + w)).2)
    else countKeys threshold ks total

/-- The same for accounts, given whether an account is approved and the keys used to find out. -/
def countAccounts (threshold : Nat) (check : Bytes → Bool × List PublicKey) :
    List (AccountName × Nat) → Nat → Nat × List PublicKey
  | [], total => (total, [])
  | (a, w) :: as, total =>
    if (check a.toBytes).1 = true then
      if threshold ≤ total + w then (total + w, (check a.toBytes).2)
      else ((countAccounts threshold check as (total + w)).1,
        (check a.toBytes).2 ++ (countAccounts threshold check as (total + w)).2)
    else ((countAccounts threshold check as total).1, (check a.toBytes).2 ++ (countAccounts threshold check as total).2)

/-- Whether the authority is satisfied, and the keys used to find out. -/
def weigh : Nat → Authority → Bool × List PublicKey
  | left, auth =>
    let own := countKeys keys auth.weightThreshold auth.keyAuths 0
    if own.1.2 = true then (true, own.2)
    else
      let all := countAccounts auth.weightThreshold
        (fun id => if id = tempId then (true, []) else
          match left with
          | 0 => (false, [])
          | left + 1 => weigh left (nested id)) auth.accountAuths own.1.1
      (auth.weightThreshold ≤ all.1, own.2 ++ all.2)

/-- Whether a nested account is approved, and the keys used to find out. -/
def weighAccount (left : Nat) (id : Bytes) : Bool × List PublicKey :=
  if id = tempId then (true, []) else
    match left with
    | 0 => (false, [])
    | left + 1 => weigh keys nested left (nested id)

variable {keys keys' : List PublicKey} {nested} {threshold total total' left left' : Nat} {auth : Authority}
  {ks : List (PublicKey × Nat)} {as : List (AccountName × Nat)} {check check' : Bytes → Bool × List PublicKey}

theorem satisfiedWithin_eq : satisfiedWithin keys nested left auth =
    decide (auth.weightThreshold ≤ weightOf (fun k => decide (k ∈ keys)) auth.keyAuths +
      weightOf (fun a => approvedWithin keys nested left a.toBytes) auth.accountAuths) := by
  unfold satisfiedWithin
  rfl

theorem shallow_iff : Shallow nested left auth ↔ ∀ e ∈ auth.accountAuths, e.1.toBytes = tempId ∨
    ∃ n, left = n + 1 ∧ Shallow nested n (nested e.1.toBytes) := by
  rw [Shallow.eq_def]
  cases left with
  | zero => simp
  | succ left => simp

theorem weigh_eq : weigh keys nested left auth =
    if (countKeys keys auth.weightThreshold auth.keyAuths 0).1.2 = true then
      (true, (countKeys keys auth.weightThreshold auth.keyAuths 0).2)
    else
      (decide (auth.weightThreshold ≤ (countAccounts auth.weightThreshold (weighAccount keys nested left)
        auth.accountAuths (countKeys keys auth.weightThreshold auth.keyAuths 0).1.1).1),
        (countKeys keys auth.weightThreshold auth.keyAuths 0).2 ++
          (countAccounts auth.weightThreshold (weighAccount keys nested left) auth.accountAuths
            (countKeys keys auth.weightThreshold auth.keyAuths 0).1.1).2) := by
  unfold weigh
  rfl

/-! ## The answer is the weight -/

theorem countKeys_fst : ((countKeys keys threshold ks total).1.2 = true →
      threshold ≤ total + weightOf (fun k => decide (k ∈ keys)) ks) ∧
    ((countKeys keys threshold ks total).1.2 = false →
      (countKeys keys threshold ks total).1.1 = total + weightOf (fun k => decide (k ∈ keys)) ks) := by
  induction ks generalizing total with
  | nil => simp [countKeys, weightOf]
  | cons p ks ih =>
    obtain ⟨k, w⟩ := p
    unfold countKeys
    rw [weightOf_cons]
    by_cases hk : k ∈ keys
    · have hrest := @ih (total + w)
      rw [if_pos hk]
      simp only [hk, decide_true, if_true]
      by_cases hmet : threshold ≤ total + w
      · rw [if_pos hmet]
        exact ⟨fun _ => by omega, fun h => Bool.noConfusion h⟩
      · rw [if_neg hmet]
        exact ⟨fun h => (hrest.1 h).trans (by omega), fun h => (hrest.2 h).trans (by omega)⟩
    · have hrest := @ih total
      rw [if_neg hk]
      simp only [hk, decide_false, Bool.false_eq_true, if_false, Nat.zero_add]
      exact hrest

theorem le_countAccounts : threshold ≤ (countAccounts threshold check as total).1 ↔
    threshold ≤ total + weightOf (fun a => (check a.toBytes).1) as := by
  induction as generalizing total with
  | nil => simp [countAccounts, weightOf]
  | cons e as ih =>
    obtain ⟨a, w⟩ := e
    unfold countAccounts
    rw [weightOf_cons]
    by_cases ha : (check a.toBytes).1 = true
    · rw [if_pos ha, if_pos ha]
      by_cases hmet : threshold ≤ total + w
      · rw [if_pos hmet]
        refine iff_of_true hmet (by omega)
      · rw [if_neg hmet, ih, Nat.add_assoc]
    · rw [if_neg ha, if_neg ha, ih, Nat.zero_add]

theorem weigh_fst_of (h : ∀ id, (weighAccount keys nested left id).1 = approvedWithin keys nested left id) :
    (weigh keys nested left auth).1 = satisfiedWithin keys nested left auth := by
  rw [weigh_eq, satisfiedWithin_eq]
  obtain ⟨hmet, htotal⟩ := @countKeys_fst keys auth.weightThreshold 0 auth.keyAuths
  split
  · rename_i hown
    have hle := hmet hown
    exact (decide_eq_true (by omega)).symm
  · rename_i hown
    have hown' := htotal (Bool.eq_false_iff.mpr hown)
    simp only [h, hown', decide_eq_decide, le_countAccounts]
    omega

/-- **The keys used until the threshold is met** satisfy the authority when all keys do. -/
theorem weigh_fst (left : Nat) (auth : Authority) : (weigh keys nested left auth).1 = satisfiedWithin keys nested left auth := by
  induction left generalizing auth with
  | zero =>
    refine weigh_fst_of fun id => ?_
    by_cases hid : id = tempId
    · simp [weighAccount, approvedWithin, hid]
    · simp [weighAccount, approvedWithin, hid]
  | succ left ih =>
    refine weigh_fst_of fun id => ?_
    by_cases hid : id = tempId
    · simp [weighAccount, approvedWithin, hid]
    · simp [weighAccount, approvedWithin, hid, ih]

theorem weighAccount_fst (left : Nat) (id : Bytes) :
    (weighAccount keys nested left id).1 = approvedWithin keys nested left id := by
  by_cases hid : id = tempId
  · simp [weighAccount, approvedWithin, hid]
  · cases left with
    | zero => simp [weighAccount, approvedWithin, hid]
    | succ left => simp [weighAccount, approvedWithin, hid, weigh_fst]

/-! ## More keys -/

theorem satisfiedWithin_mono_of (hsub : keys ⊆ keys')
    (h : ∀ id, approvedWithin keys nested left id = true → approvedWithin keys' nested left id = true)
    (hsat : satisfiedWithin keys nested left auth = true) : satisfiedWithin keys' nested left auth = true := by
  rw [satisfiedWithin_eq, decide_eq_true_eq] at hsat ⊢
  have hkeys : weightOf (fun k => decide (k ∈ keys)) auth.keyAuths ≤ weightOf (fun k => decide (k ∈ keys')) auth.keyAuths := by
    refine weightOf_mono fun k _ hk => ?_
    simp only [decide_eq_true_eq] at hk ⊢
    exact hsub hk
  have haccounts : weightOf (fun a => approvedWithin keys nested left a.toBytes) auth.accountAuths ≤
      weightOf (fun a => approvedWithin keys' nested left a.toBytes) auth.accountAuths := weightOf_mono fun e _ => h e.1.toBytes
  omega

/-- **More keys satisfy no less.** -/
theorem satisfiedWithin_mono (hsub : keys ⊆ keys') (left : Nat) (auth : Authority)
    (h : satisfiedWithin keys nested left auth = true) : satisfiedWithin keys' nested left auth = true := by
  induction left generalizing auth with
  | zero => exact satisfiedWithin_mono_of hsub (fun id hid => hid) h
  | succ left ih =>
    refine satisfiedWithin_mono_of hsub (fun id hid => ?_) h
    unfold approvedWithin at hid ⊢
    split
    · rfl
    · rename_i hne
      rw [if_neg hne] at hid
      exact ih _ hid

theorem approvedWithin_mono (hsub : keys ⊆ keys') (left : Nat) (id : Bytes)
    (h : approvedWithin keys nested left id = true) : approvedWithin keys' nested left id = true := by
  unfold approvedWithin at h ⊢
  split
  · rfl
  · rename_i hne
    rw [if_neg hne] at h
    cases left with
    | zero => cases h
    | succ left => exact satisfiedWithin_mono hsub left _ h

/-- The keys are used in order: with more keys the threshold is met no later, and of the old keys no more are used. -/
theorem countKeys_anti (hsub : keys ⊆ keys') (hle : total ≤ total') :
    ((countKeys keys threshold ks total).1.2 = true → (countKeys keys' threshold ks total').1.2 = true) ∧
      ((countKeys keys' threshold ks total').1.2 = false →
        (countKeys keys threshold ks total).1.1 ≤ (countKeys keys' threshold ks total').1.1) ∧
      ∀ k ∈ (countKeys keys' threshold ks total').2, k ∈ keys → k ∈ (countKeys keys threshold ks total).2 := by
  induction ks generalizing total total' with
  | nil => simp [countKeys, hle]
  | cons p ks ih =>
    obtain ⟨k, w⟩ := p
    unfold countKeys
    by_cases hk' : k ∈ keys'
    · rw [if_pos hk']
      by_cases hk : k ∈ keys
      · rw [if_pos hk]
        by_cases hmet' : threshold ≤ total' + w
        · rw [if_pos hmet']
          refine ⟨fun _ => rfl, fun h => Bool.noConfusion h, ?_⟩
          intro x hx _
          obtain rfl := List.mem_singleton.mp hx
          split <;> simp
        · rw [if_neg hmet', if_neg (by omega)]
          obtain ⟨hmet, htotal, hused⟩ := @ih (total + w) (total' + w) (by omega)
          refine ⟨hmet, htotal, ?_⟩
          intro x hx hold
          rcases List.mem_cons.mp hx with rfl | hx
          · exact .head _
          · exact .tail _ (hused x hx hold)
      · rw [if_neg hk]
        by_cases hmet' : threshold ≤ total' + w
        · rw [if_pos hmet']
          refine ⟨fun _ => rfl, fun h => Bool.noConfusion h, ?_⟩
          intro x hx hold
          obtain rfl := List.mem_singleton.mp hx
          exact absurd hold hk
        · rw [if_neg hmet']
          obtain ⟨hmet, htotal, hused⟩ := @ih total (total' + w) (by omega)
          refine ⟨hmet, htotal, ?_⟩
          intro x hx hold
          rcases List.mem_cons.mp hx with rfl | hx
          · exact absurd hold hk
          · exact hused x hx hold
    · rw [if_neg hk', if_neg fun hk => hk' (hsub hk)]
      exact ih hle

theorem countAccounts_anti (hcheck : ∀ e ∈ as, ((check e.1.toBytes).1 = true → (check' e.1.toBytes).1 = true) ∧
      ∀ k ∈ (check' e.1.toBytes).2, k ∈ keys → k ∈ (check e.1.toBytes).2) (hle : total ≤ total') :
    ∀ k ∈ (countAccounts threshold check' as total').2, k ∈ keys → k ∈ (countAccounts threshold check as total).2 := by
  induction as generalizing total total' with
  | nil => simp [countAccounts]
  | cons e as ih =>
    obtain ⟨a, w⟩ := e
    obtain ⟨hone, hrest⟩ := List.forall_mem_cons.mp hcheck
    obtain ⟨happroved, hused⟩ := hone
    have hfirst : ∀ t x, x ∈ (check a.toBytes).2 → x ∈ (countAccounts threshold check ((a, w) :: as) t).2 := by
      intro t x hx
      unfold countAccounts
      split
      · split
        · exact hx
        · exact List.mem_append_left _ hx
      · exact List.mem_append_left _ hx
    -- behind the first entry the new run goes no further than the old one, and with no less weight
    have hlater : ∀ t', total ≤ t' → ((check a.toBytes).1 = true → total + w ≤ t' ∧ ¬ threshold ≤ t') →
        ∀ x ∈ (countAccounts threshold check' as t').2, x ∈ keys →
          x ∈ (countAccounts threshold check ((a, w) :: as) total).2 := by
      intro t' hle' hok x hx hold
      unfold countAccounts
      by_cases ha : (check a.toBytes).1 = true
      · obtain ⟨hweight, hnot⟩ := hok ha
        rw [if_pos ha, if_neg (by omega)]
        exact List.mem_append_right _ (ih hrest hweight x hx hold)
      · rw [if_neg ha]
        exact List.mem_append_right _ (ih hrest hle' x hx hold)
    intro x hx hold
    rw [countAccounts] at hx
    split at hx
    · split at hx
      · exact hfirst _ _ (hused x hx hold)
      · rcases List.mem_append.mp hx with hx | hx
        · exact hfirst _ _ (hused x hx hold)
        · exact hlater (total' + w) (by omega) (fun _ => ⟨by omega, by omega⟩) x hx hold
    · rename_i hno
      rcases List.mem_append.mp hx with hx | hx
      · exact hfirst _ _ (hused x hx hold)
      · exact hlater total' hle (fun ha => absurd (happroved ha) hno) x hx hold

/-- **Of the old keys, no more are used** when there are more keys. -/
theorem weigh_anti (hsub : keys ⊆ keys') (left : Nat) (auth : Authority) :
    ∀ k ∈ (weigh keys' nested left auth).2, k ∈ keys → k ∈ (weigh keys nested left auth).2 := by
  have hstep : ∀ (left : Nat) (auth : Authority),
      (∀ id, ∀ k ∈ (weighAccount keys' nested left id).2, k ∈ keys → k ∈ (weighAccount keys nested left id).2) →
      ∀ k ∈ (weigh keys' nested left auth).2, k ∈ keys → k ∈ (weigh keys nested left auth).2 := by
    intro left auth hnested k hk hold
    obtain ⟨hmet, htotal, hused⟩ := @countKeys_anti keys keys' auth.weightThreshold 0 0 auth.keyAuths hsub le_rfl
    rw [weigh_eq] at hk ⊢
    split at hk
    · have hown := hused k hk hold
      split
      · exact hown
      · exact List.mem_append_left _ hown
    · rename_i hnot
      rw [if_neg fun h => hnot (hmet h)]
      rcases List.mem_append.mp hk with hk | hk
      · exact List.mem_append_left _ (hused k hk hold)
      · refine List.mem_append_right _ (countAccounts_anti (fun e _ => ?_) (htotal (Bool.eq_false_iff.mpr hnot)) k hk hold)
        refine ⟨fun h => ?_, hnested e.1.toBytes⟩
        rw [weighAccount_fst] at h ⊢
        exact approvedWithin_mono hsub left _ h
  induction left generalizing auth with
  | zero =>
    refine hstep 0 auth fun id k hk _ => ?_
    by_cases hid : id = tempId
    · simp [weighAccount, hid] at hk
    · simp [weighAccount, hid] at hk
  | succ left ih =>
    refine hstep (left + 1) auth fun id k hk hold => ?_
    unfold weighAccount at hk ⊢
    split at hk
    · cases hk
    · rename_i hid
      rw [if_neg hid]
      exact ih (nested id) k hk hold

/-! ## The depth does not matter when nothing is cut -/

theorem countAccounts_congr (h : ∀ e ∈ as, check e.1.toBytes = check' e.1.toBytes) :
    countAccounts threshold check as total = countAccounts threshold check' as total := by
  induction as generalizing total with
  | nil => rfl
  | cons e as ih =>
    obtain ⟨a, w⟩ := e
    obtain ⟨hone, hrest⟩ := List.forall_mem_cons.mp h
    simp only at hone
    unfold countAccounts
    rw [hone, ih hrest, ih hrest]

theorem weigh_eq_of_shallow (h : Shallow nested left auth) (h' : Shallow nested left' auth) :
    weigh keys nested left auth = weigh keys nested left' auth := by
  induction left generalizing left' auth with
  | zero =>
    have haccounts : ∀ n total, countAccounts auth.weightThreshold (weighAccount keys nested n) auth.accountAuths total =
        countAccounts auth.weightThreshold (fun _ => (true, [])) auth.accountAuths total := by
      intro n total
      refine countAccounts_congr fun e he => ?_
      rcases shallow_iff.mp h e he with htemp | ⟨n, hn, -⟩
      · unfold weighAccount
        rw [if_pos htemp]
      · omega
    rw [weigh_eq, weigh_eq, haccounts, haccounts]
  | succ left ih =>
    have haccounts : ∀ total, countAccounts auth.weightThreshold (weighAccount keys nested (left + 1)) auth.accountAuths total =
        countAccounts auth.weightThreshold (weighAccount keys nested left') auth.accountAuths total := by
      intro total
      refine countAccounts_congr fun e he => ?_
      rcases shallow_iff.mp h' e he with htemp | ⟨n', rfl, hn'⟩
      · unfold weighAccount
        rw [if_pos htemp, if_pos htemp]
      · rcases shallow_iff.mp h e he with htemp | ⟨n, hn, hshallow⟩
        · unfold weighAccount
          rw [if_pos htemp, if_pos htemp]
        · obtain rfl : left = n := by omega
          unfold weighAccount
          split
          · rfl
          · exact ih hshallow hn'
    rw [weigh_eq, weigh_eq, haccounts]

end Sigmaengine
