import Sigmaengine.Consensus.Weighing

/-!
# Runs of the signature check

What `sign_state` does against the check without a cache.  In every state it approves at least what is satisfied within
the levels it is allowed (`checkAuthority_ready`), since an approval that was kept only adds weight.  Where no account is
nested deeper than that, it approves exactly what is satisfied and uses exactly the keys of `weigh`
(`checkAuthority_exact`), since what was kept is what a new check would find.
-/

namespace Sigmaengine.SignState

open Effect

variable {keys : List PublicKey} {nested : Bytes → Authority} {s s' : SignState} {k : PublicKey}
  {threshold total left : Nat} {ks : List (PublicKey × Nat)} {as : List (AccountName × Nat)} {auth : Authority}

/-- The key was used. -/
def Used (s : SignState) (k : PublicKey) : Prop := (k, true) ∈ s.providedSignatures

/-- The key signed. -/
def Signed (s : SignState) (k : PublicKey) : Prop := ∃ b, (k, b) ∈ s.providedSignatures

/-- The keys signed, and no others are offered. -/
structure Ready (keys : List PublicKey) (s : SignState) : Prop where
  signed : ∀ k ∈ keys, Signed s k
  available : s.availableKeys = []
  temp : tempId ∈ s.approvedBy

/-- Mark a key as used. -/
def mark (k : PublicKey) (s : SignState) : SignState :=
  { s with providedSignatures := s.providedSignatures.map fun p => if p.1 = k then (k, true) else p }

theorem signed_iff : Signed s k ↔ (s.providedSignatures.any fun p => p.1 == k) = true := by
  simp only [Signed, List.any_eq_true, beq_iff_eq]
  constructor
  · rintro ⟨b, hb⟩
    exact ⟨(k, b), hb, rfl⟩
  · rintro ⟨⟨k', b⟩, hb, rfl⟩
    exact ⟨b, hb⟩

theorem signed_mark {x : PublicKey} : Signed (mark k s) x ↔ Signed s x := by
  unfold Signed mark
  simp only [List.mem_map, Prod.exists]
  constructor
  · rintro ⟨b, k', b', hmem, heq⟩
    split at heq
    · rename_i hk
      obtain ⟨rfl, rfl⟩ := Prod.mk.inj heq
      exact ⟨b', hk ▸ hmem⟩
    · obtain ⟨rfl, rfl⟩ := Prod.mk.inj heq
      exact ⟨b', hmem⟩
  · rintro ⟨b, hmem⟩
    by_cases hk : x = k
    · exact ⟨true, x, b, hmem, by rw [if_pos hk, hk]⟩
    · exact ⟨b, x, b, hmem, by rw [if_neg hk]⟩

theorem signedBy_of_signed (h : Signed s k) : signedBy k s = .ok true (mark k s) := by
  unfold signedBy
  rw [if_pos (signed_iff.mp h)]
  rfl

theorem signedBy_of_not_signed (havailable : s.availableKeys = []) (h : ¬ Signed s k) : signedBy k s = .ok false s := by
  unfold signedBy
  rw [if_neg fun hany => h (signed_iff.mpr hany), havailable]
  rfl

theorem Ready.mark (hs : Ready keys s) : Ready keys (mark k s) :=
  ⟨fun x hx => signed_mark.mpr (hs.signed x hx), hs.available, hs.temp⟩

/-! ## No less than what is satisfied -/

theorem checkKeys_ready (hs : Ready keys s) (hfits : total + (ks.map Prod.snd).sum < 4294967296) :
    ∃ t met s', checkKeys threshold ks total s = .ok (t, met) s' ∧ Ready keys s' ∧ t ≤ total + (ks.map Prod.snd).sum ∧
      (met = true ∨ total + weightOf (fun k => decide (k ∈ keys)) ks ≤ t) := by
  induction ks generalizing total s with
  | nil => exact ⟨total, false, s, rfl, hs, by simp, .inr (by simp [weightOf])⟩
  | cons p ks ih =>
    obtain ⟨k, w⟩ := p
    rw [List.map_cons, List.sum_cons] at hfits ⊢
    rw [weightOf_cons]
    unfold checkKeys
    by_cases hk : Signed s k
    · rw [bind_of_ok (signedBy_of_signed hk), if_pos rfl, Nat.mod_eq_of_lt (by omega)]
      by_cases hmet : threshold ≤ total + w
      · refine ⟨total + w, true, mark k s, ?_, hs.mark, by omega, .inl rfl⟩
        simp [hmet]
        rfl
      · obtain ⟨t, met, s', hrest, hs', hle, hweight⟩ := @ih (mark k s) (total + w) hs.mark (by omega)
        refine ⟨t, met, s', ?_, hs', by omega, hweight.imp_right fun h => ?_⟩
        · simp only [Bool.true_and, decide_eq_true_eq, hmet, if_false]
          exact hrest
        · split <;> omega
    · have hno : k ∉ keys := fun hmem => hk (hs.signed k hmem)
      obtain ⟨t, met, s', hrest, hs', hle, hweight⟩ := @ih s total hs (by omega)
      refine ⟨t, met, s', ?_, hs', by omega, ?_⟩
      · rw [bind_of_ok (signedBy_of_not_signed hs.available hk)]
        exact hrest
      · simpa [hno] using hweight

/-- A check of an account that approves it when it is satisfied. -/
def Approves (keys : List PublicKey) (satisfied : Bool) (p : Prog Error SignState Bool) : Prop :=
  ∀ s, Ready keys s → ∃ b s', p s = .ok b s' ∧ Ready keys s' ∧ (satisfied = true → b = true)

/-- An account is approved by what is kept, or else by the check. -/
theorem checkAccounts_cons {check : Bytes → Prog Error SignState Bool} {a : AccountName} {w : Nat} {b : Bool} {s₁ : SignState}
    (h : (if s.approvedBy.contains a.toBytes = true then (pure true : Prog Error SignState Bool)
      else check a.toBytes) s = .ok b s₁) :
    checkAccounts threshold check ((a, w) :: as) total s =
      (if b && threshold ≤ (if b then (total + w) % 4294967296 else total) then
        pure (if b then (total + w) % 4294967296 else total)
      else checkAccounts threshold check as (if b then (total + w) % 4294967296 else total)) s₁ := by
  rw [checkAccounts, bind_of_ok (get_apply s)]
  split at h
  · rename_i hkept
    obtain ⟨rfl, rfl⟩ := pure_eq_ok.mp h
    rw [if_pos hkept]
    rfl
  · rename_i hnew
    rw [if_neg hnew, bind_of_ok h]

theorem checkAccounts_ready {check : Bytes → Prog Error SignState Bool} {satisfied : Bytes → Bool}
    (hcheck : ∀ id, id ≠ tempId → Approves keys (satisfied id) (check id)) (hs : Ready keys s)
    (hfits : total + (as.map Prod.snd).sum < 4294967296) :
    ∃ t s', checkAccounts threshold check as total s = .ok t s' ∧ Ready keys s' ∧
      (threshold ≤ t ∨ total + weightOf (fun a => satisfied a.toBytes) as ≤ t) := by
  induction as generalizing total s with
  | nil => exact ⟨total, s, rfl, hs, .inr (by simp [weightOf])⟩
  | cons e as ih =>
    obtain ⟨a, w⟩ := e
    rw [List.map_cons, List.sum_cons] at hfits
    rw [weightOf_cons]
    -- the answer comes from what is kept or from the check
    have hone : ∃ b s₁, Ready keys s₁ ∧ (satisfied a.toBytes = true → b = true) ∧
        (if s.approvedBy.contains a.toBytes = true then (pure true : Prog Error SignState Bool)
          else check a.toBytes) s = .ok b s₁ := by
      split
      · exact ⟨true, s, hs, fun _ => rfl, rfl⟩
      · rename_i hnew
        have hid : a.toBytes ≠ tempId := by
          intro heq
          rw [heq] at hnew
          exact hnew (List.contains_iff_mem.mpr hs.temp)
        obtain ⟨b, s₁, hb, hs₁, hsat⟩ := hcheck a.toBytes hid s hs
        exact ⟨b, s₁, hs₁, hsat, hb⟩
    obtain ⟨b, s₁, hs₁, hsat, hb⟩ := hone
    rw [checkAccounts_cons hb]
    cases b with
    | true =>
      rw [if_pos rfl, Nat.mod_eq_of_lt (by omega)]
      by_cases hmet : threshold ≤ total + w
      · refine ⟨total + w, s₁, ?_, hs₁, .inl hmet⟩
        simp [hmet]
        rfl
      · obtain ⟨t, s', hrest, hs', hweight⟩ := @ih s₁ (total + w) hs₁ (by omega)
        refine ⟨t, s', ?_, hs', hweight.imp_right fun h => ?_⟩
        · simp only [Bool.true_and, decide_eq_true_eq, hmet, if_false]
          exact hrest
        · split <;> omega
    | false =>
      have hno : satisfied a.toBytes = false := by
        by_contra h
        exact Bool.false_ne_true (hsat (Bool.eq_true_of_not_eq_false h))
      obtain ⟨t, s', hrest, hs', hweight⟩ := @ih s₁ total hs₁ (by omega)
      refine ⟨t, s', hrest, hs', ?_⟩
      simpa [hno] using hweight

/-- **In every state** the check returns, and approves what is satisfied within the levels it is allowed. -/
theorem checkAuthority_ready (hnested : ∀ id, Fits (nested id)) (left : Nat) (hfits : Fits auth) :
    Approves keys (satisfiedWithin keys nested left auth) (checkAuthority (fun id => some (nested id)) left auth) := by
  have hstep : ∀ (left : Nat) (auth : Authority) (check : Bytes → Prog Error SignState Bool), Fits auth →
      (∀ id, id ≠ tempId → Approves keys (approvedWithin keys nested left id) (check id)) →
      Approves keys (satisfiedWithin keys nested left auth) (do
        let p ← checkKeys auth.weightThreshold auth.keyAuths 0
        if p.2 then pure true
        else do
          let total ← checkAccounts auth.weightThreshold check auth.accountAuths p.1
          pure (decide (auth.weightThreshold ≤ total))) := by
    intro left auth check hfits hcheck s hs
    unfold Fits at hfits
    obtain ⟨t, met, s₁, hkeys, hs₁, hle, hweight⟩ := @checkKeys_ready keys s auth.weightThreshold 0 auth.keyAuths hs
      (by omega)
    rw [bind_of_ok hkeys]
    cases met with
    | true => exact ⟨true, s₁, rfl, hs₁, fun _ => rfl⟩
    | false =>
      obtain ⟨t', s', haccounts, hs', hweight'⟩ := @checkAccounts_ready keys s₁ auth.weightThreshold t
        auth.accountAuths check _ hcheck hs₁ (by omega)
      refine ⟨decide (auth.weightThreshold ≤ t'), s', ?_, hs', fun hsat => ?_⟩
      · show (checkAccounts _ _ _ _ >>= _) s₁ = _
        rw [bind_of_ok haccounts]
        rfl
      · rw [satisfiedWithin_eq, decide_eq_true_eq] at hsat
        simp only [Bool.false_eq_true, false_or] at hweight
        rw [decide_eq_true_eq]
        omega
  induction left generalizing auth with
  | zero =>
    unfold checkAuthority
    refine hstep 0 auth _ hfits fun id hid s hs => ⟨false, s, rfl, hs, fun hsat => ?_⟩
    simp [approvedWithin, hid] at hsat
  | succ left ih =>
    unfold checkAuthority
    refine hstep (left + 1) auth _ hfits fun id hid s hs => ?_
    obtain ⟨b, s₁, hb, hs₁, hsat⟩ := ih (hnested id) s hs
    have happroved : approvedWithin keys nested (left + 1) id = true → b = true := by
      intro h
      simp only [approvedWithin, hid, if_false] at h
      exact hsat h
    cases b with
    | true =>
      refine ⟨true, { s₁ with approvedBy := id :: s₁.approvedBy }, ?_, ⟨hs₁.signed, hs₁.available, .tail _ hs₁.temp⟩,
        fun _ => rfl⟩
      show (checkAuthority _ left (nested id) >>= _) s = _
      rw [bind_of_ok hb]
      rfl
    | false =>
      refine ⟨false, s₁, ?_, hs₁, happroved⟩
      show (checkAuthority _ left (nested id) >>= _) s = _
      rw [bind_of_ok hb]
      rfl

/-! ## No more, where nothing is cut -/

/-- What is kept is what a new check would find, and its keys were used. -/
structure Exact (keys : List PublicKey) (nested : Bytes → Authority) (s : SignState) : Prop where
  signed : ∀ k, Signed s k ↔ k ∈ keys
  uniform : ∀ k, Used s k → (k, false) ∉ s.providedSignatures
  available : s.availableKeys = []
  temp : tempId ∈ s.approvedBy
  approved : ∀ id ∈ s.approvedBy, id = tempId ∨ ∃ n, Shallow nested n (nested id) ∧
    (weigh keys nested n (nested id)).1 = true ∧ ∀ k ∈ (weigh keys nested n (nested id)).2, Used s k

/-- The check uses these keys on top of those used before. -/
def Uses (s s' : SignState) (used : List PublicKey) : Prop := ∀ k, Used s' k ↔ Used s k ∨ k ∈ used

theorem Uses.refl : Uses s s [] := fun k => by simp

theorem Uses.trans {s₁ : SignState} {used used' : List PublicKey} (h : Uses s s₁ used) (h' : Uses s₁ s' used') :
    Uses s s' (used ++ used') := by
  intro k
  rw [h' k, h k, List.mem_append, or_assoc]

/-- Keys used before need not be used again. -/
theorem Uses.of_used {used : List PublicKey} (h : ∀ k ∈ used, Used s k) : Uses s s used :=
  fun k => ⟨.inl, fun hk => hk.elim id (h k)⟩

theorem used_mark {x : PublicKey} (h : Signed s k) : Used (mark k s) x ↔ Used s x ∨ x ∈ [k] := by
  unfold Used mark
  simp only [List.mem_map, Prod.exists, List.mem_singleton]
  constructor
  · rintro ⟨k', b', hmem, heq⟩
    split at heq
    · obtain ⟨rfl, -⟩ := Prod.mk.inj heq
      exact .inr rfl
    · obtain ⟨rfl, rfl⟩ := Prod.mk.inj heq
      exact .inl hmem
  · rintro (hmem | rfl)
    · by_cases hk : x = k
      · exact ⟨x, true, hmem, by rw [if_pos hk, hk]⟩
      · exact ⟨x, true, hmem, by rw [if_neg hk]⟩
    · obtain ⟨b, hb⟩ := h
      exact ⟨x, b, hb, if_pos rfl⟩

theorem Exact.mark (hs : Exact keys nested s) (hk : Signed s k) : Exact keys nested (mark k s) := by
  constructor
  · intro x
    rw [signed_mark, hs.signed]
  · intro x hx hfalse
    rw [used_mark hk] at hx
    obtain ⟨⟨k', b⟩, hmem, heq⟩ := List.mem_map.mp hfalse
    split at heq
    · cases heq
    · rename_i hne
      cases heq
      rcases hx with hx | hx
      · exact hs.uniform x hx hmem
      · exact hne (List.mem_singleton.mp hx)
  · exact hs.available
  · exact hs.temp
  · intro id hid
    refine (hs.approved id hid).imp_right ?_
    rintro ⟨n, hshallow, hsat, hused⟩
    exact ⟨n, hshallow, hsat, fun x hx => (used_mark hk).mpr (.inl (hused x hx))⟩

theorem checkKeys_exact (hs : Exact keys nested s) (hfits : total + (ks.map Prod.snd).sum < 4294967296) :
    ∃ s', checkKeys threshold ks total s = .ok (countKeys keys threshold ks total).1 s' ∧ Exact keys nested s' ∧
      Uses s s' (countKeys keys threshold ks total).2 := by
  induction ks generalizing total s with
  | nil => exact ⟨s, rfl, hs, .refl⟩
  | cons p ks ih =>
    obtain ⟨k, w⟩ := p
    rw [List.map_cons, List.sum_cons] at hfits
    unfold checkKeys countKeys
    by_cases hk : Signed s k
    · have huses : Uses s (mark k s) [k] := fun x => used_mark hk
      rw [bind_of_ok (signedBy_of_signed hk), if_pos ((hs.signed k).mp hk), if_pos rfl, Nat.mod_eq_of_lt (by omega)]
      by_cases hmet : threshold ≤ total + w
      · rw [if_pos hmet]
        refine ⟨mark k s, ?_, hs.mark hk, huses⟩
        simp [hmet]
        rfl
      · obtain ⟨s', hrest, hs', huses'⟩ := @ih (mark k s) (total + w) (hs.mark hk) (by omega)
        rw [if_neg hmet]
        refine ⟨s', ?_, hs', huses.trans huses'⟩
        simp only [Bool.true_and, decide_eq_true_eq, hmet, if_false]
        exact hrest
    · obtain ⟨s', hrest, hs', huses⟩ := @ih s total hs (by omega)
      rw [bind_of_ok (signedBy_of_not_signed hs.available hk), if_neg fun hmem => hk ((hs.signed k).mpr hmem)]
      exact ⟨s', hrest, hs', huses⟩

/-- A check that finds exactly what `weigh` says. -/
def Finds (keys : List PublicKey) (nested : Bytes → Authority) (answer : Bool × List PublicKey)
    (p : Prog Error SignState Bool) : Prop :=
  ∀ s, Exact keys nested s → ∃ s', p s = .ok answer.1 s' ∧ Exact keys nested s' ∧ Uses s s' answer.2

/-- What is kept of an account is what a check of it within enough levels finds. -/
theorem Exact.kept {id : Bytes} (hs : Exact keys nested s) (hid : id ∈ s.approvedBy)
    (hshallow : id = tempId ∨ ∃ n, left = n + 1 ∧ Shallow nested n (nested id)) :
    (weighAccount keys nested left id).1 = true ∧ ∀ k ∈ (weighAccount keys nested left id).2, Used s k := by
  unfold weighAccount
  by_cases htemp : id = tempId
  · rw [if_pos htemp]
    simp
  · rw [if_neg htemp]
    obtain ⟨n, rfl, hn⟩ := hshallow.resolve_left htemp
    obtain ⟨m, hm, hsat, hused⟩ := (hs.approved id hid).resolve_left htemp
    rw [weigh_eq_of_shallow hm hn] at hsat hused
    exact ⟨hsat, hused⟩

theorem checkAccounts_exact {check : Bytes → Prog Error SignState Bool}
    (hshallow : ∀ e ∈ as, e.1.toBytes = tempId ∨ ∃ n, left = n + 1 ∧ Shallow nested n (nested e.1.toBytes))
    (hcheck : ∀ e ∈ as, e.1.toBytes ≠ tempId →
      Finds keys nested (weighAccount keys nested left e.1.toBytes) (check e.1.toBytes))
    (hs : Exact keys nested s) (hfits : total + (as.map Prod.snd).sum < 4294967296) :
    ∃ s', checkAccounts threshold check as total s =
        .ok (countAccounts threshold (weighAccount keys nested left) as total).1 s' ∧ Exact keys nested s' ∧
      Uses s s' (countAccounts threshold (weighAccount keys nested left) as total).2 := by
  induction as generalizing total s with
  | nil => exact ⟨s, rfl, hs, .refl⟩
  | cons e as ih =>
    obtain ⟨a, w⟩ := e
    rw [List.map_cons, List.sum_cons] at hfits
    obtain ⟨hshallow, hshallows⟩ := List.forall_mem_cons.mp hshallow
    obtain ⟨hcheck, hchecks⟩ := List.forall_mem_cons.mp hcheck
    have hone : ∃ s₁, Exact keys nested s₁ ∧ Uses s s₁ (weighAccount keys nested left a.toBytes).2 ∧
        (if s.approvedBy.contains a.toBytes = true then (pure true : Prog Error SignState Bool)
          else check a.toBytes) s = .ok (weighAccount keys nested left a.toBytes).1 s₁ := by
      split
      · rename_i hkept
        obtain ⟨hsat, hused⟩ := hs.kept (List.contains_iff_mem.mp hkept) hshallow
        rw [hsat]
        exact ⟨s, hs, .of_used hused, rfl⟩
      · rename_i hnew
        have hid : a.toBytes ≠ tempId := by
          intro heq
          rw [heq] at hnew
          exact hnew (List.contains_iff_mem.mpr hs.temp)
        obtain ⟨s₁, hb, hs₁, huses⟩ := hcheck hid s hs
        exact ⟨s₁, hs₁, huses, hb⟩
    obtain ⟨s₁, hs₁, huses, hb⟩ := hone
    rw [checkAccounts_cons hb]
    unfold countAccounts
    by_cases ha : (weighAccount keys nested left a.toBytes).1 = true
    · rw [if_pos ha, ha, if_pos rfl, Nat.mod_eq_of_lt (by omega)]
      by_cases hmet : threshold ≤ total + w
      · rw [if_pos hmet]
        refine ⟨s₁, ?_, hs₁, huses⟩
        simp [hmet]
        rfl
      · obtain ⟨s', hrest, hs', huses'⟩ := @ih s₁ (total + w) hshallows hchecks hs₁ (by omega)
        rw [if_neg hmet]
        refine ⟨s', ?_, hs', huses.trans huses'⟩
        simp only [Bool.true_and, decide_eq_true_eq, hmet, if_false]
        exact hrest
    · obtain ⟨s', hrest, hs', huses'⟩ := @ih s₁ total hshallows hchecks hs₁ (by omega)
      rw [if_neg ha, Bool.eq_false_iff.mpr ha]
      exact ⟨s', hrest, hs', huses.trans huses'⟩

/-- **Where nothing is cut** the check finds what one without the cache finds, and uses the same keys. -/
theorem checkAuthority_exact (hnested : ∀ id, Fits (nested id)) (left : Nat) (hfits : Fits auth)
    (hshallow : Shallow nested left auth) :
    Finds keys nested (weigh keys nested left auth) (checkAuthority (fun id => some (nested id)) left auth) := by
  have hstep : ∀ (left : Nat) (auth : Authority) (check : Bytes → Prog Error SignState Bool), Fits auth →
      Shallow nested left auth →
      (∀ e ∈ auth.accountAuths, e.1.toBytes ≠ tempId →
        Finds keys nested (weighAccount keys nested left e.1.toBytes) (check e.1.toBytes)) →
      Finds keys nested (weigh keys nested left auth) (do
        let p ← checkKeys auth.weightThreshold auth.keyAuths 0
        if p.2 then pure true
        else do
          let total ← checkAccounts auth.weightThreshold check auth.accountAuths p.1
          pure (decide (auth.weightThreshold ≤ total))) := by
    intro left auth check hfits hshallow hcheck s hs
    unfold Fits at hfits
    obtain ⟨s₁, hkeys, hs₁, huses⟩ := @checkKeys_exact keys nested s auth.weightThreshold 0 auth.keyAuths hs (by omega)
    rw [bind_of_ok hkeys, weigh_eq]
    by_cases hmet : (countKeys keys auth.weightThreshold auth.keyAuths 0).1.2 = true
    · rw [if_pos hmet, if_pos hmet]
      exact ⟨s₁, rfl, hs₁, huses⟩
    · have htotal := (@countKeys_fst keys auth.weightThreshold 0 auth.keyAuths).2 (Bool.eq_false_iff.mpr hmet)
      have hle := @weightOf_le _ (fun k => decide (k ∈ keys)) auth.keyAuths
      obtain ⟨s', haccounts, hs', huses'⟩ := @checkAccounts_exact keys nested s₁ auth.weightThreshold
        (countKeys keys auth.weightThreshold auth.keyAuths 0).1.1 left auth.accountAuths check
        (shallow_iff.mp hshallow) hcheck hs₁ (by omega)
      rw [if_neg hmet, if_neg hmet]
      refine ⟨s', ?_, hs', huses.trans huses'⟩
      rw [bind_of_ok haccounts]
      rfl
  induction left generalizing auth with
  | zero =>
    unfold checkAuthority
    refine hstep 0 auth _ hfits hshallow fun e he hid => ?_
    obtain ⟨n, hn, -⟩ := (shallow_iff.mp hshallow e he).resolve_left hid
    omega
  | succ left ih =>
    unfold checkAuthority
    refine hstep (left + 1) auth _ hfits hshallow fun e he hid s hs => ?_
    obtain ⟨n, hn, hdeep⟩ := (shallow_iff.mp hshallow e he).resolve_left hid
    obtain rfl : left = n := by omega
    have hweigh : weighAccount keys nested (left + 1) e.1.toBytes = weigh keys nested left (nested e.1.toBytes) := by
      simp [weighAccount, hid]
    obtain ⟨s₁, hb, hs₁, huses⟩ := ih (hnested _) hdeep s hs
    rw [hweigh]
    by_cases hsat : (weigh keys nested left (nested e.1.toBytes)).1 = true
    · refine ⟨{ s₁ with approvedBy := e.1.toBytes :: s₁.approvedBy }, ?_, ?_, huses⟩
      · show (checkAuthority _ left (nested e.1.toBytes) >>= _) s = _
        rw [bind_of_ok hb, hsat]
        rfl
      · refine ⟨hs₁.signed, hs₁.uniform, hs₁.available, .tail _ hs₁.temp, fun id hmem => ?_⟩
        rcases List.mem_cons.mp hmem with rfl | hold
        · exact .inr ⟨left, hdeep, hsat, fun k hk => (huses k).mpr (.inr hk)⟩
        · exact hs₁.approved id hold
    · refine ⟨s₁, ?_, hs₁, huses⟩
      show (checkAuthority _ left (nested e.1.toBytes) >>= _) s = _
      rw [bind_of_ok hb, Bool.eq_false_iff.mpr hsat]
      rfl

end Sigmaengine.SignState
