import Sigmaengine.Consensus.MoreSignatures

/-!
# Potential signatures

`get_potential_signatures` runs `get_required_signatures` without any key, and notes the keys of every authority that the
check asks the getters for.  `verify_authority` looks at more authorities than that.
-/

namespace Sigmaengine

open Effect SignState

/-! ## The checks with getters that note keys -/

/-- `sign_state`, and the result so far. -/
structure PotentialState where
  state : SignState
  result : List PublicKey

/-- The `sign_state`. -/
def PotentialState.sign : Part PotentialState SignState where
  get s := s.state
  set t s := { s with state := t }
  get_set _ _ := rfl
  set_get _ := rfl

/-- A getter: it notes the keys of the authority it returns. -/
def noteKeys (get : Bytes → Option Authority) (id : Bytes) : Prog Error PotentialState Authority := do
  let auth ← ofOption (get id) .notFound
  modify fun s => { s with result := s.result ++ auth.keyAuths.map Prod.fst }
  pure auth

/-- `checkAccounts` over these states. -/
def noteAccounts (threshold : Nat) (check : Bytes → Prog Error PotentialState Bool) :
    List (AccountName × Nat) → Nat → Prog Error PotentialState Nat
  | [], total => pure total
  | (a, w) :: as, total => do
    let s ← get
    let ok ← if s.state.approvedBy.contains a.toBytes then pure true else check a.toBytes
    let total' := if ok then (total + w) % 4294967296 else total
    if ok && threshold ≤ total' then pure total' else noteAccounts threshold check as total'

/-- `check_authority( auth, depth )` with a getter that notes keys. -/
def noteAuthority (getActive : Bytes → Option Authority) : Nat → Authority → Prog Error PotentialState Bool
  | left, auth => do
    let (total, met) ← within PotentialState.sign (checkKeys auth.weightThreshold auth.keyAuths 0)
    if met then pure true
    else do
      let total ← noteAccounts auth.weightThreshold
        (fun id =>
          match left with
          | 0 => pure false
          | left + 1 => do
            let nested ← noteKeys getActive id
            let ok ← noteAuthority getActive left nested
            if ok then do
              within PotentialState.sign (approve id)
              pure true
            else pure false)
        auth.accountAuths total
      pure (decide (auth.weightThreshold ≤ total))

/-- `check_authority( id )` with a getter that notes keys. -/
def noteAccount (getActive : Bytes → Option Authority) (depth : Nat) (id : Bytes) : Prog Error PotentialState Bool := do
  let s ← get
  if s.state.approvedBy.contains id then pure true
  else do
    let auth ← noteKeys getActive id
    noteAuthority getActive depth auth

/-- `check_authority( get_owner( id ) )` with getters that note keys. -/
def noteStored (get nested : Bytes → Option Authority) (depth : Nat) (a : AccountName) :
    Prog Error PotentialState Bool := do
  let auth ← noteKeys get a.toBytes
  noteAuthority nested depth auth

/-- The checks of `get_required_signatures`, with the getters of `get_potential_signatures`. -/
def noteSignatures (g : AuthorityGetters) (depth : Nat) (r : RequiredAuthorities) : Prog Error PotentialState Unit :=
  if r.posting ≠ [] then do
    fcAssert (r.owner.isEmpty) "!required_owner.size()"
    fcAssert (r.active.isEmpty) "!required_active.size()"
    each (fun a => do
      let _ ← noteAccount g.getPosting depth a.toBytes) r.posting
  else do
    each (fun auth => do
      let _ ← noteAuthority g.getActive depth auth) r.other
    each (fun a => do
      let _ ← noteStored g.getOwner g.getActive depth a) r.owner
    each (fun a => do
      let _ ← noteAccount g.getActive depth a.toBytes) r.active

/-- `get_potential_signatures`. -/
def SignedTransaction.getPotentialSignatures (cd : Codec) (trx : SignedTransaction) (g : AuthorityGetters) (depth : Nat) :
    Except Error (List PublicKey) := do
  let sigs ← trx.getSignatureKeys cd
  match noteSignatures g depth (requiredOf trx.operations) ⟨SignState.init sigs [], []⟩ with
  | .error e _ => .error e
  | .ok _ s => return keySet s.result

/-! ## The keys of nested authorities -/

section Keys

variable (nested : Bytes → Authority)

/-- The keys of the accounts nested at most `left` levels deep. -/
def keysBelow : Nat → Authority → List PublicKey
  | left, auth => auth.accountAuths.flatMap fun e =>
    if e.1.toBytes = tempId then [] else
      match left with
      | 0 => []
      | left + 1 => (nested e.1.toBytes).keyAuths.map Prod.fst ++ keysBelow left (nested e.1.toBytes)

/-- The same with the keys of the authority itself. -/
def keysWithin (left : Nat) (auth : Authority) : List PublicKey := auth.keyAuths.map Prod.fst ++ keysBelow nested left auth

/-- The keys of an account entry. -/
def keysOfAccount (left : Nat) (id : Bytes) : List PublicKey :=
  if id = tempId then [] else
    match left with
    | 0 => []
    | left + 1 => keysWithin nested left (nested id)

variable {nested} {left : Nat} {auth : Authority}

theorem keysBelow_eq : keysBelow nested left auth = auth.accountAuths.flatMap fun e => keysOfAccount nested left e.1.toBytes := by
  unfold keysBelow
  rfl

/-- The account that is approved from the start does not satisfy the authority. -/
def Keyed (auth : Authority) : Prop := weightOf (fun a => decide (a.toBytes = tempId)) auth.accountAuths < auth.weightThreshold

instance (auth : Authority) : Decidable (Keyed auth) := inferInstanceAs (Decidable (_ < _))

variable (nested) in
/-- The same of the accounts nested at most `left` levels deep. -/
def KeyedWithin : Nat → Authority → Prop
  | left, auth => Keyed auth ∧ ∀ e ∈ auth.accountAuths, e.1.toBytes = tempId ∨
    match left with
    | 0 => True
    | left + 1 => KeyedWithin left (nested e.1.toBytes)

theorem keyedWithin_zero : KeyedWithin nested 0 auth ↔ Keyed auth := by
  unfold KeyedWithin
  simp

theorem keyedWithin_succ : KeyedWithin nested (left + 1) auth ↔
    Keyed auth ∧ ∀ e ∈ auth.accountAuths, e.1.toBytes = tempId ∨ KeyedWithin nested left (nested e.1.toBytes) := by
  rw [KeyedWithin]

end Keys

/-! ## What is noted -/

section Noting

variable {nested : Bytes → Authority} {left : Nat} {auth : Authority} {s : PotentialState}

/-- Nobody has signed, no key is offered, and nothing but `temp` is approved. -/
structure Blank (s : SignState) : Prop where
  unsigned : s.providedSignatures = []
  offered : s.availableKeys = []
  approved : s.approvedBy = [tempId]

theorem checkKeys_unsigned {s : SignState} (hunsigned : s.providedSignatures = []) (hoffered : s.availableKeys = [])
    (threshold : Nat) (ks : List (PublicKey × Nat)) (total : Nat) :
    checkKeys threshold ks total s = .ok (total, false) s := by
  induction ks with
  | nil => rfl
  | cons p ks ih =>
    obtain ⟨k, w⟩ := p
    have hsigned : signedBy k s = .ok false s := by
      unfold signedBy
      rw [hunsigned, hoffered]
      rfl
    unfold checkKeys
    rw [bind_of_ok hsigned]
    exact ih

theorem noteKeys_apply (get : Bytes → Authority) (id : Bytes) (s : PotentialState) :
    noteKeys (fun id => some (get id)) id s =
      .ok (get id) { s with result := s.result ++ (get id).keyAuths.map Prod.fst } := rfl

/-- The entries add up to less than the threshold, so that all of them are looked at. -/
theorem noteAccounts_keyed {threshold total : Nat} {check : Bytes → Prog Error PotentialState Bool}
    {keysOf : Bytes → List PublicKey} {as : List (AccountName × Nat)} (hs : Blank s.state)
    (hcheck : ∀ e ∈ as, e.1.toBytes ≠ tempId → ∀ s : PotentialState, Blank s.state →
      check e.1.toBytes s = .ok false { s with result := s.result ++ keysOf e.1.toBytes })
    (hless : total + weightOf (fun a => decide (a.toBytes = tempId)) as < threshold) :
    ∃ t, noteAccounts threshold check as total s =
        .ok t { s with result := s.result ++ as.flatMap fun e => if e.1.toBytes = tempId then [] else keysOf e.1.toBytes } ∧
      t < threshold := by
  induction as generalizing total s with
  | nil =>
    refine ⟨total, ?_, by omega⟩
    rw [List.flatMap_nil, List.append_nil]
    rfl
  | cons e as ih =>
    obtain ⟨a, w⟩ := e
    obtain ⟨hone, hrest⟩ := List.forall_mem_cons.mp hcheck
    rw [weightOf_cons] at hless
    have hcontains : s.state.approvedBy.contains a.toBytes = decide (a.toBytes = tempId) := by
      rw [hs.approved]
      simp
    unfold noteAccounts
    rw [bind_of_ok (get_apply s), List.flatMap_cons]
    by_cases htemp : a.toBytes = tempId
    · have hle : (total + w) % 4294967296 ≤ total + w := Nat.mod_le _ _
      simp only [htemp, decide_true, if_true] at hless
      obtain ⟨t, hall, hlt⟩ := @ih s ((total + w) % 4294967296) hs hrest (by omega)
      refine ⟨t, ?_, hlt⟩
      have hnot : ¬ threshold ≤ (total + w) % 4294967296 := by omega
      rw [htemp] at hcontains
      simp only [htemp, hcontains, decide_true, if_true, List.nil_append, pure_bind, hnot, decide_false, Bool.and_false,
        Bool.false_eq_true, if_false]
      exact hall
    · simp only [htemp, decide_false, Bool.false_eq_true, if_false] at hless
      obtain ⟨t, hall, hlt⟩ := @ih { s with result := s.result ++ keysOf a.toBytes } total hs hrest (by omega)
      refine ⟨t, ?_, hlt⟩
      rw [hcontains]
      simp only [htemp, decide_false, Bool.false_eq_true, if_false]
      rw [bind_of_ok (hone htemp s hs)]
      simp only [Bool.false_and, Bool.false_eq_true, if_false]
      rw [← List.append_assoc]
      exact hall

/-- **Without any key** the check fails, after all keys below the authority have been noted. -/
theorem noteAuthority_keyed (hs : Blank s.state) (hauth : KeyedWithin nested left auth) :
    noteAuthority (fun id => some (nested id)) left auth s =
      .ok false { s with result := s.result ++ keysBelow nested left auth } := by
  have hstep : ∀ (left : Nat) (auth : Authority) (s : PotentialState) (check : Bytes → Prog Error PotentialState Bool),
      Blank s.state → Keyed auth →
      (∀ e ∈ auth.accountAuths, e.1.toBytes ≠ tempId → ∀ s : PotentialState, Blank s.state →
        check e.1.toBytes s = .ok false { s with result := s.result ++ keysOfAccount nested left e.1.toBytes }) →
      (do
        let (total, met) ← within PotentialState.sign (checkKeys auth.weightThreshold auth.keyAuths 0)
        if met then pure true
        else do
          let total ← noteAccounts auth.weightThreshold check auth.accountAuths total
          pure (decide (auth.weightThreshold ≤ total)) : Prog Error PotentialState Bool) s =
        .ok false { s with result := s.result ++ keysBelow nested left auth } := by
    intro left auth s check hs hauth hcheck
    have hkeys : within PotentialState.sign (checkKeys auth.weightThreshold auth.keyAuths 0) s = .ok (0, false) s := by
      unfold within
      rw [show PotentialState.sign.get s = s.state from rfl, checkKeys_unsigned hs.unsigned hs.offered]
      rfl
    obtain ⟨t, haccounts, hlt⟩ := @noteAccounts_keyed s auth.weightThreshold 0 check (keysOfAccount nested left)
      auth.accountAuths hs hcheck
      (by rw [Nat.zero_add]; exact hauth)
    have hbelow : (auth.accountAuths.flatMap fun e =>
        if e.1.toBytes = tempId then [] else keysOfAccount nested left e.1.toBytes) = keysBelow nested left auth := by
      rw [keysBelow_eq]
      congr 1
      funext e
      unfold keysOfAccount
      split
      · rfl
      · rfl
    rw [bind_of_ok hkeys]
    simp only [Bool.false_eq_true, if_false]
    rw [bind_of_ok haccounts, hbelow, decide_eq_false (by omega)]
    rfl
  induction left generalizing auth s with
  | zero =>
    unfold noteAuthority
    refine hstep 0 auth s _ hs (keyedWithin_zero.mp hauth) fun e _ hid s _ => ?_
    simp only [keysOfAccount, if_neg hid, List.append_nil]
    rfl
  | succ left ih =>
    unfold noteAuthority
    obtain ⟨hown, hbelow⟩ := keyedWithin_succ.mp hauth
    refine hstep (left + 1) auth s _ hs hown fun e he hid s hs => ?_
    have hdeep := @ih (nested e.1.toBytes)
      { s with result := s.result ++ (nested e.1.toBytes).keyAuths.map Prod.fst } hs ((hbelow e he).resolve_left hid)
    simp only
    rw [bind_of_ok (noteKeys_apply nested e.1.toBytes s), bind_of_ok hdeep]
    simp only [keysOfAccount, if_neg hid, keysWithin, List.append_assoc, Bool.false_eq_true, if_false]
    rfl

/-- The check of an account, and of an authority that a getter returns. -/
theorem noteAccount_keyed (hs : Blank s.state) (depth : Nat) {id : Bytes}
    (hid : id = tempId ∨ KeyedWithin nested depth (nested id)) :
    ∃ b, noteAccount (fun id => some (nested id)) depth id s =
      .ok b { s with result := s.result ++ keysOfAccount nested (depth + 1) id } := by
  have hcontains : s.state.approvedBy.contains id = decide (id = tempId) := by
    rw [hs.approved]
    simp
  unfold noteAccount
  rw [bind_of_ok (get_apply s), hcontains]
  unfold keysOfAccount
  by_cases htemp : id = tempId
  · refine ⟨true, ?_⟩
    simp only [htemp, decide_true, if_true, List.append_nil]
    rfl
  · have hdeep := @noteAuthority_keyed nested depth (nested id)
      { s with result := s.result ++ (nested id).keyAuths.map Prod.fst } hs (hid.resolve_left htemp)
    refine ⟨false, ?_⟩
    simp only [htemp, decide_false, Bool.false_eq_true, if_false]
    rw [bind_of_ok (noteKeys_apply nested id s), hdeep]
    simp only [keysWithin, List.append_assoc]

theorem noteStored_keyed (hs : Blank s.state) {get : Bytes → Authority} (depth : Nat) {a : AccountName}
    (hget : KeyedWithin nested depth (get a.toBytes)) :
    noteStored (fun id => some (get id)) (fun id => some (nested id)) depth a s =
      .ok false { s with result := s.result ++ keysWithin nested depth (get a.toBytes) } := by
  have hdeep := @noteAuthority_keyed nested depth (get a.toBytes)
    { s with result := s.result ++ (get a.toBytes).keyAuths.map Prod.fst } hs hget
  unfold noteStored
  rw [bind_of_ok (noteKeys_apply get a.toBytes s), hdeep]
  simp only [keysWithin, List.append_assoc]

theorem each_notes {β : Type} {p : β → Prog Error PotentialState Bool} {keysOf : β → List PublicKey} {bs : List β}
    (h : ∀ b ∈ bs, ∀ s : PotentialState, Blank s.state → ∃ answer, p b s = .ok answer { s with result := s.result ++ keysOf b })
    (hs : Blank s.state) : each (fun b => do let _ ← p b) bs s = .ok () { s with result := s.result ++ bs.flatMap keysOf } := by
  induction bs generalizing s with
  | nil =>
    rw [List.flatMap_nil, List.append_nil]
    rfl
  | cons b bs ih =>
    obtain ⟨hone, hrest⟩ := List.forall_mem_cons.mp h
    obtain ⟨answer, hb⟩ := hone s hs
    have hbs := @ih { s with result := s.result ++ keysOf b } hrest hs
    unfold each
    have hdiscard : (do let _ ← p b : Prog Error PotentialState Unit) s =
        .ok () { s with result := s.result ++ keysOf b } := by
      rw [bind_of_ok hb]
      rfl
    rw [bind_of_ok hdiscard, hbs, List.flatMap_cons, List.append_assoc]

end Noting

/-! ## What the checks ask for -/

section Asked

variable (g : Assignment) (r : RequiredAuthorities) (depth : Nat)

/-- No authority that the getters are asked for, and none nested in one within the bound, is satisfied without a
signature. -/
structure AllKeyed : Prop where
  other : ∀ auth ∈ r.other, KeyedWithin (g.nested r) depth auth
  owner : ∀ a ∈ r.owner, KeyedWithin (g.nested r) depth (g.owner a.toBytes)
  active : ∀ a ∈ r.active, a.toBytes = tempId ∨ KeyedWithin (g.nested r) depth (g.nested r a.toBytes)
  posting : ∀ a ∈ r.posting, a.toBytes = tempId ∨ KeyedWithin (g.nested r) depth (g.nested r a.toBytes)

/-- The keys that the getters note. -/
def readKeys : List PublicKey :=
  if r.posting ≠ [] then r.posting.flatMap fun a => keysOfAccount g.posting (depth + 1) a.toBytes
  else
    r.other.flatMap (keysBelow g.active depth) ++
      (r.owner.flatMap fun a => keysWithin g.active depth (g.owner a.toBytes)) ++
      r.active.flatMap fun a => keysOfAccount g.active (depth + 1) a.toBytes

/-- The keys that only `verify_authority` looks at: those of the authorities that no getter returns, and those of the
alternatives for an account. -/
def unreadKeys : List PublicKey :=
  if r.posting ≠ [] then
    r.posting.flatMap fun a => if a.toBytes = tempId then [] else
      keysWithin g.posting depth (g.active a.toBytes) ++ keysWithin g.posting depth (g.owner a.toBytes)
  else
    (r.other.flatMap fun auth => auth.keyAuths.map Prod.fst) ++
      r.active.flatMap fun a => if a.toBytes = tempId then [] else keysWithin g.active depth (g.owner a.toBytes)

variable {g r depth} {s : PotentialState}

theorem noteSignatures_keyed (hkeyed : AllKeyed g r depth) (hmixed : ¬ Mixed r) (hs : Blank s.state) :
    noteSignatures g.getters depth r s = .ok () { s with result := s.result ++ readKeys g r depth } := by
  unfold noteSignatures readKeys
  by_cases hposting : r.posting ≠ []
  · have hnested : g.nested r = g.posting := if_pos hposting
    unfold Mixed at hmixed
    push Not at hmixed
    obtain ⟨hactive, howner, -⟩ := hmixed hposting
    rw [if_pos hposting, if_pos hposting, hactive, howner]
    refine each_notes (fun a ha s hs => ?_) hs
    have hkey := hkeyed.posting a ha
    rw [hnested] at hkey
    exact noteAccount_keyed hs depth hkey
  · have hnested : g.nested r = g.active := if_neg hposting
    obtain ⟨hkeyOther, hkeyOwner, hkeyActive, -⟩ := hkeyed
    rw [hnested] at hkeyOther hkeyOwner hkeyActive
    have hother := @each_notes s _ (noteAuthority g.getters.getActive depth) (keysBelow g.active depth) r.other
      (fun auth hauth s hs => ⟨false, noteAuthority_keyed hs (hkeyOther auth hauth)⟩) hs
    have howner := @each_notes { s with result := s.result ++ r.other.flatMap (keysBelow g.active depth) } _
      (noteStored g.getters.getOwner g.getters.getActive depth) (fun a => keysWithin g.active depth (g.owner a.toBytes))
      r.owner (fun a ha s hs => ⟨false, noteStored_keyed hs depth (hkeyOwner a ha)⟩) hs
    have hactive := @each_notes { s with
        result := s.result ++ r.other.flatMap (keysBelow g.active depth) ++
          r.owner.flatMap fun a => keysWithin g.active depth (g.owner a.toBytes) } _
      (fun a : AccountName => noteAccount g.getters.getActive depth a.toBytes)
      (fun a => keysOfAccount g.active (depth + 1) a.toBytes) r.active
      (fun a ha s hs => noteAccount_keyed hs depth (hkeyActive a ha)) hs
    rw [if_neg hposting, if_neg hposting, bind_of_ok hother, bind_of_ok howner]
    refine hactive.trans ?_
    simp only [List.append_assoc]

end Asked

/-! ## What `verify_authority` uses -/

section Using

variable {nested : Bytes → Authority} {left depth : Nat} {auth : Authority} {K : List PublicKey} {s s' : SignState}

/-- Only these keys are used, where `temp` is approved from the start. -/
def UsesOnly (K : List PublicKey) (s s' : SignState) : Prop :=
  tempId ∈ s.approvedBy →
    tempId ∈ s'.approvedBy ∧ (∀ k, Signed s k → Signed s' k) ∧ ∀ k, Used s' k → Used s k ∨ k ∈ K

instance : Std.Refl (UsesOnly K) := ⟨fun _ htemp => ⟨htemp, fun _ h => h, fun _ h => .inl h⟩⟩

instance : IsTrans SignState (UsesOnly K) where
  trans s t u h h' htemp := by
    obtain ⟨htemp', hsigned, hused⟩ := h htemp
    obtain ⟨htemp'', hsigned', hused'⟩ := h' htemp'
    refine ⟨htemp'', fun k hk => hsigned' k (hsigned k hk), fun k hk => ?_⟩
    exact (hused' k hk).elim (hused k) .inr

theorem usesOnly_signedBy {k : PublicKey} (hk : k ∈ K) : Runs (UsesOnly K) (signedBy k) := by
  intro s b s' h htemp
  unfold signedBy at h
  split at h
  · rename_i hsigned
    cases h
    have hsigned' := signed_iff.mpr hsigned
    refine ⟨htemp, fun x hx => signed_mark.mpr hx, fun x hx => ?_⟩
    rcases (used_mark hsigned').mp hx with hx | hx
    · exact .inl hx
    · rw [List.mem_singleton.mp hx]
      exact .inr hk
  · split at h
    · cases h
      refine ⟨htemp, fun x ⟨b, hb⟩ => ⟨b, .tail _ hb⟩, fun x hx => ?_⟩
      rcases List.mem_cons.mp hx with heq | hx
      · exact .inr ((Prod.mk.inj heq).1 ▸ hk)
      · exact .inl hx
    · cases h
      exact ⟨htemp, fun _ hx => hx, fun _ hx => .inl hx⟩

theorem usesOnly_checkKeys {threshold total : Nat} {ks : List (PublicKey × Nat)} (hks : ∀ p ∈ ks, p.1 ∈ K) :
    Runs (UsesOnly K) (checkKeys threshold ks total) := by
  induction ks generalizing total with
  | nil => exact runs_pure _
  | cons p ks ih =>
    obtain ⟨k, w⟩ := p
    obtain ⟨hk, hks⟩ := List.forall_mem_cons.mp hks
    unfold checkKeys
    refine runs_bind (usesOnly_signedBy hk) fun signed => ?_
    by_cases hmet : (signed && decide (threshold ≤ if signed then (total + w) % 4294967296 else total)) = true
    · simp only [hmet, if_true]
      exact runs_pure _
    · simp only [hmet, Bool.false_eq_true, if_false]
      exact ih hks

theorem usesOnly_approve (id : Bytes) : Runs (UsesOnly K) (approve id) := by
  intro s u s' h htemp
  obtain rfl := modify_eq_ok.mp h
  exact ⟨.tail _ htemp, fun _ hx => hx, fun _ hx => .inl hx⟩

theorem usesOnly_checkAccounts {threshold total : Nat} {check : Bytes → Prog Error SignState Bool}
    {as : List (AccountName × Nat)} (hcheck : ∀ e ∈ as, e.1.toBytes ≠ tempId → Runs (UsesOnly K) (check e.1.toBytes)) :
    Runs (UsesOnly K) (checkAccounts threshold check as total) := by
  induction as generalizing total with
  | nil => exact runs_pure _
  | cons e as ih =>
    obtain ⟨a, w⟩ := e
    obtain ⟨hone, hrest⟩ := List.forall_mem_cons.mp hcheck
    intro s t s' h htemp
    have hfirst : ∃ b s₁, (if s.approvedBy.contains a.toBytes = true then (pure true : Prog Error SignState Bool)
        else check a.toBytes) s = .ok b s₁ ∧ UsesOnly K s s₁ := by
      by_cases hkept : s.approvedBy.contains a.toBytes = true
      · rw [if_pos hkept]
        exact ⟨true, s, rfl, Std.Refl.refl _⟩
      · rw [if_neg hkept]
        cases hb : check a.toBytes s with
        | ok b s₁ =>
          refine ⟨b, s₁, rfl, hone (fun heq => hkept ?_) s b s₁ hb⟩
          rw [heq]
          exact List.contains_iff_mem.mpr htemp
        | error e s₁ =>
          unfold checkAccounts at h
          rw [bind_of_ok (get_apply s), if_neg hkept, bind_of_error hb] at h
          cases h
    obtain ⟨b, s₁, hb, hfirst⟩ := hfirst
    rw [checkAccounts_cons hb] at h
    have hlater : UsesOnly K s₁ s' := by
      by_cases hmet : (b && decide (threshold ≤ if b = true then (total + w) % 4294967296 else total)) = true
      · rw [if_pos hmet] at h
        obtain ⟨-, rfl⟩ := pure_eq_ok.mp h
        exact Std.Refl.refl _
      · rw [if_neg hmet] at h
        exact ih hrest s₁ t s' h
    exact IsTrans.trans _ _ _ hfirst hlater htemp

/-- **The keys used** are keys of the authority or of an account nested in it. -/
theorem usesOnly_checkAuthority (h : keysWithin nested left auth ⊆ K) :
    Runs (UsesOnly K) (checkAuthority (fun id => some (nested id)) left auth) := by
  have hstep : ∀ (left : Nat) (auth : Authority) (check : Bytes → Prog Error SignState Bool),
      keysWithin nested left auth ⊆ K →
      (∀ e ∈ auth.accountAuths, e.1.toBytes ≠ tempId → keysOfAccount nested left e.1.toBytes ⊆ K →
        Runs (UsesOnly K) (check e.1.toBytes)) →
      Runs (UsesOnly K) (do
        let (total, met) ← checkKeys auth.weightThreshold auth.keyAuths 0
        if met then pure true
        else do
          let total ← checkAccounts auth.weightThreshold check auth.accountAuths total
          pure (decide (auth.weightThreshold ≤ total))) := by
    intro left auth check h hcheck
    obtain ⟨hown, hbelow⟩ := List.append_subset.mp h
    rw [keysBelow_eq] at hbelow
    refine runs_bind (usesOnly_checkKeys fun p hp => hown (List.mem_map_of_mem hp)) fun p => ?_
    by_cases hmet : p.2 = true
    · simp only [hmet, if_true]
      exact runs_pure _
    · simp only [hmet, Bool.false_eq_true, if_false]
      refine runs_bind (usesOnly_checkAccounts fun e he hid => hcheck e he hid fun k hk => ?_) fun t => runs_pure _
      exact hbelow (List.mem_flatMap.mpr ⟨e, he, hk⟩)
  induction left generalizing auth with
  | zero =>
    unfold checkAuthority
    exact hstep 0 auth _ h fun e he hid _ => runs_pure _
  | succ left ih =>
    unfold checkAuthority
    refine hstep (left + 1) auth _ h fun e he hid hkeys => ?_
    rw [keysOfAccount, if_neg hid] at hkeys
    show Runs (UsesOnly K) (checkAuthority (fun id => some (nested id)) left (nested e.1.toBytes) >>= _)
    refine runs_bind (ih hkeys) fun ok => ?_
    split
    · exact runs_bind (usesOnly_approve _) fun _ => runs_pure _
    · exact runs_pure _

theorem usesOnly_requireOneOf {error : String} {ps : List (Prog Error SignState Bool)}
    (h : ∀ p ∈ ps, Runs (UsesOnly K) p) : Runs (UsesOnly K) (requireOneOf error ps) := by
  induction ps with
  | nil => exact runs_throw _
  | cons p ps ih =>
    obtain ⟨hp, hps⟩ := List.forall_mem_cons.mp h
    refine runs_bind hp fun ok => ?_
    split
    · exact runs_pure _
    · exact ih hps

/-- The alternatives for an account: for `temp` none is needed. -/
theorem usesOnly_account {error : String} {ps : List (Prog Error SignState Bool)} {a : AccountName}
    (h : keysOfAccount nested (depth + 1) a.toBytes ⊆ K) (hps : a.toBytes ≠ tempId → ∀ p ∈ ps, Runs (UsesOnly K) p) :
    Runs (UsesOnly K) (requireOneOf error (checkAccount (fun id => some (nested id)) depth a.toBytes :: ps)) := by
  by_cases hid : a.toBytes = tempId
  · intro s u s' hrun htemp
    have haccount : checkAccount (fun id => some (nested id)) depth a.toBytes s = .ok true s := by
      unfold checkAccount
      rw [bind_of_ok (get_apply s), hid, if_pos (List.contains_iff_mem.mpr htemp)]
      rfl
    unfold requireOneOf at hrun
    rw [bind_of_ok haccount, if_pos rfl] at hrun
    obtain ⟨-, rfl⟩ := pure_eq_ok.mp hrun
    exact Std.Refl.refl (r := UsesOnly K) _ htemp
  · refine usesOnly_requireOneOf (List.forall_mem_cons.mpr ⟨?_, hps hid⟩)
    rw [keysOfAccount, if_neg hid] at h
    unfold checkAccount
    intro s b s' hrun
    obtain ⟨_, _, hget, hrun⟩ := bind_eq_ok.mp hrun
    obtain ⟨rfl, rfl⟩ := get_eq_ok.mp hget
    split at hrun
    · obtain ⟨-, rfl⟩ := pure_eq_ok.mp hrun
      exact Std.Refl.refl _
    · exact usesOnly_checkAuthority h s b s' hrun

theorem usesOnly_checkStored {get : Bytes → Authority} {a : AccountName} (h : keysWithin nested depth (get a.toBytes) ⊆ K) :
    Runs (UsesOnly K) (checkStored (fun id => some (get id)) (fun id => some (nested id)) depth a) :=
  usesOnly_checkAuthority h

theorem usesOnly_checkRequired {g : Assignment} {r : RequiredAuthorities} (hmixed : ¬ Mixed r)
    (hread : readKeys g r depth ⊆ K) (hunread : unreadKeys g r depth ⊆ K) :
    Runs (UsesOnly K) (checkRequired g.getters depth r) := by
  unfold readKeys at hread
  unfold unreadKeys at hunread
  by_cases hposting : r.posting ≠ []
  · rw [if_pos hposting] at hread hunread
    rw [checkRequired_posting _ hposting hmixed]
    refine runs_each_of_mem fun a ha => usesOnly_account (fun k hk => hread (List.mem_flatMap.mpr ⟨a, ha, hk⟩)) fun hid => ?_
    have hboth : keysWithin g.posting depth (g.active a.toBytes) ++ keysWithin g.posting depth (g.owner a.toBytes) ⊆ K := by
      intro k hk
      exact hunread (List.mem_flatMap.mpr ⟨a, ha, by rwa [if_neg hid]⟩)
    obtain ⟨hactive, howner⟩ := List.append_subset.mp hboth
    simp only [List.forall_mem_cons, List.not_mem_nil, false_implies, implies_true, and_true]
    exact ⟨usesOnly_checkStored hactive, usesOnly_checkStored howner⟩
  · rw [if_neg hposting] at hread hunread
    obtain ⟨hfirst, hactive⟩ := List.append_subset.mp hread
    obtain ⟨hother, howner⟩ := List.append_subset.mp hfirst
    obtain ⟨hown, halternative⟩ := List.append_subset.mp hunread
    rw [checkRequired_active _ (not_not.mp hposting)]
    refine runs_bind (runs_each_of_mem fun auth hauth => usesOnly_requireOneOf fun p hp => ?_) fun _ =>
      runs_bind (runs_each_of_mem fun a ha => ?_) fun _ => runs_each_of_mem fun a ha => usesOnly_requireOneOf fun p hp => ?_
    · rw [List.mem_singleton.mp hp]
      refine usesOnly_checkAuthority (List.append_subset.mpr ⟨fun k hk => ?_, fun k hk => ?_⟩)
      · exact hown (List.mem_flatMap.mpr ⟨auth, hauth, hk⟩)
      · exact hother (List.mem_flatMap.mpr ⟨auth, hauth, hk⟩)
    · refine usesOnly_account (fun k hk => hactive (List.mem_flatMap.mpr ⟨a, ha, hk⟩)) fun hid p hp => ?_
      rw [List.mem_singleton.mp hp]
      exact usesOnly_checkStored fun k hk => halternative (List.mem_flatMap.mpr ⟨a, ha, by rwa [if_neg hid]⟩)
    · rw [List.mem_singleton.mp hp]
      exact usesOnly_checkStored fun k hk => howner (List.mem_flatMap.mpr ⟨a, ha, hk⟩)

/-- **Accepted keys** are keys that `verify_authority` looks at. -/
theorem accepted_subset {g : Assignment} {r : RequiredAuthorities} {keys : List PublicKey}
    (h : verifyAuthorityAt depth g.getters r keys = .ok ()) (hread : readKeys g r depth ⊆ K)
    (hunread : unreadKeys g r depth ⊆ K) : keys ⊆ K := by
  have hmixed : ¬ Mixed r := not_mixed_of_missesNothing (.inl h)
  unfold verifyAuthorityAt at h
  split at h
  · cases h
  · rename_i u s' hrun
    split at h
    · cases h
    · rename_i hused
      obtain ⟨-, hsigned, honly⟩ := usesOnly_checkRequired hmixed hread hunread _ _ _ hrun (List.mem_singleton.mpr rfl)
      intro k hk
      obtain ⟨b, hb⟩ := hsigned k ⟨false, List.mem_map_of_mem hk⟩
      have htrue : b = true := by
        by_contra hfalse
        refine hused (List.any_eq_true.mpr ⟨(k, b), hb, ?_⟩)
        simpa using hfalse
      rw [htrue] at hb
      refine (honly k hb).resolve_left fun hinit => ?_
      obtain ⟨x, -, heq⟩ := List.mem_map.mp hinit
      cases heq

end Using

/-! ## All potential signatures -/

theorem mem_insertKey_iff {k x : PublicKey} {ks : List PublicKey} : x ∈ insertKey k ks ↔ x = k ∨ x ∈ ks := by
  induction ks with
  | nil => simp [insertKey]
  | cons y ys ih =>
    unfold insertKey
    split
    · exact List.mem_cons
    · split
      · rename_i heq
        have hsame : k = y := congrArg PublicKey.mk heq
        rw [hsame, List.mem_cons, or_self_left]
      · rw [List.mem_cons, ih, List.mem_cons, or_left_comm]

theorem mem_keySet_iff {k : PublicKey} {ks : List PublicKey} : k ∈ keySet ks ↔ k ∈ ks := by
  induction ks with
  | nil => rfl
  | cons y ys ih =>
    show k ∈ insertKey y (keySet ys) ↔ _
    rw [mem_insertKey_iff, ih, List.mem_cons]

/-- Where no authority asked for is satisfied without a signature, the result has all keys that are read. -/
theorem getPotentialSignatures_eq {cd : Codec} {trx : SignedTransaction} {g : Assignment} {depth : Nat}
    (hunsigned : trx.signatures = []) (hkeyed : AllKeyed g (requiredOf trx.operations) depth)
    (hmixed : ¬ Mixed (requiredOf trx.operations)) :
    trx.getPotentialSignatures cd g.getters depth = .ok (keySet (readKeys g (requiredOf trx.operations) depth)) := by
  have hsigs : trx.getSignatureKeys cd = .ok [] := by
    unfold SignedTransaction.getSignatureKeys
    rw [hunsigned]
    rfl
  have hrun := @noteSignatures_keyed g (requiredOf trx.operations) depth ⟨SignState.init [] [], []⟩ hkeyed hmixed
    ⟨rfl, rfl, rfl⟩
  unfold SignedTransaction.getPotentialSignatures
  rw [hsigs]
  show (match noteSignatures g.getters depth (requiredOf trx.operations) ⟨SignState.init [] [], []⟩ with
    | .error e _ => _
    | .ok _ s => _) = _
  rw [hrun]
  rfl

/-- **Potential signatures.**  Where no authority asked for is satisfied without a signature, and every key that only
`verify_authority` looks at is also read, all keys that it accepts are potential signatures. -/
theorem potential_signatures {cd : Codec} {trx : SignedTransaction} {g : Assignment} {depth : Nat}
    (hunsigned : trx.signatures = []) (hkeyed : AllKeyed g (requiredOf trx.operations) depth)
    (hunread : unreadKeys g (requiredOf trx.operations) depth ⊆ readKeys g (requiredOf trx.operations) depth)
    {keys : List PublicKey} (h : verifyAuthorityAt depth g.getters (requiredOf trx.operations) keys = .ok ()) :
    ∃ potential, trx.getPotentialSignatures cd g.getters depth = .ok potential ∧ keys ⊆ potential := by
  refine ⟨_, getPotentialSignatures_eq hunsigned hkeyed (not_mixed_of_missesNothing (.inl h)), fun k hk => ?_⟩
  exact mem_keySet_iff.mpr (accepted_subset h (List.Subset.refl _) hunread hk)

end Sigmaengine
