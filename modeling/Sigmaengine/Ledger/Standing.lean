import Sigmaengine.Dapp.Steps
import Sigmaengine.Ledger.Runs

/-!
# Whom an operation of the core touches

The standing of an account is what it has and who may sign for it.  `Spares` says that a program leaves the standing of
all accounts but a few alone; ids keep their names meanwhile, so an account that is looked up once may be changed later.

Main result: `spares_coreEvaluator`.
-/

/-! ## Searches by a key that a change does not concern -/

namespace Table

open Effect

variable {α : Type} [Clash α] {t : Table α} {p : α → Bool} {a b : α}

theorem at?_insert_of_not {h : t.clashes t.nextId a = false} (ha : p a = false) : (t.insert a h).at? p = t.at? p := by
  unfold at? find? Table.insert
  rw [List.find?_append, List.find?_cons_of_neg (by simp [ha]), List.find?_nil, Option.or_none]

theorem at?_replace_of_not {id : Nat} {h : t.clashes id b = false} (hrow : t.lookup id = some a) (ha : p a = false)
    (hb : p b = false) : (t.replace id b h).at? p = t.at? p := by
  have hmem := lookup_eq_some.mp hrow
  have hkeep : ∀ r ∈ t.rows, p (if r.1 = id then (r.1, b) else r).2 = p r.2 := by
    intro r hr
    by_cases hid : r.1 = id
    · have hra : r.2 = a := eq_of_mem (i := id) (by rw [← hid]; exact hr) hmem
      rw [if_pos hid, hra, ha, hb]
    · rw [if_neg hid]
  have hrows : ∀ rows : List (Nat × α), (∀ r ∈ rows, r ∈ t.rows) →
      ((rows.map fun r => if r.1 = id then (r.1, b) else r).find? fun r => p r.2).map Prod.snd =
        (rows.find? fun r => p r.2).map Prod.snd := by
    intro rows hsub
    induction rows with
    | nil => rfl
    | cons r rows ih =>
      have hr := hkeep r (hsub r (.head _))
      have ih := ih fun x hx => hsub x (.tail _ hx)
      rw [List.map_cons, List.find?_cons, List.find?_cons, hr]
      by_cases hpr : p r.2 = true
      · have hid : r.1 ≠ id := by
          intro hid
          have hra : r.2 = a := eq_of_mem (i := id) (by rw [← hid]; exact hsub r (.head _)) hmem
          rw [hra, ha] at hpr
          cases hpr
        simp [hpr, hid]
      · simp only [hpr]
        exact ih
  exact hrows t.rows fun _ h => h

theorem runs_getIn {ε σ β : Type} [TableError ε] {l : Part σ (Table α)} {R : σ → σ → Prop} {k : Nat × α → Prog ε σ β}
    (hk : ∀ r, p r.2 = true → Runs R (k r)) : Runs R (getIn l p >>= k) := by
  intro s b s' h
  obtain ⟨r, t, hget, hrun⟩ := bind_eq_ok.mp h
  obtain ⟨hfind, rfl⟩ := getIn_eq_ok.mp hget
  exact hk r (mem_of_find? hfind).2 _ _ _ hrun

end Table

namespace Sigmaengine

open Effect Table

theorem runs_fcAssert {σ α : Type} {R : σ → σ → Prop} {c : Bool} {text : String} {m : Prog Error σ α}
    (hm : c = true → Runs R m) : Runs R (fcAssert c text >>= fun _ => m) := by
  intro s a s' h
  obtain ⟨_, t, hassert, hrun⟩ := bind_eq_ok.mp h
  obtain ⟨hc, rfl⟩ := fcAssert_eq_ok.mp hassert
  exact hm hc _ _ _ hrun

/-! ## Standing -/

/-- What an account has and who may sign for it.  The balance of an account that pays the fee of the operation is left
out. -/
def Core.standing (payer : Option AccountName) (s : Core) (a : AccountName) :
    Option (Int × Int × Bool) × Option (Authority × Authority × Authority) :=
  ((s.accounts.at? fun x => x.name == a).map fun x =>
      (if payer = some a then 0 else x.balance, x.savingsBalance, x.banned),
    (s.accountAuthorities.at? fun x => x.account == a).map fun x => (x.owner, x.active, x.posting))

/-- The accounts with their ids, as they are listed themselves and with their authorities. -/
def Core.names (s : Core) : List (Nat × AccountName) × List (Nat × AccountName) :=
  (s.accounts.rows.map fun r => (r.1, r.2.name), s.accountAuthorities.rows.map fun r => (r.1, r.2.account))

/-- From a state with these names, only the standing of accounts among `touched` changes, and no name does. -/
def Spares (payer : Option AccountName) (names : List (Nat × AccountName) × List (Nat × AccountName))
    (touched : List AccountName) (s s' : Core) : Prop :=
  s.names = names → s'.names = names ∧ ∀ a ∉ touched, s'.standing payer a = s.standing payer a

variable {payer : Option AccountName} {names : List (Nat × AccountName) × List (Nat × AccountName)}
  {touched : List AccountName} {α : Type}

instance : Std.Refl (Spares payer names touched) := ⟨fun _ h => ⟨h, fun _ _ => rfl⟩⟩

instance : IsTrans Core (Spares payer names touched) where
  trans s s' s'' h h' := by
    intro hnames
    obtain ⟨hnames', hsame⟩ := h hnames
    obtain ⟨hnames'', hsame'⟩ := h' hnames'
    exact ⟨hnames'', fun a ha => (hsame' a ha).trans (hsame a ha)⟩

/-- Neither the accounts nor their authorities differ. -/
def SameAccounts (s s' : Core) : Prop := (s'.accounts, s'.accountAuthorities) = (s.accounts, s.accountAuthorities)

instance : Std.Refl SameAccounts := ⟨fun _ => rfl⟩

instance : IsTrans Core SameAccounts := ⟨fun _ _ _ h h' => h'.trans h⟩

theorem SameAccounts.spares {s s' : Core} (h : SameAccounts s s') : Spares payer names touched s s' := by
  have haccounts : s'.accounts = s.accounts := congrArg Prod.fst h
  have hauthorities : s'.accountAuthorities = s.accountAuthorities := congrArg Prod.snd h
  have hnames : s'.names = s.names := by
    unfold Core.names
    rw [haccounts, hauthorities]
  intro hs
  refine ⟨hnames.trans hs, fun a _ => ?_⟩
  unfold Core.standing
  rw [haccounts, hauthorities]

/-- A program of some other part of the state. -/
theorem sameAccounts_within {τ : Type} {l : Part Core τ} (m : Prog Error τ α)
    (h : ∀ t s, SameAccounts s (l.set t s)) : Always SameAccounts (within l m) :=
  always_within (fun t s => h t s) m

theorem spares_of_always {m : CoreM α} (h : Always SameAccounts m) : Runs (Spares payer names touched) m :=
  fun s a s' hm => (h.runs s a s' hm).spares

theorem spares_of_readOnly {m : CoreM α} (h : ReadOnly m) : Runs (Spares payer names touched) m := h.always.runs

/-! ## Reading an account -/

theorem spares_getAccount {n : AccountName} {k : Nat × AccountObject → CoreM α}
    (hk : ∀ r, r.2.name = n → (r.1, n) ∈ names.1 → Runs (Spares payer names touched) (k r)) :
    Runs (Spares payer names touched) (getAccount n >>= k) := by
  intro s b s' h hnames
  obtain ⟨r, t, hget, hrun⟩ := bind_eq_ok.mp h
  obtain ⟨hfind, rfl⟩ := getIn_eq_ok.mp hget
  obtain ⟨hmem, hname⟩ := mem_of_find? hfind
  have hlisted : (r.1, r.2.name) ∈ names.1 := by
    rw [← hnames]
    exact List.mem_map_of_mem (f := fun r : Nat × AccountObject => (r.1, r.2.name)) hmem
  rw [beq_iff_eq] at hname
  rw [hname] at hlisted
  exact hk r hname hlisted _ _ _ hrun hnames

theorem spares_getAccountAuthority {n : AccountName} {k : Nat × AccountAuthorityObject → CoreM α}
    (hk : ∀ r, (r.1, n) ∈ names.2 → Runs (Spares payer names touched) (k r)) :
    Runs (Spares payer names touched) (getAccountAuthority n >>= k) := by
  intro s b s' h hnames
  obtain ⟨r, t, hget, hrun⟩ := bind_eq_ok.mp h
  obtain ⟨hfind, rfl⟩ := getIn_eq_ok.mp hget
  obtain ⟨hmem, hname⟩ := mem_of_find? hfind
  have hlisted : (r.1, r.2.account) ∈ names.2 := by
    rw [← hnames]
    exact List.mem_map_of_mem (f := fun r : Nat × AccountAuthorityObject => (r.1, r.2.account)) hmem
  rw [beq_iff_eq] at hname
  rw [hname] at hlisted
  exact hk r hlisted _ _ _ hrun hnames

/-! ## Changing an account -/

theorem uniqueKey_name (a : AccountName) : UniqueKey fun x : AccountObject => x.name == a := by
  intro x y hx hy
  rw [beq_iff_eq] at hx hy
  exact clash_of_name_eq x y (hx.trans hy.symm)

/-- A change of an account that keeps its name: the others keep their standing, and so does the account itself when all
that its standing shows is kept. -/
theorem spares_modifyAccount {id : Nat} {f : AccountObject → Except Error AccountObject}
    (hname : ∀ x y, f x = .ok y → y.name = x.name)
    (hkept : ∀ x y, (∀ n, (id, n) ∈ names.1 → x.name = n) → x.name ∉ touched → f x = .ok y →
      y.savingsBalance = x.savingsBalance ∧ y.banned = x.banned ∧ (payer ≠ some x.name → y.balance = x.balance)) :
    Runs (Spares payer names touched) (modifyIn Index.accounts id f) := by
  intro s u s' h hnames
  obtain ⟨x, y, hc, hx, hf, rfl⟩ := modifyIn_eq_ok.mp h
  refine ⟨?_, fun a ha => ?_⟩
  · rw [← hnames]
    exact congrArg (fun rows => (rows, s.names.2))
      (map_rows_replace (t := s.accounts) (k := fun x : AccountObject => x.name) hx hc (hname x y hf))
  have hlisted : ∀ n, (id, n) ∈ names.1 → x.name = n := by
    intro n hn
    rw [← hnames] at hn
    obtain ⟨r, hr, heq⟩ := List.mem_map.mp hn
    obtain ⟨rfl, rfl⟩ := Prod.mk.inj heq
    rw [eq_of_mem (lookup_eq_some.mp hx) hr]
  have hat : (s.accounts.replace id y hc).at? (fun x => x.name == a) =
      if x.name == a then some y else s.accounts.at? fun x => x.name == a :=
    at?_replace (uniqueKey_name a) hx hc (by rw [hname x y hf])
  have hmoney : ((s.accounts.replace id y hc).at? fun x => x.name == a).map
        (fun x => (if payer = some a then 0 else x.balance, x.savingsBalance, x.banned)) =
      (s.accounts.at? fun x => x.name == a).map fun x =>
        (if payer = some a then 0 else x.balance, x.savingsBalance, x.banned) := by
    rw [hat]
    by_cases hxa : x.name = a
    · subst hxa
      obtain ⟨hsavings, hbanned, hbalance⟩ := hkept x y hlisted ha hf
      have hold : s.accounts.at? (fun z => z.name == x.name) = some x :=
        (at?_eq_some (uniqueKey_name x.name)).mpr ⟨mem_values.mpr ⟨id, lookup_eq_some.mp hx⟩, by simp⟩
      rw [if_pos (by simp), hold]
      by_cases hpayer : payer = some x.name
      · simp [hpayer, hsavings, hbanned]
      · simp [hpayer, hsavings, hbanned, hbalance hpayer]
    · rw [if_neg (by simp [hxa])]
  exact congrArg (·, (s.standing payer a).2) hmoney

/-- A change of one of the accounts that are touched. -/
theorem spares_modifyTouched {id : Nat} {n : AccountName} {f : AccountObject → Except Error AccountObject}
    (hid : (id, n) ∈ names.1) (hn : n ∈ touched) (hname : ∀ x y, f x = .ok y → y.name = x.name) :
    Runs (Spares payer names touched) (modifyIn Index.accounts id f) :=
  spares_modifyAccount hname fun _ _ hlisted hfree _ => absurd (hlisted n hid ▸ hn) hfree

theorem spares_adjustBalance {id : Nat} {n : AccountName} (hid : (id, n) ∈ names.1)
    (hn : n ∈ touched ∨ payer = some n) (delta : Asset) :
    Runs (Spares payer names touched) (adjustBalance id delta) := by
  refine spares_modifyAccount ?_ ?_
  · intro x y hf
    obtain ⟨m, -, rfl⟩ := map_eq_ok hf
    rfl
  · intro x y hlisted hfree hf
    obtain ⟨m, -, rfl⟩ := map_eq_ok hf
    obtain rfl := hlisted n hid
    exact ⟨rfl, rfl, fun hpayer => absurd (hn.resolve_left hfree) hpayer⟩

theorem spares_adjustSavingsBalance {id : Nat} {n : AccountName} (hid : (id, n) ∈ names.1) (hn : n ∈ touched)
    (delta : Asset) : Runs (Spares payer names touched) (adjustSavingsBalance id delta) := by
  refine spares_modifyTouched hid hn ?_
  intro x y hf
  obtain ⟨m, -, rfl⟩ := map_eq_ok hf
  rfl

/-- Authorities are changed under the name of their account. -/
theorem spares_modifyAuthority {id : Nat} {n : AccountName}
    {f : AccountAuthorityObject → Except Error AccountAuthorityObject} (hid : (id, n) ∈ names.2) (hn : n ∈ touched)
    (hname : ∀ x y, f x = .ok y → y.account = x.account) :
    Runs (Spares payer names touched) (modifyIn Index.accountAuthorities id f) := by
  intro s u s' h hnames
  obtain ⟨x, y, hc, hx, hf, rfl⟩ := modifyIn_eq_ok.mp h
  refine ⟨?_, fun a ha => ?_⟩
  · rw [← hnames]
    exact congrArg (fun rows => (s.names.1, rows))
      (map_rows_replace (t := s.accountAuthorities) (k := fun x : AccountAuthorityObject => x.account) hx hc
        (hname x y hf))
  have hxn : x.account = n := by
    rw [← hnames] at hid
    obtain ⟨r, hr, heq⟩ := List.mem_map.mp hid
    obtain ⟨rfl, rfl⟩ := Prod.mk.inj heq
    rw [eq_of_mem (lookup_eq_some.mp hx) hr]
  have hne : (x.account == a) = false := by
    rw [hxn, beq_eq_false_iff_ne]
    rintro rfl
    exact ha hn
  have hat : (s.accountAuthorities.replace id y hc).at? (fun x => x.account == a) =
      s.accountAuthorities.at? fun x => x.account == a :=
    at?_replace_of_not hx hne (by rw [hname x y hf, hne])
  exact congrArg (fun r : Option AccountAuthorityObject =>
    ((s.standing payer a).1, r.map fun x => (x.owner, x.active, x.posting))) hat

/-! ## Evaluators -/

theorem spares_within {τ : Type} {l : Part Core τ} (m : Prog Error τ α)
    (h : ∀ t s, SameAccounts s (l.set t s)) : Runs (Spares payer names touched) (within l m) :=
  spares_of_always (sameAccounts_within m h)

theorem spares_adjustSupply (delta : Asset) : Runs (Spares payer names touched) (adjustSupply delta) :=
  spares_of_always (always_bind always_get fun _ => always_bind (always_checked _) fun _ => fun _ => rfl)

theorem spares_adjustFundBalance (name : Bytes) (delta : Asset) :
    Runs (Spares payer names touched) (adjustFundBalance name delta) :=
  spares_of_always (always_bind (always_getIn _) fun _ => always_within (fun _ _ => rfl) _)

theorem spares_adjustFundWithdrawBalance (name : Bytes) (delta : Asset) :
    Runs (Spares payer names touched) (adjustFundWithdrawBalance name delta) :=
  spares_of_always (always_bind (always_getIn _) fun _ => always_within (fun _ _ => rfl) _)

theorem readOnly_requireBalance (a : AccountObject) (amount : Asset) (text : String) :
    ReadOnly (requireBalance a amount text) :=
  (readOnly_checked _).bind fun _ => (readOnly_checked _).bind fun _ => readOnly_assert _ _

theorem spares_checked {β : Type} (x : Except Error β) : Runs (Spares payer names touched) (checked x) :=
  spares_of_readOnly (readOnly_checked x)

theorem spares_headBlockTime : Runs (Spares payer names touched) headBlockTime := spares_of_readOnly readOnly_headBlockTime

theorem spares_requireRoot (root : AccountName) (compareKey : Bool) :
    Runs (Spares payer names touched) (requireRoot root compareKey) :=
  spares_of_readOnly (readOnly_requireRoot root compareKey)

theorem spares_setBlacklistAccount (o : SetBlacklistAccountOperation) :
    Runs (Spares payer names [o.account]) (setBlacklistAccountEvaluator o) := by
  refine runs_bind (spares_requireRoot _ _) fun _ => spares_getAccount fun account _ haccount => ?_
  split
  · exact runs_pure _
  · refine spares_modifyTouched haccount (.head _) ?_
    rintro x _ ⟨⟩
    rfl

theorem spares_print (o : SupplyOperation) : Runs (Spares payer names [o.account]) (printEvaluator o) := by
  refine runs_bind (spares_requireRoot _ _) fun _ => spares_getAccount fun account _ haccount => ?_
  exact runs_bind (spares_adjustBalance haccount (.inl (.head _)) _) fun _ => spares_adjustSupply _

theorem spares_burn (o : SupplyOperation) : Runs (Spares payer names [o.account]) (burnEvaluator o) := by
  refine runs_bind (spares_requireRoot _ _) fun _ => spares_getAccount fun account _ haccount => ?_
  refine runs_bind (spares_checked _) fun delta => ?_
  exact runs_bind (spares_adjustBalance haccount (.inl (.head _)) _) fun _ => spares_adjustSupply _

theorem spares_updateOwnerAuthority (account : AccountName) (owner : Authority) :
    Runs (Spares payer names [account]) (updateOwnerAuthority account owner) := by
  refine runs_bind spares_headBlockTime fun now => spares_getAccountAuthority fun old hold => ?_
  refine runs_bind (spares_within _ fun _ _ => rfl) fun _ => ?_
  refine spares_modifyAuthority hold (.head _) ?_
  rintro x _ ⟨⟩
  rfl

theorem spares_updateOwner (account : AccountName) (auth : AccountAuthorityObject) (owner : Option Authority) :
    Runs (Spares payer names [account]) (updateOwner account auth owner) := by
  cases owner with
  | none => exact runs_pure _
  | some owner =>
    refine runs_bind spares_headBlockTime fun now => runs_fcAssert fun _ => ?_
    refine runs_bind (spares_of_readOnly (readOnly_getAccounts _)) fun _ => ?_
    exact spares_updateOwnerAuthority account owner

theorem spares_accountUpdate (o : AccountUpdateOperation) :
    Runs (Spares payer names [o.account]) (accountUpdateEvaluator o) := by
  have hforked : ReadOnly (hasHardfork hardfork01) := readOnly_get.bind fun _ => readOnly_pure _
  refine runs_bind (spares_of_readOnly hforked) fun forked => runs_fcAssert fun _ => ?_
  refine runs_bind (spares_checked _) fun _ => spares_getAccount fun account hname haccount => ?_
  refine spares_getAccountAuthority fun auth hauth => runs_bind (hname ▸ spares_updateOwner _ _ _) fun _ => ?_
  refine runs_bind (spares_of_readOnly (readOnly_checkOptionalAuthority _)) fun _ => ?_
  refine runs_bind (spares_of_readOnly (readOnly_checkOptionalAuthority _)) fun _ => ?_
  refine runs_bind spares_headBlockTime fun now => ?_
  refine runs_bind (spares_modifyTouched haccount (.head _) ?_) fun _ => ?_
  · rintro x _ ⟨⟩
    rfl
  · split
    · refine spares_modifyAuthority hauth (.head _) ?_
      rintro x _ ⟨⟩
      rfl
    · exact runs_pure _

theorem spares_recoverAccount (o : RecoverAccountOperation) :
    Runs (Spares payer names [o.accountToRecover]) (recoverAccountEvaluator o) := by
  refine spares_getAccount fun account hname haccount => runs_bind spares_headBlockTime fun now => ?_
  refine runs_fcAssert fun _ => runs_bind (spares_of_readOnly (readOnly_findIn _)) fun found => ?_
  cases found with
  | none => exact runs_throw _
  | some request =>
    refine runs_fcAssert fun _ => runs_bind (spares_of_readOnly readOnly_get) fun s => runs_fcAssert fun _ => ?_
    refine runs_bind (spares_within _ fun _ _ => rfl) fun _ => ?_
    refine runs_bind (hname ▸ spares_updateOwnerAuthority _ _) fun _ => spares_modifyTouched haccount (.head _) ?_
    rintro x _ ⟨⟩
    rfl

theorem spares_transfer (node : Node) (o : TransferOperation) :
    Runs (Spares payer names [o.from_, o.to_]) (transferEvaluator node o) := by
  refine spares_getAccount fun from_ _ hfrom => spares_getAccount fun to_ _ hto => ?_
  refine runs_bind (spares_of_readOnly (readOnly_requireBalance _ _ _)) fun _ => ?_
  refine runs_bind (spares_of_readOnly (readOnly_requireNotBanned _ _ _)) fun _ => ?_
  refine runs_bind (spares_checked _) fun delta => ?_
  exact runs_bind (spares_adjustBalance hfrom (.inl (by simp)) _) fun _ => spares_adjustBalance hto (.inl (by simp)) _

theorem spares_transferSavings (node : Node) (o : TransferSavingsOperation) :
    Runs (Spares payer names [o.from_, o.to_]) (transferSavingsEvaluator node o) := by
  refine spares_getAccount fun from_ _ hfrom => spares_getAccount fun to_ _ hto => ?_
  refine runs_bind (spares_of_readOnly (readOnly_requireBalance _ _ _)) fun _ => ?_
  refine runs_bind spares_headBlockTime fun now => runs_fcAssert fun _ => ?_
  refine runs_bind (spares_of_readOnly (readOnly_requireNotBanned _ _ _)) fun _ => ?_
  refine runs_bind (spares_checked _) fun delta => runs_bind (spares_adjustBalance hfrom (.inl (by simp)) _) fun _ => ?_
  refine runs_bind (spares_adjustSavingsBalance hto (by simp) _) fun _ => ?_
  exact runs_bind (spares_within _ fun _ _ => rfl) fun _ => runs_pure _

theorem spares_endSavings {w : SavingsWithdrawObject} {receiver : AccountName} (id : Nat) (hto : w.to_ ∈ touched)
    (hreceiver : receiver ∈ touched) : Runs (Spares payer names touched) (endSavings id w receiver) := by
  refine spares_getAccount fun to_ _ hlisted => runs_fcAssert fun _ => spares_getAccount fun account _ haccount => ?_
  refine runs_bind (spares_adjustBalance haccount (.inl hreceiver) _) fun _ => ?_
  refine runs_bind (spares_checked _) fun delta => ?_
  refine runs_bind (spares_adjustSavingsBalance hlisted hto _) fun _ => ?_
  exact spares_within _ fun _ _ => rfl

theorem spares_cancelTransferSavings (o : CancelTransferSavingsOperation) :
    Runs (Spares payer names [o.from_, o.to_]) (cancelTransferSavingsEvaluator o) := by
  refine runs_getIn fun w hw => runs_fcAssert fun hto => ?_
  simp only [Bool.and_eq_true, beq_iff_eq] at hw hto
  refine runs_bind (spares_checked _) fun covered => runs_fcAssert fun _ => ?_
  exact spares_endSavings w.1 (by simp [hto]) (by simp [hw.1])

theorem spares_conclusionTransferSavings (o : ConclusionTransferSavingsOperation) :
    Runs (Spares payer names [o.from_, o.to_]) (conclusionTransferSavingsEvaluator o) := by
  refine runs_getIn fun w _ => runs_fcAssert fun hto => ?_
  rw [beq_iff_eq] at hto
  exact spares_endSavings w.1 (by simp [hto]) (by simp [hto])

theorem spares_stakingFund (fa : FundArithmetic) (o : StakingFundOperation) :
    Runs (Spares payer names [o.from_]) (stakingFundEvaluator fa o) := by
  refine spares_getAccount fun from_ _ hfrom => ?_
  refine runs_bind (spares_of_readOnly (readOnly_requireBalance _ _ _)) fun _ => ?_
  refine runs_getIn fun fund _ => runs_fcAssert fun _ => runs_bind (spares_checked _) fun delta => ?_
  refine runs_bind (spares_adjustBalance hfrom (.inl (.head _)) _) fun _ => ?_
  refine runs_bind (spares_adjustFundBalance _ _) fun _ => runs_bind spares_headBlockTime fun now => ?_
  refine runs_bind (spares_checked _) fun due => runs_bind (spares_adjustFundWithdrawBalance _ _) fun _ => ?_
  exact runs_bind (spares_within _ fun _ _ => rfl) fun _ => runs_pure _

theorem spares_endStaking (owner : AccountName) (fundName : Bytes) (requestId : Nat) :
    Runs (Spares payer names [owner]) (endStaking owner fundName requestId) := by
  refine runs_getIn fun w _ => runs_getIn fun fund _ => runs_fcAssert fun _ => ?_
  refine spares_getAccount fun account _ haccount => ?_
  refine runs_bind (spares_adjustBalance haccount (.inl (.head _)) _) fun _ => runs_bind (spares_checked _) fun delta => ?_
  refine runs_bind (spares_adjustFundBalance _ _) fun _ => runs_bind (spares_adjustFundWithdrawBalance _ _) fun _ => ?_
  exact spares_within _ fun _ _ => rfl

theorem spares_transferFund (o : TransferFundOperation) :
    Runs (Spares payer names [o.from_]) (transferFundEvaluator o) := by
  refine spares_getAccount fun from_ _ hfrom => ?_
  refine runs_bind (spares_of_readOnly (readOnly_requireBalance _ _ _)) fun _ => ?_
  refine runs_bind (spares_adjustFundBalance _ _) fun _ => runs_bind (spares_checked _) fun delta => ?_
  exact spares_adjustBalance hfrom (.inl (.head _)) _

/-! ### Evaluators of other parts -/

theorem sameAccounts_bobserverUpdate (o : BobserverUpdateOperation) : Always SameAccounts (bobserverUpdateEvaluator o) := by
  refine always_bind (always_requireRoot _ _) fun _ => always_bind (always_getIn _) fun owner => ?_
  refine always_bind (always_assert _ _) fun _ => always_bind (always_findIn _) fun found => ?_
  cases found with
  | none =>
    exact always_bind always_headBlockTime fun now =>
      always_bind (sameAccounts_within _ fun _ _ => rfl) fun _ => always_pure _
  | some b => exact sameAccounts_within _ fun _ _ => rfl

theorem sameAccounts_requestAccountRecovery (o : RequestAccountRecoveryOperation) :
    Always SameAccounts (requestAccountRecoveryEvaluator o) := by
  refine always_bind (always_getIn _) fun account => always_bind (always_checkRecoveryPartner _ _) fun _ => ?_
  refine always_bind always_get fun s => always_bind (always_findIn _) fun found => ?_
  cases found with
  | none =>
    refine always_bind (always_assert _ _) fun _ => always_bind (always_assert _ _) fun _ => ?_
    exact always_bind (always_getAccounts _) fun _ =>
      always_bind (sameAccounts_within _ fun _ _ => rfl) fun _ => always_pure _
  | some r =>
    dsimp only
    split
    · exact sameAccounts_within _ fun _ _ => rfl
    · refine always_bind (always_bind (always_assert _ _) fun _ => always_getAccounts _) fun _ => ?_
      exact sameAccounts_within _ fun _ _ => rfl

theorem sameAccounts_changeRecoveryAccount (o : ChangeRecoveryAccountOperation) :
    Always SameAccounts (changeRecoveryAccountEvaluator o) := by
  refine always_bind (always_getIn _) fun _ => always_bind (always_getIn _) fun account => ?_
  refine always_bind always_headBlockTime fun now => always_bind (always_findIn _) fun found => ?_
  cases found with
  | none => exact always_bind (sameAccounts_within _ fun _ _ => rfl) fun _ => always_pure _
  | some r =>
    dsimp only
    split
    · exact sameAccounts_within _ fun _ _ => rfl
    · exact sameAccounts_within _ fun _ _ => rfl

theorem sameAccounts_declineVotingRights (o : DeclineVotingRightsOperation) :
    Always SameAccounts (declineVotingRightsEvaluator o) := by
  refine always_bind (always_getIn _) fun account => always_bind always_headBlockTime fun now => ?_
  refine always_bind (always_findIn _) fun found => ?_
  cases o.decline with
  | true =>
    cases found with
    | none => exact always_bind (sameAccounts_within _ fun _ _ => rfl) fun _ => always_pure _
    | some r => exact always_throw _
  | false =>
    cases found with
    | none => exact always_throw _
    | some r => exact sameAccounts_within _ fun _ _ => rfl

theorem sameAccounts_updateBproducer (o : UpdateBproducerOperation) : Always SameAccounts (updateBproducerEvaluator o) := by
  refine always_bind (always_requireRoot _ _) fun _ => always_bind (always_getIn _) fun bobserver => ?_
  refine always_bind (always_assert _ _) fun _ => always_bind always_get fun s => ?_
  refine always_bind (always_assert _ _) fun _ => ?_
  dsimp only
  split
  · exact always_pure _
  · exact always_bind (sameAccounts_within _ fun _ _ => rfl) fun _ => fun _ => rfl

theorem sameAccounts_exceptBobserver (o : ExceptBobserverOperation) : Always SameAccounts (exceptBobserverEvaluator o) := by
  refine always_bind (always_requireRoot _ _) fun _ => always_bind (always_getIn _) fun bobserver => ?_
  exact always_bind (always_assert _ _) fun _ => sameAccounts_within _ fun _ _ => rfl

theorem sameAccounts_accountAuth (o : AccountAuthOperation) : Always SameAccounts (accountAuthEvaluator o) := by
  refine always_bind (always_getIn _) fun _ => always_bind always_headBlockTime fun now => ?_
  refine always_bind (always_findIn _) fun found => ?_
  cases found with
  | none => exact always_bind (sameAccounts_within _ fun _ _ => rfl) fun _ => always_pure _
  | some a => exact sameAccounts_within _ fun _ _ => rfl

theorem sameAccounts_setFundInterest (fa : FundArithmetic) (o : SetFundInterestOperation) :
    Always SameAccounts (setFundInterestEvaluator fa o) := by
  refine always_bind (always_requireRoot _ _) fun _ => always_bind (always_getIn _) fun fund => ?_
  refine always_bind always_headBlockTime fun now => always_bind (always_ofOption _ _) fun d => ?_
  exact sameAccounts_within _ fun _ _ => rfl

/-! ## Operations -/

/-- The accounts whose standing an operation of the core changes. -/
def Operation.affected : Operation → List AccountName
  | .transfer op => [op.from_, op.to_]
  | .accountCreate op => [op.newAccountName]
  | .accountUpdate op => [op.account]
  | .recoverAccount op => [op.accountToRecover]
  | .print op | .burn op => [op.account]
  | .transferSavings op => [op.from_, op.to_]
  | .cancelTransferSavings op => [op.from_, op.to_]
  | .conclusionTransferSavings op => [op.from_, op.to_]
  | .stakingFund op => [op.from_]
  | .conclusionStaking op => [op.from_]
  | .returnStakingFund op => [op.to_]
  | .transferFund op => [op.from_]
  | .setBlacklistAccount op => [op.account]
  | _ => []

/-- A new account changes the standing of no other. -/
theorem standing_accountCreate {o : AccountCreateOperation} {s s' : Core} {u : Unit}
    (h : accountCreateEvaluator o s = .ok u s') {a : AccountName} (ha : a ≠ o.newAccountName) :
    s'.standing payer a = s.standing payer a := by
  simp only [accountCreateEvaluator, bind_eq_ok, createIn_eq_ok, pure_eq_ok] at h
  obtain ⟨_, _, howner, _, _, hactive, _, _, hposting, now, _, hnow, _, _, ⟨hc, -, rfl⟩, _, _, ⟨hc', -, rfl⟩, -, rfl⟩ := h
  obtain rfl := (readOnly_getAccounts _).eq_of_ok howner
  obtain rfl := (readOnly_getAccounts _).eq_of_ok hactive
  obtain rfl := (readOnly_getAccounts _).eq_of_ok hposting
  obtain rfl := readOnly_headBlockTime.eq_of_ok hnow
  have hne : (o.newAccountName == a) = false := beq_eq_false_iff_ne.mpr (Ne.symm ha)
  have haccount := at?_insert_of_not (p := fun x : AccountObject => x.name == a) (h := hc) hne
  have hauthority := at?_insert_of_not (p := fun x : AccountAuthorityObject => x.account == a) (h := hc') hne
  exact congrArg₂ (fun (x : Option AccountObject) (y : Option AccountAuthorityObject) =>
    (x.map fun x => (if payer = some a then 0 else x.balance, x.savingsBalance, x.banned),
      y.map fun y => (y.owner, y.active, y.posting))) haccount hauthority

/-- **An operation of the core** changes the standing of the accounts it affects and no holdings of tokens. -/
theorem standing_of_applyOperation {env : Env} {node : Node} {op : Operation} {d d' : Database} {u : Unit}
    (hcarried : carried op = none) (h : applyOperation env node op d = .ok u d') :
    (∀ a ∉ op.affected, d'.core.standing payer a = d.core.standing payer a) ∧ d'.token = d.token := by
  have hcore : ∀ (m : CoreM Unit), onCore m d = .ok u d' →
      Runs (Spares payer d.core.names op.affected) m →
      (∀ a ∉ op.affected, d'.core.standing payer a = d.core.standing payer a) ∧ d'.token = d.token := by
    intro m hm hruns
    obtain ⟨c, hc, rfl⟩ := onCore_eq_ok.mp hm
    exact ⟨(hruns _ _ _ hc rfl).2, rfl⟩
  cases op with
  | transfer op => exact hcore _ h (spares_transfer node op)
  | accountCreate op =>
    obtain ⟨c, hc, rfl⟩ := onCore_eq_ok.mp h
    exact ⟨fun a ha => standing_accountCreate hc fun heq => ha (heq ▸ .head _), rfl⟩
  | accountUpdate op => exact hcore _ h (spares_accountUpdate op)
  | bobserverUpdate op => exact hcore _ h (spares_of_always (sameAccounts_bobserverUpdate op))
  | custom op => exact hcore _ h (spares_of_readOnly (readOnly_assert _ _))
  | customJson op => cases hcarried
  | requestAccountRecovery op => exact hcore _ h (spares_of_always (sameAccounts_requestAccountRecovery op))
  | recoverAccount op => exact hcore _ h (spares_recoverAccount op)
  | changeRecoveryAccount op => exact hcore _ h (spares_of_always (sameAccounts_changeRecoveryAccount op))
  | customBinary op => cases hcarried
  | declineVotingRights op => exact hcore _ h (spares_of_always (sameAccounts_declineVotingRights op))
  | resetAccount op => cases h
  | setResetAccount op => cases h
  | updateBproducer op => exact hcore _ h (spares_of_always (sameAccounts_updateBproducer op))
  | exceptBobserver op => exact hcore _ h (spares_of_always (sameAccounts_exceptBobserver op))
  | accountAuth op => exact hcore _ h (spares_of_always (sameAccounts_accountAuth op))
  | print op => exact hcore _ h (spares_print op)
  | burn op => exact hcore _ h (spares_burn op)
  | transferSavings op => exact hcore _ h (spares_transferSavings node op)
  | cancelTransferSavings op => exact hcore _ h (spares_cancelTransferSavings op)
  | conclusionTransferSavings op => exact hcore _ h (spares_conclusionTransferSavings op)
  | stakingFund op => exact hcore _ h (spares_stakingFund env.fundArithmetic op)
  | conclusionStaking op =>
    exact hcore _ h (runs_bind (spares_requireRoot _ _) fun _ => spares_endStaking op.from_ op.fundName op.requestId)
  | transferFund op => exact hcore _ h (spares_transferFund op)
  | setFundInterest op => exact hcore _ h (spares_of_always (sameAccounts_setFundInterest env.fundArithmetic op))
  | returnStakingFund op =>
    exact hcore _ h (runs_bind (spares_requireRoot _ _) fun _ => spares_endStaking op.to_ op.fundName op.requestId)
  | customJsonDapp op => cases hcarried
  | setBlacklistAccount op => exact hcore _ h (spares_setBlacklistAccount op)
  | virtual => cases h

end Sigmaengine
