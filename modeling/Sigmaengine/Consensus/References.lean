import Sigmaengine.Consensus.Authority
import Sigmaengine.Consensus.Producers
import Sigmaengine.Consensus.RecoveryWindow
import Sigmaengine.Ledger.Conservation

/-!
# Accounts that authorities refer to

Accounts and their authority objects are created together and never removed, and every evaluator that stores
an authority first looks up the accounts in it, so all of them exist (`Referenced`).  `verify_authority` looks
accounts up by the `std::string` of their names; it finds them all exactly when the name that is left of an
account name is an account as well (`Resolved`).

Main result: `authority_references`.
-/

namespace Sigmaengine

open Effect Table

/-! ## The invariant -/

/-- The names of the accounts. -/
def Core.accountNames (s : Core) : Multiset AccountName := s.accounts.values.map AccountObject.name

/-- The accounts that the authority objects belong to. -/
def Core.authorityNames (s : Core) : Multiset AccountName :=
  s.accountAuthorities.values.map AccountAuthorityObject.account

/-- Every account entry of the authority is an account. -/
def Known (s : Core) (auth : Authority) : Prop := ∀ e ∈ auth.accountAuths, e.1 ∈ s.accountNames

/-- Accounts and authority objects correspond, and the accounts that any stored authority refers to exist. -/
structure Referenced (s : Core) : Prop where
  matched : s.authorityNames = s.accountNames
  temp : tempAccount ∈ s.accountNames
  authorities : ∀ o ∈ s.accountAuthorities.values, Known s o.owner ∧ Known s o.active ∧ Known s o.posting
  requests : ∀ r ∈ s.accountRecoveryRequests.values, Known s r.newOwnerAuthority
  history : ∀ h ∈ s.ownerAuthorityHistory.values, Known s h.previousOwnerAuthority

theorem Known.mono {s s' : Core} {auth : Authority} (h : Known s auth) (hsub : s.accountNames ⊆ s'.accountNames) :
    Known s' auth :=
  fun e he => hsub (h e he)

theorem known_of_nil {s : Core} {auth : Authority} (h : auth.accountAuths = []) : Known s auth := by
  intro e he
  rw [h] at he
  cases he

/-- Requests and history may be dropped; accounts and authorities stay. -/
structure Pruned (s s' : Core) : Prop where
  names : s'.accountNames = s.accountNames
  authorities : s'.accountAuthorities = s.accountAuthorities
  requests : s'.accountRecoveryRequests.values ⊆ s.accountRecoveryRequests.values
  history : s'.ownerAuthorityHistory.values ⊆ s.ownerAuthorityHistory.values

instance : Std.Refl Pruned := ⟨fun _ => ⟨rfl, rfl, Multiset.Subset.refl _, Multiset.Subset.refl _⟩⟩

instance : IsTrans Core Pruned where
  trans _ _ _ h h' := ⟨h'.names.trans h.names, h'.authorities.trans h.authorities,
    Multiset.Subset.trans h'.requests h.requests, Multiset.Subset.trans h'.history h.history⟩

/-- Accounts are only added, and what is stored besides what was there refers to accounts. -/
theorem Referenced.extend {s s' : Core} (hs : Referenced s) (hsub : s.accountNames ⊆ s'.accountNames)
    (hmatched : s'.authorityNames = s'.accountNames)
    (hauthorities : ∀ o ∈ s'.accountAuthorities.values, o ∈ s.accountAuthorities.values ∨
      Known s o.owner ∧ Known s o.active ∧ Known s o.posting)
    (hrequests : ∀ r ∈ s'.accountRecoveryRequests.values, r ∈ s.accountRecoveryRequests.values ∨
      Known s r.newOwnerAuthority)
    (hhistory : ∀ h ∈ s'.ownerAuthorityHistory.values, h ∈ s.ownerAuthorityHistory.values ∨
      Known s h.previousOwnerAuthority) : Referenced s' := by
  refine ⟨hmatched, hsub hs.temp, fun o ho => ?_, fun r hr => ?_, fun x hx => ?_⟩
  · have hknown : Known s o.owner ∧ Known s o.active ∧ Known s o.posting :=
      (hauthorities o ho).elim (hs.authorities o) id
    exact ⟨hknown.1.mono hsub, hknown.2.1.mono hsub, hknown.2.2.mono hsub⟩
  · exact ((hrequests r hr).elim (hs.requests r) id).mono hsub
  · exact ((hhistory x hx).elim (hs.history x) id).mono hsub

theorem Pruned.referenced {s s' : Core} (h : Pruned s s') : Kept Referenced s s' := by
  intro hs
  refine hs.extend ?_ ?_ ?_ (fun r hr => .inl (h.requests hr)) (fun x hx => .inl (h.history hx))
  · rw [h.names]
    exact Multiset.Subset.refl _
  · rw [h.names, ← hs.matched]
    unfold Core.authorityNames
    rw [h.authorities]
  · rw [h.authorities]
    exact fun o ho => .inl ho

theorem pruned_of_recovery {s s' : Core} (h : s'.recovery = s.recovery) : Pruned s s' := by
  simp only [Core.recovery, Prod.mk.injEq] at h
  obtain ⟨hrows, hauthorities, hhistory, hrequests, -⟩ := h
  have hnames : s'.accountNames = s.accountNames := by
    have hmap := congrArg (List.map fun q : Nat × AccountName × AccountName => q.2.1) hrows
    simp only [List.map_map] at hmap
    simp only [Core.accountNames, Table.values, Multiset.map_coe, List.map_map]
    exact congrArg _ hmap
  exact ⟨hnames, hauthorities, by rw [hrequests]; exact Multiset.Subset.refl _,
    by rw [hhistory]; exact Multiset.Subset.refl _⟩

/-! ## What the evaluators check -/

theorem mem_accountNames {s : Core} {r : Nat × AccountObject} (h : r ∈ s.accounts.rows) :
    r.2.name ∈ s.accountNames :=
  Multiset.mem_map_of_mem _ (mem_values.mpr ⟨r.1, h⟩)

theorem getAccounts_eq_ok {names : List AccountName} {s s' : Core} {u : Unit}
    (h : getAccounts names s = .ok u s') : s = s' ∧ ∀ n ∈ names, n ∈ s.accountNames := by
  obtain rfl := (readOnly_getAccounts names).eq_of_ok h
  refine ⟨rfl, ?_⟩
  induction names with
  | nil => simp
  | cons n names ih =>
    simp only [getAccounts, each, getAccount, bind_eq_ok, getIn_eq_ok, pure_eq_ok] at h
    obtain ⟨_, _, ⟨r, _, ⟨hfind, rfl⟩, -, rfl⟩, hrest⟩ := h
    obtain ⟨hmem, hname⟩ := mem_of_find? hfind
    rw [List.forall_mem_cons]
    refine ⟨?_, ih hrest⟩
    rw [← show r.2.name = n from eq_of_beq hname]
    exact mem_accountNames hmem

theorem checkAuthorityAccounts_eq_ok {auth : Authority} {s s' : Core} {u : Unit}
    (h : checkAuthorityAccounts auth s = .ok u s') : s = s' ∧ Known s auth := by
  obtain ⟨hsame, hall⟩ := getAccounts_eq_ok h
  exact ⟨hsame, fun e he => hall e.1 (List.mem_map_of_mem he)⟩

theorem checkOptionalAuthority_eq_ok {auth : Option Authority} {s s' : Core} {u : Unit}
    (h : checkOptionalAuthority auth s = .ok u s') : s = s' ∧ ∀ a ∈ auth, Known s a := by
  cases auth with
  | none =>
    obtain ⟨-, rfl⟩ := pure_eq_ok.mp h
    exact ⟨rfl, nofun⟩
  | some a =>
    obtain ⟨hsame, hknown⟩ := checkAuthorityAccounts_eq_ok h
    refine ⟨hsame, fun b hb => ?_⟩
    obtain rfl := Option.mem_some.mp hb
    exact hknown

/-! ## The evaluators that store an authority -/

theorem referenced_accountCreate (o : AccountCreateOperation) : Runs (Kept Referenced) (accountCreateEvaluator o) := by
  intro s u s' h hs
  simp only [accountCreateEvaluator, headBlockTime, bind_eq_ok, get_eq_ok, pure_eq_ok, createIn_eq_ok] at h
  obtain ⟨_, _, hcheck, _, _, hcheck', _, _, hcheck'', _, _, ⟨_, _, ⟨rfl, rfl⟩, rfl, rfl⟩, _, _, ⟨hc, -, rfl⟩,
    _, _, ⟨hc', -, rfl⟩, -, rfl⟩ := h
  obtain ⟨rfl, howner⟩ := checkAuthorityAccounts_eq_ok hcheck
  obtain ⟨rfl, hactive⟩ := checkAuthorityAccounts_eq_ok hcheck'
  obtain ⟨rfl, hposting⟩ := checkAuthorityAccounts_eq_ok hcheck''
  -- both indices get the new name
  have hname := map_values_insert s.accounts hc AccountObject.name
  have haccount := map_values_insert s.accountAuthorities hc' AccountAuthorityObject.account
  refine hs.extend (fun n hn => ?_) (haccount.trans ((congrArg _ hs.matched).trans hname.symm))
    (forall_insert (h := hc') (fun o ho => .inl ho) (.inr ⟨howner, hactive, hposting⟩)) (fun r hr => .inl hr)
    (fun x hx => .inl hx)
  exact Multiset.mem_of_le (le_of_eq hname.symm) (Multiset.mem_cons_of_mem hn)

/-- The old owner authority goes to the history, and the new one has been checked. -/
theorem referenced_updateOwnerAuthority {a : AccountName} {owner : Authority} {s s' : Core} {u : Unit}
    (hs : Referenced s) (howner : Known s owner) (h : updateOwnerAuthority a owner s = .ok u s') :
    Referenced s' ∧ s'.accounts = s.accounts := by
  simp only [updateOwnerAuthority, headBlockTime, getAccountAuthority, bind_eq_ok, get_eq_ok, pure_eq_ok,
    getIn_eq_ok, createIn_eq_ok, modifyIn_eq_ok] at h
  obtain ⟨_, _, ⟨_, _, ⟨rfl, rfl⟩, rfl, rfl⟩, old, _, ⟨hfind, rfl⟩, _, _, ⟨hc, -, rfl⟩, x, y, hc', hx, hf, rfl⟩ := h
  cases hf
  have hx : s.accountAuthorities.lookup old.1 = some x := hx
  obtain ⟨-, hactive, hposting⟩ := hs.authorities x (mem_values.mpr ⟨old.1, lookup_eq_some.mp hx⟩)
  have hold := (hs.authorities old.2 (mem_values.mpr ⟨old.1, (mem_of_find? hfind).1⟩)).1
  refine ⟨hs.extend (Multiset.Subset.refl _) ?_
    (forall_replace (h := hc') (fun o ho => .inl ho) (.inr ⟨howner, hactive, hposting⟩)) (fun r hr => .inl hr)
    (forall_insert (h := hc) (fun x hx => .inl hx) (.inr hold)), rfl⟩
  show (s.accountAuthorities.replace old.1 _ hc').values.map AccountAuthorityObject.account = s.accountNames
  rw [map_values_replace hx hc' rfl]
  exact hs.matched

/-- A change of an account that is not about its name. -/
theorem pruned_modifyAccount {id : Nat} {f : AccountObject → Except Error AccountObject} {s s' : Core} {u : Unit}
    (hf : ∀ a b, f a = .ok b → b.name = a.name) (h : modifyIn Index.accounts id f s = .ok u s') : Pruned s s' := by
  obtain ⟨a, b, hc, ha, hfa, rfl⟩ := modifyIn_eq_ok.mp h
  refine ⟨map_values_replace ha hc (hf a b hfa), rfl, Multiset.Subset.refl _, Multiset.Subset.refl _⟩

theorem referenced_accountUpdate (o : AccountUpdateOperation) : Runs (Kept Referenced) (accountUpdateEvaluator o) := by
  intro s u s' h hs
  simp only [accountUpdateEvaluator, hasHardfork, headBlockTime, bind_eq_ok, get_eq_ok, pure_eq_ok, fcAssert_eq_ok,
    checked_eq_ok] at h
  obtain ⟨_, _, ⟨_, _, ⟨rfl, rfl⟩, rfl, rfl⟩, _, _, ⟨-, rfl⟩, _, _, ⟨-, rfl⟩, account, _, haccount, auth, _,
    hauth, _, t, howner, _, _, hcheck, _, _, hcheck', _, _, ⟨_, _, ⟨rfl, rfl⟩, rfl, rfl⟩, _, t', hmodify, hlast⟩ := h
  obtain rfl := (readOnly_getIn _).eq_of_ok haccount
  obtain rfl := (readOnly_getIn _).eq_of_ok hauth
  obtain ⟨rfl, hactive⟩ := checkOptionalAuthority_eq_ok hcheck
  obtain ⟨rfl, hposting⟩ := checkOptionalAuthority_eq_ok hcheck'
  have ht : Referenced t := by
    cases hopt : o.owner with
    | none =>
      rw [hopt] at howner
      obtain ⟨-, rfl⟩ := pure_eq_ok.mp howner
      exact hs
    | some owner =>
      rw [hopt] at howner
      simp only [updateOwner, headBlockTime, bind_eq_ok, get_eq_ok, pure_eq_ok, fcAssert_eq_ok] at howner
      obtain ⟨_, _, ⟨_, _, ⟨rfl, rfl⟩, rfl, rfl⟩, _, _, ⟨-, rfl⟩, _, _, hcheck, hupdate⟩ := howner
      obtain ⟨rfl, hknown⟩ := checkAuthorityAccounts_eq_ok hcheck
      exact (referenced_updateOwnerAuthority hs hknown hupdate).1
  have hpruned : Pruned t t' := pruned_modifyAccount (fun a b h => by cases h; rfl) hmodify
  have ht' : Referenced t' := hpruned.referenced ht
  split at hlast
  · obtain ⟨x, y, hc, hx, hf, rfl⟩ := modifyIn_eq_ok.mp hlast
    cases hf
    have hx : t'.accountAuthorities.lookup auth.1 = some x := hx
    obtain ⟨hxowner, hxactive, hxposting⟩ := ht'.authorities x (mem_values.mpr ⟨auth.1, lookup_eq_some.mp hx⟩)
    have hnew : ∀ (new : Option Authority) (old : Authority), (∀ a ∈ new, Known t a) → Known t' old →
        Known t' (new.getD old) := by
      intro new old hnew hold
      cases new with
      | none => exact hold
      | some a =>
        refine (hnew a rfl).mono ?_
        rw [hpruned.names]
        exact Multiset.Subset.refl _
    refine ht'.extend (Multiset.Subset.refl _) ?_ (forall_replace (h := hc) (fun o ho => .inl ho) (.inr ⟨hxowner,
      hnew _ _ hactive hxactive, hnew _ _ hposting hxposting⟩)) (fun r hr => .inl hr) (fun x hx => .inl hx)
    show (t'.accountAuthorities.replace auth.1 _ hc).values.map AccountAuthorityObject.account = t'.accountNames
    rw [map_values_replace hx hc rfl]
    exact ht'.matched
  · obtain ⟨-, rfl⟩ := pure_eq_ok.mp hlast
    exact ht'

theorem referenced_requestAccountRecovery (o : RequestAccountRecoveryOperation) :
    Runs (Kept Referenced) (requestAccountRecoveryEvaluator o) := by
  intro s u s' h hs
  simp only [requestAccountRecoveryEvaluator, getAccount, bind_eq_ok, get_eq_ok, getIn_eq_ok, findIn_eq_ok] at h
  obtain ⟨account, _, ⟨hfind, rfl⟩, _, _, hcheck, _, _, ⟨rfl, rfl⟩, found, _, ⟨-, rfl⟩, hwrite⟩ := h
  obtain ⟨rfl, -⟩ := checkRecoveryPartner_eq_ok (mem_of_find? hfind).1 hcheck
  -- whatever is stored has been checked
  cases found with
  | none =>
    simp only [bind_eq_ok, fcAssert_eq_ok, pure_eq_ok, createIn_eq_ok] at hwrite
    obtain ⟨_, _, ⟨-, rfl⟩, _, _, ⟨-, rfl⟩, _, _, hcheck, _, _, ⟨hc, -, rfl⟩, -, rfl⟩ := hwrite
    obtain ⟨rfl, hknown⟩ := checkAuthorityAccounts_eq_ok hcheck
    exact hs.extend (Multiset.Subset.refl _) hs.matched (fun o ho => .inl ho)
      (forall_insert (h := hc) (fun r hr => .inl hr) (.inr hknown)) (fun x hx => .inl hx)
  | some r =>
    dsimp only at hwrite
    split at hwrite
    · rw [removeIn_eq_ok] at hwrite
      subst hwrite
      exact hs.extend (Multiset.Subset.refl _) hs.matched (fun o ho => .inl ho)
        (forall_erase fun r hr => .inl hr) (fun x hx => .inl hx)
    · simp only [checkRecoveryAuthority, bind_eq_ok, fcAssert_eq_ok, modifyIn_eq_ok] at hwrite
      obtain ⟨_, _, ⟨_, _, ⟨-, rfl⟩, hcheck⟩, a, b, hc, ha, hf, rfl⟩ := hwrite
      obtain ⟨rfl, hknown⟩ := checkAuthorityAccounts_eq_ok hcheck
      cases hf
      exact hs.extend (Multiset.Subset.refl _) hs.matched (fun o ho => .inl ho)
        (forall_replace (h := hc) (fun r hr => .inl hr) (.inr hknown)) (fun x hx => .inl hx)

/-- The authority of a recovery was checked with the request it has to be equal to. -/
theorem referenced_recoverAccount (o : RecoverAccountOperation) :
    Runs (Kept Referenced) (recoverAccountEvaluator o) := by
  intro s u s' h hs
  simp only [recoverAccountEvaluator, headBlockTime, getAccount, bind_eq_ok, get_eq_ok, pure_eq_ok, getIn_eq_ok,
    findIn_eq_ok, fcAssert_eq_ok] at h
  obtain ⟨account, _, ⟨-, rfl⟩, now, _, ⟨_, _, ⟨rfl, rfl⟩, rfl, rfl⟩, _, _, ⟨-, rfl⟩, found, _,
    ⟨hfound, rfl⟩, hwrite⟩ := h
  cases found with
  | none => exact (throw_eq_ok.mp hwrite).elim
  | some r =>
    simp only [bind_eq_ok, fcAssert_eq_ok, get_eq_ok] at hwrite
    obtain ⟨_, _, ⟨hmatch, rfl⟩, _, _, ⟨rfl, rfl⟩, _, _, ⟨-, rfl⟩, _, t, hremove, _, t', hupdate, hlast⟩ := hwrite
    rw [removeIn_eq_ok] at hremove
    subst hremove
    have hknown : Known s o.newOwnerAuthority := by
      rw [← eq_of_beq hmatch]
      exact hs.requests r.2 (mem_values.mpr ⟨r.1, (mem_of_find? hfound).1⟩)
    have ht : Referenced { s with accountRecoveryRequests := s.accountRecoveryRequests.erase r.1 } := hs.extend
      (Multiset.Subset.refl _) hs.matched (fun o ho => .inl ho) (forall_erase fun r hr => .inl hr) (fun x hx => .inl hx)
    obtain ⟨ht', -⟩ := referenced_updateOwnerAuthority ht hknown hupdate
    exact (pruned_modifyAccount (fun a b h => by cases h; rfl) hlast).referenced ht'

/-! ## Everything else -/

theorem pruned_changeRecoveryAccount (o : ChangeRecoveryAccountOperation) :
    Always Pruned (changeRecoveryAccountEvaluator o) := by
  have hwrite : ∀ {α : Type} (m : Prog Error (Table ChangeRecoveryAccountRequestObject) α),
      Always Pruned (within Index.changeRecoveryAccountRequests m) :=
    fun m => always_within (fun _ _ => ⟨rfl, rfl, Multiset.Subset.refl _, Multiset.Subset.refl _⟩) m
  refine always_bind (always_getIn _) fun _ => always_bind (always_getIn _) fun account => ?_
  refine always_bind always_headBlockTime fun now => always_bind (always_findIn _) fun found => ?_
  cases found with
  | none => exact always_bind (hwrite _) fun _ => always_pure _
  | some r =>
    dsimp only
    split
    · exact hwrite _
    · exact hwrite _

theorem operationRuns_referenced : OperationRuns (Kept Referenced) where
  money _ _ h := (pruned_of_recovery (congrArg Prod.fst h)).referenced
  accountCreate := referenced_accountCreate
  accountUpdate := referenced_accountUpdate
  requestAccountRecovery := referenced_requestAccountRecovery
  recoverAccount := referenced_recoverAccount
  changeRecoveryAccount o := ((pruned_changeRecoveryAccount o).mono fun _ _ h => h.referenced).runs
  bobserverUpdate o := (always_bobserverUpdate (fun _ _ _ => Pruned.referenced (pruned_of_recovery rfl)) o).runs
  updateBproducer o := (always_updateBproducer (fun _ _ _ => Pruned.referenced (pruned_of_recovery rfl)) o).runs
  exceptBobserver o := (always_exceptBobserver (fun _ _ _ => Pruned.referenced (pruned_of_recovery rfl)) o).runs

/-- The cleanup drops requests and history, and writes recovery accounts. -/
theorem pruned_accountRecoveryProcessing : Runs Pruned accountRecoveryProcessing := by
  refine runs_bind always_get.runs fun s => runs_bind (runs_loop ?_ _) fun _ =>
    runs_bind (runs_loop ?_ _) fun _ => runs_loop ?_ _
  · intro s again s' h
    rcases clearRecoveryRequest_eq_ok h with ⟨-, t, rfl, hsub⟩ | ⟨-, rfl, -⟩
    · exact ⟨rfl, rfl, fun r hr => values_of_sublist hsub hr, Multiset.Subset.refl _⟩
    · exact Std.Refl.refl _
  · intro s again s' h
    rcases clearOwnerHistory_eq_ok h with ⟨-, t, rfl, hsub⟩ | ⟨-, rfl, -⟩
    · exact ⟨rfl, rfl, Multiset.Subset.refl _, fun r hr => values_of_sublist hsub hr⟩
    · exact Std.Refl.refl _
  · intro s again s' h
    unfold applyRecoveryChange at h
    rw [bind_of_ok (get_apply s)] at h
    cases hfirst : s.changeRecoveryAccountRequests.least? ChangeRecoveryAccountRequestObject.before with
    | none =>
      rw [hfirst] at h
      obtain ⟨-, rfl⟩ := pure_eq_ok.mp h
      exact Std.Refl.refl _
    | some r =>
      rw [hfirst] at h
      dsimp only at h
      split at h
      · simp only [bind_eq_ok, pure_eq_ok, removeIn_eq_ok] at h
        obtain ⟨account, t, hget, _, t', hmodify, _, _, rfl, -, rfl⟩ := h
        obtain rfl := (readOnly_getIn _).eq_of_ok hget
        obtain ⟨hnames, hauthorities, hrequests, hhistory⟩ :=
          pruned_modifyAccount (fun a b h => by cases h; rfl) hmodify
        exact ⟨hnames, hauthorities, hrequests, hhistory⟩
      · obtain ⟨-, rfl⟩ := pure_eq_ok.mp h
        exact Std.Refl.refl _

theorem referenced_genesis (key : PublicKey) : Referenced (genesis key).core := by
  have hauthorities : (genesis key).core.accountAuthorities.values =
      {{ account := minerAccount, owner := { weightThreshold := 1 }, active := { weightThreshold := 1 } },
        { account := nullAccount, owner := { weightThreshold := 1 }, active := { weightThreshold := 1 } },
        { account := tempAccount },
        { account := initMinerName, owner := .ofKey key, active := .ofKey key, posting := .ofKey key }} :=
    values_ofList (by simp [Clash.clash])
  refine ⟨?_, ?_, fun o ho => ?_, fun r hr => ?_, fun x hx => ?_⟩
  · unfold Core.authorityNames Core.accountNames
    rw [hauthorities, genesis_accounts]
    rfl
  · unfold Core.accountNames
    rw [genesis_accounts]
    exact List.mem_map.mpr ⟨{ name := tempAccount }, by simp [genesisAccounts], rfl⟩
  · rw [hauthorities] at ho
    simp only [Multiset.insert_eq_cons, Multiset.mem_cons, Multiset.mem_singleton] at ho
    rcases ho with rfl | rfl | rfl | rfl <;> exact ⟨known_of_nil rfl, known_of_nil rfl, known_of_nil rfl⟩
  · exact absurd hr (Multiset.notMem_zero r)
  · exact absurd hx (Multiset.notMem_zero x)

theorem Reached.referenced {env : Env} {d : Database} (h : Reached env d) : Referenced d.core :=
  h.core referenced_genesis operationRuns_referenced
    (fun _ _ h => (pruned_of_recovery h.recovery).referenced)
    fun _ _ _ h => (pruned_accountRecoveryProcessing _ _ _ h).referenced

/-! ## The lookups of the authority check -/

/-- What a transaction requires exists. -/
structure RequiredExist (s : Core) (r : RequiredAuthorities) : Prop where
  named : ∀ a ∈ r.active ++ r.owner ++ r.posting, a ∈ s.accountNames
  explicit : ∀ auth ∈ r.other, Known s auth

/-- The name that is left when an account name has been a string is that of an account. -/
def Resolved (s : Core) : Prop := ∀ a ∈ s.accountNames, FixedString.ofBytes a.toBytes ∈ s.accountNames

/-- Looking an account up succeeds, and the entries of what is found are accounts. -/
def Finds (s : Core) (get : Bytes → Option Authority) : Prop :=
  ∀ a ∈ s.accountNames, ∃ auth, get a.toBytes = some auth ∧ Known s auth

namespace SignState

variable {s : Core} {get : Bytes → Option Authority}

theorem avoids_signedBy (k : PublicKey) : Avoids .notFound (signedBy k) := by
  intro st st' h
  unfold signedBy at h
  split at h
  · cases h
  · split at h <;> cases h

theorem avoids_checkKeys (threshold : Nat) (ks : List (PublicKey × Nat)) (total : Nat) :
    Avoids .notFound (checkKeys threshold ks total) := by
  induction ks generalizing total with
  | nil => exact avoids_pure _
  | cons p ks ih =>
    refine avoids_bind (avoids_signedBy _) fun signed => ?_
    cases signed with
    | false => exact ih _
    | true =>
      simp only [if_true, Bool.true_and, decide_eq_true_eq]
      split
      · exact avoids_pure _
      · exact ih _

theorem avoids_checkAccounts (threshold : Nat) {check : Bytes → Prog Error SignState Bool}
    {as : List (AccountName × Nat)} (hcheck : ∀ e ∈ as, Avoids .notFound (check e.1.toBytes)) (total : Nat) :
    Avoids .notFound (checkAccounts threshold check as total) := by
  induction as generalizing total with
  | nil => exact avoids_pure _
  | cons e as ih =>
    rw [List.forall_mem_cons] at hcheck
    refine avoids_bind avoids_get fun st => ?_
    have hrest : ∀ ok : Bool, Avoids .notFound
        (if (ok && decide (threshold ≤ if ok = true then (total + e.2) % 4294967296 else total)) = true then
          pure (if ok = true then (total + e.2) % 4294967296 else total)
        else checkAccounts threshold check as (if ok = true then (total + e.2) % 4294967296 else total)) := by
      intro ok
      cases ok with
      | false => exact ih hcheck.2 _
      | true =>
        simp only [if_true, Bool.true_and, decide_eq_true_eq]
        split
        · exact avoids_pure _
        · exact ih hcheck.2 _
    dsimp only
    split
    · exact hrest true
    · exact avoids_bind hcheck.1 hrest

theorem avoids_checkAuthority (hget : Sigmaengine.Finds s get) (left : Nat) {auth : Authority} (hauth : Known s auth) :
    Avoids .notFound (checkAuthority get left auth) := by
  induction left generalizing auth with
  | zero =>
    unfold checkAuthority
    refine avoids_bind (avoids_checkKeys _ _ _) fun p => ?_
    dsimp only
    split
    · exact avoids_pure _
    · exact avoids_bind (avoids_checkAccounts _ (fun _ _ => avoids_pure _) _) fun _ => avoids_pure _
  | succ left ih =>
    unfold checkAuthority
    refine avoids_bind (avoids_checkKeys _ _ _) fun p => ?_
    dsimp only
    split
    · exact avoids_pure _
    · refine avoids_bind (avoids_checkAccounts _ (fun e he => ?_) _) fun _ => avoids_pure _
      obtain ⟨own, hown, hknown⟩ := hget e.1 (hauth e he)
      rw [hown, ofOption, pure_bind]
      refine avoids_bind (ih hknown) fun ok => ?_
      split
      · exact avoids_bind (avoids_modify _) fun _ => avoids_pure _
      · exact avoids_pure _

/-- The check of one authority of an account that exists. -/
theorem avoids_stored (hget : Sigmaengine.Finds s get) {own : Bytes → Option Authority}
    (hown : Sigmaengine.Finds s own) (depth : Nat) {a : AccountName} (ha : a ∈ s.accountNames) : Avoids .notFound (do
      let auth ← ofOption (own a.toBytes) .notFound
      checkAuthority get depth auth) := by
  obtain ⟨auth, hauth, hknown⟩ := hown a ha
  rw [hauth, ofOption, pure_bind]
  exact avoids_checkAuthority hget depth hknown

theorem avoids_checkAccount (hget : Sigmaengine.Finds s get) (depth : Nat) {a : AccountName} (ha : a ∈ s.accountNames) :
    Avoids .notFound (checkAccount get depth a.toBytes) := by
  refine avoids_bind avoids_get fun st => ?_
  split
  · exact avoids_pure _
  · exact avoids_stored hget hget depth ha

theorem avoids_requireOneOf {error : String} {ps : List (Prog Error SignState Bool)}
    (h : ∀ p ∈ ps, Avoids .notFound p) : Avoids .notFound (requireOneOf error ps) := by
  induction ps with
  | nil => exact avoids_throw (by simp)
  | cons p ps ih =>
    rw [List.forall_mem_cons] at h
    refine avoids_bind h.1 fun ok => ?_
    split
    · exact avoids_pure _
    · exact ih h.2

end SignState

open SignState in
/-- **The lookups of `verify_authority`** succeed when names resolve to accounts. -/
theorem verifyAuthority_ne_notFound {s : Core} {g : AuthorityGetters} (hactive : Finds s g.getActive)
    (howner : Finds s g.getOwner) (hposting : Finds s g.getPosting) {r : RequiredAuthorities}
    (hr : RequiredExist s r) (keys : List PublicKey) : verifyAuthority g r keys ≠ .error .notFound := by
  have hnamed : ∀ a, a ∈ r.active ∨ a ∈ r.owner ∨ a ∈ r.posting → a ∈ s.accountNames := by
    intro a ha
    refine hr.named a ?_
    rw [List.mem_append, List.mem_append]
    tauto
  intro h
  unfold verifyAuthority at h
  dsimp only at h
  split at h
  · rename_i e st hbody
    cases h
    revert hbody
    have hassert : ∀ c text, Avoids Error.notFound (fcAssert c text : Prog Error SignState Unit) :=
      fun c text => avoids_assert (by simp) c
    refine (?_ : Avoids Error.notFound _) _ st
    split
    · refine avoids_bind (hassert _ _) fun _ => avoids_bind (hassert _ _) fun _ => ?_
      refine avoids_bind (hassert _ _) fun _ => avoids_each_of_mem fun a ha => avoids_requireOneOf ?_
      have ha' := hnamed a (.inr (.inr ha))
      simp only [List.forall_mem_cons]
      exact ⟨avoids_checkAccount hposting _ ha', avoids_stored hposting hactive _ ha',
        avoids_stored hposting howner _ ha', by simp⟩
    · refine avoids_bind (avoids_each_of_mem fun auth hauth => avoids_requireOneOf ?_) fun _ => ?_
      · simp only [List.forall_mem_cons]
        exact ⟨avoids_checkAuthority hactive _ (hr.explicit auth hauth), by simp⟩
      refine avoids_bind (avoids_each_of_mem fun a ha => avoids_requireOneOf ?_) fun _ => ?_
      · have ha' := hnamed a (.inl ha)
        simp only [List.forall_mem_cons]
        exact ⟨avoids_checkAccount hactive _ ha', avoids_stored hactive howner _ ha', by simp⟩
      · refine avoids_each_of_mem fun a ha => avoids_requireOneOf ?_
        have ha' := hnamed a (.inr (.inl ha))
        simp only [List.forall_mem_cons]
        exact ⟨avoids_stored hactive howner _ ha', by simp⟩
  · split at h <;> cases h

/-! ## The getters -/

/-- An authority of an account, read by a getter of `_apply_transaction`. -/
theorem Referenced.finds {s : Core} (hs : Referenced s) (hresolved : Resolved s)
    {field : AccountAuthorityObject → Authority} (hfield : ∀ o ∈ s.accountAuthorities.values, Known s (field o)) :
    Finds s fun n => (s.accountAuthorities.find? fun a => a.account == .ofBytes n).map fun r => field r.2 := by
  intro a ha
  have hname := hresolved a ha
  rw [← hs.matched] at hname
  obtain ⟨o, ho, haccount⟩ := Multiset.mem_map.mp hname
  obtain ⟨id, hid⟩ := mem_values.mp ho
  cases hfind : s.accountAuthorities.find? fun x => x.account == .ofBytes a.toBytes with
  | none =>
    have hother := find?_eq_none hfind hid
    simp [haccount] at hother
  | some r =>
    refine ⟨field r.2, ?_, hfield r.2 (mem_values.mpr ⟨r.1, (mem_of_find? hfind).1⟩)⟩
    dsimp only
    rw [hfind, Option.map_some]

/-- A transfer from the account. -/
def transferFrom (a : AccountName) : SignedTransaction :=
  ⟨0, 0, 0, [.transfer { from_ := a, to_ := a, amount := sgt 1, memo := [] }], []⟩

/-- An account whose name does not resolve cannot be looked up. -/
theorem Referenced.unresolved {s : Core} (hs : Referenced s) {a : AccountName}
    (hnone : FixedString.ofBytes a.toBytes ∉ s.accountNames) (keys : List PublicKey) :
    verifyAuthority (authorityGetters s) (transferFrom a).requiredAuthorities keys = .error .notFound := by
  have hget : (authorityGetters s).getActive a.toBytes = none := by
    show (s.accountAuthorities.find? fun x => x.account == .ofBytes a.toBytes).map _ = none
    cases hfind : s.accountAuthorities.find? fun x => x.account == .ofBytes a.toBytes with
    | none => rfl
    | some r =>
      obtain ⟨hmem, hname⟩ := mem_of_find? hfind
      refine absurd ?_ hnone
      rw [← hs.matched, ← show r.2.account = .ofBytes a.toBytes from eq_of_beq hname]
      exact Multiset.mem_map_of_mem _ (mem_values.mpr ⟨r.1, hmem⟩)
  -- `temp` is approved from the start, but it is an account
  have hfresh : (SignState.init keys []).approvedBy.contains a.toBytes = false := by
    rw [Bool.eq_false_iff]
    intro hmem
    have htemp : a.toBytes = tempAccount.toBytes := by
      rw [List.mem_singleton.mp (List.contains_iff_mem.mp hmem)]
      decide +kernel
    have hplain : Plain tempAccount := by decide +kernel
    refine hnone ?_
    rw [htemp, show FixedString.ofBytes tempAccount.toBytes = tempAccount from hplain]
    exact hs.temp
  have hcheck : SignState.checkAccount (authorityGetters s).getActive maxSigCheckDepth a.toBytes (SignState.init keys []) =
      .error .notFound (SignState.init keys []) := by
    unfold SignState.checkAccount
    rw [bind_of_ok (get_apply _), hfresh, if_neg Bool.false_ne_true, hget]
    rfl
  have hrequired : (transferFrom a).requiredAuthorities = { active := [a] } := rfl
  rw [hrequired]
  unfold verifyAuthority
  dsimp only
  rw [if_neg (not_not.mpr rfl)]
  simp only [each, pure_bind]
  have hone : requireOneOf "Missing Active Authority"
      [SignState.checkAccount (authorityGetters s).getActive maxSigCheckDepth a.toBytes, do
        let auth ← ofOption ((authorityGetters s).getOwner a.toBytes) .notFound
        SignState.checkAuthority (authorityGetters s).getActive maxSigCheckDepth auth] (SignState.init keys []) =
      .error .notFound (SignState.init keys []) := by
    unfold requireOneOf
    exact bind_of_error hcheck
  rw [bind_of_error (f := fun _ => pure ()) (bind_of_error (f := fun _ => pure ()) hone)]

/-- **Referential integrity of authorities.** In every reachable state accounts and authority objects
correspond one to one by name, and every account that a stored authority, a pending request or an entry of the
history refers to exists; the lookups of `verify_authority` find everything for each transaction whose required
accounts exist, exactly when every account name resolves to an account. -/
theorem authority_references (env : Env) {d : Database} (h : Reached env d) :
    d.core.authorityNames = d.core.accountNames ∧ d.core.accountNames.Nodup ∧
      (∀ o ∈ d.core.accountAuthorities.values,
        Known d.core o.owner ∧ Known d.core o.active ∧ Known d.core o.posting) ∧
      (∀ r ∈ d.core.accountRecoveryRequests.values, Known d.core r.newOwnerAuthority) ∧
      (∀ x ∈ d.core.ownerAuthorityHistory.values, Known d.core x.previousOwnerAuthority) ∧
      ((∀ trx : SignedTransaction, RequiredExist d.core trx.requiredAuthorities → ∀ keys,
          verifyAuthority (authorityGetters d.core) trx.requiredAuthorities keys ≠ .error .notFound) ↔
        Resolved d.core) := by
  have hs := h.referenced
  refine ⟨hs.matched, ?_, hs.authorities, hs.requests, hs.history, fun hfound a ha => ?_, fun hresolved trx hr keys => ?_⟩
  · show (↑((d.core.accounts.rows.map Prod.snd).map AccountObject.name) : Multiset AccountName).Nodup
    rw [Multiset.coe_nodup, List.map_map, List.Nodup, List.pairwise_map]
    exact d.core.accounts.distinct.imp fun hab => ne_of_beq_false hab
  · by_contra hnone
    refine hfound (transferFrom a) ⟨fun n hn => ?_, nofun⟩ [] (hs.unresolved hnone [])
    obtain rfl : n = a := List.mem_singleton.mp hn
    exact ha
  · refine verifyAuthority_ne_notFound (hs.finds hresolved fun o ho => (hs.authorities o ho).2.1)
      (hs.finds hresolved fun o ho => (hs.authorities o ho).1)
      (hs.finds hresolved fun o ho => (hs.authorities o ho).2.2) hr keys

/-- The first account or a key. -/
def minerOrKey (key : PublicKey) : Authority :=
  { weightThreshold := 1, accountAuths := [(initMinerName, 1)], keyAuths := [(key, 1)] }

/-- An account that the first one may act for changes its owner, and its recovery is requested. -/
def minerOrKeyBlock : SignedBlock :=
  sampleBlock {} 1
    [.accountCreate
      { creator := initMinerName, newAccountName := rootAccount, owner := minerOrKey ⟨1⟩, active := minerOrKey ⟨1⟩,
        posting := .ofKey ⟨1⟩, memoKey := ⟨1⟩, jsonMetadata := [] },
      .accountUpdate ⟨rootAccount, some (minerOrKey ⟨2⟩), none, none, ⟨1⟩, []⟩,
      .requestAccountRecovery ⟨initMinerName, rootAccount, minerOrKey ⟨3⟩⟩]

def minerOrKeyState : Database := sampleAfter minerOrKeyBlock (genesis ⟨1⟩)

theorem authority_references_minerOrKey :
    (minerOrKeyState.core.accountRecoveryRequests.rows.map fun r => r.2.newOwnerAuthority) = [minerOrKey ⟨3⟩] ∧
      (minerOrKeyState.core.ownerAuthorityHistory.rows.map fun r => r.2.previousOwnerAuthority) = [minerOrKey ⟨1⟩] ∧
      Resolved minerOrKeyState.core ∧ ∀ trx : SignedTransaction,
        RequiredExist minerOrKeyState.core trx.requiredAuthorities → ∀ keys,
          verifyAuthority (authorityGetters minerOrKeyState.core) trx.requiredAuthorities keys ≠ .error .notFound := by
  have hrun : succeeds (applyBlock sampleEnv {} minerOrKeyBlock (genesis ⟨1⟩)) = true ∧
      (minerOrKeyState.core.accountRecoveryRequests.rows.map fun r => r.2.newOwnerAuthority) = [minerOrKey ⟨3⟩] ∧
      (minerOrKeyState.core.ownerAuthorityHistory.rows.map fun r => r.2.previousOwnerAuthority) = [minerOrKey ⟨1⟩] := by
    decide +kernel
  have hresolved : Resolved minerOrKeyState.core := by
    unfold Resolved
    decide +kernel
  have hreached : Reached sampleEnv minerOrKeyState :=
    (Reached.genesis ⟨1⟩).block {} minerOrKeyBlock (eq_ok_of_succeeds hrun.1)
  exact ⟨hrun.2.1, hrun.2.2, hresolved, (authority_references sampleEnv hreached).2.2.2.2.2.mpr hresolved⟩

/-! ## A name that does not resolve -/

/-- The account `"eve\0x"`, where there is no account `"eve"`. -/
def hiddenBlock : SignedBlock := sampleBlock {} 1 [createRoot, createEve hiddenEve ⟨3⟩]

/-- The block is accepted, the account exists, and no transaction that needs its authority can be checked. -/
theorem hidden_name_not_found :
    Reached sampleEnv (sampleAfter hiddenBlock (genesis ⟨1⟩)) ∧
      hiddenEve ∈ (sampleAfter hiddenBlock (genesis ⟨1⟩)).core.accountNames ∧
      RequiredExist (sampleAfter hiddenBlock (genesis ⟨1⟩)).core (transferFrom hiddenEve).requiredAuthorities ∧
      verifyAuthority (authorityGetters (sampleAfter hiddenBlock (genesis ⟨1⟩)).core)
        (transferFrom hiddenEve).requiredAuthorities [⟨3⟩] = .error .notFound := by
  have hruns : succeeds (applyBlock sampleEnv {} hiddenBlock (genesis ⟨1⟩)) = true ∧
      ((sampleAfter hiddenBlock (genesis ⟨1⟩)).core.accounts.rows.any fun r => r.2.name == hiddenEve) = true ∧
      verifyAuthority (authorityGetters (sampleAfter hiddenBlock (genesis ⟨1⟩)).core)
        (transferFrom hiddenEve).requiredAuthorities [⟨3⟩] = .error .notFound := by
    decide +kernel
  obtain ⟨hblock, hany, hfail⟩ := hruns
  have hmem : hiddenEve ∈ (sampleAfter hiddenBlock (genesis ⟨1⟩)).core.accountNames := by
    obtain ⟨r, hr, hname⟩ := List.any_eq_true.mp hany
    rw [← show r.2.name = hiddenEve from eq_of_beq hname]
    exact mem_accountNames hr
  refine ⟨(Reached.genesis ⟨1⟩).block {} hiddenBlock (eq_ok_of_succeeds hblock), hmem, ⟨fun n hn => ?_, nofun⟩, hfail⟩
  obtain rfl : n = hiddenEve := List.mem_singleton.mp hn
  exact hmem

end Sigmaengine
