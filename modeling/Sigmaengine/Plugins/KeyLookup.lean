import Sigmaengine.Consensus.References
import Sigmaengine.Ledger.Standing

/-!
# Lookup of accounts by key

`account_by_key_plugin` keeps an index of the keys that occur in the authorities of an account.  Before an operation
that may change an authority it caches the keys there are, and afterwards it writes the difference.  The index is part
of the state that is undone with a session; the cache is not.
-/

namespace Sigmaengine.AccountByKey

open Effect Table

/-! ## The index -/

structure KeyLookupObject where
  key : PublicKey
  account : AccountName
deriving DecidableEq

/-- `by_key`. -/
instance : Clash KeyLookupObject where
  clash a b := a.key == b.key && a.account == b.account

/-- A `flat_set` of keys.  Their order only decides in which order lookups are created. -/
abbrev KeySet := List PublicKey

def insertKey (keys : KeySet) (key : PublicKey) : KeySet := keys.insert key

/-- The keys in the authorities of an account. -/
def authKeys (a : AccountAuthorityObject) : KeySet :=
  ((a.owner.keyAuths ++ a.active.keyAuths ++ a.posting.keyAuths).map Prod.fst).foldl insertKey []

/-- Create the lookup object, unless it is found. -/
def addLookup (account : AccountName) (l : Table KeyLookupObject) (key : PublicKey) : Table KeyLookupObject :=
  if h : l.clashes l.nextId ⟨key, account⟩ = false then l.insert ⟨key, account⟩ h else l

/-- Remove the lookup object, if it is found. -/
def dropLookup (account : AccountName) (l : Table KeyLookupObject) (key : PublicKey) : Table KeyLookupObject :=
  match l.find? fun o => o.key == key && o.account == account with
  | some r => l.erase r.1
  | none => l

/-- One key that the account has now: it is looked for in the cache, and needs a lookup or is not to be removed. -/
def updateKey (account : AccountName) (s : Table KeyLookupObject × KeySet) (key : PublicKey) :
    Table KeyLookupObject × KeySet :=
  if s.2.contains key then (s.1, s.2.erase key) else (addLookup account s.1 key, s.2)

/-- `update_key_lookup`.  The cache is empty afterwards. -/
def updateKeyLookup (a : AccountAuthorityObject) (l : Table KeyLookupObject) (cachedKeys : KeySet) :
    Table KeyLookupObject :=
  let s := (authKeys a).foldl (updateKey a.account) (l, cachedKeys)
  s.2.foldl (dropLookup a.account) s.1

/-! ## The plugin beside the chain -/

/-- The chain, the index and the cache. -/
structure State where
  db : Database
  lookup : Table KeyLookupObject := .empty
  cachedKeys : KeySet := []

/-- `find< account_authority_object, by_account >`. -/
def authorityOf (db : Database) (account : AccountName) : Option AccountAuthorityObject :=
  db.core.accountAuthorities.at? fun a => a.account == account

namespace State

variable (env : Env) (node : Node) (s : State)

/-- `clear_cache` and `cache_auths`. -/
def cacheAuths (account : AccountName) : State :=
  { s with cachedKeys := ((authorityOf s.db account).map authKeys).getD [] }

def preOperation : Operation → State
  | .accountCreate _ => { s with cachedKeys := [] }
  | .accountUpdate op => s.cacheAuths op.account
  | .recoverAccount op => s.cacheAuths op.accountToRecover
  | _ => s

def updateLookup (account : AccountName) : State :=
  match authorityOf s.db account with
  | some a => { s with lookup := updateKeyLookup a s.lookup s.cachedKeys, cachedKeys := [] }
  | none => s

def postOperation : Operation → State
  | .accountCreate op => s.updateLookup op.newAccountName
  | .accountUpdate op => s.updateLookup op.account
  | .recoverAccount op => s.updateLookup op.accountToRecover
  | _ => s

/-- The operations of a transaction, one after the other, up to one that fails; the answer says whether none does. -/
def applyOperations : List Operation → State → State × Bool
  | [], s => (s, true)
  | op :: ops, s =>
    let s := s.preOperation op
    match applyOperation env node op s.db with
    | .ok _ db => applyOperations ops ({ s with db := db }.postOperation op)
    | .error _ _ => (s, false)

/-- A transaction in a session of its own, which is undone when an operation fails. -/
def pushTransaction (ops : List Operation) : State :=
  match applyOperations env node ops s with
  | (s', true) => s'
  | (s', false) => { s with cachedKeys := s'.cachedKeys }

end State

/-- What the chain does with its state, and with the states that its sessions can go back to.  Whatever else a block
does leaves the accounts' authorities alone. -/
inductive Run (env : Env) (initPublicKey : PublicKey) : State → List (Database × Table KeyLookupObject) → Prop
  | genesis : Run env initPublicKey { db := Sigmaengine.genesis initPublicKey } []
  | transaction {s : State} {undo : List (Database × Table KeyLookupObject)} (h : Run env initPublicKey s undo)
      (node : Node) (ops : List Operation) : Run env initPublicKey (s.pushTransaction env node ops) undo
  | upkeep {s : State} {undo : List (Database × Table KeyLookupObject)} (h : Run env initPublicKey s undo)
      (db : Database) (hsame : db.core.accountAuthorities = s.db.core.accountAuthorities) :
      Run env initPublicKey { s with db := db } undo
  | startSession {s : State} {undo : List (Database × Table KeyLookupObject)} (h : Run env initPublicKey s undo) :
      Run env initPublicKey s ((s.db, s.lookup) :: undo)
  | undo {s : State} {saved : Database × Table KeyLookupObject} {undo : List (Database × Table KeyLookupObject)}
      (h : Run env initPublicKey s (saved :: undo)) :
      Run env initPublicKey { s with db := saved.1, lookup := saved.2 } undo
  /-- Sessions are merged or committed. -/
  | forget {s : State} {undo undo' : List (Database × Table KeyLookupObject)} (h : Run env initPublicKey s undo)
      (hforget : undo'.Sublist undo) : Run env initPublicKey s undo'

/-! ## The index after an update -/

/-- The account is found by the key. -/
def Found (l : Table KeyLookupObject) (key : PublicKey) (account : AccountName) : Prop :=
  (⟨key, account⟩ : KeyLookupObject) ∈ l.values

section Update

variable {l : Table KeyLookupObject} {account other : AccountName} {key k : PublicKey} {keys cachedKeys : KeySet}

theorem found_addLookup : Found (addLookup account l key) k other ↔ Found l k other ∨ k = key ∧ other = account := by
  unfold addLookup Found
  split
  · rename_i h
    rw [values_insert, Multiset.mem_cons, KeyLookupObject.mk.injEq, or_comm]
  · rename_i h
    rw [Bool.not_eq_false] at h
    obtain ⟨r, hr, hclash⟩ := List.any_eq_true.mp h
    simp only [Clash.clash, Bool.and_eq_true, beq_iff_eq] at hclash
    have hfound : (⟨key, account⟩ : KeyLookupObject) ∈ l.values := by
      rw [← hclash.2.1, ← hclash.2.2]
      exact mem_values.mpr ⟨r.1, hr⟩
    constructor
    · exact .inl
    · rintro (h | ⟨rfl, rfl⟩)
      · exact h
      · exact hfound

theorem found_dropLookup :
    Found (dropLookup account l key) k other ↔ Found l k other ∧ ¬ (k = key ∧ other = account) := by
  unfold dropLookup Found
  split
  · rename_i r hr
    obtain ⟨hmem, heq⟩ := mem_of_find? hr
    simp only [Bool.and_eq_true, beq_iff_eq] at heq
    have hobject : r.2 = ⟨key, account⟩ := by rw [← heq.1, ← heq.2]
    simp only [mem_values, mem_erase]
    constructor
    · rintro ⟨id, hid, hne⟩
      refine ⟨⟨id, hid⟩, ?_⟩
      rintro ⟨rfl, rfl⟩
      exact hne (congrArg Prod.fst (eq_of_clash hid hmem (by simp [Clash.clash, hobject])))
    · rintro ⟨⟨id, hid⟩, hother⟩
      refine ⟨id, hid, fun hsame => hother ?_⟩
      have hrow : (⟨k, other⟩ : KeyLookupObject) = r.2 := eq_of_mem hid (show (id, r.2) ∈ l.rows from hsame ▸ hmem)
      rw [hobject] at hrow
      exact KeyLookupObject.mk.inj hrow
  · rename_i hnone
    refine ⟨fun h => ⟨h, ?_⟩, And.left⟩
    rintro ⟨rfl, rfl⟩
    obtain ⟨id, hid⟩ := mem_values.mp h
    have hno := find?_eq_none hnone hid
    simp at hno

theorem found_dropAll (keys : KeySet) (l : Table KeyLookupObject) :
    Found (keys.foldl (dropLookup account) l) k other ↔ Found l k other ∧ ¬ (k ∈ keys ∧ other = account) := by
  induction keys generalizing l with
  | nil => simp
  | cons key keys ih =>
    rw [List.foldl_cons, ih, found_dropLookup, List.mem_cons]
    tauto

theorem updateKey_of_mem (hkey : key ∈ cachedKeys) :
    updateKey account (l, cachedKeys) key = (l, cachedKeys.erase key) :=
  if_pos (by simpa using hkey)

theorem updateKey_of_not_mem (hkey : key ∉ cachedKeys) :
    updateKey account (l, cachedKeys) key = (addLookup account l key, cachedKeys) :=
  if_neg (by simpa using hkey)

/-- The first loop: keys that are not cached get a lookup, the others leave the cache. -/
theorem updateKeys (account : AccountName) (keys : KeySet) (hkeys : keys.Nodup) (l : Table KeyLookupObject)
    (hcached : cachedKeys.Nodup) :
    (∀ k other, Found (keys.foldl (updateKey account) (l, cachedKeys)).1 k other ↔
        Found l k other ∨ k ∈ keys ∧ k ∉ cachedKeys ∧ other = account) ∧
      ∀ k, k ∈ (keys.foldl (updateKey account) (l, cachedKeys)).2 ↔ k ∈ cachedKeys ∧ k ∉ keys := by
  induction keys generalizing l cachedKeys with
  | nil => simp
  | cons key keys ih =>
    obtain ⟨hnew, hrest⟩ := List.nodup_cons.mp hkeys
    rw [List.foldl_cons]
    by_cases hkey : key ∈ cachedKeys
    · rw [updateKey_of_mem hkey]
      obtain ⟨hfound, hleft⟩ := ih hrest l (hcached.erase key)
      refine ⟨fun k other => ?_, fun k => ?_⟩
      · rw [hfound, hcached.mem_erase_iff, List.mem_cons]
        grind
      · rw [hleft, hcached.mem_erase_iff, List.mem_cons]
        tauto
    · rw [updateKey_of_not_mem hkey]
      obtain ⟨hfound, hleft⟩ := ih hrest (addLookup account l key) hcached
      refine ⟨fun k other => ?_, fun k => ?_⟩
      · rw [hfound, found_addLookup, List.mem_cons]
        grind
      · rw [hleft, List.mem_cons]
        grind

theorem nodup_foldl_insertKey (keys : List PublicKey) {s : KeySet} (hs : s.Nodup) : (keys.foldl insertKey s).Nodup := by
  induction keys generalizing s with
  | nil => exact hs
  | cons key keys ih => exact ih hs.insert

theorem nodup_authKeys (a : AccountAuthorityObject) : (authKeys a).Nodup := nodup_foldl_insertKey _ List.nodup_nil

theorem found_updateKeyLookup_other {a : AccountAuthorityObject} (hcached : cachedKeys.Nodup)
    (hother : other ≠ a.account) : Found (updateKeyLookup a l cachedKeys) k other ↔ Found l k other := by
  obtain ⟨hfound, -⟩ := updateKeys a.account (authKeys a) (nodup_authKeys a) l hcached
  unfold updateKeyLookup
  rw [found_dropAll, hfound]
  simp [hother]

/-- **`update_key_lookup`**, with a cache of keys that have lookups: the account is found by its keys, and by those it
was found by that are not in the cache. -/
theorem found_updateKeyLookup {a : AccountAuthorityObject} (hcached : cachedKeys.Nodup)
    (hknown : ∀ k ∈ cachedKeys, Found l k a.account) :
    Found (updateKeyLookup a l cachedKeys) k a.account ↔
      k ∈ authKeys a ∨ Found l k a.account ∧ k ∉ cachedKeys := by
  obtain ⟨hfound, hleft⟩ := updateKeys a.account (authKeys a) (nodup_authKeys a) l hcached
  have hk := hknown k
  unfold updateKeyLookup
  rw [found_dropAll, hfound, hleft]
  tauto

end Update

/-! ## Keys and operations -/

/-- The keys that occur in the authorities of an account. -/
def keysOf (db : Database) (account : AccountName) : KeySet := ((authorityOf db account).map authKeys).getD []

section Operations

variable {env : Env} {node : Node} {op : Operation} {d d' : Database} {u : Unit} {account : AccountName}

theorem keysOf_of_standing (h : d'.core.standing none account = d.core.standing none account) :
    keysOf d' account = keysOf d account := by
  have hauthorities := congrArg Prod.snd h
  have hkeys := congrArg (Option.map fun x : Authority × Authority × Authority =>
    authKeys { account := account, owner := x.1, active := x.2.1, posting := x.2.2 }) hauthorities
  simp only [Core.standing, Option.map_map] at hkeys
  exact congrArg (Option.getD · []) hkeys

/-- Only the operations that the plugin looks at change authorities. -/
theorem authorities_of_applyOperation (hcreate : ∀ o, op ≠ .accountCreate o) (hupdate : ∀ o, op ≠ .accountUpdate o)
    (hrecover : ∀ o, op ≠ .recoverAccount o) (h : applyOperation env node op d = .ok u d') :
    d'.core.accountAuthorities = d.core.accountAuthorities := by
  let Same : Core → Core → Prop := fun s s' => s'.accountAuthorities = s.accountAuthorities
  have : Std.Refl Same := ⟨fun _ => rfl⟩
  have : IsTrans Core Same := ⟨fun _ _ _ h h' => h'.trans h⟩
  have hsame : ∀ s s', SameAccounts s s' → Same s s' := fun _ _ h => congrArg Prod.snd h
  have hall : Always (CoreRel Same) (applyOperation env node op) :=
    always_applyOperation_of (fun _ _ h => congrArg (fun x => x.1.2.1) h)
      (fun o ho => absurd ho (hcreate o)) (fun o ho => absurd ho (hupdate o))
      (fun o _ => (sameAccounts_requestAccountRecovery o).mono hsame) (fun o ho => absurd ho (hrecover o))
      (fun o _ => (sameAccounts_changeRecoveryAccount o).mono hsame)
      (fun o _ => (sameAccounts_bobserverUpdate o).mono hsame) (fun o _ => (sameAccounts_updateBproducer o).mono hsame)
      (fun o _ => (sameAccounts_exceptBobserver o).mono hsame) env node
  exact hall.runs _ _ _ h

theorem authorityOf_eq_none : authorityOf d account = none ↔ account ∉ d.core.names.2.map Prod.snd := by
  unfold authorityOf Table.at? Table.find?
  rw [Option.map_eq_none_iff, List.find?_eq_none]
  simp only [Core.names, List.map_map, List.mem_map, not_exists, not_and, beq_iff_eq]
  rfl

theorem keysOf_of_none (h : authorityOf d account = none) : keysOf d account = [] := by
  unfold keysOf
  rw [h]
  rfl

theorem keysOf_of_some {a : AccountAuthorityObject} (h : authorityOf d account = some a) :
    keysOf d account = authKeys a := by
  unfold keysOf
  rw [h]
  rfl

theorem account_of_authorityOf {a : AccountAuthorityObject} (h : authorityOf d account = some a) :
    a.account = account := by
  obtain ⟨r, hr, rfl⟩ := Option.map_eq_some_iff.mp h
  exact eq_of_beq (mem_of_find? hr).2

theorem find?_insert_of_some {α : Type} [Clash α] {t : Table α} {a : α} (hfree : t.clashes t.nextId a = false)
    {p : α → Bool} {r : Nat × α} (h : t.find? p = some r) : (t.insert a hfree).find? p = some r := by
  unfold Table.find? Table.insert at *
  rw [List.find?_append, h]
  rfl

/-- An authority object that is there stays the one that is found when another is created. -/
theorem authorityOf_accountCreate {o : AccountCreateOperation} (h : applyOperation env node (.accountCreate o) d = .ok u d')
    {a : AccountAuthorityObject} (ha : authorityOf d account = some a) : authorityOf d' account = some a := by
  obtain ⟨c, hc, rfl⟩ := onCore_eq_ok.mp h
  simp only [accountCreateEvaluator, bind_eq_ok, createIn_eq_ok, pure_eq_ok] at hc
  obtain ⟨_, _, howner, _, _, hactive, _, _, hposting, now, _, hnow, _, _, ⟨hfree, -, rfl⟩, _, _, ⟨hfree', -, rfl⟩, -,
    rfl⟩ := hc
  obtain rfl := (readOnly_getAccounts _).eq_of_ok howner
  obtain rfl := (readOnly_getAccounts _).eq_of_ok hactive
  obtain rfl := (readOnly_getAccounts _).eq_of_ok hposting
  obtain rfl := readOnly_headBlockTime.eq_of_ok hnow
  obtain ⟨r, hr, rfl⟩ := Option.map_eq_some_iff.mp ha
  exact Option.map_eq_some_iff.mpr ⟨r, find?_insert_of_some hfree' hr, rfl⟩

/-- The operation that has run on an account, and what the cache holds for it. -/
structure Touched (d d' : Database) (touched : AccountName) (cachedKeys : KeySet) : Prop where
  others : ∀ other, other ≠ touched → keysOf d' other = keysOf d other
  stays : authorityOf d' touched = none → authorityOf d touched = none
  nodup : cachedKeys.Nodup
  cached : ∀ k ∈ cachedKeys, k ∈ keysOf d touched
  new : ∀ a, authorityOf d' touched = some a → ∀ k ∈ keysOf d touched, k ∉ cachedKeys → k ∈ authKeys a

theorem nodup_keysOf (d : Database) (account : AccountName) : (keysOf d account).Nodup := by
  cases h : authorityOf d account with
  | none =>
    rw [keysOf_of_none h]
    exact List.nodup_nil
  | some a =>
    rw [keysOf_of_some h]
    exact nodup_authKeys a

theorem touched_accountCreate {o : AccountCreateOperation}
    (h : applyOperation env node (.accountCreate o) d = .ok u d') : Touched d d' o.newAccountName [] := by
  refine ⟨fun other hother => ?_, fun hnone => ?_, List.nodup_nil, by simp, fun a ha k hk _ => ?_⟩
  · exact keysOf_of_standing ((standing_of_applyOperation rfl h).1 other (by simpa [Operation.affected] using hother))
  · by_contra hsome
    obtain ⟨a, ha⟩ := Option.ne_none_iff_exists'.mp hsome
    rw [authorityOf_accountCreate h ha] at hnone
    exact absurd hnone (by simp)
  · cases hold : authorityOf d o.newAccountName with
    | none =>
      rw [keysOf_of_none hold] at hk
      exact absurd hk (by simp)
    | some b =>
      rw [keysOf_of_some hold] at hk
      obtain rfl : b = a := by simpa [authorityOf_accountCreate h hold] using ha
      exact hk

theorem touched_of_spares {m : CoreM Unit} {touched : AccountName}
    (hspares : Runs (Spares none d.core.names [touched]) m) (h : onCore m d = .ok u d') :
    Touched d d' touched (keysOf d touched) := by
  obtain ⟨c, hc, rfl⟩ := onCore_eq_ok.mp h
  obtain ⟨hnames, hsame⟩ := hspares _ _ _ hc rfl
  refine ⟨fun other hother => ?_, fun hnone => ?_, nodup_keysOf d touched, fun k hk => hk, fun a _ k hk hnot => ?_⟩
  · exact keysOf_of_standing (hsame other (by simpa using hother))
  · rw [authorityOf_eq_none] at hnone ⊢
    rw [← hnames]
    exact hnone
  · exact absurd hk hnot

end Operations

/-! ## The index is exact -/

section Exact

variable {env : Env} {node : Node} {op : Operation} {initPublicKey : PublicKey} {d d' : Database} {u : Unit}
  {l : Table KeyLookupObject} {s s' : State} {account : AccountName}

/-- Accounts that genesis has not created are found by exactly the keys in their authorities. -/
def Exact (initPublicKey : PublicKey) (d : Database) (l : Table KeyLookupObject) : Prop :=
  ∀ a ∉ (Sigmaengine.genesis initPublicKey).core.accountNames, ∀ k, Found l k a ↔ k ∈ keysOf d a

theorem updateLookup_exact (hexact : Exact initPublicKey d l) {cachedKeys : KeySet}
    (htouched : Touched d d' account cachedKeys) :
    Exact initPublicKey d' (({ db := d', lookup := l, cachedKeys := cachedKeys } : State).updateLookup account).lookup := by
  intro other hother k
  unfold State.updateLookup
  dsimp only
  cases hfind : authorityOf d' account with
  | none =>
    dsimp only
    rw [hexact other hother]
    by_cases heq : other = account
    · subst heq
      rw [keysOf_of_none hfind, keysOf_of_none (htouched.stays hfind)]
    · rw [htouched.others other heq]
  | some a =>
    dsimp only
    have hname := account_of_authorityOf hfind
    by_cases heq : other = account
    · subst heq
      have hold := hexact other hother
      rw [keysOf_of_some hfind]
      rw [← hname] at hold ⊢
      rw [found_updateKeyLookup htouched.nodup fun k hk => (hold k).mpr (hname ▸ htouched.cached k hk), hold]
      constructor
      · rintro (hnew | ⟨hk, hnot⟩)
        · exact hnew
        · exact htouched.new a hfind k (hname ▸ hk) hnot
      · exact .inl
    · rw [found_updateKeyLookup_other htouched.nodup (hname ▸ heq), hexact other hother, htouched.others other heq]

theorem updateLookup_db (s : State) (account : AccountName) : (s.updateLookup account).db = s.db := by
  unfold State.updateLookup
  split <;> rfl

theorem postOperation_db (s : State) (op : Operation) : (s.postOperation op).db = s.db := by
  cases op <;> first | rfl | exact updateLookup_db s _

/-- One operation that succeeds, with the plugin before and after it. -/
theorem operation_exact (hexact : Exact initPublicKey s.db s.lookup)
    (h : applyOperation env node op (s.preOperation op).db = .ok u d') :
    let s' := ({ s.preOperation op with db := d' } : State).postOperation op
    Exact initPublicKey s'.db s'.lookup := by
  dsimp only
  rw [postOperation_db]
  have hother : (∀ o, op ≠ .accountCreate o) → (∀ o, op ≠ .accountUpdate o) → (∀ o, op ≠ .recoverAccount o) →
      Exact initPublicKey d' s.lookup ∧ s.preOperation op = s ∧
        ({ s with db := d' } : State).postOperation op = { s with db := d' } := by
    intro hcreate hupdate hrecover
    have hpre : s.preOperation op = s := by cases op <;> simp_all [State.preOperation]
    have hpost : ({ s with db := d' } : State).postOperation op = { s with db := d' } := by
      cases op <;> simp_all [State.postOperation]
    rw [hpre] at h
    have hsame := authorities_of_applyOperation hcreate hupdate hrecover h
    refine ⟨fun a ha k => ?_, hpre, hpost⟩
    rw [hexact a ha]
    unfold keysOf authorityOf
    rw [hsame]
  cases op with
  | accountCreate o => exact updateLookup_exact hexact (touched_accountCreate h)
  | accountUpdate o => exact updateLookup_exact hexact (touched_of_spares (spares_accountUpdate o) h)
  | recoverAccount o => exact updateLookup_exact hexact (touched_of_spares (spares_recoverAccount o) h)
  | _ =>
    obtain ⟨hkept, hpre, hpost⟩ := hother (fun _ h => Operation.noConfusion h) (fun _ h => Operation.noConfusion h)
      fun _ h => Operation.noConfusion h
    rw [hpre, hpost]
    exact hkept

theorem applyOperations_exact (ops : List Operation) (s : State) (hexact : Exact initPublicKey s.db s.lookup) :
    (State.applyOperations env node ops s).2 = true →
      Exact initPublicKey (State.applyOperations env node ops s).1.db (State.applyOperations env node ops s).1.lookup := by
  induction ops generalizing s with
  | nil => exact fun _ => hexact
  | cons op ops ih =>
    unfold State.applyOperations
    dsimp only
    split
    · rename_i u db happly
      exact ih _ (operation_exact hexact happly)
    · exact fun h => absurd h (by simp)

theorem pushTransaction_exact (ops : List Operation) (hexact : Exact initPublicKey s.db s.lookup) :
    Exact initPublicKey (s.pushTransaction env node ops).db (s.pushTransaction env node ops).lookup := by
  unfold State.pushTransaction
  split
  · rename_i s' hrun
    have hdone : (State.applyOperations env node ops s).2 = true → _ := applyOperations_exact ops s hexact
    rw [hrun] at hdone
    exact hdone rfl
  · exact hexact

theorem genesis_exact : Exact initPublicKey (Sigmaengine.genesis initPublicKey) .empty := by
  intro a ha k
  have hnone : authorityOf (Sigmaengine.genesis initPublicKey) a = none := by
    rw [← (referenced_genesis initPublicKey).matched] at ha
    rw [authorityOf_eq_none]
    intro hmem
    apply ha
    simp only [Core.names, List.map_map, List.mem_map] at hmem
    obtain ⟨r, hr, hname⟩ := hmem
    exact Multiset.mem_map.mpr ⟨r.2, mem_values.mpr ⟨r.1, hr⟩, hname⟩
  rw [keysOf_of_none hnone]
  simp [Found]

/-- **Key lookup stays exact.**  In every run from genesis, of operations in transactions that succeed or fail and of
sessions that are undone or kept, every account that operations have created is found by exactly the keys that occur
in its authorities; and so it is in the states that the sessions can go back to. -/
theorem key_lookup_exact {undo : List (Database × Table KeyLookupObject)} (h : Run env initPublicKey s undo) :
    Exact initPublicKey s.db s.lookup ∧ ∀ saved ∈ undo, Exact initPublicKey saved.1 saved.2 := by
  induction h with
  | genesis => exact ⟨genesis_exact, by simp⟩
  | transaction h node ops ih => exact ⟨pushTransaction_exact ops ih.1, ih.2⟩
  | upkeep h db hsame ih =>
    refine ⟨fun a ha k => ?_, ih.2⟩
    rw [ih.1 a ha]
    unfold keysOf authorityOf
    rw [hsame]
  | startSession h ih =>
    refine ⟨ih.1, fun saved hsaved => ?_⟩
    rcases List.mem_cons.mp hsaved with rfl | hsaved
    · exact ih.1
    · exact ih.2 saved hsaved
  | undo h ih => exact ⟨ih.2 _ (.head _), fun saved hsaved => ih.2 saved (.tail _ hsaved)⟩
  | forget h hforget ih => exact ⟨ih.1, fun saved hsaved => ih.2 saved (hforget.subset hsaved)⟩

end Exact

/-- An account with two keys, one of them in two of its authorities. -/
def twoKeys : AccountCreateOperation :=
  { creator := initMinerName, newAccountName := rootAccount, owner := .ofKey ⟨1⟩, active := .ofKey ⟨2⟩,
    posting := .ofKey ⟨1⟩, memoKey := ⟨1⟩, jsonMetadata := [] }

def twoKeysState : State :=
  ({ db := Sigmaengine.genesis ⟨1⟩ } : State).pushTransaction sampleEnv {} [.accountCreate twoKeys]

def newActive : Operation := .accountUpdate ⟨rootAccount, none, some (.ofKey ⟨3⟩), none, ⟨1⟩, []⟩

def newPosting : Operation := .accountUpdate ⟨rootAccount, none, none, some (.ofKey ⟨4⟩), ⟨1⟩, []⟩

def updatedState : State := twoKeysState.pushTransaction sampleEnv {} [newActive]

/-- The posting key is replaced in a session of its own. -/
def sessionState : State := updatedState.pushTransaction sampleEnv {} [newPosting]

/-- The session is undone. -/
def undoneState : State := { sessionState with db := updatedState.db, lookup := updatedState.lookup }

theorem key_lookup_exact_undone :
    rootAccount ∉ (Sigmaengine.genesis ⟨1⟩).core.accountNames ∧
      keysOf twoKeysState.db rootAccount = [⟨2⟩, ⟨1⟩] ∧ keysOf sessionState.db rootAccount = [⟨4⟩, ⟨3⟩, ⟨1⟩] ∧
      keysOf undoneState.db rootAccount = [⟨3⟩, ⟨1⟩] ∧
      ∀ k, Found undoneState.lookup k rootAccount ↔ k ∈ keysOf undoneState.db rootAccount := by
  have hnew : rootAccount ∉ (Sigmaengine.genesis ⟨1⟩).core.accountNames := by decide +kernel
  have hkeys : keysOf twoKeysState.db rootAccount = [⟨2⟩, ⟨1⟩] ∧
      keysOf sessionState.db rootAccount = [⟨4⟩, ⟨3⟩, ⟨1⟩] ∧ keysOf undoneState.db rootAccount = [⟨3⟩, ⟨1⟩] := by
    decide +kernel
  have hcreated : Run sampleEnv ⟨1⟩ twoKeysState [] := .transaction .genesis {} [.accountCreate twoKeys]
  have hupdated : Run sampleEnv ⟨1⟩ updatedState [] := .transaction hcreated {} [newActive]
  have hsession : Run sampleEnv ⟨1⟩ sessionState [(updatedState.db, updatedState.lookup)] :=
    .transaction (.startSession hupdated) {} [newPosting]
  have hback : ∀ s saved : State, Run sampleEnv ⟨1⟩ s [(saved.db, saved.lookup)] →
      Run sampleEnv ⟨1⟩ { s with db := saved.db, lookup := saved.lookup } [] := fun _ _ h => .undo h
  have hundone : Run sampleEnv ⟨1⟩ undoneState [] := hback sessionState updatedState hsession
  exact ⟨hnew, hkeys.1, hkeys.2.1, hkeys.2.2, (key_lookup_exact hundone).1 rootAccount hnew⟩

end Sigmaengine.AccountByKey
