import Sigmaengine.Lib.Index
import Sigmaengine.Lib.Table
import Sigmaengine.Protocol.Block

/-!
# Statistics buckets

`blockchain_statistics_plugin` counts blocks, transactions and bandwidth in buckets of several sizes, and keeps a number
of old buckets of each size.  One iterator finds the bucket of a block, runs over the old ones to drop them, and is
dereferenced at last.
-/

namespace Sigmaengine.BlockchainStatistics

open OrderedIndex

/-! ## Objects -/

/-- `bucket_object`, without what is counted by operation. -/
structure BucketObject where
  open_ : Nat
  seconds : Nat
  blocks : UInt32
  bandwidth : UInt32 := 0
  transactions : UInt32 := 0
deriving DecidableEq

/-- `by_bucket`. -/
instance : Clash BucketObject where
  clash a b := a.seconds == b.seconds && a.open_ == b.open_

def bySecondsOpen (r : Nat × BucketObject) : Nat ×ₗ Nat := toLex (r.2.seconds, r.2.open_)

/-- The options of the plugin. -/
structure Options where
  trackedBuckets : List Nat := [60, 3600, 21600, 86400, 604800, 2592000]
  maximumHistoryPerBucketSize : Nat := 100

/-- An iterator that is dereferenced at the end, which is undefined, and what the database throws. -/
inductive Failure where
  | endIterator
  | duplicateKey
  | unknownBucket
deriving DecidableEq

abbrev Buckets := Table BucketObject

/-! ## The plugin -/

/-- The product and the difference of two `safe< uint32_t >`, unless they overflow. -/
def safeMul (a b : Nat) : Option Nat := if 0 < a ∧ 0 < b ∧ 4294967295 / b < a then none else some (a * b)

def safeSub (a b : Nat) : Option Nat := if 0 < b ∧ a < b then none else some (a - b)

/-- Where the history of a size begins; what overflows is caught. -/
def cutoff (maximumHistory : Nat) (now bucket : Nat) : Option Nat := do
  if 0 < maximumHistory then
    let history ← safeMul bucket maximumHistory
    safeSub now history
  else none

def createBucket (o : BucketObject) (t : Buckets) : Except Failure Buckets :=
  if h : t.clashes t.nextId o = false then .ok (t.insert o h) else .error .duplicateKey

def modifyBucket (id : Nat) (f : BucketObject → BucketObject) (t : Buckets) : Except Failure Buckets :=
  match t.lookup id with
  | none => .error .unknownBucket
  | some o => if h : t.clashes id (f o) = false then .ok (t.replace id (f o) h) else .error .duplicateKey

/-- A new block in a bucket, and its transactions. -/
def addBlock (o : BucketObject) : BucketObject := { o with blocks := o.blocks + 1 }

def addTransactions (numTrx trxSize : UInt32) (o : BucketObject) : BucketObject :=
  { o with transactions := o.transactions + numTrx, bandwidth := o.bandwidth + trxSize }

/-- The loop that drops old buckets, from where the iterator stands. -/
def expire (bucket begins : Nat) : List (Nat × BucketObject) → Buckets → Except Failure (Option Nat × Buckets)
  | [], _ => .error .endIterator
  | itr :: rest, t =>
    if itr.2.seconds = bucket ∧ itr.2.open_ < begins then expire bucket begins rest (t.erase itr.1)
    else .ok (some itr.1, t)

def isBucket (bucket open_ : Nat) (o : BucketObject) : Bool :=
  o.seconds == bucket && o.open_ == open_

/-- When the bucket opened that a time is in. -/
def openOf (bucket now : Nat) : Nat := now / bucket * bucket

def newBucket (bucket now : Nat) : BucketObject := { open_ := openOf bucket now, seconds := bucket, blocks := 1 }

/-- The bucket is found or created; `none` is the iterator at the end. -/
def enterBucket (maximumHistory : Nat) (now bucket : Nat) (t : Buckets) :
    Except Failure (Option Nat × Buckets) :=
  match t.find? (isBucket bucket (openOf bucket now)) with
  | none => do
    let t ← createBucket (newBucket bucket now) t
    match cutoff maximumHistory now bucket with
    | none => return (none, t)
    | some begins => expire bucket begins (lowerBound bySecondsOpen t.rows (toLex (bucket, 0))) t
  | some itr => do
    let t ← modifyBucket itr.1 addBlock t
    return (some itr.1, t)

def onBucket (maximumHistory : Nat) (now : Nat) (numTrx trxSize : UInt32) (t : Buckets) (bucket : Nat) :
    Except Failure Buckets := do
  let (itr, t) ← enterBucket maximumHistory now bucket t
  match itr with
  | none => .error .endIterator
  | some id => modifyBucket id (addTransactions numTrx trxSize) t

/-- The bucket over all blocks, whose id is 0. -/
def countTotal (b : SignedBlock) (t : Buckets) : Except Failure Buckets :=
  if b.blockNum = 1 then createBucket { open_ := b.timestamp, seconds := 0, blocks := 1 } t
  else modifyBucket 0 addBlock t

def numTrx (b : SignedBlock) : UInt32 := .ofNat b.transactions.length

def trxSize (cd : Codec) (b : SignedBlock) : UInt32 :=
  b.transactions.foldl (fun size trx => size + .ofNat (cd.transactionPackSize trx)) 0

/-- `on_block`; the head time is that of the block. -/
def onBlock (cfg : Options) (cd : Codec) (t : Buckets) (b : SignedBlock) : Except Failure Buckets := do
  let t ← countTotal b t
  cfg.trackedBuckets.foldlM (onBucket cfg.maximumHistoryPerBucketSize b.timestamp (numTrx b) (trxSize cd b)) t

/-! ## What the steps do -/

/-- The bucket of a size that opened at a time. -/
def bucketAt (t : Buckets) (bucket open_ : Nat) : Option BucketObject := t.at? (isBucket bucket open_)

/-- Only buckets of one size have changed. -/
def Keeps (bucket : Nat) (t t' : Buckets) : Prop := ∀ r, r.2.seconds ≠ bucket → (r ∈ t'.rows ↔ r ∈ t.rows)

section Steps

variable {t t' : Buckets} {s p : Nat} {o : BucketObject} {id : Nat} {f : BucketObject → BucketObject}

theorem except_bind_ok {α β : Type} (a : α) (g : α → Except Failure β) : (Except.ok a >>= g) = g a := rfl

theorem isBucket_iff : isBucket s p o = true ↔ o.seconds = s ∧ o.open_ = p := by simp [isBucket]

theorem clash_iff {a b : BucketObject} : Clash.clash a b = true ↔ a.seconds = b.seconds ∧ a.open_ = b.open_ := by
  simp [Clash.clash]

theorem uniqueKey_isBucket : Table.UniqueKey (isBucket s p) := by
  intro a b ha hb
  rw [isBucket_iff] at ha hb
  exact clash_iff.mpr ⟨ha.1.trans hb.1.symm, ha.2.trans hb.2.symm⟩

theorem bucketAt_eq_some : bucketAt t s p = some o ↔ (∃ id, (id, o) ∈ t.rows) ∧ o.seconds = s ∧ o.open_ = p := by
  unfold bucketAt
  rw [Table.at?_eq_some uniqueKey_isBucket, Table.mem_values, isBucket_iff]

theorem bucketAt_of_mem {r : Nat × BucketObject} (hr : r ∈ t.rows) : bucketAt t r.2.seconds r.2.open_ = some r.2 :=
  bucketAt_eq_some.mpr ⟨⟨r.1, hr⟩, rfl, rfl⟩

theorem Keeps.bucketAt (h : Keeps s t t') {s' : Nat} (hs : s' ≠ s) : bucketAt t' s' = bucketAt t s' := by
  funext p
  ext o
  rw [bucketAt_eq_some, bucketAt_eq_some]
  constructor
  · rintro ⟨⟨id, hmem⟩, hkey⟩
    exact ⟨⟨id, (h _ (by simpa [hkey.1] using hs)).mp hmem⟩, hkey⟩
  · rintro ⟨⟨id, hmem⟩, hkey⟩
    exact ⟨⟨id, (h _ (by simpa [hkey.1] using hs)).mpr hmem⟩, hkey⟩

theorem Keeps.trans {t'' : Buckets} (h : Keeps s t t') (h' : Keeps s t' t'') : Keeps s t t'' :=
  fun r hr => (h' r hr).trans (h r hr)

/-- A bucket is created unless there is one. -/
theorem createBucket_spec (h : bucketAt t o.seconds o.open_ = none) : ∃ t', createBucket o t = .ok t' ∧
    (∀ s p, bucketAt t' s p = if o.seconds = s ∧ o.open_ = p then some o else bucketAt t s p) ∧
    Keeps o.seconds t t' ∧ (t.nextId, o) ∈ t'.rows := by
  have hc : t.clashes t.nextId o = false := by
    rw [Table.clashes, List.any_eq_false]
    intro r hr hclash
    simp only [Bool.and_eq_true] at hclash
    obtain ⟨hseconds, hopen⟩ := clash_iff.mp hclash.2
    have hfound := bucketAt_of_mem hr
    rw [hseconds, hopen, h] at hfound
    cases hfound
  refine ⟨t.insert o hc, by rw [createBucket, dif_pos hc], fun s p => ?_, fun r hr => ?_, ?_⟩
  · unfold bucketAt
    rw [Table.at?_insert uniqueKey_isBucket]
    simp only [isBucket_iff]
  · rw [Table.mem_insert, or_iff_left]
    rintro rfl
    exact hr rfl
  · exact Table.mem_insert.mpr (.inr rfl)

/-- A bucket is changed, apart from its key. -/
theorem modifyBucket_spec (h : (id, o) ∈ t.rows) (hkey : (f o).seconds = o.seconds ∧ (f o).open_ = o.open_) :
    ∃ t', modifyBucket id f t = .ok t' ∧
      (∀ s p, bucketAt t' s p = if o.seconds = s ∧ o.open_ = p then some (f o) else bucketAt t s p) ∧
      Keeps o.seconds t t' ∧ (id, f o) ∈ t'.rows := by
  have hlookup := Table.lookup_eq_some.mpr h
  have hc : t.clashes id (f o) = false := by
    rw [Table.clashes, List.any_eq_false]
    intro r hr hclash
    simp only [Bool.and_eq_true, bne_iff_ne] at hclash
    have hsame := clash_iff.mp hclash.2
    rw [hkey.1, hkey.2] at hsame
    exact hclash.1 (congrArg Prod.fst (Table.eq_of_clash hr h (clash_iff.mpr hsame)))
  refine ⟨t.replace id (f o) hc, ?_, fun s p => ?_, fun r hr => ?_, ?_⟩
  · rw [modifyBucket, hlookup]
    exact dif_pos hc
  · unfold bucketAt
    have hsame : isBucket s p (f o) = isBucket s p o := by simp [isBucket, hkey]
    rw [Table.at?_replace uniqueKey_isBucket hlookup hc hsame]
    simp only [isBucket_iff]
  · rw [Table.mem_replace]
    constructor
    · rintro (⟨hmem, -⟩ | ⟨rfl, -⟩)
      · exact hmem
      · exact absurd hkey.1 hr
    · intro hmem
      refine .inl ⟨hmem, ?_⟩
      rintro rfl
      exact hr (congrArg BucketObject.seconds (Table.eq_of_mem hmem h))
  · exact Table.mem_replace.mpr (.inr ⟨rfl, o, h⟩)

/-! ## Expiry -/

theorem le_bySecondsOpen {r : Nat × BucketObject} :
    toLex (s, p) ≤ bySecondsOpen r ↔ s < r.2.seconds ∨ s = r.2.seconds ∧ p ≤ r.2.open_ := Prod.Lex.toLex_le_toLex

theorem bySecondsOpen_lt {r : Nat × BucketObject} :
    bySecondsOpen r < toLex (s, p) ↔ r.2.seconds < s ∨ r.2.seconds = s ∧ r.2.open_ < p := Prod.Lex.toLex_lt_toLex

/-- From the first bucket of the size on, the loop runs up to the first that is not old. -/
theorem expire_eq {begins : Nat} {rows : List (Nat × BucketObject)} (hrows : ∀ r ∈ rows, toLex (s, 0) ≤ bySecondsOpen r)
    (t : Buckets) : expire s begins rows t =
      match (rows.dropWhile fun r => bySecondsOpen r < toLex (s, begins)).head? with
      | none => .error .endIterator
      | some itr => .ok (some itr.1,
          t.eraseAll ((rows.takeWhile fun r => bySecondsOpen r < toLex (s, begins)).map Prod.fst)) := by
  induction rows generalizing t with
  | nil => rfl
  | cons itr rest ih =>
    have hle := le_bySecondsOpen.mp (hrows itr List.mem_cons_self)
    have hiff : bySecondsOpen itr < toLex (s, begins) ↔ itr.2.seconds = s ∧ itr.2.open_ < begins := by
      rw [bySecondsOpen_lt]
      omega
    by_cases hold : itr.2.seconds = s ∧ itr.2.open_ < begins
    · rw [expire, if_pos hold, ih fun r hr => hrows r (.tail _ hr), List.dropWhile_cons, List.takeWhile_cons,
        if_pos (decide_eq_true (hiff.mpr hold)), if_pos (decide_eq_true (hiff.mpr hold))]
      rfl
    · rw [expire, if_neg hold, List.dropWhile_cons, List.takeWhile_cons,
        if_neg (by simpa using (hiff.not.mpr hold)), if_neg (by simpa using (hiff.not.mpr hold))]
      rfl

/-- **Expiry**: the old buckets of the size go, and the iterator is left at the first of the others, if there is any. -/
theorem expire_spec {begins : Nat} (h : bucketAt t s p = some o) (hp : begins ≤ p) : ∃ itr t',
    expire s begins (lowerBound bySecondsOpen t.rows (toLex (s, 0))) t = .ok (some itr.1, t') ∧
    itr ∈ t'.rows ∧ itr.2.seconds = s ∧ begins ≤ itr.2.open_ ∧ itr.2.open_ ≤ p ∧
    (∀ q, begins ≤ q → q < itr.2.open_ → bucketAt t s q = none) ∧
    (∀ s' q, bucketAt t' s' q = if s = s' ∧ q < begins then none else bucketAt t s' q) ∧ Keeps s t t' := by
  obtain ⟨⟨id, hmem⟩, hseconds, hopen⟩ := bucketAt_eq_some.mp h
  have hstart : toLex (s, 0) ≤ toLex (s, begins) := Prod.Lex.toLex_le_toLex.mpr (.inr ⟨rfl, Nat.zero_le _⟩)
  rcases head?_lowerBound_group (fun r : Nat × BucketObject => r.2.seconds) (fun r => r.2.open_) t.rows s begins with
    ⟨itr, hhead, hitr, hgroup, hlow, hfirst⟩ | ⟨hnone, -⟩
  swap
  · have hlt : o.open_ < begins := hnone _ hmem hseconds
    omega
  have hhead : (lowerBound bySecondsOpen t.rows (toLex (s, begins))).head? = some itr := hhead
  have hrows {r : Nat × BucketObject} : r ∈ (t.eraseAll (((lowerBound bySecondsOpen t.rows (toLex (s, 0))).takeWhile
      fun r => bySecondsOpen r < toLex (s, begins)).map Prod.fst)).rows ↔
        r ∈ t.rows ∧ ¬(r.2.seconds = s ∧ r.2.open_ < begins) := by
    rw [Table.rows_eraseAll, List.mem_filter, Bool.not_eq_true', ← Bool.not_eq_true, List.contains_iff_mem, List.mem_map]
    apply and_congr_right
    intro hr
    apply not_congr
    constructor
    · rintro ⟨q, hq, hid⟩
      obtain ⟨hqrows, hqlow, hqhigh⟩ := mem_takeWhile_lowerBound.mp hq
      obtain rfl : q = r := by
        obtain ⟨i, a⟩ := q
        obtain ⟨j, b⟩ := r
        obtain rfl : i = j := hid
        rw [Table.eq_of_mem hqrows hr]
      have hle := le_bySecondsOpen.mp hqlow
      have hlt := bySecondsOpen_lt.mp hqhigh
      omega
    · rintro ⟨hs, hlt⟩
      refine ⟨r, mem_takeWhile_lowerBound.mpr ⟨hr, ?_, ?_⟩, rfl⟩
      · exact le_bySecondsOpen.mpr (.inr ⟨hs.symm, Nat.zero_le _⟩)
      · exact bySecondsOpen_lt.mpr (.inr ⟨hs, hlt⟩)
  refine ⟨itr, _, ?_, hrows.mpr ⟨hitr, fun hold => absurd hold.2 (not_lt.mpr hlow)⟩, hgroup, hlow, ?_, fun q hq hlt => ?_, fun s' q => ?_, fun r hr => ?_⟩
  · rw [expire_eq fun r hr => (mem_lowerBound.mp hr).2, dropWhile_lowerBound hstart, hhead]
  · have hle := hfirst _ hmem hseconds (by simpa [hopen] using hp)
    simpa [hopen] using hle
  · rw [Option.eq_none_iff_forall_ne_some]
    intro o' ho'
    obtain ⟨⟨id', hmem'⟩, hseconds', hopen'⟩ := bucketAt_eq_some.mp ho'
    have hle : itr.2.open_ ≤ o'.open_ := hfirst _ hmem' hseconds' (by simpa [hopen'] using hq)
    rw [hopen'] at hle
    exact absurd hlt (not_lt.mpr hle)
  · ext o'
    rw [bucketAt_eq_some]
    simp only [hrows]
    split_ifs with hold
    · constructor
      · rintro ⟨⟨_, -, hnot⟩, hs, hq⟩
        exact absurd ⟨hs.trans hold.1.symm, hq ▸ hold.2⟩ hnot
      · simp
    · rw [bucketAt_eq_some]
      constructor
      · rintro ⟨⟨id', hmem', -⟩, hkey⟩
        exact ⟨⟨id', hmem'⟩, hkey⟩
      · rintro ⟨⟨id', hmem'⟩, hkey⟩
        exact ⟨⟨id', hmem', fun hnot => hold ⟨hnot.1.symm.trans hkey.1, hkey.2 ▸ hnot.2⟩⟩, hkey⟩
  · rw [hrows, and_iff_left]
    exact fun hold => hr hold.1

/-! ## A block in one size -/

variable {m now : Nat} {n z : UInt32}

theorem find?_of_bucketAt (h : bucketAt t s p = some o) :
    ∃ id, t.find? (isBucket s p) = some (id, o) ∧ (id, o) ∈ t.rows := by
  obtain ⟨⟨id, a⟩, hfind, rfl⟩ := Option.map_eq_some_iff.mp h
  exact ⟨id, hfind, (Table.mem_of_find? hfind).1⟩

theorem find?_of_none (h : bucketAt t s p = none) : t.find? (isBucket s p) = none := Option.map_eq_none_iff.mp h

/-- A block whose bucket exists is counted in it. -/
theorem onBucket_existing (h : bucketAt t s (openOf s now) = some o) :
    ∃ t', onBucket m now n z t s = .ok t' ∧
      (∀ p, bucketAt t' s p =
        if openOf s now = p then some (addTransactions n z (addBlock o)) else bucketAt t s p) ∧ Keeps s t t' := by
  obtain ⟨-, rfl, hopen⟩ := bucketAt_eq_some.mp h
  obtain ⟨id, hfind, hmem⟩ := find?_of_bucketAt h
  obtain ⟨t₁, hblock, hview₁, hkeeps₁, hmem₁⟩ := modifyBucket_spec (f := addBlock) hmem ⟨rfl, rfl⟩
  obtain ⟨t₂, htrx, hview₂, hkeeps₂, -⟩ := modifyBucket_spec (f := addTransactions n z) hmem₁ ⟨rfl, rfl⟩
  refine ⟨t₂, ?_, fun p => ?_, hkeeps₁.trans hkeeps₂⟩
  · rw [onBucket, enterBucket, hfind]
    simp only [hblock, except_bind_ok]
    exact htrx
  · have hsame : (addBlock o).seconds = o.seconds ∧ (addBlock o).open_ = o.open_ := ⟨rfl, rfl⟩
    rw [hview₂, hview₁, hsame.1, hsame.2, hopen]
    by_cases hp : openOf o.seconds now = p <;> simp [hp]

/-- A block that opens a bucket for which no cutoff can be computed is counted through the end of the index. -/
theorem onBucket_end (h : bucketAt t s (openOf s now) = none) (hcutoff : cutoff m now s = none) :
    onBucket m now n z t s = .error .endIterator := by
  obtain ⟨t₁, hcreate, -, -, -⟩ := createBucket_spec (o := newBucket s now) h
  rw [onBucket, enterBucket, find?_of_none h]
  simp only [hcreate, hcutoff]
  rfl

/-- The buckets of a size with the new one. -/
def withNew (t : Buckets) (bucket now p : Nat) : Option BucketObject :=
  if openOf bucket now = p then some (newBucket bucket now) else bucketAt t bucket p

/-- **A block that opens a bucket** is counted in it, but its transactions in the oldest bucket that is kept. -/
theorem onBucket_new {begins : Nat} (h : bucketAt t s (openOf s now) = none)
    (hcutoff : cutoff m now s = some begins) (hbegins : begins ≤ openOf s now) :
    ∃ t' oldest o, onBucket m now n z t s = .ok t' ∧ begins ≤ oldest ∧ oldest ≤ openOf s now ∧
      (∀ q, begins ≤ q → q < oldest → bucketAt t s q = none) ∧ withNew t s now oldest = some o ∧
      (∀ p, bucketAt t' s p = if oldest = p then some (addTransactions n z o)
        else if p < begins then none else withNew t s now p) ∧ Keeps s t t' := by
  obtain ⟨t₁, hcreate, hview₁, hkeeps₁, -⟩ := createBucket_spec (o := newBucket s now) h
  have hnew : bucketAt t₁ s (openOf s now) = some (newBucket s now) := by
    rw [hview₁]
    exact if_pos ⟨rfl, rfl⟩
  have hwith (p : Nat) : bucketAt t₁ s p = withNew t s now p := by
    rw [hview₁, withNew]
    exact if_congr (and_iff_right rfl) rfl rfl
  obtain ⟨itr, t₂, hexpire, hmem₂, rfl, hlow, hhigh, hfirst, hview₂, hkeeps₂⟩ := expire_spec hnew hbegins
  obtain ⟨t₃, htrx, hview₃, hkeeps₃, -⟩ := modifyBucket_spec (f := addTransactions n z) hmem₂ ⟨rfl, rfl⟩
  refine ⟨t₃, itr.2.open_, itr.2, ?_, hlow, hhigh, fun q hq hlt => ?_, ?_, fun p => ?_,
    (hkeeps₁.trans hkeeps₂).trans hkeeps₃⟩
  · rw [onBucket, enterBucket, find?_of_none h]
    simp only [hcreate, hcutoff, except_bind_ok, hexpire]
    exact htrx
  · have hnone := hfirst q hq hlt
    rw [hwith, withNew, if_neg (by omega)] at hnone
    exact hnone
  · have hfound := bucketAt_of_mem hmem₂
    rwa [hview₂, if_neg (by omega), hwith] at hfound
  · rw [hview₃, hview₂, hwith]
    by_cases hp : itr.2.open_ = p <;> simp [hp]

end Steps

end Sigmaengine.BlockchainStatistics
