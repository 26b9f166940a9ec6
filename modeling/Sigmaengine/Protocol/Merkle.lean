import Sigmaengine.Protocol.Block
import Sigmaengine.Lib.Merkle
import Mathlib.Data.Nat.Pairing

/-!
# The merkle root of a block, in place

`calculate_merkle_root` hashes the nodes of a level in pairs and writes the results over the front of the same
array.  The model of the loop also records which slots each pass reads and writes.

Main result: `merkle_root_in_place`.
-/

namespace Sigmaengine

/-! ## The loop -/

/-- An access to a slot of the array. -/
inductive Access where
  | read (slot : Nat)
  | write (slot : Nat)
  deriving DecidableEq

/-- The array, and the accesses of the current pass in order. -/
structure Slots where
  ids : List Nat
  accesses : List Access

variable (cd : Codec)

/-- `ids[k++] = hash( ids[i], ids[i+1] )` for `i`, `i + 2` and so on below `iMax`; returns `k`. -/
def hashPairs (iMax i k : Nat) (s : Slots) : Nat × Slots :=
  if i < iMax then
    hashPairs iMax (i + 2) (k + 1)
      { ids := s.ids.set k (cd.hashPair (s.ids.getD i 0) (s.ids.getD (i + 1) 0))
        accesses := s.accesses ++ [.read i, .read (i + 1), .write k] }
  else (k, s)
termination_by iMax - i

/-- One pass of the `while` loop; returns the new number of hashes. -/
def hashLevel (n : Nat) (ids : List Nat) : Nat × Slots :=
  let iMax := n - n % 2
  let (k, s) := hashPairs cd iMax 0 0 ⟨ids, []⟩
  if n % 2 = 1 then
    (k + 1, { ids := s.ids.set k (s.ids.getD iMax 0), accesses := s.accesses ++ [.read iMax, .write k] })
  else (k, s)

theorem hashPairs_count (iMax i k : Nat) (s : Slots) :
    (hashPairs cd iMax i k s).1 = k + (iMax + 1 - i) / 2 := by
  fun_induction hashPairs cd iMax i k s with
  | case1 i k s hlt ih =>
    rw [ih]
    omega
  | case2 i k s hge =>
    show k = _
    omega

theorem hashLevel_count (n : Nat) (ids : List Nat) : (hashLevel cd n ids).1 = n / 2 + n % 2 := by
  have hk := hashPairs_count cd (n - n % 2) 0 0 ⟨ids, []⟩
  unfold hashLevel
  dsimp only
  split
  · rw [hk]
    omega
  · rw [hk]
    omega

/-- The `while` loop; returns the array and the accesses of each pass. -/
def hashLevels (n : Nat) (ids : List Nat) : List Nat × List (List Access) :=
  if 1 < n then
    let pass := hashLevel cd n ids
    let rest := hashLevels pass.1 pass.2.ids
    (rest.1, pass.2.accesses :: rest.2)
  else (ids, [])
termination_by n
decreasing_by
  rw [hashLevel_count]
  omega

/-- `calculate_merkle_root` on the array of digests.  The source counts `i`, `k` and `i_max` in 32 bits, which
no packed block outgrows. -/
def SignedBlock.merkleRootInPlace (b : SignedBlock) : Nat × List (List Access) :=
  if b.transactions.length = 0 then (0, [])
  else
    let run := hashLevels cd b.transactions.length (b.transactions.map cd.merkleDigest)
    (cd.checksum (run.1.getD 0 0), run.2)

/-! ## Aliasing -/

/-- No slot is read after it was overwritten. -/
def NoStaleRead (accesses : List Access) : Prop :=
  accesses.Pairwise fun earlier later => ∀ slot, earlier = .write slot → later ≠ .read slot

theorem NoStaleRead.append {first second : List Access} (hfirst : NoStaleRead first) (hsecond : NoStaleRead second)
    {k : Nat} (hwritten : ∀ slot, .write slot ∈ first → slot < k)
    (hread : ∀ slot, .read slot ∈ second → k ≤ slot) : NoStaleRead (first ++ second) := by
  refine List.pairwise_append.mpr ⟨hfirst, hsecond, ?_⟩
  rintro _ hwrite _ hlater slot rfl rfl
  have hlt := hwritten slot hwrite
  have hle := hread slot hlater
  omega

/-- Where a pass over `xs` stands: the first `k` slots hold the hashes of the first `i` nodes, the slots from `i`
on are as they were, and nothing was read too late. -/
structure PassAt (xs : List Nat) (i k : Nat) (s : Slots) : Prop where
  half : i = 2 * k
  length : s.ids.length = xs.length
  hashed : s.ids.take k = Merkle.level cd.hashPair (xs.take i)
  kept : s.ids.drop i = xs.drop i
  fresh : NoStaleRead s.accesses
  written : ∀ slot, .write slot ∈ s.accesses → slot < k

variable {cd} {xs : List Nat} {i k : Nat} {s : Slots}

theorem PassAt.read (h : PassAt cd xs i k s) {slot : Nat} (hslot : i ≤ slot) : s.ids.getD slot 0 = xs.getD slot 0 := by
  have hdrop := congrArg (fun l : List Nat => l.getD (slot - i) 0) h.kept
  simp only [List.getD_eq_getElem?_getD, List.getElem?_drop] at hdrop ⊢
  rwa [Nat.add_sub_cancel' hslot] at hdrop

/-- Writing slot `k` extends what lies before it. -/
theorem take_succ_set {ids : List Nat} (hk : k < ids.length) (a : Nat) :
    (ids.set k a).take (k + 1) = ids.take k ++ [a] := by
  rw [List.take_add_one, List.getElem?_set_self hk, List.take_set_of_le (Nat.le_refl k)]
  rfl

theorem take_add_two {ids : List Nat} (hi : i + 1 < ids.length) :
    ids.take (i + 2) = ids.take i ++ [ids.getD i 0, ids.getD (i + 1) 0] := by
  rw [List.take_add_one, List.take_add_one, List.getD_eq_getElem?_getD, List.getD_eq_getElem?_getD,
    List.getElem?_eq_getElem hi, List.getElem?_eq_getElem (Nat.lt_of_succ_lt hi), List.append_assoc]
  rfl

/-- **One pair.** -/
theorem PassAt.pair (h : PassAt cd xs i k s) (hi : i + 1 < xs.length) :
    PassAt cd xs (i + 2) (k + 1)
      { ids := s.ids.set k (cd.hashPair (s.ids.getD i 0) (s.ids.getD (i + 1) 0))
        accesses := s.accesses ++ [.read i, .read (i + 1), .write k] } := by
  have hhalf := h.half
  have hlength := h.length
  refine ⟨by omega, ?_, ?_, ?_, ?_, ?_⟩
  · rw [List.length_set, hlength]
  · rw [take_succ_set (by omega), h.hashed, take_add_two hi, Merkle.level_append, h.read (Nat.le_refl i),
      h.read (Nat.le_succ i)]
    · rfl
    · rw [List.length_take]
      omega
  · rw [List.drop_set_of_lt (by omega), ← List.drop_drop, ← List.drop_drop, h.kept]
  · refine h.fresh.append ?_ h.written ?_
    · simp [NoStaleRead]
    · intro slot hslot
      simp at hslot
      omega
  · intro slot hslot
    rcases List.mem_append.mp hslot with hold | hnew
    · exact Nat.lt_succ_of_lt (h.written slot hold)
    · simp at hnew
      omega

/-- **All pairs.** -/
theorem PassAt.pairs (iMax : Nat) (h : PassAt cd xs i k s) (hi : i ≤ iMax) (heven : iMax % 2 = 0)
    (hmax : iMax ≤ xs.length) : PassAt cd xs iMax (hashPairs cd iMax i k s).1 (hashPairs cd iMax i k s).2 := by
  fun_induction hashPairs cd iMax i k s with
  | case1 i k s hlt ih =>
    have hhalf := h.half
    exact ih (h.pair (by omega)) (by omega)
  | case2 i k s hge =>
    obtain rfl : i = iMax := by omega
    exact h

/-- **One pass** computes the next level in the front of the array, and reads no slot too late. -/
theorem hashLevel_spec (cd : Codec) {n : Nat} (hn : n ≤ xs.length) :
    (hashLevel cd n xs).2.ids.length = xs.length ∧
      (hashLevel cd n xs).2.ids.take (hashLevel cd n xs).1 = Merkle.level cd.hashPair (xs.take n) ∧
      NoStaleRead (hashLevel cd n xs).2.accesses := by
  have hstart : PassAt cd xs 0 0 ⟨xs, []⟩ :=
    ⟨rfl, rfl, by simp [Merkle.level], rfl, List.Pairwise.nil, fun _ hslot => absurd hslot List.not_mem_nil⟩
  have h := hstart.pairs (n - n % 2) (Nat.zero_le _) (by omega) (by omega)
  have hhalf := h.half
  have hlength := h.length
  unfold hashLevel
  dsimp only
  split
  · -- the odd last node
    have hn' : n = n - n % 2 + 1 := by omega
    have hlast : xs.take n = xs.take (n - n % 2) ++ [xs.getD (n - n % 2) 0] := by
      conv_lhs => rw [hn']
      rw [List.take_add_one, List.getD_eq_getElem?_getD, List.getElem?_eq_getElem (by omega)]
      rfl
    refine ⟨?_, ?_, ?_⟩
    · rw [List.length_set, hlength]
    · rw [take_succ_set (by omega), h.hashed, hlast, Merkle.level_append, h.read (Nat.le_refl _)]
      · simp [Merkle.level]
      · rw [List.length_take]
        omega
    · refine h.fresh.append ?_ h.written ?_
      · simp [NoStaleRead]
      · intro slot hslot
        simp at hslot
        omega
  · refine ⟨hlength, ?_, h.fresh⟩
    have hn' : n - n % 2 = n := by omega
    rw [h.hashed, hn']

/-- **All passes** leave the root of the first `n` nodes in slot zero. -/
theorem hashLevels_spec (cd : Codec) (n : Nat) (ids : List Nat) (hpos : 0 < n) (hn : n ≤ ids.length) :
    Merkle.root cd.hashPair (ids.take n) = some ((hashLevels cd n ids).1.getD 0 0) ∧
      ∀ pass ∈ (hashLevels cd n ids).2, NoStaleRead pass := by
  fun_induction hashLevels cd n ids with
  | case1 n ids hlt pass rest ih =>
    obtain ⟨hlength, hlevel, hfresh⟩ := hashLevel_spec cd hn
    have hcount : pass.1 = n / 2 + n % 2 := hashLevel_count cd n ids
    have hshort : pass.1 ≤ pass.2.ids.length := by
      rw [hcount, hlength]
      omega
    obtain ⟨hroot, hpasses⟩ := ih (by omega) hshort
    rw [hlevel, Merkle.root_level] at hroot
    exact ⟨hroot, List.forall_mem_cons.mpr ⟨hfresh, hpasses⟩⟩
  | case2 n ids hge =>
    obtain rfl : n = 1 := by omega
    refine ⟨?_, fun _ hpass => absurd hpass List.not_mem_nil⟩
    cases ids with
    | nil => simp at hn
    | cons id ids => simp [Merkle.root]

/-! ## The recursive tree -/

theorem merkleLevel_eq (cd : Codec) (ids : List Nat) : merkleLevel cd ids = Merkle.level cd.hashPair ids := by
  fun_induction merkleLevel cd ids with
  | case1 a b ids ih => rw [Merkle.level, ih]
  | case2 ids h => rw [Merkle.level]; exact h

/-- The length of a list is fuel enough for its levels. -/
theorem merkleFold_eq (cd : Codec) (fuel : Nat) (ids : List Nat) (hfuel : ids.length ≤ fuel + 1) :
    merkleFold cd fuel ids = (Merkle.root cd.hashPair ids).getD 0 := by
  fun_induction merkleFold cd fuel ids with
  | case1 ids =>
    rcases ids with _ | ⟨id, _ | ⟨next, rest⟩⟩
    · simp [Merkle.root]
    · simp [Merkle.root]
    · simp at hfuel
  | case2 fuel id => simp [Merkle.root]
  | case3 fuel ids hne ih =>
    have hshort : (merkleLevel cd ids).length ≤ fuel + 1 := by
      rw [merkleLevel_eq, Merkle.length_level]
      rcases ids with _ | ⟨id, _ | ⟨next, rest⟩⟩
      · simp
      · exact absurd rfl (hne id)
      · simp only [List.length_cons] at *
        omega
    rw [ih hshort, merkleLevel_eq, Merkle.root_level]

/-- The root of a block with transactions is the checksum of the root of its tree. -/
theorem calculateMerkleRoot_eq (cd : Codec) (b : SignedBlock) (hpos : 0 < b.transactions.length) :
    some (b.calculateMerkleRoot cd) =
      (Merkle.root cd.hashPair (b.transactions.map cd.merkleDigest)).map cd.checksum := by
  have htree := (hashLevels_spec cd b.transactions.length (b.transactions.map cd.merkleDigest) hpos
    (by rw [List.length_map])).1
  rw [List.take_of_length_le (by rw [List.length_map])] at htree
  have hfold := merkleFold_eq cd b.transactions.length (b.transactions.map cd.merkleDigest)
    (by rw [List.length_map]; omega)
  unfold SignedBlock.calculateMerkleRoot
  split
  · next hnil => simp [hnil] at hpos
  · rw [hfold, htree]
    rfl

/-- **The merkle root.** The loop computes the recursive tree and reads no slot after it was overwritten in the
same pass; with an injective hash, blocks with equally many transactions and one root have the same digests. -/
theorem merkle_root_in_place (cd : Codec) :
    (∀ b : SignedBlock, (b.merkleRootInPlace cd).1 = b.calculateMerkleRoot cd ∧
      ∀ pass ∈ (b.merkleRootInPlace cd).2, NoStaleRead pass) ∧
    (Function.Injective2 cd.hashPair → Function.Injective cd.checksum → ∀ b b' : SignedBlock,
      b.transactions.length = b'.transactions.length → b.calculateMerkleRoot cd = b'.calculateMerkleRoot cd →
        b.transactions.map cd.merkleDigest = b'.transactions.map cd.merkleDigest) := by
  refine ⟨fun b => ?_, fun hpair hsum b b' hlength hroot => ?_⟩
  · by_cases hempty : b.transactions.length = 0
    · have hnil := List.eq_nil_of_length_eq_zero hempty
      simp [SignedBlock.merkleRootInPlace, SignedBlock.calculateMerkleRoot, hnil]
    · have htree := calculateMerkleRoot_eq cd b (by omega)
      obtain ⟨hloop, hfresh⟩ := hashLevels_spec cd b.transactions.length (b.transactions.map cd.merkleDigest)
        (by omega) (by rw [List.length_map])
      rw [List.take_of_length_le (by rw [List.length_map])] at hloop
      rw [hloop] at htree
      unfold SignedBlock.merkleRootInPlace
      rw [if_neg hempty]
      exact ⟨(Option.some.inj htree).symm, hfresh⟩
  · by_cases hempty : b.transactions.length = 0
    · have hnil := List.eq_nil_of_length_eq_zero hempty
      have hnil' := List.eq_nil_of_length_eq_zero (hlength.symm.trans hempty)
      rw [hnil, hnil']
    · have htree := calculateMerkleRoot_eq cd b (by omega)
      have htree' := calculateMerkleRoot_eq cd b' (by omega)
      rw [hroot, htree'] at htree
      exact Merkle.root_injective hpair _ _ (by simp [hlength])
        (Option.map_injective hsum htree).symm

/-- Hashes that lose nothing: pairs of numbers are numbered. -/
def pairingCodec : Codec where
  headerHash b := (b.timestamp, 0)
  transactionId t := t.expiration
  merkleDigest t := t.expiration
  hashPair := Nat.pair
  checksum := id
  transactionPackSize _ := 0
  blockPackSize _ := 0
  signee _ := none
  signatureKey _ _ := none

/-- A block of empty transactions that expire at these times. -/
def expiringBlock (times : List TimePointSec) : SignedBlock where
  previous := {}
  timestamp := 0
  bobserver := []
  transactionMerkleRoot := 0
  extensions := []
  bobserverSignature := 0
  transactions := times.map fun t => ⟨0, 0, t, [], []⟩

theorem merkle_root_pairing : ((expiringBlock [1, 2, 3]).merkleRootInPlace pairingCodec).1 =
      (expiringBlock [1, 2, 3]).calculateMerkleRoot pairingCodec ∧
    (expiringBlock [1, 2, 3]).calculateMerkleRoot pairingCodec ≠
      (expiringBlock [1, 3, 2]).calculateMerkleRoot pairingCodec := by
  have hpair : Function.Injective2 pairingCodec.hashPair := fun _ _ _ _ h => Nat.pair_eq_pair.mp h
  obtain ⟨hloop, hinjective⟩ := merkle_root_in_place pairingCodec
  refine ⟨(hloop _).1, fun hroot => ?_⟩
  have hdigests := hinjective hpair Function.injective_id (expiringBlock [1, 2, 3]) (expiringBlock [1, 3, 2]) rfl hroot
  exact absurd hdigests (by decide)

end Sigmaengine
