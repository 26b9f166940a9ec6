import Sigmaengine.Protocol.Base58
import Sigmaengine.Protocol.Raw

/-!
# Keys as text

A public key is shown behind the prefix of the chain, a private key in the wallet import format; both texts end in a few
bytes of a hash.  What is shown is read back.  The readers also take texts that are not shown: bytes behind the check of a
public key, any version of a private key, a secret of another length, one round of the hash instead of two.

Main results: `fromText_eq_ok` and `wifToKey_eq_some`.
-/

namespace Sigmaengine

open Reading Raw

/-! ## `public_key_type` -/

/-- `SIGMAENGINE_ADDRESS_PREFIX`. -/
def addressPrefix : Bytes := ascii ['T', 'N', 'C']

/-- `public_key_type::binary_key`. -/
structure BinaryKey where
  data : PublicKey := {}
  check : UInt32 := 0

/-- What the constructor throws. -/
inductive KeyTextError
  | assertion (text : String)
  | parse
  | outOfRange
deriving DecidableEq, Repr

def packBinaryKey (k : BinaryKey) : Bytes := packKey k.data ++ packLittleEndian 4 k.check.toNat

def readBinaryKey : Reader BinaryKey := do
  let data ← unpackKey
  let check ← littleEndian 4
  return ⟨data, UInt32.ofNat check⟩

/-- `fc::raw::unpack` of a vector: nothing is read of an empty one, and what is not read is left out. -/
def unpackBinaryKey (bin : Bytes) : Option BinaryKey :=
  if bin.isEmpty then some {} else (readBinaryKey bin).map Prod.fst

section PublicKeys

variable (ripemd160 : Bytes → UInt32)

/-- `operator std::string`; `ripemd160` is the first word of the hash. -/
def PublicKey.toText (k : PublicKey) : Bytes :=
  addressPrefix ++ toBase58 (packBinaryKey ⟨k, ripemd160 (packKey k)⟩)

/-- `public_key_type( const std::string& )`. -/
def PublicKey.fromText (base58str : Bytes) : Except KeyTextError PublicKey :=
  if ¬ addressPrefix.length < base58str.length then .error (.assertion "base58str.size() > prefix_len")
  else if base58str.take addressPrefix.length ≠ addressPrefix then
    .error (.assertion "base58str.substr( 0, prefix_len ) == prefix")
  else match fromBase58 (base58str.drop addressPrefix.length) with
    | none => .error .parse
    | some bin =>
      match unpackBinaryKey bin with
      | none => .error .outOfRange
      | some binKey =>
        if ripemd160 (packKey binKey.data) = binKey.check then .ok binKey.data
        else .error (.assertion "fc::ripemd160::hash( key_data.data, key_data.size() )._hash[0] == bin_key.check")

end PublicKeys

/-! ## `key_conversion.cpp` -/

/-- A `fc::sha256`. -/
structure Sha256 where
  bytes : Bytes
  size : bytes.length = 32

/-- `from_variant`: cut off, or filled up with zeros. -/
def Sha256.ofBytes (ve : Bytes) : Sha256 := ⟨Bytes.stored 32 ve, Bytes.length_stored 32 ve⟩

section WalletImport

variable (sha256 : Bytes → Sha256)

def keyToWif (secret : Sha256) : Bytes :=
  let data := 0x80 :: secret.bytes
  let digest := sha256 (sha256 data).bytes
  toBase58 (data ++ digest.bytes.take 4)

/-- `wif_to_key`, with the secret a private key is regenerated from. -/
def wifToKey (wifKey : Bytes) : Option Sha256 :=
  match fromBase58 wifKey with
  | none => none
  | some wifBytes =>
    if wifBytes.length < 5 then none
    else
      let keyBytes := (wifBytes.take (wifBytes.length - 4)).drop 1
      let key := Sha256.ofBytes keyBytes
      let check := sha256 (wifBytes.take (wifBytes.length - 4))
      let check2 := sha256 check.bytes
      if check.bytes.take 4 = wifBytes.drop (wifBytes.length - 4) ∨
          check2.bytes.take 4 = wifBytes.drop (wifBytes.length - 4) then some key
      else none

end WalletImport

/-! ## Texts of base 58 -/

/-- The text holds the bytes in base 58: with spaces around, and anything behind a zero byte. -/
def HoldsBase58 (text bytes : Bytes) : Prop := ∃ lead trail, (∀ c ∈ lead, isspace c = true) ∧ (∀ c ∈ trail, isspace c = true) ∧
  untilZero text = lead ++ toBase58 bytes ++ trail

theorem fromBase58_holds {text bytes : Bytes} : fromBase58 text = some bytes ↔ HoldsBase58 text bytes := fromBase58_eq_some

theorem fromBase58_toBase58 (bytes : Bytes) : fromBase58 (toBase58 bytes) = some bytes := by
  refine fromBase58_eq_some.mpr ⟨[], [], by simp, by simp, ?_⟩
  rw [untilZero_toBase58, List.nil_append, List.append_nil]

/-! ## Public keys -/

variable {k : PublicKey} {binKey : BinaryKey} {bin rest s : Bytes} {ripemd160 : Bytes → UInt32}

/-- A key that is read has been packed. -/
theorem unpackKey_eq_some {bs : Bytes} (h : unpackKey bin = some (k, bs)) : k.data < 256 ^ 33 ∧ bin = packKey k ++ bs := by
  obtain ⟨front, htake, rfl⟩ := map_eq_some h
  obtain ⟨hlength, rfl⟩ := take_eq_some htake
  have hlt := Bytes.bigEndian_lt front
  have hdigits := Bytes.digits_bigEndian front
  rw [hlength] at hlt hdigits
  exact ⟨hlt, by rw [packKey, hdigits]⟩

theorem readBinaryKey_pack (hk : binKey.data.data < 256 ^ 33) : Reads readBinaryKey (packBinaryKey binKey) binKey := by
  have hcheck : binKey.check.toNat < 256 ^ 4 := binKey.check.toNat_lt
  have hread := (reads_key hk).bind (f := fun data => do
    let check ← littleEndian 4
    return (⟨data, UInt32.ofNat check⟩ : BinaryKey)) (reads_littleEndian hcheck).last
  rwa [UInt32.ofNat_toNat] at hread

/-- Whatever is read has been packed. -/
theorem readBinaryKey_eq_some (h : readBinaryKey bin = some (binKey, rest)) : binKey.data.data < 256 ^ 33 ∧
    bin = packBinaryKey binKey ++ rest := by
  obtain ⟨data, bs, hdata, hfields⟩ := bind_eq_some h
  obtain ⟨check, bs', hcheck, hrecord⟩ := bind_eq_some hfields
  obtain ⟨hkey, rfl⟩ := unpackKey_eq_some hdata
  obtain ⟨hlt, rfl⟩ := littleEndian_eq_some hcheck
  cases hrecord
  have hmod : check % 2 ^ 32 = check := Nat.mod_eq_of_lt hlt
  refine ⟨hkey, ?_⟩
  rw [packBinaryKey, UInt32.toNat_ofNat', hmod, List.append_assoc]

theorem unpackBinaryKey_eq_some : unpackBinaryKey bin = some binKey ↔ bin = [] ∧ binKey = {} ∨
    binKey.data.data < 256 ^ 33 ∧ packBinaryKey binKey <+: bin := by
  unfold unpackBinaryKey
  cases bin with
  | nil =>
    have hnot : ¬ packBinaryKey binKey <+: [] := by
      intro h
      have hlength := h.length_le
      rw [packBinaryKey, List.length_append, packKey, Bytes.length_digits, List.length_nil] at hlength
      omega
    simp [hnot, eq_comm]
  | cons b bs =>
    rw [List.isEmpty_cons, if_neg Bool.false_ne_true, Option.map_eq_some_iff]
    constructor
    · rintro ⟨⟨binKey', rest⟩, hread, rfl⟩
      obtain ⟨hk, hbin⟩ := readBinaryKey_eq_some hread
      exact .inr ⟨hk, rest, hbin.symm⟩
    · rintro (⟨hnil, -⟩ | ⟨hk, rest, hbin⟩)
      · cases hnil
      · exact ⟨(binKey, rest), hbin ▸ readBinaryKey_pack hk rest, rfl⟩

/-- What the text holds behind its prefix, and whether the check is right. -/
theorem fromText_eq : PublicKey.fromText ripemd160 s = .ok k ↔ ∃ text binKey, text ≠ [] ∧ s = addressPrefix ++ text ∧
    (∃ bin, HoldsBase58 text bin ∧ unpackBinaryKey bin = some binKey) ∧ ripemd160 (packKey binKey.data) = binKey.check ∧
      binKey.data = k := by
  unfold PublicKey.fromText
  constructor
  · intro h
    split at h
    · cases h
    next hsize =>
    split at h
    · cases h
    next hfront =>
    split at h
    · cases h
    next bin hbin =>
    split at h
    · cases h
    next binKey hunpack =>
    split at h
    · next hcheck =>
      refine ⟨s.drop addressPrefix.length, binKey, ?_, ?_, ⟨bin, fromBase58_holds.mp hbin, hunpack⟩, hcheck, by simpa using h⟩
      · rw [Ne, List.drop_eq_nil_iff]
        omega
      · conv_lhs => rw [← List.take_append_drop addressPrefix.length s, not_not.mp hfront]
    · cases h
  · rintro ⟨text, binKey, htext, rfl, ⟨bin, hbin, hunpack⟩, hcheck, rfl⟩
    have hsize : addressPrefix.length < (addressPrefix ++ text).length := by
      rw [List.length_append]
      have hpos := List.length_pos_iff.mpr htext
      omega
    rw [if_neg (not_not.mpr hsize), List.take_left, if_neg (not_not.mpr rfl), List.drop_left, fromBase58_holds.mpr hbin]
    dsimp only
    rw [hunpack]
    dsimp only
    rw [if_pos hcheck]

/-- **What is shown is read.** -/
theorem fromText_toText (hk : k.data < 256 ^ 33) : PublicKey.fromText ripemd160 (k.toText ripemd160) = .ok k := by
  refine fromText_eq.mpr ⟨_, ⟨k, ripemd160 (packKey k)⟩, ?_, rfl, ⟨_, fromBase58_holds.mp (fromBase58_toBase58 _), ?_⟩, rfl, rfl⟩
  · intro hnil
    have hread := fromBase58_toBase58 (packBinaryKey ⟨k, ripemd160 (packKey k)⟩)
    rw [hnil] at hread
    cases hread
  · exact unpackBinaryKey_eq_some.mpr (.inr ⟨hk, List.prefix_refl _⟩)

/-- **Which texts are read as a key**: behind the prefix stands in base 58 what is shown for this key, and maybe more bytes.
The empty text is read as the key of zeros, should its check be zero. -/
theorem fromText_eq_ok (ripemd160 : Bytes → UInt32) (s : Bytes) (k : PublicKey) : PublicKey.fromText ripemd160 s = .ok k ↔
    ∃ text bin, text ≠ [] ∧ s = addressPrefix ++ text ∧ HoldsBase58 text bin ∧
      (k.data < 256 ^ 33 ∧ packBinaryKey ⟨k, ripemd160 (packKey k)⟩ <+: bin ∨
        bin = [] ∧ k = {} ∧ ripemd160 (packKey {}) = 0) := by
  rw [fromText_eq]
  constructor
  · rintro ⟨text, binKey, htext, hs, ⟨bin, hbin, hunpack⟩, hcheck, rfl⟩
    refine ⟨text, bin, htext, hs, hbin, ?_⟩
    rcases unpackBinaryKey_eq_some.mp hunpack with ⟨hnil, rfl⟩ | ⟨hk, hpack⟩
    · exact .inr ⟨hnil, rfl, hcheck⟩
    · rw [hcheck]
      exact .inl ⟨hk, hpack⟩
  · rintro ⟨text, bin, htext, hs, hbin, ⟨hk, hpack⟩ | ⟨rfl, rfl, hcheck⟩⟩
    · exact ⟨text, ⟨k, _⟩, htext, hs, ⟨bin, hbin, unpackBinaryKey_eq_some.mpr (.inr ⟨hk, hpack⟩)⟩, rfl, rfl⟩
    · exact ⟨text, {}, htext, hs, ⟨[], hbin, rfl⟩, hcheck, rfl⟩

/-! ## Private keys -/

section Private

variable {sha256 : Bytes → Sha256} {wif : Bytes}

theorem length_take_four (hash : Sha256) : (hash.bytes.take 4).length = 4 := by
  rw [List.length_take, hash.size]
  rfl

theorem ofBytes_bytes (secret : Sha256) : Sha256.ofBytes secret.bytes = secret := by
  have hstored : Bytes.stored 32 secret.bytes = secret.bytes := by
    rw [Bytes.stored, secret.size, List.take_of_length_le secret.size.le, Nat.sub_self, List.replicate_zero,
      List.append_nil]
  cases secret
  unfold Sha256.ofBytes
  congr

/-- The version, the bytes of the secret and the check. -/
theorem wifToKey_parts {version : UInt8} {keyBytes check : Bytes} (hcheck : check.length = 4)
    (h : fromBase58 wif = some (version :: keyBytes ++ check)) : wifToKey sha256 wif =
      if (sha256 (version :: keyBytes)).bytes.take 4 = check ∨
        (sha256 (sha256 (version :: keyBytes)).bytes).bytes.take 4 = check then some (.ofBytes keyBytes) else none := by
  have hsize : (version :: keyBytes ++ check).length - 4 = (version :: keyBytes).length := by
    rw [List.length_append, hcheck, Nat.add_sub_cancel]
  have hlong : ¬ (version :: keyBytes ++ check).length < 5 := by
    rw [List.length_append, hcheck, List.length_cons]
    omega
  unfold wifToKey
  rw [h]
  dsimp only
  rw [if_neg hlong, hsize, List.take_left, List.drop_left, List.drop_one, List.tail_cons]

theorem exists_parts {wifBytes : Bytes} (h : ¬ wifBytes.length < 5) : ∃ version keyBytes check, List.length check = 4 ∧
    wifBytes = version :: keyBytes ++ check := by
  have hsplit := List.take_append_drop (wifBytes.length - 4) wifBytes
  have hcheck : (wifBytes.drop (wifBytes.length - 4)).length = 4 := by
    rw [List.length_drop]
    omega
  cases hfront : wifBytes.take (wifBytes.length - 4) with
  | nil =>
    have hlength := congrArg List.length hfront
    rw [List.length_take, List.length_nil] at hlength
    omega
  | cons version keyBytes =>
    rw [hfront] at hsplit
    exact ⟨version, keyBytes, _, hcheck, hsplit.symm⟩

/-- **What is exported is imported.** -/
theorem wifToKey_keyToWif (sha256 : Bytes → Sha256) (secret : Sha256) :
    wifToKey sha256 (keyToWif sha256 secret) = some secret := by
  have hread : fromBase58 (keyToWif sha256 secret) =
      some (0x80 :: secret.bytes ++ (sha256 (sha256 (0x80 :: secret.bytes)).bytes).bytes.take 4) := fromBase58_toBase58 _
  rw [wifToKey_parts (length_take_four _) hread, if_pos (.inr rfl), ofBytes_bytes]

/-- **Which texts are read as a private key**: a version, the bytes the secret is made of, and the first four bytes of one or
two rounds of the hash of both. -/
theorem wifToKey_eq_some (sha256 : Bytes → Sha256) (wif : Bytes) (key : Sha256) : wifToKey sha256 wif = some key ↔
    ∃ version keyBytes round, HoldsBase58 wif (version :: keyBytes ++ List.take 4 (Sha256.bytes round)) ∧ key = .ofBytes keyBytes ∧
      (round = sha256 (version :: keyBytes) ∨ round = sha256 (sha256 (version :: keyBytes)).bytes) := by
  constructor
  · intro h
    cases hread : fromBase58 wif with
    | none =>
      unfold wifToKey at h
      rw [hread] at h
      cases h
    | some wifBytes =>
      by_cases hsize : wifBytes.length < 5
      · unfold wifToKey at h
        rw [hread] at h
        dsimp only at h
        rw [if_pos hsize] at h
        cases h
      · obtain ⟨version, keyBytes, check, hcheck, rfl⟩ := exists_parts hsize
        rw [wifToKey_parts hcheck hread] at h
        split at h
        · next hround =>
          cases h
          rcases hround with rfl | rfl
          · exact ⟨version, keyBytes, _, fromBase58_holds.mp hread, rfl, .inl rfl⟩
          · exact ⟨version, keyBytes, _, fromBase58_holds.mp hread, rfl, .inr rfl⟩
        · cases h
  · rintro ⟨version, keyBytes, round, hread, rfl, hround⟩
    rw [wifToKey_parts (length_take_four round) (fromBase58_holds.mpr hread), if_pos]
    rcases hround with rfl | rfl
    · exact .inl rfl
    · exact .inr rfl

end Private

end Sigmaengine
