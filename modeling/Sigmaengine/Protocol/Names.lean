import Sigmaengine.Lib.Bytes
import Sigmaengine.Protocol.Types

/-!
# Names on the wire

`fixed_string` keeps a text in a fixed number of bytes and shows it again as a `std::string`.  The two
views agree except for texts with a zero byte in the middle: these are cut off at the zero when they are
shown, while the comparison still sees what follows.
-/

namespace Sigmaengine

open Bytes

/-- `fc::raw` on `std::string`, faithful as far as names are concerned. -/
structure StringWire where
  pack : Bytes → Bytes
  unpack : Bytes → Option Bytes
  unpack_pack : ∀ s, unpack (pack s) = some s

namespace FixedString

variable {w : Nat}

/-- `fc::raw::pack`: the name goes out as its `std::string`. -/
def pack (wire : StringWire) (v : FixedString w) : Bytes := wire.pack v.toBytes

/-- `fc::raw::unpack`: any string that comes in is stored. -/
def unpack (wire : StringWire) (data : Bytes) : Option (FixedString w) := (wire.unpack data).map ofBytes

/-! ## The stored bytes -/

theorem toNat_ofBytes (s : Bytes) : (ofBytes s : FixedString w).data.toNat = bigEndian (stored w s) := by
  have hlt := bigEndian_lt (stored w s)
  rw [length_stored] at hlt
  have hpow : 256 ^ w = 2 ^ (8 * w) := by
    rw [pow_mul]
    norm_num
  rw [bigEndian_stored] at hlt ⊢
  rw [ofBytes, BitVec.toNat_ofNat]
  exact Nat.mod_eq_of_lt (hpow ▸ hlt)

theorem raw_eq_digits (v : FixedString w) : v.raw = digits w v.data.toNat := rfl

theorem length_raw (v : FixedString w) : v.raw.length = w := length_digits w _

theorem raw_ofBytes (s : Bytes) : (ofBytes s : FixedString w).raw = stored w s := by
  have hdigits := digits_bigEndian (stored w s)
  rw [length_stored] at hdigits
  rw [raw_eq_digits, toNat_ofBytes, hdigits]

theorem bigEndian_raw (v : FixedString w) : bigEndian v.raw = v.data.toNat := by
  have hpow : 256 ^ w = 2 ^ (8 * w) := by
    rw [pow_mul]
    norm_num
  refine bigEndian_digits ?_
  rw [hpow]
  exact v.data.isLt

theorem raw_injective {a b : FixedString w} (h : a.raw = b.raw) : a = b := by
  have hdata : a.data.toNat = b.data.toNat := by rw [← bigEndian_raw, ← bigEndian_raw, h]
  cases a
  cases b
  simpa using BitVec.eq_of_toNat_eq hdata

theorem lt_iff_raw (a b : FixedString w) : a.lt b = true ↔ a.raw < b.raw := by
  have hlen : a.raw.length = b.raw.length := by rw [length_raw, length_raw]
  rw [← bigEndian_lt_iff hlen, bigEndian_raw, bigEndian_raw]
  simp [lt]

theorem toBytes_eq_text (v : FixedString w) : v.toBytes = text v.raw := by
  have hlast : v.data.toNat % 256 ≠ 0 ↔ v.raw.getLast? ≠ some 0 ∧ v.raw ≠ [] := by
    rw [← bigEndian_raw]
    rcases List.eq_nil_or_concat v.raw with hnil | ⟨p, b, hp⟩
    · simp [hnil]
    · rw [hp, List.concat_eq_append, bigEndian_concat_mod]
      have hzero : b.toNat = 0 ↔ b = 0 := UInt8.toNat_inj (a := b) (b := 0)
      simp [hzero]
  unfold toBytes text
  by_cases h0 : v.raw = []
  · simp [h0]
  · by_cases hb : v.raw.getLast? = some 0
    · rw [if_neg (fun h => (hlast.mp h).1 hb), if_pos hb]
    · rw [if_pos (hlast.mpr ⟨hb, h0⟩), if_neg hb]

/-- A name read from a text that was shown is shown as this text. -/
theorem toBytes_ofBytes_toBytes (v : FixedString w) : (ofBytes v.toBytes : FixedString w).toBytes = v.toBytes := by
  have hstored := text_stored_text v.raw
  rw [length_raw] at hstored
  rw [toBytes_eq_text, raw_ofBytes, toBytes_eq_text, hstored]

/-! ## The two views -/

/-- The text is not cut off when it is shown: the last stored byte is set, or only zeros follow a zero. -/
def CanonicalText (w : Nat) (s : Bytes) : Prop := Canonical (stored w s)

instance (w : Nat) (s : Bytes) : Decidable (CanonicalText w s) := inferInstanceAs (Decidable (Canonical _))

theorem unpack_pack_iff (wire : StringWire) (s : Bytes) :
    unpack wire (pack wire (ofBytes s : FixedString w)) = some (ofBytes s : FixedString w) ↔ CanonicalText w s := by
  have hread : unpack wire (pack wire (ofBytes s : FixedString w)) =
      some (ofBytes (ofBytes s : FixedString w).toBytes : FixedString w) := by
    rw [unpack, pack, wire.unpack_pack, Option.map_some]
  have hstored := stored_text_iff (stored w s)
  rw [length_stored] at hstored
  rw [hread, Option.some_inj, CanonicalText, ← hstored]
  constructor
  · intro h
    have hraw := congrArg raw h
    rwa [raw_ofBytes, raw_ofBytes, toBytes_eq_text, raw_ofBytes] at hraw
  · intro h
    refine raw_injective ?_
    rw [raw_ofBytes, raw_ofBytes, toBytes_eq_text, raw_ofBytes, h]

/-- **Names on the wire**: both names come back unchanged and their comparison agrees with that of
their texts exactly when neither text is cut off. -/
theorem names_agree_iff (wire : StringWire) (w : Nat) (s t : Bytes) :
    let a : FixedString w := ofBytes s
    let b : FixedString w := ofBytes t
    (unpack wire (pack wire a) = some a ∧ unpack wire (pack wire b) = some b ∧
      (a = b ↔ a.toBytes = b.toBytes) ∧ (a.lt b = true ↔ a.toBytes < b.toBytes)) ↔
      CanonicalText w s ∧ CanonicalText w t := by
  intro a b
  rw [unpack_pack_iff, unpack_pack_iff]
  constructor
  · rintro ⟨hs, ht, -⟩
    exact ⟨hs, ht⟩
  · rintro ⟨hs, ht⟩
    have hlen : (stored w s).length = (stored w t).length := by rw [length_stored, length_stored]
    refine ⟨hs, ht, ?_, ?_⟩
    · refine ⟨fun h => congrArg toBytes h, fun h => raw_injective ?_⟩
      rw [toBytes_eq_text, toBytes_eq_text, raw_ofBytes, raw_ofBytes] at h
      rw [raw_ofBytes, raw_ofBytes]
      exact text_inj hlen hs ht h
    · rw [lt_iff_raw, toBytes_eq_text, toBytes_eq_text, raw_ofBytes, raw_ofBytes]
      exact (text_lt_text_iff hlen hs ht).symm

/-- `"eve\0x"` is another account than `"eve"`, and both are shown, validated and sent as `"eve"`. -/
theorem hidden_suffix_splits_views :
    let wire : StringWire := ⟨id, some, fun _ => rfl⟩
    let a : AccountName := ofBytes [101, 118, 101, 0, 120]
    let b : AccountName := ofBytes [101, 118, 101]
    a ≠ b ∧ a.toBytes = b.toBytes ∧ isValidAccountName a.toBytes = true ∧
      unpack wire (pack wire a) ≠ some a := by
  decide +kernel

end FixedString

end Sigmaengine
