import Sigmaengine.Lib.Reader
import Sigmaengine.Protocol.Types

/-!
# `fc::raw`

How the fields of operations are packed, and the operations themselves: a `static_variant` is the number of its type
and then the fields, a vector is its length and then the elements.
-/

namespace Sigmaengine.Raw

open Reading

/-- `MAX_ARRAY_ALLOC_SIZE`. -/
def maxArrayAllocSize : Nat := 1024 * 1024 * 10 * 30

/-! ## Fields -/

def packString (s : Bytes) : Bytes := Varint.pack s.length ++ s

def unpackString : Reader Bytes := do
  let size ← varint
  check (size < maxArrayAllocSize)
  take size

def packName {w : Nat} (name : FixedString w) : Bytes := packString name.toBytes

def unpackName (w : Nat) : Reader (FixedString w) := FixedString.ofBytes <$> unpackString

/-- The 33 bytes of a compressed key. -/
def packKey (k : PublicKey) : Bytes := Bytes.digits 33 k.data

def unpackKey : Reader PublicKey := (fun bs => ⟨Bytes.bigEndian bs⟩) <$> take 33

def packOptional {α : Type} (pack : α → Bytes) : Option α → Bytes
  | none => [0]
  | some a => 1 :: pack a

def unpackOptional {α : Type} (unpack : Reader α) : Reader (Option α) := do
  let b ← littleEndian 1
  check (b < 2)
  if b = 0 then return none else some <$> unpack

/-- The two's complement of an `int64_t`. -/
def packInt64 (n : Int) : Bytes := packLittleEndian 8 (n % 2 ^ 64).toNat

/-- The number a word is the two's complement of. -/
def signedWord (n : Nat) : Int := if n < 2 ^ 63 then n else n - 2 ^ 64

def unpackInt64 : Reader Int := signedWord <$> littleEndian 8

def packAsset (a : Asset) : Bytes := packInt64 a.amount ++ packLittleEndian 8 a.symbol

def unpackAsset : Reader Asset := do
  let amount ← unpackInt64
  let symbol ← littleEndian 8
  return ⟨amount, symbol⟩

/-! ## Fields are found again -/

theorem reads_string {s : Bytes} (h : s.length < maxArrayAllocSize) : Reads unpackString (packString s) s := by
  have hsize : s.length < 2 ^ 32 := h.trans (by decide)
  have htake := (reads_check (c := s.length < maxArrayAllocSize) (by simpa using h)).bind (f := fun _ => take s.length)
    (reads_take s)
  rw [List.nil_append] at htake
  exact (reads_varint hsize).bind htake

/-- The name is its text. -/
def Shown {w : Nat} (name : FixedString w) : Prop := FixedString.ofBytes name.toBytes = name

instance {w : Nat} (name : FixedString w) : Decidable (Shown name) :=
  inferInstanceAs (Decidable (FixedString.ofBytes name.toBytes = name))

theorem length_toBytes_le {w : Nat} (name : FixedString w) : name.toBytes.length ≤ w := by
  have hraw : name.raw.length = w := by simp [FixedString.raw]
  unfold FixedString.toBytes
  split
  · omega
  · exact (List.takeWhile_prefix _).length_le.trans (by omega)

theorem reads_name {w : Nat} {name : FixedString w} (h : Shown name) (hw : w < maxArrayAllocSize) :
    Reads (unpackName w) (packName name) name := by
  have hread := (reads_string ((length_toBytes_le name).trans_lt hw)).map (FixedString.ofBytes (w := w))
  rw [h] at hread
  exact hread

theorem reads_key {k : PublicKey} (h : k.data < 256 ^ 33) : Reads unpackKey (packKey k) k := by
  have hlength : (packKey k).length = 33 := Bytes.length_digits 33 k.data
  have hread := (reads_take (packKey k)).map fun bs => (⟨Bytes.bigEndian bs⟩ : PublicKey)
  rw [hlength, packKey, Bytes.bigEndian_digits h] at hread
  exact hread

theorem reads_optional {α : Type} {pack : α → Bytes} {unpack : Reader α} {o : Option α}
    (h : ∀ a ∈ o, Reads unpack (pack a) a) : Reads (unpackOptional unpack) (packOptional pack o) o := by
  intro rest
  cases o with
  | none => rfl
  | some a =>
    have hread := (h a rfl).map some rest
    exact hread

theorem reads_int64 {n : Int} (hlow : -2 ^ 63 ≤ n) (hhigh : n < 2 ^ 63) : Reads unpackInt64 (packInt64 n) n := by
  have hlt : (n % 2 ^ 64).toNat < 256 ^ 8 := by omega
  have hread := (reads_littleEndian hlt).map signedWord
  have hvalue : signedWord (n % 2 ^ 64).toNat = n := by
    unfold signedWord
    split <;> omega
  rw [hvalue] at hread
  exact hread

theorem reads_asset {a : Asset} (hlow : -2 ^ 63 ≤ a.amount) (hhigh : a.amount < 2 ^ 63) (hsymbol : a.symbol < 256 ^ 8) :
    Reads unpackAsset (packAsset a) a :=
  (reads_int64 hlow hhigh).bind (reads_littleEndian hsymbol).last

/-! ## Operations -/

/-- The operations of one kind: the types of their `static_variant`, and how the fields of each are packed. -/
structure Format (α : Type) where
  /-- `count()`. -/
  count : Nat
  /-- `sizeof`. -/
  size : Nat
  which : α → Nat
  packFields : α → Bytes
  unpackFields : Nat → Reader α

namespace Format

variable {α : Type} (f : Format α)

def packOperation (op : α) : Bytes := Varint.pack (f.which op) ++ f.packFields op

def unpackOperation : Reader α := do
  let w ← varint
  check (w < f.count)
  f.unpackFields w

def packOperations (ops : List α) : Bytes := Varint.pack ops.length ++ ops.flatMap f.packOperation

def unpackOperations : Reader (List α) := do
  let n ← varint
  check (n * f.size < maxArrayAllocSize)
  many f.unpackOperation n

/-- `fc::raw::unpack` of a buffer: what is left over is ignored. -/
def unpackVector (data : Bytes) : Option (List α) :=
  if data = [] then some [] else (f.unpackOperations data).map Prod.fst

/-- `get_inner_operation` of a `custom_binary_operation`: first as a vector, and when that throws as one
operation. -/
def getInnerOperation (data : Bytes) : Option (List α) :=
  match f.unpackVector data with
  | some ops => some ops
  | none => (f.unpackOperation data).map fun r => [r.1]

end Format

end Sigmaengine.Raw
