import Sigmaengine.Token.AssetText

/-!
# `fc::variant`

What `fc::json` makes of a text, how the fields of a reflected type are read from it, and how `from_variant` and
`get_inner_operation` find the operations of a plugin in it.
-/

namespace Sigmaengine

open Token Decimal

/-- A value of `fc::variant`; a floating point number is its bits. -/
inductive Variant
  | null
  | int64 (n : Int)
  | uint64 (n : Nat)
  | double (bits : BitVec 64)
  | bool (b : Bool)
  | string (s : Bytes)
  | array (vs : List Variant)
  | object (fields : List (Bytes × Variant))

/-- What the conversions call and this development does not look into. -/
structure VariantRules where
  /-- `fc::json::from_string`; `none` when it throws. -/
  fromString : Bytes → Option Variant
  doubleToString : BitVec 64 → Bytes
  doubleToInt64 : BitVec 64 → Int
  doubleToUint64 : BitVec 64 → Nat
  /-- `fc::to_uint64`. -/
  toUint64 : Bytes → Option Nat
  /-- `public_key_type( base58str )`. -/
  publicKey : Bytes → Option PublicKey
  /-- `time_point_sec::from_iso_string`. -/
  fromIsoString : Bytes → Option TimePointSec

namespace Variant

variable (rules : VariantRules)

/-! ## Conversions -/

def asString : Variant → Option Bytes
  | null => some []
  | int64 n => some (int64ToString n)
  | uint64 n => some (decimal n)
  | double bits => some (rules.doubleToString bits)
  | bool b => some (if b then ascii ['t', 'r', 'u', 'e'] else ascii ['f', 'a', 'l', 's', 'e'])
  | string s => some s
  | array _ | object _ => none

def asInt64 : Variant → Option Int
  | null => some 0
  | int64 n => some n
  | uint64 n => some (wrapInt64 n)
  | double bits => some (rules.doubleToInt64 bits)
  | bool b => some (if b then 1 else 0)
  | string s => (toInt64 s).toOption
  | array _ | object _ => none

def asUint64 : Variant → Option Nat
  | null => some 0
  | int64 n => some (n % 18446744073709551616).toNat
  | uint64 n => some n
  | double bits => some (rules.doubleToUint64 bits)
  | bool b => some (if b then 1 else 0)
  | string s => rules.toUint64 s
  | array _ | object _ => none

def getArray : Variant → Option (List Variant)
  | array vs => some vs
  | _ => none

def getObject : Variant → Option (List (Bytes × Variant))
  | object fields => some fields
  | _ => none

def asName {w : Nat} (v : Variant) : Option (FixedString w) := (v.asString rules).map .ofBytes

def asUint8 (v : Variant) : Option UInt8 := (v.asUint64 rules).map UInt8.ofNat

def asUint16 (v : Variant) : Option Nat := (v.asUint64 rules).map (· % 65536)

def asUint32 (v : Variant) : Option Nat := (v.asUint64 rules).map (· % 4294967296)

def asKey (v : Variant) : Option PublicKey := (v.asString rules).bind rules.publicKey

def asOptionalKey : Variant → Option (Option PublicKey)
  | null => some none
  | v => (v.asKey rules).map some

def asAsset (v : Variant) : Option Asset := (v.asString rules).bind fun s => (Asset.fromString s).toOption

def asTime (v : Variant) : Option TimePointSec := (v.asString rules).bind rules.fromIsoString

/-- A reflected member: what is not there keeps what it was constructed with. -/
def member {α : Type} (fields : List (Bytes × Variant)) (name : List Char) (read : Variant → Option α) (initial : α) :
    Option α :=
  match fields.find? fun f => f.1 == ascii name with
  | some f => read f.2
  | none => some initial

end Variant

/-! ## Operations -/

/-- The operations of one kind in a variant: the names of the types, what is constructed first, and how the fields of
each are read. -/
structure VariantFormat (α : Type) where
  names : List Bytes
  initial : α
  readFields : Nat → List (Bytes × Variant) → Option α

namespace VariantFormat

variable {α : Type} (rules : VariantRules) (f : VariantFormat α)

/-- `set_which` by number or by name. -/
def tag : Variant → Option Nat
  | .uint64 n => if n < f.names.length then some n else none
  | v => (v.asString rules).bind fun s => f.names.idxOf? s

/-- `from_variant` of the operation. -/
def fromVariant (v : Variant) : Option α :=
  match v.getArray with
  | none => none
  | some (t :: x :: _) => do
    let which ← f.tag rules t
    let fields ← x.getObject
    f.readFields which fields
  | some _ => some f.initial

/-- `get_inner_operation` of the two operations that carry JSON: a list of operations begins with an array. -/
def getInnerOperation (v : Variant) : Option (List α) :=
  match v with
  | .array (.array x :: vs) => (Variant.array x :: vs).mapM (f.fromVariant rules)
  | v => (f.fromVariant rules v).map fun op => [op]

end VariantFormat

end Sigmaengine
