import Mathlib.Control.Monad.Basic
import Sigmaengine.Lib.Bytes
import Sigmaengine.Lib.Varint

/-!
# Reading values from the front of a buffer

A reader takes what it needs from the front and leaves the rest, or finds nothing.  `Reads r bs a` says that `r` takes
exactly `bs` and finds `a` there, whatever stands behind.
-/

namespace Reading

abbrev Reader (α : Type) := StateT (List UInt8) Option α

variable {α β : Type} {a : α} {b : β} {bs cs : List UInt8} {r : Reader α}

/-- `r` finds `a` in `bs`. -/
def Reads (r : Reader α) (bs : List UInt8) (a : α) : Prop := ∀ rest, r (bs ++ rest) = some (a, rest)

/-! ## Readers -/

/-- The next `n` bytes. -/
def take (n : Nat) : Reader (List UInt8) := fun bs => if n ≤ bs.length then some (bs.take n, bs.drop n) else none

/-- Go on when `c` holds. -/
def check (c : Bool) : Reader Unit := fun bs => if c then some ((), bs) else none

/-- A number in `n` bytes, least significant first. -/
def littleEndian (n : Nat) : Reader Nat := do
  let bs ← take n
  return Bytes.bigEndian bs.reverse

/-- The bytes of a number, least significant first. -/
def packLittleEndian (n v : Nat) : List UInt8 := (Bytes.digits n v).reverse

def varint : Reader Nat := Varint.unpack

/-- As many values one after the other. -/
def many (r : Reader α) : Nat → Reader (List α)
  | 0 => pure []
  | n + 1 => do
    let a ← r
    let as ← many r n
    return a :: as

/-! ## What they find -/

theorem reads_pure (a : α) : Reads (pure a) [] a := fun _ => rfl

theorem Reads.bind {f : α → Reader β} (hr : Reads r bs a) (hf : Reads (f a) cs b) : Reads (r >>= f) (bs ++ cs) b := by
  intro rest
  show (r (bs ++ cs ++ rest)).bind (fun p => f p.1 p.2) = some (b, rest)
  rw [List.append_assoc, hr]
  exact hf rest

theorem Reads.map (hr : Reads r bs a) (f : α → β) : Reads (f <$> r) bs (f a) := by
  intro rest
  show (r (bs ++ rest)).bind (fun p => some (f p.1, p.2)) = some (f a, rest)
  rw [hr]
  rfl

/-- The last field of a record. -/
theorem Reads.last {f : α → β} (hr : Reads r bs a) : Reads (r >>= fun a => pure (f a)) bs (f a) := hr.map f

theorem reads_take (bs : List UInt8) : Reads (take bs.length) bs bs := by
  intro rest
  unfold take
  rw [if_pos (by simp), List.take_left, List.drop_left]

theorem reads_check {c : Bool} (h : c = true) : Reads (check c) [] () := by
  intro rest
  simp [check, h]

theorem reads_littleEndian {n v : Nat} (h : v < 256 ^ n) : Reads (littleEndian n) (packLittleEndian n v) v := by
  have hlength : (packLittleEndian n v).length = n := by
    rw [packLittleEndian, List.length_reverse, Bytes.length_digits]
  have htake := reads_take (packLittleEndian n v)
  rw [hlength] at htake
  have hread := htake.map fun bs => Bytes.bigEndian bs.reverse
  rw [packLittleEndian, List.reverse_reverse, Bytes.bigEndian_digits h] at hread
  exact hread

theorem reads_varint {n : Nat} (h : n < 2 ^ 32) : Reads varint (Varint.pack n) n := fun rest =>
  Varint.unpack_pack h rest

theorem reads_many {pack : α → List UInt8} {as : List α} (h : ∀ a ∈ as, Reads r (pack a) a) :
    Reads (many r as.length) (as.flatMap pack) as := by
  induction as with
  | nil => exact reads_pure []
  | cons a as ih =>
    have hrest := Reads.bind (f := fun as => (pure (a :: as) : Reader (List α))) (ih fun a ha => h a (.tail _ ha))
      (reads_pure (a :: as))
    rw [List.append_nil] at hrest
    exact (h a (.head _)).bind hrest

/-! ## What has been read -/

theorem bind_eq_some {f : α → Reader β} {rest : List UInt8} (h : (r >>= f) bs = some (b, rest)) :
    ∃ a bs', r bs = some (a, bs') ∧ f a bs' = some (b, rest) := by
  obtain ⟨⟨a, bs'⟩, hr, hf⟩ := Option.bind_eq_some_iff.mp h
  exact ⟨a, bs', hr, hf⟩

theorem map_eq_some {f : α → β} {rest : List UInt8} (h : (f <$> r) bs = some (b, rest)) :
    ∃ a, r bs = some (a, rest) ∧ f a = b := by
  obtain ⟨⟨a, bs'⟩, hr, hf⟩ := Option.bind_eq_some_iff.mp h
  cases hf
  exact ⟨a, hr, rfl⟩

theorem take_eq_some {n : Nat} {front rest : List UInt8} (h : take n bs = some (front, rest)) : front.length = n ∧
    bs = front ++ rest := by
  unfold take at h
  split at h
  · next hn =>
    cases h
    exact ⟨List.length_take_of_le hn, (List.take_append_drop n bs).symm⟩
  · cases h

theorem littleEndian_eq_some {n v : Nat} {rest : List UInt8} (h : littleEndian n bs = some (v, rest)) : v < 256 ^ n ∧
    bs = packLittleEndian n v ++ rest := by
  obtain ⟨front, bs', htake, hvalue⟩ := bind_eq_some h
  obtain ⟨hlength, rfl⟩ := take_eq_some htake
  cases hvalue
  have hreverse : front.reverse.length = n := by rw [List.length_reverse, hlength]
  have hlt := Bytes.bigEndian_lt front.reverse
  have hdigits := Bytes.digits_bigEndian front.reverse
  rw [hreverse] at hlt hdigits
  exact ⟨hlt, by rw [packLittleEndian, hdigits, List.reverse_reverse]⟩

end Reading
