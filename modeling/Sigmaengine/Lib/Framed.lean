import Sigmaengine.Lib.Bytes

/-!
# Logs of framed records

A log holds records one after the other, each followed by the place it starts at as an eight-byte word.  Its
index holds those words alone: the entry of record `k` lies at `8 * k`.
-/

namespace Framed

/-! ## Words -/

/-- Eight bytes, least significant first. -/
def word (n : Nat) : List UInt8 := (Bytes.digits 8 n).reverse

/-- The number in eight bytes. -/
def number (bs : List UInt8) : Nat := Bytes.bigEndian bs.reverse

@[simp] theorem length_word (n : Nat) : (word n).length = 8 := by
  rw [word, List.length_reverse, Bytes.length_digits]

theorem number_word {n : Nat} (h : n < 2 ^ 64) : number (word n) = n := by
  rw [number, word, List.reverse_reverse]
  exact Bytes.bigEndian_digits h

/-! ## The log and its index -/

variable {α : Type} (pack : α → List UInt8)

/-- The bytes of the records, the first of which starts at `start`. -/
def logFrom : Nat → List α → List UInt8
  | _, [] => []
  | start, a :: as => pack a ++ word start ++ logFrom (start + (pack a).length + 8) as

/-- The index of the same records. -/
def indexFrom : Nat → List α → List UInt8
  | _, [] => []
  | start, a :: as => word start ++ indexFrom (start + (pack a).length + 8) as

/-- Where the records end. -/
def endFrom : Nat → List α → Nat
  | start, [] => start
  | start, a :: as => endFrom (start + (pack a).length + 8) as

/-- Where the last record starts. -/
def lastFrom : Nat → List α → Nat
  | start, [] => start
  | start, [_] => start
  | start, a :: as => lastFrom (start + (pack a).length + 8) as

theorem endFrom_append (start : Nat) (as bs : List α) :
    endFrom pack start (as ++ bs) = endFrom pack (endFrom pack start as) bs := by
  induction as generalizing start with
  | nil => rfl
  | cons a as ih => exact ih _

theorem logFrom_append (start : Nat) (as bs : List α) :
    logFrom pack start (as ++ bs) = logFrom pack start as ++ logFrom pack (endFrom pack start as) bs := by
  induction as generalizing start with
  | nil => rfl
  | cons a as ih => simp only [List.cons_append, logFrom, endFrom, ih, List.append_assoc]

theorem indexFrom_append (start : Nat) (as bs : List α) :
    indexFrom pack start (as ++ bs) = indexFrom pack start as ++ indexFrom pack (endFrom pack start as) bs := by
  induction as generalizing start with
  | nil => rfl
  | cons a as ih => simp only [List.cons_append, indexFrom, endFrom, ih, List.append_assoc]

/-- The log is as long as its records reach. -/
theorem endFrom_eq (start : Nat) (as : List α) :
    endFrom pack start as = start + (logFrom pack start as).length := by
  induction as generalizing start with
  | nil => rfl
  | cons a as ih =>
    rw [endFrom, ih, logFrom]
    simp only [List.length_append, length_word]
    omega

theorem length_logFrom (as : List α) : (logFrom pack 0 as).length = endFrom pack 0 as := by
  rw [endFrom_eq, Nat.zero_add]

@[simp] theorem length_indexFrom (start : Nat) (as : List α) :
    (indexFrom pack start as).length = 8 * as.length := by
  induction as generalizing start with
  | nil => rfl
  | cons a as ih =>
    simp only [indexFrom, List.length_append, length_word, ih, List.length_cons]
    omega

theorem le_endFrom (start : Nat) (as : List α) : start + 8 * as.length ≤ endFrom pack start as := by
  induction as generalizing start with
  | nil => exact Nat.le_refl _
  | cons a as ih =>
    have htail := ih (start + (pack a).length + 8)
    rw [endFrom, List.length_cons]
    omega

theorem le_lastFrom (start : Nat) (as : List α) : start ≤ lastFrom pack start as := by
  induction as generalizing start with
  | nil => exact Nat.le_refl _
  | cons a as ih =>
    cases as with
    | nil => exact Nat.le_refl _
    | cons b bs =>
      have htail := ih (start + (pack a).length + 8)
      rw [lastFrom]
      · omega
      · exact List.cons_ne_nil _ _

theorem lastFrom_concat (start : Nat) (as : List α) (a : α) :
    lastFrom pack start (as ++ [a]) = endFrom pack start as := by
  induction as generalizing start with
  | nil => rfl
  | cons b as ih =>
    rw [List.cons_append, endFrom, ← ih]
    cases as <;> rfl

/-- Of two logs that begin alike the longer one has its last record later. -/
theorem lastFrom_lt (start : Nat) {as bs : List α} (has : as ≠ []) (hbs : bs ≠ []) :
    lastFrom pack start as < lastFrom pack start (as ++ bs) := by
  obtain ⟨as, a, rfl⟩ := (List.eq_nil_or_concat as).resolve_left has
  obtain ⟨bs, b, rfl⟩ := (List.eq_nil_or_concat bs).resolve_left hbs
  rw [List.concat_eq_append, List.concat_eq_append, lastFrom_concat, ← List.append_assoc, lastFrom_concat,
    endFrom_append, endFrom_append]
  have hrest := le_endFrom pack (endFrom pack (endFrom pack start as) [a]) bs
  simp only [endFrom] at *
  omega

/-- **The last word of a log** is the start of its last record, -/
theorem logFrom_concat (as : List α) (a : α) :
    logFrom pack 0 (as ++ [a]) = logFrom pack 0 as ++ pack a ++ word (endFrom pack 0 as) := by
  rw [logFrom_append]
  simp [logFrom]

/-- and so is the last entry of its index. -/
theorem indexFrom_concat (as : List α) (a : α) :
    indexFrom pack 0 (as ++ [a]) = indexFrom pack 0 as ++ word (endFrom pack 0 as) := by
  rw [indexFrom_append]
  simp [indexFrom]

theorem take_indexFrom {as : List α} {k : Nat} (hk : k ≤ as.length) :
    (indexFrom pack 0 as).take (8 * k) = indexFrom pack 0 (as.take k) := by
  conv_lhs => rw [← List.take_append_drop k as]
  rw [indexFrom_append, List.take_left']
  rw [length_indexFrom, List.length_take, Nat.min_eq_left hk]

end Framed
