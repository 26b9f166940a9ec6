import Sigmaengine.Lib.Radix
import Sigmaengine.Protocol.Types

/-!
# Base58

Keys are written in base 58, one digit `1` for each zero byte at the front.  The text that is written is the only one that is
read as these bytes, up to spaces around it.

Main result: `fromBase58_eq_some`.
-/

namespace Sigmaengine

open Radix

/-! ## `base58.cpp` -/

/-- `isspace`. -/
def isspace (c : UInt8) : Bool := c == 32 || (9 ≤ c && c ≤ 13)

def pszBase58 : Bytes := ascii
  ['1', '2', '3', '4', '5', '6', '7', '8', '9', 'A', 'B', 'C', 'D', 'E', 'F', 'G', 'H', 'J', 'K', 'L', 'M', 'N', 'P', 'Q',
    'R', 'S', 'T', 'U', 'V', 'W', 'X', 'Y', 'Z', 'a', 'b', 'c', 'd', 'e', 'f', 'g', 'h', 'i', 'j', 'k', 'm', 'n', 'o', 'p',
    'q', 'r', 's', 't', 'u', 'v', 'w', 'x', 'y', 'z']

/-- `pszBase58[ i ]`. -/
def base58Char (i : Nat) : UInt8 := pszBase58.getD i 0

/-- `strchr( pszBase58, c ) - pszBase58`. -/
def strchr (c : UInt8) : Option Nat := pszBase58.idxOf? c

/-- `EncodeBase58`: the characters are collected from the last one on. -/
def encodeBase58 (bytes : Bytes) : Bytes :=
  let bn := Nat.ofDigits 256 (bytes.reverse.map UInt8.toNat)
  let str := (Nat.digits 58 bn).map base58Char
  let zeros := (bytes.takeWhile (· == 0)).map fun _ => base58Char 0
  (str ++ zeros).reverse

/-- `getvch`: little endian, with a sign byte when the highest bit is set. -/
def getvch (bn : Nat) : Bytes :=
  let vch := (Nat.digits 256 bn).map UInt8.ofNat
  match vch.getLast? with
  | some top => if 128 ≤ top then vch ++ [0] else vch
  | none => []

/-- Trim off the sign byte if present. -/
def trimSign (vch : Bytes) : Bytes :=
  match vch.reverse with
  | 0 :: top :: rest => if 128 ≤ top then (top :: rest).reverse else vch
  | _ => vch

/-- The loop over the characters; spaces may follow. -/
def readBase58 : Nat → Bytes → Option Nat
  | bn, [] => some bn
  | bn, c :: cs =>
    match strchr c with
    | some i => readBase58 (bn * 58 + i) cs
    | none => if ((c :: cs).dropWhile isspace).isEmpty then some bn else none

/-- `DecodeBase58`. -/
def decodeBase58 (psz : Bytes) : Option Bytes :=
  let psz := psz.dropWhile isspace
  (readBase58 0 psz).map fun bn =>
    let zeros := (psz.takeWhile (· == base58Char 0)).map fun _ => 0
    zeros ++ (trimSign (getvch bn)).reverse

/-- `c_str()` ends at the first zero byte. -/
def untilZero (s : Bytes) : Bytes := s.takeWhile (· != 0)

/-- `to_base58`. -/
def toBase58 (d : Bytes) : Bytes := untilZero (encodeBase58 d)

/-- `from_base58`. -/
def fromBase58 (s : Bytes) : Option Bytes := decodeBase58 (untilZero s)

/-! ## Characters and digits -/

variable {bytes cs trail : Bytes} {c : UInt8} {bn i n : Nat} {ds : List Nat}

theorem strchr_base58Char : ∀ i < 58, strchr (base58Char i) = some i := by decide

theorem base58Char_plain : ∀ i < 58, isspace (base58Char i) = false ∧ base58Char i ≠ 0 ∧ (base58Char i = base58Char 0 → i = 0) := by
  decide

theorem strchr_eq_some (h : strchr c = some i) : i < 58 ∧ base58Char i = c := by
  obtain ⟨hlt, hc, -⟩ := List.idxOf?_eq_some_iff.mp h
  refine ⟨hlt, ?_⟩
  rw [base58Char, List.getD_eq_getElem?_getD, List.getElem?_eq_getElem hlt, hc]
  rfl

theorem strchr_space (h : isspace c = true) : strchr c = none := by
  cases hc : strchr c with
  | none => rfl
  | some i =>
    obtain ⟨hi, rfl⟩ := strchr_eq_some hc
    rw [(base58Char_plain i hi).1] at h
    cases h

/-- **What is written**: the numeral in base 58. -/
theorem encodeBase58_eq (bytes : Bytes) : encodeBase58 bytes = (convert 256 58 (bytes.map UInt8.toNat)).map base58Char := by
  have hzeros : (bytes.takeWhile (· == 0)).map (fun _ => base58Char 0) =
      (leading (bytes.map UInt8.toNat)).map base58Char := by
    rw [leading, List.takeWhile_map, List.map_map]
    have hsame : ((fun n => n == 0) ∘ UInt8.toNat) = fun b : UInt8 => b == 0 := by
      funext b
      rw [Function.comp_apply, Bool.eq_iff_iff, beq_iff_eq, beq_iff_eq, ← UInt8.toNat_inj]
      rfl
    rw [hsame]
    refine List.map_congr_left fun b hb => ?_
    have hzero := List.mem_takeWhile_imp (p := fun b => b == 0) hb
    rw [Function.comp_apply, eq_of_beq hzero]
    rfl
  unfold encodeBase58 convert digits value
  dsimp only
  rw [hzeros, List.reverse_append, ← List.map_reverse, ← List.map_reverse, reverse_leading, ← List.map_reverse,
    ← List.map_append]

/-- Bytes that do not end in a zero are not changed by a sign byte that is trimmed off again. -/
theorem trimSign_sign {init : Bytes} {top : UInt8} (htop : top ≠ 0) :
    trimSign (if 128 ≤ top then init ++ [top] ++ [0] else init ++ [top]) = init ++ [top] := by
  by_cases hsign : 128 ≤ top
  · rw [if_pos hsign]
    unfold trimSign
    rw [List.reverse_concat, List.reverse_concat]
    simp only [if_pos hsign, List.reverse_cons, List.reverse_reverse]
  · rw [if_neg hsign]
    unfold trimSign
    rw [List.reverse_concat]
    split
    · next hzero =>
      rw [List.cons.injEq] at hzero
      exact absurd hzero.1 htop
    · rfl

theorem trimSign_getvch (bn : Nat) : trimSign (getvch bn) = (Nat.digits 256 bn).map UInt8.ofNat := by
  rcases List.eq_nil_or_concat (Nat.digits 256 bn) with hnil | ⟨init, top, hdigits⟩
  · rw [getvch, hnil]
    rfl
  · have hlast : top ∈ (digits 256 bn).head? := by
      rw [digits, hdigits, List.concat_eq_append, List.head?_reverse, List.getLast?_concat]
      rfl
    have hlt : top < 256 := by
      refine Nat.digits_lt_base (by decide : 1 < 256) (m := bn) ?_
      rw [hdigits]
      simp
    have htop : UInt8.ofNat top ≠ 0 := by
      rw [Ne, ← UInt8.toNat_inj, UInt8.toNat_ofNat', Nat.mod_eq_of_lt hlt]
      exact head_digits hlast
    unfold getvch
    rw [hdigits, List.concat_eq_append, List.map_append, List.map_singleton]
    dsimp only
    rw [List.getLast?_concat]
    exact trimSign_sign htop

theorem readBase58_digits (hds : ∀ d ∈ ds, d < 58) : readBase58 bn (ds.map base58Char ++ cs) =
    readBase58 (ds.foldl (fun n d => n * 58 + d) bn) cs := by
  induction ds generalizing bn with
  | nil => rfl
  | cons d ds ih =>
    rw [List.map_cons, List.cons_append, readBase58, strchr_base58Char d (hds d List.mem_cons_self)]
    exact ih fun d' hd' => hds d' (List.mem_cons_of_mem d hd')

theorem readBase58_spaces (htrail : ∀ c ∈ trail, isspace c = true) : readBase58 bn trail = some bn := by
  cases trail with
  | nil => rfl
  | cons c cs =>
    rw [readBase58, strchr_space (htrail c List.mem_cons_self), List.dropWhile_eq_nil_iff.mpr htrail]
    rfl

theorem readBase58_eq_some (h : readBase58 bn cs = some n) : ∃ (ds : List Nat) (trail : Bytes), cs = ds.map base58Char ++ trail ∧
    (∀ d ∈ ds, d < 58) ∧ (∀ c ∈ trail, isspace c = true) := by
  induction cs generalizing bn with
  | nil => exact ⟨[], [], rfl, by simp, by simp⟩
  | cons c cs ih =>
    rw [readBase58] at h
    split at h
    · next i hc =>
      obtain ⟨hi, rfl⟩ := strchr_eq_some hc
      obtain ⟨ds, trail, rfl, hds, htrail⟩ := ih h
      refine ⟨i :: ds, trail, rfl, fun d hd => ?_, htrail⟩
      rcases List.mem_cons.mp hd with rfl | hd
      · exact hi
      · exact hds d hd
    · split at h
      · next hspaces =>
        exact ⟨[], c :: cs, rfl, by simp, List.dropWhile_eq_nil_iff.mp (List.isEmpty_iff.mp hspaces)⟩
      · cases h

/-! ## Round trips -/

theorem map_toNat_ofNat (hds : ∀ d ∈ ds, d < 256) : (ds.map UInt8.ofNat).map UInt8.toNat = ds := by
  rw [List.map_map]
  refine (List.map_congr_left fun d hd => ?_).trans (List.map_id ds)
  rw [Function.comp_apply, UInt8.toNat_ofNat', Nat.mod_eq_of_lt (hds d hd)]
  rfl

theorem map_ofNat_toNat (bytes : Bytes) : (bytes.map UInt8.toNat).map UInt8.ofNat = bytes := by
  rw [List.map_map]
  refine (List.map_congr_left fun b _ => ?_).trans (List.map_id bytes)
  exact UInt8.ofNat_toNat

theorem toNat_lt {d : Nat} (h : d ∈ bytes.map UInt8.toNat) : d < 256 := by
  obtain ⟨b, -, rfl⟩ := List.mem_map.mp h
  exact b.toNat_lt

theorem untilZero_eq (h : ∀ c ∈ cs, c ≠ 0) : untilZero cs = cs := by
  unfold untilZero
  exact List.takeWhile_eq_self_iff.mpr fun c hc => by simpa using h c hc

/-- The text has no zero byte. -/
theorem toBase58_eq (bytes : Bytes) : toBase58 bytes = (convert 256 58 (bytes.map UInt8.toNat)).map base58Char := by
  unfold toBase58
  rw [encodeBase58_eq]
  refine untilZero_eq fun c hc => ?_
  obtain ⟨d, hd, rfl⟩ := List.mem_map.mp hc
  exact (base58Char_plain d (mem_convert (by decide) hd)).2.1

theorem untilZero_toBase58 (bytes : Bytes) : untilZero (toBase58 bytes) = toBase58 bytes := by
  unfold toBase58 untilZero
  exact List.takeWhile_idem

/-- The digits `1` at the front are the zeros at the front. -/
theorem takeWhile_digits (hds : ∀ d ∈ ds, d < 58) (htrail : ∀ c ∈ trail, isspace c = true) :
    ((ds.map base58Char ++ trail).takeWhile (· == base58Char 0)).map (fun _ => (0 : UInt8)) =
      (leading ds).map UInt8.ofNat := by
  induction ds with
  | nil =>
    cases trail with
    | nil => rfl
    | cons c cs =>
      have hne : ¬ (c == base58Char 0) = true := by
        intro hc
        have hspace := htrail c List.mem_cons_self
        rw [eq_of_beq hc, (base58Char_plain 0 (by decide)).1] at hspace
        cases hspace
      rw [List.map_nil, List.nil_append, List.takeWhile_cons_of_neg (p := fun x => x == base58Char 0) hne]
      rfl
  | cons d ds ih =>
    have hd := hds d List.mem_cons_self
    unfold leading
    rw [List.map_cons, List.cons_append]
    by_cases hzero : d = 0
    · rw [hzero, List.takeWhile_cons_of_pos (p := fun x => x == base58Char 0) (beq_self_eq_true _),
        List.takeWhile_cons_of_pos rfl, List.map_cons, List.map_cons]
      exact congrArg (0 :: ·) (ih fun d' hd' => hds d' (List.mem_cons_of_mem d hd'))
    · rw [List.takeWhile_cons_of_neg, List.takeWhile_cons_of_neg]
      · rfl
      · rwa [beq_iff_eq]
      · intro hc
        exact hzero ((base58Char_plain d hd).2.2 (eq_of_beq hc))

/-- **What is read**: the bytes of the numeral, behind spaces. -/
theorem decodeBase58_digits {psz : Bytes} (hds : ∀ d ∈ ds, d < 58) (htrail : ∀ c ∈ trail, isspace c = true)
    (hpsz : psz.dropWhile isspace = ds.map base58Char ++ trail) :
    decodeBase58 psz = some ((convert 58 256 ds).map UInt8.ofNat) := by
  unfold decodeBase58
  dsimp only
  rw [hpsz, readBase58_digits hds, foldl_eq_value, readBase58_spaces htrail, Option.map_some, takeWhile_digits hds htrail,
    trimSign_getvch, ← List.map_reverse, convert, List.map_append]
  rfl

/-- **Base 58 texts**: the text that is written, and spaces around it, are all that is read as the bytes. -/
theorem fromBase58_eq_some {s : Bytes} : fromBase58 s = some bytes ↔ ∃ lead trail, (∀ c ∈ lead, isspace c = true) ∧
    (∀ c ∈ trail, isspace c = true) ∧ untilZero s = lead ++ toBase58 bytes ++ trail := by
  unfold fromBase58
  generalize untilZero s = psz
  constructor
  · intro h
    obtain ⟨n, hread, -⟩ := Option.map_eq_some_iff.mp h
    obtain ⟨ds, trail, hpsz, hds, htrail⟩ := readBase58_eq_some hread
    rw [decodeBase58_digits hds htrail hpsz, Option.some.injEq] at h
    refine ⟨psz.takeWhile isspace, trail, fun c hc => List.mem_takeWhile_imp hc, htrail, ?_⟩
    rw [toBase58_eq, ← h, map_toNat_ofNat fun d hd => mem_convert (by decide) hd, convert_convert (by decide) hds,
      List.append_assoc, ← hpsz, List.takeWhile_append_dropWhile]
  · rintro ⟨lead, trail, hlead, htrail, rfl⟩
    have hds : ∀ d ∈ convert 256 58 (bytes.map UInt8.toNat), d < 58 := fun d hd => mem_convert (by decide) hd
    have hbytes : (convert 58 256 (convert 256 58 (bytes.map UInt8.toNat))).map UInt8.ofNat = bytes := by
      rw [convert_convert (by decide) fun d hd => toNat_lt hd, map_ofNat_toNat]
    rw [toBase58_eq, List.append_assoc]
    cases hempty : convert 256 58 (bytes.map UInt8.toNat) with
    | nil =>
      rw [hempty] at hbytes hds
      rw [← hbytes]
      have hnone : ∀ c ∈ ([] : Bytes), isspace c = true := by simp
      refine decodeBase58_digits hds hnone ?_
      refine List.dropWhile_eq_nil_iff.mpr fun c hc => ?_
      rcases List.mem_append.mp hc with hc | hc
      · exact hlead c hc
      · exact htrail c hc
    | cons d ds =>
      rw [hempty] at hbytes hds
      rw [← hbytes]
      refine decodeBase58_digits hds htrail ?_
      rw [List.dropWhile_append_of_pos hlead, List.map_cons, List.cons_append, List.dropWhile_cons_of_neg]
      rw [(base58Char_plain d (hds d List.mem_cons_self)).1]
      exact Bool.false_ne_true

end Sigmaengine
