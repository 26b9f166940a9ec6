import Mathlib.Data.List.DropRight
import Sigmaengine.Lib.Decimal
import Sigmaengine.Token.Symbols

/-!
# Assets as text

`asset::to_string` and `asset::from_string`.  Both treat the whole part and the fraction of an amount apart:
the fraction is printed and read behind a leading one, and only the whole part has a sign.
-/

namespace Sigmaengine

open Token Decimal

/-! ## The source -/

/-- `std::isspace` in the classic locale. -/
def isSpace (c : UInt8) : Bool := c == 32 || (9 ≤ c && c ≤ 13)

/-- `fc::trim`. -/
def trim (s : Bytes) : Bytes := (s.dropWhile isSpace).rdropWhile isSpace

/-- `fc::to_string` of an `int64_t`. -/
def int64ToString (n : Int) : Bytes := if n < 0 then 45 :: decimal n.natAbs else decimal n.natAbs

/-- `asset::to_string`. -/
def Asset.toString (a : Asset) : Except Error Bytes :=
  match precision a.symbol with
  | .error e => .error e
  | .ok prec =>
    let whole := int64ToString (a.amount.tdiv prec)
    let number :=
      if 1 < prec then whole ++ 46 :: (int64ToString (prec + a.amount.tmod prec)).drop 1 else whole
    match symbolName a.symbol with
    | .error e => .error e
    | .ok name => .ok (number ++ 32 :: name)

/-- `asset::set_decimals` and the `asset::precision` it leads to; the argument is a `uint8_t`. -/
def setDecimals (digits : Nat) : Except Error (UInt8 × Int) :=
  if UInt8.ofNat digits < 15 then .ok (UInt8.ofNat digits, 10 ^ (UInt8.ofNat digits).toNat)
  else .error (.assertion "d < 15")

/-- The amount and the decimals of a number with a dot. -/
def readFraction (intpart fract : Bytes) : Except Error (UInt8 × Int) :=
  let fractpart := 49 :: fract
  match setDecimals (fractpart.length - 1) with
  | .error e => .error e
  | .ok (d, prec) =>
    match toInt64 intpart with
    | .error e => .error e
    | .ok whole =>
      let amount := wrapInt64 (whole * prec)
      match toInt64 fractpart with
      | .error e => .error e
      | .ok part => .ok (d, wrapInt64 (wrapInt64 (amount + part) - prec))

/-- The symbol behind the space: at most six bytes. -/
def readSymbol (d : UInt8) (amount : Int) (symbol : Bytes) : Except Error Asset :=
  if symbol.length ≤ 6 then .ok ⟨amount, symbolOf d symbol⟩ else .error (.assertion "symbol_size <= 6")

/-- `asset::from_string`. -/
def Asset.fromString (text : Bytes) : Except Error Asset :=
  let s := trim text
  match s.idxOf? 32, s.idxOf? 46 with
  | none, _ => .error (.assertion "space_pos != std::string::npos")
  | some space, some dot =>
    if space ≤ dot then .error (.assertion "space_pos > dot_pos")
    else
      match readFraction (s.take dot) ((s.drop (dot + 1)).take (space - dot - 1)) with
      | .error e => .error e
      | .ok (d, amount) => readSymbol d amount (s.drop (space + 1))
  | some space, none =>
    match toInt64 (s.take space) with
    | .error e => .error e
    | .ok amount => readSymbol 0 amount (s.drop (space + 1))

/-! ## Numerals -/

/-- Digits behind an optional sign. -/
def Numeral (negative : Bool) (digits text : Bytes) : Prop :=
  digits ≠ [] ∧ Digits digits ∧
    (text = 45 :: digits ∧ negative = true ∨ (text = digits ∨ text = 43 :: digits) ∧ negative = false)

/-- A number with its sign. -/
def signed (negative : Bool) (n : Nat) : Int := if negative then -n else n

theorem isDigit_iff {c : UInt8} : isDigit c = true ↔ 48 ≤ c ∧ c ≤ 57 := by simp [isDigit]

theorem digits_eq_some {s : Bytes} {n m : Nat} :
    Token.digits n s = some m ↔ Digits s ∧ m = n * 10 ^ s.length + valueOf s := by
  induction s generalizing n with
  | nil =>
    simp [Token.digits, Digits, valueOf, eq_comm]
  | cons c cs ih =>
    unfold Token.digits
    by_cases hc : isDigit c = true
    · have hhead := isDigit_iff.mp hc
      rw [if_pos hc, ih, valueOf_cons, List.length_cons]
      have hcons : Digits (c :: cs) ↔ Digits cs := by
        unfold Digits
        rw [List.forall_mem_cons]
        exact and_iff_right hhead
      have hvalue : (10 * n + (c.toNat - 48)) * 10 ^ cs.length + valueOf cs =
          n * 10 ^ (cs.length + 1) + ((c.toNat - 48) * 10 ^ cs.length + valueOf cs) := by ring
      rw [hcons, hvalue]
    · rw [if_neg hc]
      refine iff_of_false (by simp) fun h => hc (isDigit_iff.mpr (h.1 c (.head _)))

section Numerals

variable {negative : Bool} {digits s : Bytes} {c : UInt8} {w : Int}

theorem numeral_minus : Numeral negative digits (45 :: s) ↔ negative = true ∧ digits = s ∧ s ≠ [] ∧ Digits s := by
  constructor
  · rintro ⟨hne, hdigits, ⟨heq, rfl⟩ | ⟨rfl | heq, rfl⟩⟩
    · obtain rfl := (List.cons.inj heq).2
      exact ⟨rfl, rfl, hne, hdigits⟩
    · exact absurd (hdigits 45 (.head _)) (by decide)
    · simp at heq
  · rintro ⟨rfl, rfl, hne, hdigits⟩
    exact ⟨hne, hdigits, .inl ⟨rfl, rfl⟩⟩

theorem numeral_plus : Numeral negative digits (43 :: s) ↔ negative = false ∧ digits = s ∧ s ≠ [] ∧ Digits s := by
  constructor
  · rintro ⟨hne, hdigits, ⟨heq, rfl⟩ | ⟨rfl | heq, rfl⟩⟩
    · simp at heq
    · exact absurd (hdigits 43 (.head _)) (by decide)
    · obtain rfl := (List.cons.inj heq).2
      exact ⟨rfl, rfl, hne, hdigits⟩
  · rintro ⟨rfl, rfl, hne, hdigits⟩
    exact ⟨hne, hdigits, .inr ⟨.inr rfl, rfl⟩⟩

theorem numeral_plain (hminus : c ≠ 45) (hplus : c ≠ 43) :
    Numeral negative digits (c :: s) ↔ negative = false ∧ digits = c :: s ∧ Digits (c :: s) := by
  constructor
  · rintro ⟨hne, hdigits, ⟨heq, rfl⟩ | ⟨rfl | heq, rfl⟩⟩
    · exact absurd (List.cons.inj heq).1 hminus
    · exact ⟨rfl, rfl, hdigits⟩
    · exact absurd (List.cons.inj heq).1 hplus
  · rintro ⟨rfl, rfl, hdigits⟩
    exact ⟨List.cons_ne_nil _ _, hdigits, .inr ⟨.inl rfl, rfl⟩⟩

theorem not_numeral_nil : ¬ Numeral negative digits [] := by
  rintro ⟨hne, -, ⟨heq, -⟩ | ⟨rfl | heq, -⟩⟩
  · cases heq
  · exact hne rfl
  · cases heq

theorem Numeral.unique {negative' : Bool} {digits' : Bytes} (h : Numeral negative digits s)
    (h' : Numeral negative' digits' s) : negative = negative' ∧ digits = digits' := by
  cases s with
  | nil => exact absurd h not_numeral_nil
  | cons c cs =>
    by_cases hminus : c = 45
    · subst hminus
      obtain ⟨rfl, rfl, -⟩ := numeral_minus.mp h
      obtain ⟨rfl, rfl, -⟩ := numeral_minus.mp h'
      exact ⟨rfl, rfl⟩
    · by_cases hplus : c = 43
      · subst hplus
        obtain ⟨rfl, rfl, -⟩ := numeral_plus.mp h
        obtain ⟨rfl, rfl, -⟩ := numeral_plus.mp h'
        exact ⟨rfl, rfl⟩
      · obtain ⟨rfl, rfl, -⟩ := (numeral_plain hminus hplus).mp h
        obtain ⟨rfl, rfl, -⟩ := (numeral_plain hminus hplus).mp h'
        exact ⟨rfl, rfl⟩

/-- Neither a zero byte nor a space nor a dot. -/
theorem Numeral.not_mem (h : Numeral negative digits s) (hc : c = 0 ∨ c = 32 ∨ c = 46) : c ∉ s := by
  have hdigit : c ∉ digits := h.2.1.not_mem (by rcases hc with rfl | rfl | rfl <;> decide)
  have hsign : c ≠ 45 ∧ c ≠ 43 := by rcases hc with rfl | rfl | rfl <;> decide
  rcases h.2.2 with ⟨rfl, -⟩ | ⟨rfl | rfl, -⟩
  · exact List.not_mem_cons_of_ne_of_not_mem hsign.1 hdigit
  · exact hdigit
  · exact List.not_mem_cons_of_ne_of_not_mem hsign.2 hdigit

/-- What `lexical_cast` makes of a text without zero bytes. -/
def readNumeral : Bytes → Option Int
  | [] => none
  | c :: cs =>
    if c = 45 then if cs = [] then none else (Token.digits 0 cs).map fun n : Nat => -(n : Int)
    else if c = 43 then if cs = [] then none else (Token.digits 0 cs).map fun n : Nat => (n : Int)
    else (Token.digits 0 (c :: cs)).map fun n : Nat => (n : Int)

theorem toInt64_eq (s : Bytes) : toInt64 s =
    match readNumeral (cStr s) with
    | some n => if InInt64 n then .ok n else .error .parse
    | none => .error .parse := by
  unfold toInt64
  cases cStr s with
  | nil => rfl
  | cons c cs =>
    simp only [readNumeral]
    cases Token.digits 0 cs <;> cases Token.digits 0 (c :: cs) <;> rfl

theorem map_digits_eq_some {g : Nat → Int} :
    (Token.digits 0 s).map g = some w ↔ Digits s ∧ w = g (valueOf s) := by
  have hread : ∀ n, Token.digits 0 s = some n ↔ Digits s ∧ n = valueOf s := by
    intro n
    rw [digits_eq_some, Nat.zero_mul, Nat.zero_add]
  rw [Option.map_eq_some_iff]
  constructor
  · rintro ⟨n, hn, rfl⟩
    obtain ⟨hdigits, rfl⟩ := (hread n).mp hn
    exact ⟨hdigits, rfl⟩
  · rintro ⟨hdigits, rfl⟩
    exact ⟨_, (hread _).mpr ⟨hdigits, rfl⟩, rfl⟩

theorem readNumeral_eq_some :
    readNumeral s = some w ↔ ∃ negative digits, Numeral negative digits s ∧ w = signed negative (valueOf digits) := by
  cases s with
  | nil => exact iff_of_false (by simp [readNumeral]) fun ⟨_, _, h, _⟩ => not_numeral_nil h
  | cons c cs =>
    simp only [readNumeral]
    by_cases hminus : c = 45
    · subst hminus
      by_cases hcs : cs = []
      · simp [hcs, numeral_minus]
      · rw [if_pos rfl, if_neg hcs, map_digits_eq_some]
        simp [hcs, numeral_minus, signed]
    · rw [if_neg hminus]
      by_cases hplus : c = 43
      · subst hplus
        by_cases hcs : cs = []
        · simp [hcs, numeral_plus]
        · rw [if_pos rfl, if_neg hcs, map_digits_eq_some]
          simp [hcs, numeral_plus, signed]
      · rw [if_neg hplus, map_digits_eq_some]
        simp [numeral_plain hminus hplus, signed]

/-- **`to_int64`** reads what stands before the first zero byte. -/
theorem toInt64_eq_ok :
    toInt64 s = .ok w ↔
      (∃ negative digits, Numeral negative digits (cStr s) ∧ w = signed negative (valueOf digits)) ∧ InInt64 w := by
  rw [toInt64_eq, ← readNumeral_eq_some]
  cases hread : readNumeral (cStr s) with
  | none => simp
  | some n =>
    by_cases hn : InInt64 n
    · simp only [if_pos hn, Except.ok.injEq, Option.some.injEq]
      refine ⟨?_, fun h => h.1⟩
      rintro rfl
      exact ⟨rfl, hn⟩
    · simp only [if_neg hn, reduceCtorEq, Option.some.injEq, false_iff]
      rintro ⟨rfl, h⟩
      exact hn h

theorem cStr_of_not_mem (h : 0 ∉ s) : cStr s = s := by
  unfold cStr
  rw [List.takeWhile_eq_self_iff]
  intro c hc
  rw [bne_iff_ne]
  rintro rfl
  exact h hc

theorem numeral_int64ToString (n : Int) : Numeral (decide (n < 0)) (decimal n.natAbs) (int64ToString n) := by
  refine ⟨decimal_ne_nil _, digits_decimal _, ?_⟩
  unfold int64ToString
  by_cases hn : n < 0
  · simp [hn]
  · simp [hn]

/-- **A printed number** is read back. -/
theorem toInt64_int64ToString {n : Int} (h : InInt64 n) : toInt64 (int64ToString n) = .ok n := by
  have hnumeral := numeral_int64ToString n
  refine toInt64_eq_ok.mpr ⟨⟨decide (n < 0), decimal n.natAbs, ?_, ?_⟩, h⟩
  · rw [cStr_of_not_mem (hnumeral.not_mem (.inl rfl))]
    exact hnumeral
  · rw [valueOf_decimal]
    unfold signed
    by_cases hn : n < 0
    · simp only [hn, decide_true, if_true]
      omega
    · simp only [hn, decide_false, Bool.false_eq_true, if_false]
      omega

end Numerals

/-! ## Wrapping arithmetic -/

theorem inInt64_wrapInt64 (n : Int) : InInt64 (wrapInt64 n) := by
  have hlo := Int.le_bmod (x := n) (m := 18446744073709551616) (by norm_num)
  have hhi := Int.bmod_lt (x := n) (m := 18446744073709551616) (by norm_num)
  unfold InInt64 int64Min int64Max wrapInt64
  omega

theorem wrapInt64_eq_self_iff {n : Int} : wrapInt64 n = n ↔ InInt64 n := by
  constructor
  · intro h
    rw [← h]
    exact inInt64_wrapInt64 n
  · rintro ⟨hlo, hhi⟩
    unfold int64Min at hlo
    unfold int64Max at hhi
    exact Int.bmod_eq_of_le (by omega) (by omega)

/-- The three steps of the code wrap around as one. -/
theorem wrapInt64_steps (a b c : Int) :
    wrapInt64 (wrapInt64 (wrapInt64 a + b) - c) = wrapInt64 (a + (b - c)) := by
  unfold wrapInt64
  rw [Int.bmod_sub_bmod, Int.add_sub_assoc, Int.bmod_add_bmod]

/-- Numbers that wrap to the same differ by a multiple of 2^64. -/
theorem dvd_of_wrapInt64_eq {a b : Int} (h : wrapInt64 a = b) : (18446744073709551616 : Int) ∣ a - b := by
  unfold wrapInt64 at h
  have hdiv := Int.bmod_add_bdiv a 18446744073709551616
  rw [h] at hdiv
  exact ⟨a.bdiv 18446744073709551616, by omega⟩

/-! ## The parts of a text -/

theorem idxOf?_append {a b : Bytes} {c : UInt8} (h : c ∉ a) : (a ++ c :: b).idxOf? c = some a.length := by
  induction a with
  | nil => simp [List.idxOf?_cons]
  | cons x xs ih =>
    rw [List.mem_cons, not_or] at h
    obtain ⟨hx, hxs⟩ := h
    rw [List.cons_append, List.idxOf?_cons, if_neg (by simpa using Ne.symm hx), ih hxs]
    rfl

theorem split_of_idxOf? {s : Bytes} {c : UInt8} {i : Nat} (h : s.idxOf? c = some i) :
    s = s.take i ++ c :: s.drop (i + 1) ∧ c ∉ s.take i ∧ i < s.length := by
  obtain ⟨hi, hc, hfirst⟩ := List.idxOf?_eq_some_iff.mp h
  refine ⟨?_, ?_, hi⟩
  · rw [← hc, ← List.drop_eq_getElem_cons hi, List.take_append_drop]
  · intro hmem
    obtain ⟨j, hj, heq⟩ := List.mem_take_iff_getElem.mp hmem
    exact hfirst j (by omega) heq

/-- The number before the first space, cut at its first dot, and the text behind the space. -/
structure Parts (text intpart : Bytes) (fract : Option Bytes) (symbol : Bytes) : Prop where
  eq : trim text = intpart ++ fract.elim [] (46 :: ·) ++ 32 :: symbol
  whole : 32 ∉ intpart ∧ 46 ∉ intpart
  part : ∀ f, fract = some f → 32 ∉ f

section Parts

variable {text intpart f symbol : Bytes} {fract : Option Bytes} {a : Asset}

theorem Parts.space (h : Parts text intpart fract symbol) : 32 ∉ intpart ++ fract.elim [] (46 :: ·) := by
  rw [List.mem_append, not_or]
  refine ⟨h.whole.1, ?_⟩
  cases hf : fract with
  | none => simp
  | some f => simpa using h.part f hf

theorem Parts.idxOf_space (h : Parts text intpart fract symbol) :
    (trim text).idxOf? 32 = some (intpart ++ fract.elim [] (46 :: ·)).length := by
  rw [h.eq]
  exact idxOf?_append h.space

theorem Parts.unique {intpart' symbol' : Bytes} {fract' : Option Bytes} (h : Parts text intpart fract symbol)
    (h' : Parts text intpart' fract' symbol') : intpart = intpart' ∧ fract = fract' ∧ symbol = symbol' := by
  have hlen := h.idxOf_space.symm.trans h'.idxOf_space
  obtain ⟨hnumber, hsymbol⟩ := List.append_inj (h.eq.symm.trans h'.eq) (Option.some.inj hlen)
  suffices hparts : intpart = intpart' ∧ fract = fract' from ⟨hparts.1, hparts.2, (List.cons.inj hsymbol).2⟩
  cases hf : fract with
  | none =>
    cases hf' : fract' with
    | none => simpa [hf, hf'] using hnumber
    | some f' =>
      refine absurd (h.whole.2) (not_not.mpr ?_)
      rw [show intpart = intpart' ++ 46 :: f' by simpa [hf, hf'] using hnumber]
      simp
  | some f =>
    cases hf' : fract' with
    | none =>
      refine absurd (h'.whole.2) (not_not.mpr ?_)
      rw [show intpart' = intpart ++ 46 :: f by simpa [hf, hf'] using hnumber.symm]
      simp
    | some f' =>
      have hdots : intpart ++ 46 :: f = intpart' ++ 46 :: f' := by simpa [hf, hf'] using hnumber
      have hplace : some intpart.length = some intpart'.length := by
        rw [← idxOf?_append (b := f) h.whole.2, hdots, idxOf?_append h'.whole.2]
      obtain ⟨hwhole, hpart⟩ := List.append_inj hdots (Option.some.inj hplace)
      exact ⟨hwhole, congrArg some (List.cons.inj hpart).2⟩

theorem fromString_fraction (h : Parts text intpart (some f) symbol) : Asset.fromString text =
    match readFraction intpart f with
    | .error e => .error e
    | .ok (d, amount) => readSymbol d amount symbol := by
  have htrim : trim text = intpart ++ 46 :: (f ++ 32 :: symbol) := by rw [h.eq]; simp
  have hspace : (trim text).idxOf? 32 = some (intpart.length + 1 + f.length) := by
    rw [h.idxOf_space]
    simp
    omega
  have hdot : (trim text).idxOf? 46 = some intpart.length := by
    rw [htrim]
    exact idxOf?_append h.whole.2
  have hwhole : (trim text).take intpart.length = intpart := by rw [htrim]; simp
  have hpart : ((trim text).drop (intpart.length + 1)).take (intpart.length + 1 + f.length - intpart.length - 1) = f := by
    rw [htrim, show intpart.length + 1 + f.length - intpart.length - 1 = f.length by omega]
    simp
  have hsymbol : (trim text).drop (intpart.length + 1 + f.length + 1) = symbol := by
    rw [htrim, show intpart ++ 46 :: (f ++ 32 :: symbol) = (intpart ++ 46 :: f ++ [32]) ++ symbol by simp,
      List.drop_left' (by simp; omega)]
  unfold Asset.fromString
  dsimp only
  rw [hspace, hdot]
  dsimp only
  rw [if_neg (by omega), hwhole, hpart, hsymbol]

theorem fromString_whole (h : Parts text intpart none symbol) (hdot : 46 ∉ symbol) : Asset.fromString text =
    match toInt64 intpart with
    | .error e => .error e
    | .ok amount => readSymbol 0 amount symbol := by
  have htrim : trim text = intpart ++ 32 :: symbol := by rw [h.eq]; simp
  have hspace : (trim text).idxOf? 32 = some intpart.length := by
    rw [htrim]
    exact idxOf?_append h.whole.1
  have hnone : (trim text).idxOf? 46 = none := by
    rw [htrim, List.idxOf?_eq_none_iff]
    simp [h.whole.2, hdot]
  have hwhole : (trim text).take intpart.length = intpart := by rw [htrim]; simp
  have hsymbol : (trim text).drop (intpart.length + 1) = symbol := by rw [htrim]; simp
  unfold Asset.fromString
  dsimp only
  rw [hspace, hnone]
  dsimp only
  rw [hwhole, hsymbol]

/-- A text that is accepted has these parts. -/
theorem parts_of_ok (h : Asset.fromString text = .ok a) :
    ∃ intpart fract symbol, Parts text intpart fract symbol ∧ (fract = none → 46 ∉ symbol) := by
  unfold Asset.fromString at h
  dsimp only at h
  cases hspace : (trim text).idxOf? 32 with
  | none => rw [hspace] at h; cases h
  | some space =>
    obtain ⟨hsplit, hfree, hlen⟩ := split_of_idxOf? hspace
    cases hdot : (trim text).idxOf? 46 with
    | none =>
      have hnone := List.idxOf?_eq_none_iff.mp hdot
      refine ⟨(trim text).take space, none, (trim text).drop (space + 1), ⟨by simpa using hsplit, ⟨hfree, ?_⟩, ?_⟩, ?_⟩
      · exact fun hmem => hnone (List.mem_of_mem_take hmem)
      · exact fun f hf => by cases hf
      · exact fun _ hmem => hnone (List.mem_of_mem_drop hmem)
    | some dot =>
      obtain ⟨hsplit', hfree', hlen'⟩ := split_of_idxOf? hdot
      rw [hspace, hdot] at h
      dsimp only at h
      split at h
      · cases h
      next hlater =>
        have hnumber : (trim text).take space =
            (trim text).take dot ++ 46 :: ((trim text).drop (dot + 1)).take (space - dot - 1) := by
          have hdrop : (trim text).take space = ((trim text).take dot ++ 46 :: (trim text).drop (dot + 1)).take space := by
            rw [← hsplit']
          have hshort : ((trim text).take dot).length = dot := by
            rw [List.length_take]
            omega
          rw [hdrop, List.take_append, hshort, List.take_of_length_le (by omega),
            show space - dot = (space - dot - 1) + 1 by omega, List.take_succ_cons]
          rfl
        refine ⟨(trim text).take dot, some (((trim text).drop (dot + 1)).take (space - dot - 1)),
          (trim text).drop (space + 1), ⟨?_, ⟨?_, hfree'⟩, ?_⟩, fun hf => by cases hf⟩
        · rw [Option.elim_some, ← hnumber]
          exact hsplit
        · intro hmem
          refine hfree (hnumber ▸ List.mem_append_left _ hmem)
        · intro f hf hmem
          obtain rfl := Option.some.inj hf
          refine hfree (hnumber ▸ List.mem_append_right _ (List.mem_cons_of_mem _ hmem))

end Parts

/-! ## What is written -/

section Parsing

variable {text intpart symbol : Bytes} {fract : Option Bytes} {a : Asset} {w x : Int}

/-- The code takes each part by itself: the numbers are in range, the fraction has fewer than fifteen digits,
counted in a `uint8_t`, and the symbol fits.  `w` and `x` are the numbers it reads. -/
structure Accepted (text intpart : Bytes) (fract : Option Bytes) (symbol : Bytes) (w x : Int) : Prop
    extends Parts text intpart fract symbol where
  wholeRead : toInt64 intpart = .ok w
  partRead : toInt64 (49 :: fract.getD []) = .ok x
  decimals : (fract.getD []).length % 256 < 15
  short : symbol.length ≤ 6
  dotless : fract = none → 46 ∉ symbol

theorem ofNat_lt_fifteen {n : Nat} : UInt8.ofNat n < 15 ↔ n % 256 < 15 := by
  rw [UInt8.lt_iff_toNat_lt, UInt8.toNat_ofNat']
  rfl

theorem setDecimals_eq_ok {n : Nat} {r : UInt8 × Int} :
    setDecimals n = .ok r ↔ n % 256 < 15 ∧ r = (UInt8.ofNat n, 10 ^ (n % 256)) := by
  unfold setDecimals
  by_cases hn : n % 256 < 15
  · rw [if_pos (ofNat_lt_fifteen.mpr hn), UInt8.toNat_ofNat']
    simp [hn, eq_comm]
  · rw [if_neg (mt ofNat_lt_fifteen.mp hn)]
    simp [hn]

theorem readFraction_eq_ok {f : Bytes} {r : UInt8 × Int} :
    readFraction intpart f = .ok r ↔ f.length % 256 < 15 ∧ ∃ w x, toInt64 intpart = .ok w ∧ toInt64 (49 :: f) = .ok x ∧
      r = (UInt8.ofNat f.length, wrapInt64 (w * 10 ^ (f.length % 256) + (x - 10 ^ (f.length % 256)))) := by
  unfold readFraction
  dsimp only
  rw [List.length_cons, Nat.add_sub_cancel]
  cases hset : setDecimals f.length with
  | error e =>
    refine iff_of_false (by simp) fun ⟨hlt, _⟩ => ?_
    rw [setDecimals_eq_ok.mpr ⟨hlt, rfl⟩] at hset
    cases hset
  | ok q =>
    obtain ⟨hlt, rfl⟩ := setDecimals_eq_ok.mp hset
    cases hwhole : toInt64 intpart with
    | error e => simp
    | ok w =>
      cases hpart : toInt64 (49 :: f) with
      | error e => simp
      | ok x => simp [hlt, wrapInt64_steps, eq_comm]

theorem readSymbol_eq_ok {d : UInt8} {amount : Int} :
    readSymbol d amount symbol = .ok a ↔ symbol.length ≤ 6 ∧ a = ⟨amount, symbolOf d symbol⟩ := by
  unfold readSymbol
  by_cases hlen : symbol.length ≤ 6
  · simp [hlen, eq_comm]
  · simp [hlen]

theorem toInt64_one : toInt64 [49] = .ok 1 := by decide

/-- **`from_string`** accepts a text when it accepts its parts. -/
theorem fromString_eq_ok : Asset.fromString text = .ok a ↔ ∃ intpart fract symbol w x,
    Accepted text intpart fract symbol w x ∧
      a = ⟨wrapInt64 (w * 10 ^ ((fract.getD []).length % 256) + (x - 10 ^ ((fract.getD []).length % 256))),
        symbolOf (UInt8.ofNat (fract.getD []).length) symbol⟩ := by
  constructor
  · intro h
    obtain ⟨intpart, fract, symbol, hparts, hdotless⟩ := parts_of_ok h
    cases fract with
    | none =>
      rw [fromString_whole hparts (hdotless rfl)] at h
      cases hwhole : toInt64 intpart with
      | error e => rw [hwhole] at h; cases h
      | ok w =>
        rw [hwhole] at h
        obtain ⟨hshort, rfl⟩ := readSymbol_eq_ok.mp h
        refine ⟨intpart, none, symbol, w, 1, ⟨hparts, hwhole, toInt64_one, by decide, hshort, hdotless⟩, ?_⟩
        have hw : wrapInt64 w = w := wrapInt64_eq_self_iff.mpr (toInt64_eq_ok.mp hwhole).2
        simp [hw]
    | some f =>
      rw [fromString_fraction hparts] at h
      cases hread : readFraction intpart f with
      | error e => rw [hread] at h; cases h
      | ok r =>
        rw [hread] at h
        obtain ⟨hlt, w, x, hw, hx, rfl⟩ := readFraction_eq_ok.mp hread
        obtain ⟨hshort, rfl⟩ := readSymbol_eq_ok.mp h
        exact ⟨intpart, some f, symbol, w, x, ⟨hparts, hw, hx, hlt, hshort, hdotless⟩, rfl⟩
  · rintro ⟨intpart, fract, symbol, w, x, h, rfl⟩
    cases fract with
    | none =>
      have hx : x = 1 := by simpa [toInt64_one, eq_comm] using h.partRead
      have hw : wrapInt64 w = w := wrapInt64_eq_self_iff.mpr (toInt64_eq_ok.mp h.wholeRead).2
      rw [fromString_whole h.toParts (h.dotless rfl), h.wholeRead]
      refine readSymbol_eq_ok.mpr ⟨h.short, ?_⟩
      simp [hx, hw]
    | some f =>
      have hread := readFraction_eq_ok.mpr ⟨h.decimals, w, x, h.wholeRead, h.partRead, rfl⟩
      rw [Option.getD_some] at hread
      rw [fromString_fraction h.toParts, hread]
      exact readSymbol_eq_ok.mpr ⟨h.short, rfl⟩

/-- The text is a signed decimal number, a space and a symbol; the asset has the digits of the number as its
amount, as many decimals as there are digits behind the dot, and the symbol. -/
def Means (text : Bytes) (a : Asset) : Prop :=
  ∃ intpart fract symbol negative digits, Parts text intpart fract symbol ∧ Numeral negative digits intpart ∧
    Digits (fract.getD []) ∧ a.amount = signed negative (valueOf (digits ++ fract.getD [])) ∧
    (fract.getD []).length < 256 ∧ a.symbol = symbolOf (UInt8.ofNat (fract.getD []).length) symbol

/-- Where all parts are accepted, the number has no zero byte, no fraction if it is negative, and fits. -/
def Faithful (text : Bytes) : Prop :=
  ∀ intpart fract symbol w x, Accepted text intpart fract symbol w x →
    0 ∉ intpart ++ fract.getD [] ∧ (intpart.head? = some 45 → x = 10 ^ (fract.getD []).length) ∧
      InInt64 (w * 10 ^ (fract.getD []).length + (x - 10 ^ (fract.getD []).length))

/-- Behind the leading one. -/
theorem toInt64_padded {f : Bytes} (hnul : 0 ∉ f) (h : toInt64 (49 :: f) = .ok x) :
    Digits f ∧ x = 10 ^ f.length + (valueOf f : Int) ∧ f.length < 19 := by
  obtain ⟨⟨negative, digits, hnumeral, hx⟩, hrange⟩ := toInt64_eq_ok.mp h
  rw [cStr_of_not_mem (by simpa using hnul)] at hnumeral
  obtain ⟨rfl, rfl, hdigits⟩ := (numeral_plain (by decide) (by decide)).mp hnumeral
  have hvalue : x = 10 ^ f.length + (valueOf f : Int) := by
    rw [hx, valueOf_cons]
    simp [signed]
  refine ⟨hdigits.of_cons.2, hvalue, ?_⟩
  by_contra hlong
  have hpow : (10 : Int) ^ 19 ≤ 10 ^ f.length := pow_le_pow_right₀ (by norm_num) (by omega)
  have hmax := hrange.2
  unfold int64Max at hmax
  norm_num at hpow
  omega

/-- The number without zero bytes, read as it is written. -/
theorem Accepted.numeral (h : Accepted text intpart fract symbol w x) (hnul : 0 ∉ intpart ++ fract.getD []) :
    ∃ negative digits, Numeral negative digits intpart ∧ w = signed negative (valueOf digits) ∧
      Digits (fract.getD []) ∧ x = 10 ^ (fract.getD []).length + (valueOf (fract.getD []) : Int) ∧
      (fract.getD []).length % 256 = (fract.getD []).length := by
  rw [List.mem_append, not_or] at hnul
  obtain ⟨⟨negative, digits, hnumeral, hw⟩, -⟩ := toInt64_eq_ok.mp h.wholeRead
  rw [cStr_of_not_mem hnul.1] at hnumeral
  obtain ⟨hdigits, hx, hlen⟩ := toInt64_padded hnul.2 h.partRead
  exact ⟨negative, digits, hnumeral, hw, hdigits, hx, by omega⟩

theorem numeral_head {negative : Bool} {digits : Bytes} (h : Numeral negative digits intpart) :
    intpart.head? = some 45 ↔ negative = true := by
  cases intpart with
  | nil => exact absurd h not_numeral_nil
  | cons c cs =>
    by_cases hminus : c = 45
    · subst hminus
      simp [(numeral_minus.mp h).1]
    · by_cases hplus : c = 43
      · subst hplus
        simp [(numeral_plus.mp h).1]
      · simp [((numeral_plain hminus hplus).mp h).1, hminus]

end Parsing

/-- A negative number written with a fraction is off by twice the fraction. -/
theorem fraction_zero_of_wrap {n v : Int} (hv : 0 ≤ v) (hsmall : v < 10 ^ 15)
    (h : wrapInt64 (-n + v) = -(n + v)) : v = 0 := by
  obtain ⟨m, hm⟩ := dvd_of_wrapInt64_eq h
  norm_num at hsmall
  omega

/-- **Parsing means what is written** exactly for these texts. -/
theorem parsed_amount_iff (text : Bytes) : (∀ a, Asset.fromString text = .ok a → Means text a) ↔ Faithful text := by
  constructor
  · intro hmeans intpart fract symbol w x hacc
    obtain ⟨_, _, _, negative, digits, hparts, hnumeral, hdigits, hamount, -, -⟩ :=
      hmeans _ (fromString_eq_ok.mpr ⟨_, _, _, _, _, hacc, rfl⟩)
    obtain ⟨rfl, rfl, rfl⟩ := hacc.toParts.unique hparts
    have hnul : 0 ∉ intpart ++ fract.getD [] := by
      rw [List.mem_append, not_or]
      exact ⟨hnumeral.not_mem (.inl rfl), hdigits.not_mem (by decide)⟩
    obtain ⟨_, _, hnumeral', hw, -, hx, hk⟩ := hacc.numeral hnul
    obtain ⟨rfl, rfl⟩ := hnumeral.unique hnumeral'
    have hlimit := hacc.decimals
    have hpart := valueOf_lt hdigits
    have hpow : 10 ^ (fract.getD []).length ≤ 10 ^ 14 := Nat.pow_le_pow_right (by norm_num) (by omega)
    dsimp only at hamount
    rw [hk, hx, add_sub_cancel_left, valueOf_append] at hamount
    rw [numeral_head hnumeral, hx, add_sub_cancel_left]
    refine ⟨hnul, ?_⟩
    cases negative with
    | false =>
      simp only [signed, Bool.false_eq_true, if_false] at hw hamount
      refine ⟨fun h => absurd h Bool.false_ne_true, wrapInt64_eq_self_iff.mp ?_⟩
      rw [hw] at hamount ⊢
      push_cast at hamount
      exact hamount
    | true =>
      simp only [signed, if_true] at hw hamount
      rw [hw, neg_mul] at hamount ⊢
      push_cast at hamount
      have hzero := fraction_zero_of_wrap (by omega) (by norm_num at hpow ⊢; omega) hamount
      rw [hzero, add_zero] at hamount ⊢
      exact ⟨fun _ => rfl, wrapInt64_eq_self_iff.mp (by simpa using hamount)⟩
  · intro hfaithful a ha
    obtain ⟨intpart, fract, symbol, w, x, hacc, rfl⟩ := fromString_eq_ok.mp ha
    obtain ⟨hnul, hneg, hfits⟩ := hfaithful _ _ _ _ _ hacc
    obtain ⟨negative, digits, hnumeral, hw, hdigits, hx, hk⟩ := hacc.numeral hnul
    refine ⟨intpart, fract, symbol, negative, digits, hacc.toParts, hnumeral, hdigits, ?_, by omega, rfl⟩
    dsimp only
    rw [hk, wrapInt64_eq_self_iff.mpr hfits, hw, hx, valueOf_append]
    cases negative with
    | false =>
      simp only [signed, Bool.false_eq_true, if_false]
      push_cast
      ring
    | true =>
      have hzero := hneg ((numeral_head hnumeral).mpr rfl)
      rw [hx] at hzero
      simp only [signed, if_true]
      push_cast
      have hpart : (valueOf (fract.getD []) : Int) = 0 := by omega
      rw [hpart]
      ring

/-- A negative amount with a fraction is misread. -/
theorem negative_fraction_misread :
    let text := ascii ['-', '1', '.', '5', ' ', 'A', 'B', 'C']
    let a : Asset := ⟨-5, symbolOf 1 (ascii ['A', 'B', 'C'])⟩
    Asset.fromString text = .ok a ∧ ¬ Means text a := by
  intro text a
  refine ⟨by decide +kernel, ?_⟩
  rintro ⟨_, _, _, negative, digits, hparts, hnumeral, -, hamount, -, -⟩
  have hwritten : Parts text (ascii ['-', '1']) (some (ascii ['5'])) (ascii ['A', 'B', 'C']) := by
    refine ⟨by decide, by decide, fun f hf => ?_⟩
    obtain rfl := Option.some.inj hf
    decide
  obtain ⟨rfl, rfl, rfl⟩ := hwritten.unique hparts
  obtain ⟨rfl, rfl, -⟩ := numeral_minus.mp hnumeral
  revert hamount
  decide

/-! ## There and back -/

section RoundTrip

variable {amount : Int} {d : UInt8} {name : Bytes}

/-- The digits behind the dot, if there is one. -/
def fractionText (amount : Int) (d : UInt8) : Option Bytes :=
  if d = 0 then none else some ((decimal (10 ^ d.toNat + amount.tmod (10 ^ d.toNat)).toNat).drop 1)

/-- What `to_string` prints of an amount. -/
def numberText (amount : Int) (d : UInt8) : Bytes :=
  int64ToString (amount.tdiv (10 ^ d.toNat)) ++ (fractionText amount d).elim [] (46 :: ·)

theorem precision_symbolOf (hd : d < 15) : precision (symbolOf d name) = .ok (10 ^ d.toNat) := by
  have hbyte : symbolByte (symbolOf d name) 0 = d.toNat := by
    unfold symbolOf
    rw [symbolByte_ofDigits]
    rfl
  unfold precision
  have hlt : d.toNat < 15 := UInt8.lt_iff_toNat_lt.mp hd
  rw [hbyte, if_pos hlt]

theorem tmod_bounds (amount : Int) (k : Nat) :
    -(10 ^ k : Int) < amount.tmod (10 ^ k) ∧ amount.tmod (10 ^ k) < 10 ^ k := by
  have hpos : (0 : Int) < 10 ^ k := by positivity
  exact ⟨by have := Int.lt_tmod_of_pos amount hpos; omega, Int.tmod_lt_of_pos amount hpos⟩

theorem toString_eq (hd : d < 15) (hlen : name.length ≤ 6) (hnul : ∀ c ∈ name, c ≠ 0) :
    Asset.toString ⟨amount, symbolOf d name⟩ = .ok (numberText amount d ++ 32 :: name) := by
  unfold Asset.toString
  rw [precision_symbolOf hd, symbolName_symbolOf hlen hnul]
  dsimp only
  unfold numberText fractionText
  by_cases hzero : d = 0
  · subst hzero
    simp
  · have hpos : 0 < d.toNat := by
      rw [Nat.pos_iff_ne_zero]
      intro h
      exact hzero (UInt8.toNat_inj.mp h)
    have hone : (1 : Int) < 10 ^ d.toNat := one_lt_pow₀ (by norm_num) (by omega)
    have hbounds := tmod_bounds amount d.toNat
    have hprint : int64ToString (10 ^ d.toNat + amount.tmod (10 ^ d.toNat)) =
        decimal (10 ^ d.toNat + amount.tmod (10 ^ d.toNat)).toNat := by
      unfold int64ToString
      rw [if_neg (by omega)]
      congr 1
      omega
    rw [if_pos hone, if_neg hzero, hprint]
    rfl

theorem digits_fractionText (f : Bytes) (h : fractionText amount d = some f) : Digits f := by
  unfold fractionText at h
  split at h
  · cases h
  · obtain rfl := Option.some.inj h
    exact fun c hc => digits_decimal _ c (List.mem_of_mem_drop hc)

theorem numberText_plain {c : UInt8} (h : c ∈ numberText amount d) : isSpace c = false ∧ c ≠ 0 := by
  have hdigit : ∀ c : UInt8, 48 ≤ c → isSpace c = false ∧ c ≠ 0 := by
    intro c hc
    have hle := UInt8.le_iff_toNat_le.mp hc
    refine ⟨?_, ?_⟩
    · simp [isSpace, UInt8.le_iff_toNat_le, ← UInt8.toNat_inj]
      simp at hle
      omega
    · rintro rfl
      simp at hle
  rcases List.mem_append.mp h with hc | hc
  · unfold int64ToString at hc
    split at hc
    · rcases List.mem_cons.mp hc with rfl | hc
      · decide
      · exact hdigit c (digits_decimal _ c hc).1
    · exact hdigit c (digits_decimal _ c hc).1
  · cases hf : fractionText amount d with
    | none => rw [hf] at hc; cases hc
    | some f =>
      rw [hf] at hc
      rcases List.mem_cons.mp hc with rfl | hc
      · decide
      · exact hdigit c (digits_fractionText f hf c hc).1

theorem numberText_ne_nil (amount : Int) (d : UInt8) : numberText amount d ≠ [] := by
  unfold numberText int64ToString
  split <;> simp [decimal_ne_nil]

/-- A text that starts with no space is only trimmed at its end. -/
theorem trim_text : trim (numberText amount d ++ 32 :: name) = (numberText amount d ++ 32 :: name).rdropWhile isSpace := by
  obtain ⟨c, cs, hcs⟩ := List.exists_cons_of_ne_nil (numberText_ne_nil amount d)
  have hc : isSpace c = false := (numberText_plain (hcs ▸ List.mem_cons_self : c ∈ numberText amount d)).1
  unfold trim
  rw [hcs, List.cons_append, List.dropWhile_cons_of_neg (by simp [hc])]

theorem trim_text_eq_self_iff (hne : name ≠ []) : trim (numberText amount d ++ 32 :: name) = numberText amount d ++ 32 :: name ↔
    ∀ c ∈ name.getLast?, isSpace c = false := by
  rw [trim_text, List.rdropWhile_eq_self_iff]
  have hlast : ∀ h, (numberText amount d ++ 32 :: name).getLast h = name.getLast hne := by
    intro h
    rw [List.getLast_append_of_ne_nil _ (List.cons_ne_nil _ _), List.getLast_cons hne]
  constructor
  · intro h c hc
    rw [List.getLast?_eq_some_getLast hne, Option.mem_some_iff] at hc
    subst hc
    have := h (by simp)
    rw [hlast] at this
    simpa using this
  · intro h hl
    rw [hlast]
    simpa using h _ (List.getLast?_eq_some_getLast hne)

theorem parts_text (hne : name ≠ []) (hlast : ∀ c ∈ name.getLast?, isSpace c = false) :
    Parts (numberText amount d ++ 32 :: name) (int64ToString (amount.tdiv (10 ^ d.toNat))) (fractionText amount d) name where
  eq := (trim_text_eq_self_iff hne).mpr hlast
  whole := ⟨(numeral_int64ToString _).not_mem (.inr (.inl rfl)), (numeral_int64ToString _).not_mem (.inr (.inr rfl))⟩
  part f hf := (digits_fractionText f hf).not_mem (by decide)

/-- The asset is printed and read back unchanged. -/
def RoundTrips (a : Asset) : Prop := ∃ text, a.toString = .ok text ∧ Asset.fromString text = .ok a

theorem mem_of_mem_trim {s : Bytes} {c : UInt8} (h : c ∈ trim s) : c ∈ s :=
  (List.dropWhile_suffix _).subset ((List.rdropWhile_prefix _ _).subset h)

/-- What is left in front of the dot and behind it adds up. -/
theorem amount_eq (amount : Int) (k : Nat) : amount.tdiv (10 ^ k) * 10 ^ k + amount.tmod (10 ^ k) = amount :=
  Int.tdiv_mul_add_tmod amount (10 ^ k)

theorem tdiv_inInt64 (h : InInt64 amount) (k : Nat) : InInt64 (amount.tdiv (10 ^ k)) := by
  have hle := Int.natAbs_tdiv_le_natAbs amount (10 ^ k)
  have hsign : amount ≤ 0 → amount.tdiv (10 ^ k) ≤ 0 := by
    intro hneg
    have hpos : (0 : Int) ≤ 10 ^ k := by positivity
    have hopposite := Int.tdiv_nonneg (a := -amount) (by omega) hpos
    rw [Int.neg_tdiv] at hopposite
    omega
  unfold InInt64 int64Min int64Max at h ⊢
  omega

/-- A fraction that is not negative is printed with all its digits. -/
theorem fraction_read (hd : d < 15) (hfract : 0 ≤ amount.tmod (10 ^ d.toNat)) :
    ((fractionText amount d).getD []).length = d.toNat ∧
      toInt64 (49 :: (fractionText amount d).getD []) = .ok (10 ^ d.toNat + amount.tmod (10 ^ d.toNat)) := by
  have hbounds := tmod_bounds amount d.toNat
  have hlt : d.toNat < 15 := UInt8.lt_iff_toNat_lt.mp hd
  have hpow : (10 : Int) ^ d.toNat ≤ 10 ^ 14 := pow_le_pow_right₀ (by norm_num) (by omega)
  norm_num at hpow
  obtain ⟨n, hn⟩ := Int.eq_ofNat_of_zero_le hfract
  unfold fractionText
  by_cases hzero : d = 0
  · subst hzero
    have hnone : n = 0 := by
      have hone : amount.tmod (10 ^ (0 : UInt8).toNat) = 0 := Int.tmod_one amount
      omega
    rw [if_pos rfl, hn, hnone]
    exact ⟨rfl, toInt64_one⟩
  · have hsmall : n < 10 ^ d.toNat := by
      rw [hn] at hbounds
      exact_mod_cast hbounds.2
    have hsum : (10 ^ d.toNat + amount.tmod (10 ^ d.toNat)).toNat = 10 ^ d.toNat + n := by
      rw [hn]
      exact_mod_cast rfl
    obtain ⟨f, hf, hlen, hdigits, hvalue⟩ := decimal_padded hsmall
    rw [if_neg hzero, hsum, hf, Option.getD_some, List.drop_one, List.tail_cons]
    refine ⟨hlen, toInt64_eq_ok.mpr ⟨⟨false, 49 :: f, ?_, ?_⟩, ?_⟩⟩
    · have hall : Digits (49 :: f) := hf ▸ digits_decimal _
      rw [cStr_of_not_mem (hall.not_mem (by decide))]
      exact (numeral_plain (by decide) (by decide)).mpr ⟨rfl, rfl, hall⟩
    · rw [← hf, valueOf_decimal, hn]
      simp [signed]
    · unfold InInt64 int64Min int64Max
      omega

/-- A negative fraction loses at least one digit. -/
theorem fraction_lost (hfract : amount.tmod (10 ^ d.toNat) < 0) :
    ((fractionText amount d).getD []).length < d.toNat := by
  have hbounds := tmod_bounds amount d.toNat
  have hpos : 0 < d.toNat := by
    rw [Nat.pos_iff_ne_zero]
    intro hzero
    rw [hzero, pow_zero, Int.tmod_one] at hfract
    omega
  have hne : d ≠ 0 := by
    rintro rfl
    exact absurd hpos (by decide)
  have hsmall : (10 ^ d.toNat + amount.tmod (10 ^ d.toNat)).toNat < 10 ^ d.toNat := by
    have hcast : ((10 ^ d.toNat + amount.tmod (10 ^ d.toNat)).toNat : Int) < ((10 ^ d.toNat : Nat) : Int) := by
      push_cast
      omega
    exact_mod_cast hcast
  have hlen := (length_decimal_le_iff hpos).mpr hsmall
  unfold fractionText
  rw [if_neg hne, Option.getD_some, List.length_drop]
  omega

/-- **An asset is printed and read back unchanged** exactly if its amount has no negative fraction and its name
does not end in white space. -/
theorem asset_text_round_trip (amount : Int) (d : UInt8) (name : Bytes) (hamount : InInt64 amount) (hd : d < 15)
    (hne : name ≠ []) (hlen : name.length ≤ 6) (hname : ∀ c ∈ name, c ≠ 0 ∧ c ≠ 32 ∧ c ≠ 46) :
    RoundTrips ⟨amount, symbolOf d name⟩ ↔
      (0 ≤ amount ∨ amount.tmod (10 ^ d.toNat) = 0) ∧ ∀ c ∈ name.getLast?, isSpace c = false := by
  have hnul : ∀ c ∈ name, c ≠ 0 := fun c hc => (hname c hc).1
  have hprint : Asset.toString ⟨amount, symbolOf d name⟩ = _ := toString_eq hd hlen hnul
  have hlt : d.toNat < 15 := UInt8.lt_iff_toNat_lt.mp hd
  constructor
  · rintro ⟨text, htext, hparse⟩
    obtain rfl := Except.ok.inj (hprint.symm.trans htext)
    obtain ⟨intpart, fract, symbol, w, x, hacc, hread⟩ := fromString_eq_ok.mp hparse
    have hsymbol : symbolOf d name = symbolOf (UInt8.ofNat (fract.getD []).length) symbol := congrArg Asset.symbol hread
    have hfree : ∀ c ∈ symbol, c ≠ 0 := by
      intro c hc
      have htrimmed : c ∈ trim (numberText amount d ++ 32 :: name) := by
        rw [hacc.eq]
        exact List.mem_append_right _ (List.mem_cons_of_mem _ hc)
      rcases List.mem_append.mp (mem_of_mem_trim htrimmed) with hc | hc
      · exact (numberText_plain hc).2
      · rcases List.mem_cons.mp hc with rfl | hc
        · decide
        · exact hnul c hc
    have hsame : name = symbol := by
      have hnames := symbolName_symbolOf (c := d) hlen hnul
      rw [hsymbol, symbolName_symbolOf hacc.short hfree] at hnames
      exact (Except.ok.inj hnames).symm
    have hdecimals : d.toNat = (fract.getD []).length % 256 := by
      have hbyte := congrArg (fun s => symbolByte s 0) hsymbol
      simp only [symbolOf, symbolByte_ofDigits] at hbyte
      simpa using hbyte
    -- the last byte of the trimmed text is that of the name
    have hlast : ∀ c ∈ name.getLast?, isSpace c = false := by
      intro c hc
      have htrim : (numberText amount d ++ 32 :: name).rdropWhile isSpace =
          intpart ++ fract.elim [] (46 :: ·) ++ 32 :: name := by
        rw [← trim_text, hacc.eq, hsame]
      have hend := List.rdropWhile_last_not isSpace (numberText amount d ++ 32 :: name) (by rw [htrim]; simp)
      simp only [htrim] at hend
      rw [List.getLast_append_of_ne_nil _ (List.cons_ne_nil _ _), List.getLast_cons hne] at hend
      rw [List.getLast?_eq_some_getLast hne, Option.mem_some_iff] at hc
      subst hc
      simpa using hend
    refine ⟨?_, hlast⟩
    obtain ⟨-, rfl, -⟩ := hacc.toParts.unique (parts_text hne hlast)
    by_contra hbad
    rw [not_or, not_le] at hbad
    have hfract : amount.tmod (10 ^ d.toNat) < 0 := by
      have hopposite := Int.tmod_nonneg (10 ^ d.toNat) (show 0 ≤ -amount by omega)
      rw [Int.neg_tmod] at hopposite
      omega
    have hlost := fraction_lost hfract
    omega
  · rintro ⟨hsign, hlast⟩
    have hfract : 0 ≤ amount.tmod (10 ^ d.toNat) := by
      rcases hsign with hpos | hzero
      · exact Int.tmod_nonneg _ hpos
      · exact hzero.ge
    obtain ⟨hdigits, hpart⟩ := fraction_read hd hfract
    have hparts : Parts (numberText amount d ++ 32 :: name) _ _ name := parts_text hne hlast
    refine ⟨_, hprint, fromString_eq_ok.mpr ⟨_, _, _, amount.tdiv (10 ^ d.toNat), _, ⟨hparts, ?_, hpart, ?_, hlen, ?_⟩, ?_⟩⟩
    · exact toInt64_int64ToString (tdiv_inInt64 hamount _)
    · omega
    · exact fun _ hdot => (hname 46 hdot).2.2 rfl
    · rw [hdigits, Nat.mod_eq_of_lt (by omega), add_sub_cancel_left, amount_eq, wrapInt64_eq_self_iff.mpr hamount,
        UInt8.ofNat_toNat]

theorem asset_text_round_trip_coin : RoundTrips ⟨7005, symbolOf 3 (ascii ['C', 'N'])⟩ :=
  (asset_text_round_trip 7005 3 (ascii ['C', 'N']) (by decide) (by decide) (by decide) (by decide)
    (by decide +kernel)).mpr ⟨.inl (by decide), by decide +kernel⟩

/-- Five thousandths below zero come back as ninety-five hundredths. -/
theorem negative_fraction_lost :
    let a : Asset := ⟨-5, symbolOf 3 (ascii ['C', 'N'])⟩
    let text := ascii ['0', '.', '9', '5', ' ', 'C', 'N']
    a.toString = .ok text ∧ Asset.fromString text = .ok ⟨95, symbolOf 2 (ascii ['C', 'N'])⟩ ∧ ¬ RoundTrips a := by
  intro a text
  have hprint : a.toString = .ok text := by decide +kernel
  have hparse : Asset.fromString text = .ok ⟨95, symbolOf 2 (ascii ['C', 'N'])⟩ := by decide +kernel
  refine ⟨hprint, hparse, ?_⟩
  rintro ⟨text', htext, hback⟩
  obtain rfl := Except.ok.inj (hprint.symm.trans htext)
  have hamount := congrArg Asset.amount (Except.ok.inj (hparse.symm.trans hback))
  revert hamount
  decide

end RoundTrip

end Sigmaengine
