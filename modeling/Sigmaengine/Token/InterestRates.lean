import Mathlib.Data.Rat.Defs
import Mathlib.Tactic.FieldSimp
import Mathlib.Tactic.Linarith
import Sigmaengine.Token.AssetText
import Sigmaengine.Ledger.WithdrawReady
import Sigmaengine.Dapp.CommentEdits

/-!
# The text of an interest rate

`set_token_staking_interest` takes the rate as text and stores thousandths.  The whole part and the fraction
are read apart, so the sign does not reach the fraction; a dot with nothing behind it is read as one thousandth
less one; `to_int64` stops at a zero byte; and the thousandths are computed in 64 bits.

Main result: `interest_rate_iff`.
-/

namespace Sigmaengine.Token

open Sigmaengine Effect Table Decimal

/-! ## Decimal numbers -/

/-- Digits behind an optional sign, and a dot with the digits of the fraction when there is one. -/
def DecimalText (negative : Bool) (whole frac text : Bytes) : Prop :=
  ∃ intpart, Numeral negative whole intpart ∧ Digits frac ∧
    (text = intpart ∧ frac = [] ∨ text = intpart ++ 46 :: frac)

/-- The number these digits write. -/
def decimalValue (negative : Bool) (whole frac : Bytes) : ℚ :=
  (if negative then -1 else 1) * (valueOf whole + valueOf frac / 10 ^ frac.length)

/-- The text writes the number `q`. -/
def Denotes (text : Bytes) (q : ℚ) : Prop :=
  ∃ negative whole frac, DecimalText negative whole frac text ∧ q = decimalValue negative whole frac

/-! ## What the code reads -/

/-- The code reads the text as `whole` and `thousandths`, with at most the two digits of a fraction that the
operation is validated for. -/
inductive ReadAs : Bytes → Int → Int → Prop
  | whole {text : Bytes} {whole : Int} (hdot : 46 ∉ text) (hwhole : toInt64 text = .ok whole) : ReadAs text whole 0
  | bare {intpart : Bytes} {whole : Int} (hdot : 46 ∉ intpart) (hwhole : toInt64 intpart = .ok whole) :
      ReadAs (intpart ++ [46]) whole (-999)
  | fraction {intpart frac : Bytes} {whole thousandths : Int} (hdot : 46 ∉ intpart)
      (hwhole : toInt64 intpart = .ok whole) (hfrac : frac ≠ []) (hshort : frac.length ≤ 2)
      (hread : toInt64 (49 :: (frac ++ List.replicate (3 - frac.length) 48)) = .ok (1000 + thousandths)) :
      ReadAs (intpart ++ 46 :: frac) whole thousandths

theorem fromDot_append {a b : Bytes} (h : 46 ∉ a) : fromDot (a ++ 46 :: b) = 46 :: b := by
  unfold fromDot
  rw [List.dropWhile_append_of_pos]
  · rfl
  · intro c hc
    rw [bne_iff_ne]
    rintro rfl
    exact h hc

/-- The rate of a text with a dot. -/
theorem parseRate_append {intpart frac : Bytes} (h : 46 ∉ intpart) :
    parseRate (intpart ++ 46 :: frac) =
      (toInt64 intpart >>= fun whole =>
        toInt64 (49 :: if frac ≠ [] ∧ frac.length ≤ 3 then frac ++ List.replicate (3 - frac.length) 48 else frac) >>=
          fun part => pure (wrapInt64 (1000 * whole + (part - 1000)))) := by
  have hbefore : (intpart ++ 46 :: frac).takeWhile (· != 46) = intpart := by
    rw [List.takeWhile_append_of_pos]
    · simp
    · intro c hc
      rw [bne_iff_ne]
      rintro rfl
      exact h hc
  have hdot : (intpart ++ 46 :: frac).contains 46 = true := by simp
  unfold parseRate
  rw [if_pos hdot, hbefore, fromDot_append h, List.drop_one, List.tail_cons]
  simp only [wrapInt64_steps, stakingInterestPrecision, stakingInterestPrecisionDigits, Int.mul_comm]
  rfl

theorem parseRate_of_readAs {text : Bytes} {whole thousandths : Int} (h : ReadAs text whole thousandths) :
    parseRate text = .ok (wrapInt64 (1000 * whole + thousandths)) := by
  cases h with
  | whole hdot hwhole =>
    unfold parseRate
    rw [if_neg (by simpa using hdot), hwhole]
    show Except.ok (wrapInt64 (whole * 1000)) = _
    rw [Int.mul_comm, Int.add_zero]
  | bare hdot hwhole =>
    rw [parseRate_append hdot, hwhole]
    rfl
  | @fraction intpart frac _ _ hdot hwhole hfrac hshort hread =>
    rw [parseRate_append hdot, hwhole, if_pos ⟨hfrac, by omega⟩, hread]
    show Except.ok (wrapInt64 (1000 * whole + (1000 + thousandths - 1000))) = _
    rw [show 1000 + thousandths - 1000 = thousandths by omega]

theorem readAs_of_parseRate {text : Bytes} {rate : Int} (hshort : 46 ∈ text → (fromDot text).length ≤ 3)
    (h : parseRate text = .ok rate) :
    ∃ whole thousandths, ReadAs text whole thousandths ∧ rate = wrapInt64 (1000 * whole + thousandths) := by
  by_cases hdot : 46 ∈ text
  · obtain ⟨intpart, frac, rfl, hbefore⟩ := List.eq_append_cons_of_mem hdot
    have hlength := hshort hdot
    rw [fromDot_append hbefore, List.length_cons] at hlength
    rw [parseRate_append hbefore] at h
    cases hwhole : toInt64 intpart with
    | error e =>
      rw [hwhole] at h
      cases h
    | ok whole =>
      rw [hwhole] at h
      by_cases hfrac : frac = []
      · subst hfrac
        cases h
        exact ⟨whole, -999, .bare hbefore hwhole, rfl⟩
      · rw [if_pos ⟨hfrac, by omega⟩] at h
        cases hpart : toInt64 (49 :: (frac ++ List.replicate (3 - frac.length) 48)) with
        | error e =>
          simp only [hpart] at h
          cases h
        | ok part =>
          simp only [hpart] at h
          cases h
          refine ⟨whole, part - 1000, .fraction hbefore hwhole hfrac (by omega) ?_, rfl⟩
          rw [hpart, show 1000 + (part - 1000) = part by omega]
  · unfold parseRate at h
    rw [if_neg (by simpa using hdot)] at h
    cases hwhole : toInt64 text with
    | error e =>
      rw [hwhole] at h
      cases h
    | ok whole =>
      rw [hwhole] at h
      cases h
      refine ⟨whole, 0, .whole hdot hwhole, ?_⟩
      rw [Int.add_zero, Int.mul_comm]
      rfl

/-! ## Reading against meaning -/

/-- The thousandths that a fraction of at most two digits writes. -/
def fractionValue (frac : Bytes) : Nat := valueOf frac * 10 ^ (3 - frac.length)

theorem fractionValue_lt {frac : Bytes} (hdigits : Digits frac) (hshort : frac.length ≤ 2) :
    fractionValue frac < 1000 := by
  have hpow : 10 ^ frac.length * 10 ^ (3 - frac.length) = 1000 := by
    rw [← pow_add, show frac.length + (3 - frac.length) = 3 by omega]
    rfl
  unfold fractionValue
  rw [← hpow]
  exact Nat.mul_lt_mul_of_pos_right (valueOf_lt hdigits) (Nat.pow_pos (by decide))

/-- The number in thousandths. -/
def thousandthsOf (negative : Bool) (whole frac : Bytes) : Int :=
  signed negative (1000 * valueOf whole + fractionValue frac)

theorem thousandthsOf_eq {negative : Bool} {whole frac : Bytes} (hshort : frac.length ≤ 2) :
    (thousandthsOf negative whole frac : ℚ) = 1000 * decimalValue negative whole frac := by
  have hpow : (10 : ℚ) ^ frac.length * 10 ^ (3 - frac.length) = 1000 := by
    rw [← pow_add, show frac.length + (3 - frac.length) = 3 by omega]
    norm_num
  have hne : (10 : ℚ) ^ frac.length ≠ 0 := by positivity
  have hfrac : (fractionValue frac : ℚ) = 1000 * (valueOf frac / 10 ^ frac.length) := by
    rw [← hpow]
    unfold fractionValue
    push_cast
    field_simp
  unfold thousandthsOf decimalValue signed
  cases negative
  · simp only [Bool.false_eq_true, if_false]
    push_cast
    rw [hfrac]
    ring
  · simp only [if_true]
    push_cast
    rw [hfrac]
    ring

theorem valueOf_zeros (k : Nat) : valueOf (List.replicate k 48) = 0 := by
  induction k with
  | zero => rfl
  | succ k ih => simp [List.replicate_succ, valueOf_cons, ih]

/-- What the code reads of a fraction behind the leading one. -/
theorem toInt64_fraction {frac : Bytes} (hdigits : Digits frac) (hshort : frac.length ≤ 2) :
    toInt64 (49 :: (frac ++ List.replicate (3 - frac.length) 48)) = .ok (1000 + fractionValue frac) := by
  have hzeros : Digits (List.replicate (3 - frac.length) 48) := by
    intro c hc
    rw [List.eq_of_mem_replicate hc]
    decide
  have hone : Digits (49 :: (frac ++ List.replicate (3 - frac.length) 48)) := by
    rw [← List.singleton_append]
    refine Digits.append ?_ (hdigits.append hzeros)
    intro c hc
    rw [List.mem_singleton.mp hc]
    decide
  have hnumeral := (numeral_plain (c := 49) (by decide) (by decide)).mpr ⟨rfl, rfl, hone⟩
  have hlength : (frac ++ List.replicate (3 - frac.length) 48).length = 3 := by
    rw [List.length_append, List.length_replicate]
    omega
  have hvalue : valueOf (49 :: (frac ++ List.replicate (3 - frac.length) 48)) = 1000 + fractionValue frac := by
    rw [valueOf_cons, hlength, valueOf_append, valueOf_zeros, List.length_replicate]
    rfl
  have hlt := fractionValue_lt hdigits hshort
  refine toInt64_eq_ok.mpr ⟨⟨false, 49 :: (frac ++ List.replicate (3 - frac.length) 48), ?_, ?_⟩, ?_⟩
  · rw [cStr_of_not_mem (hnumeral.not_mem (.inl rfl))]
    exact hnumeral
  · rw [hvalue]
    rfl
  · constructor
    · unfold int64Min
      omega
    · unfold int64Max
      omega

theorem digits_of_toInt64_fraction {frac : Bytes} {n : Int} (hzero : 0 ∉ frac)
    (h : toInt64 (49 :: (frac ++ List.replicate (3 - frac.length) 48)) = .ok n) : Digits frac := by
  obtain ⟨⟨negative, digits, hnumeral, -⟩, -⟩ := toInt64_eq_ok.mp h
  have hnone : 0 ∉ 49 :: (frac ++ List.replicate (3 - frac.length) 48) := by
    simp [hzero, List.mem_replicate]
  rw [cStr_of_not_mem hnone] at hnumeral
  obtain ⟨-, -, hdigits⟩ := (numeral_plain (by decide) (by decide)).mp hnumeral
  exact fun c hc => hdigits c (List.mem_cons_of_mem _ (List.mem_append_left _ hc))

/-- The numeral of a text is the number read from it. -/
theorem signed_of_toInt64 {negative : Bool} {digits text : Bytes} {w : Int} (h : toInt64 text = .ok w)
    (hnumeral : Numeral negative digits text) : w = signed negative (valueOf digits) := by
  obtain ⟨⟨negative', digits', hnumeral', rfl⟩, -⟩ := toInt64_eq_ok.mp h
  rw [cStr_of_not_mem (hnumeral.not_mem (.inl rfl))] at hnumeral'
  obtain ⟨rfl, rfl⟩ := hnumeral.unique hnumeral'
  rfl

/-- The first dot splits a text in one way. -/
theorem split_dot {a b a' b' : Bytes} (h : 46 ∉ a) (h' : 46 ∉ a') (heq : a ++ 46 :: b = a' ++ 46 :: b') :
    a = a' ∧ b = b' := by
  have hidx := idxOf?_append (b := b) h
  rw [heq, idxOf?_append h', Option.some.injEq] at hidx
  obtain ⟨rfl, htail⟩ := List.append_inj heq hidx.symm
  exact ⟨rfl, (List.cons.inj htail).2⟩

/-- A text that writes a number is read as follows. -/
theorem ReadAs.decimal {negative : Bool} {whole frac text : Bytes} {w f : Int} (h : ReadAs text w f)
    (htext : DecimalText negative whole frac text) :
    w = signed negative (valueOf whole) ∧ 0 ∉ text ∧ (text.head? = some 45 ↔ negative = true) ∧ frac.length ≤ 2 ∧
      (text.getLast? = some 46 ∧ frac = [] ∧ f = -999 ∨ text.getLast? ≠ some 46 ∧ f = fractionValue frac) := by
  obtain ⟨intpart, hnumeral, hdigits, hcase⟩ := htext
  have hint : 46 ∉ intpart := hnumeral.not_mem (.inr (.inr rfl))
  have hne : intpart ≠ [] := by
    rintro rfl
    exact not_numeral_nil hnumeral
  have hhead : ∀ rest, (intpart ++ rest).head? = some 45 ↔ negative = true := by
    intro rest
    rw [List.head?_append_of_ne_nil _ hne]
    exact numeral_head hnumeral
  have hzero : 0 ∉ intpart ++ 46 :: frac := by
    have hleft := hnumeral.not_mem (c := 0) (.inl rfl)
    have hright := hdigits.not_mem (c := 0) (by decide)
    simp [hleft, hright]
  cases h with
  | whole hdot hwhole =>
    rcases hcase with ⟨rfl, rfl⟩ | rfl
    · refine ⟨signed_of_toInt64 hwhole hnumeral, hnumeral.not_mem (.inl rfl), numeral_head hnumeral, by simp, .inr ⟨?_, rfl⟩⟩
      exact fun hlast => hdot (List.mem_of_getLast? hlast)
    · simp at hdot
  | @bare a _ hdot hwhole =>
    rcases hcase with ⟨rfl, -⟩ | heq
    · simp at hint
    · obtain ⟨rfl, rfl⟩ := split_dot hdot hint heq
      exact ⟨signed_of_toInt64 hwhole hnumeral, hzero, hhead _, by simp, .inl ⟨by simp, rfl, rfl⟩⟩
  | @fraction a b _ _ hdot hwhole hfrac hshort hread =>
    rcases hcase with ⟨rfl, -⟩ | heq
    · simp at hint
    · obtain ⟨rfl, rfl⟩ := split_dot hdot hint heq
      rw [toInt64_fraction hdigits hshort, Except.ok.injEq] at hread
      refine ⟨signed_of_toInt64 hwhole hnumeral, hzero, hhead _, hshort, .inr ⟨?_, by omega⟩⟩
      intro hlast
      rw [List.getLast?_append_of_ne_nil _ (List.cons_ne_nil _ _), List.getLast?_cons_of_ne_nil hfrac] at hlast
      exact hdigits.not_mem (by decide) (List.mem_of_getLast? hlast)

/-- Without zero bytes and with something behind the dot, what is read writes a number. -/
theorem ReadAs.denotes {text : Bytes} {w f : Int} (h : ReadAs text w f) (hzero : 0 ∉ text)
    (hlast : text.getLast? ≠ some 46) : ∃ negative whole frac, DecimalText negative whole frac text := by
  cases h with
  | whole hdot hwhole =>
    obtain ⟨⟨negative, digits, hnumeral, -⟩, -⟩ := toInt64_eq_ok.mp hwhole
    rw [cStr_of_not_mem hzero] at hnumeral
    exact ⟨negative, digits, [], text, hnumeral, fun _ hc => absurd hc List.not_mem_nil, .inl ⟨rfl, rfl⟩⟩
  | bare hdot hwhole => simp at hlast
  | @fraction a b _ _ hdot hwhole hfrac hshort hread =>
    simp only [List.mem_append, List.mem_cons, not_or] at hzero
    obtain ⟨⟨negative, digits, hnumeral, -⟩, -⟩ := toInt64_eq_ok.mp hwhole
    rw [cStr_of_not_mem hzero.1] at hnumeral
    exact ⟨negative, digits, b, a, hnumeral, digits_of_toInt64_fraction hzero.2.2 hread, .inr rfl⟩

/-- A rate that is not refused: it is stored, or removes what is stored. -/
def Accepted (rate : Int) : Prop := 0 ≤ rate ∨ rate = -1000

/-- Texts the code takes for another number than they write. -/
def Misread (text : Bytes) : Prop :=
  ∃ whole thousandths, ReadAs text whole thousandths ∧ Accepted (wrapInt64 (1000 * whole + thousandths)) ∧
    (0 ∈ text ∨ text.getLast? = some 46 ∨ text.head? = some 45 ∧ whole = 0 ∧ 0 < thousandths ∨
      ¬ InInt64 (1000 * whole + thousandths))

/-- **Accepted texts** are read as the numbers they write, unless they are misread. -/
theorem ReadAs.right {text : Bytes} {w f : Int} (h : ReadAs text w f)
    (haccepted : Accepted (wrapInt64 (1000 * w + f))) (hright : ¬ Misread text) :
    ∃ q, Denotes text q ∧ (wrapInt64 (1000 * w + f) : ℚ) = 1000 * q := by
  have hnone : ¬ (0 ∈ text ∨ text.getLast? = some 46 ∨ text.head? = some 45 ∧ w = 0 ∧ 0 < f ∨
      ¬ InInt64 (1000 * w + f)) := fun hbad => hright ⟨w, f, h, haccepted, hbad⟩
  simp only [not_or, not_and, not_not] at hnone
  obtain ⟨hzero, hlast, hminus, hrange⟩ := hnone
  obtain ⟨negative, whole, frac, htext⟩ := h.denotes hzero hlast
  obtain ⟨hw, -, hhead, hshort, ⟨hdot, -⟩ | ⟨-, hf⟩⟩ := h.decimal htext
  · exact absurd hdot hlast
  obtain ⟨-, -, hdigits, -⟩ := id htext
  have hlt := fractionValue_lt hdigits hshort
  refine ⟨_, ⟨negative, whole, frac, htext, rfl⟩, ?_⟩
  rw [wrapInt64_eq_self_iff.mpr hrange] at haccepted ⊢
  rw [← thousandthsOf_eq hshort]
  norm_cast
  unfold Accepted at haccepted
  unfold thousandthsOf
  cases negative with
  | false =>
    simp only [signed, Bool.false_eq_true, if_false] at hw ⊢
    omega
  | true =>
    have hnot := hminus (hhead.mpr rfl)
    simp only [signed, if_true] at hw ⊢
    omega

/-- **Misread texts** are not. -/
theorem ReadAs.wrong {text : Bytes} {w f : Int} {q : ℚ} (h : ReadAs text w f)
    (haccepted : Accepted (wrapInt64 (1000 * w + f)))
    (hbad : 0 ∈ text ∨ text.getLast? = some 46 ∨ text.head? = some 45 ∧ w = 0 ∧ 0 < f ∨ ¬ InInt64 (1000 * w + f))
    (hq : Denotes text q) : (wrapInt64 (1000 * w + f) : ℚ) ≠ 1000 * q := by
  obtain ⟨negative, whole, frac, htext, rfl⟩ := hq
  obtain ⟨hw, hzero, hhead, hshort, hfrac⟩ := h.decimal htext
  obtain ⟨-, -, hdigits, -⟩ := id htext
  have hlt := fractionValue_lt hdigits hshort
  rw [← thousandthsOf_eq hshort]
  norm_cast
  intro heq
  have hdvd := dvd_of_wrapInt64_eq heq
  have hself := @wrapInt64_eq_self_iff (1000 * w + f)
  rw [heq] at haccepted hself
  unfold Accepted thousandthsOf at haccepted
  unfold thousandthsOf at hdvd hself
  rcases hfrac with ⟨hlast, rfl, hf⟩ | ⟨hlast, hf⟩
  · -- a dot with nothing behind it
    have hnone : fractionValue [] = 0 := rfl
    cases negative <;> simp only [signed, Bool.false_eq_true, if_false, if_true] at hw hdvd <;> omega
  · rcases hbad with hmem | hdot | ⟨hminus, hw0, hpos⟩ | hrange
    · exact hzero hmem
    · exact hlast hdot
    · obtain rfl := hhead.mp hminus
      simp only [signed, if_true] at hw haccepted
      omega
    · refine hrange (hself.mp ?_)
      cases negative <;> simp only [signed, Bool.false_eq_true, if_false, if_true] at hw haccepted ⊢ <;> omega

/-! ## The stored rate -/

/-- The entry for the token and month of the operation. -/
def isInterestOf (op : SetTokenStakingInterestOperation) (i : TokenStakingInterestObject) : Bool :=
  i.token == op.token && i.month == op.month

theorem clash_of_isInterestOf {op : SetTokenStakingInterestOperation} {i j : TokenStakingInterestObject}
    (hi : isInterestOf op i = true) (hj : isInterestOf op j = true) : Clash.clash i j = true := by
  simp only [isInterestOf, Bool.and_eq_true, beq_iff_eq] at hi hj
  show (i.token == j.token && i.month == j.month) = true
  rw [hi.1, hi.2, hj.1, hj.2]
  simp

variable {v : CoreView} {op : SetTokenStakingInterestOperation} {s s' : TokenIndices} {rate : Int}

/-- **What is stored**: nothing for the rate of the removal, and else the rate. -/
theorem storeInterest_eq_ok {u : Unit} (h : storeInterest v op rate s = .ok u s') :
    rate = -1000 ∧ s'.stakingInterests.find? (isInterestOf op) = none ∨
      0 ≤ rate ∧ ∃ r, s'.stakingInterests.find? (isInterestOf op) = some r ∧ r.2.percentInterestRate = rate.toNat := by
  obtain ⟨found, t, hfind, h⟩ := bind_eq_ok.mp h
  obtain ⟨hfound, rfl⟩ := findIn_eq_ok.mp hfind
  by_cases hremove : rate = -stakingInterestPrecision
  · rw [if_pos hremove] at h
    simp only [bind_eq_ok, ofOption_eq_ok, removeIn_eq_ok] at h
    obtain ⟨r, _, ⟨rfl, rfl⟩, rfl⟩ := h
    obtain ⟨hr, hkey⟩ := mem_of_find? hfound
    refine .inl ⟨hremove, ?_⟩
    show (s.stakingInterests.erase r.1).find? (isInterestOf op) = none
    refine List.find?_eq_none.mpr fun q hq hother => ?_
    obtain ⟨hq, hne⟩ := mem_erase.mp hq
    exact hne (congrArg Prod.fst (eq_of_clash hq hr (clash_of_isInterestOf hother hkey)))
  · rw [if_neg hremove] at h
    obtain ⟨_, _, hcheck, h⟩ := bind_eq_ok.mp h
    obtain ⟨hpos, rfl⟩ := fcAssert_eq_ok.mp hcheck
    refine .inr ⟨of_decide_eq_true hpos, ?_⟩
    cases found with
    | none =>
      simp only [bind_eq_ok, pure_eq_ok] at h
      obtain ⟨id, _, hcreate, -, rfl⟩ := h
      obtain ⟨hclash, -, rfl⟩ := createIn_eq_ok.mp hcreate
      have hmem := (mem_insert (h := hclash)).mpr (.inr rfl)
      refine ⟨_, find?_of_mem hmem ?_ ?_, rfl⟩
      · simp [isInterestOf]
      · exact fun a ha => clash_of_isInterestOf ha (by simp [isInterestOf])
    | some r =>
      obtain ⟨a, b, hclash, ha, hb, rfl⟩ := modifyIn_eq_ok.mp h
      cases hb
      obtain ⟨hr, hkey⟩ := mem_of_find? hfound
      obtain rfl : r.2 = a := Option.some.inj ((lookup_eq_some.mpr hr).symm.trans ha)
      have hmem := (mem_replace (h := hclash)).mpr (.inr ⟨rfl, r.2, hr⟩)
      refine ⟨_, find?_of_mem hmem hkey ?_, rfl⟩
      exact fun a ha => clash_of_isInterestOf ha hkey

/-- An accepted rate is stored; the removal needs an entry. -/
theorem storeInterest_returns (haccepted : Accepted rate)
    (hentry : rate = -1000 → (s.stakingInterests.find? (isInterestOf op)).isSome = true) :
    ∃ s', storeInterest v op rate s = .ok () s' := by
  have hfind : (findIn Index.stakingInterests fun i => i.token == op.token && i.month == op.month : TokenM _) s =
      .ok (s.stakingInterests.find? (isInterestOf op)) s := findIn_eq_ok.mpr ⟨rfl, rfl⟩
  unfold storeInterest
  rw [bind_of_ok hfind]
  by_cases hremove : rate = -stakingInterestPrecision
  · obtain ⟨r, hr⟩ := Option.isSome_iff_exists.mp (hentry hremove)
    rw [if_pos hremove, hr]
    exact ⟨_, rfl⟩
  · have hpos : (fcAssert (0 ≤ rate) "interest rate error" : TokenM Unit) s = .ok () s :=
      fcAssert_eq_ok.mpr ⟨decide_eq_true (haccepted.resolve_right hremove), rfl⟩
    rw [if_neg hremove, bind_of_ok hpos]
    cases hfound : s.stakingInterests.find? (isInterestOf op) with
    | none =>
      have hclash : s.stakingInterests.clashes s.stakingInterests.nextId
          { token := op.token, month := op.month, percentInterestRate := rate.toNat, created := v.now,
            lastUpdated := v.now } = false := by
        refine clashes_eq_false fun x hx => ?_
        obtain ⟨i, hi⟩ := mem_values.mp hx
        exact find?_eq_none hfound hi
      dsimp only
      rw [bind_of_ok (createIn_eq_ok.mpr ⟨hclash, rfl, rfl⟩)]
      exact ⟨_, rfl⟩
    | some r =>
      have hr := lookup_eq_some.mpr (mem_of_find? hfound).1
      have hclash : s.stakingInterests.clashes r.1
          { r.2 with percentInterestRate := rate.toNat, lastUpdated := v.now } = false :=
        clashes_of_keys hr fun _ => rfl
      exact ⟨_, modifyIn_eq_ok.mpr ⟨r.2, _, hclash, hr, rfl, rfl⟩⟩

variable {d d' : Database}

theorem setInterest_paid {text : Bytes} :
    (do
      let rate ← checked (parseRate text)
      withView fun v => storeInterest v op rate : ChainM Unit) d = .ok () d' ↔
    ∃ rate s, parseRate text = .ok rate ∧ storeInterest (coreView d.core) op rate d.token = .ok () s ∧
      d' = { d with token := s } := by
  simp only [bind_eq_ok, checked_eq_ok, withView, get_eq_ok, onToken, within_eq_ok]
  constructor
  · rintro ⟨rate, _, ⟨hrate, rfl⟩, _, _, ⟨rfl, rfl⟩, s, hs, rfl⟩
    exact ⟨rate, s, hrate, hs, rfl⟩
  · rintro ⟨rate, s, hrate, hs, rfl⟩
    exact ⟨rate, d, ⟨hrate, rfl⟩, d, d, ⟨rfl, rfl⟩, s, hs, rfl⟩

/-- **The operation** stores the rate its text is read as. -/
theorem setInterest_eq_ok {interest : TokenInterest} {u : Unit}
    (h : tokenEvaluator interest (.setTokenStakingInterest op) d = .ok u d') :
    ∃ rate, parseRate op.percentInterestRate = .ok rate ∧
      storeInterest (coreView d.core) op rate d.token = .ok () d'.token := by
  simp only [tokenEvaluator, setTokenStakingInterestEvaluator, bind_eq_ok, fcAssert_eq_ok] at h
  obtain ⟨r, _, hget, _, _, ⟨-, rfl⟩, hfee⟩ := h
  obtain ⟨rfl, -, -⟩ := requireToken_eq_ok hget
  obtain ⟨d₂, c, hm, rfl⟩ := withDappFee_inside hfee
  obtain ⟨rate, s, hrate, hs, rfl⟩ := setInterest_paid.mp hm
  exact ⟨rate, hrate, hs⟩

theorem setInterest_returns {interest : TokenInterest} {r : Nat × TokenObject} {a : Nat × AccountObject}
    (hr : d.token.tokens.find? (fun t => t.name == op.token) = some r) (hpublisher : r.2.publisher = op.tokenPublisher)
    (ha : d.core.accounts.find? (fun x => x.name == r.2.publisher) = some a)
    (hpayable : FeePayable a.2.balance d.core.dappRewardFund.fundBalance d.core.dgp.dappTransactionFee)
    (hparse : parseRate op.percentInterestRate = .ok rate)
    (hstore : storeInterest (coreView d.core) op rate d.token = .ok () s) :
    ∃ d', tokenEvaluator interest (.setTokenStakingInterest op) d = .ok () d' := by
  obtain ⟨d', hrun⟩ := (withDappFee_returns fun d' h => by
      obtain ⟨rate, s, -, -, rfl⟩ := setInterest_paid.mp h
      rfl).mpr ⟨⟨a, ha, hpayable⟩, _, setInterest_paid.mpr ⟨rate, s, hparse, hstore, rfl⟩⟩
  refine ⟨d', bind_eq_ok.mpr ⟨r, d, ?_, bind_eq_ok.mpr ⟨(), d, ?_, hrun⟩⟩⟩
  · refine within_eq_ok.mpr ⟨d.token, ?_, rfl⟩
    exact bind_eq_ok.mpr ⟨_, _, findIn_eq_ok.mpr ⟨hr, rfl⟩, rfl⟩
  · exact fcAssert_eq_ok.mpr ⟨beq_iff_eq.mpr hpublisher, rfl⟩

/-! ## Texts -/

/-- Wherever the operation with this text is accepted, the text writes a number; minus one removes the entry, and
any other number is not negative and is stored in thousandths. -/
def RateKept (text : Bytes) : Prop :=
  ∀ (env : Env) (d d' : Database) (op : SetTokenStakingInterestOperation), Reached env d →
    op.percentInterestRate = text → (∀ c ∈ op.validate, c.holds = true) →
    tokenEvaluator env.tokenInterest (.setTokenStakingInterest op) d = .ok () d' →
      ∃ q, Denotes text q ∧
        (q = -1 ∧ d'.token.stakingInterests.find? (isInterestOf op) = none ∨
          0 ≤ q ∧ ∃ r, d'.token.stakingInterests.find? (isInterestOf op) = some r ∧
            (r.2.percentInterestRate : ℚ) = 1000 * q)

theorem rateKept_of_not_misread {text : Bytes} (hright : ¬ Misread text) : RateKept text := by
  rintro env d d' op - rfl hvalid h
  obtain ⟨rate, hparse, hstore⟩ := setInterest_eq_ok h
  have hshort : 46 ∈ op.percentInterestRate → (fromDot op.percentInterestRate).length ≤ 3 := by
    intro hdot
    have hcheck := hvalid _ (.tail _ (.tail _ (.tail _ (.tail _ (.head _)))))
    have hdot' : op.percentInterestRate.contains 46 = true := List.contains_iff_mem.mpr hdot
    rw [hdot', Bool.not_true, Bool.false_or] at hcheck
    exact of_decide_eq_true hcheck
  obtain ⟨whole, thousandths, hread, rfl⟩ := readAs_of_parseRate hshort hparse
  rcases storeInterest_eq_ok hstore with ⟨hrate, hnone⟩ | ⟨hpos, r, hr, hstored⟩
  · obtain ⟨q, hq, heq⟩ := hread.right (.inr hrate) hright
    rw [hrate] at heq
    push_cast at heq
    exact ⟨q, hq, .inl ⟨by linarith, hnone⟩⟩
  · obtain ⟨q, hq, heq⟩ := hread.right (.inl hpos) hright
    have hcast : (r.2.percentInterestRate : ℚ) = (wrapInt64 (1000 * whole + thousandths) : ℚ) := by
      rw [hstored]
      exact_mod_cast Int.toNat_of_nonneg hpos
    have hposq : (0 : ℚ) ≤ wrapInt64 (1000 * whole + thousandths) := by exact_mod_cast hpos
    exact ⟨q, hq, .inr ⟨by linarith, r, hr, hcast.trans heq⟩⟩

/-! ## A shop for every text -/

/-- Root sets the interest of the first month. -/
def setCoinInterest (text : Bytes) : SetTokenStakingInterestOperation where
  tokenPublisher := rootAccount
  token := named "coin"
  month := 1
  percentInterestRate := text

theorem reached_stakingState : Reached stakingEnv stakingState := by
  have hreached : ∀ {d}, Reachable stakingEnv anyBlock d → Reached stakingEnv d := by
    intro d h
    induction h with
    | genesis key => exact .genesis key
    | block node b h _ _ happly ih => exact .block node b ih happly
  exact hreached (reachable_stakingState trivial trivial)

/-- Root publishes the coin and can pay the fee, and the first month has an interest. -/
theorem stakingState_shop :
    (stakingState.token.tokens.find? (fun t => t.name == named "coin")).map (fun r => r.2.publisher) =
        some rootAccount ∧
      (stakingState.core.accounts.find? fun a => a.name == rootAccount).map
        (fun r => decide (0 ≤ r.2.balance)) = some true ∧
      stakingState.core.dgp.dappTransactionFee = 0 ∧
      (stakingState.token.stakingInterests.find? fun i => i.token == named "coin" && i.month == 1).isSome = true := by
  decide +kernel

/-- There every accepted text is stored. -/
theorem stakingState_returns {text : Bytes} {rate : Int} (hparse : parseRate text = .ok rate)
    (haccepted : Accepted rate) :
    ∃ d', tokenEvaluator stakingEnv.tokenInterest (.setTokenStakingInterest (setCoinInterest text))
      stakingState = .ok () d' := by
  obtain ⟨htoken, hroot, hfee, hentry⟩ := stakingState_shop
  obtain ⟨r, hr, hpublisher⟩ := Option.map_eq_some_iff.mp htoken
  obtain ⟨a, ha, hbalance⟩ := Option.map_eq_some_iff.mp hroot
  obtain ⟨s, hstore⟩ := @storeInterest_returns (coreView stakingState.core) (setCoinInterest text)
    stakingState.token rate haccepted fun _ => hentry
  have hpayable : FeePayable a.2.balance stakingState.core.dappRewardFund.fundBalance
      stakingState.core.dgp.dappTransactionFee := by
    have hpos : 0 ≤ a.2.balance := of_decide_eq_true hbalance
    rw [hfee]
    exact ⟨hpos, by decide, ⟨_, rfl⟩, _, rfl⟩
  rw [← hpublisher] at ha
  exact setInterest_returns hr hpublisher ha hpayable hparse hstore

theorem ReadAs.validated {text : Bytes} {w f : Int} (h : ReadAs text w f) :
    ∀ c ∈ (setCoinInterest text).validate, c.holds = true := by
  have hnames : (validateAccountName rootAccount).holds = true ∧ (tokenGiven (named "coin")).holds = true := by
    decide +kernel
  have htext : 0 < text.length ∧
      (!text.contains 46 || decide ((fromDot text).length ≤ stakingInterestPrecisionDigits)) = true := by
    cases h with
    | whole hdot hwhole =>
      refine ⟨List.length_pos_iff.mpr ?_, ?_⟩
      · rintro rfl
        cases hwhole
      · simp [hdot]
    | bare hdot hwhole =>
      rw [fromDot_append hdot]
      simp [stakingInterestPrecisionDigits]
    | @fraction intpart frac _ _ hdot hwhole hfrac hshort hread =>
      have hlength : (46 :: frac).length ≤ 3 := by
        rw [List.length_cons]
        omega
      rw [fromDot_append hdot]
      exact ⟨by simp, Bool.or_eq_true_iff.mpr (.inr (decide_eq_true hlength))⟩
  simp only [SetTokenStakingInterestOperation.validate, setCoinInterest, List.forall_mem_cons]
  exact ⟨hnames.1, hnames.2, rfl, decide_eq_true htext.1, htext.2,
    fun c hc => absurd hc List.not_mem_nil⟩

theorem not_rateKept_of_misread {text : Bytes} (h : Misread text) : ¬ RateKept text := by
  obtain ⟨whole, thousandths, hread, haccepted, hbad⟩ := h
  intro hkept
  have hparse := parseRate_of_readAs hread
  obtain ⟨d', hrun⟩ := stakingState_returns hparse haccepted
  obtain ⟨q, hq, hend⟩ := hkept stakingEnv stakingState d' (setCoinInterest text) reached_stakingState rfl
    hread.validated hrun
  refine hread.wrong haccepted hbad hq ?_
  obtain ⟨rate, hparse', hstore⟩ := setInterest_eq_ok hrun
  obtain rfl := Except.ok.inj (hparse.symm.trans hparse')
  rcases storeInterest_eq_ok hstore with ⟨hrate, hnone⟩ | ⟨hpos, r, hr, hstored⟩
  · rcases hend with ⟨rfl, -⟩ | ⟨-, r, hr, -⟩
    · rw [hrate]
      norm_num
    · rw [hnone] at hr
      cases hr
  · rcases hend with ⟨-, hnone⟩ | ⟨-, r', hr', hq'⟩
    · rw [hr] at hnone
      cases hnone
    · obtain rfl := Option.some.inj (hr.symm.trans hr')
      rw [← hq', hstored]
      exact_mod_cast (Int.toNat_of_nonneg hpos).symm

/-- **The text of an interest rate.**  The rate of every accepted operation is the number its text writes, unless
the text is misread: it has a zero byte, ends in its dot, is a negative fraction without a whole part, or its
thousandths do not fit 64 bits. -/
theorem interest_rate_iff (text : Bytes) : RateKept text ↔ ¬ Misread text :=
  ⟨fun hkept hmisread => not_rateKept_of_misread hmisread hkept, rateKept_of_not_misread⟩

/-- The text `-0.5` is stored as one half, and `5.` as 4.001. -/
theorem minus_half_stored : ¬ RateKept (ascii "-0.5".toList) ∧ ¬ RateKept (ascii "5.".toList) := by
  refine ⟨not_rateKept_of_misread ⟨0, 500, ?_, .inl (by decide), .inr (.inr (.inl (by decide)))⟩,
    not_rateKept_of_misread ⟨5, -999, ?_, .inl (by decide), .inr (.inl (by decide))⟩⟩
  · exact @ReadAs.fraction (ascii "-0".toList) (ascii "5".toList) 0 500 (by decide) (by decide)
      (by decide) (by decide) (by decide)
  · exact @ReadAs.bare (ascii "5".toList) 5 (by decide) (by decide)

end Sigmaengine.Token
