import Mathlib.Data.List.Induction
import Mathlib.Data.List.TakeWhile
import Mathlib.Tactic.Ring

/-!
# Byte strings of a fixed width

Texts stored in `w` bytes: cut off or padded with zero bytes, read as one big-endian number.  The order
of the numbers is the lexicographic order of the stored bytes, and it is also that of the texts once
the padding is taken off, as long as no text ends in a zero byte.
-/

namespace Bytes

/-! ## Big-endian numbers -/

/-- The number whose base 256 digits are the bytes, most significant first. -/
def bigEndian (s : List UInt8) : Nat := s.foldl (fun n b => 256 * n + b.toNat) 0

theorem foldl_digits (s : List UInt8) (n : Nat) :
    s.foldl (fun n b => 256 * n + b.toNat) n = n * 256 ^ s.length + bigEndian s := by
  unfold bigEndian
  induction s generalizing n with
  | nil => simp
  | cons b s ih =>
    rw [List.foldl_cons, List.foldl_cons, ih, ih (256 * 0 + b.toNat), List.length_cons]
    ring

@[simp] theorem bigEndian_nil : bigEndian [] = 0 := rfl

theorem bigEndian_append (s t : List UInt8) :
    bigEndian (s ++ t) = bigEndian s * 256 ^ t.length + bigEndian t := by
  rw [bigEndian, List.foldl_append, foldl_digits]
  rfl

theorem bigEndian_cons (b : UInt8) (s : List UInt8) :
    bigEndian (b :: s) = b.toNat * 256 ^ s.length + bigEndian s := by
  rw [← List.singleton_append, bigEndian_append]
  simp [bigEndian]

theorem bigEndian_zeros (n : Nat) : bigEndian (List.replicate n 0) = 0 := by
  induction n with
  | zero => rfl
  | succ n ih => rw [List.replicate_succ, bigEndian_cons, ih]; simp

theorem bigEndian_lt (s : List UInt8) : bigEndian s < 256 ^ s.length := by
  induction s with
  | nil => simp
  | cons b s ih =>
    rw [bigEndian_cons, List.length_cons, pow_succ]
    have hb : b.toNat < 256 := b.toNat_lt
    have hmul : b.toNat * 256 ^ s.length + 256 ^ s.length ≤ 256 * 256 ^ s.length := by
      rw [← Nat.succ_mul]
      exact Nat.mul_le_mul_right _ hb
    omega

/-- The last digit. -/
theorem bigEndian_concat_mod (s : List UInt8) (b : UInt8) : bigEndian (s ++ [b]) % 256 = b.toNat := by
  have hb : b.toNat < 256 := b.toNat_lt
  rw [bigEndian_append]
  simp only [bigEndian_cons, bigEndian_nil, List.length_cons, List.length_nil]
  omega

/-- **Order**: between texts of one length the numbers are ordered as the texts. -/
theorem bigEndian_lt_iff {s t : List UInt8} (h : s.length = t.length) :
    bigEndian s < bigEndian t ↔ s < t := by
  induction s generalizing t with
  | nil =>
    cases t with
    | nil => simp
    | cons b t => simp at h
  | cons a s ih =>
    cases t with
    | nil => simp at h
    | cons b t =>
      have hlen : s.length = t.length := by simpa using h
      have hs := bigEndian_lt s
      have ht := bigEndian_lt t
      rw [List.cons_lt_cons_iff, ← ih hlen, bigEndian_cons, bigEndian_cons, hlen, UInt8.lt_iff_toNat_lt]
      rw [hlen] at hs
      rcases Nat.lt_trichotomy a.toNat b.toNat with hab | hab | hab
      · have hmul := Nat.mul_le_mul_right (256 ^ t.length) (Nat.succ_le_of_lt hab)
        rw [Nat.succ_mul] at hmul
        constructor
        · intro _
          exact .inl hab
        · intro _
          omega
      · have hab' : a = b := UInt8.toNat_inj.mp hab
        subst hab'
        simp
      · have hmul := Nat.mul_le_mul_right (256 ^ t.length) (Nat.succ_le_of_lt hab)
        rw [Nat.succ_mul] at hmul
        constructor
        · intro hlt
          omega
        · rintro (hlt | ⟨rfl, -⟩)
          · omega
          · omega

/-- The digits of a number, most significant first. -/
def digits (w n : Nat) : List UInt8 := (List.range w).map fun i => UInt8.ofNat (n / 256 ^ (w - 1 - i) % 256)

theorem length_digits (w n : Nat) : (digits w n).length = w := by simp [digits]

theorem digits_succ (w n : Nat) : digits (w + 1) n = digits w (n / 256) ++ [UInt8.ofNat (n % 256)] := by
  unfold digits
  rw [List.range_succ, List.map_append]
  congr 1
  · refine List.map_congr_left fun i hi => ?_
    have hlt : i < w := List.mem_range.mp hi
    rw [Nat.div_div_eq_div_mul, ← pow_succ', show w - 1 - i + 1 = w + 1 - 1 - i by omega]
  · simp

theorem digits_bigEndian (s : List UInt8) : digits s.length (bigEndian s) = s := by
  induction s using List.reverseRecOn with
  | nil => rfl
  | append_singleton s b ih =>
    have hb : b.toNat < 256 := b.toNat_lt
    have hdiv : bigEndian (s ++ [b]) / 256 = bigEndian s := by
      rw [bigEndian_append]
      simp only [bigEndian_cons, bigEndian_nil, List.length_cons, List.length_nil]
      omega
    rw [List.length_append, List.length_singleton, digits_succ, bigEndian_concat_mod, hdiv, ih,
      UInt8.ofNat_toNat]

theorem bigEndian_digits {w n : Nat} (h : n < 256 ^ w) : bigEndian (digits w n) = n := by
  induction w generalizing n with
  | zero => simp at h; simp [h, digits]
  | succ w ih =>
    have hdiv : n / 256 < 256 ^ w := by
      rw [pow_succ] at h
      omega
    have hmod : n % 256 % 2 ^ 8 = n % 256 := by omega
    rw [digits_succ, bigEndian_append, ih hdiv]
    simp only [bigEndian_cons, bigEndian_nil, List.length_cons, List.length_nil, UInt8.toNat_ofNat', hmod]
    omega

/-! ## Padding and its removal -/

/-- The `w` bytes a text is stored in. -/
def stored (w : Nat) (s : List UInt8) : List UInt8 := s.take w ++ List.replicate (w - s.length) 0

theorem length_stored (w : Nat) (s : List UInt8) : (stored w s).length = w := by
  simp [stored]
  omega

theorem stored_self (s : List UInt8) : stored s.length s = s := by simp [stored]

theorem bigEndian_stored (w : Nat) (s : List UInt8) :
    bigEndian (stored w s) = bigEndian (s.take w) * 256 ^ (w - s.length) := by
  rw [stored, bigEndian_append, bigEndian_zeros, List.length_replicate, Nat.add_zero]

/-- The text that is read from stored bytes: all of them when the last one is set, else those before
the first zero. -/
def text (p : List UInt8) : List UInt8 :=
  if p.getLast? = some 0 then p.takeWhile (· != 0) else p

/-- Stored bytes that are the padding of the text read from them: the last one is set, or only zeros
follow a zero. -/
def Canonical (p : List UInt8) : Prop :=
  p.getLast? ≠ some 0 ∨ ∀ b ∈ p.dropWhile (· != 0), b = 0

instance (p : List UInt8) : Decidable (Canonical p) := inferInstanceAs (Decidable (_ ∨ _))

theorem stored_text_iff (p : List UInt8) : stored p.length (text p) = p ↔ Canonical p := by
  by_cases hlast : p.getLast? = some 0
  · have hsplit : p.takeWhile (· != 0) ++ p.dropWhile (· != 0) = p := List.takeWhile_append_dropWhile
    have hlen : (p.takeWhile (· != 0)).length + (p.dropWhile (· != 0)).length = p.length := by
      rw [← List.length_append, hsplit]
    have htake : (p.takeWhile (· != 0)).take p.length = p.takeWhile (· != 0) :=
      List.take_of_length_le (by omega)
    have hsub : p.length - (p.takeWhile (· != 0)).length = (p.dropWhile (· != 0)).length := by omega
    simp only [text, hlast, if_true, Canonical, ne_eq, not_true_eq_false, false_or, stored, htake, hsub]
    constructor
    · intro h b hb
      have hzeros : List.replicate (p.dropWhile (· != 0)).length 0 = p.dropWhile (· != 0) :=
        List.append_cancel_left (h.trans hsplit.symm)
      rw [← hzeros] at hb
      exact List.eq_of_mem_replicate hb
    · intro h
      rw [← List.eq_replicate_of_mem h]
      exact hsplit
  · simp only [text, hlast, if_false, Canonical, ne_eq, not_false_eq_true, true_or, iff_true]
    exact stored_self p

/-- The text read from stored bytes does not end in a zero byte. -/
theorem getLast?_text (p : List UInt8) : (text p).getLast? ≠ some 0 := by
  unfold text
  split
  · intro h
    have hmem := List.mem_of_getLast? h
    have := List.mem_takeWhile_imp hmem
    simp at this
  · assumption

theorem length_text_le (p : List UInt8) : (text p).length ≤ p.length := by
  unfold text
  split
  · exact (List.takeWhile_prefix _).length_le
  · exact le_rfl

/-- Storing a text that was read does not change what is read. -/
theorem text_stored_text (p : List UInt8) : text (stored p.length (text p)) = text p := by
  by_cases hlast : p.getLast? = some 0
  · have htext : text p = p.takeWhile (· != 0) := if_pos hlast
    have hset : ∀ b ∈ text p, (b != 0) = true := by
      intro b hb
      rw [htext] at hb
      exact List.mem_takeWhile_imp (p := (· != 0)) hb
    have hshort : (text p).length < p.length := by
      refine lt_of_le_of_ne (length_text_le p) fun hlen => ?_
      have heq : text p = p := by
        rw [htext] at hlen ⊢
        exact (List.takeWhile_prefix _).eq_of_length hlen
      have hzero := hset 0 (by rw [heq]; exact List.mem_of_getLast? hlast)
      cases hzero
    obtain ⟨k, hk⟩ : ∃ k, p.length - (text p).length = k + 1 := ⟨_, (Nat.sub_add_cancel (by omega : 1 ≤ _)).symm⟩
    have hend : (stored p.length (text p)).getLast? = some 0 := by
      rw [stored, hk, List.replicate_succ', ← List.append_assoc, List.getLast?_concat]
    rw [text, if_pos hend, stored, hk, List.take_of_length_le hshort.le, List.takeWhile_append_of_pos hset, List.replicate_succ,
      List.takeWhile_cons_of_neg (by decide), List.append_nil]
  · have htext : text p = p := if_neg hlast
    rw [htext, stored_self, htext]

theorem getLast?_tail {a : UInt8} {s : List UInt8} (h : (a :: s).getLast? ≠ some 0) :
    s.getLast? ≠ some 0 := by
  cases s with
  | nil => simp
  | cons b s => rwa [List.getLast?_cons_cons] at h

/-- Zeros are the least text of their length. -/
theorem not_lt_zeros {s : List UInt8} {n : Nat} (h : s.length = n) : ¬ s < List.replicate n 0 := by
  induction s generalizing n with
  | nil => subst h; simp
  | cons a s ih =>
    subst h
    rw [List.length_cons, List.replicate_succ, List.cons_lt_cons_iff, UInt8.lt_iff_toNat_lt]
    rintro (hlt | ⟨-, hlt⟩)
    · simp at hlt
    · exact ih rfl hlt

/-- **Padding keeps the order** of texts that do not end in a zero byte. -/
theorem pad_lt_pad {u v : List UInt8} {k m : Nat} (hu : u.getLast? ≠ some 0) (hv : v.getLast? ≠ some 0)
    (h : u.length + k = v.length + m) :
    u ++ List.replicate k 0 < v ++ List.replicate m 0 ↔ u < v := by
  induction u generalizing v k m with
  | nil =>
    induction v generalizing k with
    | nil =>
      have hkm : k = m := by simpa using h
      simp [hkm, List.lt_irrefl]
    | cons b v ih =>
      obtain ⟨k, rfl⟩ : ∃ j, k = j + 1 := ⟨k - 1, by simp at h; omega⟩
      simp only [List.nil_append, List.replicate_succ, List.cons_append, List.cons_lt_cons_iff,
        List.nil_lt_cons, iff_true]
      by_cases hb : b = 0
      · -- a leading zero is no end of the text, so more of it follows
        subst hb
        have hne : v ≠ [] := by
          rintro rfl
          exact hv rfl
        have hv' : v.getLast? ≠ some 0 := getLast?_tail hv
        refine .inr ⟨rfl, ?_⟩
        have hnil : [] < v := by
          obtain ⟨c, v', rfl⟩ := List.exists_cons_of_ne_nil hne
          exact List.nil_lt_cons c v'
        have hrest := (ih (k := k) hv' (by simp at h ⊢; omega)).mpr hnil
        simpa using hrest
      · left
        rw [UInt8.lt_iff_toNat_lt]
        have hne : b.toNat ≠ 0 := fun h0 => hb (UInt8.toNat_inj.mp h0)
        simp
        omega
  | cons a u ih =>
    cases v with
    | nil =>
      have hlen : (a :: u ++ List.replicate k 0).length = m := by simp at h ⊢; omega
      rw [List.nil_append]
      constructor
      · intro hlt
        exact absurd hlt (not_lt_zeros hlen)
      · intro hlt
        exact absurd hlt (List.not_lt_nil _)
    | cons b v =>
      have hu' : u.getLast? ≠ some 0 := getLast?_tail hu
      have hv' : v.getLast? ≠ some 0 := getLast?_tail hv
      have hlen : u.length + k = v.length + m := by simp at h; omega
      rw [List.cons_append, List.cons_append, List.cons_lt_cons_iff, List.cons_lt_cons_iff, ih hu' hv' hlen]

/-- **Texts and their padding**: canonical bytes of one width are ordered as the texts read from them. -/
theorem text_lt_text_iff {p q : List UInt8} (h : p.length = q.length) (hp : Canonical p)
    (hq : Canonical q) : text p < text q ↔ p < q := by
  have hpad : ∀ {r : List UInt8}, Canonical r →
      text r ++ List.replicate (r.length - (text r).length) 0 = r := by
    intro r hr
    have hstored := (stored_text_iff r).mpr hr
    rwa [stored, List.take_of_length_le (length_text_le r)] at hstored
  have hlen : (text p).length + (p.length - (text p).length) =
      (text q).length + (q.length - (text q).length) := by
    have := length_text_le p
    have := length_text_le q
    omega
  have hlt := pad_lt_pad (getLast?_text p) (getLast?_text q) hlen
  rw [hpad hp, hpad hq] at hlt
  exact hlt.symm

theorem text_inj {p q : List UInt8} (h : p.length = q.length) (hp : Canonical p) (hq : Canonical q)
    (heq : text p = text q) : p = q := by
  rw [← (stored_text_iff p).mpr hp, ← (stored_text_iff q).mpr hq, heq, h]

end Bytes
