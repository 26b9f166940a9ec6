import Mathlib.Data.Finsupp.Order
import Mathlib.Data.Finsupp.Weight
import Mathlib.Logic.Relation
import Mathlib.Tactic.Abel
import Mathlib.Tactic.Linarith

/-!
# The ledger

What the chain is for, without its indices: members hold spendable balances and savings, pools hold
stakes, and every pending payout is a promise against one of them.  A `Step` is one complete movement
of money; nothing else changes a ledger.

`Care` lists what the code does *not* enforce.  With all of it `False` the steps are what the code can
do at all; each invariant below names the part of `Care` it needs, conservation none.
-/

namespace Sigmaengine

open Finsupp

variable {A F : Type}

/-! ## Promises -/

/-- A payout schedule: what is still unpaid, the amount of one instalment, how many instalments come
before the final payment, and the number of months the total was divided by. -/
structure Schedule (A : Type) where
  payee : A
  unpaid : ℤ
  instalment : ℤ
  left : ℕ
  months : ℕ

namespace Schedule

/-- The schedule after one instalment. -/
def next (w : Schedule A) : Schedule A :=
  { w with unpaid := w.unpaid - w.instalment, left := w.left - 1 }

/-- The instalments to come add up to at most what is unpaid. -/
def Fits (w : Schedule A) : Prop := 0 ≤ w.instalment ∧ w.left * w.instalment ≤ w.unpaid

/-- The instalment is a quotient by a number that is not zero. -/
def Payable (w : Schedule A) : Prop := w.left ≠ 0 → w.months ≠ 0

theorem Fits.unpaid_nonneg {w : Schedule A} (h : w.Fits) : 0 ≤ w.unpaid :=
  le_trans (mul_nonneg (Int.natCast_nonneg _) h.1) h.2

theorem Fits.instalment_le {w : Schedule A} (h : w.Fits) (hleft : w.left ≠ 0) : w.instalment ≤ w.unpaid := by
  have hone : (1 : ℤ) ≤ w.left := by exact_mod_cast Nat.pos_of_ne_zero hleft
  exact le_trans (le_mul_of_one_le_left h.1 hone) h.2

theorem Fits.next {w : Schedule A} (h : w.Fits) (hleft : w.left ≠ 0) : w.next.Fits := by
  obtain ⟨n, hn⟩ := Nat.exists_eq_succ_of_ne_zero hleft
  refine ⟨h.1, ?_⟩
  have hsum := h.2
  simp only [Schedule.next, hn, Nat.succ_sub_one] at hsum ⊢
  push_cast at hsum ⊢
  linarith

theorem Payable.next {w : Schedule A} (h : w.Payable) : w.next.Payable := by
  intro hleft
  exact h (by simp only [Schedule.next] at hleft; omega)

end Schedule

/-- A deposit in a pool and what it will be paid back with. -/
structure Stake (A F : Type) where
  owner : A
  pool : F
  amount : ℤ

/-! ## States and steps -/

/-- Who is known, what they hold, and what is promised. -/
structure Ledger (A F : Type) where
  members : Set A
  /-- Members other objects of the chain pay or write to. -/
  named : Set A
  /-- Who may produce blocks, and who produces the current one. -/
  producers : Set A
  producer : A
  pools : Set F
  balance : A →₀ ℤ
  savings : A →₀ ℤ
  pool : F →₀ ℤ
  due : F →₀ ℤ
  reward : ℤ
  supply : ℤ
  fee : ℤ
  feeVotes : Set ℤ
  schedules : Multiset (Schedule A)
  stakes : Multiset (Stake A F)

/-- Conditions on the inputs that the code leaves to its users. -/
structure Care where
  /-- Burns, schedules and stakes are covered. -/
  covered : Prop
  /-- The swept member has no savings. -/
  settled : Prop
  /-- No schedule divides by zero. -/
  payable : Prop

variable (care : Care) (sink : A) (limit : ℤ)

/-- One movement of money. -/
inductive Ledger.Step : Ledger A F → Ledger A F → Prop
  | join (L : Ledger A F) (a : A) : Step L { L with members := insert a L.members }
  | refer (L : Ledger A F) (N P : Set A) (h : ∀ a ∈ N, a ∈ L.named ∨ a ∈ L.members)
      (hP : L.producers ⊆ P) : Step L { L with named := N, producers := P }
  | produce (L : Ledger A F) (a : A) (h : a ∈ L.producers) : Step L { L with producer := a }
  | vote (L : Ledger A F) (V : Set ℤ) (h : ∀ x ∈ V, x ∈ L.feeVotes ∨ 0 ≤ x) :
      Step L { L with feeVotes := V }
  | setFee (L : Ledger A F) (x : ℤ) (h : x ∈ L.feeVotes) : Step L { L with fee := x }
  | print (L : Ledger A F) (a : A) (x : ℤ) (hx : 0 < x) (hlimit : L.supply + x ≤ limit) :
      Step L { L with balance := L.balance + single a x, supply := L.supply + x }
  | burn (L : Ledger A F) (a : A) (x : ℤ) (hx : 0 < x) (h : care.covered → x ≤ L.balance a) :
      Step L { L with balance := L.balance - single a x, supply := L.supply - x }
  | transfer (L : Ledger A F) (a b : A) (x : ℤ) (hx : 0 < x) (h : x ≤ L.balance a) :
      Step L { L with balance := L.balance - single a x + single b x }
  | charge (L : Ledger A F) (a : A) (h : L.fee ≤ L.balance a) :
      Step L { L with balance := L.balance - single a L.fee, reward := L.reward + L.fee }
  | payReward (L : Ledger A F) (a : A) (h : 0 < L.reward) :
      Step L { L with balance := L.balance + single a L.reward, reward := 0 }
  | deposit (L : Ledger A F) (a : A) (w : Schedule A) (hx : 0 < w.unpaid)
      (h : w.unpaid ≤ L.balance a) (hpayee : w.payee ∈ L.members)
      (hfits : care.covered → w.Fits) (hpayable : care.payable → w.Payable) :
      Step L { L with
        balance := L.balance - single a w.unpaid
        savings := L.savings + single w.payee w.unpaid
        schedules := w ::ₘ L.schedules }
  | close (L : Ledger A F) (b : A) (w : Schedule A) (rest : Multiset (Schedule A))
      (hw : L.schedules = w ::ₘ rest) (h : w.unpaid ≤ L.savings w.payee) :
      Step L { L with
        balance := L.balance + single b w.unpaid
        savings := L.savings - single w.payee w.unpaid
        schedules := rest }
  | instalment (L : Ledger A F) (w : Schedule A) (rest : Multiset (Schedule A))
      (hw : L.schedules = w ::ₘ rest) (hleft : w.left ≠ 0) (h : w.instalment ≤ L.savings w.payee) :
      Step L { L with
        balance := L.balance + single w.payee w.instalment
        savings := L.savings - single w.payee w.instalment
        schedules := w.next ::ₘ rest }
  | stake (L : Ledger A F) (p : Stake A F) (x : ℤ) (hx : 0 < x) (h : x ≤ L.balance p.owner)
      (howner : p.owner ∈ L.members) (hpool : p.pool ∈ L.pools) (hdue : care.covered → 0 ≤ p.amount)
      (hlimit : L.due p.pool ≤ limit → L.due p.pool + p.amount ≤ limit) :
      Step L { L with
        balance := L.balance - single p.owner x
        pool := L.pool + single p.pool x
        due := L.due + single p.pool p.amount
        stakes := p ::ₘ L.stakes }
  | unstake (L : Ledger A F) (p : Stake A F) (f : F) (rest : Multiset (Stake A F))
      (hp : L.stakes = p ::ₘ rest) (hpool : f ∈ L.pools) (h : p.amount ≤ L.pool f)
      (hlimit : L.due f ≤ limit → L.due f - p.amount ≤ limit) :
      Step L { L with
        balance := L.balance + single p.owner p.amount
        pool := L.pool - single f p.amount
        due := L.due - single f p.amount
        stakes := rest }
  | donate (L : Ledger A F) (a : A) (f : F) (x : ℤ) (hx : 0 < x) (h : x ≤ L.balance a) :
      Step L { L with balance := L.balance - single a x, pool := L.pool + single f x }
  | sweep (L : Ledger A F) (h : care.settled → L.savings sink ≤ 0) :
      Step L { L with
        balance := L.balance - single sink (max 0 (L.balance sink))
        savings := L.savings - single sink (max 0 (L.savings sink))
        supply := L.supply - (max 0 (L.balance sink) + max 0 (L.savings sink)) }

/-- Any number of movements. -/
def Ledger.Moves : Ledger A F → Ledger A F → Prop := Relation.ReflTransGen (Ledger.Step care sink limit)

variable {care sink limit} {L L' : Ledger A F}

namespace Ledger

theorem Step.moves (h : Step care sink limit L L') : Moves care sink limit L L' :=
  Relation.ReflTransGen.single h

theorem Moves.refl (L : Ledger A F) : Moves care sink limit L L := Relation.ReflTransGen.refl

theorem Moves.trans {L'' : Ledger A F} (h : Moves care sink limit L L')
    (h' : Moves care sink limit L' L'') : Moves care sink limit L L'' :=
  Relation.ReflTransGen.trans h h'

/-- **Invariant rule**: what every step preserves, every run preserves. -/
theorem Moves.preserves {P : Ledger A F → Prop}
    (hstep : ∀ L L', Step care sink limit L L' → P L → P L')
    (h : Moves care sink limit L L') (hP : P L) : P L' := by
  induction h with
  | refl => exact hP
  | tail _ hlast ih => exact hstep _ _ hlast ih

/-- Members stay. -/
theorem Step.members_subset (h : Step care sink limit L L') : L.members ⊆ L'.members := by
  cases h with
  | join a => exact Set.subset_insert a L.members
  | _ => exact subset_rfl

theorem Moves.members_subset (h : Moves care sink limit L L') : L.members ⊆ L'.members := by
  induction h with
  | refl => exact subset_rfl
  | tail _ hlast ih => exact ih.trans hlast.members_subset

/-! ## Conservation -/

/-- The supply is what is held. -/
def Conserved (L : Ledger A F) : Prop :=
  L.supply = L.balance.degree + L.savings.degree + L.pool.degree + L.reward

theorem Conserved.step (h : Step care sink limit L L') (hcons : Conserved L) : Conserved L' := by
  unfold Conserved at *
  cases h <;> simp only [map_add, map_sub, degree_single] <;> omega

theorem Conserved.moves (h : Moves care sink limit L L') (hcons : Conserved L) : Conserved L' :=
  h.preserves (fun _ _ => Conserved.step) hcons

/-! ## Backing -/

/-- What the schedules of a collection still promise, by payee. -/
noncomputable def owed (m : Multiset (Schedule A)) : A →₀ ℤ :=
  (m.map fun w => single w.payee w.unpaid).sum

@[simp] theorem owed_zero : owed (0 : Multiset (Schedule A)) = 0 := rfl

@[simp] theorem owed_cons (w : Schedule A) (m : Multiset (Schedule A)) :
    owed (w ::ₘ m) = single w.payee w.unpaid + owed m := by
  simp [owed]

/-- What the stakes of a collection will be paid, by pool. -/
noncomputable def staked (m : Multiset (Stake A F)) : F →₀ ℤ :=
  (m.map fun p => single p.pool p.amount).sum

@[simp] theorem staked_zero : staked (0 : Multiset (Stake A F)) = 0 := rfl

@[simp] theorem staked_cons (p : Stake A F) (m : Multiset (Stake A F)) :
    staked (p ::ₘ m) = single p.pool p.amount + staked m := by
  simp [staked]

/-- The savings are exactly what the schedules promise. -/
def Backed (L : Ledger A F) : Prop := L.savings = owed L.schedules

/-- The dues are exactly what the stakes will be paid. -/
def DuesBacked (L : Ledger A F) : Prop := L.due = staked L.stakes

theorem Backed.step (hcare : care.settled) (h : Step care sink limit L L') (hback : Backed L) :
    Backed L' := by
  unfold Backed at *
  cases h with
  | deposit =>
    simp only [owed_cons, hback]
    abel
  | close b w rest hw =>
    rw [hw, owed_cons] at hback
    simp only [hback]
    abel
  | instalment w rest hw =>
    rw [hw, owed_cons] at hback
    simp only [hback, owed_cons, Schedule.next, single_sub]
    abel
  | sweep h =>
    simp only [max_eq_left (h hcare), single_zero, sub_zero]
    exact hback
  | _ => exact hback

theorem Backed.moves (hcare : care.settled) (h : Moves care sink limit L L') (hback : Backed L) :
    Backed L' :=
  h.preserves (fun _ _ => Backed.step hcare) hback

/-! ## No negative money -/

/-- A payment that a member can afford leaves nobody in debt. -/
theorem sub_single_nonneg {κ : Type} {f : κ →₀ ℤ} {a : κ} {x : ℤ} (hf : 0 ≤ f) (hx : x ≤ f a) :
    0 ≤ f - single a x := by
  intro b
  by_cases hb : b = a
  · subst hb
    simpa using hx
  · simpa [single_eq_of_ne hb] using hf b

theorem add_single_nonneg {κ : Type} {f : κ →₀ ℤ} {a : κ} {x : ℤ} (hf : 0 ≤ f) (hx : 0 ≤ x) :
    0 ≤ f + single a x :=
  add_nonneg hf (single_nonneg.mpr hx)

/-- Nobody is in debt, and no promise will put anybody there. -/
structure Nonneg (L : Ledger A F) : Prop where
  balance : 0 ≤ L.balance
  savings : 0 ≤ L.savings
  pool : 0 ≤ L.pool
  reward : 0 ≤ L.reward
  fee : 0 ≤ L.fee
  feeVotes : ∀ x ∈ L.feeVotes, 0 ≤ x
  schedules : ∀ w ∈ L.schedules, w.Fits
  stakes : ∀ p ∈ L.stakes, 0 ≤ p.amount

/-- The fee and its votes stay nonnegative whatever is done. -/
def FeeNonneg (L : Ledger A F) : Prop := 0 ≤ L.fee ∧ 0 ≤ L.reward ∧ ∀ x ∈ L.feeVotes, 0 ≤ x

theorem FeeNonneg.step (h : Step care sink limit L L') (hfee : FeeNonneg L) : FeeNonneg L' := by
  obtain ⟨hfee, hreward, hvotes⟩ := hfee
  cases h with
  | vote V h =>
    refine ⟨hfee, hreward, fun x hx => ?_⟩
    rcases h x hx with hold | hnew
    · exact hvotes x hold
    · exact hnew
  | setFee x hx => exact ⟨hvotes x hx, hreward, hvotes⟩
  | charge a h => exact ⟨hfee, add_nonneg hreward hfee, hvotes⟩
  | payReward a h => exact ⟨hfee, le_refl 0, hvotes⟩
  | _ => exact ⟨hfee, hreward, hvotes⟩

theorem Nonneg.step (hcare : care.covered) (h : Step care sink limit L L') (hpos : Nonneg L) :
    Nonneg L' := by
  obtain ⟨hfee, hreward, hvotes⟩ := FeeNonneg.step h ⟨hpos.fee, hpos.reward, hpos.feeVotes⟩
  obtain ⟨hbal, hsav, hpool, -, hfee0, -, hsched, hstakes⟩ := hpos
  cases h with
  | print a x hx => exact ⟨add_single_nonneg hbal hx.le, hsav, hpool, hreward, hfee, hvotes, hsched, hstakes⟩
  | burn a x hx h => exact ⟨sub_single_nonneg hbal (h hcare), hsav, hpool, hreward, hfee, hvotes, hsched, hstakes⟩
  | transfer a b x hx h =>
    exact ⟨add_single_nonneg (sub_single_nonneg hbal h) hx.le, hsav, hpool, hreward, hfee, hvotes, hsched,
      hstakes⟩
  | charge a h => exact ⟨sub_single_nonneg hbal h, hsav, hpool, hreward, hfee, hvotes, hsched, hstakes⟩
  | payReward a h => exact ⟨add_single_nonneg hbal h.le, hsav, hpool, hreward, hfee, hvotes, hsched, hstakes⟩
  | deposit a w hx h hpayee hfits =>
    refine ⟨sub_single_nonneg hbal h, add_single_nonneg hsav hx.le, hpool, hreward, hfee, hvotes, ?_, hstakes⟩
    intro v hv
    rcases Multiset.mem_cons.mp hv with rfl | hv
    · exact hfits hcare
    · exact hsched v hv
  | close b w rest hw h =>
    rw [hw] at hsched
    have hw0 := (hsched w (Multiset.mem_cons_self w rest)).unpaid_nonneg
    refine ⟨add_single_nonneg hbal hw0, sub_single_nonneg hsav h, hpool, hreward, hfee, hvotes, ?_, hstakes⟩
    exact fun v hv => hsched v (Multiset.mem_cons_of_mem hv)
  | instalment w rest hw hleft h =>
    rw [hw] at hsched
    have hfits := hsched w (Multiset.mem_cons_self w rest)
    refine ⟨add_single_nonneg hbal hfits.1, sub_single_nonneg hsav h, hpool, hreward, hfee, hvotes, ?_,
      hstakes⟩
    intro v hv
    rcases Multiset.mem_cons.mp hv with rfl | hv
    · exact hfits.next hleft
    · exact hsched v (Multiset.mem_cons_of_mem hv)
  | stake p x hx h howner hpoolMem hdue =>
    refine ⟨sub_single_nonneg hbal h, hsav, add_single_nonneg hpool hx.le, hreward, hfee, hvotes, hsched, ?_⟩
    intro q hq
    rcases Multiset.mem_cons.mp hq with rfl | hq
    · exact hdue hcare
    · exact hstakes q hq
  | unstake p f rest hp hf h =>
    rw [hp] at hstakes
    have hp0 := hstakes p (Multiset.mem_cons_self p rest)
    refine ⟨add_single_nonneg hbal hp0, hsav, sub_single_nonneg hpool h, hreward, hfee, hvotes, hsched, ?_⟩
    exact fun q hq => hstakes q (Multiset.mem_cons_of_mem hq)
  | donate a f x hx h =>
    exact ⟨sub_single_nonneg hbal h, hsav, add_single_nonneg hpool hx.le, hreward, hfee, hvotes, hsched, hstakes⟩
  | sweep h =>
    exact ⟨sub_single_nonneg hbal (max_le (hbal sink) le_rfl),
      sub_single_nonneg hsav (max_le (hsav sink) le_rfl), hpool, hreward, hfee, hvotes, hsched, hstakes⟩
  | _ => exact ⟨hbal, hsav, hpool, hreward, hfee, hvotes, hsched, hstakes⟩

theorem Nonneg.moves (hcare : care.covered) (h : Moves care sink limit L L') (hpos : Nonneg L) :
    Nonneg L' :=
  h.preserves (fun _ _ => Nonneg.step hcare) hpos

/-! ## Closed under reference -/

/-- Everything the ledger refers to exists, and the supply and the dues are within their limit. -/
structure Closed (sink : A) (limit : ℤ) (L : Ledger A F) : Prop where
  sink_mem : sink ∈ L.members
  producer_mem : L.producer ∈ L.producers
  named : L.named ⊆ L.members
  payees : ∀ w ∈ L.schedules, w.payee ∈ L.members
  owners : ∀ p ∈ L.stakes, p.owner ∈ L.members ∧ p.pool ∈ L.pools
  onePool : L.pools.Subsingleton
  supply : L.supply ≤ limit
  dues : ∀ f, L.due f ≤ limit

/-- Changing one entry of a bounded function to a bounded value. -/
theorem add_single_le {κ : Type} {f : κ →₀ ℤ} {a : κ} {x : ℤ} (hf : ∀ b, f b ≤ limit)
    (hx : f a + x ≤ limit) (b : κ) : (f + single a x) b ≤ limit := by
  by_cases hb : b = a
  · subst hb
    simpa using hx
  · simpa [single_eq_of_ne hb] using hf b

theorem Closed.step (h : Step care sink limit L L') (hclosed : Closed sink limit L) :
    Closed sink limit L' := by
  obtain ⟨hsink, hprod, hnamed, hpayees, howners, hone, hsupply, hdues⟩ := hclosed
  cases h with
  | join a =>
    refine ⟨Set.mem_insert_of_mem _ hsink, hprod, fun b hb => Set.mem_insert_of_mem _ (hnamed hb),
      fun w hw => Set.mem_insert_of_mem _ (hpayees w hw), fun p hp => ?_, hone, hsupply, hdues⟩
    exact ⟨Set.mem_insert_of_mem _ (howners p hp).1, (howners p hp).2⟩
  | produce a h => exact ⟨hsink, h, hnamed, hpayees, howners, hone, hsupply, hdues⟩
  | refer N P h hP =>
    refine ⟨hsink, hP hprod, fun a ha => ?_, hpayees, howners, hone, hsupply, hdues⟩
    rcases h a ha with hold | hnew
    · exact hnamed hold
    · exact hnew
  | print a x hx hlimit => exact ⟨hsink, hprod, hnamed, hpayees, howners, hone, hlimit, hdues⟩
  | burn a x hx h =>
    refine ⟨hsink, hprod, hnamed, hpayees, howners, hone, ?_, hdues⟩
    dsimp only
    omega
  | deposit a w hx h hpayee =>
    refine ⟨hsink, hprod, hnamed, fun v hv => ?_, howners, hone, hsupply, hdues⟩
    rcases Multiset.mem_cons.mp hv with rfl | hv
    · exact hpayee
    · exact hpayees v hv
  | close b w rest hw h =>
    rw [hw] at hpayees
    exact ⟨hsink, hprod, hnamed, fun v hv => hpayees v (Multiset.mem_cons_of_mem hv), howners, hone, hsupply, hdues⟩
  | instalment w rest hw hleft h =>
    rw [hw] at hpayees
    refine ⟨hsink, hprod, hnamed, fun v hv => ?_, howners, hone, hsupply, hdues⟩
    rcases Multiset.mem_cons.mp hv with rfl | hv
    · exact hpayees w (Multiset.mem_cons_self w rest)
    · exact hpayees v (Multiset.mem_cons_of_mem hv)
  | stake p x hx h howner hpool hdue hlimit =>
    refine ⟨hsink, hprod, hnamed, hpayees, fun q hq => ?_, hone, hsupply,
      add_single_le hdues (hlimit (hdues _))⟩
    rcases Multiset.mem_cons.mp hq with rfl | hq
    · exact ⟨howner, hpool⟩
    · exact howners q hq
  | unstake p f rest hp hf h hlimit =>
    rw [hp] at howners
    refine ⟨hsink, hprod, hnamed, hpayees, fun q hq => howners q (Multiset.mem_cons_of_mem hq), hone, hsupply,
      ?_⟩
    dsimp only
    rw [sub_eq_add_neg L.due, ← single_neg]
    exact add_single_le hdues (hlimit (hdues f))
  | sweep h =>
    refine ⟨hsink, hprod, hnamed, hpayees, howners, hone, ?_, hdues⟩
    dsimp only
    omega
  | _ => exact ⟨hsink, hprod, hnamed, hpayees, howners, hone, hsupply, hdues⟩

theorem DuesBacked.step (hclosed : Closed sink limit L) (h : Step care sink limit L L')
    (hback : DuesBacked L) : DuesBacked L' := by
  unfold DuesBacked at *
  cases h with
  | stake =>
    simp only [staked_cons, hback]
    abel
  | unstake p f rest hp hf =>
    -- with one pool, the stake's own pool is the one that pays
    have hsame : p.pool = f :=
      hclosed.onePool (hclosed.owners p (by rw [hp]; exact Multiset.mem_cons_self p rest)).2 hf
    rw [hp, staked_cons, hsame] at hback
    simp only [hback]
    abel
  | _ => exact hback

/-- No schedule divides by zero. -/
def AllPayable (L : Ledger A F) : Prop := ∀ w ∈ L.schedules, w.Payable

theorem AllPayable.step (hcare : care.payable) (h : Step care sink limit L L') (hpay : AllPayable L) :
    AllPayable L' := by
  unfold AllPayable at *
  cases h with
  | deposit a w hx h hpayee hfits hpayable =>
    intro v hv
    rcases Multiset.mem_cons.mp hv with rfl | hv
    · exact hpayable hcare
    · exact hpay v hv
  | close b w rest hw h =>
    rw [hw] at hpay
    exact fun v hv => hpay v (Multiset.mem_cons_of_mem hv)
  | instalment w rest hw hleft h =>
    rw [hw] at hpay
    intro v hv
    rcases Multiset.mem_cons.mp hv with rfl | hv
    · exact (hpay w (Multiset.mem_cons_self w rest)).next
    · exact hpay v (Multiset.mem_cons_of_mem hv)
  | _ => exact hpay

/-! ## All of it -/

/-- Care in every respect. -/
def fullCare : Care := ⟨True, True, True⟩

/-- Everything a careful run keeps. -/
structure Sound (sink : A) (limit : ℤ) (L : Ledger A F) : Prop where
  conserved : Conserved L
  nonneg : Nonneg L
  backed : Backed L
  duesBacked : DuesBacked L
  closed : Closed sink limit L
  payable : AllPayable L

theorem Sound.step (h : Step fullCare sink limit L L') (hsound : Sound sink limit L) :
    Sound sink limit L' where
  conserved := hsound.conserved.step h
  nonneg := hsound.nonneg.step trivial h
  backed := hsound.backed.step trivial h
  duesBacked := hsound.duesBacked.step hsound.closed h
  closed := hsound.closed.step h
  payable := hsound.payable.step trivial h

theorem Sound.moves (h : Moves fullCare sink limit L L') (hsound : Sound sink limit L) :
    Sound sink limit L' :=
  h.preserves (fun _ _ => Sound.step) hsound

theorem apply_le_degree {κ : Type} {f : κ →₀ ℤ} (hf : 0 ≤ f) (a : κ) : f a ≤ f.degree := by
  rw [degree_apply]
  by_cases ha : a ∈ f.support
  · exact Finset.single_le_sum (fun b _ => hf b) ha
  · rw [notMem_support_iff.mp ha]
    exact Finset.sum_nonneg fun b _ => hf b

/-- Whatever is held in one place leaves room in every other. -/
theorem Sound.room (hsound : Sound sink limit L) (a b : A) (f : F) :
    L.balance a + L.savings b + L.pool f + L.reward ≤ L.supply := by
  rw [hsound.conserved]
  have hpos := hsound.nonneg
  have := apply_le_degree hpos.balance a
  have := apply_le_degree hpos.savings b
  have := apply_le_degree hpos.pool f
  omega

theorem single_le_owed {m : Multiset (Schedule A)} (hm : ∀ w ∈ m, 0 ≤ w.unpaid) {w : Schedule A}
    (hw : w ∈ m) : w.unpaid ≤ owed m w.payee := by
  obtain ⟨rest, rfl⟩ := Multiset.exists_cons_of_mem hw
  have hrest : 0 ≤ owed rest := by
    refine Multiset.sum_nonneg fun x hx => ?_
    obtain ⟨v, hv, rfl⟩ := Multiset.mem_map.mp hx
    exact single_nonneg.mpr (hm v (Multiset.mem_cons_of_mem hv))
  rw [owed_cons, Finsupp.add_apply, single_eq_same]
  have := hrest w.payee
  simp only [coe_zero, Pi.zero_apply] at this
  omega

theorem single_le_staked {m : Multiset (Stake A F)} (hm : ∀ p ∈ m, 0 ≤ p.amount) {p : Stake A F}
    (hp : p ∈ m) : p.amount ≤ staked m p.pool := by
  obtain ⟨rest, rfl⟩ := Multiset.exists_cons_of_mem hp
  have hrest : 0 ≤ staked rest := by
    refine Multiset.sum_nonneg fun x hx => ?_
    obtain ⟨v, hv, rfl⟩ := Multiset.mem_map.mp hx
    exact single_nonneg.mpr (hm v (Multiset.mem_cons_of_mem hv))
  rw [staked_cons, Finsupp.add_apply, single_eq_same]
  have := hrest p.pool
  simp only [coe_zero, Pi.zero_apply] at this
  omega

/-- What a schedule promises is there. -/
theorem Sound.unpaid_le (hsound : Sound sink limit L) {w : Schedule A} (hw : w ∈ L.schedules) :
    w.unpaid ≤ L.savings w.payee := by
  rw [hsound.backed]
  exact single_le_owed (fun v hv => (hsound.nonneg.schedules v hv).unpaid_nonneg) hw

/-- What a stake will be paid is counted as due. -/
theorem Sound.amount_le_due (hsound : Sound sink limit L) {p : Stake A F} (hp : p ∈ L.stakes) :
    p.amount ≤ L.due p.pool := by
  rw [hsound.duesBacked]
  exact single_le_staked hsound.nonneg.stakes hp

end Ledger

end Sigmaengine
