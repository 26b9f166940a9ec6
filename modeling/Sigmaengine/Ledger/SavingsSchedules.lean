import Sigmaengine.Ledger.Progress
import Sigmaengine.Lib.Instalments

/-!
# What a schedule of the core pays

A schedule of `transfer_savings` is known by its sender and request id: each instalment replaces its object by
another one with the same key.  A `SavingsRun` is what happens to the index of the schedules from then on, with a
record of the instalments of one of them: when each was paid, and what the balance of the recipient has grown by.

The byte that counts the instalments is compared with the month for equality, and the date is a sum of 32 bits, so
the record is that of a plan only where the order starts at the month or below (`Fits`) and the dates do not wrap.
-/

namespace Sigmaengine

open Effect Table Instalments

variable {c c' : Core} {u : Unit} {id : Nat} {w : SavingsWithdrawObject} {next : Option Nat}
  {o : TransferSavingsOperation}

/-! ## Balances -/

/-- The balance of an account. -/
def accountBalance (c : Core) (n : AccountName) : ℤ :=
  ((c.accounts.at? fun a => a.name == n).map fun a => a.balance).getD 0

theorem accountBalance_eq {n : AccountName} (h : n ∈ memberNames c.accounts) :
    accountBalance c n = balances c.accounts n := by
  obtain ⟨a, ha, rfl⟩ := h
  obtain ⟨i, hi⟩ := mem_values.mp ha
  have hkey : UniqueKey fun b : AccountObject => b.name == a.name := fun x y hx hy =>
    clash_of_name_eq _ _ ((beq_iff_eq.mp hx).trans (beq_iff_eq.mp hy).symm)
  unfold accountBalance
  rw [(at?_eq_some hkey).mpr ⟨ha, beq_self_eq_true _⟩, (found_of_mem hi).balance]
  rfl

/-- What the balance of an account has grown by. -/
def growth (n : AccountName) (c c' : Core) : ℤ := accountBalance c' n - accountBalance c n

theorem growth_of_pay {r : Nat × AccountObject} {n : AccountName} {x : ℤ} (hfound : Found c.accounts n r)
    (h : paySavings r x c = .ok u c') :
    ∃ a, c' = { c with accounts := a } ∧ ∀ t, growth n c { c with accounts := a, savingsWithdraws := t } = x := by
  obtain ⟨-, a, rfl, hmoved⟩ := paySavings_eq_ok hfound h
  refine ⟨a, rfl, fun t => ?_⟩
  have hmember : n ∈ memberNames a := hmoved.members ▸ hfound.member
  unfold growth
  rw [accountBalance_eq (c := { c with accounts := a, savingsWithdraws := t }) hmember,
    accountBalance_eq hfound.member, hmoved.balance, Finsupp.add_apply, Finsupp.single_eq_same]
  omega

/-! ## One round -/

/-- What a schedule pays per month. -/
def SavingsWithdrawObject.monthly (w : SavingsWithdrawObject) : ℤ := w.totalAmount.tdiv w.splitPayMonth.toNat

/-- **One round**, inverted: it stops at a date to come, or pays the last instalment, or another one. -/
theorem processSavingsWithdraw_eq_ok (h : processSavingsWithdraw id c = .ok next c') :
    ∃ w, c.savingsWithdraws.lookup id = some w ∧
      ((c.dgp.time < w.complete ∧ next = none ∧ c' = c) ∨
        (w.complete ≤ c.dgp.time ∧ w.splitPayOrder = w.splitPayMonth ∧
          next = frontOf (c.savingsWithdraws.erase id) ∧
          ∃ a, c' = { c with accounts := a, savingsWithdraws := c.savingsWithdraws.erase id } ∧
            growth w.to_ c c' = w.amount) ∨
        (w.complete ≤ c.dgp.time ∧ w.splitPayOrder ≠ w.splitPayMonth ∧
          next = frontOf (c.savingsWithdraws.erase id) ∧
          ∃ a hc, c' = { c with
              accounts := a
              savingsWithdraws := (c.savingsWithdraws.erase id).insert (nextInstalment w (w.amount - w.monthly)) hc } ∧
            growth w.to_ c c' = w.monthly)) := by
  simp only [processSavingsWithdraw, bind_eq_ok, get_eq_ok, ofOption_eq_ok] at h
  obtain ⟨_, _, ⟨rfl, rfl⟩, w, _, ⟨hw, rfl⟩, h⟩ := h
  refine ⟨w, hw, ?_⟩
  split at h
  next hlater =>
    obtain ⟨rfl, rfl⟩ := pure_eq_ok.mp h
    exact .inl ⟨hlater, rfl, rfl⟩
  next hdue =>
    split at h
    next hlast =>
      simp only [payFinal, bind_eq_ok, removeIn_eq_ok, firstSavingsWithdraw, get_eq_ok, pure_eq_ok] at h
      obtain ⟨q, _, hget, _, _, hpay, _, _, rfl, _, _, ⟨rfl, rfl⟩, rfl, rfl⟩ := h
      obtain ⟨rfl, hfound⟩ := getAccount_eq_ok hget
      obtain ⟨a, rfl, hgrowth⟩ := growth_of_pay hfound hpay
      exact .inr (.inl ⟨not_lt.mp hdue, hlast, rfl, a, rfl, hgrowth _⟩)
    next hmore =>
      simp only [payInstalment, bind_eq_ok, removeIn_eq_ok, firstSavingsWithdraw, get_eq_ok, pure_eq_ok,
        checked_eq_ok, createIn_eq_ok] at h
      obtain ⟨q, _, hget, m, _, ⟨hdiv, rfl⟩, _, _, hpay, _, _, rfl, _, _, ⟨_, _, ⟨rfl, rfl⟩, rfl, rfl⟩, rest, _,
        ⟨hrest, rfl⟩, _, _, ⟨hc, -, rfl⟩, rfl, rfl⟩ := h
      obtain ⟨rfl, hfound⟩ := getAccount_eq_ok hget
      obtain rfl : m = w.monthly := (safeDiv_eq_ok hdiv).1
      obtain rfl := safeSub_eq_ok hrest
      obtain ⟨a, rfl, hgrowth⟩ := growth_of_pay hfound hpay
      exact .inr (.inr ⟨not_lt.mp hdue, hmore, rfl, a, hc, rfl, hgrowth _⟩)

/-! ## The loop ends -/

theorem adjust_ne_diverged (field : ℤ) (delta : Asset) : adjust field delta ≠ .error .diverged := by
  unfold adjust safeAdd
  split
  · split
    · simp
    · split <;> simp
  · simp

theorem neg_ne_diverged (a : Asset) : a.neg ≠ .error .diverged := by
  refine map_ne_error _ ?_
  unfold safeNeg
  split <;> simp

theorem avoids_adjustBalance (account : Nat) (delta : Asset) : Avoids .diverged (adjustBalance account delta) :=
  avoids_modifyIn (by decide) (by decide) fun _ => map_ne_error _ (adjust_ne_diverged _ _)

theorem avoids_adjustSavingsBalance (account : Nat) (delta : Asset) :
    Avoids .diverged (adjustSavingsBalance account delta) :=
  avoids_modifyIn (by decide) (by decide) fun _ => map_ne_error _ (adjust_ne_diverged _ _)

theorem avoids_paySavings (account : Nat × AccountObject) (x : ℤ) : Avoids .diverged (paySavings account x) := by
  refine avoids_bind (avoids_assert (by simp) _) fun _ => avoids_bind (avoids_adjustBalance _ _) fun _ => ?_
  exact avoids_bind (avoids_checked (neg_ne_diverged _)) fun delta => avoids_adjustSavingsBalance _ _

theorem avoids_firstSavingsWithdraw : Avoids .diverged firstSavingsWithdraw :=
  avoids_bind avoids_get fun _ => avoids_pure _

theorem avoids_payFinal (id : Nat) (w : SavingsWithdrawObject) : Avoids .diverged (payFinal id w) := by
  refine avoids_bind (avoids_getIn (by decide) _) fun q => avoids_bind (avoids_paySavings _ _) fun _ => ?_
  exact avoids_bind (avoids_removeIn id) fun _ => avoids_firstSavingsWithdraw

theorem avoids_payInstalment (id : Nat) (w : SavingsWithdrawObject) : Avoids .diverged (payInstalment id w) := by
  have hdiv : safeDiv w.totalAmount w.splitPayMonth.toNat ≠ .error .diverged := by
    unfold safeDiv
    split
    · simp
    · split <;> simp
  have hsub : ∀ m, safeSub w.amount m ≠ .error .diverged := by
    intro m
    unfold safeSub
    split
    · simp
    · split <;> simp
  refine avoids_bind (avoids_getIn (by decide) _) fun q => avoids_bind (avoids_checked hdiv) fun m => ?_
  refine avoids_bind (avoids_paySavings _ _) fun _ => avoids_bind (avoids_removeIn id) fun _ => ?_
  refine avoids_bind avoids_firstSavingsWithdraw fun next => avoids_bind (avoids_checked (hsub m)) fun rest => ?_
  exact avoids_bind (avoids_createIn (by decide) _) fun _ => avoids_pure next

theorem avoids_processSavingsWithdraw (id : Nat) : Avoids .diverged (processSavingsWithdraw id) := by
  refine avoids_bind avoids_get fun c => avoids_bind ?_ fun w => ?_
  · cases c.savingsWithdraws.lookup id with
    | none => exact avoids_throw (by decide)
    | some w => exact avoids_pure w
  · split
    · exact avoids_pure none
    · split
      · exact avoids_payFinal id w
      · exact avoids_payInstalment id w

/-- Every round that goes on leaves fewer instalments. -/
theorem instalmentsLeft_lt {j : Nat} (h : processSavingsWithdraw id c = .ok (some j) c') :
    instalmentsLeft c'.savingsWithdraws < instalmentsLeft c.savingsWithdraws := by
  obtain ⟨w, hw, ⟨-, hnone, -⟩ | ⟨-, -, -, a, rfl, -⟩ | ⟨-, hmore, -, a, hc, rfl, -⟩⟩ := processSavingsWithdraw_eq_ok h
  · cases hnone
  · rw [instalmentsLeft_erase (lookup_eq_some.mp hw)]
    change instalmentsLeft (c.savingsWithdraws.erase id) < _
    omega
  · have hleft := sub_ne_zero_toNat hmore
    have hnext := schedule_nextInstalment hmore
    rw [instalmentsLeft_erase (lookup_eq_some.mp hw)]
    change instalmentsLeft ((c.savingsWithdraws.erase id).insert _ hc) < _
    simp only [instalmentsLeft, values_insert, Multiset.map_cons, Multiset.sum_cons]
    have hschedule : (nextInstalment w (w.amount - w.monthly)).schedule.left = w.schedule.left - 1 :=
      congrArg Schedule.left hnext
    rw [hschedule]
    simp only [SavingsWithdrawObject.schedule]
    omega

/-- **Termination**: the loop of `process_savings_withdraws` always comes to an end. -/
theorem processSavingsWithdraws_ends (c c' : Core) : processSavingsWithdraws c ≠ .error .diverged c' := by
  unfold processSavingsWithdraws
  rw [bind_of_ok (get_apply c), bind_of_ok (show firstSavingsWithdraw c = .ok (frontOf c.savingsWithdraws) c from rfl)]
  have hfuel := instalmentsLeft_le c.savingsWithdraws
  exact avoids_follow (μ := fun c => instalmentsLeft c.savingsWithdraws) avoids_processSavingsWithdraw
    (fun _ _ _ _ => instalmentsLeft_lt) (by omega)

/-! ## What is left due -/

/-- No schedule is due. -/
def NoSavingsDue (c : Core) : Prop := ∀ id w, c.savingsWithdraws.lookup id = some w → c.dgp.time < w.complete

/-- A schedule that pays an instalment is not due again. -/
def SavingsNotBehind (c : Core) : Prop :=
  ∀ id w, c.savingsWithdraws.lookup id = some w → w.complete ≤ c.dgp.time → w.splitPayOrder ≠ w.splitPayMonth →
    c.dgp.time < addSeconds w.complete transferSavingsCycle

/-- At a date to come the loop may stop: nothing is due then. -/
def Stoppable (c : Core) (cursor : Option Nat) : Prop :=
  (∀ id w, cursor = some id → c.savingsWithdraws.lookup id = some w → c.dgp.time < w.complete → NoSavingsDue c) ∧
    (cursor = none → NoSavingsDue c)

theorem complete_le_of_front {t : Table SavingsWithdrawObject} (hfront : frontOf t = some id)
    (hw : t.lookup id = some w) {x : Nat} {y : SavingsWithdrawObject} (hy : t.lookup x = some y) :
    w.complete ≤ y.complete := by
  obtain ⟨r, hr, rfl⟩ := Option.map_eq_some_iff.mp hfront
  obtain rfl : r.2 = w := Option.some.inj ((lookup_eq_some.mpr (mem_of_least? hr)).symm.trans hw)
  refine least?_key_le (k := SavingsWithdrawObject.complete) ?_ ?_ hr (lookup_eq_some.mp hy)
  · intro a b hless
    simp only [SavingsWithdrawObject.before, Bool.or_eq_true, Bool.and_eq_true, decide_eq_true_eq, beq_iff_eq] at hless
    rcases hless with hless | hless
    · exact le_of_lt hless
    · exact le_of_eq hless.1
  · intro a b hnot
    simp only [SavingsWithdrawObject.before, Bool.or_eq_false_iff, decide_eq_false_iff_not] at hnot
    exact not_lt.mp hnot.1

theorem eq_none_of_front {t : Table SavingsWithdrawObject} (hfront : frontOf t = none) (x : Nat) :
    t.lookup x = none := by
  have hrows := rows_of_least?_none (Option.map_eq_none_iff.mp hfront)
  rw [Option.eq_none_iff_forall_ne_some]
  intro y hy
  have hmem := lookup_eq_some.mp hy
  rw [hrows] at hmem
  cases hmem

/-- The front of the index is a good place to stop, also of an index with one more date to come. -/
theorem stoppable_front {t : Table SavingsWithdrawObject} (htime : c'.dgp.time = c.dgp.time)
    (hfrom : ∀ x y, c'.savingsWithdraws.lookup x = some y → t.lookup x = some y ∨ c.dgp.time < y.complete)
    (hinto : ∀ x y, t.lookup x = some y → c'.savingsWithdraws.lookup x = some y) :
    Stoppable c' (frontOf t) := by
  constructor
  · intro id w hfront hw hlater x y hy
    rw [htime] at hlater ⊢
    rcases hfrom x y hy with hold | hnew
    · obtain ⟨v, hv⟩ := lookup_frontOf hfront
      obtain rfl : v = w := Option.some.inj ((hinto id v hv).symm.trans hw)
      exact lt_of_lt_of_le hlater (complete_le_of_front hfront hv hold)
    · exact hnew
  · intro hfront x y hy
    rw [htime]
    rcases hfrom x y hy with hold | hnew
    · rw [eq_none_of_front hfront] at hold
      cases hold
    · exact hnew

/-- **One round** that pays keeps the schedules from falling behind and goes on at a good place to stop. -/
theorem stoppable_processSavingsWithdraw (hbehind : SavingsNotBehind c) (hstop : Stoppable c (some id))
    (h : processSavingsWithdraw id c = .ok next c') : SavingsNotBehind c' ∧ Stoppable c' next := by
  obtain ⟨w, hw, ⟨hlater, rfl, rfl⟩ | ⟨-, -, rfl, a, rfl, -⟩ | ⟨hdue, hmore, rfl, a, hc, rfl, -⟩⟩ :=
    processSavingsWithdraw_eq_ok h
  · refine ⟨hbehind, fun x y hx _ _ => ?_, fun _ => hstop.1 id w rfl hw hlater⟩
    cases hx
  · refine ⟨fun x y hy => ?_, stoppable_front rfl (fun x y hy => .inl hy) fun x y hy => hy⟩
    change (c.savingsWithdraws.erase id).lookup x = some y at hy
    rw [lookup_erase] at hy
    split at hy
    · cases hy
    · exact hbehind x y hy
  · have hnew := hbehind id w hw hdue hmore
    have hlookup : ∀ x y, ((c.savingsWithdraws.erase id).insert (nextInstalment w (w.amount - w.monthly)) hc).lookup x =
        some y → (c.savingsWithdraws.erase id).lookup x = some y ∨ c.dgp.time < y.complete := by
      intro x y hy
      rw [lookup_insert] at hy
      split at hy
      · cases hy
        exact .inr hnew
      · exact .inl hy
    refine ⟨fun x y hy hydue => ?_, stoppable_front rfl hlookup fun x y hy => ?_⟩
    · rcases hlookup x y hy with hold | hlater
      · rw [lookup_erase] at hold
        split at hold
        · cases hold
        · exact hbehind x y hold hydue
      · exact absurd hydue (not_le.mpr hlater)
    · have hold := (c.savingsWithdraws.erase id).fresh _ (lookup_eq_some.mp hy)
      change ((c.savingsWithdraws.erase id).insert _ hc).lookup x = some y
      rw [lookup_insert, if_neg (Nat.ne_of_lt hold)]
      exact hy

/-- **The loop**, by induction on its rounds, leaves nothing due. -/
theorem noSavingsDue_follow {d : Error} {fuel : Nat} {cursor : Option Nat} (hbehind : SavingsNotBehind c)
    (hstop : Stoppable c cursor) (h : follow d processSavingsWithdraw fuel cursor c = .ok u c') : NoSavingsDue c' := by
  induction fuel generalizing cursor c with
  | zero =>
    cases cursor with
    | none =>
      obtain ⟨-, rfl⟩ := pure_eq_ok.mp h
      exact hstop.2 rfl
    | some id => exact (throw_eq_ok.mp h).elim
  | succ fuel ih =>
    cases cursor with
    | none =>
      obtain ⟨-, rfl⟩ := pure_eq_ok.mp h
      exact hstop.2 rfl
    | some id =>
      unfold follow at h
      obtain ⟨next, t, hround, hrest⟩ := bind_eq_ok.mp h
      obtain ⟨hbehind', hstop'⟩ := stoppable_processSavingsWithdraw hbehind hstop hround
      exact ih hbehind' hstop' hrest

/-- **A call that finds no schedule a month behind** leaves none due. -/
theorem noSavingsDue_processSavingsWithdraws (hbehind : SavingsNotBehind c) (h : processSavingsWithdraws c = .ok u c') :
    NoSavingsDue c' := by
  unfold processSavingsWithdraws at h
  rw [bind_of_ok (get_apply c), bind_of_ok (show firstSavingsWithdraw c = .ok (frontOf c.savingsWithdraws) c from rfl)]
    at h
  exact noSavingsDue_follow hbehind (stoppable_front rfl (fun _ _ hy => .inl hy) fun _ _ hy => hy) h

/-! ## The plan behind a schedule -/

/-- The schedule of a sender and a request id, those of `o`. -/
def TransferSavingsOperation.names (o : TransferSavingsOperation) (w : SavingsWithdrawObject) : Bool :=
  w.from_ == o.from_ && w.requestId == o.requestId

def savingsScheduleOf (o : TransferSavingsOperation) (c : Core) : Option SavingsWithdrawObject :=
  c.savingsWithdraws.at? o.names

/-- How the savings are to be paid out. -/
def TransferSavingsOperation.plan (o : TransferSavingsOperation) : Plan :=
  ⟨o.amount.amount, o.amount.amount / (o.splitPayMonth.toNat : ℤ), o.splitPayMonth.toNat - o.splitPayOrder.toNat + 1⟩

/-- When the payment after `k` others is due. -/
def TransferSavingsOperation.dueDate (o : TransferSavingsOperation) (k : ℕ) : Nat :=
  o.complete + k * transferSavingsCycle

/-- The order does not start above the month, and the dates fit into 32 bits. -/
structure TransferSavingsOperation.Fits (o : TransferSavingsOperation) : Prop where
  order : o.splitPayOrder ≤ o.splitPayMonth
  dates : o.dueDate (o.splitPayMonth.toNat - o.splitPayOrder.toNat) < 4294967296

/-- The schedule after `k` payments. -/
structure PaidParts (o : TransferSavingsOperation) (k : ℕ) (w : SavingsWithdrawObject) : Prop where
  to_eq : w.to_ = o.to_
  amount : w.amount = o.plan.rest k
  total : w.totalAmount = o.amount.amount
  order : w.splitPayOrder.toNat = o.splitPayOrder.toNat + k
  month : w.splitPayMonth = o.splitPayMonth
  complete : w.complete = o.dueDate k

theorem uniqueKey_names (o : TransferSavingsOperation) : UniqueKey o.names := by
  intro a b ha hb
  simp only [TransferSavingsOperation.names, Bool.and_eq_true, beq_iff_eq] at ha hb
  simp [Clash.clash, ha, hb]

theorem savingsScheduleOf_of_lookup (hw : c.savingsWithdraws.lookup id = some w) (hnames : o.names w = true) :
    savingsScheduleOf o c = some w :=
  (at?_eq_some (uniqueKey_names o)).mpr ⟨mem_values.mpr ⟨id, lookup_eq_some.mp hw⟩, hnames⟩

namespace PaidParts

variable {k : ℕ} (h : PaidParts o k w)

include h

theorem isLast_iff (hfits : o.Fits) : w.splitPayOrder = w.splitPayMonth ↔ k + 1 = o.plan.parts := by
  have horder : o.splitPayOrder.toNat ≤ o.splitPayMonth.toNat := UInt8.le_iff_toNat_le.mp hfits.order
  have horder' := h.order
  rw [← UInt8.toNat_inj, h.month]
  simp only [TransferSavingsOperation.plan]
  omega

theorem monthly_eq (hpos : 0 < o.amount.amount) : w.monthly = o.plan.step := by
  unfold SavingsWithdrawObject.monthly
  rw [h.total, h.month, Int.tdiv_eq_ediv_of_nonneg hpos.le]
  rfl

theorem succ (hpos : 0 < o.amount.amount) (hfits : o.Fits) (hk : k + 1 < o.plan.parts) :
    PaidParts o (k + 1) (nextInstalment w (w.amount - w.monthly)) where
  to_eq := h.to_eq
  amount := by
    rw [Plan.rest_succ, ← h.amount, ← h.monthly_eq hpos]
    rfl
  total := h.total
  order := by
    have hmonth : o.splitPayMonth.toNat < 256 := o.splitPayMonth.toNat_lt
    have horder := h.order
    simp only [TransferSavingsOperation.plan] at hk
    change (w.splitPayOrder + 1).toNat = _
    rw [UInt8.toNat_add]
    change (w.splitPayOrder.toNat + 1) % 256 = _
    omega
  month := h.month
  complete := by
    have hdates := hfits.dates
    simp only [TransferSavingsOperation.plan] at hk
    have hle : o.dueDate (k + 1) ≤ o.dueDate (o.splitPayMonth.toNat - o.splitPayOrder.toNat) :=
      Nat.add_le_add_left (Nat.mul_le_mul_right _ (by omega)) _
    have hnext : w.complete + transferSavingsCycle = o.dueDate (k + 1) := by
      rw [h.complete, TransferSavingsOperation.dueDate, TransferSavingsOperation.dueDate, Nat.succ_mul, Nat.add_assoc]
    change (w.complete + transferSavingsCycle) % 4294967296 = _
    rw [hnext, Nat.mod_eq_of_lt (by omega)]

end PaidParts

/-! ## Runs -/

/-- The instalments of the schedule of `o` in a walk over the index: when, and what `o.to_` gets. -/
def walkInstalments (o : TransferSavingsOperation) : Nat → Option Nat → Core → List (TimePointSec × ℤ)
  | 0, _, _ => []
  | _ + 1, none, _ => []
  | fuel + 1, some id, c =>
    match c.savingsWithdraws.lookup id with
    | none => []
    | some w =>
      if c.dgp.time < w.complete then []
      else
        match processSavingsWithdraw id c with
        | .error _ _ => []
        | .ok next c' =>
          (if o.names w then [(c.dgp.time, growth o.to_ c c')] else []) ++ walkInstalments o fuel next c'

/-- The instalments of the schedule of `o` in one call of `process_savings_withdraws`. -/
def instalments (o : TransferSavingsOperation) (c : Core) : List (TimePointSec × ℤ) :=
  walkInstalments o (256 * c.savingsWithdraws.rows.length + 1) (frontOf c.savingsWithdraws) c

/-- What happens to the schedule of `o` from `c₀` on, with its instalments.  It is neither cancelled nor concluded,
and its sender does not use the request id again; all else is free: other schedules come and go, the routine is
called at any time, and between that everything but the index of the schedules may change. -/
inductive SavingsRun (o : TransferSavingsOperation) (c₀ : Core) : List (TimePointSec × ℤ) → Core → Prop
  | start : SavingsRun o c₀ [] c₀
  | transfer {es : List (TimePointSec × ℤ)} {c c' : Core} (node : Node) (x : TransferSavingsOperation)
      (h : SavingsRun o c₀ es c) (hother : o.names x.toObject = false)
      (haccepted : transferSavingsEvaluator node x c = .ok () c') : SavingsRun o c₀ es c'
  | cancel {es : List (TimePointSec × ℤ)} {c c' : Core} (x : CancelTransferSavingsOperation)
      (h : SavingsRun o c₀ es c) (hother : (x.from_, x.requestId) ≠ (o.from_, o.requestId))
      (haccepted : cancelTransferSavingsEvaluator x c = .ok () c') : SavingsRun o c₀ es c'
  | conclude {es : List (TimePointSec × ℤ)} {c c' : Core} (x : ConclusionTransferSavingsOperation)
      (h : SavingsRun o c₀ es c) (hother : (x.from_, x.requestId) ≠ (o.from_, o.requestId))
      (haccepted : conclusionTransferSavingsEvaluator x c = .ok () c') : SavingsRun o c₀ es c'
  | elsewhere {es : List (TimePointSec × ℤ)} {c c' : Core} (h : SavingsRun o c₀ es c)
      (hsame : c'.savingsWithdraws = c.savingsWithdraws) : SavingsRun o c₀ es c'
  | process {es : List (TimePointSec × ℤ)} {c c' : Core} (h : SavingsRun o c₀ es c)
      (hreturns : processSavingsWithdraws c = .ok () c') : SavingsRun o c₀ (es ++ instalments o c) c'

/-- Where the plan stands: after so many payments, or finished. -/
def PlanStands (o : TransferSavingsOperation) (c : Core) : Option ℕ → Prop
  | some k => ∃ w, savingsScheduleOf o c = some w ∧ PaidParts o k w
  | none => savingsScheduleOf o c = none

/-- The instalments so far are those of the plan, none of them early. -/
def PlanOnRecord (o : TransferSavingsOperation) (es : List (TimePointSec × ℤ)) (c : Core) : Prop :=
  (∃ state, o.plan.History (es.map fun e => .payment e.2) state ∧ PlanStands o c state) ∧
    ∀ i e, es[i]? = some e → o.dueDate i ≤ e.1

variable {es : List (TimePointSec × ℤ)} {state : Option ℕ} {k : ℕ}

theorem PlanStands.of_schedule (h : PlanStands o c state) (hsame : savingsScheduleOf o c' = savingsScheduleOf o c) :
    PlanStands o c' state := by
  cases state with
  | some k =>
    obtain ⟨w, hw, hpaid⟩ := h
    exact ⟨w, hsame.trans hw, hpaid⟩
  | none => exact hsame.trans h

theorem PlanOnRecord.of_schedule (h : PlanOnRecord o es c)
    (hsame : savingsScheduleOf o c' = savingsScheduleOf o c) : PlanOnRecord o es c' := by
  obtain ⟨⟨state, hhistory, hstands⟩, hdue⟩ := h
  exact ⟨⟨state, hhistory, hstands.of_schedule hsame⟩, hdue⟩

theorem PlanOnRecord.of_same (h : PlanOnRecord o es c) (hsame : c'.savingsWithdraws = c.savingsWithdraws) :
    PlanOnRecord o es c' := by
  apply h.of_schedule
  unfold savingsScheduleOf
  rw [hsame]

theorem PlanOnRecord.of_erase (h : PlanOnRecord o es c) (hw : c.savingsWithdraws.lookup id = some w)
    (hother : o.names w = false) (herase : c'.savingsWithdraws = c.savingsWithdraws.erase id) : PlanOnRecord o es c' := by
  apply h.of_schedule
  unfold savingsScheduleOf
  rw [herase, at?_erase (uniqueKey_names o) hw, hother, if_neg (by simp)]

/-- The next payment of the plan goes on record. -/
theorem PlanOnRecord.pay {now : TimePointSec} {x : ℤ} (hhistory : o.plan.History (es.map fun e => .payment e.2) (some k))
    (hdue : ∀ i e, es[i]? = some e → o.dueDate i ≤ e.1) (hnow : o.dueDate k ≤ now) (hx : x = o.plan.part k)
    (hstands : PlanStands o c' (if k + 1 = o.plan.parts then none else some (k + 1))) :
    PlanOnRecord o (es ++ [(now, x)]) c' := by
  have hlength := hhistory.length_eq_of_running
  rw [List.length_map] at hlength
  refine ⟨⟨_, ?_, hstands⟩, ?_⟩
  · rw [List.map_append, List.map_singleton, hx]
    exact hhistory.pay
  · intro i e he
    by_cases hi : i < es.length
    · rw [List.getElem?_append_left hi] at he
      exact hdue i e he
    · rw [List.getElem?_append_right (not_lt.mp hi)] at he
      obtain ⟨hlt, rfl⟩ := List.getElem?_eq_some_iff.mp he
      obtain rfl : i = k := by
        rw [List.length_singleton] at hlt
        omega
      simpa using hnow

/-- **One round** at a schedule that is due: another one leaves the record alone, and this one pays what its plan
says. -/
theorem PlanOnRecord.round (h : PlanOnRecord o es c) (hpos : 0 < o.amount.amount) (hfits : o.Fits)
    (hw : c.savingsWithdraws.lookup id = some w) (hdue : w.complete ≤ c.dgp.time)
    (hrun : processSavingsWithdraw id c = .ok next c') :
    PlanOnRecord o (es ++ if o.names w then [(c.dgp.time, growth o.to_ c c')] else []) c' := by
  obtain ⟨w', hw', hcases⟩ := processSavingsWithdraw_eq_ok hrun
  obtain rfl : w' = w := Option.some.inj (hw'.symm.trans hw)
  by_cases hnames : o.names w' = true
  · rw [if_pos hnames]
    have hschedule := savingsScheduleOf_of_lookup hw hnames
    obtain ⟨⟨state, hhistory, hstands⟩, hdates⟩ := h
    cases state with
    | none =>
      change savingsScheduleOf o c = none at hstands
      rw [hstands] at hschedule
      cases hschedule
    | some k =>
      obtain ⟨_, hw'', hpaid⟩ := hstands
      obtain rfl := Option.some.inj (hschedule.symm.trans hw'')
      have hnow : o.dueDate k ≤ c.dgp.time := hpaid.complete ▸ hdue
      have hlt := hhistory.lt_of_running
      rw [← hpaid.to_eq]
      rcases hcases with ⟨hlater, -, -⟩ | ⟨-, hlast, -, a, rfl, hgrowth⟩ | ⟨-, hmore, -, a, hc, rfl, hgrowth⟩
      · exact absurd hdue (not_le.mpr hlater)
      · have hlast' := (hpaid.isLast_iff hfits).mp hlast
        refine PlanOnRecord.pay hhistory hdates hnow ?_ ?_
        · rw [hgrowth, hpaid.amount, Plan.part_last hlast']
        · rw [if_pos hlast']
          change (c.savingsWithdraws.erase id).at? o.names = none
          rw [at?_erase (uniqueKey_names o) hw, if_pos hnames]
      · have hmore' := mt (hpaid.isLast_iff hfits).mpr hmore
        have hk : k + 1 < o.plan.parts := by omega
        refine PlanOnRecord.pay hhistory hdates hnow ?_ ?_
        · rw [hgrowth, hpaid.monthly_eq hpos, Plan.part_of_lt hk]
        · rw [if_neg hmore']
          refine ⟨_, ?_, hpaid.succ hpos hfits hk⟩
          change ((c.savingsWithdraws.erase id).insert _ hc).at? o.names = _
          rw [at?_insert (uniqueKey_names o), if_pos]
          exact hnames
  · rw [if_neg hnames, List.append_nil]
    rcases hcases with ⟨-, -, rfl⟩ | ⟨-, -, -, a, rfl, -⟩ | ⟨-, -, -, a, hc, rfl, -⟩
    · exact h
    · exact h.of_erase hw (Bool.not_eq_true _ ▸ hnames) rfl
    · apply h.of_schedule
      change ((c.savingsWithdraws.erase id).insert _ hc).at? o.names = _
      rw [at?_insert (uniqueKey_names o), if_neg, at?_erase (uniqueKey_names o) hw, if_neg hnames]
      · rfl
      · exact hnames

/-- **The walk over the index**, by induction on its rounds. -/
theorem PlanOnRecord.walk {d : Error} {fuel : Nat} {cursor : Option Nat} (h : PlanOnRecord o es c)
    (hpos : 0 < o.amount.amount) (hfits : o.Fits) (hrun : follow d processSavingsWithdraw fuel cursor c = .ok u c') :
    PlanOnRecord o (es ++ walkInstalments o fuel cursor c) c' := by
  induction fuel generalizing es cursor c with
  | zero =>
    cases cursor with
    | none =>
      obtain ⟨-, rfl⟩ := pure_eq_ok.mp hrun
      rw [walkInstalments, List.append_nil]
      exact h
    | some id => exact (throw_eq_ok.mp hrun).elim
  | succ fuel ih =>
    cases cursor with
    | none =>
      obtain ⟨-, rfl⟩ := pure_eq_ok.mp hrun
      rw [walkInstalments, List.append_nil]
      exact h
    | some id =>
      unfold follow at hrun
      obtain ⟨next, t, hround, hrest⟩ := bind_eq_ok.mp hrun
      obtain ⟨w, hw, hcases⟩ := processSavingsWithdraw_eq_ok hround
      by_cases hlater : c.dgp.time < w.complete
      · -- the walk stops here
        rcases hcases with ⟨-, rfl, rfl⟩ | ⟨hdue, -⟩ | ⟨hdue, -⟩
        · unfold follow at hrest
          obtain ⟨-, rfl⟩ := pure_eq_ok.mp hrest
          rw [walkInstalments]
          simp only [hw, if_pos hlater, List.append_nil]
          exact h
        · exact absurd hdue (not_le.mpr hlater)
        · exact absurd hdue (not_le.mpr hlater)
      · have hpays : walkInstalments o (fuel + 1) (some id) c =
            (if o.names w then [(c.dgp.time, growth o.to_ c t)] else []) ++ walkInstalments o fuel next t := by
          rw [walkInstalments]
          simp only [hw, if_neg hlater, hround]
        rw [hpays, ← List.append_assoc]
        exact ih (h.round hpos hfits hw (not_lt.mp hlater) hround) hrest

/-! ## Operations -/

/-- **A schedule that is opened** is found under its key, and the key was free. -/
theorem transferSavings_opens {node : Node} (h : transferSavingsEvaluator node o c = .ok u c') :
    ∃ t hc, t = c.savingsWithdraws ∧ c'.savingsWithdraws = Table.insert t o.toObject hc := by
  simp only [transferSavingsEvaluator, bind_eq_ok, checked_eq_ok, fcAssert_eq_ok, createIn_eq_ok, pure_eq_ok] at h
  obtain ⟨r, _, hget, q, _, hget', _, _, hreq, now, _, hnow, _, _, ⟨-, rfl⟩, _, _, hban, δ, _, ⟨-, rfl⟩, _, _, hdebit,
    _, _, hsave, _, _, ⟨hc, -, rfl⟩, -, rfl⟩ := h
  obtain ⟨rfl, hfrom⟩ := getAccount_eq_ok hget
  obtain ⟨rfl, hto⟩ := getAccount_eq_ok hget'
  obtain ⟨rfl, -, -⟩ := requireBalance_eq_ok hreq
  obtain rfl := readOnly_headBlockTime.eq_of_ok hnow
  obtain rfl := (readOnly_requireNotBanned _ _ _).eq_of_ok hban
  obtain ⟨a, rfl, -, hmove⟩ := adjustBalance_eq_ok hdebit hfrom.nameAt
  obtain ⟨b, rfl, -, -⟩ := adjustSavingsBalance_eq_ok hsave (hmove.nameAt _ _ hto.nameAt)
  exact ⟨_, hc, rfl, rfl⟩

theorem endSavings_erases {receiver : AccountName} (h : endSavings id w receiver c = .ok u c') :
    c'.savingsWithdraws = c.savingsWithdraws.erase id := by
  simp only [endSavings, bind_eq_ok, checked_eq_ok, fcAssert_eq_ok, removeIn_eq_ok] at h
  obtain ⟨r, _, hget, _, _, ⟨-, rfl⟩, q, _, hrec, _, _, hcredit, δ, _, ⟨-, rfl⟩, _, _, hdebit, rfl⟩ := h
  obtain ⟨rfl, hto⟩ := getAccount_eq_ok hget
  obtain ⟨rfl, hreceiver⟩ := getAccount_eq_ok hrec
  obtain ⟨a, rfl, -, hmove⟩ := adjustBalance_eq_ok hcredit hreceiver.nameAt
  obtain ⟨b, rfl, -, -⟩ := adjustSavingsBalance_eq_ok hdebit (hmove.nameAt _ _ hto.nameAt)
  rfl

theorem names_eq_false {from_ : AccountName} {requestId : Nat} {r : Nat × SavingsWithdrawObject}
    (hkey : (r.2.from_ == from_ && r.2.requestId == requestId) = true)
    (hother : (from_, requestId) ≠ (o.from_, o.requestId)) : o.names r.2 = false := by
  simp only [Bool.and_eq_true, beq_iff_eq] at hkey
  obtain ⟨rfl, rfl⟩ := hkey
  rw [TransferSavingsOperation.names, ← Bool.not_eq_true]
  simpa using hother

/-- **Runs**: the instalments stay those of the plan. -/
theorem PlanOnRecord.run {c₀ : Core} (h : PlanOnRecord o [] c₀) (hpos : 0 < o.amount.amount) (hfits : o.Fits)
    (hrun : SavingsRun o c₀ es c) : PlanOnRecord o es c := by
  induction hrun with
  | start => exact h
  | transfer node x _ hother haccepted ih =>
    obtain ⟨t, hc, rfl, htable⟩ := transferSavings_opens haccepted
    apply ih.of_schedule
    unfold savingsScheduleOf
    rw [htable, at?_insert (uniqueKey_names o), hother, if_neg (by simp)]
  | cancel x _ hother haccepted ih =>
    simp only [cancelTransferSavingsEvaluator, bind_eq_ok, checked_eq_ok, fcAssert_eq_ok, getSavingsWithdraw,
      getIn_eq_ok] at haccepted
    obtain ⟨r, _, ⟨hfind, rfl⟩, _, _, ⟨-, rfl⟩, covered, _, ⟨-, rfl⟩, _, _, ⟨-, rfl⟩, hend⟩ := haccepted
    obtain ⟨hmem, hkey⟩ := mem_of_find? hfind
    exact ih.of_erase (lookup_eq_some.mpr hmem) (names_eq_false hkey hother) (endSavings_erases hend)
  | conclude x _ hother haccepted ih =>
    simp only [conclusionTransferSavingsEvaluator, bind_eq_ok, fcAssert_eq_ok, getSavingsWithdraw, getIn_eq_ok]
      at haccepted
    obtain ⟨r, _, ⟨hfind, rfl⟩, _, _, ⟨-, rfl⟩, hend⟩ := haccepted
    obtain ⟨hmem, hkey⟩ := mem_of_find? hfind
    exact ih.of_erase (lookup_eq_some.mpr hmem) (names_eq_false hkey hother) (endSavings_erases hend)
  | elsewhere _ hsame ih => exact ih.of_same hsame
  | process _ hreturns ih =>
    unfold processSavingsWithdraws at hreturns
    rw [bind_of_ok (get_apply _), bind_of_ok (show firstSavingsWithdraw _ = .ok (frontOf _) _ from rfl)] at hreturns
    exact ih.walk hpos hfits hreturns

/-- The schedule that an accepted `transfer_savings` opens has made no payment. -/
theorem planOnRecord_opened {node : Node} (h : transferSavingsEvaluator node o c = .ok u c') : PlanOnRecord o [] c' := by
  obtain ⟨t, hc, rfl, htable⟩ := transferSavings_opens h
  have hfound : savingsScheduleOf o c' = some o.toObject := by
    unfold savingsScheduleOf
    rw [htable, at?_insert (uniqueKey_names o), if_pos]
    simp [TransferSavingsOperation.names, TransferSavingsOperation.toObject]
  have hstart : o.plan.History (([] : List (TimePointSec × ℤ)).map fun e => .payment e.2) (some 0) :=
    Plan.History.running (p := o.plan) (k := 0) (Nat.succ_pos _)
  refine ⟨⟨some 0, hstart, o.toObject, hfound, ?_⟩, fun i e he => by simp at he⟩
  exact ⟨rfl, by simp [Plan.rest, TransferSavingsOperation.plan, TransferSavingsOperation.toObject], rfl, rfl, rfl,
    by simp [TransferSavingsOperation.dueDate, TransferSavingsOperation.toObject]⟩

/-! ## What the instalments add up to -/

/-- The instalments of `o`, as far as they have come. -/
structure PaidOut (o : TransferSavingsOperation) (gone : Prop) (es : List (TimePointSec × ℤ)) : Prop where
  count : es.length ≤ o.splitPayMonth.toNat - o.splitPayOrder.toNat + 1
  finished : gone ↔ es.length = o.splitPayMonth.toNat - o.splitPayOrder.toNat + 1
  /-- All but the last are an equal part of the total. -/
  regular : ∀ i e, es[i]? = some e → i < o.splitPayMonth.toNat - o.splitPayOrder.toNat →
    e.2 = o.amount.amount / (o.splitPayMonth.toNat : ℤ)
  /-- The last one pays the rest. -/
  total : gone → (es.map Prod.snd).sum = o.amount.amount
  due : ∀ i e, es[i]? = some e → o.dueDate i ≤ e.1

theorem PlanOnRecord.paidOut (h : PlanOnRecord o es c) : PaidOut o (savingsScheduleOf o c = none) es := by
  obtain ⟨⟨state, hhistory, hstands⟩, hdue⟩ := h
  have hpays : ∀ p ∈ es.map fun e => Payout.payment e.2, ∃ x, p = .payment x := by
    intro p hp
    obtain ⟨e, -, rfl⟩ := List.mem_map.mp hp
    exact ⟨e.2, rfl⟩
  have hcredited : ((es.map fun e => Payout.payment e.2).map Payout.credited).sum = (es.map Prod.snd).sum := by
    rw [List.map_map]
    rfl
  have hcount := hhistory.length_le
  rw [List.length_map] at hcount
  refine ⟨hcount, ?_, ?_, ?_, hdue⟩
  · cases state with
    | some k =>
      obtain ⟨w, hw, -⟩ := hstands
      have hlt := hhistory.lt_of_running
      have hlength := hhistory.length_eq_of_running
      rw [List.length_map] at hlength
      simp only [TransferSavingsOperation.plan] at hlt
      rw [hw]
      simp only [reduceCtorEq, false_iff]
      omega
    | none =>
      refine ⟨fun _ => ?_, fun _ => hstands⟩
      have hlength := hhistory.length_eq_of_payments hpays
      rw [List.length_map] at hlength
      exact hlength
  · intro i e he hi
    refine hhistory.payment_eq ?_ (Nat.succ_lt_succ hi)
    rw [List.getElem?_map, he]
    rfl
  · intro hgone
    rw [← hcredited]
    cases state with
    | some k =>
      obtain ⟨w, hw, -⟩ := hstands
      rw [hgone] at hw
      cases hw
    | none =>
      refine hhistory.sum_credited (Nat.succ_pos _) fun x hx => ?_
      obtain ⟨y, hy⟩ := hpays _ hx
      cases hy

/-- **Core savings pay out**: from the operation on, whatever else happens.  A call of the routine that finds no
schedule a month behind leaves none due, and with it the savings are paid out once the last date has come. -/
theorem core_savings_pay_out (fc : TextRules) (node : Node) (o : TransferSavingsOperation) (c c' e : Core)
    (es : List (TimePointSec × ℤ)) (hvalid : ∀ x ∈ o.validate fc, x.holds = true) (hfits : o.Fits)
    (haccepted : transferSavingsEvaluator node o c = .ok () c') (hrun : SavingsRun o c' es e) :
    PaidOut o (savingsScheduleOf o e = none) es ∧
      (∀ e', processSavingsWithdraws e ≠ .error .diverged e') ∧
      (∀ votes, SoundCore votes e → ∃ e', processSavingsWithdraws e = .ok () e') ∧
      ∀ e', SavingsNotBehind e → processSavingsWithdraws e = .ok () e' →
        NoSavingsDue e' ∧ (o.dueDate (o.splitPayMonth.toNat - o.splitPayOrder.toNat) ≤ e'.dgp.time →
          savingsScheduleOf o e' = none) := by
  have hpos : 0 < o.amount.amount := by
    simp only [TransferSavingsOperation.validate, List.cons_append, List.forall_mem_cons, decide_eq_true_eq] at hvalid
    exact hvalid.2.2.1
  have hstart := planOnRecord_opened haccepted
  refine ⟨(hstart.run hpos hfits hrun).paidOut, processSavingsWithdraws_ends e, ?_, ?_⟩
  · intro votes hsound
    obtain ⟨e', hok, -⟩ := processSavingsWithdraws_returns hsound
    exact ⟨e', hok⟩
  · intro e' hbehind hok
    have hnone := noSavingsDue_processSavingsWithdraws hbehind hok
    refine ⟨hnone, fun hlast => ?_⟩
    obtain ⟨⟨state, hhistory, hstands⟩, -⟩ := hstart.run hpos hfits (hrun.process hok)
    cases state with
    | none => exact hstands
    | some k =>
      -- a payment that is still to come would be due
      obtain ⟨w, hw, hpaid⟩ := hstands
      obtain ⟨hmem, -⟩ := (at?_eq_some (uniqueKey_names o)).mp hw
      obtain ⟨id, hid⟩ := mem_values.mp hmem
      have hlater := hnone id w (lookup_eq_some.mpr hid)
      have hlt := hhistory.lt_of_running
      have hle : o.dueDate k ≤ o.dueDate (o.splitPayMonth.toNat - o.splitPayOrder.toNat) :=
        Nat.add_le_add_left (Nat.mul_le_mul_right _ (Nat.lt_succ_iff.mp hlt)) _
      rw [hpaid.complete] at hlater
      exact absurd hlater (not_lt.mpr (hle.trans hlast))

/-- Create the root account and print for it. -/
def fundingBlock : SignedBlock := sampleBlock {} 1 [createRoot, .print ⟨rootAccount, rootAccount, sgt 10⟩]

/-- The same state at another time. -/
def Core.atTime (c : Core) (now : TimePointSec) : Core := { c with dgp := { c.dgp with time := now } }

theorem SavingsRun.atTime {c₀ : Core} (h : SavingsRun o c₀ es c) (now : TimePointSec) :
    SavingsRun o c₀ es (c.atTime now) := .elsewhere h rfl

def fundedCore : Core := (sampleAfter fundingBlock (genesis ⟨1⟩)).core

/-- Save seven of them, to be paid from the order `k` up to the month `m`. -/
def sevenSaved (k m : UInt8) : TransferSavingsOperation :=
  { from_ := rootAccount, requestId := 1, to_ := initMinerName, amount := sgt 7, splitPayOrder := k,
    splitPayMonth := m, memo := [], complete := genesisTime + 4 }

def savedCore (k m : UInt8) : Core := after (transferSavingsEvaluator {} (sevenSaved k m) fundedCore)

/-- When the first instalment of `sevenSaved` is due. -/
def dueCore (k m : UInt8) : Core := (savedCore k m).atTime (genesisTime + 4)

/-- The first instalment is paid, and a month has passed. -/
def monthLater (k m : UInt8) : Core :=
  (after (processSavingsWithdraws (dueCore k m))).atTime (genesisTime + 4 + transferSavingsCycle)

theorem core_savings_pay_out_seven :
    PaidOut (sevenSaved 1 2) (savingsScheduleOf (sevenSaved 1 2) (monthLater 1 2) = none) [(genesisTime + 4, 3)] ∧
      NoSavingsDue (after (processSavingsWithdraws (monthLater 1 2))) := by
  have hstates : (∀ x ∈ (sevenSaved 1 2).validate sampleEnv.fc, x.holds = true) ∧
      succeeds (transferSavingsEvaluator {} (sevenSaved 1 2) fundedCore) = true ∧
      instalments (sevenSaved 1 2) (dueCore 1 2) = [(genesisTime + 4, 3)] ∧
      succeeds (processSavingsWithdraws (dueCore 1 2)) = true ∧
      succeeds (processSavingsWithdraws (monthLater 1 2)) = true ∧
      ∀ r ∈ (monthLater 1 2).savingsWithdraws.rows, r.2.splitPayOrder = r.2.splitPayMonth := by
    decide +kernel
  obtain ⟨hvalid, haccepted, hpays, hfirst, hsecond, hlast⟩ := hstates
  have hrun : SavingsRun (sevenSaved 1 2) (savedCore 1 2) [(genesisTime + 4, 3)] (monthLater 1 2) := by
    have hdue : SavingsRun (sevenSaved 1 2) (savedCore 1 2) [] (dueCore 1 2) :=
      SavingsRun.start.atTime _
    have hpaid := hdue.process (eq_ok_of_succeeds hfirst)
    rw [hpays] at hpaid
    exact hpaid.atTime _
  have hclaim := core_savings_pay_out sampleEnv.fc {} (sevenSaved 1 2) fundedCore (savedCore 1 2) (monthLater 1 2) _
    hvalid ⟨by decide, by decide⟩ (eq_ok_of_succeeds haccepted) hrun
  have hbehind : SavingsNotBehind (monthLater 1 2) := fun id w hw _ hmore =>
    absurd (hlast (id, w) (lookup_eq_some.mp hw)) hmore
  exact ⟨hclaim.1, (hclaim.2.2.2 _ hbehind (eq_ok_of_succeeds hsecond)).1⟩

/-- An order above the month is accepted.  The first instalment is all of the savings, and yet the schedule stays;
a month later it asks for as much again, and no block can be applied any more. -/
theorem order_above_month_pays_on :
    (∀ x ∈ (sevenSaved 2 1).validate sampleEnv.fc, x.holds = true) ∧
      transferSavingsEvaluator {} (sevenSaved 2 1) fundedCore = .ok () (savedCore 2 1) ∧
      ∃ es, SavingsRun (sevenSaved 2 1) (savedCore 2 1) es (monthLater 2 1) ∧
        ¬ PaidOut (sevenSaved 2 1) (savingsScheduleOf (sevenSaved 2 1) (monthLater 2 1) = none) es ∧
        thrown (processSavingsWithdraws (monthLater 2 1)) = some (.assertion "savings_balance >= amount") := by
  have hstates : (∀ x ∈ (sevenSaved 2 1).validate sampleEnv.fc, x.holds = true) ∧
      succeeds (transferSavingsEvaluator {} (sevenSaved 2 1) fundedCore) = true ∧
      instalments (sevenSaved 2 1) (dueCore 2 1) = [(genesisTime + 4, 7)] ∧
      succeeds (processSavingsWithdraws (dueCore 2 1)) = true ∧
      (savingsScheduleOf (sevenSaved 2 1) (monthLater 2 1)).isSome = true ∧
      thrown (processSavingsWithdraws (monthLater 2 1)) = some (.assertion "savings_balance >= amount") := by
    decide +kernel
  obtain ⟨hvalid, haccepted, hpays, hfirst, hstays, hthrown⟩ := hstates
  refine ⟨hvalid, eq_ok_of_succeeds haccepted, [(genesisTime + 4, 7)], ?_, ?_, hthrown⟩
  · have hdue : SavingsRun (sevenSaved 2 1) (savedCore 2 1) [] (dueCore 2 1) :=
      SavingsRun.start.atTime _
    have hpaid := hdue.process (eq_ok_of_succeeds hfirst)
    rw [hpays] at hpaid
    exact hpaid.atTime _
  · intro hclaim
    have hgone := hclaim.finished.mpr rfl
    rw [hgone] at hstays
    cases hstays

end Sigmaengine
