import Sigmaengine.Ledger.TokenAgreement

/-!
# One token in the queues of the block handler

All tokens share two queues, by date, and the handler works on their fronts.  What it does with one
token depends on the others in two ways.  A stake that its fund cannot pay throws, and with it
everything behind it and the whole second routine is left for later.  And a schedule that pays an
instalment takes the iterator along to its new place, so the schedules in between are passed over.

Where neither happens, the payouts of a token are the same whatever the other tokens hold
(`same_payouts_of_clear_queues`).
-/

namespace Sigmaengine.Token

open Sigmaengine Effect Table Finsupp

variable {s s' : TokenIndices} {u : Unit} {v : CoreView} {token : TokenName} {now : TimePointSec}

/-! ## Savings -/

/-- What is left of a schedule that is paid. -/
def remaining (now : TimePointSec) (w : TokenSavingsWithdrawObject) : Option TokenSavingsWithdrawObject :=
  if IsLast w then Option.none else Option.some (afterInstalment now w)

/-- The schedule `id` has made its payout. -/
structure SavingsPaid (now : TimePointSec) (id : Nat) (w : TokenSavingsWithdrawObject) (s s' : TokenIndices) :
    Prop where
  balance : balanceOf s' w.to_ w.token = adjusted now .balance w.to_ w.token (payoutOf w)
    (adjusted now .savings w.to_ w.token ⟨-(payoutOf w).amount, (payoutOf w).symbol⟩ (balanceOf s w.to_ w.token))
  balances : ∀ a k, (a, k) ≠ (w.to_, w.token) → balanceOf s' a k = balanceOf s a k
  funds : s'.funds = s.funds
  stakes : s'.fundWithdraws = s.fundWithdraws
  schedules : ∀ x, s'.savingsWithdraws.lookup x = if x = id then remaining now w else s.savingsWithdraws.lookup x

variable {id : Nat} {w : TokenSavingsWithdrawObject} {next : Option Nat} {t t' : TokenIndices}

theorem savingsPaid_of_ok (hw : s.savingsWithdraws.lookup id = some w)
    (h : processTokenSavings v id w s = .ok next s') : SavingsPaid v.now id w s s' := by
  obtain ⟨b, hpay, hcases⟩ := processTokenSavings_eq_ok hw h
  simp only [payTokenSavings, bind_eq_ok, checked_eq_ok] at hpay
  obtain ⟨δ, _, ⟨hneg, rfl⟩, _, s₁, hdebit, hcredit⟩ := hpay
  obtain ⟨hδ, hδsym⟩ := Asset.neg_eq_ok hneg
  obtain rfl : δ = ⟨-(payoutOf w).amount, (payoutOf w).symbol⟩ := by
    cases δ
    simp only at hδ hδsym
    rw [hδ, hδsym]
  have hfirst := balanceChanged_adjustSide hdebit
  have hsecond := balanceChanged_adjustSide hcredit
  rw [hfirst.here] at hsecond
  have hothers : ∀ a k, (a, k) ≠ (w.to_, w.token) → balanceOf { s with balances := b } a k = balanceOf s a k :=
    fun a k hne => (hsecond.others a k hne).trans (hfirst.others a k hne)
  rcases hcases with ⟨hlast, -, rfl⟩ | ⟨hmore, -, hc, rfl⟩
  · refine ⟨hsecond.here, hothers, rfl, rfl, fun x => ?_⟩
    rw [lookup_erase, remaining, if_pos hlast]
  · refine ⟨hsecond.here, hothers, rfl, rfl, fun x => ?_⟩
    rw [remaining, if_neg hmore]
    exact lookup_replace hw hc x

theorem SavingsPaid.token_eq {a : TokenSavingsWithdrawObject} (h : remaining now w = some a) : a.token = w.token := by
  unfold remaining at h
  split at h
  · cases h
  · cases h
    rfl

/-- A payout of another token changes nothing of this one. -/
theorem AgreeOn.otherPayout (hw : s.savingsWithdraws.lookup id = some w) (hother : w.token ≠ token)
    (h : SavingsPaid now id w s s') : AgreeOn token s s' where
  balances a := (h.balances a token fun heq => hother (Prod.mk.inj heq).2.symm).symm
  funds f := by
    unfold fundOf
    rw [h.funds]
  stakes id := by
    unfold stakeOf
    rw [h.stakes]
  schedules x := by
    unfold scheduleOf
    rw [h.schedules]
    split
    next heq =>
      have hnone : ∀ o : Option TokenSavingsWithdrawObject, (∀ a, o = some a → a.token = w.token) →
          o.filter (fun w => w.token == token) = none := by
        intro o ho
        cases o with
        | none => rfl
        | some a => simpa [ho a rfl] using hother
      rw [heq, hw, hnone _ fun a ha => by cases ha; rfl, hnone _ fun a => SavingsPaid.token_eq]
    next => rfl

/-- The same payout of this token keeps the agreement. -/
theorem AgreeOn.samePayout (hagree : AgreeOn token s s') (htoken : w.token = token) (h : SavingsPaid now id w s t)
    (h' : SavingsPaid now id w s' t') : AgreeOn token t t' := by
  subst htoken
  refine ⟨fun a => ?_, fun f => ?_, fun x => ?_, fun x => ?_⟩
  · by_cases ha : a = w.to_
    · rw [ha, h.balance, h'.balance, hagree.balances]
    · have hne : (a, w.token) ≠ (w.to_, w.token) := fun heq => ha (Prod.mk.inj heq).1
      rw [h.balances a _ hne, h'.balances a _ hne, hagree.balances]
  · have hfunds := hagree.funds f
    unfold fundOf at hfunds ⊢
    rw [h.funds, h'.funds]
    exact hfunds
  · have hstakes := hagree.stakes x
    unfold stakeOf at hstakes ⊢
    rw [h.stakes, h'.stakes]
    exact hstakes
  · have hschedules := hagree.schedules x
    unfold scheduleOf at hschedules ⊢
    rw [h.schedules, h'.schedules]
    split
    · rfl
    · exact hschedules

/-- No schedule of the token is due. -/
def Idle (now : TimePointSec) (token : TokenName) (s : TokenIndices) : Prop :=
  ∀ id w, scheduleOf s token id = some w → now < w.nextDate

theorem Idle.agree (hidle : Idle now token s) (hagree : AgreeOn token s s') : Idle now token s' :=
  fun id w hw => hidle id w ((hagree.schedules id).trans hw)

/-- **A walk past a token** that has nothing due changes nothing of it. -/
theorem agree_of_idle {fuel : Nat} {cursor : Option Nat} (hidle : Idle v.now token s)
    (h : processTokenSavingsFrom v fuel cursor s = .ok u t) : AgreeOn token s t := by
  induction fuel generalizing cursor s with
  | zero =>
    rcases processTokenSavingsFrom_eq_ok h with ⟨rfl, -⟩ | ⟨_, _, _, _, _, hfuel, -⟩
    · exact .refl token t
    · cases hfuel
  | succ fuel ih =>
    rcases processTokenSavingsFrom_eq_ok h with ⟨rfl, -⟩ | ⟨_, id, w, next, s₁, hfuel, -, hw, hdue, hstep, hrest⟩
    · exact .refl token t
    · cases hfuel
      have hother : w.token ≠ token := by
        intro htoken
        have hnot := hidle id w (scheduleOf_eq_some.mpr ⟨lookup_eq_some.mp hw, htoken⟩)
        exact absurd hdue (not_le.mpr hnot)
      have hagree := AgreeOn.otherPayout hw hother (savingsPaid_of_ok hw hstep)
      exact hagree.trans (ih (hidle.agree hagree) hrest)

/-- The walk ends after an instalment when its schedule is not due again. -/
theorem walk_ends {fuel : Nat} (ho : Ordered s) (hw : s.savingsWithdraws.lookup id = some w) (hmore : ¬ IsLast w)
    (hlater : v.now < addSeconds w.nextDate transferSavingsCycle)
    (hstep : processTokenSavings v id w s = .ok next s') (h : processTokenSavingsFrom v fuel next s' = .ok u t) :
    t = s' := by
  refine walk_stops (fun x hx => ?_) h
  have hdate : dateOf s'.savingsWithdraws id = addSeconds w.nextDate transferSavingsCycle := by
    refine dateOf_eq (w := afterInstalment v.now w) ?_
    rw [(savingsPaid_of_ok hw hstep).schedules id, if_pos rfl, remaining, if_neg hmore]
  obtain ⟨hnext, -, -⟩ := queue_of_instalment hw hmore hstep
  have hle := le_entryAfter ((ordered_processTokenSavings v id w).runs _ _ _ hstep ho).byDate (hnext.symm.trans hx)
  rw [hdate] at hle
  exact lt_of_lt_of_le hlater hle

/-! ## Queues in step -/

theorem AgreeOn.lookup_eq (hagree : AgreeOn token s s') (hw : s.savingsWithdraws.lookup id = some w)
    (htoken : w.token = token) : s'.savingsWithdraws.lookup id = some w := by
  have hof := scheduleOf_eq_some.mpr ⟨lookup_eq_some.mp hw, htoken⟩
  exact lookup_eq_some.mpr (scheduleOf_eq_some.mp ((hagree.schedules id).symm.trans hof)).1

/-- The two walks stand at the same due schedule, or both behind the due ones. -/
def SamePlace (due later later' : List Nat) (cursor cursor' : Option Nat) : Prop :=
  (∃ x ∈ due, cursor = some x ∧ cursor' = some x) ∨
    (∀ x, cursor = some x → x ∈ later) ∧ ∀ x, cursor' = some x → x ∈ later'

theorem samePlace_head (due later later' : List Nat) :
    SamePlace due later later' (due ++ later).head? (due ++ later').head? := by
  cases due with
  | nil => exact .inr ⟨fun x hx => List.mem_of_head? hx, fun x hx => List.mem_of_head? hx⟩
  | cons x xs => exact .inl ⟨x, .head _, rfl, rfl⟩

theorem samePlace_entryAfter {due : List Nat} (later later' : List Nat) (hnodup : due.Nodup) (hmem : id ∈ due) :
    SamePlace due later later' (entryAfter id (due ++ later)) (entryAfter id (due ++ later')) := by
  obtain ⟨before, behind, rfl, hbefore, -⟩ := exists_place hnodup hmem
  rw [List.append_assoc, List.append_assoc, List.cons_append, List.cons_append, entryAfter_append hbefore,
    entryAfter_append hbefore]
  cases behind with
  | nil => exact .inr ⟨fun x hx => List.mem_of_head? hx, fun x hx => List.mem_of_head? hx⟩
  | cons x xs => exact .inl ⟨x, by simp, rfl, rfl⟩

/-- The queue is a due part, all of the token, and later dates. -/
structure DuePart (now : TimePointSec) (token : TokenName) (s : TokenIndices) (due later : List Nat) : Prop where
  order : s.bySavingsNextDate = due ++ later
  due : ∀ x ∈ due, ∃ w, s.savingsWithdraws.lookup x = some w ∧ w.token = token ∧ w.nextDate ≤ now
  later : ∀ x ∈ later, now < dateOf s.savingsWithdraws x

theorem DuePart.removed {due later : List Nat} (hs : DuePart now token s due later) (ho : Ordered s) (hid : id ∈ due)
    (htable : s'.savingsWithdraws = s.savingsWithdraws.erase id)
    (horder : s'.bySavingsNextDate = s.bySavingsNextDate.filter (· != id)) :
    DuePart now token s' (due.filter (· != id)) later := by
  have hnodup := ho.nodup
  rw [hs.order] at hnodup
  obtain ⟨-, -, hdisjoint⟩ := List.nodup_append.mp hnodup
  have hlater : ∀ x ∈ later, x ≠ id := fun x hx heq => hdisjoint id hid x hx heq.symm
  refine ⟨?_, fun x hx => ?_, fun x hx => ?_⟩
  · rw [horder, hs.order, List.filter_append, List.filter_eq_self.mpr fun x hx => bne_iff_ne.mpr (hlater x hx)]
  · obtain ⟨hx, hne⟩ := List.mem_filter.mp hx
    rw [htable, lookup_erase, if_neg (bne_iff_ne.mp hne)]
    exact hs.due x hx
  · have hsame : s'.savingsWithdraws.lookup x = s.savingsWithdraws.lookup x := by
      rw [htable, lookup_erase, if_neg (hlater x hx)]
    rw [dateOf_congr hsame]
    exact hs.later x hx

theorem DuePart.modified {due later : List Nat} (hs : DuePart now token s due later) (ho : Ordered s)
    (hid : id ∈ due) (hw : s.savingsWithdraws.lookup id = some w)
    (hagain : addSeconds w.nextDate transferSavingsCycle ≤ now)
    (hc : s.savingsWithdraws.clashes id (afterInstalment now w) = false)
    (htable : s'.savingsWithdraws = s.savingsWithdraws.replace id (afterInstalment now w) hc)
    (horder : s'.bySavingsNextDate = relink s'.savingsWithdraws id s.bySavingsNextDate) :
    DuePart now token s' (relink s'.savingsWithdraws id due) later := by
  have hnodup := ho.nodup
  rw [hs.order] at hnodup
  obtain ⟨hdueNodup, -, hdisjoint⟩ := List.nodup_append.mp hnodup
  have hlookup := lookup_replace hw hc
  rw [← htable] at hlookup
  have hlater : ∀ x ∈ later, now < dateOf s'.savingsWithdraws x := by
    intro x hx
    have hne : x ≠ id := fun heq => hdisjoint id hid x hx heq.symm
    rw [dateOf_congr ((hlookup x).trans (if_neg hne))]
    exact hs.later x hx
  have hdate : dateOf s'.savingsWithdraws id ≤ now := by
    rw [dateOf_eq ((hlookup id).trans (if_pos rfl))]
    exact hagain
  refine ⟨?_, fun x hx => ?_, hlater⟩
  · rw [horder, hs.order]
    exact relink_due hnodup hid fun y hy => lt_of_le_of_lt hdate (hlater y hy)
  · rw [(perm_relink hdueNodup hid).mem_iff] at hx
    obtain ⟨y, hy, htoken, hdue⟩ := hs.due x hx
    rw [hlookup x]
    split
    next heq =>
      obtain rfl : w = y := Option.some.inj (hw.symm.trans (heq ▸ hy))
      exact ⟨_, rfl, htoken, hagain⟩
    next => exact ⟨y, hy, htoken, hdue⟩

/-- **Walks in step**: where everything due is of one token, the walks of two states that agree on it make the
same payouts. -/
theorem agree_dueWalk {v' : CoreView} {fuel fuel' : Nat} {cursor cursor' : Option Nat} {due later later' : List Nat}
    (hnow : v.now = v'.now) (hagree : AgreeOn token s s') (ho : Ordered s) (ho' : Ordered s')
    (hs : DuePart v.now token s due later) (hs' : DuePart v.now token s' due later')
    (hplace : SamePlace due later later' cursor cursor') (h : processTokenSavingsFrom v fuel cursor s = .ok u t)
    (h' : processTokenSavingsFrom v' fuel' cursor' s' = .ok u t') : AgreeOn token t t' := by
  induction fuel generalizing fuel' cursor cursor' due s s' with
  | zero =>
    rcases hplace with ⟨x, hx, rfl, rfl⟩ | ⟨hcursor, hcursor'⟩
    · obtain ⟨w, hw, -, hdue⟩ := hs.due x hx
      obtain ⟨_, _, _, hfuel, -⟩ := walk_pays hw hdue h
      cases hfuel
    · rw [walk_stops (fun x hx => hs.later x (hcursor x hx)) h,
        walk_stops (fun x hx => hnow ▸ hs'.later x (hcursor' x hx)) h']
      exact hagree
  | succ fuel ih =>
    rcases hplace with ⟨x, hx, rfl, rfl⟩ | ⟨hcursor, hcursor'⟩
    · obtain ⟨w, hw, htoken, hdue⟩ := hs.due x hx
      have hw' := hagree.lookup_eq hw htoken
      obtain ⟨rest, next, s₁, hfuel, hstep, hrest⟩ := walk_pays hw hdue h
      obtain ⟨rest', next', s₁', -, hstep', hrest'⟩ := walk_pays hw' (hnow ▸ hdue) h'
      cases hfuel
      have hpaid := savingsPaid_of_ok hw hstep
      have hpaid' := savingsPaid_of_ok hw' hstep'
      rw [← hnow] at hpaid'
      have hagree₁ := hagree.samePayout htoken hpaid hpaid'
      have ho₁ := (ordered_processTokenSavings v x w).runs _ _ _ hstep ho
      have ho₁' := (ordered_processTokenSavings v' x w).runs _ _ _ hstep' ho'
      by_cases hlast : IsLast w
      · obtain ⟨rfl, htable, horder⟩ := queue_of_last hw hlast hstep
        obtain ⟨rfl, htable', horder'⟩ := queue_of_last hw' hlast hstep'
        have hs₁ := hs.removed ho hx htable horder
        have hs₁' := hs'.removed ho' hx htable' horder'
        refine ih hagree₁ ho₁ ho₁' hs₁ hs₁' ?_ hrest hrest'
        rw [hs₁.order, hs₁'.order]
        exact samePlace_head _ _ _
      · by_cases hlater : v.now < addSeconds w.nextDate transferSavingsCycle
        · rw [walk_ends ho hw hlast hlater hstep hrest, walk_ends ho' hw' hlast (hnow ▸ hlater) hstep' hrest']
          exact hagree₁
        · obtain ⟨rfl, ⟨hc, htable⟩, horder⟩ := queue_of_instalment hw hlast hstep
          obtain ⟨rfl, ⟨hc', htable'⟩, horder'⟩ := queue_of_instalment hw' hlast hstep'
          rw [← hnow] at hc' htable'
          have hs₁ := hs.modified ho hx hw (not_lt.mp hlater) hc htable horder
          have hs₁' := hs'.modified ho' hx hw' (not_lt.mp hlater) hc' htable' horder'
          -- the due part is moved by its own dates, which are those of the token
          have hdueNodup : due.Nodup := (List.nodup_append.mp (hs.order ▸ ho.nodup)).1
          have hdates : ∀ y ∈ due, dateOf s₁.savingsWithdraws y = dateOf s₁'.savingsWithdraws y := by
            intro y hy
            have hy₁ := (perm_relink (t := s₁.savingsWithdraws) hdueNodup hx).mem_iff.mpr hy
            obtain ⟨a, ha, hatoken, -⟩ := hs₁.due y hy₁
            exact dateOf_congr (ha.trans (hagree₁.lookup_eq ha hatoken).symm)
          rw [← relink_congr hdueNodup hx hdates] at hs₁'
          refine ih hagree₁ ho₁ ho₁' hs₁ hs₁' ?_ hrest hrest'
          rw [hs₁.order, hs₁'.order]
          have hperm := perm_relink (t := s₁.savingsWithdraws) hdueNodup hx
          exact samePlace_entryAfter _ _ (hperm.nodup_iff.mpr hdueNodup) (hperm.mem_iff.mpr hx)
    · rw [walk_stops (fun x hx => hs.later x (hcursor x hx)) h,
        walk_stops (fun x hx => hnow ▸ hs'.later x (hcursor' x hx)) h']
      exact hagree

/-! ## The front of the queue -/

/-- The schedules of the token, as they stand in the queue. -/
def queueOf (s : TokenIndices) (token : TokenName) : List Nat :=
  s.bySavingsNextDate.filter fun id => (scheduleOf s token id).isSome

/-- The first due schedule that pays an instalment keeps the tokens apart: one of the token is not due again, or
stands before due schedules of the token only; one of another token stands before none of this one that is
due. -/
def Unmixed (now : TimePointSec) (token : TokenName) (s : TokenIndices) : Prop :=
  ∀ before id behind w, s.bySavingsNextDate = before ++ id :: behind →
    s.savingsWithdraws.lookup id = some w → w.nextDate ≤ now → ¬ IsLast w →
    (∀ x ∈ before, ∀ y, s.savingsWithdraws.lookup x = some y → IsLast y) →
    if w.token = token then
      now < addSeconds w.nextDate transferSavingsCycle ∨
        ∀ x ∈ behind, ∀ y, s.savingsWithdraws.lookup x = some y → y.nextDate ≤ now → y.token = token
    else ∀ x ∈ behind, ∀ y, s.savingsWithdraws.lookup x = some y → y.token = token → now < y.nextDate

/-- Everything due is of the token. -/
def AllDueOf (now : TimePointSec) (token : TokenName) (s : TokenIndices) : Prop :=
  ∀ x w, s.savingsWithdraws.lookup x = some w → w.nextDate ≤ now → w.token = token

theorem AllDueOf.duePart (hall : AllDueOf now token s) (ho : Ordered s) :
    DuePart now token s (s.bySavingsNextDate.filter fun x => dateOf s.savingsWithdraws x ≤ now)
      (s.bySavingsNextDate.filter fun x => ¬ dateOf s.savingsWithdraws x ≤ now) := by
  refine ⟨ho.byDate.split now, fun x hx => ?_, fun x hx => ?_⟩
  · obtain ⟨hx, hdue⟩ := List.mem_filter.mp hx
    obtain ⟨w, hw⟩ := (ho.mem x).mp hx
    rw [dateOf_eq hw, decide_eq_true_eq] at hdue
    exact ⟨w, hw, hall x w hw hdue, hdue⟩
  · exact not_le.mp (of_decide_eq_true (List.mem_filter.mp hx).2)

theorem AllDueOf.due_eq (hall : AllDueOf now token s) (ho : Ordered s) :
    (s.bySavingsNextDate.filter fun x => dateOf s.savingsWithdraws x ≤ now) =
      (queueOf s token).filter fun x => dateOf s.savingsWithdraws x ≤ now := by
  unfold queueOf
  rw [List.filter_filter]
  refine List.filter_congr fun x hx => ?_
  by_cases hdue : dateOf s.savingsWithdraws x ≤ now
  · obtain ⟨w, hw⟩ := (ho.mem x).mp hx
    have hof := scheduleOf_eq_some.mpr ⟨lookup_eq_some.mp hw, hall x w hw (dateOf_eq hw ▸ hdue)⟩
    simp [hdue, hof]
  · simp [hdue]

theorem AgreeOn.due_eq (hagree : AgreeOn token s s') (hqueue : queueOf s token = queueOf s' token) :
    ((queueOf s token).filter fun x => dateOf s.savingsWithdraws x ≤ now) =
      (queueOf s' token).filter fun x => dateOf s'.savingsWithdraws x ≤ now := by
  rw [← hqueue]
  refine List.filter_congr fun x hx => ?_
  obtain ⟨w, hw⟩ := Option.isSome_iff_exists.mp (List.mem_filter.mp hx).2
  obtain ⟨hrow, htoken⟩ := scheduleOf_eq_some.mp hw
  have hlookup := hagree.lookup_eq (lookup_eq_some.mpr hrow) htoken
  rw [dateOf_congr ((lookup_eq_some.mpr hrow).trans hlookup.symm)]

theorem queueOf_removed (htable : s'.savingsWithdraws = s.savingsWithdraws.erase id)
    (horder : s'.bySavingsNextDate = s.bySavingsNextDate.filter (· != id)) :
    queueOf s' token = (queueOf s token).filter (· != id) := by
  unfold queueOf
  rw [horder, List.filter_filter, List.filter_filter]
  refine List.filter_congr fun x hx => ?_
  by_cases hne : x = id
  · simp [hne]
  · unfold scheduleOf
    rw [htable, lookup_erase, if_neg hne, Bool.and_comm]

theorem not_mem_queueOf (hw : s.savingsWithdraws.lookup id = some w) (hother : w.token ≠ token) :
    id ∉ queueOf s token := by
  intro hmem
  obtain ⟨y, hy⟩ := Option.isSome_iff_exists.mp (List.mem_filter.mp hmem).2
  obtain ⟨hrow, htoken⟩ := scheduleOf_eq_some.mp hy
  obtain rfl : w = y := Option.some.inj (hw.symm.trans (lookup_eq_some.mpr hrow))
  exact hother htoken

theorem queueOf_removed_other (hw : s.savingsWithdraws.lookup id = some w) (hother : w.token ≠ token)
    (htable : s'.savingsWithdraws = s.savingsWithdraws.erase id)
    (horder : s'.bySavingsNextDate = s.bySavingsNextDate.filter (· != id)) : queueOf s' token = queueOf s token := by
  rw [queueOf_removed htable horder]
  refine List.filter_eq_self.mpr fun x hx => bne_iff_ne.mpr ?_
  rintro rfl
  exact not_mem_queueOf hw hother hx

theorem head_queueOf {rest : List Nat} (hhead : s.bySavingsNextDate = id :: rest)
    (hw : s.savingsWithdraws.lookup id = some w) (htoken : w.token = token) :
    (queueOf s token).head? = some id := by
  have hof := scheduleOf_eq_some.mpr ⟨lookup_eq_some.mp hw, htoken⟩
  unfold queueOf
  rw [hhead, List.filter_cons_of_pos (by rw [hof]; rfl)]
  rfl

theorem Unmixed.removed {rest : List Nat} (hclear : Unmixed now token s) (ho : Ordered s)
    (hhead : s.bySavingsNextDate = id :: rest) (hw : s.savingsWithdraws.lookup id = some w) (hlast : IsLast w)
    (htable : s'.savingsWithdraws = s.savingsWithdraws.erase id)
    (horder : s'.bySavingsNextDate = s.bySavingsNextDate.filter (· != id)) : Unmixed now token s' := by
  have hfresh : id ∉ rest := (List.nodup_cons.mp (hhead ▸ ho.nodup)).1
  have hsame : ∀ x ∈ rest, s'.savingsWithdraws.lookup x = s.savingsWithdraws.lookup x := by
    intro x hx
    rw [htable, lookup_erase, if_neg]
    rintro rfl
    exact hfresh hx
  have hrest : s'.bySavingsNextDate = rest := by
    rw [horder, hhead]
    exact filter_ne_append List.not_mem_nil hfresh
  intro before x behind y hsplit hy hdue hmore hbefore
  rw [hrest] at hsplit
  have hin : ∀ z ∈ before ++ x :: behind, s'.savingsWithdraws.lookup z = s.savingsWithdraws.lookup z :=
    fun z hz => hsame z (hsplit ▸ hz)
  have hcons : s.bySavingsNextDate = (id :: before) ++ x :: behind := by rw [hhead, hsplit, List.cons_append]
  rw [hin x (by simp)] at hy
  have hall : ∀ z ∈ id :: before, ∀ a, s.savingsWithdraws.lookup z = some a → IsLast a := by
    intro z hz a ha
    rcases List.mem_cons.mp hz with rfl | hz
    · obtain rfl : w = a := Option.some.inj (hw.symm.trans ha)
      exact hlast
    · exact hbefore z hz a ((hin z (List.mem_append_left _ hz)).trans ha)
  have hbehind : ∀ z ∈ behind, s'.savingsWithdraws.lookup z = s.savingsWithdraws.lookup z :=
    fun z hz => hin z (List.mem_append_right _ (.tail _ hz))
  have hs := hclear (id :: before) x behind y hcons hy hdue hmore hall
  split at hs
  next htoken =>
    rw [if_pos htoken]
    exact hs.imp_right fun hs z hz a ha => hs z hz a ((hbehind z hz).symm.trans ha)
  next hother =>
    rw [if_neg hother]
    exact fun z hz a ha => hs z hz a ((hbehind z hz).symm.trans ha)

/-- With a later date at the front nothing is due. -/
theorem idle_of_front (ho : Ordered s)
    (hfront : ∀ x, s.bySavingsNextDate.head? = some x → now < dateOf s.savingsWithdraws x) : Idle now token s := by
  intro id w hw
  obtain ⟨hrow, -⟩ := scheduleOf_eq_some.mp hw
  have hlookup := lookup_eq_some.mpr hrow
  have hmem := (ho.mem id).mpr ⟨w, hlookup⟩
  have hdate := ho.byDate
  unfold ByDate at hdate
  cases horder : s.bySavingsNextDate with
  | nil =>
    rw [horder] at hmem
    cases hmem
  | cons x rest =>
    rw [horder] at hmem hdate hfront
    have hx := hfront x rfl
    rw [← dateOf_eq hlookup]
    rcases List.mem_cons.mp hmem with rfl | hmem
    · exact hx
    · exact lt_of_lt_of_le hx ((List.pairwise_cons.mp hdate).1 id hmem)

theorem exists_rest_of_head {x : Nat} {order : List Nat} (h : order.head? = some x) : ∃ rest, order = x :: rest := by
  cases order with
  | nil => cases h
  | cons y rest =>
    cases h
    exact ⟨rest, rfl⟩

/-- An instalment of another token at the front has nothing of this one behind it. -/
theorem Unmixed.idle {rest : List Nat} (hclear : Unmixed now token s) (ho : Ordered s)
    (hhead : s.bySavingsNextDate = id :: rest) (hw : s.savingsWithdraws.lookup id = some w) (hdue : w.nextDate ≤ now)
    (hmore : ¬ IsLast w) (hother : w.token ≠ token) : Idle now token s := by
  have hs := hclear [] id rest w hhead hw hdue hmore (by simp)
  rw [if_neg hother] at hs
  intro x y hy
  obtain ⟨hrow, htoken⟩ := scheduleOf_eq_some.mp hy
  have hlookup := lookup_eq_some.mpr hrow
  have hmem := (ho.mem x).mpr ⟨y, hlookup⟩
  rw [hhead] at hmem
  rcases List.mem_cons.mp hmem with rfl | hmem
  · obtain rfl : w = y := Option.some.inj (hw.symm.trans hlookup)
    exact absurd htoken hother
  · exact hs x hmem y hlookup htoken

/-- An instalment of this token at the front that is due again has nothing of the others behind it. -/
theorem Unmixed.allDue {rest : List Nat} (hclear : Unmixed now token s) (ho : Ordered s)
    (hhead : s.bySavingsNextDate = id :: rest) (hw : s.savingsWithdraws.lookup id = some w) (hdue : w.nextDate ≤ now)
    (hmore : ¬ IsLast w) (htoken : w.token = token) (hagain : addSeconds w.nextDate transferSavingsCycle ≤ now) :
    AllDueOf now token s := by
  have hs := hclear [] id rest w hhead hw hdue hmore (by simp)
  rw [if_pos htoken] at hs
  have hs := hs.resolve_left (not_lt.mpr hagain)
  intro x y hy hydue
  have hmem := (ho.mem x).mpr ⟨y, hy⟩
  rw [hhead] at hmem
  rcases List.mem_cons.mp hmem with rfl | hmem
  · obtain rfl : w = y := Option.some.inj (hw.symm.trans hy)
    exact htoken
  · exact hs x hmem y hy hydue

/-- **The savings routine** makes the same payouts of a token in two states that agree on it, where the front of
the queue keeps the tokens apart. -/
theorem agree_savingsWalk {v' : CoreView} {fuel fuel' : Nat} (hnow : v.now = v'.now) (hagree : AgreeOn token s s')
    (hqueue : queueOf s token = queueOf s' token) (ho : Ordered s) (ho' : Ordered s')
    (hclear : Unmixed v.now token s) (hclear' : Unmixed v.now token s')
    (h : processTokenSavingsFrom v fuel s.bySavingsNextDate.head? s = .ok u t)
    (h' : processTokenSavingsFrom v' fuel' s'.bySavingsNextDate.head? s' = .ok u t') : AgreeOn token t t' := by
  -- last payments of other tokens at either front are skipped, those of the token go in step
  induction hn : fuel + fuel' using Nat.strong_induction_on generalizing fuel fuel' s s' with
  | _ n ih =>
    have hwalk := h
    have hwalk' := h'
    have hidle : Idle v.now token s → AgreeOn token t t' := fun hidle =>
      (agree_of_idle hidle hwalk).symm.trans (hagree.trans (agree_of_idle (hnow ▸ hidle.agree hagree) hwalk'))
    rcases processTokenSavingsFrom_eq_ok h with ⟨-, hstop⟩ | ⟨rest, id, w, next, s₁, rfl, hhead, hw, hdue, hstep, hrest⟩
    · exact hidle (idle_of_front ho hstop)
    rcases processTokenSavingsFrom_eq_ok h' with
      ⟨-, hstop'⟩ | ⟨rest', id', w', next', s₁', rfl, hhead', hw', hdue', hstep', hrest'⟩
    · exact hidle ((idle_of_front ho' (hnow ▸ hstop')).agree hagree.symm)
    rw [← hnow] at hdue'
    have ho₁ := (ordered_processTokenSavings v id w).runs _ _ _ hstep ho
    have ho₁' := (ordered_processTokenSavings v' id' w').runs _ _ _ hstep' ho'
    have hpaid := savingsPaid_of_ok hw hstep
    have hpaid' := savingsPaid_of_ok hw' hstep'
    rw [← hnow] at hpaid'
    obtain ⟨tail, htail⟩ := exists_rest_of_head hhead
    obtain ⟨tail', htail'⟩ := exists_rest_of_head hhead'
    by_cases htoken : w.token = token
    · by_cases htoken' : w'.token = token
      · have hid : some id = some id' := by
          rw [← head_queueOf htail hw htoken, ← head_queueOf htail' hw' htoken', hqueue]
        obtain rfl := Option.some.inj hid
        obtain rfl : w = w' := Option.some.inj ((hagree.lookup_eq hw htoken).symm.trans hw')
        have hagree₁ := hagree.samePayout htoken hpaid hpaid'
        by_cases hlast : IsLast w
        · obtain ⟨rfl, htable, horder⟩ := queue_of_last hw hlast hstep
          obtain ⟨rfl, htable', horder'⟩ := queue_of_last hw' hlast hstep'
          refine ih _ (by omega) hagree₁ ?_ ho₁ ho₁' (hclear.removed ho htail hw hlast htable horder)
            (hclear'.removed ho' htail' hw' hlast htable' horder') hrest hrest' rfl
          rw [queueOf_removed htable horder, queueOf_removed htable' horder', hqueue]
        · by_cases hlater : v.now < addSeconds w.nextDate transferSavingsCycle
          · rw [walk_ends ho hw hlast hlater hstep hrest, walk_ends ho' hw' hlast (hnow ▸ hlater) hstep' hrest']
            exact hagree₁
          · have hall := hclear.allDue ho htail hw hdue hlast htoken (not_lt.mp hlater)
            have hall' := hclear'.allDue ho' htail' hw' hdue hlast htoken (not_lt.mp hlater)
            have hdueEq := (hall.due_eq ho).trans ((hagree.due_eq hqueue).trans (hall'.due_eq ho').symm)
            have hs' := hall'.duePart ho'
            rw [← hdueEq] at hs'
            refine agree_dueWalk hnow hagree ho ho' (hall.duePart ho) hs' (.inl ⟨id, ?_, hhead, hhead'⟩) hwalk hwalk'
            have hmem := (ho.mem id).mpr ⟨w, hw⟩
            exact List.mem_filter.mpr ⟨hmem, decide_eq_true (dateOf_eq hw ▸ hdue)⟩
      · by_cases hlast' : IsLast w'
        · obtain ⟨rfl, htable', horder'⟩ := queue_of_last hw' hlast' hstep'
          have hother := AgreeOn.otherPayout hw' htoken' hpaid'
          refine ih _ (by omega) (hagree.trans hother) ?_ ho ho₁' hclear
            (hclear'.removed ho' htail' hw' hlast' htable' horder') hwalk hrest' rfl
          rw [hqueue, queueOf_removed_other hw' htoken' htable' horder']
        · exact hidle ((hclear'.idle ho' htail' hw' hdue' hlast' htoken').agree hagree.symm)
    · by_cases hlast : IsLast w
      · obtain ⟨rfl, htable, horder⟩ := queue_of_last hw hlast hstep
        have hother := AgreeOn.otherPayout hw htoken hpaid
        refine ih _ (by omega) (hother.symm.trans hagree) ?_ ho₁ ho'
          (hclear.removed ho htail hw hlast htable horder) hclear' hrest hwalk' rfl
        rw [← hqueue, queueOf_removed_other hw htoken htable horder]
      · exact hidle (hclear.idle ho htail hw hdue hlast htoken)

/-! ## The handler -/

/-- The two states hold the same of the token, and its schedules are queued alike. -/
structure SameToken (token : TokenName) (s s' : TokenIndices) : Prop where
  objects : AgreeOn token s s'
  queue : queueOf s token = queueOf s' token

/-- Both routines return, the second from where the first ended. -/
theorem onApplyBlock_returns {d : Database} (hd : TokenBacked (coreView d.core) d.token)
    (hcover : ∀ k, FundsCover (coreView d.core) k d.token) :
    ∃ s₁ t, processTokenFundWithdraw (coreView d.core) d.token = .ok () s₁ ∧
      processTokenSavingsWithdraws (coreView d.core) s₁ = .ok () t ∧
      Token.onApplyBlock d = .ok () { d with token := t } := by
  obtain ⟨s₁, hstakes⟩ := processTokenFundWithdraw_returns hd hcover
  obtain ⟨lost, hsound⟩ := hd.sound
  have hsound₁ := (sound_processTokenFundWithdraw (coreView d.core)).runs _ _ _ hstakes hsound
  have hstay := (savingsStay_processTokenFundWithdraw (coreView d.core)).runs _ _ _ hstakes
  obtain ⟨t, hsavings, -⟩ := processTokenSavingsWithdraws_returns (hd.stay hstay ⟨lost, hsound₁⟩)
  refine ⟨s₁, t, hstakes, hsavings, ?_⟩
  have hfirst : withView processTokenFundWithdraw d = .ok () { d with token := s₁ } := by
    unfold withView
    rw [bind_of_ok (get_apply d)]
    exact within_eq_ok.mpr ⟨s₁, hstakes, rfl⟩
  have hsecond : withView processTokenSavingsWithdraws { d with token := s₁ } = .ok () { d with token := t } := by
    unfold withView
    rw [bind_of_ok (get_apply _)]
    exact within_eq_ok.mpr ⟨t, hsavings, rfl⟩
  unfold Token.onApplyBlock
  rw [bind_of_ok hfirst]
  exact hsecond

theorem queueOf_congr (htable : s'.savingsWithdraws = s.savingsWithdraws)
    (horder : s'.bySavingsNextDate = s.bySavingsNextDate) : queueOf s' token = queueOf s token := by
  unfold queueOf scheduleOf
  rw [htable, horder]

theorem Unmixed.congr (h : Unmixed now token s) (htable : s'.savingsWithdraws = s.savingsWithdraws)
    (horder : s'.bySavingsNextDate = s.bySavingsNextDate) : Unmixed now token s' := by
  unfold Unmixed
  rw [htable, horder]
  exact h

end Sigmaengine.Token

namespace Sigmaengine

open Effect Table Token

/-- The handler pays out the same of the token in both states. -/
def SamePayouts (token : TokenName) (d d' : Database) : Prop :=
  AgreeOn token (after (attempt Token.onApplyBlock d)).token (after (attempt Token.onApplyBlock d')).token

/-- **Payouts of one token**: two states that hold the same of it pay out the same, when no fund in either lacks
what is due and the front of either queue keeps the tokens apart. -/
theorem same_payouts_of_clear_queues (token : TokenName) (d d' : Database) (hd : OnChain TokenSettled d)
    (hd' : OnChain TokenSettled d') (htime : d.core.dgp.time = d'.core.dgp.time)
    (hsame : SameToken token d.token d'.token) (hcover : ∀ k, FundsCover (coreView d.core) k d.token)
    (hcover' : ∀ k, FundsCover (coreView d'.core) k d'.token) (hclear : Unmixed d.core.dgp.time token d.token)
    (hclear' : Unmixed d'.core.dgp.time token d'.token) : SamePayouts token d d' := by
  obtain ⟨s₁, t, hstakes, hsavings, hrun⟩ := onApplyBlock_returns hd.1 hcover
  obtain ⟨s₁', t', hstakes', hsavings', hrun'⟩ := onApplyBlock_returns hd'.1 hcover'
  have hnow : (coreView d.core).now = (coreView d'.core).now := htime
  have hagree : AgreeOn token s₁ s₁' := by
    unfold processTokenFundWithdraw at hstakes hstakes'
    rw [bind_of_ok (get_apply _)] at hstakes hstakes'
    exact agree_stakeLoop hnow hsame.objects hstakes hstakes'
  obtain ⟨-, htable, horder⟩ := (savingsStay_processTokenFundWithdraw _).runs _ _ _ hstakes
  obtain ⟨-, htable', horder'⟩ := (savingsStay_processTokenFundWithdraw _).runs _ _ _ hstakes'
  have hqueue : queueOf s₁ token = queueOf s₁' token := by
    rw [queueOf_congr htable horder, queueOf_congr htable' horder', hsame.queue]
  have hfinal : AgreeOn token t t' := by
    unfold processTokenSavingsWithdraws at hsavings hsavings'
    rw [bind_of_ok (get_apply _)] at hsavings hsavings'
    rw [← htime] at hclear'
    exact agree_savingsWalk hnow hagree hqueue (hd.2.of_eq htable horder) (hd'.2.of_eq htable' horder')
      (hclear.congr htable horder) (hclear'.congr htable' horder') hsavings hsavings'
  unfold SamePayouts
  rw [after_attempt, after_attempt, hrun, hrun', after_ok, after_ok]
  exact hfinal

/-- The token handler starts in `t` while the block is applied to `d`: the block itself and the handlers connected
before have returned. -/
def TokenHandlerStarts (env : Env) (node : Node) (b : SignedBlock) (d t : Database) : Prop :=
  ∃ earlier later d₁ d₂, env.plugins = earlier ++ Plugin.token :: later ∧
    applyBlockHead env node b d = .ok () d₁ ∧
    onCore (do
      prepareBlock env b
      postProcess
      processHardforks) d₁ = .ok () d₂ ∧
    each (fun p => match p with
      | Plugin.dapp => Dapp.onApplyBlock
      | Plugin.token => Token.onApplyBlock) earlier d₂ = .ok () t

/-- **The handler starts in settled states** in every run in which no stake is promised a negative amount. -/
theorem settled_of_tokenHandlerStarts {env : Env} {node : Node} {b : SignedBlock} {d t : Database}
    (hd : Reachable env (PayingStakes env) d) (hvalidate : node.skip.validate = false)
    (hpaying : PayingStakes env node b d) (h : TokenHandlerStarts env node b d t) : OnChain TokenSettled t := by
  have hI := tokenInvariant_settled env.tokenInterest
  obtain ⟨earlier, later, d₁, d₂, -, hhead, hcore, hearlier⟩ := h
  have hsettled := hI.reachable tokenSettled_genesis (fun _ _ _ hstakes => hstakes) hd
  exact hI.handlerStarts hvalidate hpaying hhead hcore hearlier hsettled

/-! ## Two tokens -/

def createMallText : Bytes :=
  ascii (jsonText "create_dapp" [("owner", "root"), ("dapp_name", "mall"), ("dapp_key", "1")])

def voteMallText : Bytes :=
  let votes := producers.map fun n => jsonText "vote_dapp" [("voter", n), ("dapp_name", "mall"), ("vote", "102")]
  ascii ('[' :: (votes.intersperse [',']).flatten ++ [']'])

def createGemText : Bytes :=
  ascii (jsonText "create_token" [("name", "gem"), ("symbol_name", "gm"), ("publisher", "root"),
    ("dapp_name", "mall"), ("dapp_key", "1"), ("init_supply_amount", "5")])

def saveGemText : Bytes :=
  ascii (jsonText "transfer_token_savings" [("from", "root"), ("to", "aaa"), ("token", "gem"), ("request_id", "1"),
    ("amount", "5.000000 GM"), ("split_pay_month", "1"), ("memo", ""), ("next_date", "2019-10-15T05:14:12")])

def saveCoinText (months : Nat) : Bytes :=
  ascii (jsonText "transfer_token_savings" [("from", "root"), ("to", "aaa"), ("token", "coin"), ("request_id", "1"),
    ("amount", "5.000000 CN"), ("split_pay_month", toString months), ("memo", ""),
    ("next_date", "2019-10-15T05:14:11")])

/-- The sample node, which reads the texts above as well. -/
def isolationEnv : Env :=
  { tokenEnv with
    decodeDapp := fun payload =>
      match payload with
      | .json text =>
        if text = createMallText then some [.createDapp ⟨rootAccount, named "mall", some ⟨1⟩⟩]
        else if text = voteMallText then some (producers.map fun n => .voteDapp ⟨named n, named "mall", 102⟩)
        else tokenEnv.decodeDapp payload
      | .binary _ => tokenEnv.decodeDapp payload
    decodeToken := fun payload =>
      let save (token : TokenName) (symbol : AssetSymbol) (months : UInt8) (nextDate : TimePointSec) :=
        TokenOperation.transferTokenSavings
          { from_ := rootAccount, to_ := named "aaa", token := token, requestId := 1, amount := ⟨5000000, symbol⟩,
            splitPayMonth := months, memo := [], nextDate := nextDate }
      match payload with
      | .json text =>
        if text = createGemText then
          some [.createToken
            { name := named "gem", symbolName := ascii ['g', 'm'], publisher := rootAccount,
              dappName := named "mall", dappKey := ⟨1⟩, initSupplyAmount := 5 }]
        else if text = saveGemText then
          some [save (named "gem") (makeSymbol (ascii ['G', 'M'])) 1 (genesisTime + 8)]
        else if text = saveCoinText 1 then
          some [save (named "coin") (makeSymbol (ascii ['C', 'N'])) 1 (genesisTime + 7)]
        else if text = saveCoinText 2 then
          some [save (named "coin") (makeSymbol (ascii ['C', 'N'])) 2 (genesisTime + 7)]
        else tokenEnv.decodeToken payload
      | .binary _ => tokenEnv.decodeToken payload }

/-- The producers are installed, and two dapps are created and voted for. -/
def twoDappBlock : SignedBlock :=
  sampleBlock {} 1 (producers.map createProducer ++ producers.flatMap enlistProducer ++
    [.customJson ⟨[rootAccount], [], ascii ['d', 'a', 'p', 'p'], createDappText⟩,
      .customJson ⟨producers.map named, [], ascii ['d', 'a', 'p', 'p'], voteDappText⟩,
      .customJson ⟨[rootAccount], [], ascii ['d', 'a', 'p', 'p'], createMallText⟩,
      .customJson ⟨producers.map named, [], ascii ['d', 'a', 'p', 'p'], voteMallText⟩])

/-- Two tokens; the second is saved to another account, and the first as well if `saves` says so. -/
def gemBlock (saves : List Operation) : SignedBlock :=
  sampleBlock (twoDappBlock.id isolationEnv.codec) 2
    ([.customJsonDapp ⟨[], [], [], [.ofKey ⟨1⟩], ascii ['t', 'o', 'k', 'e', 'n'], createTokenText⟩,
      .customJsonDapp ⟨[], [], [], [.ofKey ⟨1⟩], ascii ['t', 'o', 'k', 'e', 'n'], createGemText⟩,
      .customJson ⟨[rootAccount], [], ascii ['t', 'o', 'k', 'e', 'n'], saveGemText⟩] ++ saves)

def saveCoin (months : Nat) : Operation :=
  .customJson ⟨[rootAccount], [], ascii ['t', 'o', 'k', 'e', 'n'], saveCoinText months⟩

def gemState (saves : List Operation) : Database :=
  after (applyBlock isolationEnv {} (gemBlock saves) (after (applyBlock isolationEnv {} twoDappBlock (genesis ⟨1⟩))))

def dueBlock (saves : List Operation) : SignedBlock := sampleBlock ((gemBlock saves).id isolationEnv.codec) 3 []

def headState (saves : List Operation) : Database :=
  after (applyBlockHead isolationEnv {} (dueBlock saves) (gemState saves))

def coreState (saves : List Operation) : Database :=
  after (onCore (do
    prepareBlock isolationEnv (dueBlock saves)
    postProcess
    processHardforks) (headState saves))

def dueState (saves : List Operation) : Database := after (Dapp.onApplyBlock (coreState saves))

/-- Every step up to the handler returns. -/
def reachesDue (saves : List Operation) : Bool :=
  succeeds (applyBlock isolationEnv {} twoDappBlock (genesis ⟨1⟩)) &&
    succeeds (applyBlock isolationEnv {} (gemBlock saves)
      (after (applyBlock isolationEnv {} twoDappBlock (genesis ⟨1⟩)))) &&
    succeeds (applyBlockHead isolationEnv {} (dueBlock saves) (gemState saves)) &&
    succeeds (onCore (do
      prepareBlock isolationEnv (dueBlock saves)
      postProcess
      processHardforks) (headState saves)) &&
    succeeds (Dapp.onApplyBlock (coreState saves))

theorem reachable_gemState {saves : List Operation} {ok : Node → SignedBlock → Database → Prop}
    (h : reachesDue saves = true) (htwo : ok {} twoDappBlock (genesis ⟨1⟩))
    (hgem : ok {} (gemBlock saves) (after (applyBlock isolationEnv {} twoDappBlock (genesis ⟨1⟩)))) :
    Reachable isolationEnv ok (gemState saves) := by
  simp only [reachesDue, Bool.and_eq_true] at h
  have hfirst : Reachable isolationEnv ok (after (applyBlock isolationEnv {} twoDappBlock (genesis ⟨1⟩))) :=
    (Reachable.genesis ⟨1⟩).block {} twoDappBlock rfl htwo (eq_ok_of_succeeds h.1.1.1.1)
  exact hfirst.block {} (gemBlock saves) rfl hgem (eq_ok_of_succeeds h.1.1.1.2)

theorem tokenHandlerStarts_dueState {saves : List Operation} (h : reachesDue saves = true) :
    TokenHandlerStarts isolationEnv {} (dueBlock saves) (gemState saves) (dueState saves) := by
  simp only [reachesDue, Bool.and_eq_true] at h
  refine ⟨[.dapp], [], headState saves, coreState saves, rfl, eq_ok_of_succeeds h.1.1.2, eq_ok_of_succeeds h.1.2, ?_⟩
  exact bind_of_ok (eq_ok_of_succeeds h.2)

deriving instance DecidableEq for TokenBalanceObject, TokenFundObject, TokenFundWithdrawObject,
  TokenSavingsWithdrawObject

/-- The second token is the same with and without the savings of the first, and nothing is staked. -/
def SameGems (saves : List Operation) : Prop :=
  let gem : TokenName := named "gem"
  let s := (dueState saves).token
  let s' := (dueState []).token
  reachesDue saves = true ∧ reachesDue [] = true ∧
    (dueState saves).core.dgp.time = (dueState []).core.dgp.time ∧
    (s.balances.rows.filter fun r => r.2.token == gem) = (s'.balances.rows.filter fun r => r.2.token == gem) ∧
    (s.funds.rows.filter fun r => r.2.token == gem) = (s'.funds.rows.filter fun r => r.2.token == gem) ∧
    (s.savingsWithdraws.rows.filter fun r => r.2.token == gem) =
      (s'.savingsWithdraws.rows.filter fun r => r.2.token == gem) ∧
    queueOf s gem = queueOf s' gem ∧ s.fundWithdraws.rows = [] ∧ s'.fundWithdraws.rows = []

instance (saves : List Operation) : Decidable (SameGems saves) := by
  unfold SameGems
  infer_instance

theorem SameGems.sameToken {saves : List Operation} (h : SameGems saves) :
    SameToken (named "gem") (dueState saves).token (dueState []).token := by
  obtain ⟨-, -, -, hbalances, hfunds, hschedules, hqueue, hnone, hnone'⟩ := h
  exact ⟨agreeOn_of_rows hbalances hfunds (by rw [hnone, hnone']) hschedules, hqueue⟩

theorem fundsCover_of_rows {v : CoreView} {s : TokenIndices} (h : s.fundWithdraws.rows = []) (token : TokenName) :
    FundsCover v token s := by
  intro w hw
  obtain ⟨id, hid⟩ := mem_values.mp hw
  rw [h] at hid
  cases hid

/-- Last payments keep the tokens apart. -/
theorem unmixed_of_last {now : TimePointSec} {token : TokenName} {s : TokenIndices}
    (h : ∀ r ∈ s.savingsWithdraws.rows, IsLast r.2) : Unmixed now token s :=
  fun _ id _ w _ hw _ hmore _ => absurd (h (id, w) (lookup_eq_some.mp hw)) hmore

theorem settled_dueState {saves : List Operation} (hreach : reachesDue saves = true)
    (hpaying : PayingStakes isolationEnv {} twoDappBlock (genesis ⟨1⟩) ∧
      PayingStakes isolationEnv {} (gemBlock saves) (after (applyBlock isolationEnv {} twoDappBlock (genesis ⟨1⟩))) ∧
      PayingStakes isolationEnv {} (dueBlock saves) (gemState saves)) : OnChain TokenSettled (dueState saves) :=
  settled_of_tokenHandlerStarts (reachable_gemState hreach hpaying.1 hpaying.2.1) rfl hpaying.2.2
    (tokenHandlerStarts_dueState hreach)

theorem same_payouts_of_last_payments :
    SameToken (named "gem") (dueState [saveCoin 1]).token (dueState []).token ∧
      (dueState [saveCoin 1]).token.savingsWithdraws.rows.length = 2 ∧
      SamePayouts (named "gem") (dueState [saveCoin 1]) (dueState []) := by
  have hrun : SameGems [saveCoin 1] ∧ (dueState [saveCoin 1]).token.savingsWithdraws.rows.length = 2 ∧
      (∀ r ∈ (dueState [saveCoin 1]).token.savingsWithdraws.rows, IsLast r.2) ∧
      (∀ r ∈ (dueState []).token.savingsWithdraws.rows, IsLast r.2) ∧
      PayingStakes isolationEnv {} twoDappBlock (genesis ⟨1⟩) ∧
      ∀ saves ∈ [[saveCoin 1], []],
        PayingStakes isolationEnv {} (gemBlock saves) (after (applyBlock isolationEnv {} twoDappBlock (genesis ⟨1⟩))) ∧
          PayingStakes isolationEnv {} (dueBlock saves) (gemState saves) := by
    decide +kernel
  obtain ⟨hgems, hlen, hlast, hlast', htwo, hpaying⟩ := hrun
  have hsame := hgems.sameToken
  obtain ⟨hreach, hreach', htime, -, -, -, -, hnone, hnone'⟩ := hgems
  have hd := settled_dueState hreach ⟨htwo, hpaying _ (.head _)⟩
  have hd' := settled_dueState hreach' ⟨htwo, hpaying _ (.tail _ (.head _))⟩
  exact ⟨hsame, hlen, same_payouts_of_clear_queues _ _ _ hd hd' htime hsame (fundsCover_of_rows hnone)
    (fundsCover_of_rows hnone') (unmixed_of_last hlast) (unmixed_of_last hlast')⟩

/-- An instalment of one token delays the payout of another that is due behind it. -/
theorem instalment_delays_another_token :
    Reachable isolationEnv anyBlock (gemState [saveCoin 2]) ∧ Reachable isolationEnv anyBlock (gemState []) ∧
      TokenHandlerStarts isolationEnv {} (dueBlock [saveCoin 2]) (gemState [saveCoin 2]) (dueState [saveCoin 2]) ∧
      TokenHandlerStarts isolationEnv {} (dueBlock []) (gemState []) (dueState []) ∧
      (dueState [saveCoin 2]).core.dgp.time = (dueState []).core.dgp.time ∧
      SameToken (named "gem") (dueState [saveCoin 2]).token (dueState []).token ∧
      FundsCover (coreView (dueState [saveCoin 2]).core) (named "gem") (dueState [saveCoin 2]).token ∧
      FundsCover (coreView (dueState []).core) (named "gem") (dueState []).token ∧
      ¬ SamePayouts (named "gem") (dueState [saveCoin 2]) (dueState []) := by
  have hrun : SameGems [saveCoin 2] ∧
      balanceOf (after (attempt Token.onApplyBlock (dueState [saveCoin 2]))).token (named "aaa") (named "gem") ≠
        balanceOf (after (attempt Token.onApplyBlock (dueState []))).token (named "aaa") (named "gem") := by
    decide +kernel
  obtain ⟨hgems, hbalance⟩ := hrun
  have hsame := hgems.sameToken
  obtain ⟨hreach, hreach', htime, -, -, -, -, hnone, hnone'⟩ := hgems
  exact ⟨reachable_gemState hreach trivial trivial, reachable_gemState hreach' trivial trivial,
    tokenHandlerStarts_dueState hreach,
    tokenHandlerStarts_dueState hreach', htime, hsame, fundsCover_of_rows hnone _, fundsCover_of_rows hnone' _,
    fun hpayouts => hbalance (hpayouts.balances _)⟩

end Sigmaengine
