import Sigmaengine.Ledger.TokenBacking

/-!
# The queue of token savings

The index by next date is a list of ids.  In every reachable state each schedule stands in it once and the
dates grow along it (`Ordered`).  The block handler works on this queue from the front; what one payout does
to it is `processTokenSavings_eq_ok`.
-/

namespace Sigmaengine.Token

open Sigmaengine Effect Table Finsupp

variable {s s' : TokenIndices} {u : Unit} {v : CoreView} {t t' : Table TokenSavingsWithdrawObject} {id : Nat}
  {order : List Nat}

/-! ## Places in the queue -/

/-- The dates grow along the list. -/
def ByDate (t : Table TokenSavingsWithdrawObject) (order : List Nat) : Prop :=
  order.Pairwise fun x y => dateOf t x ≤ dateOf t y

theorem dateOf_eq {w : TokenSavingsWithdrawObject} (h : t.lookup id = some w) : dateOf t id = w.nextDate := by
  unfold dateOf
  rw [h]
  rfl

theorem dateOf_congr (h : t.lookup id = t'.lookup id) : dateOf t id = dateOf t' id := by
  unfold dateOf
  rw [h]

theorem ByDate.congr (h : ∀ x ∈ order, dateOf t x = dateOf t' x) (hdate : ByDate t order) : ByDate t' order := by
  refine List.Pairwise.imp_of_mem ?_ hdate
  intro x y hx hy hle
  rw [← h x hx, ← h y hy]
  exact hle

theorem perm_insertByDate : List.Perm (insertByDate t id order) (id :: order) := by
  induction order with
  | nil => exact .refl _
  | cons x xs ih =>
    unfold insertByDate
    split
    · exact .refl _
    · exact (ih.cons x).trans (.swap id x xs)

theorem byDate_insertByDate (h : ByDate t order) : ByDate t (insertByDate t id order) := by
  unfold ByDate at h ⊢
  induction order with
  | nil => exact List.pairwise_singleton _ _
  | cons x xs ih =>
    obtain ⟨hhead, htail⟩ := List.pairwise_cons.mp h
    unfold insertByDate
    split
    next hlt =>
      refine List.pairwise_cons.mpr ⟨fun y hy => ?_, h⟩
      rcases List.mem_cons.mp hy with rfl | hy
      · exact le_of_lt hlt
      · exact le_trans (le_of_lt hlt) (hhead y hy)
    next hge =>
      refine List.pairwise_cons.mpr ⟨fun y hy => ?_, ih htail⟩
      rcases mem_insertByDate.mp hy with rfl | hy
      · exact not_lt.mp hge
      · exact hhead y hy

theorem entryAfter_append {before behind : List Nat} (h : id ∉ before) :
    entryAfter id (before ++ id :: behind) = behind.head? := by
  induction before with
  | nil => simp [entryAfter]
  | cons x xs ih =>
    obtain ⟨hx, hxs⟩ := not_or.mp (mt List.mem_cons.mpr h)
    rw [List.cons_append]
    unfold entryAfter
    rw [if_neg (Ne.symm hx)]
    exact ih hxs

theorem entryBefore_append {before behind : List Nat} (h : id ∉ behind) :
    entryBefore id (before ++ id :: behind) = before.getLast? := by
  unfold entryBefore
  rw [List.reverse_append, List.reverse_cons, List.append_assoc, List.singleton_append,
    entryAfter_append (by simpa using h), List.head?_reverse]

theorem filter_ne_append {before behind : List Nat} (hbefore : id ∉ before) (hbehind : id ∉ behind) :
    (before ++ id :: behind).filter (· != id) = before ++ behind := by
  have hkeep : ∀ xs : List Nat, id ∉ xs → xs.filter (· != id) = xs := by
    intro xs hxs
    refine List.filter_eq_self.mpr fun x hx => ?_
    rw [bne_iff_ne]
    rintro rfl
    exact hxs hx
  rw [List.filter_append, hkeep _ hbefore, List.filter_cons_of_neg (by simp), hkeep _ hbehind]

theorem exists_place (hnodup : order.Nodup) (hmem : id ∈ order) :
    ∃ before behind, order = before ++ id :: behind ∧ id ∉ before ∧ id ∉ behind := by
  obtain ⟨before, behind, rfl⟩ := List.append_of_mem hmem
  obtain ⟨-, hcons, hdisjoint⟩ := List.nodup_append.mp hnodup
  exact ⟨before, behind, rfl, fun h => hdisjoint id h id (.head _) rfl, (List.nodup_cons.mp hcons).1⟩

/-- **A schedule whose date changed** keeps its place or moves; the others keep their order. -/
theorem relink_append {before behind : List Nat} (hbefore : id ∉ before) (hbehind : id ∉ behind) :
    relink t id (before ++ id :: behind) =
      if (before.getLast?.any fun x => dateOf t id < dateOf t x) || (behind.head?.any fun x => dateOf t x < dateOf t id)
      then insertByDate t id (before ++ behind) else before ++ id :: behind := by
  unfold relink
  rw [entryBefore_append hbehind, entryAfter_append hbefore, filter_ne_append hbefore hbehind]

theorem perm_relink (hnodup : order.Nodup) (hmem : id ∈ order) : List.Perm (relink t id order) order := by
  obtain ⟨before, behind, rfl, hbefore, hbehind⟩ := exists_place hnodup hmem
  rw [relink_append hbefore hbehind]
  split
  · exact perm_insertByDate.trans List.perm_middle.symm
  · exact .refl _

theorem byDate_relink (hnodup : order.Nodup) (hmem : id ∈ order) (h : ByDate t (order.filter (· != id))) :
    ByDate t (relink t id order) := by
  obtain ⟨before, behind, rfl, hbefore, hbehind⟩ := exists_place hnodup hmem
  rw [filter_ne_append hbefore hbehind] at h
  rw [relink_append hbefore hbehind]
  split
  · exact byDate_insertByDate h
  · -- the neighbours fit, so everything before and behind does
    rename_i hfits
    rw [Bool.not_eq_true, Bool.or_eq_false_iff] at hfits
    obtain ⟨hearly, hlate⟩ := hfits
    obtain ⟨hfirst, hsecond, hcross⟩ := List.pairwise_append.mp h
    have hleft : ∀ x ∈ before, dateOf t x ≤ dateOf t id := by
      intro x hx
      obtain ⟨front, z, rfl⟩ := (List.eq_nil_or_concat' before).resolve_left (List.ne_nil_of_mem hx)
      have hz : dateOf t z ≤ dateOf t id := by simpa using hearly
      rcases List.mem_append.mp hx with hx | hx
      · exact le_trans ((List.pairwise_append.mp hfirst).2.2 x hx z (.head _)) hz
      · rw [List.mem_singleton.mp hx]
        exact hz
    have hright : ∀ y ∈ behind, dateOf t id ≤ dateOf t y := by
      intro y hy
      cases behind with
      | nil => cases hy
      | cons z rest =>
        have hz : dateOf t id ≤ dateOf t z := by simpa using hlate
        rcases List.mem_cons.mp hy with rfl | hy
        · exact hz
        · exact le_trans hz ((List.pairwise_cons.mp hsecond).1 y hy)
    refine List.pairwise_append.mpr ⟨hfirst, List.pairwise_cons.mpr ⟨hright, hsecond⟩, ?_⟩
    intro x hx y hy
    rcases List.mem_cons.mp hy with rfl | hy
    · exact hleft x hx
    · exact hcross x hx y hy

/-- The entry after `id` is not earlier. -/
theorem le_entryAfter {x : Nat} (h : ByDate t order) (hx : entryAfter id order = some x) :
    dateOf t id ≤ dateOf t x := by
  unfold ByDate at h
  induction order with
  | nil => cases hx
  | cons y ys ih =>
    obtain ⟨hhead, htail⟩ := List.pairwise_cons.mp h
    unfold entryAfter at hx
    split at hx
    next heq =>
      subst heq
      exact hhead x (List.mem_of_head? hx)
    next => exact ih htail hx

/-! ## The due part of the queue -/

theorem insertByDate_append {due later : List Nat} (h : ∀ y ∈ later, dateOf t id < dateOf t y) :
    insertByDate t id (due ++ later) = insertByDate t id due ++ later := by
  induction due with
  | nil =>
    cases later with
    | nil => rfl
    | cons y ys => exact if_pos (h y (.head _))
  | cons x xs ih =>
    rw [List.cons_append]
    unfold insertByDate
    split
    · rfl
    · rw [ih, List.cons_append]

theorem insertByDate_congr (hid : dateOf t id = dateOf t' id) (h : ∀ x ∈ order, dateOf t x = dateOf t' x) :
    insertByDate t id order = insertByDate t' id order := by
  induction order with
  | nil => rfl
  | cons x xs ih =>
    unfold insertByDate
    rw [hid, h x (.head _), ih fun y hy => h y (.tail _ hy)]

/-- A schedule that stays due is moved within the due part. -/
theorem relink_due {due later : List Nat} (hnodup : (due ++ later).Nodup) (hmem : id ∈ due)
    (h : ∀ y ∈ later, dateOf t id < dateOf t y) : relink t id (due ++ later) = relink t id due ++ later := by
  obtain ⟨hdue, -, hdisjoint⟩ := List.nodup_append.mp hnodup
  have hlater : id ∉ later := fun hid => hdisjoint id hmem id hid rfl
  obtain ⟨before, behind, rfl, hbefore, hbehind⟩ := exists_place hdue hmem
  have hhead : ((behind ++ later).head?.any fun x => dateOf t x < dateOf t id) =
      behind.head?.any fun x => dateOf t x < dateOf t id := by
    cases behind with
    | nil =>
      cases later with
      | nil => rfl
      | cons y ys => simpa using le_of_lt (h y (.head _))
    | cons y ys => rfl
  rw [relink_append hbefore hbehind, List.append_assoc, List.cons_append,
    relink_append hbefore (by simp [hbehind, hlater]), hhead, ← List.append_assoc, insertByDate_append h]
  split
  · rfl
  · rw [List.append_assoc, List.cons_append]

theorem relink_congr (hnodup : order.Nodup) (hmem : id ∈ order) (h : ∀ x ∈ order, dateOf t x = dateOf t' x) :
    relink t id order = relink t' id order := by
  obtain ⟨before, behind, rfl, hbefore, hbehind⟩ := exists_place hnodup hmem
  have hid := h id hmem
  have hleft : (before.getLast?.any fun x => dateOf t id < dateOf t x) =
      before.getLast?.any fun x => dateOf t' id < dateOf t' x := by
    cases hlast : before.getLast? with
    | none => rfl
    | some z => simp [hid, h z (List.mem_append_left _ (List.mem_of_getLast? hlast))]
  have hright : (behind.head?.any fun x => dateOf t x < dateOf t id) =
      behind.head?.any fun x => dateOf t' x < dateOf t' id := by
    cases hhead : behind.head? with
    | none => rfl
    | some z => simp [hid, h z (List.mem_append_right _ (.tail _ (List.mem_of_head? hhead)))]
  have hothers : ∀ x ∈ before ++ behind, dateOf t x = dateOf t' x := by
    intro x hx
    refine h x ?_
    rcases List.mem_append.mp hx with hx | hx
    · exact List.mem_append_left _ hx
    · exact List.mem_append_right _ (.tail _ hx)
  rw [relink_append hbefore hbehind, relink_append hbefore hbehind, hleft, hright, insertByDate_congr hid hothers]

/-- A sorted queue is its due part and the rest. -/
theorem ByDate.split (h : ByDate t order) (now : TimePointSec) :
    order = order.filter (fun x => dateOf t x ≤ now) ++ order.filter (fun x => ¬ dateOf t x ≤ now) := by
  unfold ByDate at h
  induction order with
  | nil => rfl
  | cons x xs ih =>
    obtain ⟨hhead, htail⟩ := List.pairwise_cons.mp h
    by_cases hx : dateOf t x ≤ now
    · rw [List.filter_cons_of_pos (by simpa using hx), List.filter_cons_of_neg (by simpa using hx), List.cons_append,
        ← ih htail]
    · have hnone : xs.filter (fun x => dateOf t x ≤ now) = [] := by
        refine List.filter_eq_nil_iff.mpr fun y hy => ?_
        simp only [decide_eq_true_eq, not_le]
        exact lt_of_lt_of_le (not_le.mp hx) (hhead y hy)
      have hxs := ih htail
      rw [hnone, List.nil_append] at hxs
      rw [List.filter_cons_of_neg (by simpa using hx), List.filter_cons_of_pos (by simpa using hx), hnone,
        List.nil_append, ← hxs]

/-! ## The queue as an invariant -/

/-- Every schedule stands in the queue once, and the queue is sorted by date. -/
structure Ordered (s : TokenIndices) : Prop where
  nodup : s.bySavingsNextDate.Nodup
  mem : ∀ id, id ∈ s.bySavingsNextDate ↔ ∃ w, s.savingsWithdraws.lookup id = some w
  byDate : ByDate s.savingsWithdraws s.bySavingsNextDate

theorem Ordered.of_eq (h : Ordered s) (htable : s'.savingsWithdraws = s.savingsWithdraws)
    (horder : s'.bySavingsNextDate = s.bySavingsNextDate) : Ordered s' := by
  refine ⟨?_, ?_, ?_⟩
  · rw [horder]
    exact h.nodup
  · rw [htable, horder]
    exact h.mem
  · rw [htable, horder]
    exact h.byDate

theorem Ordered.created {w : TokenSavingsWithdrawObject} (h : Ordered s)
    (hc : s.savingsWithdraws.clashes s.savingsWithdraws.nextId w = false)
    (htable : s'.savingsWithdraws = s.savingsWithdraws.insert w hc)
    (horder : s'.bySavingsNextDate =
      insertByDate s'.savingsWithdraws s.savingsWithdraws.nextId s.bySavingsNextDate) : Ordered s' := by
  have hlookup := lookup_insert s.savingsWithdraws (a := w) hc
  have hold : ∀ x ∈ s.bySavingsNextDate, x ≠ s.savingsWithdraws.nextId := by
    intro x hx heq
    obtain ⟨y, hy⟩ := (h.mem x).mp hx
    have hlt := s.savingsWithdraws.fresh _ (lookup_eq_some.mp hy)
    dsimp only at hlt
    omega
  rw [htable] at horder
  refine ⟨?_, fun x => ?_, ?_⟩
  · rw [horder, perm_insertByDate.nodup_iff]
    exact List.nodup_cons.mpr ⟨fun hmem => hold _ hmem rfl, h.nodup⟩
  · rw [horder, htable, mem_insertByDate, hlookup x]
    split
    next heq => exact ⟨fun _ => ⟨w, rfl⟩, fun _ => .inl heq⟩
    next hne => exact ⟨fun hx => (h.mem x).mp (hx.resolve_left hne), fun hx => .inr ((h.mem x).mpr hx)⟩
  · rw [horder, htable]
    refine byDate_insertByDate (h.byDate.congr fun x hx => dateOf_congr ?_)
    rw [hlookup x, if_neg (hold x hx)]

theorem Ordered.removed (h : Ordered s) (htable : s'.savingsWithdraws = s.savingsWithdraws.erase id)
    (horder : s'.bySavingsNextDate = s.bySavingsNextDate.filter (· != id)) : Ordered s' := by
  refine ⟨?_, fun x => ?_, ?_⟩
  · rw [horder]
    exact h.nodup.filter _
  · rw [horder, htable, List.mem_filter, lookup_erase, bne_iff_ne, h.mem x]
    by_cases heq : x = id
    · rw [if_pos heq]
      exact ⟨fun hx => absurd heq hx.2, fun ⟨_, hx⟩ => absurd hx (by simp)⟩
    · rw [if_neg heq]
      exact ⟨fun hx => hx.1, fun hx => ⟨hx, heq⟩⟩
  · rw [horder, htable]
    refine ByDate.congr (fun x hx => dateOf_congr ?_) (h.byDate.filter _)
    rw [lookup_erase, if_neg (bne_iff_ne.mp (List.mem_filter.mp hx).2)]

theorem Ordered.modified {a b : TokenSavingsWithdrawObject} (h : Ordered s)
    (ha : s.savingsWithdraws.lookup id = some a) (hc : s.savingsWithdraws.clashes id b = false)
    (htable : s'.savingsWithdraws = s.savingsWithdraws.replace id b hc)
    (horder : s'.bySavingsNextDate = relink s'.savingsWithdraws id s.bySavingsNextDate) : Ordered s' := by
  have hmem := (h.mem id).mpr ⟨a, ha⟩
  have hlookup := lookup_replace ha hc
  rw [htable] at horder
  refine ⟨?_, fun x => ?_, ?_⟩
  · rw [horder, (perm_relink h.nodup hmem).nodup_iff]
    exact h.nodup
  · rw [horder, (perm_relink h.nodup hmem).mem_iff, h.mem x, htable, hlookup x]
    split
    next heq => exact ⟨fun _ => ⟨b, rfl⟩, fun _ => ⟨a, heq ▸ ha⟩⟩
    next => exact Iff.rfl
  · rw [horder, htable]
    refine byDate_relink h.nodup hmem (ByDate.congr (fun x hx => dateOf_congr ?_) (h.byDate.filter _))
    rw [hlookup x, if_neg (bne_iff_ne.mp (List.mem_filter.mp hx).2)]

theorem ordered_createSavings {b : Table TokenBalanceObject} {w : TokenSavingsWithdrawObject} (hs : Ordered s)
    (h : createSavings w { s with balances := b } = .ok u s') : Ordered s' := by
  simp only [createSavings, bind_eq_ok, createIn_eq_ok, modify_eq_ok] at h
  obtain ⟨_, _, ⟨hc, rfl, rfl⟩, rfl⟩ := h
  exact hs.created hc rfl rfl

theorem ordered_removeSavings (id : Nat) : Always (Kept Ordered) (removeSavings id) := by
  refine always_of_clean (fun s u s' h hs => ?_) (clean_bind_modify (clean_removeIn id) _)
  simp only [removeSavings, bind_eq_ok, removeIn_eq_ok, Effect.modify_eq_ok] at h
  obtain ⟨_, _, rfl, rfl⟩ := h
  exact hs.removed rfl rfl

/-- **One token operation** keeps the order of the queue. -/
theorem ordered_tokenEvaluator {interest : TokenInterest} {op : TokenOperation} {d d' : Database}
    (hs : Ordered d.token) (h : tokenEvaluator interest op d = .ok u d') : Ordered d'.token := by
  rcases savings_tokenEvaluator h with ⟨-, htable, horder⟩ | ⟨o, -, hrun⟩ | ⟨o, toSender, -, hrun⟩
  · exact hs.of_eq htable horder
  · simp only [transferTokenSavings, bind_eq_ok, fcAssert_eq_ok, checked_eq_ok] at hrun
    obtain ⟨_, _, ⟨-, rfl⟩, δ, _, ⟨-, rfl⟩, _, s₁, hdebit, _, s₂, hcredit, hcreate⟩ := hrun
    obtain ⟨t, rfl, -⟩ := saved_adjustSide hdebit
    obtain ⟨t', rfl, -⟩ := saved_adjustSide hcredit
    exact ordered_createSavings hs hcreate
  · simp only [endTokenSavings, bind_eq_ok, findIn_eq_ok, ofOption_eq_ok, checked_eq_ok] at hrun
    obtain ⟨_, _, ⟨-, rfl⟩, w, _, ⟨-, rfl⟩, δ, _, ⟨-, rfl⟩, _, s₁, hdebit, _, s₂, hcredit, hremove⟩ := hrun
    obtain ⟨t, rfl, -⟩ := saved_adjustSide hdebit
    obtain ⟨t', rfl, -⟩ := saved_adjustSide hcredit
    exact (ordered_removeSavings _).runs _ _ _ hremove (hs.of_eq rfl rfl)

/-! ## One payout -/

/-- The schedule pays everything that is left of it. -/
def IsLast (w : TokenSavingsWithdrawObject) : Prop := w.splitPayOrder = w.splitPayMonth

instance : DecidablePred IsLast := fun _ => inferInstanceAs (Decidable (_ = _))

/-- What a schedule pays when it is due. -/
def payoutOf (w : TokenSavingsWithdrawObject) : Asset :=
  if IsLast w then w.amount else ⟨w.schedule.instalment, w.totalAmount.symbol⟩

theorem payoutOf_last {w : TokenSavingsWithdrawObject} (h : IsLast w) : payoutOf w = w.amount := if_pos h

theorem payoutOf_more {w : TokenSavingsWithdrawObject} (h : ¬ IsLast w) :
    payoutOf w = ⟨w.schedule.instalment, w.totalAmount.symbol⟩ := if_neg h

/-- A schedule that has paid an instalment. -/
def afterInstalment (now : TimePointSec) (w : TokenSavingsWithdrawObject) : TokenSavingsWithdrawObject :=
  { w with
    amount := ⟨w.amount.amount - w.schedule.instalment, w.amount.symbol⟩
    splitPayOrder := w.splitPayOrder + 1
    nextDate := addSeconds w.nextDate transferSavingsCycle
    lastUpdated := now }

theorem nextTokenInstalment_eq {w w' : TokenSavingsWithdrawObject} {symbol : AssetSymbol}
    (h : nextTokenInstalment v ⟨w.schedule.instalment, symbol⟩ w = .ok w') : w' = afterInstalment v.now w := by
  obtain ⟨rest, hsub, rfl⟩ := map_eq_ok h
  obtain ⟨-, hrest, hsym⟩ := Asset.sub_eq_ok hsub
  have hamount := safeSub_eq_ok hrest
  unfold afterInstalment
  rw [← hamount, ← hsym]

/-- **One payout**, inverted: the schedule is paid and leaves the queue, or takes its place for the next date;
the walk goes on at the front or behind that place. -/
theorem processTokenSavings_eq_ok {w : TokenSavingsWithdrawObject} {next : Option Nat}
    (hw : s.savingsWithdraws.lookup id = some w) (h : processTokenSavings v id w s = .ok next s') :
    ∃ b, payTokenSavings v w (payoutOf w) s = .ok () { s with balances := b } ∧
      ((IsLast w ∧ next = s'.bySavingsNextDate.head? ∧
          s' = { s with balances := b, savingsWithdraws := s.savingsWithdraws.erase id,
                        bySavingsNextDate := s.bySavingsNextDate.filter (· != id) }) ∨
        (¬ IsLast w ∧ next = entryAfter id s'.bySavingsNextDate ∧
          ∃ hc, s' = { s with
            balances := b
            savingsWithdraws := s.savingsWithdraws.replace id (afterInstalment v.now w) hc
            bySavingsNextDate :=
              relink (s.savingsWithdraws.replace id (afterInstalment v.now w) hc) id s.bySavingsNextDate })) := by
  have hpaid : ∀ {x : Asset} {s₁ : TokenIndices}, payTokenSavings v w x s = .ok () s₁ →
      ∃ b, s₁ = { s with balances := b } := by
    intro x s₁ hpay
    simp only [payTokenSavings, bind_eq_ok, checked_eq_ok] at hpay
    obtain ⟨δ, _, ⟨-, rfl⟩, _, s₂, hdebit, hcredit⟩ := hpay
    obtain ⟨b, rfl, -⟩ := saved_adjustSide hdebit
    obtain ⟨b', rfl, -⟩ := saved_adjustSide hcredit
    exact ⟨b', rfl⟩
  unfold processTokenSavings at h
  split at h
  next hlast =>
    simp only [removeSavings, bind_eq_ok, removeIn_eq_ok, Effect.modify_eq_ok, get_eq_ok, pure_eq_ok] at h
    obtain ⟨_, s₁, hpay, _, _, ⟨_, _, rfl, rfl⟩, _, _, ⟨rfl, rfl⟩, rfl, rfl⟩ := h
    obtain ⟨b, rfl⟩ := hpaid hpay
    refine ⟨b, ?_, .inl ⟨hlast, rfl, rfl⟩⟩
    rw [payoutOf_last hlast]
    exact hpay
  next hmore =>
    simp only [modifySavings, bind_eq_ok, checked_eq_ok, Effect.modify_eq_ok, get_eq_ok, pure_eq_ok] at h
    obtain ⟨m, _, ⟨hdiv, rfl⟩, _, s₁, hpay, _, _, ⟨_, s₂, hmod, rfl⟩, _, _, ⟨rfl, rfl⟩, rfl, rfl⟩ := h
    obtain rfl : m = w.schedule.instalment := (safeDiv_eq_ok hdiv).1
    obtain ⟨b, rfl⟩ := hpaid hpay
    obtain ⟨a, c, hc, ha, hf, rfl⟩ := modifyIn_eq_ok.mp hmod
    obtain rfl : w = a := Option.some.inj (hw.symm.trans ha)
    obtain rfl := nextTokenInstalment_eq hf
    refine ⟨b, ?_, .inr ⟨hmore, rfl, hc, rfl⟩⟩
    rw [payoutOf_more hmore]
    exact hpay

theorem queue_of_last {w : TokenSavingsWithdrawObject} {next : Option Nat}
    (hw : s.savingsWithdraws.lookup id = some w) (hlast : IsLast w)
    (h : processTokenSavings v id w s = .ok next s') :
    next = s'.bySavingsNextDate.head? ∧ s'.savingsWithdraws = s.savingsWithdraws.erase id ∧
      s'.bySavingsNextDate = s.bySavingsNextDate.filter (· != id) := by
  obtain ⟨b, -, ⟨-, hnext, rfl⟩ | ⟨hmore, -⟩⟩ := processTokenSavings_eq_ok hw h
  · exact ⟨hnext, rfl, rfl⟩
  · exact absurd hlast hmore

theorem queue_of_instalment {w : TokenSavingsWithdrawObject} {next : Option Nat}
    (hw : s.savingsWithdraws.lookup id = some w) (hmore : ¬ IsLast w)
    (h : processTokenSavings v id w s = .ok next s') :
    next = entryAfter id s'.bySavingsNextDate ∧
      (∃ hc, s'.savingsWithdraws = s.savingsWithdraws.replace id (afterInstalment v.now w) hc) ∧
      s'.bySavingsNextDate = relink s'.savingsWithdraws id s.bySavingsNextDate := by
  obtain ⟨b, -, ⟨hlast, -⟩ | ⟨-, hnext, hc, rfl⟩⟩ := processTokenSavings_eq_ok hw h
  · exact absurd hlast hmore
  · exact ⟨hnext, ⟨hc, rfl⟩, rfl⟩

theorem ordered_adjustSide (v : CoreView) (side : Side) (account : AccountName) (token : TokenName) (delta : Asset) :
    Always (Kept Ordered) (adjustSide v side account token delta) := by
  refine always_of_clean (fun s u s' h hs => ?_) (clean_adjustSide v side account token delta)
  obtain ⟨t, rfl, -⟩ := saved_adjustSide h
  exact hs.of_eq rfl rfl

theorem ordered_payTokenSavings (v : CoreView) (w : TokenSavingsWithdrawObject) (amount : Asset) :
    Always (Kept Ordered) (payTokenSavings v w amount) := by
  refine always_bind (readOnly_checked _).always fun δ => ?_
  exact always_bind (ordered_adjustSide _ _ _ _ _) fun _ => ordered_adjustSide _ _ _ _ _

theorem ordered_modifySavings {f : TokenSavingsWithdrawObject → Except Error TokenSavingsWithdrawObject}
    (hkey : ∀ a b, f a = .ok b → ∀ x, Clash.clash x b = Clash.clash x a) :
    Always (Kept Ordered) (modifySavings id f) := by
  refine always_of_clean (fun s u s' h hs => ?_) (clean_bind_modify (clean_modifyIn hkey) _)
  simp only [modifySavings, bind_eq_ok, Effect.modify_eq_ok] at h
  obtain ⟨_, t, hmod, rfl⟩ := h
  obtain ⟨a, b, hc, ha, -, rfl⟩ := modifyIn_eq_ok.mp hmod
  exact hs.modified ha hc rfl rfl

/-- **One payout**, also one that throws, leaves the queue in order. -/
theorem ordered_processTokenSavings (v : CoreView) (id : Nat) (w : TokenSavingsWithdrawObject) :
    Always (Kept Ordered) (processTokenSavings v id w) := by
  unfold processTokenSavings
  split
  · refine always_bind (ordered_payTokenSavings v w _) fun _ => always_bind (ordered_removeSavings id) fun _ => ?_
    exact always_bind readOnly_get.always fun _ => always_pure _
  · refine always_bind (readOnly_checked _).always fun m => always_bind (ordered_payTokenSavings v w _) fun _ => ?_
    refine always_bind (ordered_modifySavings fun a b h x => ?_) fun _ => always_bind readOnly_get.always fun _ => ?_
    · obtain ⟨rest, -, rfl⟩ := map_eq_ok h
      rfl
    · exact always_pure _

/-- **One round of the walk**: it ends at the end of the queue or at a date to come, or it makes a payout. -/
theorem processTokenSavingsFrom_eq_ok {fuel : Nat} {cursor : Option Nat}
    (h : processTokenSavingsFrom v fuel cursor s = .ok u s') :
    (s' = s ∧ ∀ id, cursor = some id → v.now < dateOf s.savingsWithdraws id) ∨
      ∃ rest id w next s₁, fuel = rest + 1 ∧ cursor = some id ∧ s.savingsWithdraws.lookup id = some w ∧
        w.nextDate ≤ v.now ∧ processTokenSavings v id w s = .ok next s₁ ∧
        processTokenSavingsFrom v rest next s₁ = .ok u s' := by
  cases cursor with
  | none =>
    unfold processTokenSavingsFrom at h
    obtain ⟨-, rfl⟩ := pure_eq_ok.mp h
    exact .inl ⟨rfl, fun _ hid => by cases hid⟩
  | some id =>
    cases fuel with
    | zero => exact (throw_eq_ok.mp h).elim
    | succ fuel =>
      unfold processTokenSavingsFrom at h
      simp only [bind_eq_ok, get_eq_ok, ofOption_eq_ok] at h
      obtain ⟨_, _, ⟨rfl, rfl⟩, w, _, ⟨hw, rfl⟩, h⟩ := h
      split at h
      next hlater =>
        obtain ⟨-, rfl⟩ := pure_eq_ok.mp h
        refine .inl ⟨rfl, fun x hx => ?_⟩
        cases hx
        rw [dateOf_eq hw]
        exact hlater
      next hdue =>
        obtain ⟨next, s₁, hstep, hrest⟩ := bind_eq_ok.mp h
        exact .inr ⟨fuel, id, w, next, s₁, rfl, rfl, hw, not_lt.mp hdue, hstep, hrest⟩

theorem walk_stops {fuel : Nat} {cursor : Option Nat}
    (hlater : ∀ x, cursor = some x → v.now < dateOf s.savingsWithdraws x)
    (h : processTokenSavingsFrom v fuel cursor s = .ok u s') : s' = s := by
  rcases processTokenSavingsFrom_eq_ok h with ⟨hs, -⟩ | ⟨_, id, w, _, _, -, hcursor, hw, hdue, -⟩
  · exact hs
  · have hdate := hlater id hcursor
    rw [dateOf_eq hw] at hdate
    exact absurd hdue (not_le.mpr hdate)

theorem walk_pays {fuel : Nat} {w : TokenSavingsWithdrawObject} (hw : s.savingsWithdraws.lookup id = some w)
    (hdue : w.nextDate ≤ v.now) (h : processTokenSavingsFrom v fuel (some id) s = .ok u s') :
    ∃ rest next s₁, fuel = rest + 1 ∧ processTokenSavings v id w s = .ok next s₁ ∧
      processTokenSavingsFrom v rest next s₁ = .ok u s' := by
  rcases processTokenSavingsFrom_eq_ok h with ⟨-, hstop⟩ | ⟨rest, x, y, next, s₁, hfuel, hx, hy, -, hstep, hrest⟩
  · have hdate := hstop id rfl
    rw [dateOf_eq hw] at hdate
    exact absurd hdue (not_le.mpr hdate)
  · cases hx
    obtain rfl : w = y := Option.some.inj (hw.symm.trans hy)
    exact ⟨rest, next, s₁, hfuel, hstep, hrest⟩

theorem ordered_processTokenSavingsFrom (v : CoreView) (fuel : Nat) (cursor : Option Nat) :
    Always (Kept Ordered) (processTokenSavingsFrom v fuel cursor) := by
  induction fuel generalizing cursor with
  | zero =>
    cases cursor with
    | none => exact always_pure _
    | some id => exact always_throw _
  | succ fuel ih =>
    cases cursor with
    | none => exact always_pure _
    | some id =>
      unfold processTokenSavingsFrom
      refine always_bind readOnly_get.always fun s => always_bind (readOnly_ofOption _ _).always fun w => ?_
      split
      · exact always_pure _
      · exact always_bind (ordered_processTokenSavings v id w) fun next => ih next

theorem ordered_processTokenSavingsWithdraws (v : CoreView) :
    Always (Kept Ordered) (processTokenSavingsWithdraws v) :=
  always_bind readOnly_get.always fun _ => ordered_processTokenSavingsFrom v _ _

end Sigmaengine.Token

namespace Sigmaengine

open Effect Table Token

/-- The order of the queue does not depend on what the operations promise. -/
theorem tokenInvariant_ordered (interest : TokenInterest) :
    TokenInvariant interest (fun _ _ => True) (fun _ s => Ordered s) where
  later _ hs := hs
  operation _ _ hs h := ordered_tokenEvaluator hs h
  stakes v := by
    intro s hs
    have hstay := savingsStay_processTokenFundWithdraw v s
    exact hs.of_eq hstay.2.1 hstay.2.2
  savings v := ordered_processTokenSavingsWithdraws v

theorem ordered_genesis (key : PublicKey) : OnChain (fun _ s => Ordered s) (genesis key) := by
  refine ⟨.nil, ?_, .nil⟩
  intro id
  constructor
  · intro h
    cases h
  · rintro ⟨w, hw⟩
    cases hw

/-- The savings are backed and the queue is in order. -/
def TokenSettled (v : CoreView) (s : TokenIndices) : Prop := TokenBacked v s ∧ Ordered s

theorem tokenInvariant_settled (interest : TokenInterest) :
    TokenInvariant interest (PayingStake interest) TokenSettled where
  later hle hs := ⟨(tokenInvariant_backed interest).later hle hs.1, hs.2⟩
  operation hvalid hstake hs h := ⟨backed_tokenEvaluator hvalid hstake hs.1 h, ordered_tokenEvaluator hs.2 h⟩
  stakes v := by
    intro s hs
    have hstay := savingsStay_processTokenFundWithdraw v s
    exact ⟨(tokenInvariant_backed interest).stakes v s hs.1, hs.2.of_eq hstay.2.1 hstay.2.2⟩
  savings v := by
    intro s hs
    obtain ⟨s', hrun, hs'⟩ := processTokenSavingsWithdraws_returns hs.1
    have hordered := (ordered_processTokenSavingsWithdraws v).runs _ _ _ hrun hs.2
    rw [hrun]
    exact ⟨hs', hordered⟩

theorem tokenSettled_genesis (key : PublicKey) : OnChain TokenSettled (genesis key) :=
  ⟨tokenBacked_genesis key, ordered_genesis key⟩

end Sigmaengine
