import Sigmaengine.Ledger.TokenIsolation

/-!
# Due instalments

The walk over the due schedules goes on behind the one it has just paid.  An instalment moves its schedule to a
later place in the queue, and the walk along with it: what is due in between is passed over.  So nothing is left
due if the schedules that are due are all on their last instalment, apart from the last of them
(`ClearQueue`), and as long as no schedule is a whole month behind this is the only way.
-/

namespace Sigmaengine.Token

open Sigmaengine Effect Table

variable {s s' t : TokenIndices} {u : Unit} {v : CoreView} {id : Nat} {w : TokenSavingsWithdrawObject}
  {now : TimePointSec} {rest : List Nat}

/-- Every due schedule of the queue is on its last instalment, or it is the last one that is due and will not be
due again after this instalment. -/
def ClearQueue (now : TimePointSec) (t : Table TokenSavingsWithdrawObject) : List Nat → Prop
  | [] => True
  | id :: rest =>
    (∀ w, t.lookup id = some w → w.nextDate ≤ now →
      IsLast w ∨ (∀ x ∈ rest, now < dateOf t x) ∧ now < addSeconds w.nextDate transferSavingsCycle) ∧
    ClearQueue now t rest

/-- No schedule is due. -/
def NoneDue (now : TimePointSec) (s : TokenIndices) : Prop :=
  ∀ id w, s.savingsWithdraws.lookup id = some w → now < w.nextDate

/-- A schedule that pays an instalment is not due again. -/
def NotBehind (now : TimePointSec) (s : TokenIndices) : Prop :=
  ∀ id w, s.savingsWithdraws.lookup id = some w → w.nextDate ≤ now → ¬ IsLast w →
    now < addSeconds w.nextDate transferSavingsCycle

theorem clearQueue_congr {t t' : Table TokenSavingsWithdrawObject} {order : List Nat}
    (h : ∀ x ∈ order, t'.lookup x = t.lookup x) : ClearQueue now t' order ↔ ClearQueue now t order := by
  induction order with
  | nil => exact Iff.rfl
  | cons id rest ih =>
    have hrest : ∀ x ∈ rest, t'.lookup x = t.lookup x := fun x hx => h x (.tail _ hx)
    have hdates : (∀ x ∈ rest, now < dateOf t' x) ↔ ∀ x ∈ rest, now < dateOf t x := by
      constructor <;> intro hall x hx
      · rw [← dateOf_congr (hrest x hx)]
        exact hall x hx
      · rw [dateOf_congr (hrest x hx)]
        exact hall x hx
    unfold ClearQueue
    rw [h id (.head _), hdates, ih hrest]

theorem clearQueue_of_later {t : Table TokenSavingsWithdrawObject} {order : List Nat}
    (h : ∀ x ∈ order, now < dateOf t x) : ClearQueue now t order := by
  induction order with
  | nil => trivial
  | cons id rest ih =>
    refine ⟨fun w hw hdue => ?_, ih fun x hx => h x (.tail _ hx)⟩
    have hlater := h id (.head _)
    rw [dateOf_eq hw] at hlater
    exact absurd hdue (not_le.mpr hlater)

/-- Where all payments are last ones, the queue is clear. -/
theorem clearQueue_of_last {t : Table TokenSavingsWithdrawObject} (h : ∀ r ∈ t.rows, IsLast r.2) (order : List Nat) :
    ClearQueue now t order := by
  induction order with
  | nil => trivial
  | cons id rest ih => exact ⟨fun w hw _ => .inl (h (id, w) (lookup_eq_some.mp hw)), ih⟩

theorem noneDue_iff (ho : Ordered s) : NoneDue now s ↔ ∀ x ∈ s.bySavingsNextDate, now < dateOf s.savingsWithdraws x := by
  constructor
  · intro h x hx
    obtain ⟨w, hw⟩ := (ho.mem x).mp hx
    rw [dateOf_eq hw]
    exact h x w hw
  · intro h x w hw
    rw [← dateOf_eq hw]
    exact h x ((ho.mem x).mpr ⟨w, hw⟩)

/-- With a later date at the front nothing is due. -/
theorem noneDue_of_front (ho : Ordered s)
    (hfront : ∀ x, s.bySavingsNextDate.head? = some x → now < dateOf s.savingsWithdraws x) : NoneDue now s := by
  intro id w hw
  have hidle : Idle now w.token s := idle_of_front ho hfront
  exact hidle id w (scheduleOf_eq_some.mpr ⟨lookup_eq_some.mp hw, rfl⟩)

/-- The schedules behind the first are where they were after it is paid. -/
theorem lookup_rest {next : Option Nat} (ho : Ordered s) (hhead : s.bySavingsNextDate = id :: rest)
    (hw : s.savingsWithdraws.lookup id = some w) (hstep : processTokenSavings v id w s = .ok next s') :
    ∀ x ∈ rest, s'.savingsWithdraws.lookup x = s.savingsWithdraws.lookup x := by
  have hfresh : id ∉ rest := (List.nodup_cons.mp (hhead ▸ ho.nodup)).1
  intro x hx
  rw [(savingsPaid_of_ok hw hstep).schedules x, if_neg]
  rintro rfl
  exact hfresh hx

/-- **An instalment that moves the first schedule beyond the head block** leaves nothing due exactly if nothing
else was due. -/
theorem noneDue_after_instalment {next : Option Nat} (ho : Ordered s) (hhead : s.bySavingsNextDate = id :: rest)
    (hw : s.savingsWithdraws.lookup id = some w) (hmore : ¬ IsLast w)
    (hlater : v.now < addSeconds w.nextDate transferSavingsCycle)
    (hstep : processTokenSavings v id w s = .ok next s') :
    NoneDue v.now s' ↔ ∀ x ∈ rest, v.now < dateOf s.savingsWithdraws x := by
  have hrest := lookup_rest ho hhead hw hstep
  have hid := (savingsPaid_of_ok hw hstep).schedules id
  rw [if_pos rfl, remaining, if_neg hmore] at hid
  obtain ⟨-, -, horder⟩ := queue_of_instalment hw hmore hstep
  have hmem : ∀ x, x ∈ s'.bySavingsNextDate ↔ x = id ∨ x ∈ rest := by
    intro x
    rw [horder, (perm_relink ho.nodup (hhead ▸ .head _)).mem_iff, hhead, List.mem_cons]
  rw [noneDue_iff ((ordered_processTokenSavings v id w).runs _ _ _ hstep ho)]
  constructor
  · intro h x hx
    rw [← dateOf_congr (hrest x hx)]
    exact h x ((hmem x).mpr (.inr hx))
  · intro h x hx
    rcases (hmem x).mp hx with rfl | hx
    · rw [dateOf_eq hid]
      exact hlater
    · rw [dateOf_congr (hrest x hx)]
      exact h x hx

/-- **The walk from the front of the queue**, by induction on its rounds: last payments take the first schedule
off, and the first instalment ends it. -/
theorem noneDue_walk {fuel : Nat} (ho : Ordered s)
    (h : processTokenSavingsFrom v fuel s.bySavingsNextDate.head? s = .ok u t) :
    (ClearQueue v.now s.savingsWithdraws s.bySavingsNextDate → NoneDue v.now t) ∧
      (NotBehind v.now s → NoneDue v.now t → ClearQueue v.now s.savingsWithdraws s.bySavingsNextDate) := by
  induction fuel using Nat.strong_induction_on generalizing s with
  | _ fuel ih =>
    rcases processTokenSavingsFrom_eq_ok h with ⟨rfl, hstop⟩ | ⟨fuel', id, w, next, s₁, rfl, hhead, hw, hdue, hstep, hrest⟩
    · have hnone := noneDue_of_front ho hstop
      exact ⟨fun _ => hnone, fun _ _ => clearQueue_of_later ((noneDue_iff ho).mp hnone)⟩
    · obtain ⟨rest, hqueue⟩ := exists_rest_of_head hhead
      have hsame := lookup_rest ho hqueue hw hstep
      rw [hqueue]
      by_cases hlast : IsLast w
      · obtain ⟨hnext, htable, horder⟩ := queue_of_last hw hlast hstep
        have hfresh : id ∉ rest := (List.nodup_cons.mp (hqueue ▸ ho.nodup)).1
        have hrest₁ : s₁.bySavingsNextDate = rest := by
          rw [horder, hqueue]
          exact filter_ne_append List.not_mem_nil hfresh
        rw [hnext] at hrest
        obtain ⟨henough, hneeded⟩ := ih fuel' (by omega) ((ordered_processTokenSavings v id w).runs _ _ _ hstep ho) hrest
        rw [hrest₁, clearQueue_congr hsame] at henough hneeded
        refine ⟨fun hclear => henough hclear.2, fun hmonth hnone => ⟨fun a ha _ => ?_, hneeded ?_ hnone⟩⟩
        · obtain rfl : w = a := Option.some.inj (hw.symm.trans ha)
          exact .inl hlast
        · intro x y hy
          rw [htable, lookup_erase] at hy
          split at hy
          · cases hy
          · exact hmonth x y hy
      · by_cases hlater : v.now < addSeconds w.nextDate transferSavingsCycle
        · obtain rfl := walk_ends ho hw hlast hlater hstep hrest
          rw [noneDue_after_instalment ho hqueue hw hlast hlater hstep]
          refine ⟨fun hclear => ((hclear.1 w hw hdue).resolve_left hlast).1, fun _ hall => ⟨fun a ha _ => ?_, ?_⟩⟩
          · obtain rfl : w = a := Option.some.inj (hw.symm.trans ha)
            exact .inr ⟨hall, hlater⟩
          · exact clearQueue_of_later hall
        · refine ⟨fun hclear => ?_, fun hmonth _ => absurd (hmonth id w hw hdue hlast) hlater⟩
          exact absurd ((hclear.1 w hw hdue).resolve_left hlast).2 hlater

end Sigmaengine.Token

namespace Sigmaengine

open Effect Table Token

/-- **Due instalments**: in every run, the routine that pays them leaves nothing due if the due schedules are on
their last instalment, apart from the last of them; as long as no schedule is a month behind, only then. -/
theorem due_instalments_paid (env : Env) (node : Node) (b : SignedBlock) (d t t' : Database)
    (hd : Reachable env anyBlock d) (hvalidate : node.skip.validate = false)
    (hstarts : SavingsRoutineStarts env node b d t)
    (hreturns : withView processTokenSavingsWithdraws t = .ok () t') :
    (ClearQueue t.core.dgp.time t.token.savingsWithdraws t.token.bySavingsNextDate →
      NoneDue t.core.dgp.time t'.token) ∧
    (NotBehind t.core.dgp.time t.token → NoneDue t.core.dgp.time t'.token →
      ClearQueue t.core.dgp.time t.token.savingsWithdraws t.token.bySavingsNextDate) := by
  have hI := tokenInvariant_ordered env.tokenInterest
  have hok : ∀ (node : Node) (b : SignedBlock) (d : Database),
      EachOperation env node (EachTokenOperation env fun _ _ => True) b d := fun _ _ _ _ _ _ _ => trivial
  obtain ⟨earlier, later, d₁, d₂, d₃, -, hhead, hcore, hearlier, hstakes⟩ := hstarts
  have hordered := hI.reachable ordered_genesis (fun node b d _ => hok node b d) hd
  have hd₃ := hI.handlerStarts hvalidate (hok node b d) hhead hcore hearlier hordered
  have ht := (TokenInvariant.withView hI.stakes).runs _ _ _ hstakes hd₃
  unfold withView at hreturns
  rw [bind_of_ok (get_apply t)] at hreturns
  obtain ⟨s', hrun, rfl⟩ := within_eq_ok.mp hreturns
  unfold processTokenSavingsWithdraws at hrun
  rw [bind_of_ok (get_apply _)] at hrun
  exact noneDue_walk ht hrun

/-! ## Two schedules of the same day -/

/-- Where the savings routine starts. -/
def routineState (saves : List Operation) : Database := after (withView processTokenFundWithdraw (dueState saves))

theorem savingsRoutineStarts_routineState {saves : List Operation} (h : reachesDue saves = true)
    (hstakes : succeeds (withView processTokenFundWithdraw (dueState saves)) = true) :
    SavingsRoutineStarts isolationEnv {} (dueBlock saves) (gemState saves) (routineState saves) := by
  simp only [reachesDue, Bool.and_eq_true] at h
  refine ⟨[.dapp], [], headState saves, coreState saves, dueState saves, rfl, eq_ok_of_succeeds h.1.1.2,
    eq_ok_of_succeeds h.1.2, ?_, eq_ok_of_succeeds hstakes⟩
  exact bind_of_ok (eq_ok_of_succeeds h.2)

/-- Last payments of the same day are all made. -/
theorem due_instalments_paid_lastPayments :
    NoneDue (routineState [saveCoin 1]).core.dgp.time
      (after (withView processTokenSavingsWithdraws (routineState [saveCoin 1]))).token := by
  have hrun : reachesDue [saveCoin 1] = true ∧
      succeeds (withView processTokenFundWithdraw (dueState [saveCoin 1])) = true ∧
      succeeds (withView processTokenSavingsWithdraws (routineState [saveCoin 1])) = true ∧
      ∀ r ∈ (routineState [saveCoin 1]).token.savingsWithdraws.rows, IsLast r.2 := by
    decide +kernel
  obtain ⟨hreach, hstakes, hreturns, hlast⟩ := hrun
  have hpaid := due_instalments_paid isolationEnv {} (dueBlock [saveCoin 1]) (gemState [saveCoin 1])
    (routineState [saveCoin 1]) (after (withView processTokenSavingsWithdraws (routineState [saveCoin 1])))
    (reachable_gemState hreach trivial trivial) rfl (savingsRoutineStarts_routineState hreach hstakes) (eq_ok_of_succeeds hreturns)
  have hclear : ∀ {t : Table TokenSavingsWithdrawObject} {order : List Nat} {now : TimePointSec} {P : Prop},
      (∀ r ∈ t.rows, IsLast r.2) → (ClearQueue now t order → P) → P :=
    fun hlast hP => hP (clearQueue_of_last hlast _)
  exact hclear hlast hpaid.1

/-- An instalment leaves the schedule behind it due. -/
theorem instalment_leaves_another_due :
    Reachable isolationEnv anyBlock (gemState [saveCoin 2]) ∧
      SavingsRoutineStarts isolationEnv {} (dueBlock [saveCoin 2]) (gemState [saveCoin 2]) (routineState [saveCoin 2]) ∧
      ∃ t', withView processTokenSavingsWithdraws (routineState [saveCoin 2]) = .ok () t' ∧
        ¬ NoneDue (routineState [saveCoin 2]).core.dgp.time t'.token := by
  have hrun : reachesDue [saveCoin 2] = true ∧
      succeeds (withView processTokenFundWithdraw (dueState [saveCoin 2])) = true ∧
      succeeds (withView processTokenSavingsWithdraws (routineState [saveCoin 2])) = true ∧
      ∃ r ∈ (after (withView processTokenSavingsWithdraws (routineState [saveCoin 2]))).token.savingsWithdraws.rows,
        r.2.nextDate ≤ (routineState [saveCoin 2]).core.dgp.time := by
    decide +kernel
  obtain ⟨hreach, hstakes, hreturns, r, hr, hdue⟩ := hrun
  refine ⟨reachable_gemState hreach trivial trivial, savingsRoutineStarts_routineState hreach hstakes, _, eq_ok_of_succeeds hreturns, ?_⟩
  intro hnone
  exact absurd (hnone r.1 r.2 (lookup_eq_some.mpr hr)) (not_lt.mpr hdue)

end Sigmaengine
