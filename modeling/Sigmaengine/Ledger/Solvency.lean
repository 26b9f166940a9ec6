import Sigmaengine.Ledger.Conservation

/-!
# Solvency and backing

Neither is enforced by the code alone.  A burn does not look at the balance it debits, a schedule may
promise more instalments than its amount covers, and clearing the null account takes savings that
schedules still promise.  Under the conditions that rule these out, both hold in every reachable state.
-/

namespace Sigmaengine

open Effect Table Finsupp Ledger

variable {env : Env} {d : Database}

/-! ## No negative money -/

/-- Every balance of the chain is nonnegative. -/
def Solvent (c : Core) : Prop :=
  (∀ r ∈ c.accounts.rows, 0 ≤ r.2.balance ∧ 0 ≤ r.2.savingsBalance) ∧
    (∀ r ∈ c.commonFunds.rows, 0 ≤ r.2.fundBalance) ∧ 0 ≤ c.dgp.currentSupply

/-- Every operation of the block is covered in the state it finds. -/
def CoveredBlock (env : Env) (node : Node) (b : SignedBlock) (d : Database) : Prop :=
  EachOperation env node (fun d op => Covered env.fundArithmetic d.core op) b d

instance (env : Env) (node : Node) (b : SignedBlock) (d : Database) :
    Decidable (CoveredBlock env node b d) := inferInstanceAs (Decidable (EachOperation env node _ b d))

theorem blockCare_covered {node : Node} {b : SignedBlock} (h : CoveredBlock env node b d) :
    BlockCare env ⟨True, False, False⟩ node b d :=
  ⟨fun p hp => ⟨fun _ => h p hp, False.elim⟩, False.elim⟩

theorem genesis_nonneg (key : PublicKey) : Nonneg (genesis key).ledger := by
  rw [genesis_ledger]
  constructor <;> simp

theorem nonneg_degree {κ : Type} {f : κ →₀ ℤ} (h : 0 ≤ f) : 0 ≤ f.degree := by
  rw [degree_apply]
  exact Finset.sum_nonneg fun a _ => h a

/-- A ledger without debts and with its supply conserved is solvent as the source counts. -/
theorem solvent_of_nonneg {c : Core} {votes : Set ℤ} (hpos : Nonneg (c.ledger votes))
    (hcons : Conserved (c.ledger votes)) : Solvent c := by
  refine ⟨fun r hr => ?_, fun r hr => ?_, ?_⟩
  · have hfound := found_of_mem hr
    rw [← hfound.balance, ← hfound.savings]
    exact ⟨hpos.balance _, hpos.savings _⟩
  · rw [← sum_single_apply hr clash_of_fund_eq CommonFundObject.fundBalance]
    exact hpos.pool _
  · change 0 ≤ (c.ledger votes).supply
    rw [hcons]
    have := nonneg_degree hpos.balance
    have := nonneg_degree hpos.savings
    have := nonneg_degree hpos.pool
    have := hpos.reward
    omega

/-- **No negative money**, when every burn is within the balance it debits, the instalments of every
schedule add up to at most its amount, and no interest makes a stake negative. -/
theorem solvent_of_covered (env : Env) (d : Database) (h : Reachable env (CoveredBlock env) d) :
    Solvent d.core :=
  solvent_of_nonneg
    (reachable_invariant (fun _ _ _ => blockCare_covered) genesis_nonneg
      (fun _ _ => Nonneg.step trivial) h)
    (reachable_conserved h)

theorem solvent_of_covered_moneyBlock : CoveredBlock sampleEnv {} moneyBlock (genesis ⟨1⟩) ∧
    Solvent (sampleAfter moneyBlock (genesis ⟨1⟩)).core := by
  have hcovered : CoveredBlock sampleEnv {} moneyBlock (genesis ⟨1⟩) := by decide +kernel
  refine ⟨hcovered, solvent_of_covered sampleEnv _ ?_⟩
  exact reachable_sampleAfter (.genesis _) hcovered (by decide +kernel)

/-- Burn what the account does not have. -/
def burnBlock : SignedBlock :=
  sampleBlock {} 1 [createRoot, .burn ⟨rootAccount, rootAccount, sgt 5⟩]

/-- The burn is accepted and leaves a negative balance and a negative supply. -/
theorem burn_leaves_debt : Reachable sampleEnv anyBlock (sampleAfter burnBlock (genesis ⟨1⟩)) ∧
    ¬ Solvent (sampleAfter burnBlock (genesis ⟨1⟩)).core := by
  refine ⟨reachable_sampleAfter (.genesis _) trivial (by decide +kernel), ?_⟩
  intro hsolvent
  have hsupply : (sampleAfter burnBlock (genesis ⟨1⟩)).core.dgp.currentSupply < 0 := by decide +kernel
  exact absurd hsolvent.2.2 (not_le.mpr hsupply)

/-! ## Backing of the savings -/

/-- The savings of every account are what the schedules to it still promise. -/
def SavingsBacked (c : Core) : Prop :=
  ∀ r ∈ c.accounts.rows,
    r.2.savingsBalance = c.savingsWithdraws.sum fun w => if w.to_ = r.2.name then w.amount else 0

/-- The null account has no savings when the block clears it. -/
def SettledBlock (env : Env) (node : Node) (b : SignedBlock) (d : Database) : Prop :=
  Settled (sweptState env node b d)

theorem owed_apply (t : Table SavingsWithdrawObject) (n : AccountName) :
    owed (t.values.map SavingsWithdrawObject.schedule) n =
      t.sum fun w => if w.to_ = n then w.amount else 0 := by
  have hsum : owed (t.values.map SavingsWithdrawObject.schedule) = t.sum fun w => single w.to_ w.amount := by
    unfold owed Table.sum
    rw [Multiset.map_map]
    rfl
  rw [hsum, sum_single_eq_sum_ite]

theorem savingsBacked_of_backed {c : Core} {votes : Set ℤ} (h : Backed (c.ledger votes)) :
    SavingsBacked c := by
  intro r hr
  rw [← (found_of_mem hr).savings, ← owed_apply]
  exact congrArg (fun f => f r.2.name) h

/-- **Savings backing**, when the null account never has savings to be cleared. -/
theorem savings_backed_of_settled (env : Env) (d : Database)
    (h : Reachable env (SettledBlock env) d) : SavingsBacked d.core := by
  have hcare : ∀ node b d, SettledBlock env node b d → BlockCare env ⟨False, True, False⟩ node b d :=
    fun _ _ _ hset => ⟨fun _ _ => ⟨False.elim, False.elim⟩, fun _ => hset⟩
  have hgenesis : ∀ key, Backed (genesis key).ledger := by
    intro key
    rw [genesis_ledger]
    rfl
  have hbacked : Backed d.ledger := reachable_invariant hcare hgenesis (fun _ _ => Backed.step trivial) h
  exact savingsBacked_of_backed hbacked

instance (env : Env) (node : Node) (b : SignedBlock) (d : Database) :
    Decidable (SettledBlock env node b d) := inferInstanceAs (Decidable (Settled _))

theorem savings_backed_of_settled_moneyBlock : SettledBlock sampleEnv {} moneyBlock (genesis ⟨1⟩) ∧
    SavingsBacked (sampleAfter moneyBlock (genesis ⟨1⟩)).core := by
  have hsettled : SettledBlock sampleEnv {} moneyBlock (genesis ⟨1⟩) := by decide +kernel
  refine ⟨hsettled, savings_backed_of_settled sampleEnv _ ?_⟩
  exact reachable_sampleAfter (.genesis _) hsettled (by decide +kernel)

/-- Print to an account and let it save for the null account. -/
def saveForNullBlock : SignedBlock :=
  sampleBlock {} 1 [createRoot, .print ⟨rootAccount, rootAccount, sgt 10⟩,
    .transferSavings
      { from_ := rootAccount, requestId := 1, to_ := nullAccount, amount := sgt 10, splitPayOrder := 1,
        splitPayMonth := 1, memo := [], complete := genesisTime + 100 }]

/-- The block clears the savings of the null account while the schedule to it stays. -/
theorem cleared_savings_still_owed :
    Reachable sampleEnv anyBlock (sampleAfter saveForNullBlock (genesis ⟨1⟩)) ∧
      ¬ SavingsBacked (sampleAfter saveForNullBlock (genesis ⟨1⟩)).core := by
  refine ⟨reachable_sampleAfter (.genesis _) trivial (by decide +kernel), ?_⟩
  intro hbacked
  have hbroken : (sampleAfter saveForNullBlock (genesis ⟨1⟩)).core.accounts.rows.any (fun r =>
      r.2.savingsBalance != ((sampleAfter saveForNullBlock (genesis ⟨1⟩)).core.savingsWithdraws.rows.map
        fun w => if w.2.to_ = r.2.name then w.2.amount else 0).sum) = true := by decide +kernel
  obtain ⟨r, hr, hne⟩ := List.any_eq_true.mp hbroken
  have := hbacked r hr
  rw [sum_eq_rows_sum] at this
  exact absurd this (by simpa using hne)

end Sigmaengine
