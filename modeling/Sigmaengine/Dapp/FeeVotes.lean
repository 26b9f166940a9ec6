import Sigmaengine.Chain.Reached
import Sigmaengine.Ledger.Conservation

/-!
# The vote on the dapp transaction fee

Block producers vote on the fee, and once an hour the median of the fresh votes becomes the fee.  A vote is fresh for
seven days, in the 32-bit seconds of the chain: a vote from the last seven days that these seconds can count looks
stale at once.
-/

namespace Sigmaengine.Dapp

open Effect Table

/-! ## Young votes -/

/-- The votes that are less than seven days old. -/
def youngVotes (votes : Table DappTrxFeeVoteObject) (now : TimePointSec) : List Asset :=
  (votes.rows.filter fun v => now < v.2.lastUpdate + maxFeedAgeSeconds).map fun v => ⟨v.2.trxFee, v.2.trxFeeSymbol⟩

/-- The value that `aggregate_trx_fee_vote` assigns, where it gets that far. -/
def Assigns (d : Database) (now : TimePointSec) (fee : Asset) : Prop :=
  Comparable (freshFees d.feeVotes now) ∧ medianFee d.feeVotes now = some fee

/-- How many of the votes are in an interval. -/
def votesWithin (votes : List Asset) (lo hi : Int) : Nat := votes.countP fun a => lo ≤ a.amount ∧ a.amount ≤ hi

/-- The fee stays, or is assigned; then there are enough young votes, it is one of them, and it is in every interval
that holds more than half of them. -/
structure RobustFee (d : Database) (now : TimePointSec) : Prop where
  assigned : after (aggregateTrxFeeVote now d) = d ∨
    ∃ fee, Assigns d now fee ∧ after (aggregateTrxFeeVote now d) = setTransactionFee fee d
  enough : ∀ fee, Assigns d now fee → minFeeds ≤ (youngVotes d.feeVotes now).length
  voted : ∀ fee, Assigns d now fee → fee ∈ youngVotes d.feeVotes now
  majority : ∀ fee, Assigns d now fee → ∀ lo hi,
    (youngVotes d.feeVotes now).length < 2 * votesWithin (youngVotes d.feeVotes now) lo hi →
      lo ≤ fee.amount ∧ fee.amount ≤ hi

/-- None of the young votes is from the last seven days that 32 bits of seconds can count. -/
def NoneLast (votes : Table DappTrxFeeVoteObject) (now : TimePointSec) : Prop :=
  ∀ v ∈ votes.rows, now < v.2.lastUpdate + maxFeedAgeSeconds → v.2.lastUpdate + maxFeedAgeSeconds < 4294967296

/-- No side of an interval that holds more than half of the young votes has enough of the votes that are counted to
hold their median: more than half below it, or half above it. -/
def Undisputed (votes : Table DappTrxFeeVoteObject) (now : TimePointSec) : Prop :=
  minFeeds ≤ (freshFees votes now).length → Comparable (freshFees votes now) → ∀ lo hi,
    (youngVotes votes now).length < 2 * votesWithin (youngVotes votes now) lo hi →
      (freshFees votes now).countP (fun a => a.amount < lo) ≤ (freshFees votes now).length / 2 ∧
      (freshFees votes now).length / 2 + (freshFees votes now).countP (fun a => hi < a.amount) <
        (freshFees votes now).length

section Aggregation

variable {d : Database} {now : TimePointSec}

/-- Seconds added that still fit do not wrap. -/
theorem lt_wrapped_iff {t age bound : Nat} (hfits : now < t + age → t + age < bound) :
    now < (t + age) % bound ↔ now < t + age := by
  constructor
  · intro h
    exact h.trans_le (Nat.mod_le _ _)
  · intro h
    rwa [Nat.mod_eq_of_lt (hfits h)]

theorem lt_addSeconds_iff {t : TimePointSec} {age : Nat} (hfits : now < t + age → t + age < 4294967296) :
    now < addSeconds t age ↔ now < t + age := by
  unfold addSeconds
  exact lt_wrapped_iff hfits

theorem freshFees_eq_youngVotes {votes : Table DappTrxFeeVoteObject} (hlast : NoneLast votes now) :
    freshFees votes now = youngVotes votes now := by
  unfold freshFees youngVotes
  apply congrArg (List.map _)
  apply List.filter_congr
  intro v hv
  have hiff := lt_addSeconds_iff (hlast v hv)
  simp only [hiff]

/-- What is counted is young. -/
theorem freshFees_sublist (votes : Table DappTrxFeeVoteObject) (now : TimePointSec) :
    (freshFees votes now).Sublist (youngVotes votes now) := by
  apply List.Sublist.map
  apply List.monotone_filter_right
  intro v hv
  exact decide_eq_true ((of_decide_eq_true hv).trans_le (Nat.mod_le _ _))

theorem assigns_iff {fee : Asset} : Assigns d now fee ↔ Comparable (freshFees d.feeVotes now) ∧
    minFeeds ≤ (freshFees d.feeVotes now).length ∧
      Median.upper Asset.amount (freshFees d.feeVotes now) = some fee := by
  apply and_congr_right
  intro _
  unfold medianFee
  by_cases henough : minFeeds ≤ (freshFees d.feeVotes now).length <;> simp [henough]

theorem aggregateTrxFeeVote_assigns : after (aggregateTrxFeeVote now d) = d ∨
    ∃ fee, Assigns d now fee ∧ after (aggregateTrxFeeVote now d) = setTransactionFee fee d := by
  rw [aggregateTrxFeeVote_apply]
  split_ifs with hcomparable
  · cases hfee : medianFee d.feeVotes now with
    | none => exact .inl rfl
    | some fee => exact .inr ⟨fee, ⟨hcomparable, hfee⟩, rfl⟩
  · exact .inl rfl

/-- The median of the votes that are counted is in an interval unless they have a majority on one of its sides. -/
theorem mem_interval_iff {l : List Asset} {fee : Asset} (h : Median.upper Asset.amount l = some fee) (lo hi : Int) :
    lo ≤ fee.amount ∧ fee.amount ≤ hi ↔ l.countP (fun a => a.amount < lo) ≤ l.length / 2 ∧
      l.length / 2 + l.countP (fun a => hi < a.amount) < l.length := by
  have hlow : fee.amount < lo ↔ _ := Median.upper_lt_iff h
  have hhigh : hi < fee.amount ↔ _ := Median.lt_upper_iff h
  omega

/-- **The votes decide** on the fee exactly where those that are not counted leave the median where it is. -/
theorem robustFee_iff : RobustFee d now ↔ Undisputed d.feeVotes now := by
  constructor
  · intro h henough hcomparable lo hi hmajority
    have hne : Median.upper Asset.amount (freshFees d.feeVotes now) ≠ none := by
      apply Median.upper_ne_none
      intro hnil
      rw [hnil] at henough
      exact absurd henough (by decide)
    obtain ⟨fee, hfee⟩ := Option.ne_none_iff_exists'.mp hne
    exact (mem_interval_iff hfee lo hi).mp (h.majority fee (assigns_iff.mpr ⟨hcomparable, henough, hfee⟩) lo hi hmajority)
  · intro hundisputed
    have hsublist := freshFees_sublist d.feeVotes now
    constructor
    · exact aggregateTrxFeeVote_assigns
    · intro fee h
      exact (assigns_iff.mp h).2.1.trans hsublist.length_le
    · intro fee h
      exact hsublist.subset (Median.mem_of_upper (assigns_iff.mp h).2.2)
    · intro fee h lo hi hmajority
      obtain ⟨hcomparable, henough, hfee⟩ := assigns_iff.mp h
      exact (mem_interval_iff hfee lo hi).mpr (hundisputed henough hcomparable lo hi hmajority)

/-- Where every young vote is counted, they do. -/
theorem undisputed_of_noneLast {votes : Table DappTrxFeeVoteObject} (hlast : NoneLast votes now) :
    Undisputed votes now := by
  intro henough _ lo hi hmajority
  have hsame := freshFees_eq_youngVotes hlast
  cases hfee : Median.upper Asset.amount (freshFees votes now) with
  | none =>
    rw [hsame] at henough hfee
    exact absurd hfee (Median.upper_ne_none fun hnil => absurd (hnil ▸ henough) (by decide))
  | some fee =>
    apply (mem_interval_iff hfee lo hi).mp
    apply Median.upper_mem_interval hfee
    rw [hsame]
    exact hmajority

end Aggregation

/-! ## Hidden votes -/

/-- The head time of the sample: two seconds before the last that 32 bits count. -/
def lateTime : TimePointSec := 4294967294

/-- A vote that is counted, but for nothing, and one that is a second younger, but hidden. -/
def cheapVote (n : Nat) : DappTrxFeeVoteObject := ⟨⟨n⟩, 0, sgtSymbol, 4294362495⟩

def hiddenVote (n : Nat) : DappTrxFeeVoteObject := ⟨⟨n⟩, 100, sgtSymbol, 4294362496⟩

/-- Seven votes for nothing, and eight for 100. -/
def outvoted : Table DappTrxFeeVoteObject :=
  ofList ((List.range' 1 7).map cheapVote ++ (List.range' 8 8).map hiddenVote)

/-- **A majority is overlooked**: the eight youngest votes are for 100, and the fee becomes 0. -/
theorem majority_overlooked : ¬ ∀ d now, RobustFee d now := by
  intro h
  have hrobust := h { genesis ⟨1⟩ with feeVotes := outvoted } lateTime
  have hassigns : Assigns { genesis ⟨1⟩ with feeVotes := outvoted } lateTime ⟨0, sgtSymbol⟩ :=
    ⟨by decide +kernel, by decide +kernel⟩
  have hmajority := hrobust.majority _ hassigns 100 100 (by decide +kernel)
  exact absurd hmajority.1 (by decide)

/-! ## The fee is in SGT -/

/-- The fee and the votes on it are in SGT. -/
def FeesInSgt (d : Database) : Prop :=
  (∀ v ∈ d.feeVotes.values, v.trxFeeSymbol = sgtSymbol) ∧ d.dappTransactionFeeSymbol = sgtSymbol

section Runs

variable {env : Env} {d : Database}

theorem feesInSgt_onCore {α : Type} (m : CoreM α) : Always (Kept FeesInSgt) (onCore m) :=
  always_within (fun _ _ h => h) m

theorem feesInSgt_onDapp {α : Type} (m : DappM α) : Always (Kept FeesInSgt) (onDapp m) :=
  always_within (fun _ _ h => h) m

theorem feesInSgt_onToken {α : Type} (m : Token.TokenM α) : Always (Kept FeesInSgt) (onToken m) :=
  always_within (fun _ _ h => h) m

/-- **A vote** that is valid is in SGT. -/
theorem feesInSgt_voteDappTrxFee (op : VoteDappTrxFeeOperation) (hsymbol : op.trxFee.symbol = sgtSymbol) :
    Runs (Kept FeesInSgt) (voteDappTrxFeeEvaluator op) := by
  refine runs_bind (feesInSgt_onCore _).runs fun _ => runs_bind (feesInSgt_onCore _).runs fun now => ?_
  refine runs_bind (readOnly_findIn _).always.runs fun found => ?_
  cases found with
  | none =>
    intro d u d' h ⟨hvotes, hfee⟩
    simp only [bind_eq_ok, createIn_eq_ok, pure_eq_ok] at h
    obtain ⟨id, _, ⟨hc, -, rfl⟩, -, rfl⟩ := h
    refine ⟨fun v hv => ?_, hfee⟩
    have hv : v ∈ ((feeVotePart.get d).insert _ hc).values := hv
    rw [values_insert, Multiset.mem_cons] at hv
    rcases hv with rfl | hv
    · exact hsymbol
    · exact hvotes v hv
  | some r =>
    intro d u d' h ⟨hvotes, hfee⟩
    obtain ⟨a, b, hc, ha, hf, rfl⟩ := modifyIn_eq_ok.mp h
    cases hf
    have hrest := cons_values_erase ha
    refine ⟨fun v hv => ?_, hfee⟩
    have hv : v ∈ ((feeVotePart.get d).replace _ _ hc).values := hv
    rw [values_replace ha, Multiset.mem_cons] at hv
    rcases hv with rfl | hv
    · exact hsymbol
    · exact hvotes v (hrest ▸ Multiset.mem_cons_of_mem hv)

theorem feesInSgt_dappEvaluator (fc : TextRules) (op : DappOperation) (hvalid : ∀ c ∈ op.validate fc, c.holds = true) :
    Runs (Kept FeesInSgt) (dappEvaluator fc op) := by
  by_cases hvote : ∃ o, op = .voteDappTrxFee o
  · obtain ⟨o, rfl⟩ := hvote
    have hsymbol := hvalid ⟨o.trxFee.symbol = sgtSymbol, "Transaction fee is available to use only SNAC"⟩
      (.tail _ (.tail _ (.head _)))
    exact feesInSgt_voteDappTrxFee o (of_decide_eq_true hsymbol)
  · refine (always_dappEvaluator_of fc (fun _ => feesInSgt_onCore _) (fun _ _ _ => feesInSgt_onCore _)
      feesInSgt_onDapp fun o ho => ?_).runs
    exact absurd ⟨o, ho⟩ hvote

theorem feesInSgt_interpret (id : Bytes) (payload : Payload) (outer : RequiredAuthorities) :
    Always (Kept FeesInSgt) (interpret env id payload outer) := by
  unfold interpret
  split
  · refine always_bind (readOnly_ofOption _ _).always fun ops => ?_
    exact runs_applyOperations (feesInSgt_dappEvaluator env.fc)
  · split
    · refine always_bind (readOnly_ofOption _ _).always fun ops => runs_applyOperations fun op _ => ?_
      exact (always_tokenEvaluator env.tokenInterest (fun _ => feesInSgt_onCore _) feesInSgt_onToken op).runs
    · exact always_pure _

theorem feesInSgt_applyOperation (node : Node) (op : Operation) :
    Always (Kept FeesInSgt) (applyOperation env node op) := by
  rcases applyOperation_carried env node op with ⟨m, hm⟩ | ⟨id, payload, size, text, -, hm⟩
  · rw [hm]
    exact feesInSgt_onCore m
  · rw [hm]
    refine always_bind (readOnly_assert _ _).always fun _ => ?_
    dsimp only
    split
    · exact feesInSgt_interpret _ _ _
    · exact always_attempt (feesInSgt_interpret _ _ _)

/-- **The median** of votes in SGT is in SGT. -/
theorem feesInSgt_aggregateTrxFeeVote (now : TimePointSec) : Always (Kept FeesInSgt) (aggregateTrxFeeVote now) := by
  intro d hd
  rcases after_aggregateTrxFeeVote now d with h | ⟨fee, hfee, h⟩
  · rw [h]
    exact hd
  · rw [h]
    refine ⟨hd.1, ?_⟩
    unfold medianFee at hfee
    dsimp only at hfee
    split at hfee
    · obtain ⟨v, hv, rfl⟩ := List.mem_map.mp (Median.mem_of_upper hfee)
      exact hd.1 v.2 (mem_values.mpr ⟨v.1, List.mem_of_mem_filter hv⟩)
    · exact absurd hfee (by simp)

theorem feesInSgt_notifyAppliedBlock (env : Env) : Always (Kept FeesInSgt) (notifyAppliedBlock env) := by
  refine always_attempt (always_each (fun p => ?_) _)
  cases p with
  | dapp =>
    refine always_bind readOnly_get.always fun d => ?_
    dsimp only
    split
    · refine always_bind (feesInSgt_onDapp _) fun _ => ?_
      exact always_bind (feesInSgt_aggregateTrxFeeVote _) fun _ => feesInSgt_onCore _
    · exact always_pure _
  | token =>
    refine always_bind (always_bind readOnly_get.always fun _ => feesInSgt_onToken _) fun _ => ?_
    exact always_bind readOnly_get.always fun _ => feesInSgt_onToken _

theorem feesInSgt_applyBlock (node : Node) (b : SignedBlock) : Always (Kept FeesInSgt) (applyBlock env node b) := by
  have htrx (trx : SignedTransaction) : Always (Kept FeesInSgt) (applyTransaction env node trx) :=
    always_bind (feesInSgt_onCore _) fun _ => always_each (feesInSgt_applyOperation node) _
  refine always_bind (always_bind (feesInSgt_onCore _) fun signing => ?_) fun _ => ?_
  · exact always_bind (always_each htrx _) fun _ => feesInSgt_onCore _
  · exact always_bind (feesInSgt_onCore _) fun _ => feesInSgt_notifyAppliedBlock env

theorem reachable_feesInSgt {ok : Node → SignedBlock → Database → Prop} (h : Reachable env ok d) : FeesInSgt d := by
  induction h with
  | genesis key => exact ⟨fun v hv => absurd hv (Multiset.notMem_zero v), rfl⟩
  | block node b _ _ _ happly ih => exact (feesInSgt_applyBlock node b).runs _ _ _ happly ih

/-- Votes in SGT can be sorted. -/
theorem aggregateTrxFeeVote_succeeds (hd : FeesInSgt d) (now : TimePointSec) :
    succeeds (aggregateTrxFeeVote now d) = true := by
  have hsgt : ∀ a ∈ freshFees d.feeVotes now, a.symbol = sgtSymbol := by
    intro a ha
    obtain ⟨v, hv, rfl⟩ := List.mem_map.mp ha
    exact hd.1 v.2 (mem_values.mpr ⟨v.1, List.mem_of_mem_filter hv⟩)
  have hcomparable : Comparable (freshFees d.feeVotes now) := fun _ a ha b hb => (hsgt a ha).trans (hsgt b hb).symm
  rw [aggregateTrxFeeVote_apply, if_pos hcomparable]
  cases medianFee d.feeVotes now <;> rfl

/-- **Votes on the fee are robust**: the median decides as it should exactly where the young votes that 32 bits hide do
not outvote it, so wherever there are none; and in every reachable state the fee is not negative and in SGT, and the
votes can be sorted. -/
theorem fee_votes_robust (env : Env) :
    (∀ d now, RobustFee d now ↔ Undisputed d.feeVotes now) ∧
      (∀ votes now, NoneLast votes now → Undisputed votes now) ∧
      ∀ d, Reachable env anyBlock d → 0 ≤ d.core.dgp.dappTransactionFee ∧ d.dappTransactionFeeSymbol = sgtSymbol ∧
        ∀ now, succeeds (aggregateTrxFeeVote now d) = true := by
  refine ⟨fun d now => robustFee_iff, fun votes now => undisputed_of_noneLast, fun d hd => ?_⟩
  have hsgt := reachable_feesInSgt hd
  exact ⟨(reachable_feeNonneg hd).1, hsgt.2, aggregateTrxFeeVote_succeeds hsgt⟩

end Runs

/-- Nine votes, for 1 to 9, a day old. -/
def ordinaryVotes : Database :=
  { genesis ⟨1⟩ with
    feeVotes := ofList ((List.range' 1 9).map fun n : Nat => ⟨⟨n⟩, n, sgtSymbol, genesisTime⟩) }

/-- The vote in the middle becomes the fee, and it is in every interval with a majority; after a block no fee is negative. -/
theorem fee_votes_robust_sample :
    RobustFee ordinaryVotes (genesisTime + 86400) ∧ Assigns ordinaryVotes (genesisTime + 86400) ⟨5, sgtSymbol⟩ ∧
      0 ≤ (sampleAfter moneyBlock (genesis ⟨1⟩)).core.dgp.dappTransactionFee := by
  have hlast : NoneLast ordinaryVotes.feeVotes (genesisTime + 86400) := by
    unfold NoneLast
    decide +kernel
  have hrun : succeeds (applyBlock sampleEnv {} moneyBlock (genesis ⟨1⟩)) = true := by decide +kernel
  have hreached : Reachable sampleEnv anyBlock (sampleAfter moneyBlock (genesis ⟨1⟩)) :=
    reachable_sampleAfter (.genesis ⟨1⟩) trivial hrun
  obtain ⟨hrobust, hundisputed, hruns⟩ := fee_votes_robust sampleEnv
  exact ⟨(hrobust _ _).mpr (hundisputed _ _ hlast), ⟨by decide +kernel, by decide +kernel⟩, (hruns _ hreached).1⟩

end Sigmaengine.Dapp
