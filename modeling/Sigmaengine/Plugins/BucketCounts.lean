import Mathlib.Tactic.Linarith
import Sigmaengine.Plugins.Statistics

/-!
# What statistics buckets count

A block that opens a bucket finds the iterator at the end where there is no history to be kept or it reaches back beyond
the first second, and counts its transactions in the oldest bucket that is kept, not in its own.  Apart from such
blocks the buckets count what happened.
-/

namespace Sigmaengine.BlockchainStatistics

/-! ## Windows of time -/

section Windows

variable {s now p : Nat}

theorem openOf_le : openOf s now ≤ now := Nat.div_mul_le_self now s

theorem lt_openOf_add (hs : 0 < s) : now < openOf s now + s := by
  unfold openOf
  have hdiv := Nat.div_add_mod' now s
  have hmod := Nat.mod_lt now hs
  omega

theorem openOf_mono {later : Nat} (h : now ≤ later) : openOf s now ≤ openOf s later :=
  Nat.mul_le_mul_right s (Nat.div_le_div_right h)

/-- A time is in the bucket that opened when its own did. -/
theorem mem_window_iff (hs : 0 < s) {t : Nat} :
    openOf s t ≤ now ∧ now < openOf s t + s ↔ openOf s now = openOf s t := by
  constructor
  · rintro ⟨hlow, hhigh⟩
    have hdiv : now / s = t / s := by
      unfold openOf at hlow hhigh
      apply Nat.div_eq_of_lt_le
      · exact hlow
      · rw [Nat.succ_mul]
        exact hhigh
    rw [openOf, hdiv, openOf]
  · intro h
    rw [← h]
    exact ⟨openOf_le, lt_openOf_add hs⟩

/-- The cutoff, where the history does not reach back beyond the first second. -/
theorem cutoff_eq {m : Nat} (hs : 0 < s) (hnow : now < 4294967296) :
    cutoff m now s = if 0 < m ∧ s * m ≤ now then some (now - s * m) else none := by
  unfold cutoff safeMul safeSub
  by_cases hm : 0 < m
  · have hpos := Nat.mul_pos hs hm
    have hoverflow : 4294967295 / m < s ↔ 4294967295 < s * m := Nat.div_lt_iff_lt_mul hm
    by_cases hproduct : 4294967295 < s * m
    · simp [hm, hs, hoverflow, hproduct, show ¬s * m ≤ now by omega]
    · by_cases hle : s * m ≤ now
      · simp [hm, hs, hoverflow, hproduct, hle, show ¬now < s * m by omega]
      · simp [hm, hs, hoverflow, hproduct, hle, show now < s * m by omega]
  · simp [hm]

end Windows

/-! ## Tallies -/

/-- The packed size of the transactions of a block. -/
def blockSize (cd : Codec) (b : SignedBlock) : Nat := (b.transactions.map cd.transactionPackSize).sum

/-- The blocks in a bucket. -/
def blocksIn (s p : Nat) (seen : List SignedBlock) : List SignedBlock :=
  seen.filter fun b => p ≤ b.timestamp ∧ b.timestamp < p + s

/-- The counters of a bucket, in the arithmetic of 32 bits, are those of the blocks in it. -/
structure Tallied (cd : Codec) (s p : Nat) (seen : List SignedBlock) (o : BucketObject) : Prop where
  blocks : o.blocks = .ofNat (blocksIn s p seen).length
  transactions : o.transactions = .ofNat ((blocksIn s p seen).map fun b => b.transactions.length).sum
  bandwidth : o.bandwidth = .ofNat ((blocksIn s p seen).map (blockSize cd)).sum

section Tallies

variable {cd : Codec} {s p : Nat} {seen : List SignedBlock} {b : SignedBlock} {o : BucketObject}

theorem trxSize_eq : trxSize cd b = .ofNat (blockSize cd b) := by
  have hfold (l : List SignedTransaction) (size : UInt32) :
      l.foldl (fun size trx => size + .ofNat (cd.transactionPackSize trx)) size =
        size + .ofNat (l.map cd.transactionPackSize).sum := by
    induction l generalizing size with
    | nil => simp
    | cons trx rest ih => simp [ih, UInt32.add_assoc]
  unfold trxSize blockSize
  rw [hfold, UInt32.zero_add]

theorem blocksIn_snoc : blocksIn s p (seen ++ [b]) =
    blocksIn s p seen ++ if p ≤ b.timestamp ∧ b.timestamp < p + s then [b] else [] := by
  unfold blocksIn
  rw [List.filter_append]
  by_cases hin : p ≤ b.timestamp ∧ b.timestamp < p + s <;> simp [hin]

theorem Tallied.snoc_out (h : Tallied cd s p seen o) (hout : ¬(p ≤ b.timestamp ∧ b.timestamp < p + s)) :
    Tallied cd s p (seen ++ [b]) o := by
  have hsame : blocksIn s p (seen ++ [b]) = blocksIn s p seen := by rw [blocksIn_snoc, if_neg hout, List.append_nil]
  obtain ⟨hblocks, htransactions, hbandwidth⟩ := h
  constructor <;> rw [hsame] <;> assumption

theorem Tallied.snoc_in (h : Tallied cd s p seen o) (hin : p ≤ b.timestamp ∧ b.timestamp < p + s) :
    Tallied cd s p (seen ++ [b]) (addTransactions (numTrx b) (trxSize cd b) (addBlock o)) := by
  have hsnoc : blocksIn s p (seen ++ [b]) = blocksIn s p seen ++ [b] := by rw [blocksIn_snoc, if_pos hin]
  obtain ⟨hblocks, htransactions, hbandwidth⟩ := h
  constructor
  · simp [addTransactions, addBlock, hsnoc, hblocks]
  · simp [addTransactions, addBlock, hsnoc, htransactions, numTrx]
  · simp [addTransactions, addBlock, hsnoc, hbandwidth, trxSize_eq]

/-- A new bucket has the counters of its first block once the transactions are added. -/
theorem tallied_new_iff {now : Nat} (hin : p ≤ b.timestamp ∧ b.timestamp < p + s) (hfirst : blocksIn s p seen = [])
    (n z : UInt32) : Tallied cd s p (seen ++ [b]) (addTransactions n z (newBucket s now)) ↔
      n = numTrx b ∧ z = trxSize cd b := by
  have hsnoc : blocksIn s p (seen ++ [b]) = [b] := by rw [blocksIn_snoc, if_pos hin, hfirst, List.nil_append]
  constructor
  · rintro ⟨-, htransactions, hbandwidth⟩
    rw [hsnoc] at htransactions hbandwidth
    simp only [addTransactions, newBucket, UInt32.zero_add, List.map_cons, List.map_nil, List.sum_cons, List.sum_nil,
      add_zero] at htransactions hbandwidth
    exact ⟨htransactions, hbandwidth.trans trxSize_eq.symm⟩
  · rintro ⟨rfl, rfl⟩
    constructor
    · simp [addTransactions, newBucket, hsnoc]
    · simp [addTransactions, newBucket, hsnoc, numTrx]
    · simp [addTransactions, newBucket, hsnoc, trxSize_eq]

end Tallies

/-! ## One size -/

/-- A block without transactions, as far as 32 bits show. -/
def Quiet (cd : Codec) (b : SignedBlock) : Prop := numTrx b = 0 ∧ trxSize cd b = 0

/-- A block does not open a bucket; or it opens one that has a history, and it has no transactions or is the only one
whose bucket is kept. -/
def Settled (m : Nat) (cd : Codec) (seen : List SignedBlock) (b : SignedBlock) (s : Nat) : Prop :=
  (∃ e ∈ seen, openOf s e.timestamp = openOf s b.timestamp) ∨
    0 < m ∧ s * m ≤ b.timestamp ∧ (Quiet cd b ∨ ∀ e ∈ seen, openOf s e.timestamp + s * m < b.timestamp)

/-- The buckets of one size: each has the blocks in it, it was opened by one of them, and only old ones are gone. -/
structure SizeSound (m : Nat) (cd : Codec) (seen : List SignedBlock) (now s : Nat) (v : Nat → Option BucketObject) :
    Prop where
  counted : ∀ p o, v p = some o → Tallied cd s p seen o
  opened : ∀ p o, v p = some o → ∃ b ∈ seen, openOf s b.timestamp = p
  removed : ∀ b ∈ seen, v (openOf s b.timestamp) = none → 0 < m ∧ openOf s b.timestamp + s * m < now

section OneSize

variable {m : Nat} {cd : Codec} {seen : List SignedBlock} {b : SignedBlock} {now s p : Nat} {t : Buckets}
  {v v' : Nat → Option BucketObject}

/-- Where the bucket of a block is not kept, no block before was in it. -/
theorem SizeSound.first (h : SizeSound m cd seen now s v) (hs : 0 < s) (hlater : ∀ e ∈ seen, now < b.timestamp)
    (hnone : v (openOf s b.timestamp) = none) {e : SignedBlock} (he : e ∈ seen) :
    openOf s e.timestamp ≠ openOf s b.timestamp := by
  intro hsame
  obtain ⟨hm, hold⟩ := h.removed e he (hsame ▸ hnone)
  have hlt := @lt_openOf_add s b.timestamp hs
  have hle := Nat.le_mul_of_pos_right s hm
  have hnow := hlater e he
  rw [hsame] at hold
  omega

theorem SizeSound.blocksIn_eq_nil (hs : 0 < s)
    (hfirst : ∀ e ∈ seen, openOf s e.timestamp ≠ openOf s b.timestamp) :
    blocksIn s (openOf s b.timestamp) seen = [] := by
  unfold blocksIn
  rw [List.filter_eq_nil_iff]
  intro e he hin
  exact hfirst e he ((mem_window_iff hs).mp (of_decide_eq_true hin))

/-- **A block in a bucket there is** leaves the size sound. -/
theorem SizeSound.existing (h : SizeSound m cd seen now s v) (hs : 0 < s) (hlater : ∀ e ∈ seen, now < b.timestamp)
    {o : BucketObject} (ho : v (openOf s b.timestamp) = some o)
    (hview : ∀ p, v' p = if openOf s b.timestamp = p then
      some (addTransactions (numTrx b) (trxSize cd b) (addBlock o)) else v p) :
    SizeSound m cd (seen ++ [b]) b.timestamp s v' := by
  constructor
  · intro p o' ho'
    rw [hview] at ho'
    split_ifs at ho' with hp
    · cases ho'
      subst hp
      exact (h.counted _ _ ho).snoc_in ((mem_window_iff hs).mpr rfl)
    · apply (h.counted p o' ho').snoc_out
      obtain ⟨e, -, rfl⟩ := h.opened p o' ho'
      exact fun hin => hp ((mem_window_iff hs).mp hin)
  · intro p o' ho'
    rw [hview] at ho'
    split_ifs at ho' with hp
    · exact ⟨b, by simp, hp⟩
    · obtain ⟨e, he, hopen⟩ := h.opened p o' ho'
      exact ⟨e, List.mem_append_left _ he, hopen⟩
  · intro e he hnone
    rw [hview] at hnone
    split_ifs at hnone with hp
    rcases List.mem_append.mp he with he | he
    · obtain ⟨hm, hold⟩ := h.removed e he hnone
      exact ⟨hm, hold.trans (hlater e he)⟩
    · rw [List.mem_singleton.mp he] at hp
      exact absurd rfl hp

/-- **A block that opens a bucket** leaves the size sound where its transactions are counted in it. -/
theorem SizeSound.new (h : SizeSound m cd seen now s v) (hs : 0 < s) (hm : 0 < m) (hle : s * m ≤ b.timestamp)
    (hfirst : ∀ e ∈ seen, openOf s e.timestamp ≠ openOf s b.timestamp) (hlater : ∀ e ∈ seen, now < b.timestamp)
    (hview : ∀ p, v' p = if openOf s b.timestamp = p then
        some (addTransactions (numTrx b) (trxSize cd b) (newBucket s b.timestamp))
      else if p < b.timestamp - s * m then none else v p) :
    SizeSound m cd (seen ++ [b]) b.timestamp s v' := by
  constructor
  · intro p o' ho'
    rw [hview] at ho'
    split_ifs at ho' with hp hold
    · cases ho'
      subst hp
      exact (tallied_new_iff ((mem_window_iff hs).mpr rfl) (blocksIn_eq_nil hs hfirst) _ _).mpr ⟨rfl, rfl⟩
    · apply (h.counted p o' ho').snoc_out
      obtain ⟨e, -, rfl⟩ := h.opened p o' ho'
      exact fun hin => hp ((mem_window_iff hs).mp hin)
  · intro p o' ho'
    rw [hview] at ho'
    split_ifs at ho' with hp hold
    · exact ⟨b, by simp, hp⟩
    · obtain ⟨e, he, hopen⟩ := h.opened p o' ho'
      exact ⟨e, List.mem_append_left _ he, hopen⟩
  · intro e he hnone
    rw [hview] at hnone
    split_ifs at hnone with hp hold
    · exact ⟨hm, by omega⟩
    · rcases List.mem_append.mp he with he | he
      · obtain ⟨-, hold⟩ := h.removed e he hnone
        exact ⟨hm, hold.trans (hlater e he)⟩
      · rw [List.mem_singleton.mp he] at hp
        exact absurd rfl hp

theorem addTransactions_of_quiet (hquiet : Quiet cd b) (o : BucketObject) :
    addTransactions (numTrx b) (trxSize cd b) o = o := by
  unfold addTransactions
  rw [hquiet.1, hquiet.2, UInt32.add_zero, UInt32.add_zero]

theorem cutoff_le_openOf (hs : 0 < s) (hm : 0 < m) : now - s * m ≤ openOf s now := by
  have hlt : now < openOf s now + s := lt_openOf_add hs
  have hle := Nat.le_mul_of_pos_right s hm
  omega

/-- **A settled block** leaves the size sound. -/
theorem onBucket_settled (h : SizeSound m cd seen now s (bucketAt t s)) (hs : 0 < s) (hlater : ∀ e ∈ seen, now < b.timestamp)
    (hfits : b.timestamp < 4294967296) (hsettled : Settled m cd seen b s) :
    ∃ t', onBucket m b.timestamp (numTrx b) (trxSize cd b) t s = .ok t' ∧
      SizeSound m cd (seen ++ [b]) b.timestamp s (bucketAt t' s) := by
  cases hfound : bucketAt t s (openOf s b.timestamp) with
  | some o =>
    obtain ⟨t', hrun, hview, -⟩ := onBucket_existing (m := m) (n := numTrx b) (z := trxSize cd b) hfound
    exact ⟨t', hrun, h.existing hs hlater hfound hview⟩
  | none =>
    have hfirst {e : SignedBlock} (he : e ∈ seen) := h.first hs hlater hfound he
    rcases hsettled with ⟨e, he, hsame⟩ | ⟨hm, hle, hmine⟩
    · exact absurd hsame (hfirst he)
    · have hcutoff := cutoff_eq (m := m) hs hfits
      rw [if_pos ⟨hm, hle⟩] at hcutoff
      obtain ⟨t', oldest, o, hrun, hlow, hhigh, hgap, ho, hview, -⟩ :=
        onBucket_new (n := numTrx b) (z := trxSize cd b) hfound hcutoff (cutoff_le_openOf hs hm)
      refine ⟨t', hrun, h.new hs hm hle (fun e he => hfirst he) hlater fun p => ?_⟩
      rw [hview]
      unfold withNew at ho ⊢
      by_cases hnew : openOf s b.timestamp = oldest
      · rw [if_pos hnew] at ho
        cases ho
        rw [hnew]
        by_cases hp : oldest = p <;> simp [hp]
      · rw [if_neg hnew] at ho
        rcases hmine with hquiet | hold
        · -- nothing is added to the bucket that gets the transactions
          simp only [addTransactions_of_quiet hquiet]
          by_cases hp : oldest = p
          · subst hp
            rw [if_pos rfl, if_neg hnew, if_neg (by omega), ho]
          · by_cases hopen : openOf s b.timestamp = p
            · have hnot : ¬p < b.timestamp - s * m := by omega
              simp [hp, hopen, hnot]
            · simp [hp, hopen]
        · obtain ⟨e, he, rfl⟩ := h.opened oldest o ho
          have hbefore := hold e he
          omega

/-- **A block that is not settled** is not counted right. -/
theorem settled_of_onBucket (h : SizeSound m cd seen now s (bucketAt t s)) (hs : 0 < s)
    (hseen : ∀ e ∈ seen, e.timestamp ≤ now) (hlater : ∀ e ∈ seen, now < b.timestamp) (hfits : b.timestamp < 4294967296)
    {t' : Buckets} (hrun : onBucket m b.timestamp (numTrx b) (trxSize cd b) t s = .ok t')
    (hcounted : ∀ p o, bucketAt t' s p = some o → Tallied cd s p (seen ++ [b]) o) : Settled m cd seen b s := by
  cases hfound : bucketAt t s (openOf s b.timestamp) with
  | some o =>
    obtain ⟨e, he, hopen⟩ := h.opened _ _ hfound
    exact .inl ⟨e, he, hopen⟩
  | none =>
    right
    have hcutoff := cutoff_eq (m := m) hs hfits
    by_cases hhistory : 0 < m ∧ s * m ≤ b.timestamp
    swap
    · rw [if_neg hhistory] at hcutoff
      rw [onBucket_end hfound hcutoff] at hrun
      cases hrun
    rw [if_pos hhistory] at hcutoff
    refine ⟨hhistory.1, hhistory.2, ?_⟩
    by_contra hnot
    push Not at hnot
    obtain ⟨hloud, e, he, hkept⟩ := hnot
    obtain ⟨t₁, oldest, o, hrun₁, hlow, hhigh, hgap, ho, hview, -⟩ :=
      onBucket_new (n := numTrx b) (z := trxSize cd b) hfound hcutoff (cutoff_le_openOf hs hhistory.1)
    rw [hrun] at hrun₁
    cases hrun₁
    have hfirst {e : SignedBlock} (he : e ∈ seen) := h.first hs hlater hfound he
    -- the bucket of the block before is kept, so the transactions are not counted in the new one
    have hbefore : oldest ≤ openOf s e.timestamp := by
      by_contra hlt
      have hgone := hgap (openOf s e.timestamp) (by omega) (by omega)
      have hold := (h.removed e he hgone).2
      have hnow := hlater e he
      omega
    have hother : oldest ≠ openOf s b.timestamp := by
      have hmono := openOf_mono (s := s) ((hseen e he).trans (hlater e he).le)
      have hne := hfirst he
      omega
    have hnew : bucketAt t' s (openOf s b.timestamp) = some (addTransactions 0 0 (newBucket s b.timestamp)) := by
      have hopen := @cutoff_le_openOf m b.timestamp s hs hhistory.1
      rw [hview, if_neg hother, if_neg (by omega), withNew, if_pos rfl]
      simp [addTransactions]
    have htally := hcounted _ _ hnew
    rw [tallied_new_iff ((mem_window_iff hs).mpr rfl) (SizeSound.blocksIn_eq_nil hs fun e he => hfirst he)] at htally
    exact hloud ⟨htally.1.symm, htally.2.symm⟩

end OneSize

/-! ## All sizes -/

section AllSizes

variable {m now : Nat} {n z : UInt32} {t t' : Buckets} {s : Nat} {sizes : List Nat}

/-- A block changes the buckets of the size it is counted in. -/
theorem keeps_onBucket (hs : 0 < s) (hnow : now < 4294967296) (hrun : onBucket m now n z t s = .ok t') :
    Keeps s t t' := by
  cases hfound : bucketAt t s (openOf s now) with
  | some o =>
    obtain ⟨t₁, hrun₁, -, hkeeps⟩ := onBucket_existing (m := m) (n := n) (z := z) hfound
    rw [hrun] at hrun₁
    cases hrun₁
    exact hkeeps
  | none =>
    have hcutoff := cutoff_eq (m := m) hs hnow
    by_cases hhistory : 0 < m ∧ s * m ≤ now
    · rw [if_pos hhistory] at hcutoff
      obtain ⟨t₁, _, _, hrun₁, -, -, -, -, -, hkeeps⟩ :=
        onBucket_new (n := n) (z := z) hfound hcutoff (cutoff_le_openOf hs hhistory.1)
      rw [hrun] at hrun₁
      cases hrun₁
      exact hkeeps
    · rw [if_neg hhistory] at hcutoff
      rw [onBucket_end hfound hcutoff] at hrun
      cases hrun

/-- **The loop over the sizes** counts the block in each, in the buckets that it had before. -/
theorem foldlM_onBucket (hsizes : ∀ s ∈ sizes, 0 < s) (hnodup : sizes.Nodup) (hnow : now < 4294967296)
    (hrun : sizes.foldlM (onBucket m now n z) t = .ok t') :
    (∀ r, r.2.seconds ∉ sizes → (r ∈ t'.rows ↔ r ∈ t.rows)) ∧
      ∀ s ∈ sizes, ∃ t₀ t₁, bucketAt t₀ s = bucketAt t s ∧ onBucket m now n z t₀ s = .ok t₁ ∧
        bucketAt t' s = bucketAt t₁ s := by
  induction sizes generalizing t with
  | nil =>
    cases hrun
    simp
  | cons s sizes ih =>
    obtain ⟨hfresh, hnodup⟩ := List.nodup_cons.mp hnodup
    rw [List.foldlM_cons] at hrun
    cases hfirst : onBucket m now n z t s with
    | error e =>
      rw [hfirst] at hrun
      cases hrun
    | ok t₁ =>
      rw [hfirst] at hrun
      obtain ⟨hothers, heach⟩ := ih (fun s' hs' => hsizes s' (.tail _ hs')) hnodup hrun
      have hkeeps := keeps_onBucket (hsizes s List.mem_cons_self) hnow hfirst
      constructor
      · intro r hr
        rw [List.mem_cons, not_or] at hr
        exact (hothers r hr.2).trans (hkeeps r hr.1)
      · intro s' hs'
        rcases List.mem_cons.mp hs' with rfl | hs'
        · refine ⟨t, t₁, rfl, hfirst, ?_⟩
          funext p
          ext o
          rw [bucketAt_eq_some, bucketAt_eq_some]
          apply and_congr_left
          rintro ⟨hseconds, -⟩
          apply exists_congr
          intro id
          exact hothers (id, o) (by rwa [hseconds])
        · obtain ⟨t₀, t₂, hbefore, hrun₂, hafter⟩ := heach s' hs'
          have hne : s' ≠ s := fun hsame => hfresh (hsame ▸ hs')
          exact ⟨t₀, t₂, hbefore.trans (hkeeps.bucketAt hne), hrun₂, hafter⟩

/-- The loop ends where every size can be counted. -/
theorem exists_foldlM_onBucket (hsizes : ∀ s ∈ sizes, 0 < s) (hnodup : sizes.Nodup) (hnow : now < 4294967296)
    (heach : ∀ s ∈ sizes, ∀ t₀, bucketAt t₀ s = bucketAt t s → ∃ t₁, onBucket m now n z t₀ s = .ok t₁) :
    ∃ t', sizes.foldlM (onBucket m now n z) t = .ok t' := by
  induction sizes generalizing t with
  | nil => exact ⟨t, rfl⟩
  | cons s sizes ih =>
    obtain ⟨hfresh, hnodup⟩ := List.nodup_cons.mp hnodup
    obtain ⟨t₁, hfirst⟩ := heach s List.mem_cons_self t rfl
    have hkeeps := keeps_onBucket (hsizes s List.mem_cons_self) hnow hfirst
    rw [List.foldlM_cons, hfirst]
    refine ih (fun s' hs' => hsizes s' (.tail _ hs')) hnodup fun s' hs' t₀ hview => ?_
    have hne : s' ≠ s := fun hsame => hfresh (hsame ▸ hs')
    exact heach s' (.tail _ hs') t₀ (hview.trans (hkeeps.bucketAt hne))

end AllSizes

/-! ## Runs -/

/-- The sizes are a `flat_set`; none of them is zero. -/
structure Options.Sound (cfg : Options) : Prop where
  sorted : cfg.trackedBuckets.Pairwise (· < ·)
  positive : ∀ s ∈ cfg.trackedBuckets, 0 < s

/-- Blocks from the first one on, at increasing times. -/
structure Applied (blocks : List SignedBlock) : Prop where
  numbered : ∀ past b rest, blocks = past ++ b :: rest → b.blockNum = past.length + 1
  increasing : blocks.Pairwise fun a b => a.timestamp < b.timestamp
  fits : ∀ b ∈ blocks, b.timestamp < 4294967296

/-- **Statistics that count what happened**: every bucket of a tracked size has the counters of the blocks in it, the
one of the head time is there, and only those that opened before the cutoff are gone. -/
structure Counted (cfg : Options) (cd : Codec) (seen : List SignedBlock) (now : Nat) (t : Buckets) : Prop where
  counted : ∀ s ∈ cfg.trackedBuckets, ∀ p o, bucketAt t s p = some o → Tallied cd s p seen o
  current : ∀ s ∈ cfg.trackedBuckets, ∃ o, bucketAt t s (openOf s now) = some o
  removed : ∀ s ∈ cfg.trackedBuckets, ∀ b ∈ seen, bucketAt t s (openOf s b.timestamp) = none →
    0 < cfg.maximumHistoryPerBucketSize ∧ openOf s b.timestamp + s * cfg.maximumHistoryPerBucketSize < now

/-- `on_block`, for one block after the other. -/
def onBlocks (cfg : Options) (cd : Codec) (blocks : List SignedBlock) : Except Failure Buckets :=
  blocks.foldlM (onBlock cfg cd) .empty

/-- What holds between two blocks. -/
structure Sound (cfg : Options) (cd : Codec) (seen : List SignedBlock) (now : Nat) (t : Buckets) : Prop where
  sizes : ∀ s ∈ cfg.trackedBuckets, SizeSound cfg.maximumHistoryPerBucketSize cd seen now s (bucketAt t s)
  total : (seen = [] ∧ t = .empty) ∨ (seen ≠ [] ∧ ∃ o, (0, o) ∈ t.rows ∧ o.seconds = 0)

section Runs

variable {cfg : Options} {cd : Codec} {seen : List SignedBlock} {b : SignedBlock} {now : Nat} {t t' : Buckets}

theorem sound_empty : Sound cfg cd [] 0 .empty := by
  have hempty (s : Nat) : bucketAt .empty s = fun _ => none := rfl
  refine ⟨fun s _ => ?_, .inl ⟨rfl, rfl⟩⟩
  rw [hempty]
  constructor <;> simp

/-- The bucket over all blocks is there, and no other changes. -/
theorem countTotal_spec (h : Sound cfg cd seen now t) (hnum : b.blockNum = seen.length + 1) :
    ∃ t', countTotal b t = .ok t' ∧ Keeps 0 t t' ∧ ∃ o, (0, o) ∈ t'.rows ∧ o.seconds = 0 := by
  unfold countTotal
  rcases h.total with ⟨rfl, rfl⟩ | ⟨hseen, o, hmem, hzero⟩
  · obtain ⟨t', hcreate, -, hkeeps, hnew⟩ :=
      createBucket_spec (t := .empty) (o := { open_ := b.timestamp, seconds := 0, blocks := 1 }) rfl
    rw [if_pos (by simpa using hnum)]
    exact ⟨t', hcreate, hkeeps, _, hnew, rfl⟩
  · obtain ⟨t', hmodify, -, hkeeps, hnew⟩ := modifyBucket_spec (f := addBlock) hmem ⟨rfl, rfl⟩
    have hpos := List.length_pos_of_ne_nil hseen
    rw [if_neg (by omega)]
    exact ⟨t', hmodify, hzero ▸ hkeeps, _, hnew, hzero⟩

/-- **One block**: the buckets count it right exactly where it is settled in every size. -/
theorem onBlock_iff (hcfg : cfg.Sound) (h : Sound cfg cd seen now t) (hnum : b.blockNum = seen.length + 1)
    (hseen : ∀ e ∈ seen, e.timestamp ≤ now) (hlater : ∀ e ∈ seen, now < b.timestamp) (hfits : b.timestamp < 4294967296) :
    ((∃ t', onBlock cfg cd t b = .ok t' ∧ Counted cfg cd (seen ++ [b]) b.timestamp t') →
        ∀ s ∈ cfg.trackedBuckets, Settled cfg.maximumHistoryPerBucketSize cd seen b s) ∧
      ((∀ s ∈ cfg.trackedBuckets, Settled cfg.maximumHistoryPerBucketSize cd seen b s) →
        ∃ t', onBlock cfg cd t b = .ok t' ∧ Sound cfg cd (seen ++ [b]) b.timestamp t') := by
  obtain ⟨t₀, htotal, hkeeps, o, hmem, hzero⟩ := countTotal_spec h hnum
  have hnodup : cfg.trackedBuckets.Nodup := hcfg.sorted.imp fun hlt => ne_of_lt hlt
  have hsizes (s : Nat) (hs : s ∈ cfg.trackedBuckets) : SizeSound cfg.maximumHistoryPerBucketSize cd seen now s
      (bucketAt t₀ s) := by
    rw [hkeeps.bucketAt (hcfg.positive s hs).ne']
    exact h.sizes s hs
  have honBlock : onBlock cfg cd t b = cfg.trackedBuckets.foldlM
      (onBucket cfg.maximumHistoryPerBucketSize b.timestamp (numTrx b) (trxSize cd b)) t₀ := by
    rw [onBlock, htotal, except_bind_ok]
  rw [honBlock]
  constructor
  · rintro ⟨t', hrun, hcounted⟩ s hs
    obtain ⟨t₁, t₂, hbefore, hrun₁, hafter⟩ := (foldlM_onBucket hcfg.positive hnodup hfits hrun).2 s hs
    refine settled_of_onBucket (hbefore ▸ hsizes s hs) (hcfg.positive s hs) hseen hlater hfits hrun₁ fun p o ho => ?_
    exact hcounted.counted s hs p o (by rwa [hafter])
  · intro hsettled
    have heach (s : Nat) (hs : s ∈ cfg.trackedBuckets) (t₁ : Buckets) (hview : bucketAt t₁ s = bucketAt t₀ s) :=
      onBucket_settled (t := t₁) (hview ▸ hsizes s hs) (hcfg.positive s hs) hlater hfits (hsettled s hs)
    obtain ⟨t', hrun⟩ := exists_foldlM_onBucket hcfg.positive hnodup hfits fun s hs t₁ hview =>
      (heach s hs t₁ hview).imp fun _ h => h.1
    obtain ⟨hothers, hparts⟩ := foldlM_onBucket hcfg.positive hnodup hfits hrun
    refine ⟨t', hrun, fun s hs => ?_, .inr ⟨by simp, o, ?_, hzero⟩⟩
    · obtain ⟨t₁, t₂, hbefore, hrun₁, hafter⟩ := hparts s hs
      obtain ⟨t₃, hrun₃, hsound⟩ := heach s hs t₁ hbefore
      rw [hrun₁] at hrun₃
      cases hrun₃
      rwa [hafter]
    · refine (hothers (0, o) fun hin => ?_).mpr hmem
      exact absurd (hcfg.positive _ hin) (by simp [hzero])

theorem Sound.toCounted (hcfg : cfg.Sound) (h : Sound cfg cd seen b.timestamp t) (hb : b ∈ seen) :
    Counted cfg cd seen b.timestamp t := by
  constructor
  · exact fun s hs => (h.sizes s hs).counted
  · intro s hs
    rw [← Option.ne_none_iff_exists']
    intro hnone
    obtain ⟨hm, hold⟩ := (h.sizes s hs).removed b hb hnone
    have hlt := @lt_openOf_add s b.timestamp (hcfg.positive s hs)
    have hle := Nat.le_mul_of_pos_right s hm
    omega
  · exact fun s hs => (h.sizes s hs).removed

/-! ## Sequences of blocks -/

variable {blocks : List SignedBlock}

def headTime (blocks : List SignedBlock) : Nat := (blocks.getLast?.map fun b => b.timestamp).getD 0

theorem headTime_snoc : headTime (seen ++ [b]) = b.timestamp := by simp [headTime]

theorem onBlocks_snoc : onBlocks cfg cd (seen ++ [b]) = onBlocks cfg cd seen >>= fun t => onBlock cfg cd t b := by
  unfold onBlocks
  rw [List.foldlM_append]
  simp only [List.foldlM_cons, List.foldlM_nil, bind_pure]

theorem Applied.init {rest : List SignedBlock} (h : Applied (seen ++ rest)) : Applied seen := by
  constructor
  · rintro past c rest' rfl
    exact h.numbered past c (rest' ++ rest) (by simp)
  · exact (List.pairwise_append.mp h.increasing).1
  · exact fun c hc => h.fits c (List.mem_append_left _ hc)

/-- A block comes after those before it. -/
theorem Applied.later (h : Applied (seen ++ [b])) {e : SignedBlock} (he : e ∈ seen) : headTime seen < b.timestamp := by
  obtain ⟨past, last, rfl⟩ : ∃ past last, seen = past ++ [last] := by
    rcases List.eq_nil_or_concat seen with rfl | ⟨past, last, rfl⟩
    · cases he
    · exact ⟨past, last, List.concat_eq_append⟩
  rw [headTime_snoc]
  exact (List.pairwise_append.mp h.increasing).2.2 last (by simp) b (by simp)

theorem Applied.le_headTime (h : Applied seen) {e : SignedBlock} (he : e ∈ seen) : e.timestamp ≤ headTime seen := by
  rcases List.eq_nil_or_concat seen with rfl | ⟨past, last, rfl⟩
  · cases he
  · rw [List.concat_eq_append] at h he ⊢
    rw [headTime_snoc]
    rcases List.mem_append.mp he with he | he
    · exact ((List.pairwise_append.mp h.increasing).2.2 e he last (by simp)).le
    · rw [List.mem_singleton.mp he]

/-- Every block of the sequence is settled in every size. -/
def AllSettled (cfg : Options) (cd : Codec) (blocks : List SignedBlock) : Prop :=
  ∀ past b rest, blocks = past ++ b :: rest →
    ∀ s ∈ cfg.trackedBuckets, Settled cfg.maximumHistoryPerBucketSize cd past b s

theorem allSettled_init {rest : List SignedBlock} (h : AllSettled cfg cd (seen ++ rest)) : AllSettled cfg cd seen := by
  rintro past c rest' rfl
  exact h past c (rest' ++ rest) (by simp)

theorem allSettled_snoc : AllSettled cfg cd (seen ++ [b]) ↔ AllSettled cfg cd seen ∧
    ∀ s ∈ cfg.trackedBuckets, Settled cfg.maximumHistoryPerBucketSize cd seen b s := by
  constructor
  · intro h
    exact ⟨allSettled_init h, h seen b [] rfl⟩
  · rintro ⟨hseen, hb⟩ past c rest heq
    rcases List.eq_nil_or_concat rest with rfl | ⟨rest, last, rfl⟩
    · obtain ⟨rfl, hlast⟩ := List.append_inj' heq rfl
      cases hlast
      exact hb
    · rw [List.concat_eq_append, ← List.cons_append, ← List.append_assoc] at heq
      obtain ⟨hinit, -⟩ := List.append_inj' heq rfl
      exact hseen past c rest hinit

/-- **A run over settled blocks** ends soundly. -/
theorem exists_sound (hcfg : cfg.Sound) (h : Applied blocks) (hsettled : AllSettled cfg cd blocks) :
    ∃ t, onBlocks cfg cd blocks = .ok t ∧ Sound cfg cd blocks (headTime blocks) t := by
  induction blocks using List.reverseRecOn with
  | nil => exact ⟨.empty, rfl, sound_empty⟩
  | append_singleton seen b ih =>
    obtain ⟨hseen, hb⟩ := allSettled_snoc.mp hsettled
    obtain ⟨t, hrun, hsound⟩ := ih h.init hseen
    obtain ⟨t', hstep, hsound'⟩ := (onBlock_iff hcfg hsound (h.numbered seen b [] rfl)
      (fun e he => h.init.le_headTime he) (fun e he => h.later he) (h.fits b (by simp))).2 hb
    refine ⟨t', ?_, by rwa [headTime_snoc]⟩
    rw [onBlocks_snoc, hrun]
    exact hstep

/-- **Statistics count what happened** after every block of a sequence exactly where every block of it is settled. -/
theorem statistics_count (cd : Codec) (hcfg : cfg.Sound) (h : Applied blocks) :
    (∀ past b rest, blocks = past ++ b :: rest →
      ∃ t, onBlocks cfg cd (past ++ [b]) = .ok t ∧ Counted cfg cd (past ++ [b]) b.timestamp t) ↔
      AllSettled cfg cd blocks := by
  constructor
  · intro hcounted
    induction blocks using List.reverseRecOn with
    | nil => exact fun past b rest heq => absurd heq (by simp)
    | append_singleton seen b ih =>
      have hseen : AllSettled cfg cd seen := by
        apply ih h.init
        rintro past c rest rfl
        exact hcounted past c (rest ++ [b]) (by simp)
      obtain ⟨t, hrun, hsound⟩ := exists_sound hcfg h.init hseen
      refine allSettled_snoc.mpr ⟨hseen, ?_⟩
      obtain ⟨t', hrun', hb⟩ := hcounted seen b [] rfl
      rw [onBlocks_snoc, hrun] at hrun'
      exact (onBlock_iff hcfg hsound (h.numbered seen b [] rfl) (fun e he => h.init.le_headTime he)
        (fun e he => h.later he) (h.fits b (by simp))).1 ⟨t', hrun', hb⟩
  · rintro hsettled past b rest rfl
    rw [List.append_cons] at h hsettled
    obtain ⟨t, hrun, hsound⟩ := exists_sound hcfg h.init (allSettled_init hsettled)
    rw [headTime_snoc] at hsound
    exact ⟨t, hrun, hsound.toCounted hcfg (by simp)⟩

end Runs

/-! ## A busy block -/

def measuringCodec : Codec where
  headerHash _ := (0, 0)
  transactionId _ := 0
  merkleDigest _ := 0
  hashPair _ _ := 0
  checksum := id
  transactionPackSize _ := 200
  blockPackSize _ := 0
  signee _ := none
  signatureKey _ _ := none

def statisticsBlock (num time : Nat) (transactions : List SignedTransaction) : SignedBlock where
  previous := { num := num - 1 }
  timestamp := time
  bobserver := []
  transactionMerkleRoot := 0
  extensions := []
  bobserverSignature := 0
  transactions := transactions

def firstBlock : SignedBlock := statisticsBlock 1 1600000000 []

/-- A block with a transaction opens a bucket. -/
def busyBlock : SignedBlock := statisticsBlock 2 1600000060 [⟨0, 0, 1600000100, [], []⟩]

theorem sound_default : ({} : Options).Sound := ⟨by decide, by decide⟩

theorem applied_two {b : SignedBlock} (hnum : b.blockNum = 2) (hlater : firstBlock.timestamp < b.timestamp)
    (hfits : b.timestamp < 4294967296) : Applied [firstBlock, b] := by
  constructor
  · intro past c rest heq
    rcases past with _ | ⟨c', _ | ⟨c'', past⟩⟩
    · cases heq
      rfl
    · cases heq
      exact hnum
    · exact absurd (congrArg List.length heq) (by simp)
  · simpa using hlater
  · simpa [firstBlock, statisticsBlock] using hfits

theorem applied_busy : Applied [firstBlock, busyBlock] := applied_two rfl (by decide) (by decide)

/-- **A transaction in another bucket**: the bucket that the second block opens has no transactions.  And without any
history the first block is counted through the end of the index. -/
theorem transactions_astray : Applied [firstBlock, busyBlock] ∧
    (¬∃ t, onBlocks {} measuringCodec [firstBlock, busyBlock] = .ok t ∧
      Counted {} measuringCodec [firstBlock, busyBlock] busyBlock.timestamp t) ∧
    ¬∃ t, onBlocks { maximumHistoryPerBucketSize := 0 } measuringCodec [firstBlock] = .ok t := by
  refine ⟨applied_busy, ?_, ?_⟩
  · rintro ⟨t, hrun, hcounted⟩
    have hbucket : (onBlocks {} measuringCodec [firstBlock, busyBlock]).toOption.bind
        (fun t => bucketAt t 60 1600000020) = some (newBucket 60 1600000060) := by decide +kernel
    rw [hrun] at hbucket
    have htally := (hcounted.counted 60 (by decide) _ _ hbucket).transactions
    exact absurd htally (by decide +kernel)
  · rintro ⟨t, hrun⟩
    have hend : (onBlocks { maximumHistoryPerBucketSize := 0 } measuringCodec [firstBlock]).toOption.isNone := by
      decide +kernel
    rw [hrun] at hend
    cases hend

/-- A block with transactions in the buckets of the first one. -/
def secondBlock : SignedBlock :=
  statisticsBlock 2 1600000003 [⟨0, 0, 1600000100, [], []⟩, ⟨0, 0, 1600000101, [], []⟩]

/-- The first block opens the buckets of all sizes, and the transactions of the second are counted in them. -/
theorem statistics_count_second : ∃ t, onBlocks {} measuringCodec [firstBlock, secondBlock] = .ok t ∧
    (bucketAt t 60 1599999960).map (fun o => (o.blocks, o.transactions, o.bandwidth)) = some (2, 2, 400) ∧
    Counted {} measuringCodec [firstBlock, secondBlock] secondBlock.timestamp t := by
  have hlong : ∀ s ∈ ({} : Options).trackedBuckets, s * 100 ≤ 1600000000 := by decide
  have hsame : ∀ s ∈ ({} : Options).trackedBuckets, openOf s firstBlock.timestamp = openOf s secondBlock.timestamp := by
    decide
  have hnone : AllSettled {} measuringCodec [] := fun past b rest heq => absurd heq (by simp)
  have hfirst : AllSettled {} measuringCodec ([] ++ [firstBlock]) :=
    allSettled_snoc.mpr ⟨hnone, fun s hs => .inr ⟨by decide, hlong s hs, .inr (by simp)⟩⟩
  have hsettled : AllSettled {} measuringCodec ([firstBlock] ++ [secondBlock]) :=
    allSettled_snoc.mpr ⟨hfirst, fun s hs => .inl ⟨firstBlock, .head _, hsame s hs⟩⟩
  obtain ⟨t, hrun, hcounted⟩ := (statistics_count measuringCodec sound_default
    (applied_two rfl (by decide) (by decide))).mpr hsettled [firstBlock] secondBlock [] rfl
  have hbucket : (onBlocks {} measuringCodec ([firstBlock] ++ [secondBlock])).toOption.bind (fun t =>
      (bucketAt t 60 1599999960).map fun o => (o.blocks, o.transactions, o.bandwidth)) = some (2, 2, 400) := by
    decide +kernel
  rw [hrun] at hbucket
  exact ⟨t, hrun, hbucket, hcounted⟩

end Sigmaengine.BlockchainStatistics
