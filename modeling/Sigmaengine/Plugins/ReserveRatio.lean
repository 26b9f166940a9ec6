import Mathlib.Tactic.Linarith
import Sigmaengine.Lib.Traces
import Sigmaengine.Protocol.Types

/-!
# The reserve ratio

After each block `bobserver_plugin` moves a running average of the block sizes, and once per minute the reserve ratio.
The average is an `int32_t` that is multiplied by 99 before anything else is done, so it is computed right as long as
it stays below `2 ^ 31 / 99`; blocks may be sixty times as large.
-/

namespace Sigmaengine.BobserverPlugin

/-! ## Signed arithmetic -/

/-- A value of a signed type; what overflows it is undefined. -/
def signed (width : Nat) (v : Int) : Option Int :=
  if -2 ^ (width - 1) ≤ v ∧ v < 2 ^ (width - 1) then some v else none

/-- Division, towards zero. -/
def quotient (width : Nat) (a b : Int) : Option Int := if b = 0 then none else signed width (a.tdiv b)

/-- A `size_t` narrowed to an `int32_t`. -/
def toInt32 (n : Int) : Int := n.bmod 4294967296

/-! ## The plugin -/

/-- `reserve_ratio_object`. -/
structure ReserveRatioObject where
  averageBlockSize : Int := 0
  currentReserveRatio : Int := 1
deriving DecidableEq

def maxReserveRatio : Int := 20000
def reserveRatioPrecision : Int := 10000
def reserveRatioMinIncrement : Int := 5000
def distanceCalcPrecision : Int := 10000

/-- `( 99 * r.average_block_size + fc::raw::pack_size( b ) ) / 100`: the product is an `int`, the rest a `size_t`. -/
def nextAverage (average : Int) (size : Nat) : Option Int := do
  let product ← signed 32 (99 * average)
  return toInt32 ((product + size) % 18446744073709551616 / 100)

/-- The adjustment once per minute. -/
def adjustReserveRatio (maximumBlockSize : Nat) (average ratio : Int) : Option Int := do
  let quarter ← quotient 64 maximumBlockSize 4
  let difference ← signed 64 (average - quarter)
  let scaled ← signed 64 (difference * distanceCalcPrecision)
  let distance ← quotient 64 scaled quarter
  let product ← signed 64 (ratio * distance)
  if 0 < distance then
    let divisor ← signed 64 (distance + distanceCalcPrecision)
    let decrement ← quotient 64 product divisor
    let ratio ← signed 64 (ratio - decrement)
    -- we do not want the reserve ratio to drop below 1
    return if ratio < reserveRatioPrecision then reserveRatioPrecision else ratio
  else
    let divisor ← signed 64 (distance - distanceCalcPrecision)
    let increment ← quotient 64 product divisor
    let ratio ← signed 64 (ratio + max reserveRatioMinIncrement increment)
    return if maxReserveRatio * reserveRatioPrecision < ratio then maxReserveRatio * reserveRatioPrecision else ratio

/-- What `on_block` reads of a block and of the chain. -/
structure AppliedBlock where
  headBlockNum : Nat
  packSize : Nat

/-- `on_block`, which creates the object after the first block it sees.  Without a result, what the code does is
undefined. -/
def onBlock (maximumBlockSize : Nat) (o : Option ReserveRatioObject) (b : AppliedBlock) : Option ReserveRatioObject :=
  match o with
  | none => some { averageBlockSize := 0, currentReserveRatio := maxReserveRatio * reserveRatioPrecision }
  | some r => do
    let average ← nextAverage r.averageBlockSize b.packSize
    if b.headBlockNum % 20 = 0 then
      let ratio ← adjustReserveRatio maximumBlockSize average r.currentReserveRatio
      return { averageBlockSize := average, currentReserveRatio := ratio }
    else return { r with averageBlockSize := average }

/-- The plugin after a block; once something undefined has happened, nothing more is said. -/
def next (o : Option (Option ReserveRatioObject)) (b : AppliedBlock) : Option (Option ReserveRatioObject) :=
  o.bind fun o => (onBlock maxBlockSize o b).map some

/-! ## One block -/

theorem maxBlockSize_eq : maxBlockSize = 1333788672 := rfl

theorem signed_eq_some {width : Nat} {v : Int} (hlow : -2 ^ (width - 1) ≤ v) (hhigh : v < 2 ^ (width - 1)) :
    signed width v = some v := if_pos ⟨hlow, hhigh⟩

theorem signed_eq_none {width : Nat} {v : Int} (hhigh : 2 ^ (width - 1) ≤ v) : signed width v = none :=
  if_neg fun h => absurd h.2 (not_lt.mpr hhigh)

theorem quotient_eq_some {width : Nat} {a b : Int} (hb : b ≠ 0) (hlow : -2 ^ (width - 1) ≤ a.tdiv b)
    (hhigh : a.tdiv b < 2 ^ (width - 1)) : quotient width a b = some (a.tdiv b) := by
  unfold quotient
  rw [if_neg hb]
  exact signed_eq_some hlow hhigh

theorem toInt32_eq {n : Int} (hn : 0 ≤ n) (hlt : n < 2147483648) : toInt32 n = n := by
  unfold toInt32 Int.bmod
  rw [Int.emod_eq_of_lt hn (by omega)]
  exact if_pos (by omega)

/-- The largest average that is multiplied by 99 without overflow. -/
def largestAverage : Int := 21691754

theorem nextAverage_eq_some {average : Int} {size : Nat} (haverage : 0 ≤ average) (hle : average ≤ largestAverage)
    (hsize : size ≤ maxBlockSize) : nextAverage average size = some ((99 * average + size) / 100) := by
  unfold largestAverage at hle
  rw [maxBlockSize_eq] at hsize
  have hproduct : signed 32 (99 * average) = some (99 * average) := by
    apply signed_eq_some <;> norm_num <;> omega
  have hsum : (99 * average + size) % 18446744073709551616 = 99 * average + size :=
    Int.emod_eq_of_lt (by omega) (by omega)
  unfold nextAverage
  rw [hproduct, Option.bind_eq_bind, Option.bind_some, hsum, toInt32_eq (by omega) (by omega)]
  rfl

theorem nextAverage_eq_none {average : Int} (hlt : largestAverage < average) (size : Nat) :
    nextAverage average size = none := by
  unfold largestAverage at hlt
  have hproduct : signed 32 (99 * average) = none := by
    apply signed_eq_none
    norm_num
    omega
  unfold nextAverage
  rw [hproduct]
  rfl

/-- What the object is kept within. -/
structure InBounds (r : ReserveRatioObject) : Prop where
  average_nonneg : 0 ≤ r.averageBlockSize
  average_le : r.averageBlockSize ≤ maxBlockSize
  le_ratio : reserveRatioPrecision ≤ r.currentReserveRatio
  ratio_le : r.currentReserveRatio ≤ maxReserveRatio * reserveRatioPrecision

theorem tdiv_bounds {a b low high : Int} (hb : 0 < b) (hlow : low * b ≤ a) (hnonpos : low ≤ 0) (hhigh : a ≤ high * b)
    (hnonneg : 0 ≤ high) : low ≤ a.tdiv b ∧ a.tdiv b ≤ high := by
  rcases le_or_gt 0 a with ha | ha
  · rw [Int.tdiv_eq_ediv_of_nonneg ha]
    exact ⟨hnonpos.trans (Int.ediv_nonneg ha hb.le), Int.ediv_le_of_le_mul hb hhigh⟩
  · have hneg : a.tdiv b = -((-a) / b) := by
      rw [← Int.tdiv_eq_ediv_of_nonneg (by omega), Int.neg_tdiv, neg_neg]
    have hsome : 0 ≤ -a / b := Int.ediv_nonneg (by omega) hb.le
    have hfew : -a / b ≤ -low := Int.ediv_le_of_le_mul hb (by linarith)
    rw [hneg]
    omega

/-- The distance of the average from a quarter of the largest size is between -100 % and 300 %. -/
theorem distance_bounds {average : Int} (haverage : 0 ≤ average) (hle : average ≤ maxBlockSize) :
    -10000 ≤ ((average - 333447168) * 10000).tdiv 333447168 ∧
      ((average - 333447168) * 10000).tdiv 333447168 ≤ 30000 := by
  rw [maxBlockSize_eq] at hle
  apply tdiv_bounds <;> omega

/-- The adjustment stays within 64 bits, divides by no zero and keeps the bounds. -/
theorem adjustReserveRatio_eq_some {average ratio : Int} (haverage : 0 ≤ average) (hle : average ≤ maxBlockSize)
    (hlow : reserveRatioPrecision ≤ ratio) (hhigh : ratio ≤ maxReserveRatio * reserveRatioPrecision) :
    ∃ ratio', adjustReserveRatio maxBlockSize average ratio = some ratio' ∧ reserveRatioPrecision ≤ ratio' ∧
      ratio' ≤ maxReserveRatio * reserveRatioPrecision := by
  have hquarter : quotient 64 (maxBlockSize : Int) 4 = some 333447168 := by decide
  obtain ⟨hfar, hnear⟩ := distance_bounds haverage hle
  unfold adjustReserveRatio
  rw [maxBlockSize_eq] at hle
  simp only [maxReserveRatio, reserveRatioPrecision, distanceCalcPrecision, reserveRatioMinIncrement] at *
  have hdifference : signed 64 (average - 333447168) = some (average - 333447168) := by
    apply signed_eq_some <;> norm_num <;> omega
  have hscaled : signed 64 ((average - 333447168) * 10000) = some ((average - 333447168) * 10000) := by
    apply signed_eq_some <;> norm_num <;> omega
  have hdistance : quotient 64 ((average - 333447168) * 10000) 333447168 =
      some (((average - 333447168) * 10000).tdiv 333447168) := by
    apply quotient_eq_some <;> norm_num <;> omega
  rw [hquarter, Option.bind_eq_bind, Option.bind_some, hdifference, Option.bind_some, hscaled, Option.bind_some,
    hdistance, Option.bind_some]
  generalize ((average - 333447168) * 10000).tdiv 333447168 = distance at hfar hnear
  have hproduct : signed 64 (ratio * distance) = some (ratio * distance) := by
    apply signed_eq_some <;> norm_num <;> nlinarith
  rw [hproduct, Option.bind_some]
  by_cases hpositive : 0 < distance
  · have hdivisor : signed 64 (distance + 10000) = some (distance + 10000) := by
      apply signed_eq_some <;> norm_num <;> omega
    obtain ⟨hsome, hless⟩ : 0 ≤ (ratio * distance).tdiv (distance + 10000) ∧
        (ratio * distance).tdiv (distance + 10000) ≤ ratio := by
      apply tdiv_bounds <;> nlinarith
    have hdecrement : quotient 64 (ratio * distance) (distance + 10000) =
        some ((ratio * distance).tdiv (distance + 10000)) := by
      apply quotient_eq_some <;> norm_num <;> omega
    generalize (ratio * distance).tdiv (distance + 10000) = decrement at hsome hless hdecrement
    have hleft : signed 64 (ratio - decrement) = some (ratio - decrement) := by
      apply signed_eq_some <;> norm_num <;> omega
    rw [if_pos hpositive, hdivisor, Option.bind_some, hdecrement, Option.bind_some, hleft, Option.bind_some]
    refine ⟨_, rfl, ?_⟩
    split_ifs <;> omega
  · have hdivisor : signed 64 (distance - 10000) = some (distance - 10000) := by
      apply signed_eq_some <;> norm_num <;> omega
    have hneg : (ratio * distance).tdiv (distance - 10000) = (ratio * -distance).tdiv (10000 - distance) := by
      rw [← Int.neg_tdiv_neg, mul_neg, neg_sub]
    obtain ⟨hsome, hmost⟩ : 0 ≤ (ratio * distance).tdiv (distance - 10000) ∧
        (ratio * distance).tdiv (distance - 10000) ≤ ratio := by
      rw [hneg]
      apply tdiv_bounds <;> nlinarith
    have hincrement : quotient 64 (ratio * distance) (distance - 10000) =
        some ((ratio * distance).tdiv (distance - 10000)) := by
      apply quotient_eq_some <;> norm_num <;> omega
    generalize (ratio * distance).tdiv (distance - 10000) = increment at hsome hmost hincrement
    have hraised : signed 64 (ratio + max 5000 increment) = some (ratio + max 5000 increment) := by
      apply signed_eq_some <;> norm_num <;> omega
    rw [if_neg hpositive, hdivisor, Option.bind_some, hincrement, Option.bind_some, hraised, Option.bind_some]
    refine ⟨_, rfl, ?_⟩
    split_ifs <;> omega

/-! ## Runs -/

/-- The running average over the integers; the first block only creates the object. -/
def idealAverage : List AppliedBlock → Int
  | [] => 0
  | _ :: bs => bs.foldl (fun average b => (99 * average + b.packSize) / 100) 0

theorem idealAverage_concat {past : List AppliedBlock} (hpast : past ≠ []) (b : AppliedBlock) :
    idealAverage (past ++ [b]) = (99 * idealAverage past + b.packSize) / 100 := by
  cases past with
  | nil => exact absurd rfl hpast
  | cons first past => simp [idealAverage]

/-- Everything is defined so far, within bounds, and the average is that of the integers. -/
def Exact (past : List AppliedBlock) (o : Option (Option ReserveRatioObject)) : Prop :=
  past = [] ∧ o = some none ∨
    past ≠ [] ∧ ∃ r, o = some (some r) ∧ InBounds r ∧ r.averageBlockSize = idealAverage past

theorem onBlock_eq_some {r : ReserveRatioObject} (hr : InBounds r) (hle : r.averageBlockSize ≤ largestAverage)
    {b : AppliedBlock} (hb : b.packSize ≤ maxBlockSize) :
    ∃ r', onBlock maxBlockSize (some r) b = some r' ∧ InBounds r' ∧
      r'.averageBlockSize = (99 * r.averageBlockSize + b.packSize) / 100 := by
  obtain ⟨hnonneg, hmost, hlow, hhigh⟩ := hr
  have haverage := nextAverage_eq_some hnonneg hle hb
  have hnext : 0 ≤ (99 * r.averageBlockSize + b.packSize) / 100 ∧
      (99 * r.averageBlockSize + b.packSize) / 100 ≤ maxBlockSize := by omega
  unfold onBlock
  dsimp only
  rw [haverage, Option.bind_eq_bind, Option.bind_some]
  split
  · obtain ⟨ratio, hratio, hlow', hhigh'⟩ := adjustReserveRatio_eq_some hnext.1 hnext.2 hlow hhigh
    rw [hratio, Option.bind_some]
    exact ⟨_, rfl, ⟨hnext.1, hnext.2, hlow', hhigh'⟩, rfl⟩
  · exact ⟨_, rfl, ⟨hnext.1, hnext.2, hlow, hhigh⟩, rfl⟩

/-- A block keeps the average exact, as long as it is not too large to be multiplied. -/
theorem next_exact {past : List AppliedBlock} {o : Option (Option ReserveRatioObject)} (h : Exact past o)
    (hle : idealAverage past ≤ largestAverage) {b : AppliedBlock} (hb : b.packSize ≤ maxBlockSize) :
    Exact (past ++ [b]) (next o b) := by
  right
  refine ⟨by simp, ?_⟩
  rcases h with ⟨rfl, rfl⟩ | ⟨hpast, r, rfl, hr, haverage⟩
  · exact ⟨_, rfl, ⟨le_rfl, by decide, by decide, by decide⟩, rfl⟩
  · rw [← haverage] at hle
    obtain ⟨r', hr', hbounds, hstep⟩ := onBlock_eq_some hr hle hb
    refine ⟨r', ?_, hbounds, ?_⟩
    · simp [next, hr']
    · rw [hstep, haverage, idealAverage_concat hpast]

/-- Above the largest average nothing is defined any more. -/
theorem next_eq_none {past : List AppliedBlock} {o : Option (Option ReserveRatioObject)} (h : Exact past o)
    (hlt : largestAverage < idealAverage past) (b : AppliedBlock) : next o b = none := by
  rcases h with ⟨rfl, -⟩ | ⟨-, r, rfl, -, haverage⟩
  · exact absurd hlt (by decide)
  · rw [← haverage] at hlt
    simp [next, onBlock, nextAverage_eq_none hlt]

/-- What is asked of a run: in every state everything that was computed is defined and within bounds, and every block
moves the average as over the integers. -/
def KeepsRatio (bs : List AppliedBlock) : Prop :=
  Traces.Along next (fun _ o => ∃ o', o = some o' ∧ ∀ r, o' = some r → InBounds r) (some none) bs ∧
    Traces.Each next (fun o b => ∀ r, o = some (some r) →
      ∃ r', next o b = some (some r') ∧ r'.averageBlockSize = (99 * r.averageBlockSize + b.packSize) / 100)
      (some none) bs

/-- Before no block is the average, over the integers, too large to be multiplied. -/
def AveragesSmall (bs : List AppliedBlock) : Prop :=
  ∀ past b, past ++ [b] <+: bs → idealAverage past ≤ largestAverage

variable {bs : List AppliedBlock}

theorem exact_of_averagesSmall (hsize : ∀ b ∈ bs, b.packSize ≤ maxBlockSize) (h : AveragesSmall bs)
    {past : List AppliedBlock} (hpast : past <+: bs) : Exact past (Traces.run next (some none) past) := by
  induction past using List.reverseRecOn with
  | nil => exact .inl ⟨rfl, rfl⟩
  | append_singleton past b ih =>
    rw [Traces.run_concat]
    have hexact := ih ((List.prefix_append past [b]).trans hpast)
    exact next_exact hexact (h past b hpast) (hsize b (hpast.subset (by simp)))

theorem exact_of_keepsRatio (hsize : ∀ b ∈ bs, b.packSize ≤ maxBlockSize) (h : KeepsRatio bs)
    {past : List AppliedBlock} (hpast : past <+: bs) : Exact past (Traces.run next (some none) past) := by
  induction past using List.reverseRecOn with
  | nil => exact .inl ⟨rfl, rfl⟩
  | append_singleton past b ih =>
    have hexact := ih ((List.prefix_append past [b]).trans hpast)
    rw [Traces.run_concat]
    by_cases hle : idealAverage past ≤ largestAverage
    · exact next_exact hexact hle (hsize b (hpast.subset (by simp)))
    · obtain ⟨o', ho', -⟩ := h.1 _ hpast
      rw [Traces.run_concat, next_eq_none hexact (not_le.mp hle) b] at ho'
      exact absurd ho' (by simp)

/-- **The arithmetic of the reserve ratio is right in exactly the runs in which the average stays small enough** to be
multiplied by 99 in 32 bits. -/
theorem reserve_ratio_arithmetic_iff (bs : List AppliedBlock) (hsize : ∀ b ∈ bs, b.packSize ≤ maxBlockSize) :
    KeepsRatio bs ↔ AveragesSmall bs := by
  constructor
  · intro h past b hpast
    have hexact := exact_of_keepsRatio hsize h ((List.prefix_append past [b]).trans hpast)
    by_contra hle
    obtain ⟨o', ho', -⟩ := h.1 _ hpast
    rw [Traces.run_concat, next_eq_none hexact (not_le.mp hle) b] at ho'
    exact absurd ho' (by simp)
  · intro h
    refine ⟨fun past hpast => ?_, fun past b hpast r hr => ?_⟩
    · rcases exact_of_averagesSmall hsize h hpast with ⟨-, ho⟩ | ⟨-, r, ho, hr, -⟩
      · exact ⟨none, ho, by simp⟩
      · exact ⟨some r, ho, by simpa using hr⟩
    · have hexact := exact_of_averagesSmall hsize h ((List.prefix_append past [b]).trans hpast)
      rw [hr] at hexact ⊢
      rcases hexact with ⟨-, ho⟩ | ⟨hne, r₀, ho, hbounds, haverage⟩
      · exact absurd ho (by simp)
      · obtain rfl : r = r₀ := by simpa using ho
        have hle := h past b hpast
        rw [← haverage] at hle
        obtain ⟨r', hr', -, hstep⟩ := onBlock_eq_some hbounds hle (hsize b (hpast.subset (by simp)))
        exact ⟨r', by simp [next, hr'], hstep⟩

/-- Blocks of 21691754 bytes at most never make the average too large. -/
theorem averagesSmall_of_small (hsmall : ∀ b ∈ bs, (b.packSize : Int) ≤ largestAverage) : AveragesSmall bs := by
  intro past b hpast
  replace hsmall : ∀ b ∈ past, (b.packSize : Int) ≤ largestAverage :=
    fun c hc => hsmall c (hpast.subset (by simp [hc]))
  clear hpast
  induction past using List.reverseRecOn with
  | nil => decide
  | append_singleton past c ih =>
    by_cases hpast : past = []
    · simp [hpast, idealAverage, largestAverage]
    · have hle := ih fun d hd => hsmall d (by simp [hd])
      have hc := hsmall c (by simp)
      rw [idealAverage_concat hpast]
      unfold largestAverage at *
      omega

/-- **Three full blocks are too much.**  After the first of them the average is 13337886, after the second 26542393, and
99 times that does not fit into an `int`. -/
theorem full_blocks_overflow :
    (∀ b ∈ [1, 2, 3, 4].map (AppliedBlock.mk · maxBlockSize), b.packSize ≤ maxBlockSize) ∧
      ¬ KeepsRatio ([1, 2, 3, 4].map (AppliedBlock.mk · maxBlockSize)) := by
  refine ⟨by decide, ?_⟩
  rintro ⟨halong, -⟩
  obtain ⟨o', ho', -⟩ := halong _ List.prefix_rfl
  have hnone : Traces.run next (some none) ([1, 2, 3, 4].map (AppliedBlock.mk · maxBlockSize)) = none := by
    decide +kernel
  rw [hnone] at ho'
  exact absurd ho' (by simp)

theorem reserve_ratio_arithmetic_quiet : KeepsRatio [⟨1, 200⟩, ⟨2, 115000⟩, ⟨20, 300⟩] :=
  (reserve_ratio_arithmetic_iff _ (by decide)).mpr (averagesSmall_of_small (by decide))

end Sigmaengine.BobserverPlugin
