import Sigmaengine.Plugins.HistoryNumbers

/-!
# Tracked ranges of accounts

`on_operation` finds the range of an account with `lower_bound` and a step back.  In a map of ranges that do not meet it
is the only range the account can be in.
-/

namespace Sigmaengine.AccountHistoryPlugin

/-- The account is in the closed range. -/
def Within (range : AccountName × AccountName) (item : AccountName) : Prop := range.1 ≤ item ∧ item ≤ range.2

instance (range : AccountName × AccountName) (item : AccountName) : Decidable (Within range item) :=
  inferInstanceAs (Decidable (_ ∧ _))

/-- Closed ranges in the order of a `flat_map`, no two with an account in common. -/
structure DisjointRanges (ranges : List (AccountName × AccountName)) : Prop where
  sorted : ranges.Pairwise fun r r' => r.1 < r'.1
  closed : ∀ r ∈ ranges, r.1 ≤ r.2
  disjoint : ranges.Pairwise fun r r' => ∀ item, ¬ (Within r item ∧ Within r' item)

/-- The map is empty, or the account lies in one of its ranges. -/
def Tracking.Covers (cfg : Tracking) (item : AccountName) : Prop :=
  cfg.trackedAccounts = [] ∨ ∃ r ∈ cfg.trackedAccounts, Within r item

instance (cfg : Tracking) (item : AccountName) : Decidable (cfg.Covers item) := inferInstanceAs (Decidable (_ ∨ _))

/-! ## The lookup -/

section Lookup

variable {ranges : List (AccountName × AccountName)} {item : AccountName} {i j : Nat}
  {r r' : AccountName × AccountName}

/-- What `lower_bound` finds. -/
abbrev lowerIndex (ranges : List (AccountName × AccountName)) (item : AccountName) : Nat :=
  ranges.findIdx fun range => decide (item ≤ range.1)

/-- A range before what is found begins below the account. -/
theorem lt_of_lt_lowerIndex (hr : ranges[i]? = some r) (hi : i < lowerIndex ranges item) : r.1 < item := by
  obtain ⟨hlt, rfl⟩ := List.getElem?_eq_some_iff.mp hr
  have hnot := List.not_of_lt_findIdx hi
  simpa using hnot

/-- The range that is found does not. -/
theorem le_of_lowerIndex (hr : ranges[lowerIndex ranges item]? = some r) : item ≤ r.1 := by
  obtain ⟨hlt, rfl⟩ := List.getElem?_eq_some_iff.mp hr
  have hfound := List.findIdx_getElem (w := hlt)
  simpa using hfound

theorem DisjointRanges.first_lt (h : DisjointRanges ranges) (hr : ranges[i]? = some r) (hr' : ranges[j]? = some r')
    (hij : i < j) : r.1 < r'.1 := by
  obtain ⟨hi, rfl⟩ := List.getElem?_eq_some_iff.mp hr
  obtain ⟨hj, rfl⟩ := List.getElem?_eq_some_iff.mp hr'
  exact List.pairwise_iff_getElem.mp h.sorted i j hi hj hij

/-- A range ends before the next begins. -/
theorem DisjointRanges.second_lt (h : DisjointRanges ranges) (hr : ranges[i]? = some r) (hr' : ranges[j]? = some r')
    (hij : i < j) : r.2 < r'.1 := by
  have hfirst := h.first_lt hr hr' hij
  have hclosed := h.closed r' (List.mem_of_getElem? hr')
  obtain ⟨hi, rfl⟩ := List.getElem?_eq_some_iff.mp hr
  obtain ⟨hj, rfl⟩ := List.getElem?_eq_some_iff.mp hr'
  by_contra hle
  exact List.pairwise_iff_getElem.mp h.disjoint i j hi hj hij _
    ⟨⟨hfirst.le, not_lt.mp hle⟩, le_rfl, hclosed⟩

/-- A range that begins with the account is what is found. -/
theorem DisjointRanges.lowerIndex_of_first (h : DisjointRanges ranges) (hr : ranges[i]? = some r) (hfirst : r.1 = item) :
    lowerIndex ranges item = i := by
  have hle : lowerIndex ranges item ≤ i := by
    by_contra hlt
    exact absurd hfirst (lt_of_lt_lowerIndex hr (not_le.mp hlt)).ne
  rcases hle.lt_or_eq with hlt | heq
  · obtain ⟨hi, -⟩ := List.getElem?_eq_some_iff.mp hr
    have hfound := List.getElem?_eq_getElem (hlt.trans hi)
    have hbelow := h.first_lt hfound hr hlt
    exact absurd (le_of_lowerIndex hfound) (not_le.mpr (hfirst ▸ hbelow))
  · exact heq

/-- A range that begins below the account and holds it is the one before what is found. -/
theorem DisjointRanges.lowerIndex_of_within (h : DisjointRanges ranges) (hr : ranges[i]? = some r) (hfirst : r.1 < item)
    (hsecond : item ≤ r.2) :
    lowerIndex ranges item = i + 1 ∧ (ranges[lowerIndex ranges item]?).map Prod.fst ≠ some item := by
  obtain ⟨hi, -⟩ := List.getElem?_eq_some_iff.mp hr
  have hgt : i < lowerIndex ranges item := by
    by_contra hle
    rcases (not_lt.mp hle).lt_or_eq with hlt | heq
    · have hfound := List.getElem?_eq_getElem (hlt.trans hi)
      have hbelow := h.first_lt hfound hr hlt
      exact absurd (le_of_lowerIndex hfound) (not_le.mpr (hbelow.trans hfirst))
    · exact absurd (le_of_lowerIndex (heq ▸ hr)) (not_le.mpr hfirst)
  constructor
  · by_contra hne
    have hlt : i + 1 < lowerIndex ranges item := by omega
    have hlength : lowerIndex ranges item ≤ ranges.length := List.findIdx_le_length
    have hnext := List.getElem?_eq_getElem (show i + 1 < ranges.length by omega)
    have hbetween := h.second_lt hr hnext (Nat.lt_succ_self i)
    exact absurd (hsecond.trans_lt hbetween) (not_lt.mpr (lt_of_lt_lowerIndex hnext hlt).le)
  · intro hfound
    obtain ⟨r', hr', hexact⟩ := Option.map_eq_some_iff.mp hfound
    have hbetween := h.second_lt hr hr' hgt
    rw [hexact] at hbetween
    exact absurd hsecond (not_le.mpr hbetween)

end Lookup

/-- **The lookup** finds whether the account is in one of the ranges. -/
theorem isTracked_iff {cfg : Tracking} (h : DisjointRanges cfg.trackedAccounts) (item : AccountName) :
    cfg.isTracked item = true ↔ cfg.Covers item := by
  unfold Tracking.isTracked Tracking.Covers
  dsimp only
  rw [Bool.or_eq_true, List.isEmpty_iff]
  refine or_congr_right ⟨fun hfound => ?_, ?_⟩
  · split at hfound
    · next range hrange =>
      rw [Bool.and_eq_true, decide_eq_true_eq, decide_eq_true_eq] at hfound
      exact ⟨range, List.mem_of_getElem? hrange, hfound⟩
    · cases hfound
  · rintro ⟨r, hr, hfirst, hsecond⟩
    obtain ⟨i, hi⟩ := List.mem_iff_getElem?.mp hr
    rcases hfirst.lt_or_eq with hlt | heq
    · obtain ⟨hindex, hnot⟩ := h.lowerIndex_of_within hi hlt hsecond
      rw [hindex] at hnot
      rw [show cfg.trackedAccounts.findIdx _ = i + 1 from hindex, if_pos ⟨Nat.succ_ne_zero i, hnot⟩, Nat.add_sub_cancel, hi]
      simp [hfirst, hsecond]
    · have hexact : (cfg.trackedAccounts[i]?).map Prod.fst = some item := by rw [hi, Option.map_some, heq]
      rw [show cfg.trackedAccounts.findIdx _ = i from h.lowerIndex_of_first hi heq, if_neg fun hnot => hnot.2 hexact, hi]
      simp [hfirst, hsecond]

/-! ## The operation -/

/-- The loop passes over the accounts that are not tracked. -/
theorem onOperationLoop_filter (cfg : Tracking) (note : OperationNotification) (items : List AccountName)
    (newObj : Option Nat) (s : History) : onOperationLoop cfg note items newObj s =
      onOperationLoop { cfg with trackedAccounts := [] } note (items.filter cfg.isTracked) newObj s := by
  induction items generalizing newObj s with
  | nil => rfl
  | cons item rest ih =>
    have hall : ({ cfg with trackedAccounts := [] } : Tracking).isTracked item = true := rfl
    have hvisits : ({ cfg with trackedAccounts := [] } : Tracking).visits note = cfg.visits note := rfl
    by_cases htracked : cfg.isTracked item = true
    · rw [List.filter_cons, if_pos htracked, onOperationLoop, onOperationLoop, htracked, hall, hvisits]
      by_cases hvisit : cfg.visits note = true
      · simp only [hvisit, Bool.and_self, if_true]
        cases addEntry (withOperation note newObj s).1.history item note.which (withOperation note newObj s).2 with
        | none => rfl
        | some h => exact ih _ _
      · simp only [hvisit, Bool.and_false, Bool.false_eq_true, if_false]
        exact ih newObj s
    · rw [List.filter_cons, if_neg htracked, onOperationLoop, if_neg (by simp [htracked])]
      exact ih newObj s

/-- The loop does not look at the list of impacted accounts again. -/
theorem onOperationLoop_impacted (cfg : Tracking) (note : OperationNotification) (impacted items : List AccountName)
    (newObj : Option Nat) (s : History) :
    onOperationLoop cfg { note with impacted := impacted } items newObj s = onOperationLoop cfg note items newObj s := by
  induction items generalizing newObj s with
  | nil => rfl
  | cons item rest ih =>
    unfold onOperationLoop
    have hrest (newObj : Option Nat) (s : History) := ih newObj s
    simp only [hrest]
    rfl

/-- **Tracked ranges.**  An operation is recorded for its impacted accounts that lie in one of the ranges, as it would be
for all of them without ranges, and for no other. -/
theorem tracked_ranges (cfg : Tracking) (h : DisjointRanges cfg.trackedAccounts) (s : History)
    (note : OperationNotification) : (∀ item, cfg.isTracked item = true ↔ cfg.Covers item) ∧
      onOperation cfg s note = onOperation { cfg with trackedAccounts := [] } s
        { note with impacted := note.impacted.filter fun item => cfg.Covers item } := by
  refine ⟨isTracked_iff h, ?_⟩
  have hsame : note.impacted.filter cfg.isTracked = note.impacted.filter fun item => cfg.Covers item := by
    apply List.filter_congr
    intro item _
    rw [Bool.eq_iff_iff, isTracked_iff h, decide_eq_true_eq]
  unfold onOperation
  rw [onOperationLoop_filter, hsame]
  exact (onOperationLoop_impacted _ note _ _ none s).symm

/-- The ranges of the comment in the source. -/
def letters : Tracking where
  trackedAccounts :=
    [(.ofBytes (ascii ['a']), .ofBytes (ascii ['c'])), (.ofBytes (ascii ['g']), .ofBytes (ascii ['i']))]

/-- The account is in the first range, though `lower_bound` finds the second. -/
theorem tracked_ranges_bob : letters.isTracked (.ofBytes (ascii ['b', 'o', 'b'])) = true := by
  have hranges : DisjointRanges letters.trackedAccounts := by
    refine ⟨by decide +kernel, by decide +kernel, ?_⟩
    unfold letters
    rw [List.pairwise_pair]
    rintro item ⟨hfirst, hsecond⟩
    exact absurd (hsecond.1.trans hfirst.2) (by decide +kernel)
  have hcovers : letters.Covers (.ofBytes (ascii ['b', 'o', 'b'])) := by decide +kernel
  exact ((tracked_ranges letters hranges {} ⟨0, 0, 0, 0, 0, 0, 0, [], []⟩).1 _).mpr hcovers

end Sigmaengine.AccountHistoryPlugin
