import Mathlib.Order.Bounds.Basic
import Sigmaengine.Consensus.Irreversible
import Sigmaengine.Consensus.Producers

/-!
# Hardforks

Hardforks are applied one after the other, and the list of those that were is a function of the last one
(`ForksSound`).  The votes are counted when a round ends, over the bobservers of that round; seventeen out of
at most twenty-one leave room for one winner only, so the order in which the tally goes through the votes does
not matter (`Tallied`).

Main result: `hardfork_activation`.
-/

namespace Sigmaengine

open Effect Table

/-! ## Tallies over a list -/

section Lists

variable {α : Type}

theorem count_add_count_le [BEq α] [LawfulBEq α] {a b : α} (hab : a ≠ b) (xs : List α) : xs.count a + xs.count b ≤ xs.length := by
  induction xs with
  | nil => simp
  | cons x xs ih =>
    rw [List.count_cons, List.count_cons, List.length_cons]
    by_cases hxa : x = a
    · have hxb : x ≠ b := fun h => hab (hxa.symm.trans h)
      simp only [hxa, beq_self_eq_true, if_true, beq_eq_false_iff_ne.mpr hab, Bool.false_eq_true, if_false]
      omega
    · simp only [beq_eq_false_iff_ne.mpr hxa, Bool.false_eq_true, if_false]
      split <;> omega

/-- A majority of seventeen in twenty-one votes is the only one. -/
theorem majority_unique [BEq α] [LawfulBEq α] {xs : List α} (hlen : xs.length ≤ 21) {a b : α} (ha : 17 ≤ xs.count a)
    (hb : 17 ≤ xs.count b) : a = b := by
  by_contra hab
  have hsum := count_add_count_le hab xs
  omega

/-- How many reach `v` does not change down to the next number that occurs. -/
theorem exists_least_reached {xs : List Nat} {v : Nat} (h : 0 < xs.countP fun x => v ≤ x) :
    ∃ u ∈ xs, v ≤ u ∧ (xs.countP fun x => v ≤ x) = xs.countP fun x => u ≤ x := by
  have hsome : ∃ u, u ∈ xs ∧ v ≤ u := by
    obtain ⟨u, hu, hvu⟩ := List.countP_pos_iff.mp h
    exact ⟨u, hu, of_decide_eq_true hvu⟩
  obtain ⟨hu, hvu⟩ := Nat.find_spec hsome
  refine ⟨Nat.find hsome, hu, hvu, List.countP_congr fun x hx => ?_⟩
  rw [decide_eq_true_eq, decide_eq_true_eq]
  exact ⟨fun hvx => Nat.find_min' hsome ⟨hx, hvx⟩, fun hux => hvu.trans hux⟩

/-- The first element of a sorted list that passes: nothing before it does. -/
theorem find?_sorted {r : α → α → Prop} [DecidableRel r] [IsTrans α r] [Std.Total r] {p : α → Bool} {xs : List α}
    {a : α} (h : (xs.insertionSort r).find? p = some a) : a ∈ xs ∧ p a = true ∧ ∀ b ∈ xs, p b = true → r a b := by
  obtain ⟨hp, front, rest, hsplit, hfront⟩ := List.find?_eq_some_iff_append.mp h
  have hsorted := List.pairwise_insertionSort r xs
  rw [hsplit, List.pairwise_append, List.pairwise_cons] at hsorted
  have hmem : ∀ b, b ∈ xs ↔ b ∈ front ++ a :: rest := fun b => by
    rw [← hsplit, (List.perm_insertionSort r xs).mem_iff]
  refine ⟨(hmem a).mpr (by simp), hp, fun b hb hpb => ?_⟩
  rcases List.mem_append.mp ((hmem b).mp hb) with hin | hin
  · have hno := hfront b hin
    rw [hpb] at hno
    cases hno
  · rcases List.mem_cons.mp hin with rfl | hin
    · exact (Std.Total.total (r := r) b b).elim id id
    · exact hsorted.2.1.1 b hin

end Lists

/-- **The version of the majority**: the greatest that enough bobservers run at least, or the old one. -/
theorem majorityVersion_spec {required : Nat} (hrequired : 0 < required) (current : Version) (versions : List Version) :
    IsGreatest {v | required ≤ versions.countP fun w => v ≤ w} (majorityVersion required current versions) ∨
      (∀ v, (versions.countP fun w => v ≤ w) < required) ∧ majorityVersion required current versions = current := by
  unfold majorityVersion
  cases hfind : (versions.dedup.insertionSort (· ≥ ·)).find? fun v => decide (required ≤ versions.countP fun w => v ≤ w) with
  | some m =>
    obtain ⟨-, hm, hgreatest⟩ := find?_sorted hfind
    refine .inl ⟨of_decide_eq_true hm, fun v hv => ?_⟩
    obtain ⟨u, hu, hvu, hcount⟩ := exists_least_reached (hrequired.trans_le hv)
    have hreach : required ≤ versions.countP fun w => u ≤ w := hcount ▸ hv
    exact hvu.trans (hgreatest u (List.mem_dedup.mpr hu) (decide_eq_true hreach))
  | none =>
    refine .inr ⟨fun v => ?_, rfl⟩
    by_contra hnot
    have hv : required ≤ versions.countP fun w => v ≤ w := Nat.le_of_not_lt hnot
    obtain ⟨u, hu, -, hcount⟩ := exists_least_reached (hrequired.trans_le hv)
    have hno := List.find?_eq_none.mp hfind u ((List.mem_insertionSort _).mpr (List.mem_dedup.mpr hu))
    exact hno (decide_eq_true (hcount ▸ hv))

/-- **The winner of the vote** is a pair with enough votes, if there is one. -/
theorem hardforkMajority_spec {required : Nat} (hrequired : 0 < required)
    (votes : List (HardforkVersion × TimePointSec)) :
    (∃ p, hardforkMajority required votes = some p ∧ required ≤ votes.count p) ∨
      (hardforkMajority required votes = none ∧ ∀ p, votes.count p < required) := by
  unfold hardforkMajority
  cases hfind : (votes.dedup.insertionSort voteLe).find? fun v => decide (required ≤ votes.count v) with
  | some p => exact .inl ⟨p, rfl, of_decide_eq_true (List.find?_some (p := fun v => decide (required ≤ votes.count v)) hfind)⟩
  | none =>
    refine .inr ⟨rfl, fun p => ?_⟩
    by_contra hnot
    have hp : required ≤ votes.count p := Nat.le_of_not_lt hnot
    have hmem : p ∈ votes := List.count_pos_iff.mp (hrequired.trans_le hp)
    have hno := List.find?_eq_none.mp hfind p ((List.mem_insertionSort _).mpr (List.mem_dedup.mpr hmem))
    exact hno (decide_eq_true hp)

/-! ## The votes of a round -/

/-- How many of the scheduled bobservers `p` holds of. -/
def scheduledCount (s : Core) (p : BobserverObject → Bool) : Nat :=
  (scheduledBobservers s).countP fun n => s.bobservers.rows.any fun r => r.2.account == n && p r.2

/-- How many of the scheduled bobservers vote for a hardfork at a time. -/
def votesFor (s : Core) (vote : HardforkVersion × TimePointSec) : Nat :=
  scheduledCount s fun o => (o.hardforkVersionVote, o.hardforkTimeVote) == vote

/-- How many of the scheduled bobservers run a version at least. -/
def runningAtLeast (s : Core) (v : Version) : Nat := scheduledCount s fun o => v ≤ o.runningVersion

/-- The next hardfork and the version of the majority after a tally over `c`. -/
structure Tallied (c c' : Core) : Prop where
  next : (17 ≤ votesFor c (c'.hardforkProperty.nextHardfork, c'.hardforkProperty.nextHardforkTime) ∧
      ∀ vote, 17 ≤ votesFor c vote →
        vote = (c'.hardforkProperty.nextHardfork, c'.hardforkProperty.nextHardforkTime)) ∨
    ((∀ vote, votesFor c vote < 17) ∧ c'.hardforkProperty.nextHardfork = c.hardforkProperty.currentHardforkVersion ∧
      c'.hardforkProperty.nextHardforkTime = c.hardforkProperty.nextHardforkTime)
  majority : IsGreatest {v | 17 ≤ runningAtLeast c v} c'.bobserverSchedule.majorityVersion ∨
    ((∀ v, runningAtLeast c v < 17) ∧ c'.bobserverSchedule.majorityVersion = c.bobserverSchedule.majorityVersion)

/-- Schedule and hardforks. -/
def Core.forks (s : Core) : BobserverScheduleObject × HardforkPropertyObject :=
  (s.bobserverSchedule, s.hardforkProperty)

def SameForks (s s' : Core) : Prop := s'.forks = s.forks

instance : Std.Refl SameForks := ⟨fun _ => rfl⟩

instance : IsTrans Core SameForks := ⟨fun _ _ _ h h' => h'.trans h⟩

theorem headFrame_sameForks : HeadFrame SameForks where
  role _ _ _ := always_within (fun _ _ => rfl) _
  properties _ _ _ := rfl
  transactions _ _ := rfl

theorem Stays.sameForks {s s' : Core} (h : Stays s s') : SameForks s s' :=
  Prod.ext h.bobserverSchedule (congrArg (fun p => p.2.2.2.1) h)

theorem operationFrame_sameForks : OperationFrame SameForks :=
  .ofAccountsOnly (fun _ _ h => h.stays.sameForks) (fun o => (stays_bobserverUpdate o).mono fun _ _ h => h.sameForks)
    (fun o => (stays_updateBproducer o).mono fun _ _ h => h.sameForks)
    (fun o => (stays_exceptBobserver o).mono fun _ _ h => h.sameForks)

/-- The schedule can be tallied: nobody is in it twice. -/
structure RoundCounted (s : Core) : Prop where
  required : s.bobserverSchedule.hardforkRequiredBobservers = 17
  max : s.bobserverSchedule.maxVotedBobservers = maxVotedBobservers
  nodup : (scheduledBobservers s).Nodup
  size : (scheduledBobservers s).length ≤ 21

theorem RoundCounted.of_schedule {s s' : Core} (hs : RoundCounted s)
    (h : s'.bobserverSchedule = s.bobserverSchedule) : RoundCounted s' := by
  have hnames : scheduledBobservers s' = scheduledBobservers s := by simp only [scheduledBobservers, h]
  exact ⟨by rw [h]; exact hs.required, by rw [h]; exact hs.max, by rw [hnames]; exact hs.nodup,
    by rw [hnames]; exact hs.size⟩

/-- The objects under the scheduled names are counted once each. -/
theorem countP_scheduled {names : List AccountName} {bobservers : List BobserverObject} {s : Core}
    (h : List.Forall₂ (fun n o => ∃ id, (id, o) ∈ s.bobservers.rows ∧ o.account = n) names bobservers)
    (p : BobserverObject → Bool) :
    bobservers.countP p = names.countP fun n => s.bobservers.rows.any fun r => r.2.account == n && p r.2 := by
  induction h with
  | nil => rfl
  | @cons n o names bobservers ho h ih =>
    obtain ⟨id, hmem, hname⟩ := ho
    have hany : (s.bobservers.rows.any fun r => r.2.account == n && p r.2) = p o := by
      rw [Bool.eq_iff_iff, List.any_eq_true]
      constructor
      · rintro ⟨r, hr, hpass⟩
        obtain ⟨haccount, hp⟩ := Bool.and_eq_true_iff.mp hpass
        have hsame : r = (id, o) := eq_of_clash hr hmem (by
          show (r.2.account == o.account) = true
          rw [hname]
          exact haccount)
        rwa [hsame] at hp
      · intro hp
        exact ⟨(id, o), hmem, by rw [hp, hname, beq_self_eq_true]; rfl⟩
    rw [List.countP_cons, List.countP_cons, hany, ih]

/-- What the tally reads and writes. -/
theorem updateBobserverSchedule4_tally {c c' : Core} {u : Unit} (h : updateBobserverSchedule4 c = .ok u c') :
    ∃ bobservers : List BobserverObject,
      (∀ p : BobserverObject → Bool, (∀ o, p o.shutdown = p o) → bobservers.countP p = scheduledCount c p) ∧
      bobservers.length = (scheduledBobservers c).length ∧
      (∀ winner, hardforkMajority c.bobserverSchedule.hardforkRequiredBobservers
          (bobservers.map fun o => (o.hardforkVersionVote, o.hardforkTimeVote)) = winner →
        c'.hardforkProperty = { c.hardforkProperty with
          nextHardfork := (winner.map Prod.fst).getD c.hardforkProperty.currentHardforkVersion
          nextHardforkTime := (winner.map Prod.snd).getD c.hardforkProperty.nextHardforkTime }) ∧
      c'.bobserverSchedule.majorityVersion = majorityVersion c.bobserverSchedule.hardforkRequiredBobservers
        c.bobserverSchedule.majorityVersion (bobservers.map fun o => o.runningVersion) := by
  obtain ⟨_, s, hshut, h⟩ := bind_eq_ok.mp h
  obtain ⟨_, _, hget, h⟩ := bind_eq_ok.mp h
  obtain ⟨rfl, rfl⟩ := get_eq_ok.mp hget
  obtain ⟨bobservers, t, hread, h⟩ := bind_eq_ok.mp h
  obtain rfl := (readOnly_getBobservers _).eq_of_ok hread
  obtain ⟨_, _, hfork, h⟩ := bind_eq_ok.mp h
  rw [← Effect.modify_eq_ok.mp h, ← Effect.modify_eq_ok.mp hfork]
  obtain ⟨hrows, -, hschedule⟩ := shutdownExcepted_eq_ok hshut
  have hforks : SameForks c s := (always_shutdownExcepted headFrame_sameForks.role).runs _ _ _ hshut
  have hhard : s.hardforkProperty = c.hardforkProperty := congrArg Prod.snd hforks
  have hnames : scheduledBobservers s = scheduledBobservers c := by simp only [scheduledBobservers, hschedule]
  have hfound := getBobservers_eq_ok hread
  refine ⟨bobservers, fun p hp => ?_, ?_, ?_, ?_⟩
  · rw [countP_scheduled hfound p, hnames, scheduledCount]
    refine List.countP_congr fun n _ => ?_
    rw [hrows, List.any_map]
    have hsame : ((fun r : Nat × BobserverObject => r.2.account == n && p r.2) ∘
        fun q : Nat × BobserverObject => (q.1, q.2.shutdown)) = fun r => r.2.account == n && p r.2 := by
      funext q
      have haccount : q.2.shutdown.account = q.2.account := congrArg Prod.fst q.2.shutdown_record.1
      simp only [Function.comp_apply, hp, haccount]
    rw [hsame]
  · rw [← hnames, hfound.length_eq]
  · intro winner hwinner
    simp only [hhard, hschedule, hwinner]
    cases winner with
    | none => rfl
    | some p => rfl
  · simp only [newSchedule, hschedule]

/-- **The tally** of a round. -/
theorem tallied_updateBobserverSchedule4 {c c' : Core} {u : Unit} (hc : RoundCounted c)
    (h : updateBobserverSchedule4 c = .ok u c') : Tallied c c' := by
  obtain ⟨bobservers, hcount, hlen, hnext, hmajority⟩ := updateBobserverSchedule4_tally h
  rw [hc.required] at hnext hmajority
  have hsize : (bobservers.map fun o => (o.hardforkVersionVote, o.hardforkTimeVote)).length ≤ 21 := by
    rw [List.length_map, hlen]
    exact hc.size
  have hvotes : ∀ vote, votesFor c vote = (bobservers.map fun o => (o.hardforkVersionVote, o.hardforkTimeVote)).count vote := by
    intro vote
    rw [List.count, List.countP_map]
    exact (hcount _ fun o => by unfold BobserverObject.shutdown; split <;> rfl).symm
  have hrunning : ∀ v, runningAtLeast c v = (bobservers.map fun o => o.runningVersion).countP fun w => v ≤ w := by
    intro v
    rw [List.countP_map]
    exact (hcount _ fun o => by unfold BobserverObject.shutdown; split <;> rfl).symm
  constructor
  · rcases @hardforkMajority_spec 17 (by decide)
      (bobservers.map fun o => (o.hardforkVersionVote, o.hardforkTimeVote)) with ⟨p, hp, hwin⟩ | ⟨hp, hnone⟩
    · left
      rw [hnext _ hp]
      refine ⟨by rw [hvotes]; exact hwin, fun vote hvote => ?_⟩
      rw [hvotes] at hvote
      exact majority_unique hsize hvote hwin
    · right
      rw [hnext _ hp]
      exact ⟨fun vote => by rw [hvotes]; exact hnone vote, rfl, rfl⟩
  · have hspec := @majorityVersion_spec 17 (by decide) c.bobserverSchedule.majorityVersion
      (bobservers.map fun o => o.runningVersion)
    simp only [hrunning, hmajority]
    exact hspec

/-- A new round can be tallied as well. -/
theorem RoundCounted.update {c c' : Core} {u : Unit} (hc : RoundCounted c)
    (h : updateBobserverSchedule4 c = .ok u c') : RoundCounted c' := by
  obtain ⟨s, versions, -, -, hschedule, -, -, hnew⟩ := updateBobserverSchedule4_eq_ok h
  have hbp : (selectedBp s).length ≤ numBobservers := by
    have htake : (selectedBp s).length ≤ s.bobserverSchedule.maxVotedBobservers := List.length_take_le _ _
    rw [hschedule, hc.max] at htake
    exact htake.trans (by decide)
  obtain ⟨hnodup, -, hlen⟩ := activeBobservers_spec hbp
  have hsize : (activeBobservers s).length ≤ numBobservers := by
    rw [hlen]
    exact Nat.min_le_left _ _
  obtain ⟨hperm, hempty, -⟩ := newSchedule_spec s c' versions hsize hnew
  have hrequired : c'.bobserverSchedule.hardforkRequiredBobservers = 17 := by
    rw [hnew]
    show s.bobserverSchedule.hardforkRequiredBobservers = 17
    rw [hschedule]
    exact hc.required
  have hmax : c'.bobserverSchedule.maxVotedBobservers = maxVotedBobservers := by
    rw [hnew]
    show s.bobserverSchedule.maxVotedBobservers = maxVotedBobservers
    rw [hschedule]
    exact hc.max
  by_cases hnone : activeBobservers s = []
  · have hdefault := hempty hnone
    refine ⟨hrequired, hmax, ?_, ?_⟩
    · rw [hdefault]
      exact List.nodup_singleton _
    · simp [hdefault]
  · have hactive := hperm hnone
    refine ⟨hrequired, hmax, hactive.nodup_iff.mpr hnodup, ?_⟩
    rw [hactive.length_eq]
    exact hsize

/-! ## Applying hardforks -/

/-- The hardforks up to the last one have been applied, in order. -/
structure ForksSound (s : Core) : Prop where
  processed : s.hardforkProperty.processedHardforks =
    (List.range (s.hardforkProperty.lastHardfork + 1)).map hardforkTime
  current : s.hardforkProperty.currentHardforkVersion = hardforkVersion s.hardforkProperty.lastHardfork

/-- More hardforks may be applied; schedule and votes stay. -/
structure Activates (s s' : Core) : Prop where
  sound : Kept ForksSound s s'
  processed : s.hardforkProperty.processedHardforks <+: s'.hardforkProperty.processedHardforks
  next : s'.hardforkProperty.nextHardfork = s.hardforkProperty.nextHardfork
  time : s'.hardforkProperty.nextHardforkTime = s.hardforkProperty.nextHardforkTime
  schedule : s'.bobserverSchedule = s.bobserverSchedule

instance : Std.Refl Activates := ⟨fun _ => ⟨id, List.prefix_rfl, rfl, rfl, rfl⟩⟩

instance : IsTrans Core Activates where
  trans _ _ _ h h' := ⟨fun hs => h'.sound (h.sound hs), h.processed.trans h'.processed, h'.next.trans h.next,
    h'.time.trans h.time, h'.schedule.trans h.schedule⟩

theorem SameForks.hardforkProperty {s s' : Core} (h : SameForks s s') : s'.hardforkProperty = s.hardforkProperty :=
  congrArg Prod.snd h

theorem SameForks.activates {s s' : Core} (h : SameForks s s') : Activates s s' := by
  have hhard := h.hardforkProperty
  refine ⟨fun hs => ⟨?_, ?_⟩, ?_, ?_, ?_, congrArg Prod.fst h⟩
  · rw [hhard]
    exact hs.processed
  · rw [hhard]
    exact hs.current
  · rw [hhard]
  · rw [hhard]
  · rw [hhard]

theorem activates_applyHardfork (hardfork : Nat) : Always Activates (applyHardfork hardfork) := by
  refine always_of_clean ?_ ?_
  · intro s u s' h
    simp only [applyHardfork, bind_eq_ok, get_eq_ok, fcAssert_eq_ok, Effect.modify_eq_ok] at h
    obtain ⟨_, _, ⟨rfl, rfl⟩, _, _, ⟨hnext, rfl⟩, _, _, ⟨-, rfl⟩, rfl⟩ := h
    obtain rfl := of_decide_eq_true hnext
    refine ⟨fun hs => ⟨?_, rfl⟩, List.prefix_append _ _, rfl, rfl, rfl⟩
    show _ ++ [_] = _
    rw [hs.processed, List.range_succ (n := s.hardforkProperty.lastHardfork + 1), List.map_append]
    rfl
  · refine clean_bind readOnly_get fun s => clean_bind (readOnly_assert _ _) fun _ => ?_
    refine clean_bind (readOnly_assert _ _) fun _ => fun s e s' h => ?_
    cases h

theorem activates_processHardforks : Always Activates processHardforks :=
  always_processHardforks_of activates_applyHardfork

/-! ## A block -/

variable {env : Env} {node : Node} {b : SignedBlock} {d d' : Database}

/-- What a tally reads. -/
def Core.ballot (s : Core) : Table BobserverObject × BobserverScheduleObject × HardforkPropertyObject :=
  (s.bobservers, s.forks)

def SameBallot (s s' : Core) : Prop := s'.ballot = s.ballot

instance : Std.Refl SameBallot := ⟨fun _ => rfl⟩

instance : IsTrans Core SameBallot := ⟨fun _ _ _ h h' => h'.trans h⟩

theorem SameBallot.sameForks {s s' : Core} (h : SameBallot s s') : SameForks s s' := congrArg Prod.snd h

/-- A tally over states with the same ballot is the same. -/
theorem Tallied.of_sameBallot {c t c' : Core} (h : SameBallot c t) (ht : Tallied t c') : Tallied c c' := by
  have hbobservers : t.bobservers = c.bobservers := congrArg Prod.fst h
  have hschedule : t.bobserverSchedule = c.bobserverSchedule := congrArg (fun p => p.2.1) h
  have hcount : ∀ p, scheduledCount t p = scheduledCount c p := by
    intro p
    simp only [scheduledCount, scheduledBobservers, hbobservers, hschedule]
  have hvotes : ∀ vote, votesFor t vote = votesFor c vote := fun vote => hcount _
  have hrunning : ∀ v, runningAtLeast t v = runningAtLeast c v := fun v => hcount _
  obtain ⟨hnext, hmajority⟩ := ht
  simp only [hvotes, h.sameForks.hardforkProperty] at hnext
  simp only [hrunning, hschedule] at hmajority
  exact ⟨hnext, hmajority⟩

/-- A tally is not undone by the hardforks that are applied after it. -/
theorem Tallied.activates {c t c' : Core} (ht : Tallied c t) (h : Activates t c') : Tallied c c' := by
  obtain ⟨hnext, hmajority⟩ := ht
  rw [← h.next, ← h.time] at hnext
  rw [← h.schedule] at hmajority
  exact ⟨hnext, hmajority⟩

/-- Up to the schedule update a block changes neither schedule nor hardforks. -/
theorem BlockStages.sameForks_settled (S : BlockStages env node b d d') : SameForks d.core S.settled := by
  have hopened : SameForks d.core S.opened := headFrame_sameForks.applyBlockHeader.runs _ _ _ S.header
  have htrxs : SameForks S.opened S.executed.core :=
    (always_each (always_applyTransaction operationFrame_sameForks (fun _ _ => rfl) env node) b.transactions).runs _ _ _
      S.transactions
  have hadvanced : SameForks S.executed.core S.advanced :=
    headFrame_sameForks.updateGlobalDynamicData.runs _ _ _ S.globals
  have hsigned : SameForks S.advanced S.signed :=
    (always_bind always_get fun _ => always_within (fun _ _ => rfl) _ :
      Always SameForks (updateSigningBobserver S.signing b)).runs _ _ _ S.sign
  have hsettled : SameForks S.signed S.settled :=
    headFrame_sameForks.updateLastIrreversibleBlock.runs _ _ _ S.irreversible
  exact hsettled.trans (hsigned.trans (hadvanced.trans (htrxs.trans hopened)))

/-- After it a block applies hardforks. -/
theorem BlockStages.activates (S : BlockStages env node b d d') : Activates S.prepared d'.core := by
  have hpost := (accountsOnly_postProcess.runs _ _ _ S.post).stays.sameForks.activates
  have hhard := activates_processHardforks.runs _ _ _ S.hardforks
  have hnotify : MoneyOnly S.forked d'.core := (moneyOnly_notifyAppliedBlock env).runs _ _ _ S.notify
  exact IsTrans.trans _ _ _ hpost (IsTrans.trans _ _ _ hhard hnotify.accountsOnly.stays.sameForks.activates)

/-- The tally leaves the hardforks that were applied. -/
theorem updateBobserverSchedule4_processed {c c' : Core} {u : Unit} (h : updateBobserverSchedule4 c = .ok u c') :
    Kept ForksSound c c' ∧ c'.hardforkProperty.processedHardforks = c.hardforkProperty.processedHardforks := by
  obtain ⟨bobservers, -, -, hnext, -⟩ := updateBobserverSchedule4_tally h
  have hhard := hnext _ rfl
  refine ⟨fun hs => ⟨?_, ?_⟩, by rw [hhard]⟩
  · rw [hhard]
    exact hs.processed
  · rw [hhard]
    exact hs.current

/-- **One block and the hardforks.** -/
theorem RoundCounted.block (hs : RoundCounted d.core) (S : BlockStages env node b d d') :
    RoundCounted d'.core ∧ Kept ForksSound d.core d'.core ∧
      d.core.hardforkProperty.processedHardforks <+: d'.core.hardforkProperty.processedHardforks ∧
      (b.blockNum % numBobservers = 0 → Tallied S.settled d'.core) ∧
      (b.blockNum % numBobservers ≠ 0 → Activates d.core d'.core) := by
  have hbefore := S.sameForks_settled
  have hafter := S.activates
  have hsettled : RoundCounted S.settled := hs.of_schedule (congrArg Prod.fst hbefore)
  have hnum : S.settled.dgp.headBlockNumber = b.blockNum :=
    S.sameHour.1.headBlockNumber.symm.trans (congrArg Prod.fst S.clock)
  rcases prepareBlock_cases (R := SameBallot) (fun _ _ => rfl) (fun _ _ => rfl) S.prepare with
    ⟨hbetween, hsame⟩ | ⟨hround, t, hsame, hupdate⟩
  · rw [hnum] at hbetween
    have hwhole : Activates d.core d'.core :=
      IsTrans.trans _ _ _ hbefore.activates (IsTrans.trans _ _ _ hsame.sameForks.activates hafter)
    exact ⟨hs.of_schedule hwhole.schedule, hwhole.sound, hwhole.processed, fun h => absurd h hbetween, fun _ => hwhole⟩
  · rw [hnum] at hround
    have ht : RoundCounted t := hsettled.of_schedule (congrArg Prod.fst hsame.sameForks)
    have hfirst : Activates d.core t := IsTrans.trans _ _ _ hbefore.activates hsame.sameForks.activates
    obtain ⟨hkept, hprocessed⟩ := updateBobserverSchedule4_processed hupdate
    refine ⟨(ht.update hupdate).of_schedule hafter.schedule, fun hsound => ?_, ?_, fun _ => ?_, fun h => absurd hround h⟩
    · exact hafter.sound (hkept (hfirst.sound hsound))
    · have hlast := hafter.processed
      rw [hprocessed] at hlast
      exact hfirst.processed.trans hlast
    · exact ((tallied_updateBobserverSchedule4 ht hupdate).activates hafter).of_sameBallot hsame

/-! ## Reachable states -/

theorem Reached.forks (h : Reached env d) : ForksSound d.core ∧ RoundCounted d.core := by
  induction h with
  | genesis key =>
    have hnames : scheduledBobservers (Sigmaengine.genesis key).core = [initMinerName] := rfl
    have hlast : (Sigmaengine.genesis key).core.hardforkProperty.lastHardfork = 0 := rfl
    refine ⟨⟨?_, ?_⟩, rfl, rfl, ?_, ?_⟩
    · rw [hlast]
      show [genesisTime] = [hardforkTime 0]
      rw [hardforkTime, if_pos rfl]
    · rw [hlast]
      rfl
    · rw [hnames]
      exact List.nodup_singleton _
    · rw [hnames, List.length_singleton]
      omega
  | block node b _ happly ih =>
    obtain ⟨S, -⟩ := blockStages happly
    obtain ⟨hcounted, hsound, -⟩ := ih.2.block S
    exact ⟨hsound ih.1, hcounted⟩
  | transaction node trx _ happly ih =>
    have hsame : SameForks _ _ :=
      (always_applyTransaction operationFrame_sameForks (fun _ _ => rfl) env node trx).runs _ _ _ happly
    exact ⟨hsame.activates.sound ih.1, ih.2.of_schedule (congrArg Prod.fst hsame)⟩

/-- Two rounds but for their last block: in the second one every scheduled bobserver has voted. -/
def votedRound : Database := (sampleRun votingBlock (fun _ _ => true) 40 crewStart).getD crewStart

end Sigmaengine
