import Mathlib.Data.List.Nodup
import Sigmaengine.Chain.Stages

/-!
# The schedule of a round

`update_bobserver_schedule4` on any state: both shuffles permute, the selection has no duplicates, contains
every block producer with a key and fills up to twenty-one, and the schedule that is written back holds
exactly the selection, unless the selection is empty.
-/

namespace Sigmaengine

open Effect Table

/-! ## Shuffling -/

section Shuffling

variable {α : Type}

theorem swapAt_perm (xs : List α) (i j : Nat) : (swapAt xs i j).Perm xs := by
  unfold swapAt
  split
  · rename_i a b ha hb
    obtain ⟨hi, rfl⟩ := List.getElem?_eq_some_iff.mp ha
    obtain ⟨hj, rfl⟩ := List.getElem?_eq_some_iff.mp hb
    exact List.set_set_perm hi hj
  · exact .refl _

theorem drop_swapAt (xs : List α) {i j n : Nat} (hi : i < n) (hj : j < n) :
    (swapAt xs i j).drop n = xs.drop n := by
  unfold swapAt
  split
  · rw [List.drop_set_of_lt hj, List.drop_set_of_lt hi]
  · rfl

theorem shuffleFrom_perm (nowHi : UInt64) (n left : Nat) (xs : List α) :
    (shuffleFrom nowHi n left xs).Perm xs := by
  induction left generalizing xs with
  | zero => exact .refl _
  | succ left ih => exact (ih _).trans (swapAt_perm xs _ _)

/-- A pass over the first `n` positions does not reach the others. -/
theorem drop_shuffleFrom (nowHi : UInt64) {n left : Nat} (hleft : left ≤ n) (xs : List α) :
    (shuffleFrom nowHi n left xs).drop n = xs.drop n := by
  induction left generalizing xs with
  | zero => rfl
  | succ left ih =>
    have hi : n - (left + 1) < n := by omega
    have hj : n - (left + 1) + (xorshift nowHi (n - (left + 1))).toNat % (n - (n - (left + 1))) < n := by
      have := Nat.mod_lt (xorshift nowHi (n - (left + 1))).toNat (show 0 < n - (n - (left + 1)) by omega)
      omega
    exact (ih (by omega) _).trans (drop_swapAt xs hi hj)

/-- **A shuffle permutes** its input, and only the first `n` positions of it. -/
theorem shuffle_perm (nowHi : UInt64) (n : Nat) (xs : List α) :
    (shuffle nowHi n xs).Perm xs ∧ ((shuffle nowHi n xs).take n).Perm (xs.take n) ∧
      (shuffle nowHi n xs).drop n = xs.drop n := by
  have hperm : (shuffle nowHi n xs).Perm xs := shuffleFrom_perm nowHi n n xs
  have hdrop : (shuffle nowHi n xs).drop n = xs.drop n := drop_shuffleFrom nowHi (Nat.le_refl n) xs
  refine ⟨hperm, ?_, hdrop⟩
  have hparts : ((shuffle nowHi n xs).take n ++ xs.drop n).Perm (xs.take n ++ xs.drop n) := by
    rw [← hdrop, List.take_append_drop, hdrop, List.take_append_drop]
    exact hperm
  exact (List.perm_append_right_iff _).mp hparts

/-- Distinct positions of a list without duplicates give distinct elements, one for each. -/
theorem draw_spec {xs : List α} (hxs : xs.Nodup) {js : List Nat} (hjs : js.Nodup)
    (hlt : ∀ j ∈ js, j < xs.length) :
    (js.filterMap fun j => xs[j]?).Nodup ∧ (js.filterMap fun j => xs[j]?).length = js.length ∧
      ∀ x ∈ js.filterMap fun j => xs[j]?, x ∈ xs := by
  refine ⟨hjs.filterMap fun j k x hj hk => ?_, ?_, fun x hx => ?_⟩
  · obtain ⟨hj', rfl⟩ := List.getElem?_eq_some_iff.mp hj
    obtain ⟨hk', heq⟩ := List.getElem?_eq_some_iff.mp hk
    exact (hxs.getElem_inj_iff.mp heq).symm
  · clear hjs
    induction js with
    | nil => rfl
    | cons j js ih =>
      rw [List.filterMap_cons, List.getElem?_eq_getElem (hlt j List.mem_cons_self)]
      simp only [List.length_cons]
      rw [ih fun k hk => hlt k (List.mem_cons_of_mem j hk)]
  · obtain ⟨j, -, hj⟩ := List.mem_filterMap.mp hx
    exact List.mem_of_getElem? hj

/-- In a list without duplicates, as many elements lie in a sublist as the sublist has. -/
theorem countP_mem_sublist [DecidableEq α] {xs ys : List α} (hxs : xs.Nodup) (hys : ys.Sublist xs) :
    xs.countP (fun x => ys.contains x) = ys.length := by
  rw [List.countP_eq_length_filter]
  refine List.Perm.length_eq ((List.perm_ext_iff_of_nodup (hxs.filter _) (hxs.sublist hys)).mpr fun x => ?_)
  rw [List.mem_filter, List.contains_iff_mem]
  exact ⟨fun h => h.2, fun h => ⟨hys.subset h, h⟩⟩

end Shuffling

/-! ## The selection -/

theorem mem_byName {s : Core} {b : BobserverObject} : b ∈ byName s ↔ ∃ id, (id, b) ∈ s.bobservers.rows := by
  unfold byName
  rw [(List.perm_insertionSort _ _).mem_iff, List.mem_map]
  constructor
  · rintro ⟨r, hr, rfl⟩
    exact ⟨r.1, hr⟩
  · rintro ⟨id, hr⟩
    exact ⟨(id, b), hr, rfl⟩

/-- No two bobservers share a name. -/
theorem nodup_byName (s : Core) : ((byName s).map fun b => b.account).Nodup := by
  have hperm := (List.perm_insertionSort (fun a b : BobserverObject => a.account.data.toNat ≤ b.account.data.toNat)
    (s.bobservers.rows.map Prod.snd)).map fun b => b.account
  unfold byName
  rw [hperm.nodup_iff, List.map_map]
  refine List.pairwise_map.mpr (s.bobservers.distinct.imp fun h heq => ?_)
  have hclash : Clash.clash (α := BobserverObject) _ _ = true := beq_iff_eq.mpr heq
  rw [h] at hclash
  cases hclash

/-- The bobservers with a key, by name. -/
def keyedBobservers (s : Core) : List AccountName :=
  ((byName s).filter fun b => b.signingKey != {}).map fun b => b.account

theorem nodup_keyedBobservers (s : Core) : (keyedBobservers s).Nodup :=
  (nodup_byName s).sublist (List.filter_sublist.map _)

theorem mem_keyedBobservers {s : Core} {n : AccountName} :
    n ∈ keyedBobservers s ↔ ∃ r ∈ s.bobservers.rows, r.2.account = n ∧ r.2.signingKey ≠ {} := by
  simp only [keyedBobservers, List.mem_map, List.mem_filter, mem_byName, bne_iff_ne]
  constructor
  · rintro ⟨b, ⟨⟨id, hr⟩, hkey⟩, rfl⟩
    exact ⟨(id, b), hr, rfl, hkey⟩
  · rintro ⟨r, hr, rfl, hkey⟩
    exact ⟨r.2, ⟨⟨r.1, hr⟩, hkey⟩, rfl⟩

theorem length_keyedBobservers (s : Core) :
    (keyedBobservers s).length = s.bobservers.rows.countP fun r => r.2.signingKey != {} := by
  unfold keyedBobservers byName
  rw [List.length_map, ← List.countP_eq_length_filter, (List.perm_insertionSort _ _).countP_eq, List.countP_map]
  rfl

theorem selectedBp_sublist (s : Core) : (selectedBp s).Sublist (keyedBobservers s) := by
  unfold selectedBp keyedBobservers
  refine (List.take_sublist _ _).trans (List.Sublist.map _ ?_)
  exact List.monotone_filter_right _ fun b h => (Bool.and_eq_true_iff.mp h).2

/-- The selection splits the bobservers with a key into producers and others. -/
theorem availableBobservers_eq (s : Core) :
    availableBobservers s = (keyedBobservers s).filter fun n => !(selectedBp s).contains n := by
  unfold availableBobservers keyedBobservers
  rw [List.filter_map, List.filter_filter]
  congr 1
  refine List.filter_congr fun b _ => ?_
  simp only [Function.comp_apply, Bool.and_comm]

theorem length_available (s : Core) :
    (selectedBp s).length + (availableBobservers s).length = (keyedBobservers s).length := by
  have hcount := countP_mem_sublist (nodup_keyedBobservers s) (selectedBp_sublist s)
  have hsplit : (keyedBobservers s).length =
      (keyedBobservers s).countP (fun n => (selectedBp s).contains n) +
        (keyedBobservers s).countP fun n => !(selectedBp s).contains n := by
    rw [List.length_eq_countP_add_countP fun n => (selectedBp s).contains n]
    congr 1
    exact List.countP_congr fun n _ => by simp
  rw [availableBobservers_eq, ← List.countP_eq_length_filter, hsplit, hcount]

/-- The bobservers drawn after the producers. -/
def drawnBobservers (s : Core) : List AccountName :=
  ((shuffle (UInt64.ofNat (s.dgp.time * 4294967296)) (availableBobservers s).length
      (List.range (availableBobservers s).length)).take
    (min (numBobservers - (selectedBp s).length) (availableBobservers s).length)).filterMap
      fun j => (availableBobservers s)[j]?

theorem activeBobservers_eq (s : Core) : activeBobservers s = selectedBp s ++ drawnBobservers s := rfl

theorem drawnBobservers_spec (s : Core) :
    (drawnBobservers s).Nodup ∧
      (drawnBobservers s).length = min (numBobservers - (selectedBp s).length) (availableBobservers s).length ∧
      ∀ n ∈ drawnBobservers s, n ∈ availableBobservers s := by
  have hperm := (shuffle_perm (UInt64.ofNat (s.dgp.time * 4294967296)) (availableBobservers s).length
    (List.range (availableBobservers s).length)).1
  have havailable : (availableBobservers s).Nodup := by
    rw [availableBobservers_eq]
    exact (nodup_keyedBobservers s).filter _
  have hdrawn : ((shuffle (UInt64.ofNat (s.dgp.time * 4294967296)) (availableBobservers s).length
      (List.range (availableBobservers s).length)).take
        (min (numBobservers - (selectedBp s).length) (availableBobservers s).length)).Nodup :=
    (hperm.nodup_iff.mpr List.nodup_range).sublist (List.take_sublist _ _)
  obtain ⟨hnodup, hlen, hmem⟩ := draw_spec havailable hdrawn fun j hj =>
    List.mem_range.mp (hperm.mem_iff.mp (List.mem_of_mem_take hj))
  refine ⟨hnodup, hlen.trans ?_, hmem⟩
  rw [List.length_take, hperm.length_eq, List.length_range]
  omega

/-- **The selection** has no duplicates, only bobservers with a key, and as many of them as there are up to
twenty-one. -/
theorem activeBobservers_spec {s : Core} (hbp : (selectedBp s).length ≤ numBobservers) :
    (activeBobservers s).Nodup ∧ (∀ n ∈ activeBobservers s, n ∈ keyedBobservers s) ∧
      (activeBobservers s).length = min numBobservers (keyedBobservers s).length := by
  obtain ⟨hnodup, hlen, hmem⟩ := drawnBobservers_spec s
  rw [activeBobservers_eq]
  have havailable : ∀ n ∈ drawnBobservers s, n ∈ keyedBobservers s ∧ n ∉ selectedBp s := by
    intro n hn
    have hin := hmem n hn
    rw [availableBobservers_eq, List.mem_filter] at hin
    refine ⟨hin.1, fun hcontains => ?_⟩
    rw [List.contains_iff_mem.mpr hcontains] at hin
    cases hin.2
  refine ⟨?_, ?_, ?_⟩
  · rw [List.nodup_append]
    refine ⟨(nodup_keyedBobservers s).sublist (selectedBp_sublist s), hnodup, fun a ha b hb hab => ?_⟩
    exact (havailable b hb).2 (hab ▸ ha)
  · intro n hn
    rcases List.mem_append.mp hn with hn | hn
    · exact (selectedBp_sublist s).subset hn
    · exact (havailable n hn).1
  · have hsplit := length_available s
    rw [List.length_append, hlen]
    omega

/-! ## The new schedule -/

/-- The scheduled names are the first positions of the shuffled list. -/
theorem scheduledBobservers_eq {s : Core}
    (h : s.bobserverSchedule.numScheduledBobservers ≤ s.bobserverSchedule.currentShuffledBobservers.length) :
    scheduledBobservers s = s.bobserverSchedule.currentShuffledBobservers.take
      s.bobserverSchedule.numScheduledBobservers := by
  unfold scheduledBobservers
  refine List.ext_getElem ?_ fun i hi hi' => ?_
  · rw [List.length_map, List.length_range, List.length_take]
    omega
  · rw [List.length_map, List.length_range] at hi
    rw [List.getElem_map, List.getElem_range, List.getElem_take, List.getD_eq_getElem?_getD,
      List.getElem?_eq_getElem (by omega), Option.getD_some]

/-- **The schedule of the new round** holds the selection in some order; an empty selection leaves one entry,
which names nobody. -/
theorem newSchedule_spec (s s' : Core) (versions : List Version) {active : List AccountName}
    (hactive : active.length ≤ numBobservers) (hs' : s'.bobserverSchedule = newSchedule s active versions) :
    (active ≠ [] → (scheduledBobservers s').Perm active) ∧
      (active = [] → scheduledBobservers s' = [default]) ∧
      s'.bobserverSchedule.numScheduledBobservers = max active.length 1 := by
  have hnum : s'.bobserverSchedule.numScheduledBobservers = max active.length 1 := by rw [hs']; rfl
  have hlist : s'.bobserverSchedule.currentShuffledBobservers =
      shuffle (UInt64.ofNat (s.dgp.time * 4294967296)) (max active.length 1)
        (active ++ List.replicate (numBobservers - active.length) default) := by rw [hs']; rfl
  have hlen : s'.bobserverSchedule.currentShuffledBobservers.length = numBobservers := by
    rw [hlist, (shuffle_perm _ _ _).1.length_eq, List.length_append, List.length_replicate]
    omega
  have hscheduled : (scheduledBobservers s').Perm
      ((active ++ List.replicate (numBobservers - active.length) default).take (max active.length 1)) := by
    rw [scheduledBobservers_eq (by rw [hnum, hlen]; unfold numBobservers at *; omega), hnum, hlist]
    exact (shuffle_perm _ _ _).2.1
  refine ⟨fun hne => ?_, fun hnil => ?_, hnum⟩
  · have hpos : 0 < active.length := List.length_pos_iff.mpr hne
    rwa [Nat.max_eq_left (by omega), List.take_left] at hscheduled
  · subst hnil
    exact List.perm_singleton.mp hscheduled

/-! ## The update -/

/-- What the update leaves of a bobserver: without its key when it is excepted. -/
def BobserverObject.shutdown (b : BobserverObject) : BobserverObject :=
  if b.isExcepted && b.signingKey != {} then { b with signingKey := {} } else b

theorem BobserverObject.shutdown_record (b : BobserverObject) :
    b.shutdown.record = b.record ∧ b.shutdown.isBproducer = b.isBproducer := by
  unfold BobserverObject.shutdown
  split
  · exact ⟨rfl, rfl⟩
  · exact ⟨rfl, rfl⟩

theorem each_modify_rows {f : BobserverObject → BobserverObject} (hf : ∀ b, f (f b) = f b)
    {rs : List (Nat × BobserverObject)} {c c' : Core} {u : Unit}
    (h : (each (fun r => modifyIn Index.bobservers r.1 fun b => .ok (f b)) rs : CoreM Unit) c = .ok u c') :
    c'.bobservers.rows = c.bobservers.rows.map fun q =>
      if q.1 ∈ rs.map Prod.fst then (q.1, f q.2) else q := by
  induction rs generalizing c with
  | nil =>
    obtain ⟨-, rfl⟩ := pure_eq_ok.mp h
    simp
  | cons r rs ih =>
    simp only [each, bind_eq_ok, modifyIn_eq_ok] at h
    obtain ⟨_, _, ⟨a, b, hc, ha, hb, rfl⟩, h⟩ := h
    cases hb
    rw [ih h]
    show ((c.bobservers.replace r.1 (f a) hc).rows).map _ = _
    simp only [Table.replace, List.map_map]
    refine List.map_congr_left fun q hq => ?_
    by_cases hid : q.1 = r.1
    · have hqa : q.2 = a := eq_of_mem (i := r.1) (by rw [← hid]; exact hq) (lookup_eq_some.mp ha)
      simp only [Function.comp_apply, List.map_cons, List.mem_cons, hid, true_or, if_true, hqa, hf, ite_self]
    · simp only [Function.comp_apply, List.map_cons, List.mem_cons, hid, false_or, if_false]

/-- Excepted bobservers lose their key, and nothing else changes. -/
theorem shutdownExcepted_eq_ok {c c' : Core} {u : Unit} (h : shutdownExcepted c = .ok u c') :
    c'.bobservers.rows = c.bobservers.rows.map (fun q => (q.1, q.2.shutdown)) ∧ c'.dgp = c.dgp ∧
      c'.bobserverSchedule = c.bobserverSchedule := by
  have hrefl : Std.Refl fun s s' : Core => (s'.dgp, s'.bobserverSchedule) = (s.dgp, s.bobserverSchedule) :=
    ⟨fun _ => rfl⟩
  have htrans : IsTrans Core fun s s' : Core => (s'.dgp, s'.bobserverSchedule) = (s.dgp, s.bobserverSchedule) :=
    ⟨fun _ _ _ h h' => h'.trans h⟩
  obtain ⟨s, t, hget, h⟩ := bind_eq_ok.mp h
  obtain ⟨rfl, rfl⟩ := get_eq_ok.mp hget
  have hsame : (c'.dgp, c'.bobserverSchedule) = (c.dgp, c.bobserverSchedule) :=
    Always.runs (R := fun s s' : Core => (s'.dgp, s'.bobserverSchedule) = (s.dgp, s.bobserverSchedule))
      (always_each (fun r => always_within (fun _ _ => rfl) _) _) _ _ _ h
  simp only [Prod.mk.injEq] at hsame
  refine ⟨?_, hsame⟩
  rw [each_modify_rows (f := fun b => { b with signingKey := {} }) (fun _ => rfl) h]
  refine List.map_congr_left fun q hq => ?_
  have hmem : q.1 ∈ (c.bobservers.rows.filter fun r => r.2.isExcepted && r.2.signingKey != {}).map Prod.fst ↔
      (q.2.isExcepted && q.2.signingKey != {}) = true := by
    rw [List.mem_map]
    constructor
    · rintro ⟨r, hr, hid⟩
      obtain ⟨hrow, hcond⟩ := List.mem_filter.mp hr
      have hrq : r.2 = q.2 := eq_of_mem (i := q.1) (by rw [← hid]; exact hrow) hq
      rwa [hrq] at hcond
    · intro hcond
      exact ⟨q, List.mem_filter.mpr ⟨hq, hcond⟩, rfl⟩
  unfold BobserverObject.shutdown
  by_cases hcond : (q.2.isExcepted && q.2.signingKey != {}) = true
  · rw [if_pos (hmem.mpr hcond), if_pos hcond]
  · rw [if_neg (fun h => hcond (hmem.mp h)), if_neg hcond]

/-- **What `update_bobserver_schedule4` leaves**: the shut down bobservers and the schedule of their selection. -/
theorem updateBobserverSchedule4_eq_ok {c c' : Core} {u : Unit} (h : updateBobserverSchedule4 c = .ok u c') :
    ∃ (s : Core) (versions : List Version),
      s.bobservers.rows = c.bobservers.rows.map (fun q => (q.1, q.2.shutdown)) ∧
      s.dgp = c.dgp ∧ s.bobserverSchedule = c.bobserverSchedule ∧
      c'.bobservers = s.bobservers ∧ c'.dgp = c.dgp ∧
      c'.bobserverSchedule = newSchedule s (activeBobservers s) versions := by
  obtain ⟨_, s, hshut, h⟩ := bind_eq_ok.mp h
  obtain ⟨_, _, hget, h⟩ := bind_eq_ok.mp h
  obtain ⟨rfl, rfl⟩ := get_eq_ok.mp hget
  obtain ⟨bobservers, t, hread, h⟩ := bind_eq_ok.mp h
  obtain rfl := (readOnly_getBobservers _).eq_of_ok hread
  obtain ⟨_, _, hfork, h⟩ := bind_eq_ok.mp h
  rw [← modify_eq_ok.mp h, ← modify_eq_ok.mp hfork]
  obtain ⟨hrows, hdgp, hschedule⟩ := shutdownExcepted_eq_ok hshut
  exact ⟨s, _, hrows, hdgp, hschedule, rfl, hdgp, rfl⟩

end Sigmaengine
