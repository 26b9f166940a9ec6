import Sigmaengine.Consensus.Schedule

/-!
# Block producers and excepted bobservers

`update_bproducer` refuses an excepted bobserver, `except_bobserver` refuses a block producer, and
`bobserver_update` only lifts an exception, so nobody is both.  The key of an excepted bobserver goes with the
next schedule, which looks at every bobserver.

Main result: `producer_bookkeeping`.
-/

namespace Sigmaengine

open Effect Table

/-- Nobody is both a block producer and excepted. -/
def RolesApart (s : Core) : Prop :=
  ∀ o ∈ s.bobservers.values, ¬(o.isBproducer = true ∧ o.isExcepted = true)

theorem rolesApart_iff {s : Core} :
    RolesApart s ↔ ∀ q ∈ s.roles.1, ¬(q.2.2.1 = true ∧ q.2.2.2 = true) := by
  constructor
  · intro h q hq
    obtain ⟨r, hr, rfl⟩ := List.mem_map.mp hq
    exact h r.2 (mem_values.mpr ⟨r.1, hr⟩)
  · intro h o ho
    obtain ⟨id, hid⟩ := mem_values.mp ho
    exact h (id, o.role) (List.mem_map.mpr ⟨(id, o), hid, rfl⟩)

theorem Upkeep.rolesApart {s s' : Core} (h : Upkeep s s') : Kept RolesApart s s' := by
  intro hs
  rw [rolesApart_iff, h.roles]
  exact rolesApart_iff.mp hs

theorem AccountsOnly.rolesApart {s s' : Core} (h : AccountsOnly s s') : Kept RolesApart s s' := by
  intro hs
  unfold RolesApart
  rw [h.bobservers]
  exact hs

/-- A changed bobserver that is not both. -/
theorem rolesApart_modify {s s' : Core} {id : Nat} {f : BobserverObject → Except Error BobserverObject} {u : Unit}
    (hs : RolesApart s) (h : modifyIn Index.bobservers id f s = .ok u s')
    (hf : ∀ a b, s.bobservers.lookup id = some a → f a = .ok b → ¬(b.isBproducer = true ∧ b.isExcepted = true)) :
    RolesApart s' := by
  obtain ⟨a, b, hc, ha, hfa, rfl⟩ := modifyIn_eq_ok.mp h
  exact forall_replace (h := hc) hs (hf a b ha hfa)

theorem rolesApart_bobserverUpdate (o : BobserverUpdateOperation) :
    Always (Kept RolesApart) (bobserverUpdateEvaluator o) := by
  refine always_bind (always_requireRoot _ _) fun _ => always_bind (always_getIn _) fun _ => ?_
  refine always_bind (always_assert _ _) fun _ => always_bind (always_findIn _) fun found => ?_
  cases found with
  | none =>
    refine always_bind always_headBlockTime fun now => always_bind ?_ fun _ => always_pure _
    refine always_of_clean ?_ (clean_createIn _)
    intro s id s' h hs
    obtain ⟨hc, -, rfl⟩ := createIn_eq_ok.mp h
    exact forall_insert (h := hc) hs fun hboth => Bool.false_ne_true hboth.1
  | some r =>
    refine always_of_clean ?_ (clean_modifyIn fun a b h x => by cases h; rfl)
    intro s u s' h hs
    refine rolesApart_modify hs h fun a b _ hb => ?_
    cases hb
    exact fun hboth => Bool.false_ne_true hboth.2

theorem rolesApart_updateBproducer (o : UpdateBproducerOperation) :
    Always (Kept RolesApart) (updateBproducerEvaluator o) := by
  refine always_of_clean ?_ ?_
  · intro s u s' h hs
    simp only [updateBproducerEvaluator, bind_eq_ok, getBobserver, getIn_eq_ok, fcAssert_eq_ok, get_eq_ok] at h
    obtain ⟨_, _, hroot, r, _, ⟨hfind, rfl⟩, _, _, ⟨hfree, rfl⟩, _, _, ⟨rfl, rfl⟩, _, _, ⟨-, rfl⟩, h⟩ := h
    obtain rfl := (readOnly_requireRoot _ _).eq_of_ok hroot
    split at h
    · obtain ⟨-, rfl⟩ := pure_eq_ok.mp h
      exact hs
    · obtain ⟨_, t, hmodify, hcount⟩ := bind_eq_ok.mp h
      rw [← Effect.modify_eq_ok.mp hcount]
      show RolesApart t
      refine rolesApart_modify hs hmodify fun a b ha hb hboth => ?_
      -- the bobserver that is changed is the one that was found not excepted
      have hra : r.2 = a := eq_of_mem (mem_of_find? hfind).1 (lookup_eq_some.mp ha)
      cases hb
      rw [hra, Bool.not_eq_true'] at hfree
      exact Bool.false_ne_true (hfree.symm.trans hboth.2)
  · refine clean_bind (readOnly_requireRoot _ _) fun _ => clean_bind (readOnly_getIn _) fun r => ?_
    refine clean_bind (readOnly_assert _ _) fun _ => clean_bind readOnly_get fun s => ?_
    refine clean_bind (readOnly_assert _ _) fun _ => ?_
    split
    · exact (readOnly_pure _).clean
    · refine clean_bind_modify (clean_modifyIn fun a b h x => ?_) _
      cases h
      rfl

theorem rolesApart_exceptBobserver (o : ExceptBobserverOperation) :
    Always (Kept RolesApart) (exceptBobserverEvaluator o) := by
  refine always_of_clean ?_ ?_
  · intro s u s' h hs
    simp only [exceptBobserverEvaluator, bind_eq_ok, getBobserver, getIn_eq_ok, fcAssert_eq_ok] at h
    obtain ⟨_, _, hroot, r, _, ⟨hfind, rfl⟩, _, _, ⟨hfree, rfl⟩, h⟩ := h
    obtain rfl := (readOnly_requireRoot _ _).eq_of_ok hroot
    refine rolesApart_modify hs h fun a b ha hb hboth => ?_
    have hra : r.2 = a := eq_of_mem (mem_of_find? hfind).1 (lookup_eq_some.mp ha)
    cases hb
    rw [hra, Bool.not_eq_true'] at hfree
    exact Bool.false_ne_true (hfree.symm.trans hboth.1)
  · refine clean_bind (readOnly_requireRoot _ _) fun _ => clean_bind (readOnly_getIn _) fun r => ?_
    refine clean_bind (readOnly_assert _ _) fun _ => clean_modifyIn fun a b h x => ?_
    cases h
    rfl

theorem operationFrame_rolesApart : OperationFrame (Kept RolesApart) :=
  .ofAccountsOnly (fun _ _ h => h.rolesApart) rolesApart_bobserverUpdate rolesApart_updateBproducer
    rolesApart_exceptBobserver

theorem Upkeep.producers {s s' : Core} (h : Upkeep s s') : Kept ProducersSound s s' := by
  have hroles : ∀ c : Core, c.producers = (c.roles.1.map fun q => (q.1, q.2.2.1), c.roles.2) := by
    intro c
    unfold Core.producers Core.roles
    rw [List.map_map]
    rfl
  refine SameProducers.kept ?_
  unfold SameProducers
  rw [hroles, hroles, h.roles]

/-! ## Reachable states -/

variable {env : Env} {d d' : Database}

theorem Reached.producers (h : Reached env d) : ProducersSound d.core := by
  refine h.core (fun key => ⟨rfl, Nat.zero_le _⟩) operationFrame_producers.operationRuns (fun _ _ h => h.producers) ?_
  exact (accountsOnly_accountRecoveryProcessing.mono fun _ _ h => h.sameProducers.kept).runs

theorem Reached.rolesApart (h : Reached env d) : RolesApart d.core := by
  refine h.core (fun key => ?_) operationFrame_rolesApart.operationRuns (fun _ _ h => h.rolesApart) ?_
  · intro o ho hboth
    obtain rfl : o = { account := initMinerName, signingKey := key } := Multiset.mem_singleton.mp ho
    exact Bool.false_ne_true hboth.1
  · exact (accountsOnly_accountRecoveryProcessing.mono fun _ _ h => h.rolesApart).runs

/-- No excepted bobserver has a key. -/
def ExceptedShut (s : Core) : Prop := ∀ o ∈ s.bobservers.values, o.isExcepted = true → o.signingKey = {}

/-- The schedule update leaves no key with an excepted bobserver, whatever it starts from. -/
theorem exceptedShut_updateBobserverSchedule4 {c c' : Core} {u : Unit} (h : updateBobserverSchedule4 c = .ok u c') :
    ExceptedShut c' := by
  obtain ⟨s, versions, hrows, -, -, hbobservers, -⟩ := updateBobserverSchedule4_eq_ok h
  intro o ho hexcepted
  obtain ⟨id, hid⟩ := mem_values.mp ho
  rw [hbobservers, hrows] at hid
  obtain ⟨q, -, hq⟩ := List.mem_map.mp hid
  obtain ⟨-, rfl⟩ := Prod.mk.inj hq
  unfold BobserverObject.shutdown at hexcepted ⊢
  by_cases hcond : (q.2.isExcepted && q.2.signingKey != {}) = true
  · rw [if_pos hcond]
  · rw [if_neg hcond] at hexcepted ⊢
    rw [hexcepted, Bool.true_and] at hcond
    simpa using hcond

/-- **A block that ends a round** leaves no key with an excepted bobserver. -/
theorem exceptedShut_applyBlock {node : Node} {b : SignedBlock} (happly : applyBlock env node b d = .ok () d')
    (hround : b.blockNum % numBobservers = 0) : ExceptedShut d'.core := by
  obtain ⟨S, -⟩ := blockStages happly
  -- the head number is that of the block by the time of the update
  have hnum : S.settled.dgp.headBlockNumber = b.blockNum :=
    S.sameHour.1.headBlockNumber.symm.trans (congrArg Prod.fst S.clock)
  rcases prepareBlock_cases (R := SameBoard) (fun _ _ => rfl) (fun _ _ => rfl) S.prepare with ⟨hother, -⟩ | ⟨-, t, -, hupdate⟩
  · exact absurd (by rw [hnum, hround]) hother
  · unfold ExceptedShut
    rw [S.sameBoard.bobservers]
    exact exceptedShut_updateBobserverSchedule4 hupdate

/-- **Producer bookkeeping**: in every reachable state the count is the number of block producers and at most
17, nobody is both producer and excepted, and no excepted bobserver has a key after the next schedule update. -/
theorem producer_bookkeeping (env : Env) {d : Database} (h : Reached env d) :
    d.core.dgp.currentBproducerCount = (d.core.bobservers.rows.countP fun r => r.2.isBproducer) ∧
      d.core.dgp.currentBproducerCount ≤ 17 ∧
      (∀ o ∈ d.core.bobservers.values, ¬(o.isBproducer = true ∧ o.isExcepted = true)) ∧
      ∀ node b d', applyBlock env node b d = .ok () d' → b.blockNum % numBobservers = 0 →
        ∀ o ∈ d'.core.bobservers.values, o.isExcepted = true → o.signingKey = {} :=
  ⟨h.producers.count, h.producers.le, h.rolesApart, fun _ _ _ happly hround =>
    exceptedShut_applyBlock happly hround⟩

/-! ## A sample round -/

theorem Reached.of_chain {P : Node → SignedBlock → Database → Prop} (h : Reached env d) (hchain : Chain env P d d') :
    Reached env d' := by
  induction hchain with
  | refl => exact h
  | tail _ hstep ih =>
    obtain ⟨node, b, -, happly⟩ := hstep
    exact ih.block node b happly

/-- The only bobserver has been excepted in the first block of the round and still has its key. -/
def exceptedRound : Database :=
  (sampleRun idleBlock (fun _ _ => true) 19 (sampleAfter exceptBlock (genesis ⟨1⟩))).getD
    (sampleAfter exceptBlock (genesis ⟨1⟩))

theorem producer_bookkeeping_exceptedRound :
    Reached sampleEnv exceptedRound ∧
      (exceptedRound.core.bobservers.rows.any fun r => r.2.isExcepted && r.2.signingKey != {}) = true ∧
      ∀ o ∈ (sampleAfter (idleBlock exceptedRound) exceptedRound).core.bobservers.values,
        o.isExcepted = true → o.signingKey = {} := by
  have hruns : succeeds (applyBlock sampleEnv {} exceptBlock (genesis ⟨1⟩)) = true ∧
      (sampleRun idleBlock (fun _ _ => true) 19 (sampleAfter exceptBlock (genesis ⟨1⟩))).isSome = true ∧
      (exceptedRound.core.bobservers.rows.any fun r => r.2.isExcepted && r.2.signingKey != {}) = true ∧
      succeeds (applyBlock sampleEnv {} (idleBlock exceptedRound) exceptedRound) = true ∧
      (idleBlock exceptedRound).blockNum % numBobservers = 0 := by
    decide +kernel
  obtain ⟨hfirst, hrest, hkey, hnext, hround⟩ := hruns
  have hexcepted : Reached sampleEnv (sampleAfter exceptBlock (genesis ⟨1⟩)) :=
    (Reached.genesis ⟨1⟩).block {} exceptBlock (eq_ok_of_succeeds hfirst)
  have hreached : Reached sampleEnv exceptedRound :=
    hexcepted.of_chain (chain_sampleRun_getD (P := anyBlock) (fun _ _ _ => trivial) hrest)
  refine ⟨hreached, hkey, ?_⟩
  exact (producer_bookkeeping sampleEnv hreached).2.2.2 {} _ _ (eq_ok_of_succeeds hnext) hround

end Sigmaengine
