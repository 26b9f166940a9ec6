import Sigmaengine.Consensus.Recovery

/-!
# Account recovery along a chain

The cleanup of the recovery tables runs after every block.  Each of its loops stops at the first object that
is not due: by the expiration for requests, by the id for the history, which is also the order of its times,
and by the effective date for changes.

Main result: `recovery_window`.
-/

namespace Sigmaengine

open Effect Table

/-! ## Cleanup -/

/-- Some requests are gone. -/
def FewerRequests (s s' : Core) : Prop :=
  ∃ t, s' = { s with accountRecoveryRequests := t } ∧ t.rows.Sublist s.accountRecoveryRequests.rows

instance : Std.Refl FewerRequests := ⟨fun s => ⟨s.accountRecoveryRequests, rfl, .refl _⟩⟩

instance : IsTrans Core FewerRequests where
  trans := by
    rintro s _ _ ⟨t, rfl, hsub⟩ ⟨t', rfl, hsub'⟩
    exact ⟨t', rfl, hsub'.trans hsub⟩

/-- Some of the history is gone. -/
def FewerHistory (s s' : Core) : Prop :=
  ∃ t, s' = { s with ownerAuthorityHistory := t } ∧ t.rows.Sublist s.ownerAuthorityHistory.rows

instance : Std.Refl FewerHistory := ⟨fun s => ⟨s.ownerAuthorityHistory, rfl, .refl _⟩⟩

instance : IsTrans Core FewerHistory where
  trans := by
    rintro s _ _ ⟨t, rfl, hsub⟩ ⟨t', rfl, hsub'⟩
    exact ⟨t', rfl, hsub'.trans hsub⟩

/-- A step removes a request, or finds that none has expired. -/
theorem clearRecoveryRequest_eq_ok {again : Bool} {s s' : Core} (h : clearRecoveryRequest s = .ok again s') :
    again = true ∧ FewerRequests s s' ∨
      again = false ∧ s' = s ∧ ∀ r ∈ s.accountRecoveryRequests.values, s.dgp.time < r.expires := by
  unfold clearRecoveryRequest at h
  rw [bind_of_ok (get_apply s)] at h
  cases hfirst : s.accountRecoveryRequests.least? AccountRecoveryRequestObject.before with
  | none =>
    rw [hfirst] at h
    obtain ⟨rfl, rfl⟩ := pure_eq_ok.mp h
    refine .inr ⟨rfl, rfl, fun r hr => ?_⟩
    obtain ⟨id, hid⟩ := mem_values.mp hr
    rw [rows_of_least?_none hfirst] at hid
    cases hid
  | some r =>
    rw [hfirst] at h
    dsimp only at h
    split at h
    · simp only [bind_eq_ok, removeIn_eq_ok, pure_eq_ok] at h
      obtain ⟨_, _, rfl, rfl, rfl⟩ := h
      exact .inl ⟨rfl, _, rfl, List.filter_sublist⟩
    · rename_i hlate
      obtain ⟨rfl, rfl⟩ := pure_eq_ok.mp h
      refine .inr ⟨rfl, rfl, fun x hx => ?_⟩
      obtain ⟨id, hid⟩ := mem_values.mp hx
      have hle : r.2.expires ≤ x.expires :=
        (least?_le (k := AccountRecoveryRequestObject.expires) (fun _ _ => rfl) hfirst hid).1
      exact Nat.lt_of_lt_of_le (Nat.lt_of_not_le hlate) hle

/-- The requests that stay have not expired. -/
theorem clearRecoveryRequests_eq_ok {n : Nat} {s s' : Core} {u : Unit}
    (h : loop .diverged clearRecoveryRequest n s = .ok u s') :
    FewerRequests s s' ∧ ∀ r ∈ s'.accountRecoveryRequests.values, s'.dgp.time < r.expires := by
  obtain ⟨t, hfewer, hexit⟩ := loop_exits (R := FewerRequests) (fun t t' ht => by
    rcases clearRecoveryRequest_eq_ok ht with ⟨-, hfewer⟩ | ⟨hfalse, -⟩
    · exact hfewer
    · cases hfalse) h
  rcases clearRecoveryRequest_eq_ok hexit with ⟨htrue, -⟩ | ⟨-, rfl, hlate⟩
  · cases htrue
  · exact ⟨hfewer, hlate⟩

/-- A step removes the oldest entry, or finds that all of an ordered history lies within the period. -/
theorem clearOwnerHistory_eq_ok {again : Bool} {s s' : Core} (h : clearOwnerHistory s = .ok again s') :
    again = true ∧ FewerHistory s s' ∨
      again = false ∧ s' = s ∧ (HistorySorted s → ∀ x ∈ s.ownerAuthorityHistory.values,
        s.dgp.time ≤ x.lastValidTime + ownerAuthRecoveryPeriod) := by
  unfold clearOwnerHistory at h
  rw [bind_of_ok (get_apply s)] at h
  cases hfirst : s.ownerAuthorityHistory.rows.head? with
  | none =>
    rw [hfirst] at h
    obtain ⟨rfl, rfl⟩ := pure_eq_ok.mp h
    refine .inr ⟨rfl, rfl, fun _ x hx => ?_⟩
    obtain ⟨id, hid⟩ := mem_values.mp hx
    rw [List.head?_eq_none_iff.mp hfirst] at hid
    cases hid
  | some first =>
    rw [hfirst] at h
    dsimp only at h
    split at h
    · simp only [bind_eq_ok, removeIn_eq_ok, pure_eq_ok] at h
      obtain ⟨_, _, rfl, rfl, rfl⟩ := h
      exact .inl ⟨rfl, _, rfl, List.filter_sublist⟩
    · rename_i hinside
      obtain ⟨rfl, rfl⟩ := pure_eq_ok.mp h
      refine .inr ⟨rfl, rfl, fun hsorted x hx => ?_⟩
      obtain ⟨id, hid⟩ := mem_values.mp hx
      -- the first entry is the oldest
      have hle : first.2.lastValidTime ≤ x.lastValidTime := by
        obtain ⟨rest, hrows⟩ := List.head?_eq_some_iff.mp hfirst
        unfold HistorySorted at hsorted
        rw [hrows, List.pairwise_cons] at hsorted
        rw [hrows] at hid
        rcases List.mem_cons.mp hid with heq | hrest
        · rw [← heq]
        · exact hsorted.1 _ hrest
      have hmod : addSeconds first.2.lastValidTime ownerAuthRecoveryPeriod ≤
          first.2.lastValidTime + ownerAuthRecoveryPeriod := Nat.mod_le _ _
      simp only [TimePointSec] at *
      omega

/-- The entries of an ordered history that stay lie within the period. -/
theorem clearOwnerHistories_eq_ok {n : Nat} {s s' : Core} {u : Unit}
    (h : loop .diverged clearOwnerHistory n s = .ok u s') (hsorted : HistorySorted s) :
    FewerHistory s s' ∧
      ∀ x ∈ s'.ownerAuthorityHistory.values, s'.dgp.time ≤ x.lastValidTime + ownerAuthRecoveryPeriod := by
  obtain ⟨t, hfewer, hexit⟩ := loop_exits (R := FewerHistory) (fun t t' ht => by
    rcases clearOwnerHistory_eq_ok ht with ⟨-, hfewer⟩ | ⟨hfalse, -⟩
    · exact hfewer
    · cases hfalse) h
  rcases clearOwnerHistory_eq_ok hexit with ⟨htrue, -⟩ | ⟨-, rfl, hinside⟩
  · cases htrue
  · refine ⟨hfewer, hinside ?_⟩
    obtain ⟨t, rfl, hsub⟩ := hfewer
    exact hsorted.sublist hsub

/-- Changes that are due have been made. -/
structure Effected (s s' : Core) : Prop where
  requests : s'.accountRecoveryRequests = s.accountRecoveryRequests
  history : s'.ownerAuthorityHistory = s.ownerAuthorityHistory
  time : s'.dgp.time = s.dgp.time
  fewer : s'.changeRecoveryAccountRequests.rows.Sublist s.changeRecoveryAccountRequests.rows
  accounts : ∀ id a, s.accounts.lookup id = some a → ∃ a', s'.accounts.lookup id = some a' ∧ a'.name = a.name ∧
    (a'.recoveryAccount = a.recoveryAccount ∨ ∃ r ∈ s.changeRecoveryAccountRequests.values,
      r.accountToRecover = a.name ∧ r.recoveryAccount = a'.recoveryAccount ∧ r.effectiveOn ≤ s.dgp.time)

theorem values_of_sublist {α : Type} [Clash α] {t t' : Table α} (h : t'.rows.Sublist t.rows) {x : α}
    (hx : x ∈ t'.values) : x ∈ t.values := by
  obtain ⟨id, hid⟩ := mem_values.mp hx
  exact mem_values.mpr ⟨id, h.subset hid⟩

instance : Std.Refl Effected := ⟨fun _ => ⟨rfl, rfl, rfl, .refl _, fun _ a ha => ⟨a, ha, rfl, .inl rfl⟩⟩⟩

instance : IsTrans Core Effected where
  trans s t s' h h' := by
    refine ⟨h'.requests.trans h.requests, h'.history.trans h.history, h'.time.trans h.time,
      h'.fewer.trans h.fewer, fun id a ha => ?_⟩
    obtain ⟨b, hb, hname, hfirst⟩ := h.accounts id a ha
    obtain ⟨c, hc, hname', hsecond⟩ := h'.accounts id b hb
    refine ⟨c, hc, hname'.trans hname, ?_⟩
    rcases hsecond with hsame | ⟨r, hr, haccount, hrecovery, hdue⟩
    · rw [hsame]
      exact hfirst
    · exact .inr ⟨r, values_of_sublist h.fewer hr, haccount.trans hname, hrecovery, h.time ▸ hdue⟩

theorem effected_applyRecoveryChange : Runs Effected applyRecoveryChange := by
  intro s again s' h
  unfold applyRecoveryChange at h
  rw [bind_of_ok (get_apply s)] at h
  cases hfirst : s.changeRecoveryAccountRequests.least? ChangeRecoveryAccountRequestObject.before with
  | none =>
    rw [hfirst] at h
    obtain ⟨-, rfl⟩ := pure_eq_ok.mp h
    exact Std.Refl.refl _
  | some r =>
    rw [hfirst] at h
    dsimp only at h
    split at h
    · rename_i hdue
      simp only [bind_eq_ok, pure_eq_ok, getAccount, getIn_eq_ok, modifyIn_eq_ok, removeIn_eq_ok] at h
      obtain ⟨account, _, ⟨hfind, rfl⟩, _, _, ⟨a, b, hc, ha, hf, rfl⟩, _, _, rfl, -, rfl⟩ := h
      cases hf
      obtain ⟨hmem, hname⟩ := mem_of_find? hfind
      obtain rfl : a = account.2 := eq_of_mem (lookup_eq_some.mp ha) hmem
      refine ⟨rfl, rfl, rfl, List.filter_sublist, fun id c hold => ?_⟩
      by_cases hid : id = account.1
      · obtain rfl : account.2 = c := Option.some.inj (ha.symm.trans (hid ▸ hold))
        refine ⟨_, (lookup_replace ha hc id).trans (if_pos hid), rfl, .inr ⟨r.2, ?_, ?_, rfl, hdue⟩⟩
        · exact mem_values.mpr ⟨r.1, mem_of_least? hfirst⟩
        · exact (eq_of_beq hname).symm
      · exact ⟨c, (lookup_replace ha hc id).trans ((if_neg hid).trans hold), rfl, .inl rfl⟩
    · obtain ⟨-, rfl⟩ := pure_eq_ok.mp h
      exact Std.Refl.refl _

/-- **The cleanup** moves the windows on to the new time. -/
theorem RecoverySound.cleanup {events : List Event} {now : TimePointSec} {s s' : Core} {u : Unit}
    (h : RecoverySound events now s) (hrun : accountRecoveryProcessing s = .ok u s') :
    RecoverySound events s'.dgp.time s' ∧ s'.dgp.time = s.dgp.time ∧
      ∀ id a, s.accounts.lookup id = some a → ∃ a', s'.accounts.lookup id = some a' ∧ a'.name = a.name ∧
        (a'.recoveryAccount = a.recoveryAccount ∨ ∃ r, ChangeFrom events r ∧
          r.accountToRecover = a.name ∧ r.recoveryAccount = a'.recoveryAccount ∧ r.effectiveOn ≤ s.dgp.time) := by
  simp only [accountRecoveryProcessing, bind_eq_ok, get_eq_ok] at hrun
  obtain ⟨_, _, ⟨rfl, rfl⟩, _, s₁, hrequests, _, s₂, hhistory, hchanges⟩ := hrun
  obtain ⟨⟨t₁, rfl, hsub₁⟩, hexpires⟩ := clearRecoveryRequests_eq_ok hrequests
  obtain ⟨⟨t₂, rfl, hsub₂⟩, hinside⟩ := clearOwnerHistories_eq_ok hhistory h.historySorted
  have heffect := runs_loop effected_applyRecoveryChange _ _ _ _ hchanges
  have htime : s'.dgp.time = s.dgp.time := heffect.time
  refine ⟨⟨fun r hr => ?_, ?_, fun r hr => ?_, ?_, fun x hx => ?_, ?_⟩, htime, fun id a ha => ?_⟩
  · rw [heffect.requests] at hr
    obtain ⟨d, o, hlast, howner, hweight, hpartner, hsets, -⟩ := h.requests r (values_of_sublist hsub₁ hr)
    refine ⟨d, o, hlast, howner, hweight, hpartner, hsets, ?_⟩
    have hlater : s.dgp.time < r.expires := hexpires r hr
    rw [htime]
    exact hlater.trans_le (hsets ▸ Nat.mod_le _ _)
  · rw [heffect.requests]
    exact h.requestsUnique.sublist (hsub₁.map _)
  · exact h.changes r (values_of_sublist heffect.fewer hr)
  · exact h.changesUnique.sublist (heffect.fewer.map _)
  · rw [heffect.history] at hx
    obtain ⟨hfrom, -, hlast⟩ := h.history x (values_of_sublist hsub₂ hx)
    rw [htime]
    exact ⟨hfrom, hinside x hx, hlast⟩
  · unfold HistorySorted
    rw [heffect.history]
    exact h.historySorted.sublist hsub₂
  · obtain ⟨a', ha', hname, hsame | ⟨r, hr, haccount, hrecovery, hdue⟩⟩ := heffect.accounts id a ha
    · exact ⟨a', ha', hname, .inl hsame⟩
    · exact ⟨a', ha', hname, .inr ⟨r, h.changes r hr, haccount, hrecovery, hdue⟩⟩

/-! ## Chains -/

/-- The tables are traced to the events, and so were those that each event found. -/
structure Told (env : Env) (events : List Event) (s : Core) : Prop where
  sound : RecoverySound events s.dgp.time s
  found : ∀ pre c op post, events = pre ++ (c, op) :: post →
    RecoverySound pre c.core.dgp.time c.core ∧ ∃ node c', applyOperation env node op c = .ok () c'

variable {env : Env} {node : Node} {events : List Event} {d d' : Database}

theorem Told.same {s s' : Core} (h : Told env events s) (hsame : SameWindow s s')
    (htime : s'.dgp.time = s.dgp.time) : Told env events s' := by
  refine ⟨?_, h.found⟩
  rw [htime]
  exact h.sound.same hsame htime.ge

theorem Told.operation (h : Told env events d.core) {op : Operation}
    (happly : applyOperation env node op d = .ok () d') : Told env (events ++ [(d, op)]) d'.core := by
  refine ⟨h.sound.operation happly, fun pre c op' post hsplit => ?_⟩
  rcases List.eq_nil_or_concat post with rfl | ⟨post', x, rfl⟩
  · obtain ⟨rfl, hx⟩ := List.append_inj' hsplit rfl
    cases hx
    exact ⟨h.sound, node, d', happly⟩
  · rw [List.concat_eq_append, ← List.cons_append, ← List.append_assoc] at hsplit
    exact h.found pre c op' post' (List.append_inj' hsplit rfl).1

theorem Told.operations {ops : List Operation} {u : Unit} (h : Told env events d.core)
    (happly : each (applyOperation env node) ops d = .ok u d') :
    Told env (events ++ opTrace env node ops d) d'.core := by
  induction ops generalizing events d with
  | nil =>
    obtain ⟨-, rfl⟩ := pure_eq_ok.mp happly
    rw [opTrace, List.append_nil]
    exact h
  | cons op ops ih =>
    obtain ⟨_, t, hfirst, hrest⟩ := bind_eq_ok.mp happly
    rw [opTrace, hfirst, after_ok, List.append_cons]
    exact ih (h.operation hfirst) hrest

theorem Told.transactions {trxs : List SignedTransaction} {u : Unit} (h : Told env events d.core)
    (happly : each (applyTransaction env node) trxs d = .ok u d') :
    Told env (events ++ trxTrace env node trxs d) d'.core := by
  induction trxs generalizing events d with
  | nil =>
    obtain ⟨-, rfl⟩ := pure_eq_ok.mp happly
    rw [trxTrace, List.append_nil]
    exact h
  | cons trx trxs ih =>
    obtain ⟨_, t, hfirst, hrest⟩ := bind_eq_ok.mp happly
    rw [trxTrace, hfirst, after_ok, ← List.append_assoc]
    refine ih ?_ hrest
    obtain ⟨_, t', hpassed, hops⟩ := bind_eq_ok.mp hfirst
    rw [hpassed, after_ok]
    refine Told.operations ?_ hops
    obtain ⟨c, hc, rfl⟩ := within_eq_ok.mp hpassed
    have hwindow : Always SameWindow (admitTransaction env node trx) :=
      always_admitTransaction (fun _ _ => rfl) env node trx
    have hclock : Always SameClock (admitTransaction env node trx) :=
      always_admitTransaction (fun _ _ => rfl) env node trx
    exact h.same (hwindow.runs _ _ _ hc) (SameClock.time (hclock.runs _ _ _ hc))

/-- Window and partners are as they were. -/
structure SameBooks (s s' : Core) : Prop where
  window : SameWindow s s'
  partners : PartnersKept s s'

instance : Std.Refl SameBooks := ⟨fun _ => ⟨rfl, .refl _⟩⟩

instance : IsTrans Core SameBooks where
  trans _ _ _ h h' := ⟨IsTrans.trans _ _ _ h.window h'.window, IsTrans.trans _ _ _ h.partners h'.partners⟩

theorem MoneyOnly.sameBooks {s s' : Core} (h : MoneyOnly s s') : SameBooks s s' :=
  ⟨h.sameWindow, h.partnersKept⟩

theorem keepsStanding_sameBooks : KeepsStanding SameBooks := fun _ _ _ =>
  always_within (fun _ _ => ⟨rfl, .refl _⟩) _

theorem sameBooks_applyBlockHeader {b : SignedBlock} {s s' : Core} {signing : Nat}
    (h : applyBlockHeader env node b s = .ok signing s') : SameBooks s s' := by
  simp only [applyBlockHeader, bind_eq_ok, fcAssert_eq_ok, get_eq_ok, modify_eq_ok, pure_eq_ok] at h
  obtain ⟨_, _, ⟨-, rfl⟩, r, _, hvalid, _, _, ⟨rfl, rfl⟩, _, _, ⟨-, rfl⟩, _, _, rfl, _, t, hext, rfl, rfl⟩ := h
  obtain ⟨rfl, -⟩ := headerChecked hvalid
  have hsame := (always_each (always_processHeaderExtension keepsStanding_sameBooks.keepsRole b.bobserverName)
    b.extensions).runs _ _ _ hext
  exact ⟨hsame.window, hsame.partners⟩

theorem sameBooks_updateGlobalDynamicData {b : SignedBlock} {s s' : Core} {u : Unit}
    (h : updateGlobalDynamicData env node b s = .ok u s') : SameBooks s s' := by
  simp only [updateGlobalDynamicData, bind_eq_ok, get_eq_ok, modify_eq_ok, fcAssert_eq_ok] at h
  obtain ⟨_, _, ⟨rfl, rfl⟩, _, t, hcount, _, _, rfl, _, _, ⟨rfl, rfl⟩, -, rfl⟩ := h
  have hsame := (always_countMissed keepsStanding_sameBooks.keepsRole _ _).runs _ _ _ hcount
  exact ⟨hsame.window, hsame.partners⟩

theorem sameBooks_prepareBlock (b : SignedBlock) : Always SameBooks (prepareBlock env b) := by
  refine always_bind (fun _ => ⟨rfl, .refl _⟩) fun _ => always_bind ?_ fun _ => ?_
  · refine always_bind always_get fun s => always_loop (always_bind always_get fun s => ?_) _
    split
    · exact always_pure _
    · split
      · exact always_bind (always_within (fun _ _ => ⟨rfl, .refl _⟩) _) fun _ => always_pure _
      · exact always_pure _
  · refine always_bind (always_bind always_get fun _ => always_pure _) fun num => ?_
    split
    · refine always_bind (always_shutdownExcepted keepsStanding_sameBooks.keepsRole) fun _ => ?_
      refine always_bind always_get fun s => always_bind (readOnly_getBobservers _).always fun bobservers => ?_
      exact always_bind (fun _ => ⟨rfl, .refl _⟩) fun _ => fun _ => ⟨rfl, .refl _⟩
    · exact always_pure _

namespace BlockStages

variable {b : SignedBlock} (S : BlockStages env node b d d')

/-- The operations of the block keep the partners. -/
theorem partnersKept_executed : PartnersKept S.opened S.executed.core := by
  have htrx := always_each (fun trx =>
    always_applyTransaction operationFrame_partnersKept (fun _ _ => .refl _) env node trx) b.transactions
  exact htrx.runs _ _ _ S.transactions

/-- From the operations to the per-block routines only the clock, bobservers and the schedule change. -/
theorem sameBooks_prepared : SameBooks S.executed.core S.prepared := by
  have hsign : Always SameBooks (updateSigningBobserver S.signing b) :=
    always_bind always_get fun _ => always_within (fun _ _ => ⟨rfl, .refl _⟩) _
  have hirreversible : Always SameBooks updateLastIrreversibleBlock := by
    refine always_bind always_get fun s => ?_
    split
    · exact fun s => ⟨rfl, .refl _⟩
    · exact always_bind (readOnly_getBobservers _).always fun _ => fun s => ⟨rfl, .refl _⟩
  refine IsTrans.trans _ _ _ (sameBooks_updateGlobalDynamicData S.globals) ?_
  refine IsTrans.trans _ _ _ (hsign.runs _ _ _ S.sign) ?_
  refine IsTrans.trans _ _ _ (hirreversible.runs _ _ _ S.irreversible) ?_
  exact (sameBooks_prepareBlock b).runs _ _ _ S.prepare

/-- After the per-block routines nothing of the books changes. -/
theorem sameBooks_last : SameBooks S.processed d'.core := by
  have hhard : Always SameBooks processHardforks := always_processHardforks fun _ _ => ⟨rfl, .refl _⟩
  have hnotify : SameBooks S.forked d'.core :=
    ((moneyOnly_notifyAppliedBlock env).runs _ _ _ S.notify : MoneyOnly S.forked d'.core).sameBooks
  exact IsTrans.trans _ _ _ (hhard.runs _ _ _ S.hardforks) hnotify

end BlockStages

/-- A change of the recovery account of `a` that is due: the last event about it asked for `partner`, and its
effective date has come. -/
def ChangeDue (events : List Event) (now : TimePointSec) (a partner : AccountName) : Prop :=
  ∃ c o, LastEvent (ConcernsChange a) events (c, .changeRecoveryAccount o) ∧ o.newRecoveryAccount = partner ∧
    addSeconds c.core.dgp.time ownerAuthRecoveryPeriod ≤ now

/-- **One block** is told by its operations, and the recovery accounts change only where a change is due. -/
theorem Told.block (h : Told env events d.core) {b : SignedBlock} (happly : applyBlock env node b d = .ok () d') :
    Told env (events ++ blockTrace env node b d) d'.core ∧
      ∀ id a, d.core.accounts.lookup id = some a → ∃ a', d'.core.accounts.lookup id = some a' ∧ a'.name = a.name ∧
        (a'.recoveryAccount = a.recoveryAccount ∨
          ChangeDue (events ++ blockTrace env node b d) d'.core.dgp.time a.name a'.recoveryAccount) := by
  obtain ⟨S, -⟩ := blockStages happly
  have hopened : Told env events S.opened :=
    h.same (sameBooks_applyBlockHeader S.header).window (applyBlockHeader_checked S.header).2.clock.time
  have hexecuted : Told env (events ++ blockTrace env node b d) S.executed.core := by
    have hstart : onCore (applyBlockHeader env node b) d = .ok S.signing { d with core := S.opened } :=
      within_eq_ok.mpr ⟨S.opened, S.header, rfl⟩
    unfold blockTrace
    rw [hstart, after_ok]
    exact Told.transactions (d := { d with core := S.opened }) hopened S.transactions
  -- the routines before the cleanup pay money only
  obtain ⟨q, hmoney, hcleanup⟩ : ∃ q, MoneyOnly S.prepared q ∧ accountRecoveryProcessing q = .ok () S.processed := by
    have hpost := S.post
    simp only [postProcess, bind_eq_ok] at hpost
    obtain ⟨_, q₁, hnull, _, q₂, hfunds, _, q₃, hsavings, _, q, hfund, hcleanup⟩ := hpost
    refine ⟨q, ?_, hcleanup⟩
    refine IsTrans.trans _ _ _ (moneyOnly_clearNullAccountBalance.runs _ _ _ hnull) ?_
    refine IsTrans.trans _ _ _ (moneyOnly_processFunds.runs _ _ _ hfunds) ?_
    refine IsTrans.trans _ _ _ (moneyOnly_processSavingsWithdraws.runs _ _ _ hsavings) ?_
    exact moneyOnly_processFundWithdraws.runs _ _ _ hfund
  have hbooks : SameBooks S.executed.core q := IsTrans.trans _ _ _ S.sameBooks_prepared hmoney.sameBooks
  have htime : q.dgp.time = d'.core.dgp.time := by
    have hprepared : S.prepared.dgp.time = S.settled.dgp.time := (sameHour_prepareBlock.runs _ _ _ S.prepare).1.time
    rw [hmoney.accountsOnly.stays.time, hprepared, S.sameHour.1.time]
  have hlater : S.executed.core.dgp.time ≤ q.dgp.time := by
    have hclock := S.clock
    simp only [Core.clock, Prod.mk.injEq] at hclock
    rw [htime, hclock.2.2.1, S.sameRound.clock.time]
    exact Nat.le_of_lt S.checked.later
  obtain ⟨hsound, hprocessed, haccounts⟩ := (hexecuted.sound.same hbooks.window hlater).cleanup hcleanup
  have hlast := S.sameBooks_last
  have hlastTime : d'.core.dgp.time = S.processed.dgp.time := (hprocessed.trans htime).symm
  refine ⟨⟨?_, hexecuted.found⟩, fun id a ha => ?_⟩
  · rw [hlastTime]
    exact hsound.same hlast.window hlastTime.ge
  · obtain ⟨a₁, ha₁, hkey₁⟩ := (sameBooks_applyBlockHeader S.header).partners id a ha
    obtain ⟨a₂, ha₂, hkey₂⟩ := S.partnersKept_executed id a₁ ha₁
    obtain ⟨a₃, ha₃, hkey₃⟩ := hbooks.partners id a₂ ha₂
    obtain ⟨a₄, ha₄, hname, hchange⟩ := haccounts id a₃ ha₃
    obtain ⟨a', ha', hkey'⟩ := hlast.partners id a₄ ha₄
    have hkey := hkey₃.trans (hkey₂.trans hkey₁)
    simp only [Prod.mk.injEq] at hkey hkey'
    refine ⟨a', ha', hkey'.1.trans (hname.trans hkey.1), ?_⟩
    rw [hkey'.2]
    rcases hchange with hsame | ⟨r, ⟨c, o, hevent, hpartner, heffective⟩, haccount, hrecovery, hdue⟩
    · exact .inl (hsame.trans hkey.2)
    · refine .inr ⟨c, o, ?_, hpartner.trans hrecovery, ?_⟩
      · rw [← hkey.1, ← haccount]
        exact hevent
      · rw [← heffective, ← htime]
        exact hdue

/-- A chain of blocks from genesis, told by its operations, each with the state it found. -/
inductive Chronicle (env : Env) : List Event → Database → Prop
  | genesis (initPublicKey : PublicKey) : Chronicle env [] (Sigmaengine.genesis initPublicKey)
  | block {events : List Event} {d d' : Database} (node : Node) (b : SignedBlock) (h : Chronicle env events d)
      (happly : applyBlock env node b d = .ok () d') :
      Chronicle env (events ++ blockTrace env node b d) d'

theorem Chronicle.told (h : Chronicle env events d) : Told env events d.core := by
  induction h with
  | genesis initPublicKey =>
    refine ⟨⟨?_, List.nodup_nil, ?_, List.nodup_nil, ?_, List.Pairwise.nil⟩, ?_⟩
    · exact fun r hr => (Multiset.notMem_zero r hr).elim
    · exact fun r hr => (Multiset.notMem_zero r hr).elim
    · exact fun r hr => (Multiset.notMem_zero r hr).elim
    · exact fun pre c op post hsplit => by simp at hsplit
  | block node b h happly ih => exact (ih.block happly).1

/-- What a recovery in `events` rests on: the last event about the account made the request, less than a day
before, and the account had the recent authority at most the recovery period ago. -/
def RecoveryAllowed (pre : List Event) (c : Database) (o : RecoverAccountOperation) : Prop :=
  (∃ c₀ r, LastEvent (ConcernsRequest o.accountToRecover) pre (c₀, .requestAccountRecovery r) ∧
    r.newOwnerAuthority = o.newOwnerAuthority ∧ r.newOwnerAuthority.weightThreshold ≠ 0 ∧
    RecoveryPartner c₀.core o.accountToRecover r.recoveryAccount ∧
    c.core.dgp.time < c₀.core.dgp.time + accountRecoveryRequestExpirationPeriod) ∧
  ∃ e ∈ pre, ownerAuthority e.1.core o.accountToRecover = some o.recentOwnerAuthority ∧
    c.core.dgp.time ≤ e.1.core.dgp.time + ownerAuthRecoveryPeriod

theorem RecoverySound.allowed {pre : List Event} {c c' : Database} {o : RecoverAccountOperation}
    (h : RecoverySound pre c.core.dgp.time c.core)
    (happly : applyOperation env node (.recoverAccount o) c = .ok () c') : RecoveryAllowed pre c o := by
  obtain ⟨s, hs, rfl⟩ := within_eq_ok.mp happly
  obtain ⟨r, hr, haccount, howner, ⟨x, hx, hof, hrecent⟩, -⟩ := recoverAccount_eq_ok hs
  constructor
  · obtain ⟨c₀, q, hlast, hnew, hweight, hpartner, -, hwindow⟩ := h.requests r.2 (mem_values.mpr ⟨r.1, hr⟩)
    rw [haccount] at hlast hpartner
    exact ⟨c₀, q, hlast, hnew.trans howner, hweight, hpartner, hwindow⟩
  · obtain ⟨⟨e, he, hauthority, hsince⟩, hwindow, -⟩ := h.history x hx
    rw [hof, hrecent] at hauthority
    exact ⟨e, he, hauthority, hsince ▸ hwindow⟩

/-- **Recovery window**: along every chain each recovery is allowed by a request of the partner, and the
recovery account of an account changes only by a change that is due.  A change is due the recovery period
after its last modification, unless that time is past the end of the 32-bit seconds. -/
theorem recovery_window (h : Chronicle env events d) :
    (∀ pre c o post, events = pre ++ (c, .recoverAccount o) :: post → RecoveryAllowed pre c o) ∧
      ∀ node b d', applyBlock env node b d = .ok () d' →
        ∀ id a a', d.core.accounts.lookup id = some a → d'.core.accounts.lookup id = some a' →
          a'.recoveryAccount ≠ a.recoveryAccount →
          ∃ c o, LastEvent (ConcernsChange a.name) (events ++ blockTrace env node b d)
              (c, .changeRecoveryAccount o) ∧ o.newRecoveryAccount = a'.recoveryAccount ∧
            (c.core.dgp.time + ownerAuthRecoveryPeriod < 4294967296 →
              c.core.dgp.time + ownerAuthRecoveryPeriod ≤ d'.core.dgp.time) := by
  refine ⟨fun pre c o post hsplit => ?_, fun node b d' happly id a a' ha ha' hne => ?_⟩
  · obtain ⟨hsound, node, c', happly⟩ := h.told.found pre c _ post hsplit
    exact hsound.allowed happly
  · obtain ⟨a'', ha'', -, hsame | ⟨c, o, hlast, hpartner, hdue⟩⟩ := (h.told.block happly).2 id a ha
    · obtain rfl : a' = a'' := Option.some.inj (ha'.symm.trans ha'')
      exact absurd hsame hne
    · obtain rfl : a' = a'' := Option.some.inj (ha'.symm.trans ha'')
      refine ⟨c, o, hlast, hpartner, fun hrange => ?_⟩
      rw [addSeconds, Nat.mod_eq_of_lt hrange] at hdue
      exact hdue

/-! ## Samples -/

def recoveredOwner : Authority := { weightThreshold := 1, keyAuths := [(⟨1⟩, 2)] }

def recoverSample : RecoverAccountOperation := ⟨initMinerName, recoveredOwner, .ofKey ⟨1⟩⟩

/-- The first account changes its owner, is recovered by itself and asks for another partner. -/
def recoveryBlock : SignedBlock :=
  sampleBlock {} 1
    [.accountUpdate ⟨initMinerName, some (.ofKey ⟨1⟩), none, none, ⟨1⟩, []⟩,
      .requestAccountRecovery ⟨initMinerName, initMinerName, recoveredOwner⟩, .recoverAccount recoverSample,
      .changeRecoveryAccount ⟨initMinerName, nullAccount⟩]

/-- An empty block thirty days and one slot later. -/
def monthBlock : SignedBlock := sampleBlock (recoveryBlock.id sampleEnv.codec) 864002 []

theorem chronicle_sampleAfter {events : List Event} {d : Database} (h : Chronicle sampleEnv events d)
    {b : SignedBlock} (hrun : succeeds (applyBlock sampleEnv {} b d) = true) :
    Chronicle sampleEnv (events ++ blockTrace sampleEnv {} b d) (sampleAfter b d) :=
  h.block {} b (eq_ok_of_succeeds hrun)

/-- Name and recovery account of the account with id 3. -/
def samplePartner (d : Database) : Option (AccountName × AccountName) :=
  (d.core.accounts.lookup 3).map fun a => (a.name, a.recoveryAccount)

theorem samplePartner_eq {d : Database} {n r : AccountName} (h : samplePartner d = some (n, r)) :
    ∃ a, d.core.accounts.lookup 3 = some a ∧ a.name = n ∧ a.recoveryAccount = r := by
  obtain ⟨a, ha, heq⟩ := Option.map_eq_some_iff.mp h
  exact ⟨a, ha, congrArg Prod.fst heq, congrArg Prod.snd heq⟩

/-- Four events in the first block, and none in the second. -/
theorem recoveryBlock_events : ∃ d₀ d₁ d₂ d₃, blockTrace sampleEnv {} recoveryBlock (genesis ⟨1⟩) =
    [(d₀, .accountUpdate ⟨initMinerName, some (.ofKey ⟨1⟩), none, none, ⟨1⟩, []⟩),
      (d₁, .requestAccountRecovery ⟨initMinerName, initMinerName, recoveredOwner⟩),
      (d₂, .recoverAccount recoverSample), (d₃, .changeRecoveryAccount ⟨initMinerName, nullAccount⟩)] :=
  ⟨_, _, _, _, rfl⟩

/-- The blocks of the two samples whose missed slots fill the window. -/
theorem absentBlock {b : SignedBlock} {d : Database}
    (hone : d.core.bobserverSchedule.numScheduledBobservers = 1 ∧
      d.core.bobserverSchedule.currentShuffledBobservers.getD 0 default = b.bobserverName ∧
      128 ≤ missedBlocks d.core b ∧ missedBlocks d.core b + 1 < 4294967296)
    (hrun : succeeds (applyAfterAbsence sampleEnv {} b d) = true) :
    applyBlock sampleEnv {} b d = .ok () (after (applyAfterAbsence sampleEnv {} b d)) := by
  rw [applyBlock_absent hone.1 hone.2.1 hone.2.2.1 hone.2.2.2]
  exact eq_ok_of_succeeds hrun

theorem recovery_window_month : ∃ pre c post,
    blockTrace sampleEnv {} recoveryBlock (genesis ⟨1⟩) = pre ++ (c, .recoverAccount recoverSample) :: post ∧
      RecoveryAllowed pre c recoverSample ∧ ∃ d' c o, applyBlock sampleEnv {} monthBlock
        (sampleAfter recoveryBlock (genesis ⟨1⟩)) = .ok () d' ∧ o.newRecoveryAccount = nullAccount ∧
        LastEvent (ConcernsChange initMinerName) (blockTrace sampleEnv {} recoveryBlock (genesis ⟨1⟩) ++
          blockTrace sampleEnv {} monthBlock (sampleAfter recoveryBlock (genesis ⟨1⟩)))
          (c, .changeRecoveryAccount o) ∧
        (c.core.dgp.time + ownerAuthRecoveryPeriod < 4294967296 →
          c.core.dgp.time + ownerAuthRecoveryPeriod ≤ d'.core.dgp.time) := by
  have hruns : succeeds (applyBlock sampleEnv {} recoveryBlock (genesis ⟨1⟩)) = true ∧
      (let d := sampleAfter recoveryBlock (genesis ⟨1⟩)
      d.core.bobserverSchedule.numScheduledBobservers = 1 ∧
        d.core.bobserverSchedule.currentShuffledBobservers.getD 0 default = monthBlock.bobserverName ∧
        128 ≤ missedBlocks d.core monthBlock ∧ missedBlocks d.core monthBlock + 1 < 4294967296) ∧
      succeeds (applyAfterAbsence sampleEnv {} monthBlock (sampleAfter recoveryBlock (genesis ⟨1⟩))) = true ∧
      samplePartner (sampleAfter recoveryBlock (genesis ⟨1⟩)) = some (initMinerName, default) ∧
      samplePartner (after (applyAfterAbsence sampleEnv {} monthBlock
        (sampleAfter recoveryBlock (genesis ⟨1⟩)))) = some (initMinerName, nullAccount) := by
    decide +kernel
  obtain ⟨hfirst, habsent, hmonth, hbefore, hafter⟩ := hruns
  obtain ⟨d₀, d₁, d₂, d₃, hevents⟩ := recoveryBlock_events
  have hchronicle := chronicle_sampleAfter (.genesis ⟨1⟩) hfirst
  rw [List.nil_append] at hchronicle
  have happly := absentBlock habsent hmonth
  obtain ⟨a, ha, hname, hold⟩ := samplePartner_eq hbefore
  obtain ⟨a', ha', -, hnew⟩ := samplePartner_eq hafter
  have hne : a'.recoveryAccount ≠ a.recoveryAccount := by
    rw [hnew, hold]
    decide +kernel
  have hsplit : blockTrace sampleEnv {} recoveryBlock (genesis ⟨1⟩) =
      [(d₀, .accountUpdate ⟨initMinerName, some (.ofKey ⟨1⟩), none, none, ⟨1⟩, []⟩),
        (d₁, .requestAccountRecovery ⟨initMinerName, initMinerName, recoveredOwner⟩)] ++
      (d₂, .recoverAccount recoverSample) :: [(d₃, .changeRecoveryAccount ⟨initMinerName, nullAccount⟩)] := hevents
  have hallowed := (recovery_window hchronicle).1 _ _ _ _ hsplit
  obtain ⟨c, o, hlast, hpartner, hdue⟩ := (recovery_window hchronicle).2 {} _ _ happly 3 a a' ha ha' hne
  rw [hname] at hlast
  exact ⟨_, _, _, hsplit, hallowed, _, c, o, happly, hpartner.trans hnew, hlast, hdue⟩

/-- Two hours before the end of the 32-bit seconds, and a change one slot later. -/
def lastDayBlock : SignedBlock := sampleBlock {} 907947950 []

def lastDay : Database := after (applyAfterAbsence sampleEnv {} lastDayBlock (genesis ⟨1⟩))

def lastChangeBlock : SignedBlock :=
  { sampleBlock (lastDayBlock.id sampleEnv.codec) 907947951 [] with
    transactions := [⟨0, 0, 4294960400, [.changeRecoveryAccount ⟨initMinerName, nullAccount⟩], [1]⟩] }

/-- Thirty days after the last seconds of the 32-bit time lie in the past: the change takes effect in the block
that asks for it. -/
theorem recovery_change_wraps : ∃ events d d' a a', Chronicle sampleEnv events d ∧
    applyBlock sampleEnv {} lastChangeBlock d = .ok () d' ∧ d.core.accounts.lookup 3 = some a ∧
    d'.core.accounts.lookup 3 = some a' ∧ a'.recoveryAccount ≠ a.recoveryAccount ∧
    ∀ e ∈ events ++ blockTrace sampleEnv {} lastChangeBlock d, ConcernsChange a.name e.2 →
      d'.core.dgp.time < e.1.core.dgp.time + ownerAuthRecoveryPeriod := by
  have hruns : ((genesis ⟨1⟩).core.bobserverSchedule.numScheduledBobservers = 1 ∧
        (genesis ⟨1⟩).core.bobserverSchedule.currentShuffledBobservers.getD 0 default = lastDayBlock.bobserverName ∧
        128 ≤ missedBlocks (genesis ⟨1⟩).core lastDayBlock ∧
        missedBlocks (genesis ⟨1⟩).core lastDayBlock + 1 < 4294967296) ∧
      succeeds (applyAfterAbsence sampleEnv {} lastDayBlock (genesis ⟨1⟩)) = true ∧
      succeeds (applyBlock sampleEnv {} lastChangeBlock lastDay) = true ∧
      samplePartner lastDay = some (initMinerName, default) ∧
      samplePartner (sampleAfter lastChangeBlock lastDay) = some (initMinerName, nullAccount) ∧
      ∀ e ∈ blockTrace sampleEnv {} lastChangeBlock lastDay,
        (sampleAfter lastChangeBlock lastDay).core.dgp.time < e.1.core.dgp.time + ownerAuthRecoveryPeriod := by
    decide +kernel
  obtain ⟨habsent, hday, hchange, hbefore, hafter, htimes⟩ := hruns
  obtain ⟨a, ha, -, hold⟩ := samplePartner_eq hbefore
  obtain ⟨a', ha', -, hnew⟩ := samplePartner_eq hafter
  have hchronicle := (Chronicle.genesis ⟨1⟩).block {} lastDayBlock (absentBlock habsent hday)
  rw [show blockTrace sampleEnv {} lastDayBlock (genesis ⟨1⟩) = [] from rfl, List.append_nil] at hchronicle
  refine ⟨[], lastDay, sampleAfter lastChangeBlock lastDay, a, a', hchronicle, eq_ok_of_succeeds hchange, ha, ha', ?_, fun e he _ => htimes e he⟩
  rw [hnew, hold]
  decide +kernel

end Sigmaengine
