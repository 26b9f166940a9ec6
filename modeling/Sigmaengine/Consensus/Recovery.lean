import Sigmaengine.Consensus.Slots

/-!
# The account recovery window

A chain is told as its events: the operations of its blocks in order, each with the state it found.  Every
recovery request, every change of a recovery account that waits and every entry of the owner history is
traced to the event that wrote it (`RecoverySound`); the cleanup after each block keeps the requests and the
history within their windows.

Main result: `recovery_window`.
-/

namespace Sigmaengine

open Effect Table

/-! ## Events -/

/-- An operation with the state it found. -/
abbrev Event := Database × Operation

/-- `e` is the last event that concerns. -/
def LastEvent (concerns : Operation → Prop) (events : List Event) (e : Event) : Prop :=
  ∃ before since, events = before ++ e :: since ∧ concerns e.2 ∧ ∀ x ∈ since, ¬concerns x.2

theorem LastEvent.append {concerns : Operation → Prop} {events : List Event} {e x : Event}
    (h : LastEvent concerns events e) (hx : ¬concerns x.2) : LastEvent concerns (events ++ [x]) e := by
  obtain ⟨before, since, rfl, he, hsince⟩ := h
  refine ⟨before, since ++ [x], by simp, he, fun y hy => ?_⟩
  rcases List.mem_append.mp hy with hy | hy
  · exact hsince y hy
  · rwa [List.mem_singleton.mp hy]

theorem lastEvent_append_self {concerns : Operation → Prop} (events : List Event) {x : Event}
    (hx : concerns x.2) : LastEvent concerns (events ++ [x]) x :=
  ⟨events, [], rfl, hx, by simp⟩

/-- The operations that create, change, cancel or use up the recovery request of an account. -/
def ConcernsRequest (a : AccountName) : Operation → Prop
  | .requestAccountRecovery o => o.accountToRecover = a
  | .recoverAccount o => o.accountToRecover = a
  | _ => False

/-- The operations that create, change or cancel the change of the recovery account of an account. -/
def ConcernsChange (a : AccountName) : Operation → Prop
  | .changeRecoveryAccount o => o.accountToRecover = a
  | _ => False

/-- The partner is the recovery account of the account, or the top bobserver when it has none. -/
def RecoveryPartner (s : Core) (a partner : AccountName) : Prop :=
  ∃ r ∈ s.accounts.rows, r.2.name = a ∧
    if r.2.recoveryAccount.size ≠ 0 then r.2.recoveryAccount = partner
    else (s.bobservers.least? BobserverObject.byVoteName).map (fun b => b.2.account) = some partner

def ownerAuthority (s : Core) (a : AccountName) : Option Authority :=
  (s.accountAuthorities.find? fun x => x.account == a).map fun r => r.2.owner

/-! ## Where the objects come from -/

/-- The request is what the last event about it wrote, less than a day before `now`. -/
def RequestFrom (events : List Event) (now : TimePointSec) (r : AccountRecoveryRequestObject) : Prop :=
  ∃ d o, LastEvent (ConcernsRequest r.accountToRecover) events (d, .requestAccountRecovery o) ∧
    o.newOwnerAuthority = r.newOwnerAuthority ∧ o.newOwnerAuthority.weightThreshold ≠ 0 ∧
    RecoveryPartner d.core r.accountToRecover o.recoveryAccount ∧
    r.expires = addSeconds d.core.dgp.time accountRecoveryRequestExpirationPeriod ∧
    now < d.core.dgp.time + accountRecoveryRequestExpirationPeriod

/-- The change that waits is what the last event about it wrote. -/
def ChangeFrom (events : List Event) (r : ChangeRecoveryAccountRequestObject) : Prop :=
  ∃ d o, LastEvent (ConcernsChange r.accountToRecover) events (d, .changeRecoveryAccount o) ∧
    o.newRecoveryAccount = r.recoveryAccount ∧
    r.effectiveOn = addSeconds d.core.dgp.time ownerAuthRecoveryPeriod

/-- The account had the authority when some event looked, at the time the entry says. -/
def HistoryFrom (events : List Event) (h : OwnerAuthorityHistoryObject) : Prop :=
  ∃ e ∈ events, ownerAuthority e.1.core h.account = some h.previousOwnerAuthority ∧
    e.1.core.dgp.time = h.lastValidTime

theorem RequestFrom.append {events : List Event} {now : TimePointSec} {r : AccountRecoveryRequestObject}
    (h : RequestFrom events now r) {x : Event} (hx : ¬ConcernsRequest r.accountToRecover x.2) :
    RequestFrom (events ++ [x]) now r := by
  obtain ⟨d, o, hlast, hrest⟩ := h
  exact ⟨d, o, hlast.append hx, hrest⟩

theorem ChangeFrom.append {events : List Event} {r : ChangeRecoveryAccountRequestObject}
    (h : ChangeFrom events r) {x : Event} (hx : ¬ConcernsChange r.accountToRecover x.2) :
    ChangeFrom (events ++ [x]) r := by
  obtain ⟨d, o, hlast, hrest⟩ := h
  exact ⟨d, o, hlast.append hx, hrest⟩

theorem HistoryFrom.append {events : List Event} {h : OwnerAuthorityHistoryObject} (hh : HistoryFrom events h)
    (x : Event) : HistoryFrom (events ++ [x]) h := by
  obtain ⟨e, he, hrest⟩ := hh
  exact ⟨e, List.mem_append_left _ he, hrest⟩

/-- The history is in the order of its times. -/
def HistorySorted (s : Core) : Prop :=
  s.ownerAuthorityHistory.rows.Pairwise fun h h' => h.2.lastValidTime ≤ h'.2.lastValidTime

/-- Requests, changes and history are traced to the events before; requests and history lie in their windows
as of `now`, the time of the last cleanup. -/
structure RecoverySound (events : List Event) (now : TimePointSec) (s : Core) : Prop where
  requests : ∀ r ∈ s.accountRecoveryRequests.values, RequestFrom events now r
  requestsUnique : UniqueBy AccountRecoveryRequestObject.accountToRecover s.accountRecoveryRequests
  changes : ∀ r ∈ s.changeRecoveryAccountRequests.values, ChangeFrom events r
  changesUnique : UniqueBy ChangeRecoveryAccountRequestObject.accountToRecover s.changeRecoveryAccountRequests
  history : ∀ h ∈ s.ownerAuthorityHistory.values, HistoryFrom events h ∧
    now ≤ h.lastValidTime + ownerAuthRecoveryPeriod ∧ h.lastValidTime ≤ s.dgp.time
  historySorted : HistorySorted s

/-! ## What each evaluator writes -/

/-- The three tables of the recovery. -/
def Core.window (s : Core) : Table AccountRecoveryRequestObject × Table ChangeRecoveryAccountRequestObject ×
    Table OwnerAuthorityHistoryObject :=
  (s.accountRecoveryRequests, s.changeRecoveryAccountRequests, s.ownerAuthorityHistory)

def SameWindow (s s' : Core) : Prop := s'.window = s.window

instance : Std.Refl SameWindow := ⟨fun _ => rfl⟩

instance : IsTrans Core SameWindow := ⟨fun _ _ _ h h' => h'.trans h⟩

theorem MoneyOnly.sameWindow {s s' : Core} (h : MoneyOnly s s') : SameWindow s s' := by
  have hrecovery : s'.recovery = s.recovery := congrArg Prod.fst h
  simp only [Core.recovery, Prod.mk.injEq] at hrecovery
  obtain ⟨-, -, hhistory, hrequests, hchanges⟩ := hrecovery
  unfold SameWindow Core.window
  rw [hrequests, hchanges, hhistory]

/-- The history gets an entry for the authority that is being replaced, and nothing else of the window moves. -/
structure Archives (a : AccountName) (s s' : Core) : Prop where
  requests : s'.accountRecoveryRequests = s.accountRecoveryRequests
  changes : s'.changeRecoveryAccountRequests = s.changeRecoveryAccountRequests
  entry : ∃ old h, ownerAuthority s a = some old ∧
    s'.ownerAuthorityHistory = s.ownerAuthorityHistory.insert ⟨a, old, s.dgp.time⟩ h

theorem updateOwnerAuthority_eq_ok {a : AccountName} {owner : Authority} {s s' : Core} {u : Unit}
    (h : updateOwnerAuthority a owner s = .ok u s') : Archives a s s' := by
  simp only [updateOwnerAuthority, headBlockTime, getAccountAuthority, bind_eq_ok, get_eq_ok, pure_eq_ok,
    getIn_eq_ok, createIn_eq_ok, modifyIn_eq_ok] at h
  obtain ⟨_, _, ⟨_, _, ⟨rfl, rfl⟩, rfl, rfl⟩, old, _, ⟨hfind, rfl⟩, _, _, ⟨hc, -, rfl⟩, _, _, _, -, -, rfl⟩ := h
  refine ⟨rfl, rfl, old.2.owner, hc, ?_, rfl⟩
  unfold ownerAuthority
  rw [show s.accountAuthorities.find? (fun x => x.account == a) = some old from hfind]
  rfl

theorem Archives.trans_same {a : AccountName} {s t s' : Core} (h : Archives a s t) (hsame : SameWindow t s') :
    Archives a s s' := by
  obtain ⟨old, hc, howner, hhistory⟩ := h.entry
  simp only [SameWindow, Core.window, Prod.mk.injEq] at hsame
  obtain ⟨hrequests, hchanges, hhistory'⟩ := hsame
  exact ⟨hrequests.trans h.requests, hchanges.trans h.changes, old, hc, howner, hhistory'.trans hhistory⟩

theorem accountUpdate_eq_ok {o : AccountUpdateOperation} {s s' : Core} {u : Unit}
    (h : accountUpdateEvaluator o s = .ok u s') : SameWindow s s' ∨ Archives o.account s s' := by
  simp only [accountUpdateEvaluator, hasHardfork, bind_eq_ok, get_eq_ok, pure_eq_ok, fcAssert_eq_ok,
    checked_eq_ok] at h
  obtain ⟨_, _, ⟨_, _, ⟨rfl, rfl⟩, rfl, rfl⟩, _, _, ⟨-, rfl⟩, _, _, ⟨-, rfl⟩, account, _, haccount, auth, _,
    hauth, _, t, howner, _, t₁, hactive, _, t₂, hposting, now, t₃, hnow, _, t₄, hmodify, hlast⟩ := h
  obtain ⟨hfind, rfl⟩ := getIn_eq_ok.mp haccount
  have hname : account.2.name = o.account := eq_of_beq (mem_of_find? hfind).2
  obtain rfl := (readOnly_getIn _).eq_of_ok hauth
  -- after the owner part nothing of the window is written
  have hrest : SameWindow t s' := by
    have hactive' : SameWindow t t₁ := (always_checkOptionalAuthority _).runs _ _ _ hactive
    have hposting' : SameWindow t₁ t₂ := (always_checkOptionalAuthority _).runs _ _ _ hposting
    have hnow' : SameWindow t₂ t₃ := always_headBlockTime.runs _ _ _ hnow
    have hmodify' : SameWindow t₃ t₄ := (always_within (fun _ _ => rfl) _ : Always SameWindow _).runs _ _ _ hmodify
    have hlast' : SameWindow t₄ s' := by
      split at hlast
      · exact (always_within (fun _ _ => rfl) _ : Always SameWindow _).runs _ _ _ hlast
      · obtain ⟨-, rfl⟩ := pure_eq_ok.mp hlast
        rfl
    exact hlast'.trans (hmodify'.trans (hnow'.trans (hposting'.trans hactive')))
  cases hopt : o.owner with
  | none =>
    rw [hopt] at howner
    obtain ⟨-, rfl⟩ := pure_eq_ok.mp howner
    exact .inl hrest
  | some owner =>
    rw [hopt] at howner
    simp only [updateOwner, headBlockTime, bind_eq_ok, get_eq_ok, pure_eq_ok, fcAssert_eq_ok] at howner
    obtain ⟨_, _, ⟨_, _, ⟨rfl, rfl⟩, rfl, rfl⟩, _, _, ⟨-, rfl⟩, _, _, hcheck, hupdate⟩ := howner
    obtain rfl := (readOnly_getAccounts _).eq_of_ok hcheck
    rw [hname] at hupdate
    exact .inr ((updateOwnerAuthority_eq_ok hupdate).trans_same hrest)

/-- An account is recovered by its partner. -/
theorem checkRecoveryPartner_eq_ok {r : Nat × AccountObject} {partner : AccountName} {s s' : Core} {u : Unit}
    (hr : r ∈ s.accounts.rows) (h : checkRecoveryPartner r.2 partner s = .ok u s') :
    s' = s ∧ RecoveryPartner s r.2.name partner := by
  obtain ⟨_, _, hget, hcheck⟩ := bind_eq_ok.mp h
  obtain ⟨rfl, rfl⟩ := get_eq_ok.mp hget
  by_cases hempty : r.2.recoveryAccount.size ≠ 0
  · rw [if_pos hempty] at hcheck
    obtain ⟨hpartner, rfl⟩ := fcAssert_eq_ok.mp hcheck
    refine ⟨rfl, r, hr, rfl, ?_⟩
    rw [if_pos hempty]
    exact eq_of_beq hpartner
  · rw [if_neg hempty] at hcheck
    obtain ⟨hpartner, rfl⟩ := fcAssert_eq_ok.mp hcheck
    refine ⟨rfl, r, hr, rfl, ?_⟩
    rw [if_neg hempty]
    exact eq_of_beq hpartner

/-- **`request_account_recovery`** asks for the partner, and leaves at most its own request for the account. -/
theorem requestAccountRecovery_eq_ok {o : RequestAccountRecoveryOperation} {s s' : Core} {u : Unit}
    (h : requestAccountRecoveryEvaluator o s = .ok u s')
    (hunique : UniqueBy AccountRecoveryRequestObject.accountToRecover s.accountRecoveryRequests) :
    RecoveryPartner s o.accountToRecover o.recoveryAccount ∧
      ∃ t, s' = { s with accountRecoveryRequests := t } ∧
        UniqueBy AccountRecoveryRequestObject.accountToRecover t ∧
        ∀ r ∈ t.values, r ∈ s.accountRecoveryRequests.values ∧ r.accountToRecover ≠ o.accountToRecover ∨
          r = ⟨o.accountToRecover, o.newOwnerAuthority,
            addSeconds s.dgp.time accountRecoveryRequestExpirationPeriod⟩ ∧
          o.newOwnerAuthority.weightThreshold ≠ 0 := by
  simp only [requestAccountRecoveryEvaluator, getAccount, bind_eq_ok, get_eq_ok, getIn_eq_ok, findIn_eq_ok] at h
  obtain ⟨account, _, ⟨hfind, rfl⟩, _, t, hcheck, _, _, ⟨rfl, rfl⟩, found, _, ⟨hfound, rfl⟩, hwrite⟩ := h
  obtain ⟨hmem, hname⟩ := mem_of_find? hfind
  obtain ⟨rfl, hpartner⟩ := checkRecoveryPartner_eq_ok hmem hcheck
  rw [show account.2.name = o.accountToRecover from eq_of_beq hname] at hpartner
  refine ⟨hpartner, ?_⟩
  cases found with
  | none =>
    simp only [bind_eq_ok, fcAssert_eq_ok, pure_eq_ok, createIn_eq_ok, checkAuthorityAccounts] at hwrite
    obtain ⟨_, _, ⟨-, rfl⟩, _, _, ⟨hweight, rfl⟩, _, _, hcheck, _, _, ⟨hc, -, rfl⟩, -, rfl⟩ := hwrite
    obtain rfl := (readOnly_getAccounts _).eq_of_ok hcheck
    refine ⟨_, rfl, uniqueBy_insert hunique fun r hr => ?_, fun r hr => ?_⟩
    · have hother := find?_eq_none hfound hr
      exact fun heq => by simp [heq] at hother
    · obtain ⟨id, hid⟩ := mem_values.mp hr
      rcases mem_insert.mp hid with hold | hnew
      · have hother := find?_eq_none hfound hold
        exact .inl ⟨mem_values.mpr ⟨id, hold⟩, fun heq => by simp [heq] at hother⟩
      · exact .inr ⟨congrArg Prod.snd hnew, of_decide_eq_true hweight⟩
  | some r =>
    obtain ⟨hrow, haccount⟩ := mem_of_find? hfound
    have haccount : r.2.accountToRecover = o.accountToRecover := eq_of_beq haccount
    dsimp only at hwrite
    split at hwrite
    · rw [removeIn_eq_ok] at hwrite
      subst hwrite
      refine ⟨_, rfl, uniqueBy_erase hunique _, fun x hx => .inl ?_⟩
      rw [← haccount]
      exact hunique.of_mem_erase hrow hx
    · rename_i hweight
      simp only [checkRecoveryAuthority, checkAuthorityAccounts, bind_eq_ok, fcAssert_eq_ok, modifyIn_eq_ok] at hwrite
      obtain ⟨_, _, ⟨_, _, ⟨-, rfl⟩, hcheck⟩, a, b, hc, ha, hf, rfl⟩ := hwrite
      obtain rfl := (readOnly_getAccounts _).eq_of_ok hcheck
      obtain rfl : a = r.2 := eq_of_mem (lookup_eq_some.mp ha) hrow
      cases hf
      refine ⟨_, rfl, uniqueBy_replace hunique ha rfl, fun x hx => ?_⟩
      rcases hunique.of_mem_replace hrow hx with rfl | hold
      · exact .inr ⟨by rw [haccount], hweight⟩
      · rw [haccount] at hold
        exact .inl hold

/-- **`recover_account`** needs the request and an entry of the history, and uses the request up. -/
theorem recoverAccount_eq_ok {o : RecoverAccountOperation} {s s' : Core} {u : Unit}
    (h : recoverAccountEvaluator o s = .ok u s') :
    ∃ r ∈ s.accountRecoveryRequests.rows, r.2.accountToRecover = o.accountToRecover ∧
      r.2.newOwnerAuthority = o.newOwnerAuthority ∧
      (∃ x ∈ s.ownerAuthorityHistory.values, x.account = o.accountToRecover ∧
        x.previousOwnerAuthority = o.recentOwnerAuthority) ∧
      Archives o.accountToRecover { s with accountRecoveryRequests := s.accountRecoveryRequests.erase r.1 } s' := by
  simp only [recoverAccountEvaluator, headBlockTime, getAccount, bind_eq_ok, get_eq_ok, pure_eq_ok, getIn_eq_ok,
    findIn_eq_ok, fcAssert_eq_ok] at h
  obtain ⟨account, _, ⟨hfind, rfl⟩, now, _, ⟨_, _, ⟨rfl, rfl⟩, rfl, rfl⟩, _, _, ⟨-, rfl⟩, found, _,
    ⟨hfound, rfl⟩, hwrite⟩ := h
  have hname : account.2.name = o.accountToRecover := eq_of_beq (mem_of_find? hfind).2
  cases found with
  | none => exact (throw_eq_ok.mp hwrite).elim
  | some r =>
    obtain ⟨hrow, haccount⟩ := mem_of_find? hfound
    simp only [bind_eq_ok, fcAssert_eq_ok, get_eq_ok] at hwrite
    obtain ⟨_, _, ⟨hmatch, rfl⟩, _, _, ⟨rfl, rfl⟩, _, _, ⟨hentry, rfl⟩, _, t, hremove, _, t', hupdate, hlast⟩ :=
      hwrite
    rw [removeIn_eq_ok] at hremove
    subst hremove
    rw [hname] at hupdate
    obtain ⟨x, hx, hboth⟩ := List.any_eq_true.mp hentry
    rw [Bool.and_eq_true, beq_iff_eq, beq_iff_eq] at hboth
    refine ⟨r, hrow, eq_of_beq haccount, eq_of_beq hmatch,
      ⟨x.2, mem_values.mpr ⟨x.1, hx⟩, hboth.1, hboth.2⟩, ?_⟩
    refine (updateOwnerAuthority_eq_ok hupdate).trans_same ?_
    exact (always_within (fun _ _ => rfl) _ : Always SameWindow _).runs _ _ _ hlast

/-- **`change_recovery_account`** leaves at most its own change for the account. -/
theorem changeRecoveryAccount_eq_ok {o : ChangeRecoveryAccountOperation} {s s' : Core} {u : Unit}
    (h : changeRecoveryAccountEvaluator o s = .ok u s')
    (hunique : UniqueBy ChangeRecoveryAccountRequestObject.accountToRecover s.changeRecoveryAccountRequests) :
    ∃ t, s' = { s with changeRecoveryAccountRequests := t } ∧
      UniqueBy ChangeRecoveryAccountRequestObject.accountToRecover t ∧
      ∀ r ∈ t.values, r ∈ s.changeRecoveryAccountRequests.values ∧ r.accountToRecover ≠ o.accountToRecover ∨
        r = ⟨o.accountToRecover, o.newRecoveryAccount, addSeconds s.dgp.time ownerAuthRecoveryPeriod⟩ := by
  simp only [changeRecoveryAccountEvaluator, headBlockTime, getAccount, bind_eq_ok, get_eq_ok, pure_eq_ok,
    getIn_eq_ok, findIn_eq_ok] at h
  obtain ⟨_, _, ⟨-, rfl⟩, account, _, ⟨-, rfl⟩, now, _, ⟨_, _, ⟨rfl, rfl⟩, rfl, rfl⟩, found, _, ⟨hfound, rfl⟩,
    hwrite⟩ := h
  cases found with
  | none =>
    simp only [bind_eq_ok, pure_eq_ok, createIn_eq_ok] at hwrite
    obtain ⟨_, _, ⟨hc, -, rfl⟩, -, rfl⟩ := hwrite
    refine ⟨_, rfl, uniqueBy_insert hunique fun r hr => ?_, fun r hr => ?_⟩
    · have hother := find?_eq_none hfound hr
      exact fun heq => by simp [heq] at hother
    · obtain ⟨id, hid⟩ := mem_values.mp hr
      rcases mem_insert.mp hid with hold | hnew
      · have hother := find?_eq_none hfound hold
        exact .inl ⟨mem_values.mpr ⟨id, hold⟩, fun heq => by simp [heq] at hother⟩
      · exact .inr (congrArg Prod.snd hnew)
  | some r =>
    obtain ⟨hrow, haccount⟩ := mem_of_find? hfound
    have haccount : r.2.accountToRecover = o.accountToRecover := eq_of_beq haccount
    dsimp only at hwrite
    split at hwrite
    · obtain ⟨a, b, hc, ha, hf, rfl⟩ := modifyIn_eq_ok.mp hwrite
      obtain rfl : a = r.2 := eq_of_mem (lookup_eq_some.mp ha) hrow
      cases hf
      refine ⟨_, rfl, uniqueBy_replace hunique ha rfl, fun x hx => ?_⟩
      rcases hunique.of_mem_replace hrow hx with rfl | hold
      · exact .inr (by rw [haccount])
      · rw [haccount] at hold
        exact .inl hold
    · rw [removeIn_eq_ok] at hwrite
      subst hwrite
      refine ⟨_, rfl, uniqueBy_erase hunique _, fun x hx => .inl ?_⟩
      rw [← haccount]
      exact hunique.of_mem_erase hrow hx

/-! ## What the other operations keep -/

/-- Every account is still there, with its name and its recovery account. -/
def PartnersKept (s s' : Core) : Prop :=
  Retains (fun a : AccountObject => (a.name, a.recoveryAccount)) s.accounts s'.accounts

instance : Std.Refl PartnersKept := ⟨fun _ => .refl _⟩

instance : IsTrans Core PartnersKept := ⟨fun _ _ _ h h' => h.trans h'⟩

theorem MoneyOnly.partnersKept {s s' : Core} (h : MoneyOnly s s') : PartnersKept s s' := by
  have hrecovery : s'.recovery = s.recovery := congrArg Prod.fst h
  simp only [Core.recovery, Prod.mk.injEq] at hrecovery
  exact retains_of_rows hrecovery.1

theorem partnersKept_modify {id : Nat} {f : AccountObject → Except Error AccountObject}
    (hf : ∀ a b, f a = .ok b → b.name = a.name ∧ b.recoveryAccount = a.recoveryAccount) :
    Always PartnersKept (modifyIn Index.accounts id f) :=
  (moneyOnly_account hf).mono fun _ _ h => h.partnersKept

theorem partnersKept_accountCreate (o : AccountCreateOperation) :
    Always PartnersKept (accountCreateEvaluator o) := by
  refine always_bind (always_getAccounts _) fun _ => always_bind (always_getAccounts _) fun _ => ?_
  refine always_bind (always_getAccounts _) fun _ => always_bind always_headBlockTime fun now => ?_
  refine always_bind (always_of_clean ?_ (clean_createIn _)) fun _ => ?_
  · intro s id s' h
    obtain ⟨hc, -, rfl⟩ := createIn_eq_ok.mp h
    exact retains_insert _ hc
  · exact always_bind (always_within (fun _ _ => .refl _) _) fun _ => always_pure _

theorem partnersKept_updateOwnerAuthority (account : AccountName) (owner : Authority) :
    Always PartnersKept (updateOwnerAuthority account owner) := by
  refine always_bind always_headBlockTime fun now => always_bind (always_getIn _) fun old => ?_
  exact always_bind (always_within (fun _ _ => .refl _) _) fun _ => always_within (fun _ _ => .refl _) _

theorem partnersKept_accountUpdate (o : AccountUpdateOperation) :
    Always PartnersKept (accountUpdateEvaluator o) := by
  have howner : ∀ name auth owner, Always PartnersKept (updateOwner name auth owner) := by
    intro name auth owner
    cases owner with
    | none => exact always_pure _
    | some owner =>
      refine always_bind always_headBlockTime fun now => always_bind (always_assert _ _) fun _ => ?_
      exact always_bind (always_getAccounts _) fun _ => partnersKept_updateOwnerAuthority _ _
  refine always_bind (always_bind always_get fun _ => always_pure _) fun forked => ?_
  refine always_bind (always_assert _ _) fun _ => always_bind (always_checked _) fun _ => ?_
  refine always_bind (always_getIn _) fun account => always_bind (always_getIn _) fun auth => ?_
  refine always_bind (howner _ _ _) fun _ => always_bind (always_checkOptionalAuthority _) fun _ => ?_
  refine always_bind (always_checkOptionalAuthority _) fun _ => always_bind always_headBlockTime fun now => ?_
  refine always_bind (partnersKept_modify fun a b h => by cases h; exact ⟨rfl, rfl⟩) fun _ => ?_
  split
  · exact always_within (fun _ _ => .refl _) _
  · exact always_pure _

theorem partnersKept_requestAccountRecovery (o : RequestAccountRecoveryOperation) :
    Always PartnersKept (requestAccountRecoveryEvaluator o) := by
  refine always_bind (always_getIn _) fun account => ?_
  refine always_bind (always_checkRecoveryPartner _ _) fun _ => always_bind always_get fun s => ?_
  refine always_bind (always_findIn _) fun found => ?_
  cases found with
  | none =>
    refine always_bind (always_assert _ _) fun _ => always_bind (always_assert _ _) fun _ => ?_
    refine always_bind (always_getAccounts _) fun _ => ?_
    exact always_bind (always_within (fun _ _ => .refl _) _) fun _ => always_pure _
  | some r =>
    dsimp only
    split
    · exact always_within (fun _ _ => .refl _) _
    · refine always_bind ?_ fun _ => always_within (fun _ _ => .refl _) _
      exact always_bind (always_assert _ _) fun _ => always_getAccounts _

theorem partnersKept_recoverAccount (o : RecoverAccountOperation) :
    Always PartnersKept (recoverAccountEvaluator o) := by
  refine always_bind (always_getIn _) fun account => always_bind always_headBlockTime fun now => ?_
  refine always_bind (always_assert _ _) fun _ => always_bind (always_findIn _) fun found => ?_
  cases found with
  | none => exact always_throw _
  | some r =>
    refine always_bind (always_assert _ _) fun _ => always_bind always_get fun s => ?_
    refine always_bind (always_assert _ _) fun _ => ?_
    refine always_bind (always_within (fun _ _ => .refl _) _) fun _ => ?_
    refine always_bind (partnersKept_updateOwnerAuthority _ _) fun _ => ?_
    exact partnersKept_modify fun a b h => by cases h; exact ⟨rfl, rfl⟩

theorem partnersKept_changeRecoveryAccount (o : ChangeRecoveryAccountOperation) :
    Always PartnersKept (changeRecoveryAccountEvaluator o) := by
  refine always_bind (always_getIn _) fun _ => always_bind (always_getIn _) fun account => ?_
  refine always_bind always_headBlockTime fun now => always_bind (always_findIn _) fun found => ?_
  cases found with
  | none => exact always_bind (always_within (fun _ _ => .refl _) _) fun _ => always_pure _
  | some r =>
    dsimp only
    split
    · exact always_within (fun _ _ => .refl _) _
    · exact always_within (fun _ _ => .refl _) _

/-- No operation writes the recovery account of an account. -/
theorem operationFrame_partnersKept : OperationFrame PartnersKept where
  money _ _ h := h.partnersKept
  accountCreate := partnersKept_accountCreate
  accountUpdate := partnersKept_accountUpdate
  requestAccountRecovery := partnersKept_requestAccountRecovery
  recoverAccount := partnersKept_recoverAccount
  changeRecoveryAccount := partnersKept_changeRecoveryAccount
  bobserverUpdate := always_bobserverUpdate fun _ _ _ => .refl _
  updateBproducer := always_updateBproducer fun _ _ _ => .refl _
  exceptBobserver := always_exceptBobserver fun _ _ _ => .refl _

/-- Operations that are not about owners and recovery leave the window alone. -/
theorem sameWindow_applyOperation {op : Operation} (hupdate : ∀ o, op ≠ .accountUpdate o)
    (hrequest : ∀ o, op ≠ .requestAccountRecovery o) (hrecover : ∀ o, op ≠ .recoverAccount o)
    (hchange : ∀ o, op ≠ .changeRecoveryAccount o) (env : Env) (node : Node) :
    Always (CoreRel SameWindow) (applyOperation env node op) := by
  refine always_applyOperation_of (fun _ _ h => h.sameWindow) (fun o _ => ?_) (fun o h => absurd h (hupdate o))
    (fun o h => absurd h (hrequest o)) (fun o h => absurd h (hrecover o)) (fun o h => absurd h (hchange o))
    (fun o _ => always_bobserverUpdate (fun _ _ _ => rfl) o) (fun o _ => always_updateBproducer (fun _ _ _ => rfl) o)
    (fun o _ => always_exceptBobserver (fun _ _ _ => rfl) o) env node
  refine always_bind (always_getAccounts _) fun _ => always_bind (always_getAccounts _) fun _ => ?_
  refine always_bind (always_getAccounts _) fun _ => always_bind always_headBlockTime fun now => ?_
  refine always_bind (always_within (fun _ _ => rfl) _) fun _ => ?_
  exact always_bind (always_within (fun _ _ => rfl) _) fun _ => always_pure _

/-! ## One operation -/

theorem concernsRequest_iff {a : AccountName} {op : Operation} : ConcernsRequest a op ↔
    (∃ o, op = .requestAccountRecovery o ∧ o.accountToRecover = a) ∨
      ∃ o, op = .recoverAccount o ∧ o.accountToRecover = a := by
  cases op <;> simp [ConcernsRequest]

theorem concernsChange_iff {a : AccountName} {op : Operation} : ConcernsChange a op ↔
    ∃ o, op = .changeRecoveryAccount o ∧ o.accountToRecover = a := by
  cases op <;> simp [ConcernsChange]

namespace RecoverySound

variable {events : List Event} {now : TimePointSec} {s s' : Core}

theorem same (h : RecoverySound events now s) (hsame : SameWindow s s') (htime : s.dgp.time ≤ s'.dgp.time) :
    RecoverySound events now s' := by
  simp only [SameWindow, Core.window, Prod.mk.injEq] at hsame
  obtain ⟨hrequests, hchanges, hhistory⟩ := hsame
  refine ⟨?_, ?_, ?_, ?_, ?_, ?_⟩
  · rw [hrequests]
    exact h.requests
  · rw [hrequests]
    exact h.requestsUnique
  · rw [hchanges]
    exact h.changes
  · rw [hchanges]
    exact h.changesUnique
  · rw [hhistory]
    intro x hx
    obtain ⟨hfrom, hnow, hlast⟩ := h.history x hx
    exact ⟨hfrom, hnow, hlast.trans htime⟩
  · unfold HistorySorted
    rw [hhistory]
    exact h.historySorted

/-- An event that leaves requests and changes alone. -/
theorem append (h : RecoverySound events now s) {x : Event} (hrequest : ∀ a, ¬ConcernsRequest a x.2)
    (hchange : ∀ a, ¬ConcernsChange a x.2) : RecoverySound (events ++ [x]) now s where
  requests r hr := (h.requests r hr).append (hrequest _)
  requestsUnique := h.requestsUnique
  changes r hr := (h.changes r hr).append (hchange _)
  changesUnique := h.changesUnique
  history y hy := ⟨(h.history y hy).1.append x, (h.history y hy).2⟩
  historySorted := h.historySorted

/-- A new entry of the history is the newest. -/
theorem archives (h : RecoverySound events now s) {a : AccountName} (harchives : Archives a s s')
    (hevent : ∃ e ∈ events, ownerAuthority e.1.core a = ownerAuthority s a ∧ e.1.core.dgp.time = s.dgp.time)
    (hnow : now ≤ s.dgp.time) (htime : s'.dgp.time = s.dgp.time) : RecoverySound events now s' := by
  obtain ⟨old, hc, howner, hhistory⟩ := harchives.entry
  refine ⟨?_, ?_, ?_, ?_, ?_, ?_⟩
  · rw [harchives.requests]
    exact h.requests
  · rw [harchives.requests]
    exact h.requestsUnique
  · rw [harchives.changes]
    exact h.changes
  · rw [harchives.changes]
    exact h.changesUnique
  · rw [hhistory, htime]
    refine forall_insert h.history ?_
    obtain ⟨e, he, hauthority, hsince⟩ := hevent
    refine ⟨⟨e, he, hauthority.trans howner, hsince⟩, ?_, Nat.le_refl _⟩
    exact hnow.trans (Nat.le_add_right _ _)
  · unfold HistorySorted
    rw [hhistory]
    refine List.pairwise_append.mpr ⟨h.historySorted, List.pairwise_singleton _ _, fun x hx y hy => ?_⟩
    rw [List.mem_singleton.mp hy]
    exact (h.history x.2 (mem_values.mpr ⟨x.1, hx⟩)).2.2

/-- The request that is used up. -/
theorem recovered (h : RecoverySound events now s) {d : Database} {o : RecoverAccountOperation}
    {r : Nat × AccountRecoveryRequestObject} (hr : r ∈ s.accountRecoveryRequests.rows)
    (haccount : r.2.accountToRecover = o.accountToRecover) :
    RecoverySound (events ++ [(d, .recoverAccount o)]) now
      { s with accountRecoveryRequests := s.accountRecoveryRequests.erase r.1 } where
  requests x hx := by
    obtain ⟨hold, hne⟩ := h.requestsUnique.of_mem_erase hr hx
    exact (h.requests x hold).append fun hconcerns => hne (haccount.trans hconcerns).symm
  requestsUnique := uniqueBy_erase h.requestsUnique _
  changes x hx := (h.changes x hx).append (by simp [ConcernsChange])
  changesUnique := h.changesUnique
  history y hy := ⟨(h.history y hy).1.append _, (h.history y hy).2⟩
  historySorted := h.historySorted

/-- The request that is made, changed or cancelled. -/
theorem requested {d : Database} (h : RecoverySound events d.core.dgp.time d.core)
    {o : RequestAccountRecoveryOperation} {s' : Core} {u : Unit}
    (happly : requestAccountRecoveryEvaluator o d.core = .ok u s') :
    RecoverySound (events ++ [(d, .requestAccountRecovery o)]) d.core.dgp.time s' := by
  obtain ⟨hpartner, t, rfl, hunique, hvalues⟩ := requestAccountRecovery_eq_ok happly h.requestsUnique
  refine ⟨fun r hr => ?_, hunique, fun r hr => ?_, h.changesUnique, fun y hy => ?_, h.historySorted⟩
  · rcases hvalues r hr with ⟨hold, hne⟩ | ⟨rfl, hweight⟩
    · exact (h.requests r hold).append fun hconcerns => hne hconcerns.symm
    · refine ⟨d, o, lastEvent_append_self _ rfl, rfl, hweight, hpartner, rfl, ?_⟩
      exact Nat.lt_add_of_pos_right (by decide)
  · exact (h.changes r hr).append (by simp [ConcernsChange])
  · exact ⟨(h.history y hy).1.append _, (h.history y hy).2⟩

/-- The change that is made, replaced or cancelled. -/
theorem changed {d : Database} (h : RecoverySound events d.core.dgp.time d.core)
    {o : ChangeRecoveryAccountOperation} {s' : Core} {u : Unit}
    (happly : changeRecoveryAccountEvaluator o d.core = .ok u s') :
    RecoverySound (events ++ [(d, .changeRecoveryAccount o)]) d.core.dgp.time s' := by
  obtain ⟨t, rfl, hunique, hvalues⟩ := changeRecoveryAccount_eq_ok happly h.changesUnique
  refine ⟨fun r hr => ?_, h.requestsUnique, fun r hr => ?_, hunique, fun y hy => ?_, h.historySorted⟩
  · exact (h.requests r hr).append (by simp [ConcernsRequest])
  · rcases hvalues r hr with ⟨hold, hne⟩ | rfl
    · exact (h.changes r hold).append fun hconcerns => hne hconcerns.symm
    · exact ⟨d, o, lastEvent_append_self _ rfl, rfl, rfl⟩
  · exact ⟨(h.history y hy).1.append _, (h.history y hy).2⟩

/-- **One operation.** -/
theorem operation {env : Env} {node : Node} {op : Operation} {d d' : Database} {u : Unit}
    (h : RecoverySound events d.core.dgp.time d.core) (happly : applyOperation env node op d = .ok u d') :
    RecoverySound (events ++ [(d, op)]) d'.core.dgp.time d'.core := by
  have htime : d'.core.dgp.time = d.core.dgp.time :=
    ((always_applyOperation operationFrame_stays env node op).runs _ _ _ happly : Stays _ _).time
  rw [htime]
  by_cases hupdate : ∃ o, op = .accountUpdate o
  · obtain ⟨o, rfl⟩ := hupdate
    obtain ⟨c, hc, rfl⟩ := within_eq_ok.mp happly
    have hall := h.append (x := (d, .accountUpdate o)) (by simp [ConcernsRequest]) (by simp [ConcernsChange])
    rcases accountUpdate_eq_ok hc with hsame | harchives
    · exact hall.same hsame htime.ge
    · exact hall.archives harchives ⟨(d, .accountUpdate o), by simp, rfl, rfl⟩ (Nat.le_refl _) htime
  by_cases hrequest : ∃ o, op = .requestAccountRecovery o
  · obtain ⟨o, rfl⟩ := hrequest
    obtain ⟨c, hc, rfl⟩ := within_eq_ok.mp happly
    exact h.requested hc
  by_cases hrecover : ∃ o, op = .recoverAccount o
  · obtain ⟨o, rfl⟩ := hrecover
    obtain ⟨c, hc, rfl⟩ := within_eq_ok.mp happly
    obtain ⟨r, hr, haccount, -, -, harchives⟩ := recoverAccount_eq_ok hc
    exact (h.recovered hr haccount).archives harchives ⟨(d, .recoverAccount o), by simp, rfl, rfl⟩
      (Nat.le_refl _) htime
  by_cases hchange : ∃ o, op = .changeRecoveryAccount o
  · obtain ⟨o, rfl⟩ := hchange
    obtain ⟨c, hc, rfl⟩ := within_eq_ok.mp happly
    exact h.changed hc
  -- every other operation leaves the window alone
  simp only [not_exists] at hupdate hrequest hrecover hchange
  have hsame : SameWindow d.core d'.core :=
    (sameWindow_applyOperation hupdate hrequest hrecover hchange env node).runs _ _ _ happly
  refine (h.append (fun a hconcerns => ?_) fun a hconcerns => ?_).same hsame htime.ge
  · rcases concernsRequest_iff.mp hconcerns with ⟨o, rfl, -⟩ | ⟨o, rfl, -⟩
    · exact hrequest o rfl
    · exact hrecover o rfl
  · obtain ⟨o, rfl, -⟩ := concernsChange_iff.mp hconcerns
    exact hchange o rfl

end RecoverySound

end Sigmaengine
