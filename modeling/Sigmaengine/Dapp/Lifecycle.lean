import Sigmaengine.Dapp.Runs

/-!
# The life of a dapp

The objects of the two plugins name the dapp they belong to.  `Linked` says that the dapp is there and in
the state they need: every operation and every handler keeps it.  A dapp is created pending, and operations
leave name and state of every dapp alone; only `aggregateDappApproveVote` approves a pending dapp or drops
it, with the votes for that stored (`Settles`).
-/

namespace Sigmaengine.Dapp

open Sigmaengine Effect Table

variable {s s' : DappIndices} {tokens : Table Token.TokenObject}

/-! ## What refers to what -/

def DappObject.standing (x : DappObject) : DappName × DappState := (x.dappName, x.dappState)

/-- There is a dapp with this name and in this state. -/
def HasDapp (dapps : Table DappObject) (name : DappName) (state : DappState) : Prop :=
  ∃ x ∈ dapps.values, x.standing = (name, state)

/-- Everything refers to a dapp that is there, in the state it has to be in. -/
structure Linked (s : DappIndices) (tokens : Table Token.TokenObject) : Prop where
  states : ∀ x ∈ s.dapps.values, x.dappState = .pending ∨ x.dappState = .approval
  users : ∀ u ∈ s.users.values, ∃ x, s.dapps.lookup u.dappId = some x ∧ x.dappName = u.dappName
  votes : ∀ v ∈ s.votes.values, HasDapp s.dapps v.dappName .pending
  comments : ∀ c ∈ s.comments.values, HasDapp s.dapps c.dappName .approval
  commentVotes : ∀ v ∈ s.commentVotes.values,
    ∃ c, s.comments.lookup v.comment = some c ∧ c.dappName = v.dappName
  tokens : ∀ t ∈ tokens.values, HasDapp s.dapps t.dappName .approval

theorem hasDapp_of_row {dapps : Table DappObject} {r : Nat × DappObject} (h : r ∈ dapps.rows) :
    HasDapp dapps r.2.dappName r.2.dappState :=
  ⟨r.2, mem_values.mpr ⟨r.1, h⟩, rfl⟩

theorem HasDapp.mono {dapps dapps' : Table DappObject} (hkept : Retains DappObject.standing dapps dapps')
    {name : DappName} {state : DappState} (h : HasDapp dapps name state) : HasDapp dapps' name state := by
  obtain ⟨x, hx, hstanding⟩ := h
  obtain ⟨id, hid⟩ := mem_values.mp hx
  obtain ⟨x', hx', hsame⟩ := hkept id x (lookup_eq_some.mpr hid)
  exact ⟨x', mem_values.mpr ⟨id, lookup_eq_some.mp hx'⟩, hsame.trans hstanding⟩

/-- Nothing that refers to a dapp minds when dapps are added or get another key. -/
theorem Linked.keep (hs : Linked s tokens) {dapps : Table DappObject}
    (hkept : Retains DappObject.standing s.dapps dapps)
    (hstates : ∀ x ∈ dapps.values, x.dappState = .pending ∨ x.dappState = .approval) :
    Linked { s with dapps := dapps } tokens where
  states := hstates
  users u hu := by
    obtain ⟨x, hx, hname⟩ := hs.users u hu
    obtain ⟨x', hx', hsame⟩ := hkept _ _ hx
    exact ⟨x', hx', (congrArg Prod.fst hsame).trans hname⟩
  votes v hv := (hs.votes v hv).mono hkept
  comments c hc := (hs.comments c hc).mono hkept
  commentVotes := hs.commentVotes
  tokens t ht := (hs.tokens t ht).mono hkept

theorem SameRows.linked (h : SameLayout s s') (hs : Linked s tokens) : Linked s' tokens where
  states := by rw [h.dapps]; exact hs.states
  users := by rw [h.dapps, h.users]; exact hs.users
  votes := by rw [h.dapps, h.votes]; exact hs.votes
  comments c hc := by
    obtain ⟨id, hid⟩ := mem_values.mp hc
    obtain ⟨c₀, hc₀, hplace⟩ := h.lookup (lookup_eq_some.mpr hid)
    rw [h.dapps, ← show c₀.dappName = c.dappName from congrArg Prod.fst hplace]
    exact hs.comments c₀ (mem_values.mpr ⟨id, lookup_eq_some.mp hc₀⟩)
  commentVotes v hv := by
    rw [h.commentVotes] at hv
    obtain ⟨c, hc, hname⟩ := hs.commentVotes v hv
    obtain ⟨c', hc', hplace⟩ := h.retains _ _ hc
    exact ⟨c', hc', (congrArg Prod.fst hplace).trans hname⟩
  tokens := by rw [h.dapps]; exact hs.tokens

theorem dappName_newComment (op : CommentDappOperation) (now : TimePointSec) (id : Nat)
    (parent : Option (Nat × DappCommentObject)) : (newComment op now id parent).dappName = op.dappName := by
  cases parent <;> rfl

/-- **Operations keep the references.** -/
theorem DappStep.linked {d : Database} {op : DappOperation} (h : DappStep d op s') (hs : Linked d.dapp tokens) :
    Linked s' tokens := by
  cases h with
  | feeVoted => exact hs
  | @created _ x user hpending hid hname hx huser =>
    have hbase := hs.keep (retains_insert d.dapp.dapps hx) (forall_insert hs.states (.inl hpending))
    refine { hbase with users := forall_insert (h := huser) hbase.users ⟨x, ?_, hname.symm⟩ }
    show (d.dapp.dapps.insert x hx).lookup user.dappId = some x
    rw [lookup_insert, if_pos hid]
  | @rekeyed _ id x key hfound hx =>
    refine hs.keep (retains_replace hfound hx rfl) (forall_replace hs.states ?_)
    exact hs.states x (mem_values.mpr ⟨id, lookup_eq_some.mp hfound⟩)
  | joined hfound happroved hid hname huser =>
    refine { hs with users := forall_insert (h := huser) hs.users ⟨_, ?_, hname.symm⟩ }
    rw [hid]
    exact lookup_eq_some.mpr hfound
  | left id => exact { hs with users := forall_erase hs.users }
  | @posted op _ now r parent hfound happroved hname hparent hnew hstore =>
    obtain ⟨hc, hcount⟩ := storeComment_eq_ok hstore
    have hdapp : HasDapp d.dapp.dapps (newComment op now d.dapp.comments.nextId parent).dappName .approval := by
      rw [dappName_newComment, ← hname, ← happroved]
      exact hasDapp_of_row hfound
    have hbase : Linked { d.dapp with comments := d.dapp.comments.insert _ hc } tokens :=
      { hs with
        comments := forall_insert (h := hc) hs.comments hdapp
        commentVotes := fun v hv => by
          obtain ⟨c, hlookup, hdappName⟩ := hs.commentVotes v hv
          obtain ⟨c', hc', hsame⟩ : ∃ c' : DappCommentObject, _ ∧ c'.dappName = c.dappName :=
            retains_insert d.dapp.comments hc _ c hlookup
          exact ⟨c', hc', hsame.trans hdappName⟩ }
    cases parent with
    | none => exact hcount ▸ hbase
    | some p => exact (runs_countChild (fun _ _ _ => rfl) _ _ _ _ _ _ hcount : SameLayout _ _).linked hbase
  | edited hfound hedit => exact (runs_editComment (fun _ _ _ => rfl) _ _ _ _ _ _ hedit : SameLayout _ _).linked hs
  | @voted op _ type c voter now hfound hvoter htype hcast =>
    obtain ⟨hrow, hkey⟩ := mem_of_find? hfound
    simp only [isPermlink, Bool.and_eq_true, beq_iff_eq] at hkey
    obtain ⟨c', hc, hlookup, hstore⟩ := castVote_eq_ok hcast
    obtain rfl : c.2 = c' := Option.some.inj ((lookup_eq_some.mpr hrow).symm.trans hlookup)
    have hlayout : SameLayout d.dapp _ := sameRows_replace hlookup hc (place_countVote type c.2)
    have hbase := hlayout.linked hs
    rcases hstore with ⟨-, hv, rfl⟩ | ⟨r, hr, -, -, -, hv, rfl⟩
    · refine { hbase with commentVotes := forall_insert (h := hv) hbase.commentVotes ⟨countVote type c.2, ?_, ?_⟩ }
      · exact (lookup_replace hlookup hc c.1).trans (if_pos rfl)
      · exact (congrArg Prod.fst (place_countVote type c.2)).trans hkey.1.1
    · refine { hbase with commentVotes := forall_replace (h := hv) hbase.commentVotes ?_ }
      exact hbase.commentVotes r.2 (mem_values.mpr ⟨r.1, hr⟩)
  | @deleted op _ c now hfound hleaf hdelete =>
    obtain ⟨s₁, hcount, rfl⟩ := deleteComment_eq_ok hdelete
    have hlayout : SameLayout _ s₁ := runs_uncountChild (fun _ _ _ => rfl) _ _ _ _ _ _ hcount
    have hbase : Linked { d.dapp with commentVotes := d.dapp.commentVotes.without fun v => v.comment == c.1 } tokens :=
      { hs with commentVotes := fun v hv => hs.commentVotes v (mem_values_without.mp hv).1 }
    refine { hlayout.linked hbase with
      comments := forall_erase (hlayout.linked hbase).comments
      commentVotes := fun v hv => ?_ }
    obtain ⟨x, hx, hname⟩ := (hlayout.linked hbase).commentVotes v hv
    -- the votes for the comment went first
    have hother : v.comment ≠ c.1 := by
      rw [show s₁.commentVotes = _ from hlayout.commentVotes] at hv
      exact beq_eq_false_iff_ne.mp (mem_values_without.mp hv).2
    exact ⟨x, (lookup_erase _ _ _).trans ((if_neg hother).trans hx), hname⟩
  | voteCast hfound hpending hname hv =>
    refine { hs with votes := forall_insert (h := hv) hs.votes ?_ }
    rw [hname, ← hpending]
    exact hasDapp_of_row hfound
  | voteChanged hfound hpending hname hv =>
    refine { hs with votes := forall_replace (h := hv) hs.votes ?_ }
    rw [hname, ← hpending]
    exact hasDapp_of_row hfound

/-- Operations never change the name or the state of a dapp, and never drop one. -/
theorem DappStep.dapps_kept {d : Database} {op : DappOperation} (h : DappStep d op s') :
    Retains DappObject.standing d.dapp.dapps s'.dapps := by
  cases h with
  | created hpending hid hname hx huser => exact retains_insert d.dapp.dapps hx
  | rekeyed hfound hx => exact retains_replace hfound hx rfl
  | posted hfound happroved hname hparent hnew hstore =>
    obtain ⟨hc, hcount⟩ := storeComment_eq_ok hstore
    split at hcount
    · exact hcount ▸ Retains.refl _
    · rw [(runs_countChild (fun _ _ _ => rfl) _ _ _ _ _ _ hcount : SameLayout _ _).dapps]
      exact Retains.refl _
  | edited hfound hedit =>
    rw [(runs_editComment (fun _ _ _ => rfl) _ _ _ _ _ _ hedit : SameLayout _ _).dapps]
    exact Retains.refl _
  | voted hfound hvoter htype hcast =>
    obtain ⟨c, hc, -, ⟨-, hv, rfl⟩ | ⟨r, -, -, -, -, hv, rfl⟩⟩ := castVote_eq_ok hcast <;> exact Retains.refl _
  | deleted hfound hleaf hdelete =>
    obtain ⟨s₁, hcount, rfl⟩ := deleteComment_eq_ok hdelete
    rw [show s₁.dapps = d.dapp.dapps from (runs_uncountChild (fun _ _ _ => rfl) _ _ _ _ _ _ hcount : SameLayout _ _).dapps]
    exact Retains.refl _
  | feeVoted | joined | left | voteCast | voteChanged => exact Retains.refl _

/-! ## Counting the votes -/

/-- What the aggregation makes of the dapps: a pending one stays as it is with its votes, is approved or is
dropped; an approved one stays. -/
structure Settles (s s' : DappIndices) : Prop where
  found : ∀ id x, s.dapps.lookup id = some x →
    (∃ x', s'.dapps.lookup id = some x' ∧ x'.standing = x.standing ∧
      (x.dappState = .pending → ∀ vote, countVotes s' x.dappName vote = countVotes s x.dappName vote)) ∨
    (x.dappState = .pending ∧ hardforkRequiredBobserversHf2 ≤ countVotes s x.dappName .approval ∧
      ∃ x', s'.dapps.lookup id = some x' ∧ x'.standing = (x.dappName, .approval)) ∨
    (x.dappState = .pending ∧ hardforkRequiredBobserversHf2 ≤ countVotes s x.dappName .rejection ∧
      s'.dapps.lookup id = none)
  missing : ∀ id, s.dapps.lookup id = none → s'.dapps.lookup id = none

theorem Settles.of_eq (hdapps : s'.dapps = s.dapps) (hvotes : s'.votes = s.votes) : Settles s s' where
  found id x hx := .inl ⟨x, by rw [hdapps]; exact hx, rfl, fun _ vote => by unfold countVotes; rw [hvotes]⟩
  missing id h := by rw [hdapps]; exact h

theorem Settles.refl (s : DappIndices) : Settles s s := .of_eq rfl rfl

theorem Settles.trans {s'' : DappIndices} (h : Settles s s') (h' : Settles s' s'') : Settles s s'' where
  missing id hid := h'.missing id (h.missing id hid)
  found id x hx := by
    rcases h.found id x hx with ⟨x', hx', hsame, hvotes⟩ | ⟨hpending, hmany, x', hx', hstanding⟩ | ⟨hpending, hmany, hnone⟩
    · obtain ⟨hname, hstate⟩ := Prod.ext_iff.mp hsame
      replace hname : x'.dappName = x.dappName := hname
      replace hstate : x'.dappState = x.dappState := hstate
      rcases h'.found id x' hx' with ⟨x'', hx'', hsame', hvotes'⟩ | ⟨hpending, hmany, x'', hx'', hstanding⟩ |
        ⟨hpending, hmany, hnone⟩
      · refine .inl ⟨x'', hx'', hsame'.trans hsame, fun hpending vote => ?_⟩
        rw [← hvotes hpending vote, ← hname]
        exact hvotes' (hstate.trans hpending) vote
      · rw [hname] at hmany hstanding
        rw [hstate] at hpending
        rw [hvotes hpending] at hmany
        exact .inr (.inl ⟨hpending, hmany, x'', hx'', hstanding⟩)
      · rw [hname] at hmany
        rw [hstate] at hpending
        rw [hvotes hpending] at hmany
        exact .inr (.inr ⟨hpending, hmany, hnone⟩)
    · obtain ⟨hname, hstate⟩ := Prod.ext_iff.mp hstanding
      replace hstate : x'.dappState = .approval := hstate
      -- an approved dapp stays
      rcases h'.found id x' hx' with ⟨x'', hx'', hsame', -⟩ | ⟨hpending', -⟩ | ⟨hpending', -⟩
      · exact .inr (.inl ⟨hpending, hmany, x'', hx'', hsame'.trans hstanding⟩)
      · rw [hstate] at hpending'
        cases hpending'
      · rw [hstate] at hpending'
        cases hpending'
    · exact .inr (.inr ⟨hpending, hmany, h'.missing id hnone⟩)

/-! ## One dapp at a time -/

theorem countVotes_without {name other : DappName} (hne : other ≠ name) (s : DappIndices)
    (users : Table DappUserObject) (dapps : Table DappObject) (vote : DappState) :
    countVotes { s with dapps := dapps, users := users, votes := s.votes.without fun v => v.dappName == name } other vote =
      countVotes s other vote := by
  unfold countVotes
  rw [rows_without, List.filter_filter]
  refine congrArg List.length (List.filter_congr fun v _ => ?_)
  by_cases hv : v.2.dappName = other
  · simp [hv, hne]
  · simp [hv]

/-- Two dapps with one name are one dapp. -/
theorem eq_of_dappName {dapps : Table DappObject} {r q : Nat × DappObject} (hr : r ∈ dapps.rows) (hq : q ∈ dapps.rows)
    (hname : r.2.dappName = q.2.dappName) : r = q :=
  eq_of_clash hr hq (beq_iff_eq.mpr hname)

section Row

variable {r : Nat × DappObject} {dapps : Table DappObject} {users : Table DappUserObject}

/-- A change of one dapp leaves the others where they are. -/
theorem HasDapp.away (hr : r ∈ s.dapps.rows) (hother : ∀ id, id ≠ r.1 → dapps.lookup id = s.dapps.lookup id)
    {name : DappName} {state : DappState} (hne : (name, state) ≠ r.2.standing) (h : HasDapp s.dapps name state) :
    HasDapp dapps name state := by
  obtain ⟨x, hx, hstanding⟩ := h
  obtain ⟨id, hid⟩ := mem_values.mp hx
  have hids : id ≠ r.1 := by
    rintro rfl
    exact hne (by rw [← hstanding, eq_of_mem hid hr])
  refine ⟨x, mem_values.mpr ⟨id, lookup_eq_some.mp ?_⟩, hstanding⟩
  rw [hother id hids]
  exact lookup_eq_some.mpr hid

/-- A settled dapp takes its votes along; nothing else was waiting for it. -/
theorem Linked.settle (users : Table DappUserObject) (hs : Linked s tokens) (hr : r ∈ s.dapps.rows) (hpending : r.2.dappState = .pending)
    (hother : ∀ id, id ≠ r.1 → dapps.lookup id = s.dapps.lookup id)
    (hstates : ∀ x ∈ dapps.values, x.dappState = .pending ∨ x.dappState = .approval)
    (husers : ∀ u ∈ users.values, ∃ x, dapps.lookup u.dappId = some x ∧ x.dappName = u.dappName) :
    Linked { s with
      dapps := dapps
      users := users
      votes := s.votes.without fun v => v.dappName == r.2.dappName } tokens := by
  have happroved : ∀ {name}, HasDapp s.dapps name .approval → HasDapp dapps name .approval := fun h => by
    refine h.away hr hother fun heq => ?_
    have hstate : DappState.approval = r.2.dappState := congrArg Prod.snd heq
    rw [hpending] at hstate
    cases hstate
  refine ⟨hstates, husers, fun v hv => ?_, fun c hc => happroved (hs.comments c hc), hs.commentVotes,
    fun t ht => happroved (hs.tokens t ht)⟩
  obtain ⟨hold, hname⟩ := mem_values_without.mp hv
  refine (hs.votes v hold).away hr hother fun heq => beq_eq_false_iff_ne.mp hname ?_
  exact congrArg Prod.fst heq

theorem settles_row (hr : r ∈ s.dapps.rows) (hother : ∀ id, id ≠ r.1 → dapps.lookup id = s.dapps.lookup id)
    (hrow : (r.2.dappState ≠ .pending ∧ ∃ x, dapps.lookup r.1 = some x ∧ x.standing = r.2.standing) ∨
      (r.2.dappState = .pending ∧ hardforkRequiredBobserversHf2 ≤ countVotes s r.2.dappName .approval ∧
        ∃ x, dapps.lookup r.1 = some x ∧ x.standing = (r.2.dappName, .approval)) ∨
      (r.2.dappState = .pending ∧ hardforkRequiredBobserversHf2 ≤ countVotes s r.2.dappName .rejection ∧
        dapps.lookup r.1 = none)) :
    Settles s { s with
      dapps := dapps
      users := users
      votes := s.votes.without fun v => v.dappName == r.2.dappName } where
  missing id hnone := by
    rw [← hnone]
    refine hother id ?_
    rintro rfl
    rw [lookup_eq_some.mpr hr] at hnone
    cases hnone
  found id x hx := by
    by_cases hid : id = r.1
    · subst hid
      obtain rfl : r.2 = x := Option.some.inj ((lookup_eq_some.mpr hr).symm.trans hx)
      rcases hrow with ⟨hsettled, x', hx', hsame⟩ | h
      · exact .inl ⟨x', hx', hsame, fun hpending => absurd hpending hsettled⟩
      · exact .inr h
    · refine .inl ⟨x, (hother id hid).trans hx, rfl, fun _ vote => countVotes_without ?_ _ _ _ vote⟩
      intro hname
      exact hid (congrArg Prod.fst (eq_of_dappName (lookup_eq_some.mp hx) hr hname))

theorem setDappState_eq (now : TimePointSec) (state : DappState) (hr : r ∈ s.dapps.rows)
    (hstate : state ≠ r.2.dappState) : ∃ hc, setDappState now r state s =
      .ok () { s with dapps := s.dapps.replace r.1 { r.2 with dappState := state, lastUpdated := now } hc } := by
  have hc : s.dapps.clashes r.1 { r.2 with dappState := state, lastUpdated := now } = false :=
    clashes_of_keys (lookup_eq_some.mpr hr) fun _ => rfl
  unfold setDappState
  rw [if_neg hstate]
  exact ⟨hc, modifyIn_eq_ok.mpr ⟨r.2, _, hc, lookup_eq_some.mpr hr, rfl, rfl⟩⟩

theorem aggregateDapp_of_settled {now : TimePointSec} {state : DappState} (h : settledState s r.2 = state) :
    aggregateDapp now r s = (setDappState now r state >>= fun _ => dropSettled r state) s := by
  unfold aggregateDapp
  rw [bind_of_ok (get_apply s), h]

/-- **One dapp**: its votes are counted without an exception, and the others are not touched. -/
theorem aggregateDapp_returns (now : TimePointSec) (hs : Linked s tokens) (hr : r ∈ s.dapps.rows) :
    ∃ s', aggregateDapp now r s = .ok () s' ∧ Linked s' tokens ∧ Settles s s' ∧
      ∀ id, id ≠ r.1 → s'.dapps.lookup id = s.dapps.lookup id := by
  have hlookup := lookup_eq_some.mpr hr
  rcases hs.states r.2 (mem_values.mpr ⟨r.1, hr⟩) with hpending | happroved
  · by_cases hyes : hardforkRequiredBobserversHf2 ≤ countVotes s r.2.dappName .approval
    · have hsettled : settledState s r.2 = .approval := by simp [settledState, hpending, hyes]
      obtain ⟨hc, hset⟩ := setDappState_eq now .approval hr (by rw [hpending]; decide)
      have hother : ∀ id, id ≠ r.1 → (s.dapps.replace r.1 _ hc).lookup id = s.dapps.lookup id :=
        fun id hid => (lookup_replace hlookup hc id).trans (if_neg hid)
      have hnow : (s.dapps.replace r.1 _ hc).lookup r.1 = some _ := (lookup_replace hlookup hc r.1).trans (if_pos rfl)
      refine ⟨_, ?_, hs.settle s.users hr hpending hother (forall_replace hs.states (.inr rfl)) ?_,
        settles_row hr hother (.inr (.inl ⟨hpending, hyes, _, hnow, rfl⟩)), hother⟩
      · rw [aggregateDapp_of_settled hsettled, bind_of_ok hset]
        exact removeVotes_eq _ _
      · intro u hu
        obtain ⟨x, hx, hname⟩ := hs.users u hu
        by_cases hid : u.dappId = r.1
        · rw [hid] at hx ⊢
          obtain rfl : r.2 = x := Option.some.inj (hlookup.symm.trans hx)
          exact ⟨_, hnow, hname⟩
        · exact ⟨x, (hother _ hid).trans hx, hname⟩
    · by_cases hno : hardforkRequiredBobserversHf2 ≤ countVotes s r.2.dappName .rejection
      · have hsettled : settledState s r.2 = .rejection := by simp [settledState, hpending, hyes, hno]
        obtain ⟨hc, hset⟩ := setDappState_eq now .rejection hr (by rw [hpending]; decide)
        have hgone : ∀ id, ((s.dapps.replace r.1 _ hc).erase r.1).lookup id =
            if id = r.1 then none else s.dapps.lookup id := by
          intro id
          rw [lookup_erase, lookup_replace hlookup hc]
          split <;> rfl
        have hother : ∀ id, id ≠ r.1 → ((s.dapps.replace r.1 _ hc).erase r.1).lookup id = s.dapps.lookup id :=
          fun id hid => (hgone id).trans (if_neg hid)
        refine ⟨_, ?_, hs.settle (s.users.without fun u => u.dappName == r.2.dappName) hr hpending hother
            (fun x hx => ?_) ?_,
          settles_row hr hother (.inr (.inr ⟨hpending, hno, (hgone r.1).trans (if_pos rfl)⟩)), hother⟩
        · rw [aggregateDapp_of_settled hsettled, bind_of_ok hset]
          show (removeVotes _ >>= fun _ => removeUsers _ >>= fun _ => removeIn Index.dapps r.1) _ = _
          rw [bind_of_ok (removeVotes_eq _ _), bind_of_ok (removeUsers_eq _ _)]
          exact removeIn_eq_ok.mpr rfl
        · obtain ⟨id, hid⟩ := mem_values.mp hx
          have hfound := (hgone id).symm.trans (lookup_eq_some.mpr hid)
          by_cases hids : id = r.1
          · rw [if_pos hids] at hfound
            cases hfound
          · rw [if_neg hids] at hfound
            exact hs.states x (mem_values.mpr ⟨id, lookup_eq_some.mp hfound⟩)
        · intro u hu
          obtain ⟨hold, hne⟩ := mem_values_without.mp hu
          obtain ⟨x, hx, hname⟩ := hs.users u hold
          refine ⟨x, (hother _ fun hid => beq_eq_false_iff_ne.mp hne ?_).trans hx, hname⟩
          rw [hid, hlookup] at hx
          exact hname.symm.trans (congrArg DappObject.dappName (Option.some.inj hx)).symm
      · have hsettled : settledState s r.2 = .pending := by simp [settledState, hpending, hyes, hno]
        refine ⟨s, ?_, hs, .refl s, fun _ _ => rfl⟩
        rw [aggregateDapp_of_settled hsettled]
        unfold setDappState
        rw [if_pos hpending.symm]
        rfl
  · have hsettled : settledState s r.2 = .approval := by simp [settledState, happroved]
    have hnot : r.2.dappState ≠ .pending := by rw [happroved]; decide
    refine ⟨{ s with votes := s.votes.without fun v => v.dappName == r.2.dappName }, ?_, ?_,
      settles_row hr (fun _ _ => rfl) (.inl ⟨hnot, r.2, hlookup, rfl⟩), fun _ _ => rfl⟩
    · rw [aggregateDapp_of_settled hsettled]
      unfold setDappState
      rw [if_pos happroved.symm]
      exact removeVotes_eq _ _
    · exact { hs with votes := fun v hv => hs.votes v (mem_values_without.mp hv).1 }

end Row

theorem aggregateEach_returns (now : TimePointSec) {rows : List (Nat × DappObject)}
    (hids : rows.Pairwise fun r q => r.1 < q.1) (hs : Linked s tokens) (hrows : ∀ r ∈ rows, r ∈ s.dapps.rows) :
    ∃ s', each (aggregateDapp now) rows s = .ok () s' ∧ Linked s' tokens ∧ Settles s s' := by
  induction rows generalizing s with
  | nil => exact ⟨s, rfl, hs, .refl s⟩
  | cons r rows ih =>
    rw [List.pairwise_cons] at hids
    rw [List.forall_mem_cons] at hrows
    obtain ⟨s₁, hrun, hs₁, hsettle, hother⟩ := aggregateDapp_returns now hs hrows.1
    have hrows₁ : ∀ q ∈ rows, q ∈ s₁.dapps.rows := by
      intro q hq
      have hlater : q.1 ≠ r.1 := Nat.ne_of_gt (hids.1 q hq)
      rw [← lookup_eq_some, hother q.1 hlater]
      exact lookup_eq_some.mpr (hrows.2 q hq)
    obtain ⟨s₂, hrest, hs₂, hsettle'⟩ := ih hids.2 hs₁ hrows₁
    refine ⟨s₂, ?_, hs₂, hsettle.trans hsettle'⟩
    unfold each
    rw [bind_of_ok hrun]
    exact hrest

/-- **The aggregation** returns, keeps the references and settles what has enough votes. -/
theorem aggregateDappApproveVote_returns (now : TimePointSec) (hs : Linked s tokens) :
    ∃ s', aggregateDappApproveVote now s = .ok () s' ∧ Linked s' tokens ∧ Settles s s' := by
  unfold aggregateDappApproveVote
  rw [bind_of_ok (get_apply s)]
  exact aggregateEach_returns now s.dapps.sorted hs fun _ hr => hr

/-! ## The tokens -/

section Tokens

variable {P : DappName → Prop}

/-- Every token belongs to a dapp with `P`. -/
def OfDapps (P : DappName → Prop) (t : Token.TokenIndices) : Prop := ∀ x ∈ t.tokens.values, P x.dappName

theorem blind_balances : Token.Blind (Kept (OfDapps P)) Token.Index.balances := fun _ _ h => h

theorem runs_modifyToken {id : Nat} {f : Token.TokenObject → Except Error Token.TokenObject}
    (hf : ∀ a b, f a = .ok b → b.dappName = a.dappName) :
    Runs (Kept (OfDapps P)) (modifyIn Token.Index.tokens id f) := by
  intro t u t' h ht
  obtain ⟨a, b, hc, ha, hb, rfl⟩ := modifyIn_eq_ok.mp h
  refine forall_replace (h := hc) ht ?_
  rw [hf a b hb]
  exact ht a (mem_values.mpr ⟨id, lookup_eq_some.mp ha⟩)

theorem runs_storeToken (v : Token.CoreView) {op : Token.CreateTokenOperation} (hP : P op.dappName) :
    Runs (Kept (OfDapps P)) (Token.storeToken v op) := by
  refine runs_bind (readOnly_findIn _).always.runs fun _ => runs_bind (readOnly_assert _ _).always.runs fun _ => ?_
  refine runs_bind (readOnly_findIn _).always.runs fun _ => runs_bind (readOnly_assert _ _).always.runs fun _ => ?_
  refine runs_bind (readOnly_checked _).always.runs fun _ => runs_bind (readOnly_assert _ _).always.runs fun _ => ?_
  refine runs_bind readOnly_get.always.runs fun _ => runs_bind (readOnly_checked _).always.runs fun _ => ?_
  refine runs_bind (readOnly_checked _).always.runs fun _ => runs_bind ?_ fun _ => ?_
  · intro t id t' h ht
    obtain ⟨hc, -, rfl⟩ := createIn_eq_ok.mp h
    exact forall_insert (h := hc) ht hP
  · exact (Token.always_openBalance blind_balances v op _).runs

theorem runs_issueToken (v : Token.CoreView) (op : Token.IssueTokenOperation) (r : Nat × Token.TokenObject) :
    Runs (Kept (OfDapps P)) (Token.issueToken v op r) := by
  refine runs_bind (readOnly_assert _ _).always.runs fun _ => runs_bind (readOnly_checked _).always.runs fun _ => ?_
  refine runs_bind (readOnly_checked _).always.runs fun _ => runs_bind (readOnly_checked _).always.runs fun _ => ?_
  refine runs_bind (readOnly_assert _ _).always.runs fun _ => runs_bind (runs_modifyToken fun a b h => ?_) fun _ => ?_
  · obtain ⟨total, -, rfl⟩ := map_eq_ok h
    rfl
  · exact (Token.always_creditIssue blind_balances v op).runs

theorem runs_burnToken (v : Token.CoreView) (op : Token.BurnTokenOperation) (r : Nat × Token.TokenObject) :
    Runs (Kept (OfDapps P)) (Token.burnToken v op r) := by
  refine runs_bind (readOnly_checked _).always.runs fun _ => ?_
  refine runs_bind (Token.always_adjustSide blind_balances _ _ _ _ _).runs fun _ => runs_modifyToken fun a b h => ?_
  obtain ⟨total, -, rfl⟩ := map_eq_ok h
  rfl

/-- Only a dapp that is approved gets a token. -/
theorem ofDapps_tokenEvaluator {interest : Token.TokenInterest} {op : Token.TokenOperation} {d d' : Database}
    {u : Unit} (hs : OfDapps (HasDapp d.dapp.dapps · .approval) d.token)
    (h : Token.tokenEvaluator interest op d = .ok u d') : OfDapps (HasDapp d.dapp.dapps · .approval) d'.token := by
  have hstep := tokenStep_of_evaluator h
  by_cases hop : changesTotal op = true
  · cases op with
    | createToken op =>
      simp only [Token.tokenEvaluator, Token.createTokenEvaluator, bind_eq_ok, onDapp_eq_ok, fcAssert,
        assert_eq_ok] at h
      obtain ⟨r, _, ⟨_, hr, rfl⟩, _, _, ⟨-, rfl⟩, _, _, ⟨-, rfl⟩, _, _, ⟨_, hstate, rfl⟩, -⟩ := h
      obtain ⟨hmem, hname, rfl⟩ := mem_of_requireDapp hr
      obtain ⟨happroved, rfl⟩ := requireApproved_eq_ok.mp hstate
      refine runs_storeToken _ ?_ _ _ _ hstep hs
      rw [← hname, ← happroved]
      exact hasDapp_of_row hmem
    | issueToken op =>
      obtain ⟨r, -, -, hrun⟩ := hstep
      exact runs_issueToken _ _ _ _ _ _ hrun hs
    | burnToken op =>
      obtain ⟨r, -, -, hrun⟩ := hstep
      exact runs_burnToken _ _ _ _ _ _ hrun hs
    | _ => cases hop
  · have hsame : Token.SameTokens d.token d'.token :=
      (sameTokens_tokenEvaluator interest op (eq_false_of_ne_true hop)).runs _ _ _ h
    unfold OfDapps
    rw [hsame]
    exact hs

end Tokens

end Sigmaengine.Dapp

namespace Sigmaengine

open Effect Table Dapp

variable {env : Env} {node : Node} {b : SignedBlock} {d d' : Database}

/-! ## The handlers -/

/-- Everything refers to a dapp that is there, in the state it has to be in. -/
def Database.Linked (d : Database) : Prop := Dapp.Linked d.dapp d.token.tokens

/-- Neither the dapp indices nor the tokens were touched. -/
def Untouched (d d' : Database) : Prop := d'.dapp = d.dapp ∧ d'.token.tokens = d.token.tokens

/-- The references are kept, and dapps are settled by their votes only. -/
def Handled (d d' : Database) : Prop := d.Linked → d'.Linked ∧ Settles d.dapp d'.dapp

instance : Std.Refl Handled := ⟨fun d h => ⟨h, .refl d.dapp⟩⟩

instance : IsTrans Database Handled := ⟨fun _ _ _ h h' hs =>
  have hmid := h hs
  have hend := h' hmid.1
  ⟨hend.1, hmid.2.trans hend.2⟩⟩

theorem Untouched.handled (h : Untouched d d') : Handled d d' := by
  intro hs
  refine ⟨?_, .of_eq (congrArg DappIndices.dapps h.1) (congrArg DappIndices.votes h.1)⟩
  unfold Database.Linked
  rw [h.1, h.2]
  exact hs

theorem handled_tokenOnApplyBlock : Always Handled Token.onApplyBlock := fun d =>
  Untouched.handled ⟨sameDapp_tokenOnApplyBlock d, sameTokens_tokenOnApplyBlock d⟩

theorem handled_onCore {α : Type} (m : CoreM α) : Always Handled (onCore m) :=
  always_within (fun _ _ => Untouched.handled ⟨rfl, rfl⟩) m

theorem handled_dappOnApplyBlock : Always Handled Dapp.onApplyBlock := by
  refine always_bind readOnly_get.always fun d => ?_
  dsimp only
  split
  · refine always_bind (fun d hs => ?_) fun _ => always_bind ?_ fun _ => handled_onCore _
    · obtain ⟨s', hrun, hs', hsettle⟩ := aggregateDappApproveVote_returns _ hs
      unfold onDapp
      rw [after_within, show dappPart.get d = d.dapp from rfl, hrun]
      exact ⟨hs', hsettle⟩
    · exact always_aggregateTrxFeeVote (fun _ _ => Untouched.handled ⟨rfl, rfl⟩) _
  · exact always_pure _

/-- **The handlers after a block** settle dapps by their votes and keep every reference. -/
theorem handled_notifyAppliedBlock (env : Env) : Always Handled (notifyAppliedBlock env) := by
  refine always_attempt (always_each (fun p => ?_) _)
  cases p with
  | dapp => exact handled_dappOnApplyBlock
  | token => exact handled_tokenOnApplyBlock

/-! ## Runs -/

/-- No dapp is dropped, and none gets another name or state. -/
def DappsKept (d d' : Database) : Prop := Retains DappObject.standing d.dapp.dapps d'.dapp.dapps

instance : Std.Refl DappsKept := ⟨fun d => Retains.refl d.dapp.dapps⟩

instance : IsTrans Database DappsKept := ⟨fun _ _ _ h h' => Retains.trans h h'⟩

theorem linked_dappEvaluator (fc : TextRules) (op : DappOperation) :
    Runs (Kept Database.Linked) (dappEvaluator fc op) := by
  intro d u d' h hs
  have hsame : OnTokens Token.SameTokens d d' := (onTokens_dappEvaluator fc op).runs _ _ _ h
  have htokens : d'.token.tokens = d.token.tokens := hsame
  unfold Database.Linked
  rw [htokens]
  exact (dappStep_dappEvaluator h).linked hs

theorem linked_tokenEvaluator (interest : Token.TokenInterest) (op : Token.TokenOperation) :
    Runs (Kept Database.Linked) (Token.tokenEvaluator interest op) := by
  intro d u d' h hs
  have hsame : d'.dapp = d.dapp := (sameDapp_tokenEvaluator interest op).runs _ _ _ h
  have htokens := ofDapps_tokenEvaluator hs.tokens h
  unfold Database.Linked
  rw [hsame]
  exact { hs with tokens := htokens }

theorem pluginFrame_linked (env : Env) : PluginFrame env (Kept Database.Linked) where
  core _ _ hs := hs
  dapp := linked_dappEvaluator env.fc
  token := linked_tokenEvaluator env.tokenInterest
  dappHandler := handled_dappOnApplyBlock.mono fun _ _ h hs => (h hs).1
  tokenHandler := handled_tokenOnApplyBlock.mono fun _ _ h hs => (h hs).1

theorem pluginOperations_dappsKept (env : Env) : PluginOperations env DappsKept where
  core d _ := Retains.refl d.dapp.dapps
  dapp _ _ _ _ h := (dappStep_dappEvaluator h).dapps_kept
  token op := ((sameDapp_tokenEvaluator env.tokenInterest op).mono fun d d' h => by
    unfold DappsKept
    rw [show d'.dapp = d.dapp from h]
    exact Retains.refl _).runs

theorem linked_genesis (key : PublicKey) : (Sigmaengine.genesis key).Linked := by
  constructor <;> intro x hx <;> cases hx

/-- A comment that is found has its dapp, and that is approved. -/
theorem dapp_of_comment {s : DappIndices} {tokens : Table Token.TokenObject} (hs : Dapp.Linked s tokens)
    {name : DappName} {author : AccountName} {permlink : Bytes} {r : Nat × DappCommentObject}
    (h : s.comments.find? (isPermlink name author permlink) = some r) :
    ∃ q, s.dapps.find? (fun x => x.dappName == name) = some q ∧ q.2.dappState = .approval := by
  obtain ⟨hr, hkey⟩ := mem_of_find? h
  simp only [isPermlink, Bool.and_eq_true, beq_iff_eq] at hkey
  obtain ⟨x, hx, hstanding⟩ := hs.comments r.2 (mem_values.mpr ⟨r.1, hr⟩)
  obtain ⟨id, hid⟩ := mem_values.mp hx
  obtain ⟨hname, hstate⟩ := Prod.ext_iff.mp hstanding
  replace hname : x.dappName = name := hname.trans hkey.1.1
  refine ⟨(id, x), find?_of_mem hid (beq_iff_eq.mpr hname) fun y hy => ?_, hstate⟩
  exact beq_iff_eq.mpr ((beq_iff_eq.mp hy).trans hname.symm)

/-- **One block**: up to the handlers no dapp changes, and the handlers settle dapps by their votes only. -/
theorem settles_applyBlock (hs : d.Linked) (h : applyBlock env node b d = .ok () d') :
    ∃ m : Database, DappsKept d m ∧ notifyAppliedBlock env m = .ok () d' ∧ Settles m.dapp d'.dapp := by
  obtain ⟨S, -⟩ := blockStages h
  have htrx : ∀ {R : Database → Database → Prop} [Std.Refl R] [IsTrans Database R], PluginOperations env R →
      R { d with core := S.opened } S.executed := fun hR =>
    (always_each (hR.applyTransaction node) _).runs _ _ _ S.transactions
  have hlinked : S.executed.Linked := htrx (pluginFrame_linked env).toPluginOperations hs
  have hhandled : Handled _ d' := (handled_notifyAppliedBlock env).runs _ _ _ S.notify
  exact ⟨{ S.executed with core := S.forked }, htrx (pluginOperations_dappsKept env), S.notify, (hhandled hlinked).2⟩

/-- **Dapps and what refers to them.**  Wherever an operation is run, members refer to a dapp that is there,
votes to a pending one, comments and tokens to an approved one and votes on comments to a comment, so the
dapp that the deletion of a comment looks up is there.  Transactions leave name and state of every dapp
alone, and a block only approves or drops a pending dapp, when eleven votes for that are stored as its
handlers start. -/
theorem dapp_lifecycle (env : Env) (d : Database) (h : Visited env anyOperation d) :
    d.Linked ∧
    (∀ name author permlink r, d.dapp.comments.find? (isPermlink name author permlink) = some r →
      ∃ q, d.dapp.dapps.find? (fun x => x.dappName == name) = some q ∧ q.2.dappState = .approval) ∧
    (∀ node trx, DappsKept d (after (applyTransaction env node trx d))) ∧
    ∀ node b d', applyBlock env node b d = .ok () d' →
      ∃ m : Database, DappsKept d m ∧ notifyAppliedBlock env m = .ok () d' ∧ Settles m.dapp d'.dapp := by
  have hs : d.Linked := h.plugins linked_genesis (pluginFrame_linked env)
  refine ⟨hs, fun _ _ _ _ hfound => dapp_of_comment hs hfound, fun node trx => ?_, fun node b d' hblock => ?_⟩
  · exact (pluginOperations_dappsKept env).applyTransaction node trx d
  · exact settles_applyBlock hs hblock

/-- The state after a block in which a dapp was created and approved. -/
theorem dapp_lifecycle_dappState : dappState.Linked :=
  (dapp_lifecycle tokenEnv _ (.block {} dappBlock (.genesis ⟨1⟩) (eachOperation_any _ _ _ _) applyBlock_dappBlock)).1

end Sigmaengine
