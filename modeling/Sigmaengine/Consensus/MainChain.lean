import Sigmaengine.Consensus.Calls
import Sigmaengine.Lib.History
import Sigmaengine.Lib.Traces

/-!
# The main chain and the sessions below it

The objects of the head block and the undo states below them form a history (`Lib.History`): a block puts new objects on
the top and gives up the states below the last irreversible block, and popping a block goes back to the state below.  Every
call moves the controller along this history, and pending transactions do not change it.

Main result: `follows_step`.
-/

namespace Sigmaengine

open Effect Table History

/-- The block has been applied. -/
def Applied (env : Env) (b : SignedBlock) (d d' : Database) : Prop := ∃ node, applyBlock env node b d = .ok () d'

/-- What a block leaves that throws when it is the head already: what comes after `update_last_irreversible_block` was not
done, or not to its end. -/
def Torn (env : Env) (b : SignedBlock) (d d' : Database) : Prop :=
  ∃ node d₁, applyBlockHead env node b d = .ok () d₁ ∧ SameClock d₁.core d'.core ∧
    (d' = d₁ ∨ ∃ e, applyBlockTail env b d₁ = .error e d')

namespace Objects

def height (o : Objects) : Nat := o.chain.length

def lastIrreversible (o : Objects) : Nat := o.database.core.dgp.lastIrreversibleBlockNum

theorem eq_of_line {o o' : Objects} (h : o.line = o'.line) : o.chain = o'.chain ∧ o.torn = o'.torn := Prod.mk.inj h

/-- One block more, and what is torn stays so. -/
structure Above (o o' : Objects) : Prop where
  chain : ∃ b, o'.chain = o.chain ++ [b]
  torn : o.torn = true → o'.torn = true

theorem Above.height {o o' : Objects} (h : o.Above o') : o'.height = o.height + 1 := by
  obtain ⟨b, hchain⟩ := h.chain
  rw [Objects.height, hchain, List.length_append]
  rfl

end Objects

/-- The places in a block, and the place behind its transactions. -/
def PlacedIn (cd : Codec) (b : SignedBlock) (p : Nat × Nat × Nat) : Prop :=
  Controller.PlacedFrom cd b.blockNum 0 b.transactions p ∨ p.2 = (b.blockNum, b.transactions.length % 65536)

/-- Objects with one more block: a block that is final at once and throws after that stays as far as it came. -/
structure Extends (env : Env) (b : SignedBlock) (o o' : Objects) : Prop where
  chain : o'.chain = o.chain ++ [b]
  database : Applied env b o.database o'.database ∧ o'.torn = o.torn ∨ Torn env b o.database o'.database ∧ o'.torn = true
  operations : ∃ new, o'.operations = o.operations ++ new ∧ ∀ op ∈ new, PlacedIn env.codec b op.place

/-- A step of the history. -/
def NextBlock (env : Env) (Allowed : SignedBlock → Prop) (o o' : Objects) : Prop := ∃ b, Allowed b ∧ Extends env b o o'

theorem Extends.above {env : Env} {b : SignedBlock} {o o' : Objects} (h : Extends env b o o') : o.Above o' := by
  refine ⟨⟨b, h.chain⟩, fun ho => ?_⟩
  rcases h.database with ⟨-, htorn⟩ | ⟨-, htorn⟩
  · exact htorn.trans ho
  · exact htorn

namespace Controller

variable {env : Env} {rec : Recorder} {node : Node} {Allowed : SignedBlock → Prop} {c c' : Controller} {b : SignedBlock}

/-- The objects without pending transactions, and the states below them. -/
def base (c : Controller) : List Objects := if c.pendingTxSession then c.undoStack else c.objects :: c.undoStack

/-- A transaction is accepted on top of what is there. -/
def Accepts (env : Env) (d d' : Database) : Prop := ∃ node trx, Sigmaengine.applyTransaction env node trx d = .ok () d'

/-- The objects in use are those on the top of the history, with accepted transactions on them; the revision counts blocks
and sessions. -/
structure OnChain (env : Env) (c : Controller) : Prop where
  top : ∃ o rest, c.base = o :: rest ∧ o.line = c.objects.line ∧
    Relation.ReflTransGen (Accepts env) o.database c.objects.database
  revision : c.revision = c.objects.height + if c.pendingTxSession then 1 else 0
  linked : Linked Objects.Above c.base

/-- The controller has moved along the history. -/
def Follows (env : Env) (Allowed : SignedBlock → Prop) (c c' : Controller) : Prop :=
  OnChain env c → OnChain env c' ∧ Moves (NextBlock env Allowed) Objects.height Objects.lastIrreversible c.base c'.base

instance : Std.Refl (Follows env Allowed) := ⟨fun _ h => ⟨h, .refl⟩⟩

instance : IsTrans Controller (Follows env Allowed) where
  trans _ _ _ h h' hc := by
    obtain ⟨hc', hmoves⟩ := h hc
    obtain ⟨hc'', hmoves'⟩ := h' hc'
    exact ⟨hc'', hmoves.trans hmoves'⟩

theorem base_closed (hs : c.pendingTxSession = false) : c.base = c.objects :: c.undoStack := by simp [base, hs]

theorem base_open (hs : c.pendingTxSession = true) : c.base = c.undoStack := by simp [base, hs]

/-- Without pending transactions the objects are the top of the history. -/
theorem OnChain.of_closed (hs : c.pendingTxSession = false) (hrevision : c.revision = c.objects.height)
    (hlinked : Linked Objects.Above c.base) : OnChain env c :=
  ⟨⟨_, _, base_closed hs, rfl, .refl⟩, by simp [hs, hrevision], hlinked⟩

theorem OnChain.revision_closed (hc : OnChain env c) (hs : c.pendingTxSession = false) : c.revision = c.objects.height := by
  have hrevision := hc.revision
  rw [hs] at hrevision
  exact hrevision

/-- Only the history and the objects in use matter. -/
theorem follows_of_same (hbase : c'.base = c.base) (hline : c'.objects.line = c.objects.line)
    (haccepts : Relation.ReflTransGen (Accepts env) c.objects.database c'.objects.database)
    (hrevision : OnChain env c → c'.revision = c'.objects.height + if c'.pendingTxSession then 1 else 0) :
    Follows env Allowed c c' := by
  intro hc
  obtain ⟨o, rest, htop, hsame, hpending⟩ := hc.top
  refine ⟨⟨⟨o, rest, hbase.trans htop, hsame.trans hline.symm, hpending.trans haccepts⟩, hrevision hc, ?_⟩, ?_⟩
  · rw [hbase]
    exact hc.linked
  · rw [hbase]
    exact .refl

theorem below_of_linked {top : Objects} {rest : List Objects} (h : Linked Objects.Above (top :: rest)) :
    ∀ o ∈ rest, o.chain <+: top.chain ∧ (o.torn = true → top.torn = true) := by
  have hpairwise := h.pairwise (R := fun o' o => o.chain <+: o'.chain ∧ (o.torn = true → o'.torn = true)) ?_ ?_
  · exact fun o ho => List.rel_of_pairwise_cons hpairwise ho
  · rintro o o' habove
    obtain ⟨b, hchain⟩ := habove.chain
    rw [hchain]
    exact ⟨List.prefix_append _ _, habove.torn⟩
  · rintro o₁ o₂ o₃ ⟨hchain, htorn⟩ ⟨hchain', htorn'⟩
    exact ⟨hchain'.trans hchain, fun h => htorn (htorn' h)⟩

theorem linked_of_moves {l l' : List Objects}
    (h : Moves (NextBlock env Allowed) Objects.height Objects.lastIrreversible l l')
    (hl : Linked Objects.Above l) : Linked Objects.Above l' := by
  refine (h.mono (fun o o' hnext => ?_)).linked hl
  obtain ⟨b, -, hextends⟩ := hnext
  exact hextends.above

/-- Whatever a step up keeps holds of the states below, seen from the objects in use. -/
theorem OnChain.below (hc : OnChain env c) : ∀ o ∈ c.base, o.chain <+: c.objects.chain ∧ (o.torn = true → c.objects.torn = true) := by
  obtain ⟨top, rest, htop, hline, -⟩ := hc.top
  have hlinked := hc.linked
  obtain ⟨hchain, htorn⟩ := Objects.eq_of_line hline
  rw [htop] at hlinked ⊢
  rw [← hchain, ← htorn]
  intro o ho
  rcases List.mem_cons.mp ho with rfl | ho
  · exact ⟨List.prefix_rfl, id⟩
  · exact below_of_linked hlinked o ho

/-- A session that only applied is squashed into the one below. -/
theorem squash_of_outside {o : Objects} {rest : List Objects} (h : c'.outside = c.started.outside)
    (htop : c.undoStack = o :: rest) :
    after (squash c') = { c with objects := c'.objects, counters := c'.counters } := by
  obtain ⟨objects, counters, undoStack, revision, forkDb, blockLog, pendingTx, poppedTx, session⟩ := c'
  obtain ⟨objects', counters', undoStack', revision', forkDb', blockLog', pendingTx', poppedTx', session'⟩ := c
  simp only [outside, started, Prod.mk.injEq] at h
  obtain ⟨rfl, rfl, rfl, rfl, rfl, rfl, rfl, -⟩ := h
  simp only at htop
  subst htop
  rfl

/-! ## Blocks -/

/-- The stack when the last steps of a block begin. -/
theorem Pushed.stack {c₁ c₂ c₃ : Controller} (h : Pushed env node b c c₁ c₂ c₃) :
    c₃.undoStack = (c.objects :: c.undoStack).take (c.revision + 1 - c₃.objects.lastIrreversible) ∧
      c₃.revision = c.revision + 1 ∧ c₃.objects.line = (c.objects.chain ++ [b], c.objects.torn) := by
  obtain ⟨-, hextended, hsettles, hhere, hclock⟩ := h
  have hout₁ := hextended.noted.outside
  have hout₃ := hhere.noted.outside
  simp only [outside, extend, started, Prod.mk.injEq] at hout₁ hout₃
  have hfinal : c₃.objects.lastIrreversible = c₁.lastIrreversibleBlockNum := by
    rw [show c₃.objects.lastIrreversible = _ from hclock.lastIrreversibleBlockNum, hsettles.objects]
    rfl
  refine ⟨?_, ?_, ?_⟩
  · rw [hout₃.1, hsettles.undoStack, hout₁.1, hout₁.2.1, hfinal]
  · rw [hout₃.2.1, hsettles.revision, hout₁.2.1]
  · rw [hout₃.2.2.2.2.2.2.2, hsettles.objects, hout₁.2.2.2.2.2.2.2]
    rfl

/-- Where the counters are then. -/
theorem Pushed.counters {c₁ c₂ c₃ : Controller} (h : Pushed env node b c c₁ c₂ c₃) :
    c₃.counters.blockNum = b.blockNum ∧ c₃.counters.trxInBlock = b.transactions.length % 65536 := by
  obtain ⟨-, ⟨-, ⟨hblock, htrx⟩, -⟩, hsettles, ⟨hplace, -⟩, -⟩ := h
  rw [hsettles.counters] at hplace
  exact ⟨(congrArg (fun p => p.2.1) hplace).trans hblock, (congrArg (fun p => p.2.2) hplace).trans htrx⟩

/-- What a block has noted when its last steps end. -/
theorem Pushed.operations {c₁ c₂ c₃ : Controller} (h : Pushed env node b c c₁ c₂ c₃) :
    ∃ new, c₃.objects.operations = c.objects.operations ++ new ∧ ∀ op ∈ new, PlacedIn env.codec b op.place := by
  obtain ⟨-, ⟨-, ⟨hblock, htrx⟩, -, new₁, hnew₁, hplaces₁⟩, hsettles, ⟨-, -, new₃, hnew₃, hplaces₃⟩, -⟩ := h
  refine ⟨new₁ ++ new₃, ?_, fun op hop => ?_⟩
  · rw [hnew₃, hsettles.objects, hnew₁, List.append_assoc]
    rfl
  · rcases List.mem_append.mp hop with hop | hop
    · exact .inl (hplaces₁ op hop)
    · refine .inr ?_
      rw [hplaces₃ op hop, hsettles.counters]
      exact congrArg₂ Prod.mk hblock htrx

theorem follows_pushOnHead (hb : Allowed b) (hs : c.pendingTxSession = false) :
    Follows env Allowed c (after (pushOnHead env rec node b c)) := by
  rcases @pushOnHead_cases env rec node b c with
    ⟨e, k, hrun, -⟩ | ⟨c₁, c₂, c₃, hpushed, hrun⟩
  · rw [hrun]
    exact follows_of_same rfl rfl .refl fun hc => hc.revision
  · intro hc
    obtain ⟨hstack, hrevision, hline⟩ := hpushed.stack
    have hchain : c₃.objects.chain = c.objects.chain ++ [b] := congrArg Prod.fst hline
    have htorn₃ : c₃.objects.torn = c.objects.torn := congrArg Prod.snd hline
    have hs₃ : c₃.pendingTxSession = false := (session_of_lists hpushed.lists).trans hs
    have hheight : c₃.objects.height = c.objects.height + 1 := by
      rw [Objects.height, hchain, List.length_append]
      rfl
    rw [hc.revision_closed hs, ← hheight] at hstack hrevision
    have hbase := base_closed hs
    -- the objects of the block, torn or not, on the stack that is left
    have hmoved {c' : Controller} (hs' : c'.pendingTxSession = false) (hstack' : c'.undoStack = c₃.undoStack)
        (hrevision' : c'.revision = c₃.revision) (hheight' : c'.objects.height = c₃.objects.height)
        (hfinal' : c'.objects.lastIrreversible = c₃.objects.lastIrreversible)
        (hnext : NextBlock env Allowed c.objects c'.objects) :
        OnChain env c' ∧ Moves (NextBlock env Allowed) Objects.height Objects.lastIrreversible c.base c'.base := by
      have hmove : Move (NextBlock env Allowed) Objects.height Objects.lastIrreversible c.base c'.base := by
        rw [hbase, base_closed hs', hstack', hstack, ← hheight', ← hfinal']
        exact .step hnext
      refine ⟨.of_closed hs' ?_ (linked_of_moves (.single hmove) hc.linked), .single hmove⟩
      rw [hrevision', hrevision, hheight']
    rcases hrun with ⟨hrun, hsettle, htail⟩ | ⟨e, hrun, hfailed⟩
    · have happlied : Applied env b c.objects.database c₃.objects.database := by
        refine ⟨node.atBlock b.blockNum, ?_⟩
        rw [Sigmaengine.applyBlock, bind_of_ok hpushed.database]
        rw [hpushed.settles.objects] at htail
        exact htail
      rw [hrun]
      exact hmoved hs₃ rfl rfl rfl rfl ⟨b, hb, hchain, .inl ⟨happlied, htorn₃⟩, hpushed.operations⟩
    · have htorn : Torn env b c.objects.database c₃.objects.database := by
        refine ⟨node.atBlock b.blockNum, c₁.objects.database, hpushed.database, ?_, ?_⟩
        · rw [← hpushed.settles.objects]
          exact hpushed.clock
        · rcases hfailed with ⟨-, rfl⟩ | ⟨-, htail⟩
          · exact .inl (congrArg Objects.database hpushed.settles.objects)
          · rw [hpushed.settles.objects] at htail
            exact .inr ⟨e, htail⟩
      rw [hrun, after_error]
      cases hleft : c₃.undoStack with
      | nil =>
        -- nothing is left to go back to
        rw [blockUndone_of_nil hleft]
        exact hmoved hs₃ rfl rfl rfl rfl ⟨b, hb, hchain, .inr ⟨htorn, rfl⟩, hpushed.operations⟩
      | cons o rest =>
        obtain ⟨k, hk⟩ : ∃ k, c₃.objects.height - c₃.objects.lastIrreversible = k + 1 := by
          refine Nat.exists_eq_succ_of_ne_zero fun hzero => ?_
          rw [hstack, hzero, List.take_zero] at hleft
          cases hleft
        rw [hk, List.take_succ_cons] at hstack
        have hundone : c₃.blockUndone = { c₃ with
            objects := c.objects, undoStack := c.undoStack.take k, revision := c₃.revision - 1 } := by
          rw [blockUndone_of_cons hleft, undone_eq, hstack]
        have hback : Move (NextBlock env Allowed) Objects.height Objects.lastIrreversible c.base c₃.blockUndone.base := by
          rw [hundone, hbase, base_closed (c := { c₃ with objects := c.objects, undoStack := _, revision := _ }) hs₃]
          exact .forget (k := k + 1) (Nat.succ_pos k)
        refine ⟨.of_closed (by rw [hundone]; exact hs₃) ?_ (linked_of_moves (.single hback) hc.linked), .single hback⟩
        rw [hundone]
        show c₃.revision - 1 = c.objects.height
        rw [hrevision, hheight]
        rfl

/-! ## Sessions -/

theorem follows_undone (hs : c.pendingTxSession = false) : Follows env Allowed c c.undone := by
  intro hc
  rcases hstack : c.undoStack with _ | ⟨o, rest⟩
  · have hundone : c.undone = c := by rw [undone_eq, hstack]
    rw [hundone]
    exact ⟨hc, .refl⟩
  · have hundone : c.undone = { c with objects := o, undoStack := rest, revision := c.revision - 1 } := by
      rw [undone_eq, hstack]
    have hbase := base_closed hs
    rw [hstack] at hbase
    have hback : Move (NextBlock env Allowed) Objects.height Objects.lastIrreversible c.base c.undone.base := by
      rw [hundone, hbase, base_closed (c := { c with objects := o, undoStack := rest, revision := _ }) hs]
      exact .back
    refine ⟨.of_closed (by rw [hundone]; exact hs) ?_ (linked_of_moves (.single hback) hc.linked), .single hback⟩
    have hlink : c.objects.height = o.height + 1 := by
      have hlinked := hc.linked
      rw [hbase] at hlinked
      exact (List.IsChain.rel_head? hlinked rfl : o.Above c.objects).height
    rw [hundone]
    show c.revision - 1 = o.height
    rw [hc.revision_closed hs, hlink]
    rfl

theorem follows_opened (hs : c.pendingTxSession = false) :
    Follows env Allowed c { c.started with pendingTxSession := true } := by
  refine follows_of_same (base_closed hs).symm rfl .refl fun hc => ?_
  show c.revision + 1 = _
  rw [hc.revision_closed hs]
  rfl

theorem follows_closed (hs : c.pendingTxSession = true) :
    Follows env Allowed c { c.undone with pendingTxSession := false } := by
  intro hc
  obtain ⟨o, rest, htop, hline, -⟩ := hc.top
  rw [base_open hs] at htop
  have hundone : c.undone = { c with objects := o, undoStack := rest, revision := c.revision - 1 } := by
    rw [undone_eq, htop]
  have hrevision := hc.revision
  rw [hs, if_pos rfl] at hrevision
  have hlinked := hc.linked
  rw [base_open hs, htop] at hlinked
  rw [hundone]
  refine ⟨.of_closed rfl ?_ hlinked, ?_⟩
  · show c.revision - 1 = o.height
    rw [hrevision, Nat.add_sub_cancel, Objects.height, Objects.height, (Objects.eq_of_line hline).1]
  · rw [base_open hs, htop]
    exact .refl

/-- The session of the transaction put aside. -/
theorem AtPosition.of_started {id : Nat} (h : AtPosition id c.started c') :
    AtPosition id c { c with objects := c'.objects, counters := c'.counters } := by
  have hline : c'.objects.line = c.objects.line := congrArg (fun p => p.2.2.2.2.2.2.2) h.noted.outside
  refine ⟨h.blockNum, h.trxInBlock, ?_, h.noted.created⟩
  simp only [outside, hline]

/-- **A transaction in its temporary session** leaves counters behind when it is refused, and what it has done when it is
accepted. -/
theorem inTempSession_cases (trx : SignedTransaction) {o : Objects} {rest : List Objects} (htop : c.undoStack = o :: rest) :
    ∃ c', AtPosition (env.codec.transactionId trx) c c' ∧
      ((∃ e, inTempSession (applyTransaction env rec node trx) c = .error e { c with counters := c'.counters } ∧
          ∃ d, Sigmaengine.applyTransaction env node trx c.objects.database = .error e d) ∨
        inTempSession (applyTransaction env rec node trx) c =
            .ok () { c with objects := c'.objects, counters := c'.counters } ∧
          Sigmaengine.applyTransaction env node trx c.objects.database = .ok () c'.objects.database) := by
  have hshadows := @applyTransaction_shadows env rec node trx
  rw [inTempSession_eq]
  cases hrun : applyTransaction env rec node trx c.started with
  | error e c' =>
    obtain ⟨happly, hat⟩ := hshadows.of_error hrun
    have hundone := undone_of_outside hat.noted.outside
    exact ⟨_, hat.of_started, .inl ⟨e, congrArg (EStateM.Result.error e) hundone, _, happly⟩⟩
  | ok u c' =>
    obtain ⟨happly, hat⟩ := hshadows.of_ok hrun
    have hsquash := squash_of_outside hat.noted.outside htop
    exact ⟨_, hat.of_started, .inr ⟨congrArg (EStateM.Result.ok ()) hsquash, happly⟩⟩

theorem follows_transaction (trx : SignedTransaction) (hs : c.pendingTxSession = true) :
    Follows env Allowed c (after (inTempSession (applyTransaction env rec node trx) c)) := by
  intro hc
  obtain ⟨o, rest, htop, -⟩ := hc.top
  rw [base_open hs] at htop
  obtain ⟨c', hat, ⟨e, hrun, -⟩ | ⟨hrun, happly⟩⟩ := @inTempSession_cases env rec node _ trx _ _ htop
  · rw [hrun]
    exact follows_of_same rfl rfl .refl (fun hc => hc.revision) hc
  · have hline : c'.objects.line = c.objects.line := congrArg (fun p => p.2.2.2.2.2.2.2) hat.noted.outside
    rw [hrun]
    refine follows_of_same ?_ hline (.single ⟨node, trx, happly⟩) (fun hc => ?_) hc
    · rw [base_open hs]
      exact base_open hs
    · show c.revision = c'.objects.chain.length + _
      rw [(Objects.eq_of_line hline).1]
      exact hc.revision

/-- **Every call moves along the history.** -/
theorem respected_follows : Respected env rec Allowed (Follows env Allowed) where
  forks _ _ _ _ := follows_of_same rfl rfl .refl fun hc => hc.revision
  pending _ _ _ := follows_of_same rfl rfl .refl fun hc => hc.revision
  undone _ hs := follows_undone hs
  block _ _ _ hb hs := follows_pushOnHead hb hs
  opened _ hs := follows_opened hs
  closed _ hs := follows_closed hs
  transaction _ trx _ hs := follows_transaction trx hs

/-- **A run moves along the history.** -/
theorem run_follows {calls : List Call} (hcalls : Traces.Each (step env rec) (fun c call => call.Brings env rec Allowed c) c calls)
    (hi : Holds Allowed c) (hc : OnChain env c) :
    OnChain env (Traces.run (step env rec) c calls) ∧
      Moves (NextBlock env Allowed) Objects.height Objects.lastIrreversible c.base
        (Traces.run (step env rec) c calls).base := by
  have hall := hcalls.along (I := fun _ _ => True) (P := fun _ c' => Holds Allowed c' ∧ Follows env Allowed c c')
    (fun _ => trivial) ⟨hi, Std.Refl.refl c⟩ ?_
  · exact (hall calls List.prefix_rfl).2 hc
  · rintro past c₁ call - ⟨hi, hfollows⟩ hcall
    obtain ⟨hi', hfollows'⟩ := respected_follows.step call hcall hi
    exact ⟨hi', IsTrans.trans _ _ _ hfollows hfollows'⟩

theorem holds_start (key : PublicKey) : Holds Allowed (start key) := fun _ hi => absurd hi List.not_mem_nil

theorem onChain_start (key : PublicKey) : OnChain env (start key) := .of_closed rfl rfl (List.isChain_singleton _)

/-- What every block keeps holds of the objects of the head and of all undo states. -/
theorem reach_forall {P : Objects → Prop} {key : PublicKey} {calls : List Call}
    (hcalls : Traces.Each (step env rec) (fun c call => call.Brings env rec Allowed c) (start key) calls)
    (hstart : P (start key).objects) (hnext : ∀ o o' b, P o → Allowed b → Extends env b o o' → P o') :
    ∀ o ∈ (Traces.run (step env rec) (start key) calls).base, P o := by
  have hmoves := (run_follows hcalls (holds_start key) (onChain_start key)).2
  refine hmoves.forall (fun o o' ho hstep => ?_) fun o ho => ?_
  · obtain ⟨b, hb, hextends⟩ := hstep
    exact hnext o o' b ho hb hextends
  · rw [show (start key).base = [(start key).objects] from rfl, List.mem_singleton] at ho
    rw [ho]
    exact hstart

/-- What every block keeps that is applied to its end holds of the objects of the head and of all undo states, unless a block
of the chain was torn. -/
theorem reach_untorn {P : Objects → Prop} {key : PublicKey} {calls : List Call}
    (hcalls : Traces.Each (step env rec) (fun c call => call.Brings env rec Allowed c) (start key) calls)
    (hstart : P (start key).objects)
    (hnext : ∀ o o' b, P o → Allowed b → o'.chain = o.chain ++ [b] → Applied env b o.database o'.database → P o')
    (htorn : (Traces.run (step env rec) (start key) calls).objects.torn = false) :
    ∀ o ∈ (Traces.run (step env rec) (start key) calls).base, P o := by
  obtain ⟨honChain, -⟩ := run_follows hcalls (holds_start key) (onChain_start key)
  have hall := reach_forall (P := fun o => P o ∨ o.torn = true) hcalls (.inl hstart) fun o o' b ho hb hextends => ?_
  · intro o ho
    refine (hall o ho).resolve_right fun h => ?_
    rw [(honChain.below o ho).2 h] at htorn
    cases htorn
  · rcases hextends.database with ⟨happlied, -⟩ | ⟨-, htorn'⟩
    · exact ho.imp (hnext o o' b · hb hextends.chain happlied) hextends.above.torn
    · exact .inr htorn'

theorem sameClock_of_accepts {d d' : Database} (h : Relation.ReflTransGen (Accepts env) d d') : SameClock d.core d'.core := by
  induction h with
  | refl => exact Std.Refl.refl _
  | @tail d₁ _ _ haccepts ih =>
    obtain ⟨node, trx, happly⟩ := haccepts
    have hround := @sameRound_applyTransaction env node trx d₁
    rw [happly] at hround
    exact IsTrans.trans _ _ _ ih hround.clock

end Controller

end Sigmaengine
