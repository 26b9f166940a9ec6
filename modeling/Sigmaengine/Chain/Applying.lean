import Sigmaengine.Chain.Controller
import Sigmaengine.Chain.Stages
import Sigmaengine.Ledger.Frames
import Sigmaengine.Lib.Reflection

/-!
# What applying does to the controller

Applying a transaction or a block does to the indices what the programs over `Database` do, and beside them it moves the
counters and creates objects for the operations, at the location of the counters.  Sessions, fork database, log and lists
are left alone, until `update_last_irreversible_block` settles what has become irreversible.

Main results: `applyTransaction_shadows`, `applyBlockHead_reflects`.
-/

namespace Sigmaengine

open Effect Table

/-- The transaction, block and position that are noted with an operation. -/
def Counters.place (k : Counters) : Nat × Nat × Nat := (k.trxId, k.blockNum, k.trxInBlock)

def OperationObject.place (o : OperationObject) : Nat × Nat × Nat := (o.trxId, o.block, o.trxInBlock)

/-- The blocks of the main chain, and whether one of them is torn. -/
def Objects.line (o : Objects) : List SignedBlock × Bool := (o.chain, o.torn)

namespace Controller

variable {env : Env} {rec : Recorder} {node : Node} {c c' c'' : Controller}

/-- What applying leaves alone. -/
def outside (c : Controller) : List Objects × Nat × ForkDatabase × List SignedBlock × List SignedTransaction ×
    List SignedTransaction × Bool × List SignedBlock × Bool :=
  (c.undoStack, c.revision, c.forkDb, c.blockLog, c.pendingTx, c.poppedTx, c.pendingTxSession, c.objects.line)

/-- Operations have been noted at places that `P` allows, and the rest is as it was. -/
structure Noted (P : Nat × Nat × Nat → Prop) (c c' : Controller) : Prop where
  outside : c'.outside = c.outside
  created : ∃ new, c'.objects.operations = c.objects.operations ++ new ∧ ∀ o ∈ new, P o.place

theorem Noted.refl (P : Nat × Nat × Nat → Prop) (c : Controller) : Noted P c c :=
  ⟨rfl, [], (List.append_nil _).symm, fun _ ho => absurd ho List.not_mem_nil⟩

theorem Noted.trans {P : Nat × Nat × Nat → Prop} (h : Noted P c c') (h' : Noted P c' c'') : Noted P c c'' := by
  obtain ⟨hout, new, hnew, hP⟩ := h
  obtain ⟨hout', new', hnew', hP'⟩ := h'
  refine ⟨hout'.trans hout, new ++ new', by rw [hnew', hnew, List.append_assoc], fun o ho => ?_⟩
  rcases List.mem_append.mp ho with ho | ho
  · exact hP o ho
  · exact hP' o ho

theorem Noted.mono {P Q : Nat × Nat × Nat → Prop} (h : Noted P c c') (hPQ : ∀ p, P p → Q p) : Noted Q c c' := by
  obtain ⟨hout, new, hnew, hP⟩ := h
  exact ⟨hout, new, hnew, fun o ho => hPQ _ (hP o ho)⟩

/-- Nothing is noted. -/
theorem Noted.of_same {P : Nat × Nat × Nat → Prop} (hout : c'.outside = c.outside)
    (hops : c'.objects.operations = c.objects.operations) : Noted P c c' :=
  ⟨hout, [], by rw [hops, List.append_nil], fun _ ho => absurd ho List.not_mem_nil⟩

/-- Operations are noted at the place of the counters, which stays. -/
structure Here (c c' : Controller) : Prop where
  place : c'.counters.place = c.counters.place
  noted : Noted (· = c.counters.place) c c'

instance : Std.Refl Here := ⟨fun c => ⟨rfl, .refl _ c⟩⟩

instance : IsTrans Controller Here where
  trans _ _ _ h h' := ⟨h'.place.trans h.place, h.noted.trans (h'.noted.mono fun _ hp => hp.trans h.place)⟩

theorem Here.of_same (hplace : c'.counters.place = c.counters.place) (hout : c'.outside = c.outside)
    (hops : c'.objects.operations = c.objects.operations) : Here c c' := ⟨hplace, .of_same hout hops⟩

/-! ## Operations -/

theorem here_onDatabase {α : Type} (m : ChainM α) : Shadows databasePart Here (onDatabase m) m :=
  shadows_within (fun _ _ => .of_same rfl rfl rfl) m

theorem silent_setCounters (f : Counters → Counters) (hf : ∀ k, (f k).place = k.place) :
    Silent databasePart Here (setCounters f) :=
  silent_modify (fun _ => rfl) fun c => .of_same (hf c.counters) rfl rfl

theorem setCounters_silent (f : Counters → Counters) :
    Silent databasePart (fun c c' => c' = { c with counters := f c.counters }) (setCounters f) :=
  silent_modify (fun _ => rfl) fun _ => rfl

theorem silent_notify (virtualOp : Nat) (n : OperationObject → List OperationObject → Nat) :
    Silent databasePart Here (notify virtualOp n) := by
  refine silent_modify (fun _ => rfl) fun c => ⟨rfl, rfl, _, rfl, fun o ho => ?_⟩
  rw [List.eq_of_mem_replicate ho]
  rfl

theorem silent_pushVirtualOperation (n : Nat) : Silent databasePart Here (pushVirtualOperation n) :=
  silent_bind (silent_modify (fun _ => rfl) fun _ => Here.of_same rfl rfl rfl) fun _ =>
    silent_bind silent_get fun _ => silent_notify _ _

theorem applyOperation_shadows (op : Operation) :
    Shadows databasePart Here (applyOperation env rec node op) (Sigmaengine.applyOperation env node op) := by
  refine (silent_notify 0 (rec.objects op)).bind fun _ => ?_
  refine silent_get.bind fun c => ?_
  exact (silent_each silent_pushVirtualOperation _).bind fun _ => here_onDatabase _

/-! ## Transactions -/

/-- The block and the position stay, and what is noted has the transaction with them. -/
structure AtPosition (id : Nat) (c c' : Controller) : Prop where
  blockNum : c'.counters.blockNum = c.counters.blockNum
  trxInBlock : c'.counters.trxInBlock = c.counters.trxInBlock
  noted : Noted (· = (id, c.counters.blockNum, c.counters.trxInBlock)) c c'

theorem Here.atPosition (h : Here c c') : AtPosition c.counters.trxId c c' :=
  ⟨congrArg (fun p => p.2.1) h.place, congrArg (fun p => p.2.2) h.place, h.noted⟩

theorem Here.then_atPosition (h : Here c c') (h' : AtPosition c'.counters.trxId c' c'') :
    AtPosition c.counters.trxId c c'' := by
  obtain ⟨hblock', htrx', hnoted'⟩ := h.atPosition
  refine ⟨h'.blockNum.trans hblock', h'.trxInBlock.trans htrx', hnoted'.trans (h'.noted.mono fun p hp => ?_)⟩
  rw [hp, hblock', htrx', show c'.counters.trxId = c.counters.trxId from congrArg Prod.fst h.place]

/-- **A transaction** does to the database what it does without the bookkeeping. -/
theorem applyTransaction_shadows (trx : SignedTransaction) :
    Shadows databasePart (AtPosition (env.codec.transactionId trx)) (applyTransaction env rec node trx)
      (Sigmaengine.applyTransaction env node trx) := by
  have hop (op : Operation) : Shadows databasePart Here (do
      applyOperation env rec node op
      setCounters fun k => { k with opInTrx := (k.opInTrx + 1) % 65536 })
      (Sigmaengine.applyOperation env node op) :=
    (applyOperation_shadows op).then (silent_setCounters _ fun _ => rfl) fun _ _ _ h h' => IsTrans.trans _ _ _ h h'
  -- the id of the transaction stays until it is reset at the end
  have hend : Shadows databasePart (fun c c' => AtPosition c.counters.trxId c c') (do
      each (fun op => do
        applyOperation env rec node op
        setCounters fun k => { k with opInTrx := (k.opInTrx + 1) % 65536 }) trx.operations
      setCounters fun k => { k with trxId := 0 })
      (each (Sigmaengine.applyOperation env node) trx.operations) := by
    refine ((shadows_each hop _).then (setCounters_silent fun k => { k with trxId := 0 }) ?_).mono (fun _ _ h => h)
      fun _ _ h => h.atPosition
    rintro c c' _ h rfl
    obtain ⟨hblock, htrx, hout, hcreated⟩ := h.atPosition
    exact ⟨hblock, htrx, hout, hcreated⟩
  have hbody := reflects_seq (here_onDatabase (onCore (admitTransaction env node trx)))
    (fun _ => (silent_setCounters (fun k => { k with opInTrx := 0 }) fun _ => rfl).before (fun _ => hend)
      (fun _ _ _ h h' => h.then_atPosition h') fun _ _ _ h h' => h.then_atPosition h')
    (fun _ _ h => h.atPosition) (fun _ _ _ h h' => h.then_atPosition h') fun _ _ _ h h' => h.then_atPosition h'
  refine (setCounters_silent fun k => { k with trxId := env.codec.transactionId trx, virtualOp := 0 }).before
    (fun _ => hbody) ?_ ?_
  all_goals
    rintro c _ c'' rfl ⟨hblock, htrx, hout, hcreated⟩
    exact ⟨hblock, htrx, hout, hcreated⟩

/-! ## Blocks -/

/-- The counters point to a position of a block. -/
def At (n i : Nat) (c : Controller) : Prop := c.counters.blockNum = n ∧ c.counters.trxInBlock = i % 65536

/-- The places of transactions that are in a block from a position on. -/
def PlacedFrom (cd : Codec) (n i : Nat) (trxs : List SignedTransaction) (p : Nat × Nat × Nat) : Prop :=
  ∃ k trx, trxs[k]? = some trx ∧ p = (cd.transactionId trx, n, (i + k) % 65536)

/-- The transactions of a block are noted at their positions. -/
theorem applyTransactions_reflects (n : Nat) (trxs : List SignedTransaction) (i : Nat) :
    Reflects databasePart
      (fun c c' => At n i c → At n (i + trxs.length) c' ∧ Noted (PlacedFrom env.codec n i trxs) c c')
      (fun c c' => At n i c → c'.counters.blockNum = n ∧ Noted (PlacedFrom env.codec n i trxs) c c')
      (each (fun trx => do
        applyTransaction env rec node trx
        setCounters fun k => { k with trxInBlock := (k.trxInBlock + 1) % 65536 }) trxs)
      (each (Sigmaengine.applyTransaction env node) trxs) := by
  induction trxs generalizing i with
  | nil =>
    intro c
    constructor
    · rintro a t h
      cases h
      exact ⟨c, rfl, rfl, fun hat => ⟨hat, .refl _ c⟩⟩
    · intro e t h
      cases h
  | cons trx trxs ih =>
    have hfirst : ∀ p, p = (env.codec.transactionId trx, n, i % 65536) →
        PlacedFrom env.codec n i (trx :: trxs) p := fun p hp => ⟨0, trx, rfl, hp⟩
    have hlater : ∀ p, PlacedFrom env.codec n (i + 1) trxs p → PlacedFrom env.codec n i (trx :: trxs) p := by
      rintro p ⟨k, t, hk, rfl⟩
      exact ⟨k + 1, t, hk, by rw [Nat.add_assoc, Nat.add_comm 1 k]⟩
    have hone : Reflects databasePart
        (fun c c' => At n i c → At n (i + 1) c' ∧ Noted (PlacedFrom env.codec n i (trx :: trxs)) c c')
        (fun c c' => At n i c → c'.counters.blockNum = n ∧ Noted (PlacedFrom env.codec n i (trx :: trxs)) c c')
        (do
          applyTransaction env rec node trx
          setCounters fun k => { k with trxInBlock := (k.trxInBlock + 1) % 65536 })
        (Sigmaengine.applyTransaction env node trx) := by
      refine ((applyTransaction_shadows trx).then (setCounters_silent _) ?_).mono (fun _ _ h => h) ?_
      · rintro c c' _ ⟨hblock, htrx, hout, hcreated⟩ rfl ⟨hn, hi⟩
        rw [hn, hi] at hcreated
        refine ⟨⟨hblock.trans hn, ?_⟩, Noted.mono ⟨hout, hcreated⟩ hfirst⟩
        show (c'.counters.trxInBlock + 1) % 65536 = (i + 1) % 65536
        rw [htrx, hi]
        omega
      · rintro c c' ⟨hblock, -, hnoted⟩ ⟨hn, hi⟩
        rw [hn, hi] at hnoted
        exact ⟨hblock.trans hn, hnoted.mono hfirst⟩
    refine reflects_seq hone (fun _ => ih (i + 1)) (fun _ _ h => h) ?_ ?_
    · intro c c' c'' h h' hat
      obtain ⟨hat', hnoted⟩ := h hat
      obtain ⟨hat'', hnoted'⟩ := h' hat'
      refine ⟨?_, hnoted.trans (hnoted'.mono hlater)⟩
      rwa [List.length_cons, Nat.add_comm trxs.length 1, ← Nat.add_assoc]
    · intro c c' c'' h h' hat
      obtain ⟨hat', hnoted⟩ := h hat
      obtain ⟨hblock, hnoted'⟩ := h' hat'
      exact ⟨hblock, hnoted.trans (hnoted'.mono hlater)⟩

/-- Nothing but the database and the counters has changed. -/
def Quiet (c c' : Controller) : Prop := c'.outside = c.outside ∧ c'.objects.operations = c.objects.operations

theorem onDatabase_shadows {α : Type} (m : ChainM α) :
    Shadows databasePart (fun c c' => c'.counters = c.counters ∧ Quiet c c') (onDatabase m) m :=
  shadows_within (fun _ _ => ⟨rfl, rfl, rfl⟩) m

/-- Where the counters are after a block was refused: where they were, or at this block, on top of the head. -/
def Refused (b : SignedBlock) (c c' : Controller) : Prop :=
  c'.counters.blockNum = c.counters.blockNum ∧ c'.counters.trxInBlock = c.counters.trxInBlock ∨
    c.headBlockId = b.previous ∧ c'.counters.blockNum = b.blockNum

theorem onCore_bind {α β : Type} (x : CoreM α) (f : α → CoreM β) : onCore (x >>= f) = onCore x >>= fun a => onCore (f a) :=
  within_bind (fun _ _ _ => rfl) x f

theorem beginBlock_reflects (b : SignedBlock) :
    Reflects databasePart (fun c c' => c.headBlockId = b.previous ∧ At b.blockNum 0 c' ∧ Quiet c c')
      (fun c c' => Refused b c c' ∧ Quiet c c') (beginBlock env node b) (onCore (applyBlockHeader env node b)) := by
  unfold applyBlockHeader
  rw [onCore_bind]
  -- up to the header nothing changes, after it the counters are at the block
  refine reflects_seq (reflects_readOnly (readOnly_within (readOnly_assert _ _))) (fun _ => ?_)
    (G := fun c c' => Refused b c c' ∧ Quiet c c') (F := fun c c' => Refused b c c' ∧ Quiet c c')
    (S := fun c c' => c.headBlockId = b.previous ∧ At b.blockNum 0 c' ∧ Quiet c c') ?_ ?_ ?_
  · rw [onCore_bind]
    refine reflects_seq (reflects_readOnly (readOnly_within (readOnly_validateBlockHeader env node b))) (fun signing => ?_)
      (F := fun c c' => c'.counters.blockNum = b.blockNum ∧ Quiet c c')
      (S := fun c c' => At b.blockNum 0 c' ∧ Quiet c c') ?_ ?_ ?_
    · refine (setCounters_silent _).before (fun _ => shadows_within (R := fun c c' =>
        c'.counters = c.counters ∧ Quiet c c') (fun _ _ => ⟨rfl, rfl, rfl⟩) _) ?_ ?_
      · rintro c _ c' rfl ⟨hcounters, hquiet⟩
        rw [At, hcounters]
        exact ⟨⟨rfl, rfl⟩, hquiet⟩
      · rintro c _ c' rfl ⟨hcounters, hquiet⟩
        rw [hcounters]
        exact ⟨rfl, hquiet⟩
    · rintro c _ rfl
      exact ⟨.inl ⟨rfl, rfl⟩, rfl, rfl⟩
    · rintro c _ c' ⟨rfl, signing, hvalid⟩ h
      obtain ⟨d, hcore, -⟩ := within_eq_ok.mp hvalid
      exact ⟨(validateBlockHeader_eq_ok hcore).2.1, h⟩
    · rintro c _ c' ⟨rfl, signing, hvalid⟩ ⟨hblock, hquiet⟩
      obtain ⟨d, hcore, -⟩ := within_eq_ok.mp hvalid
      exact ⟨.inr ⟨(validateBlockHeader_eq_ok hcore).2.1, hblock⟩, hquiet⟩
  · rintro c _ rfl
    exact ⟨.inl ⟨rfl, rfl⟩, rfl, rfl⟩
  · rintro c _ c' ⟨rfl, -⟩ h
    exact h
  · rintro c _ c' ⟨rfl, -⟩ h
    exact h

/-- The block joins the main chain. -/
def extend (b : SignedBlock) (c : Controller) : Controller :=
  { c with objects := { c.objects with chain := c.objects.chain ++ [b] } }

theorem outside_extend {b : SignedBlock} (h : c'.outside = c.outside) : (c'.extend b).outside = (c.extend b).outside := by
  simp only [outside, extend, Objects.line, Prod.mk.injEq] at h ⊢
  simp [h]

/-- What applying a block has done when the database has the new head. -/
structure Extended (cd : Codec) (b : SignedBlock) (c c' : Controller) : Prop where
  linked : c.headBlockId = b.previous
  counters : At b.blockNum b.transactions.length c'
  noted : Noted (PlacedFrom cd b.blockNum 0 b.transactions) (c.extend b) c'

/-- **The first part of a block** does to the database what it does without the bookkeeping. -/
theorem applyBlockHead_reflects (b : SignedBlock) :
    Reflects databasePart (Extended env.codec b) (fun c c' => Refused b c c' ∧ c'.outside = c.outside)
      (applyBlockHead env rec node b) (Sigmaengine.applyBlockHead env node b) := by
  -- after the transactions
  have hlast (signing : Nat) : Reflects databasePart
      (fun c c' => c'.counters.blockNum = c.counters.blockNum ∧ c'.counters.trxInBlock = c.counters.trxInBlock ∧
        c'.outside = (c.extend b).outside ∧ c'.objects.operations = c.objects.operations)
      (fun c c' => c'.counters.blockNum = c.counters.blockNum ∧ c'.outside = c.outside)
      (do
        setCounters fun k => { k with virtualOp := 0 }
        onDatabase (onCore do
          updateGlobalDynamicData env node b
          updateSigningBobserver signing b
          updateLastIrreversibleBlock)
        modify fun c => { c with objects := { c.objects with chain := c.objects.chain ++ [b] } })
      (onCore do
        updateGlobalDynamicData env node b
        updateSigningBobserver signing b
        updateLastIrreversibleBlock) := by
    have hmodify : Silent databasePart (fun c c' => c' = c.extend b)
        (modify fun c => { c with objects := { c.objects with chain := c.objects.chain ++ [b] } } : ControllerM Unit) :=
      silent_modify (fun _ => rfl) fun _ => rfl
    refine (setCounters_silent _).before (S := fun c c' => c'.counters = c.counters ∧
      c'.outside = (c.extend b).outside ∧ c'.objects.operations = c.objects.operations)
      (fun _ => (onDatabase_shadows _).then hmodify ?_) ?_ ?_
    · rintro c c' _ ⟨hcounters, hout, hops⟩ rfl
      exact ⟨hcounters, outside_extend hout, hops⟩
    · rintro c _ c'' rfl ⟨hcounters, hout, hops⟩
      rw [hcounters]
      exact ⟨rfl, rfl, hout, hops⟩
    · rintro c _ c'' rfl ⟨hcounters, hout, -⟩
      rw [hcounters]
      exact ⟨rfl, hout⟩
  have htrxs (signing : Nat) := reflects_seq (@applyTransactions_reflects env rec node
    b.blockNum b.transactions 0) (fun _ => hlast signing)
    (T := fun c c' => At b.blockNum 0 c → At b.blockNum b.transactions.length c' ∧
      Noted (PlacedFrom env.codec b.blockNum 0 b.transactions) (c.extend b) c')
    (G := fun c c' => At b.blockNum 0 c → c'.counters.blockNum = b.blockNum ∧ c'.outside = c.outside)
    (fun c c' h hat => ⟨(h hat).1, (h hat).2.outside⟩) (by
      rintro c c' c'' h ⟨hblock, htrx, hout, hops⟩ hat
      obtain ⟨⟨hn, hi⟩, hout', new, hnew, hP⟩ := h hat
      rw [Nat.zero_add] at hi
      exact ⟨⟨hblock.trans hn, htrx.trans hi⟩, hout.trans (outside_extend hout'), new, hops.trans hnew, hP⟩) (by
      rintro c c' c'' h ⟨hblock, hout⟩ hat
      obtain ⟨⟨hn, -⟩, hnoted⟩ := h hat
      exact ⟨hblock.trans hn, hout.trans hnoted.outside⟩)
  refine reflects_seq (beginBlock_reflects b) htrxs ?_ ?_ ?_
  · rintro c c' ⟨hrefused, hout, -⟩
    exact ⟨hrefused, hout⟩
  · rintro c c' c'' ⟨hlink, hat, hout, hops⟩ h
    obtain ⟨hat', hout', new, hnew, hP⟩ := h hat
    exact ⟨hlink, hat', hout'.trans (outside_extend hout), new, hnew.trans (congrArg (· ++ new) hops), hP⟩
  · rintro c c' c'' ⟨hlink, hat, hout, hops⟩ h
    obtain ⟨hblock, hout'⟩ := h hat
    exact ⟨.inr ⟨hlink, hblock⟩, hout'.trans hout⟩

/-- **The last part of a block** does to the database what it does without the bookkeeping. -/
theorem applyBlockTail_shadows (b : SignedBlock) :
    Shadows databasePart Here (applyBlockTail env rec b) (Sigmaengine.applyBlockTail env b) := by
  refine silent_get.bind fun c => ?_
  exact (silent_each silent_pushVirtualOperation _).bind fun _ => here_onDatabase _

/-- What `update_last_irreversible_block` does beside the database. -/
structure Settles (c c' : Controller) : Prop where
  objects : c'.objects = c.objects
  counters : c'.counters = c.counters
  undoStack : c'.undoStack = c.undoStack.take (c.revision - c.lastIrreversibleBlockNum)
  revision : c'.revision = c.revision
  pending : (c'.pendingTx, c'.poppedTx, c'.pendingTxSession) = (c.pendingTx, c.poppedTx, c.pendingTxSession)
  items : c'.forkDb.items = c.forkDb.items
  head : c'.forkDb.head = c.forkDb.head

/-- The log and the index of the fork database may change. -/
structure LogsOnly (c c' : Controller) : Prop where
  objects : c'.objects = c.objects
  counters : c'.counters = c.counters
  stack : (c'.undoStack, c'.revision) = (c.undoStack, c.revision)
  pending : (c'.pendingTx, c'.poppedTx, c'.pendingTxSession) = (c.pendingTx, c.poppedTx, c.pendingTxSession)
  items : c'.forkDb.items = c.forkDb.items
  head : c'.forkDb.head = c.forkDb.head

instance : Std.Refl LogsOnly := ⟨fun _ => ⟨rfl, rfl, rfl, rfl, rfl, rfl⟩⟩

instance : IsTrans Controller LogsOnly where
  trans _ _ _ h h' := ⟨h'.objects.trans h.objects, h'.counters.trans h.counters, h'.stack.trans h.stack,
    h'.pending.trans h.pending, h'.items.trans h.items, h'.head.trans h.head⟩

theorem always_appendToLog (n : Nat) : Always LogsOnly (appendToLog n) := by
  refine always_bind always_get fun c => always_bind (always_ofOption _ _) fun item => ?_
  exact always_bind (always_assert _ _) fun _ => fun _ => ⟨rfl, rfl, rfl, rfl, rfl, rfl⟩

theorem always_logIrreversible : Always LogsOnly (logIrreversible node) := by
  refine always_bind always_get fun c => ?_
  split
  · exact always_pure _
  · exact always_each always_appendToLog _

theorem always_setMaxSize (n : Nat) : Always LogsOnly (onForkDb (ForkDatabase.setMaxSize n)) := by
  intro c
  have hsame : ∀ f : ForkDatabase, (after (ForkDatabase.setMaxSize n f)).items = f.items ∧
      (after (ForkDatabase.setMaxSize n f)).head = f.head := by
    intro f
    rcases ForkDatabase.setMaxSize_cases n f with hrun | ⟨head, hrun⟩
    · rw [hrun]
      exact ⟨rfl, rfl⟩
    · rw [hrun]
      exact ⟨rfl, rfl⟩
  rw [onForkDb, after_within]
  exact ⟨rfl, rfl, rfl, rfl, (hsame c.forkDb).1, (hsame c.forkDb).2⟩

theorem settleIrreversible_settles (c : Controller) : Settles c (after (settleIrreversible node c)) := by
  have hrest : Always LogsOnly (do
      logIrreversible node
      onForkDb (ForkDatabase.setMaxSize ((c.headBlockNum + 4294967296 - c.lastIrreversibleBlockNum + 1) % 4294967296))) :=
    always_bind always_logIrreversible fun _ => always_setMaxSize _
  obtain ⟨hobjects, hcounters, hstack, hpending, hitems, hhead⟩ := hrest
    { c with undoStack := c.undoStack.take (c.revision - c.lastIrreversibleBlockNum) }
  exact ⟨hobjects, hcounters, congrArg Prod.fst hstack, congrArg Prod.snd hstack, hpending, hitems, hhead⟩

/-! ## The head -/

/-- **The new head** after the first part of a block. -/
theorem applyBlockHead_clock {b : SignedBlock} {d d' : Database} {u : Unit}
    (h : Sigmaengine.applyBlockHead env node b d = .ok u d') :
    d.core.dgp.headBlockId = b.previous ∧ d.core.dgp.time < b.timestamp ∧ d'.core.dgp.headBlockNumber = b.blockNum ∧
      d'.core.dgp.headBlockId = b.id env.codec ∧ d'.core.dgp.time = b.timestamp := by
  simp only [Sigmaengine.applyBlockHead, onCore, bind_eq_ok, within_eq_ok] at h
  obtain ⟨signing, _, ⟨opened, hheader, rfl⟩, _, executed, htrxs, settled, ⟨_, advanced, hglobal, _, signed, hsign, hlib⟩,
    rfl⟩ := h
  obtain ⟨-, hlink, hlate⟩ := applyBlockHeader_eq_ok hheader
  have hadvanced := (updateGlobalDynamicData_clock hglobal).1
  obtain ⟨-, -, hsigned, -, -⟩ := updateSigningBobserver_eq_ok hsign
  obtain ⟨-, -, hsettled⟩ := updateLastIrreversibleBlock_same hlib
  have hclock : signed.clock = advanced.clock := hsigned
  rw [hadvanced] at hclock
  simp only [Core.clock, Prod.mk.injEq] at hclock hsettled
  obtain ⟨hnum, hid, htime, -, -⟩ := hclock
  obtain ⟨hnum', hid', htime', -, -⟩ := hsettled
  exact ⟨hlink, hlate, hnum'.trans hnum, hid'.trans hid, htime'.trans htime⟩

theorem sameClock_applyBlockTail (b : SignedBlock) :
    Always (CoreRel SameClock) (Sigmaengine.applyBlockTail env b) := by
  have hcore : Always SameClock (do
      prepareBlock env b
      postProcess
      processHardforks) := by
    refine always_bind (sameHour_prepareBlock.mono fun _ _ h => h.1) fun _ => ?_
    refine always_bind (accountsOnly_postProcess.mono fun _ _ h => h.stays.sameClock) fun _ => ?_
    exact always_processHardforks fun _ _ => rfl
  refine always_bind (coreRel_onCore hcore) fun _ => ?_
  exact (moneyOnly_notifyAppliedBlock env).mono fun _ _ h => (MoneyOnly.accountsOnly h).stays.sameClock

/-! ## A block in its session -/

def started (c : Controller) : Controller := { c with undoStack := c.objects :: c.undoStack, revision := c.revision + 1 }

def undone (c : Controller) : Controller := after (undo c)

def blockUndone (c : Controller) : Controller := after (undoBlock c)

theorem blockUndone_of_nil (h : c.undoStack = []) :
    c.blockUndone = { c with objects := { c.objects with torn := true } } := by
  rw [blockUndone, undoBlock, bind_of_ok (get_apply c), if_pos (by rw [h, List.isEmpty_nil])]
  rfl

theorem blockUndone_of_cons {o : Objects} {rest : List Objects} (h : c.undoStack = o :: rest) :
    c.blockUndone = c.undone := by
  rw [blockUndone, undoBlock, bind_of_ok (get_apply c), if_neg (by rw [h]; exact Bool.false_ne_true)]
  rfl

/-- What happened in a session that only applied is undone. -/
theorem undone_of_outside (h : c'.outside = c.started.outside) : c'.undone = { c with counters := c'.counters } := by
  obtain ⟨objects, counters, undoStack, revision, forkDb, blockLog, pendingTx, poppedTx, session⟩ := c'
  simp only [outside, started, Prod.mk.injEq] at h
  obtain ⟨rfl, rfl, rfl, rfl, rfl, rfl, rfl, -⟩ := h
  rfl

/-- The three parts of a block that gets a new head. -/
structure Pushed (env : Env) (node : Node) (b : SignedBlock) (c c₁ c₂ c₃ : Controller) : Prop where
  database : Sigmaengine.applyBlockHead env node b c.objects.database = .ok () c₁.objects.database
  extended : Extended env.codec b c.started c₁
  settles : Settles c₁ c₂
  here : Here c₂ c₃
  clock : SameClock c₂.objects.database.core c₃.objects.database.core

/-- **A block in its session**: it is refused and leaves only counters behind, or it gets a new head, and then it returns or
throws in its last steps. -/
theorem applyBlock_cases (b : SignedBlock) (c : Controller) :
    (∃ e c₁, applyBlock env rec node b c.started = .error e c₁ ∧ c₁.outside = c.started.outside ∧
        Refused b c { c with counters := c₁.counters }) ∨
      ∃ c₁ c₂ c₃, Pushed env node b c c₁ c₂ c₃ ∧
        ((applyBlock env rec node b c.started = .ok () c₃ ∧ settleIrreversible node c₁ = .ok () c₂ ∧
            Sigmaengine.applyBlockTail env b c₂.objects.database = .ok () c₃.objects.database) ∨
          ∃ e, applyBlock env rec node b c.started = .error e c₃ ∧
            (settleIrreversible node c₁ = .error e c₂ ∧ c₃ = c₂ ∨
              settleIrreversible node c₁ = .ok () c₂ ∧
                Sigmaengine.applyBlockTail env b c₂.objects.database = .error e c₃.objects.database)) := by
  cases hhead : applyBlockHead env rec node b c.started with
  | error e c₁ =>
    obtain ⟨-, hrefused, hout⟩ := (applyBlockHead_reflects b).of_error hhead
    exact .inl ⟨e, c₁, bind_of_error hhead, hout, hrefused⟩
  | ok u c₁ =>
    right
    obtain ⟨hdatabase, hextended⟩ := (applyBlockHead_reflects b).of_ok hhead
    have hsettles := @settleIrreversible_settles node c₁
    cases hsettle : settleIrreversible node c₁ with
    | error e c₂ =>
      rw [hsettle] at hsettles
      have hrun : applyBlock env rec node b c.started = .error e c₂ := by
        rw [applyBlock, bind_of_ok hhead, bind_of_error hsettle]
      exact ⟨c₁, c₂, c₂, ⟨hdatabase, hextended, hsettles, Std.Refl.refl _, rfl⟩,
        .inr ⟨e, hrun, .inl ⟨hsettle, rfl⟩⟩⟩
    | ok v c₂ =>
      rw [hsettle] at hsettles
      have hrun : applyBlock env rec node b c.started = applyBlockTail env rec b c₂ := by
        rw [applyBlock, bind_of_ok hhead, bind_of_ok hsettle]
      have hclock := @sameClock_applyBlockTail env b c₂.objects.database
      cases htail : applyBlockTail env rec b c₂ with
      | error e c₃ =>
        obtain ⟨hdatabase', hhere⟩ := (applyBlockTail_shadows b).of_error htail
        rw [show Sigmaengine.applyBlockTail env b c₂.objects.database = _ from hdatabase'] at hclock
        exact ⟨c₁, c₂, c₃, ⟨hdatabase, hextended, hsettles, hhere, hclock⟩,
          .inr ⟨e, hrun.trans htail, .inr ⟨hsettle, hdatabase'⟩⟩⟩
      | ok w c₃ =>
        obtain ⟨hdatabase', hhere⟩ := (applyBlockTail_shadows b).of_ok htail
        rw [show Sigmaengine.applyBlockTail env b c₂.objects.database = _ from hdatabase'] at hclock
        exact ⟨c₁, c₂, c₃, ⟨hdatabase, hextended, hsettles, hhere, hclock⟩,
          .inl ⟨hrun.trans htail, hsettle, hdatabase'⟩⟩

/-- **A block on the head**: it is refused and leaves only counters behind, or it gets a new head, and then it returns, or
what is left of its session is undone. -/
theorem pushOnHead_cases (b : SignedBlock) (c : Controller) :
    (∃ e k, pushOnHead env rec node b c = .error e { c with counters := k } ∧ Refused b c { c with counters := k }) ∨
      ∃ c₁ c₂ c₃, Pushed env (node.atBlock b.blockNum) b c c₁ c₂ c₃ ∧
        ((pushOnHead env rec node b c = .ok () c₃ ∧ settleIrreversible (node.atBlock b.blockNum) c₁ = .ok () c₂ ∧
            Sigmaengine.applyBlockTail env b c₂.objects.database = .ok () c₃.objects.database) ∨
          ∃ e, pushOnHead env rec node b c = .error e c₃.blockUndone ∧
            (settleIrreversible (node.atBlock b.blockNum) c₁ = .error e c₂ ∧ c₃ = c₂ ∨
              settleIrreversible (node.atBlock b.blockNum) c₁ = .ok () c₂ ∧
                Sigmaengine.applyBlockTail env b c₂.objects.database = .error e c₃.objects.database)) := by
  have hpush : pushOnHead env rec node b c = cleanup undoBlock (applyCheckpointed env rec node b) c.started := rfl
  have hrefuse {e : Error} {c₁ : Controller} (hrun : applyCheckpointed env rec node b c.started = .error e c₁)
      (hout : c₁.outside = c.started.outside) :
      pushOnHead env rec node b c = .error e { c with counters := c₁.counters } := by
    have hstack : c₁.undoStack = c.objects :: c.undoStack := congrArg Prod.fst hout
    rw [hpush, cleanup, hrun]
    show EStateM.Result.error e c₁.blockUndone = _
    rw [blockUndone_of_cons hstack, undone_of_outside hout]
  cases hadmits : node.checkpoints.admits env.codec b with
  | false =>
    have hrun : applyCheckpointed env rec node b c.started = .error (.assertion "Block did not match checkpoint") c.started := by
      rw [applyCheckpointed, hadmits]
      rfl
    exact .inl ⟨_, _, hrefuse hrun rfl, .inl ⟨rfl, rfl⟩⟩
  | true =>
    have happly : applyCheckpointed env rec node b c.started = applyBlock env rec (node.atBlock b.blockNum) b c.started := by
      rw [applyCheckpointed, hadmits]
      rfl
    rcases @applyBlock_cases env rec (node.atBlock b.blockNum) b c with
      ⟨e, c₁, hrun, hout, hrefused⟩ | ⟨c₁, c₂, c₃, hpushed, ⟨hrun, hrest⟩ | ⟨e, hrun, hrest⟩⟩
    · exact .inl ⟨e, _, hrefuse (happly.trans hrun) hout, hrefused⟩
    · refine .inr ⟨c₁, c₂, c₃, hpushed, .inl ⟨?_, hrest⟩⟩
      rw [hpush, cleanup, happly, hrun]
    · refine .inr ⟨c₁, c₂, c₃, hpushed, .inr ⟨e, ?_, hrest⟩⟩
      rw [hpush, cleanup, happly, hrun]
      rfl

end Controller

end Sigmaengine
