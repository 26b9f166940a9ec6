import Sigmaengine.Chain.Applying
import Sigmaengine.Consensus.ForkBranches

/-!
# What calls are made of

Whatever order blocks and transactions come in, a call moves the objects in few ways only: a block is pushed on the head,
the last session is undone, the session of the pending transactions is opened or closed, a transaction is applied in it.
A relation that each of these respects holds between the states before and after a call.

Main result: `Respected.step`.
-/

namespace Sigmaengine

open Effect Table

namespace Controller

/-- The blocks that the items of the fork database hold are among those that may come in. -/
def Holds (Allowed : SignedBlock → Prop) (c : Controller) : Prop := ∀ i ∈ c.forkDb.items, Allowed i.data

/-- The pending transactions, the popped ones, whether there is a session for them, and the items. -/
def lists (c : Controller) : List SignedTransaction × List SignedTransaction × Bool × List ForkItem :=
  (c.pendingTx, c.poppedTx, c.pendingTxSession, c.forkDb.items)

/-- The items are the same, or there is one more, for a block that comes in. -/
def Items (cd : Codec) (Allowed : SignedBlock → Prop) (f f' : ForkDatabase) : Prop :=
  f'.items = f.items ∨ ∃ b prev, Allowed b ∧ f'.items = f.items ++ [{ data := b, id := b.id cd, prev := prev }]

/-- What a relation has to respect where no transactions are pending. -/
structure RespectedApart (env : Env) (rec : Recorder) (Allowed : SignedBlock → Prop) (R : Controller → Controller → Prop) :
    Prop where
  forks : ∀ c f popped, Items env.codec Allowed c.forkDb f → R c { c with forkDb := f, poppedTx := popped }
  undone : ∀ c, c.pendingTxSession = false → R c c.undone
  block : ∀ node b c, Allowed b → c.pendingTxSession = false → R c (after (pushOnHead env rec node b c))

/-- What it has to respect where transactions become pending. -/
structure RespectedPending (env : Env) (rec : Recorder) (R : Controller → Controller → Prop) : Prop where
  pending : ∀ c trxs popped, R c { c with pendingTx := trxs, poppedTx := popped }
  opened : ∀ c, c.pendingTxSession = false → R c { c.started with pendingTxSession := true }
  closed : ∀ c, c.pendingTxSession = true → R c { c.undone with pendingTxSession := false }
  transaction : ∀ node trx c, c.pendingTxSession = true →
    R c (after (inTempSession (applyTransaction env rec node trx) c))

structure Respected (env : Env) (rec : Recorder) (Allowed : SignedBlock → Prop) (R : Controller → Controller → Prop) : Prop
    extends RespectedApart env rec Allowed R, RespectedPending env rec R

/-- The block that a call brings in, the one that is pushed or the one that is generated, is among those that may. -/
def Call.Brings (env : Env) (rec : Recorder) (Allowed : SignedBlock → Prop) (c : Controller) : Call → Prop
  | .pushBlock _ b => Allowed b
  | .generateBlock node time owner key => ∀ b c', proposeBlock env rec node time owner key c = .ok b c' → Allowed b
  | _ => True

/-- The relation where no transactions are pending, and they are not afterwards. -/
def Apart (Allowed : SignedBlock → Prop) (R : Controller → Controller → Prop) (c c' : Controller) : Prop :=
  c.pendingTxSession = false → Holds Allowed c → c'.pendingTxSession = false ∧ Holds Allowed c' ∧ R c c'

def Throughout (Allowed : SignedBlock → Prop) (R : Controller → Controller → Prop) (c c' : Controller) : Prop :=
  Holds Allowed c → Holds Allowed c' ∧ R c c'

/-- The relation between states with pending transactions. -/
def Joined (R : Controller → Controller → Prop) (c c' : Controller) : Prop :=
  c.pendingTxSession = true → c'.lists = c.lists ∧ R c c'

section Instances

variable {Allowed : SignedBlock → Prop} {R : Controller → Controller → Prop}

instance [Std.Refl R] : Std.Refl (Apart Allowed R) := ⟨fun c hs hi => ⟨hs, hi, Std.Refl.refl c⟩⟩

instance [IsTrans Controller R] : IsTrans Controller (Apart Allowed R) where
  trans _ _ _ h h' hs hi := by
    obtain ⟨hs', hi', hR⟩ := h hs hi
    obtain ⟨hs'', hi'', hR'⟩ := h' hs' hi'
    exact ⟨hs'', hi'', IsTrans.trans _ _ _ hR hR'⟩

instance [Std.Refl R] : Std.Refl (Throughout Allowed R) := ⟨fun c hi => ⟨hi, Std.Refl.refl c⟩⟩

instance [IsTrans Controller R] : IsTrans Controller (Throughout Allowed R) where
  trans _ _ _ h h' hi := by
    obtain ⟨hi', hR⟩ := h hi
    obtain ⟨hi'', hR'⟩ := h' hi'
    exact ⟨hi'', IsTrans.trans _ _ _ hR hR'⟩

instance [Std.Refl R] : Std.Refl (Joined R) := ⟨fun c _ => ⟨rfl, Std.Refl.refl c⟩⟩

instance [IsTrans Controller R] : IsTrans Controller (Joined R) where
  trans _ _ _ h h' hs := by
    obtain ⟨hlists, hR⟩ := h hs
    obtain ⟨hlists', hR'⟩ := h' ((congrArg (fun p => p.2.2.1) hlists).trans hs)
    exact ⟨hlists'.trans hlists, IsTrans.trans _ _ _ hR hR'⟩

theorem Throughout.of_apart {c c' : Controller} (h : Apart Allowed R c c') (hs : c.pendingTxSession = false) :
    Throughout Allowed R c c' := fun hi => (h hs hi).2

end Instances

variable {env : Env} {rec : Recorder} {node : Node} {Allowed : SignedBlock → Prop} {R : Controller → Controller → Prop}
  {c c' : Controller} {b : SignedBlock}

theorem after_bind {α β : Type} [IsTrans Controller R] {x : ControllerM α} {f : α → ControllerM β} (hx : R c (after (x c)))
    (hf : ∀ a c', x c = .ok a c' → R c' (after (f a c'))) : R c (after ((x >>= f) c)) := by
  cases hrun : x c with
  | ok a c' =>
    rw [hrun] at hx
    rw [bind_of_ok hrun]
    exact IsTrans.trans _ _ _ hx (hf a c' hrun)
  | error e c' =>
    rw [hrun] at hx
    rw [bind_of_error hrun]
    exact hx

theorem after_readOnly {α β : Type} [Std.Refl R] {x : ControllerM α} {f : α → ControllerM β} (hx : ReadOnly x)
    (hf : ∀ a, R c (after (f a c))) : R c (after ((x >>= f) c)) := by
  have hsame := hx c
  cases hrun : x c with
  | ok a c' =>
    rw [hrun] at hsame
    obtain rfl : c = c' := hsame
    rw [bind_of_ok hrun]
    exact hf a
  | error e c' =>
    rw [hrun] at hsame
    obtain rfl : c = c' := hsame
    rw [bind_of_error hrun]
    exact Std.Refl.refl c

theorem after_cleanup {α : Type} [IsTrans Controller R] {u : ControllerM Unit} {m : ControllerM α} (hm : R c (after (m c)))
    (hu : Always R u) : R c (after (cleanup u m c)) := by
  unfold cleanup
  cases hrun : m c with
  | ok a c' =>
    rw [hrun] at hm
    exact hm
  | error e c' =>
    rw [hrun] at hm
    exact IsTrans.trans _ _ _ hm (hu c')

theorem always_cleanup {α : Type} [IsTrans Controller R] {u : ControllerM Unit} {m : ControllerM α} (hu : Always R u)
    (hm : Always R m) : Always R (cleanup u m) := fun c => after_cleanup (hm c) hu

/-! ## The fork database -/

/-- No item is made. -/
def SameItems (f f' : ForkDatabase) : Prop := f'.items = f.items

instance : Std.Refl SameItems := ⟨fun _ => rfl⟩

instance : IsTrans ForkDatabase SameItems := ⟨fun _ _ _ h h' => h'.trans h⟩

theorem sameItems_popBlock : Always SameItems ForkDatabase.popBlock := by
  refine always_bind always_get fun f => always_bind (always_ofOption _ _) fun head => ?_
  exact always_bind (always_ofOption _ _) fun prev => fun _ => rfl

theorem sameItems_remove (id : BlockId) : Always SameItems (ForkDatabase.remove id) := fun _ => rfl

theorem sameItems_setHead (h : Option Nat) : Always SameItems (ForkDatabase.setHead h) := fun _ => rfl

theorem sameItems_hold (hs : List Nat) :
    Always SameItems (modify fun f => { f with held := hs } : ForkDatabase.M Unit) := fun _ => rfl

theorem items_pushBlock {cd : Codec} (hb : Allowed b) (f : ForkDatabase) :
    Items cd Allowed f (after (ForkDatabase.pushBlock cd b f)) := by
  rcases @ForkDatabase.after_pushBlock cd f b with hsame | ⟨prev, -, -, hadd⟩
  · exact .inl (congrArg ForkDatabase.items hsame)
  · exact .inr ⟨b, prev, hb, congrArg ForkDatabase.items hadd⟩

/-! ## What a session leaves alone -/

theorem undone_eq (c : Controller) : c.undone = match c.undoStack with
    | [] => c
    | o :: rest => { c with objects := o, undoStack := rest, revision := c.revision - 1 } := rfl

theorem lists_undone (c : Controller) : c.undone.lists = c.lists := by
  rw [undone_eq]
  split
  · rfl
  · rfl

theorem lists_blockUndone (c : Controller) : c.blockUndone.lists = c.lists := by
  cases hstack : c.undoStack with
  | nil =>
    rw [blockUndone_of_nil hstack]
    rfl
  | cons o rest =>
    rw [blockUndone_of_cons hstack]
    exact lists_undone c

theorem Pushed.lists {c₁ c₂ c₃ : Controller} (h : Pushed env node b c c₁ c₂ c₃) : c₃.lists = c.lists := by
  obtain ⟨-, hextended, hsettles, hhere, -⟩ := h
  have hout₁ := hextended.noted.outside
  have hout₃ := hhere.noted.outside
  have hpending := hsettles.pending
  have hitems := hsettles.items
  simp only [outside, extend, started, Prod.mk.injEq] at hout₁ hout₃ hpending
  simp [Controller.lists, hout₃, hpending, hitems, hout₁]

theorem lists_pushOnHead (b : SignedBlock) (c : Controller) : (after (pushOnHead env rec node b c)).lists = c.lists := by
  rcases @pushOnHead_cases env rec node b c with
    ⟨e, k, hrun, -⟩ | ⟨c₁, c₂, c₃, hpushed, ⟨hrun, -⟩ | ⟨e, hrun, -⟩⟩
  · rw [hrun]
    rfl
  · rw [hrun]
    exact hpushed.lists
  · rw [hrun]
    exact (lists_blockUndone c₃).trans hpushed.lists

theorem holds_of_lists (h : c'.lists = c.lists) (hi : Holds Allowed c) : Holds Allowed c' := by
  have hitems : c'.forkDb.items = c.forkDb.items := congrArg (fun p => p.2.2.2) h
  unfold Holds
  rw [hitems]
  exact hi

theorem session_of_lists (h : c'.lists = c.lists) : c'.pendingTxSession = c.pendingTxSession :=
  congrArg (fun p => p.2.2.1) h

/-- Without a session there is nothing to reset. -/
theorem resetPendingTxSession_closed (hs : c.pendingTxSession = false) : resetPendingTxSession c = .ok () c := by
  obtain ⟨objects, counters, undoStack, revision, forkDb, blockLog, pendingTx, poppedTx, session⟩ := c
  subst hs
  rfl

theorem resetPendingTxSession_open (hs : c.pendingTxSession = true) :
    resetPendingTxSession c = .ok () { c.undone with pendingTxSession := false } := by
  unfold resetPendingTxSession
  rw [bind_of_ok (get_apply c), hs]
  rfl

/-! ## Temporary sessions -/

theorem inTempSession_eq (m : ControllerM Unit) (c : Controller) : inTempSession m c = match m c.started with
    | .ok _ c' => .ok () (after (squash c'))
    | .error e c' => .error e c'.undone := by
  show (cleanup undo m >>= fun _ => squash) c.started = _
  cases hm : m c.started with
  | ok u c' =>
    have hclean : cleanup undo m c.started = .ok u c' := by rw [cleanup, hm]
    rw [bind_of_ok hclean]
    rfl
  | error e c' =>
    have hclean : cleanup undo m c.started = .error e c'.undone := by
      rw [cleanup, hm]
      rfl
    rw [bind_of_error hclean]

theorem lists_squash (c : Controller) : (after (squash c)).lists = c.lists := by
  obtain ⟨objects, counters, undoStack, revision, forkDb, blockLog, pendingTx, poppedTx, session⟩ := c
  rcases undoStack with _ | ⟨o, _ | ⟨o', rest⟩⟩
  · rfl
  · rfl
  · rfl

theorem lists_applyTransaction (trx : SignedTransaction) (c : Controller) :
    (after (applyTransaction env rec node trx c)).lists = c.lists := by
  have hout := ((@applyTransaction_shadows env rec node trx).always c).noted.outside
  simp only [outside, Prod.mk.injEq] at hout
  simp [lists, hout]

theorem lists_inTempSession (trx : SignedTransaction) (c : Controller) :
    (after (inTempSession (applyTransaction env rec node trx) c)).lists = c.lists := by
  have hlists := @lists_applyTransaction env rec node trx c.started
  rw [inTempSession_eq]
  cases hrun : applyTransaction env rec node trx c.started with
  | ok u c' =>
    rw [hrun] at hlists
    exact (lists_squash c').trans hlists
  | error e c' =>
    rw [hrun] at hlists
    exact (lists_undone c').trans hlists

/-- A transaction that is accepted joins the pending ones. -/
theorem inTempSession_append (trx : SignedTransaction) (c : Controller) :
    (∃ e c', inTempSession (applyTransaction env rec node trx) c = .error e c' ∧ inTempSession (do
      applyTransaction env rec node trx
      modify fun c => { c with pendingTx := c.pendingTx ++ [trx] }) c = .error e c') ∨
    ∃ c', inTempSession (applyTransaction env rec node trx) c = .ok () c' ∧ inTempSession (do
      applyTransaction env rec node trx
      modify fun c => { c with pendingTx := c.pendingTx ++ [trx] }) c = .ok () { c' with pendingTx := c'.pendingTx ++ [trx] } := by
  rw [inTempSession_eq, inTempSession_eq]
  cases hrun : applyTransaction env rec node trx c.started with
  | error e c' =>
    rw [bind_of_error hrun]
    exact .inl ⟨e, _, rfl, rfl⟩
  | ok u c' =>
    rw [bind_of_ok hrun]
    refine .inr ⟨_, rfl, ?_⟩
    obtain ⟨objects, counters, undoStack, revision, forkDb, blockLog, pendingTx, poppedTx, session⟩ := c'
    rcases undoStack with _ | ⟨o, _ | ⟨o', rest⟩⟩
    · rfl
    · rfl
    · rfl

theorem resetPendingTxSession_returns (c : Controller) : ∃ c', resetPendingTxSession c = .ok () c' := by
  by_cases hs : c.pendingTxSession = true
  · exact ⟨_, resetPendingTxSession_open hs⟩
  · exact ⟨_, resetPendingTxSession_closed (Bool.eq_false_iff.mpr hs)⟩

theorem session_resetPendingTxSession {u : Unit} (h : resetPendingTxSession c = .ok u c') : c'.pendingTxSession = false := by
  by_cases hs : c.pendingTxSession = true
  · rw [resetPendingTxSession_open hs] at h
    cases h
    rfl
  · rw [resetPendingTxSession_closed (Bool.eq_false_iff.mpr hs)] at h
    cases h
    exact Bool.eq_false_iff.mpr hs

theorem pendingTx_of_reset {u : Unit} (h : resetPendingTxSession c = .ok u c') : c'.pendingTx = c.pendingTx := by
  by_cases hs : c.pendingTxSession = true
  · rw [resetPendingTxSession_open hs] at h
    cases h
    exact congrArg Prod.fst (lists_undone c)
  · rw [resetPendingTxSession_closed (Bool.eq_false_iff.mpr hs)] at h
    cases h
    rfl

theorem always_resetClosed [Std.Refl R] : Always (Apart Allowed R) resetPendingTxSession := by
  intro c hs hi
  rw [resetPendingTxSession_closed hs]
  exact ⟨hs, hi, Std.Refl.refl c⟩

/-! ## Without pending transactions -/

namespace RespectedApart

variable (hR : RespectedApart env rec Allowed R)

include hR

theorem fork {m : ForkDatabase.M Unit} (hm : Always SameItems m) : Always (Apart Allowed R) (onForkDb m) := by
  intro c hs hi
  rw [onForkDb, after_within]
  have hsame : (after (m c.forkDb)).items = c.forkDb.items := hm c.forkDb
  refine ⟨hs, fun i hitem => hi i ?_, hR.forks c _ _ (.inl hsame)⟩
  rw [← hsame]
  exact hitem

theorem undoSession : Always (Apart Allowed R) undo := by
  intro c hs hi
  have hlists : (after (undo c)).lists = c.lists := lists_undone c
  exact ⟨(session_of_lists hlists).trans hs, holds_of_lists hlists hi, hR.undone c hs⟩

theorem pushOnHead (hb : Allowed b) : Always (Apart Allowed R) (pushOnHead env rec node b) := by
  intro c hs hi
  have hlists := @lists_pushOnHead env rec node b c
  exact ⟨(session_of_lists hlists).trans hs, holds_of_lists hlists hi, hR.block node b c hb hs⟩

theorem pushNewBlock [IsTrans Controller R] (hb : Allowed b) : Always (Apart Allowed R) (pushNewBlock env rec node b) :=
  always_cleanup (hR.fork (sameItems_remove _)) (hR.pushOnHead hb)

/-- The block joins the items, or the fork database refuses it. -/
theorem joinForks (hb : Allowed b) : Always (Apart Allowed R) (onForkDb (ForkDatabase.pushBlock env.codec b)) := by
  intro c hs hi
  rw [onForkDb, after_within]
  have hitems := @items_pushBlock _ _ env.codec hb c.forkDb
  refine ⟨hs, ?_, hR.forks c _ _ hitems⟩
  intro i hitem
  change i ∈ (after (ForkDatabase.pushBlock env.codec b c.forkDb)).items at hitem
  rcases hitems with hsame | ⟨b', prev, hb', hadd⟩
  · rw [hsame] at hitem
    exact hi i hitem
  · rw [hadd] at hitem
    rcases List.mem_append.mp hitem with hitem | hitem
    · exact hi i hitem
    · rw [List.mem_singleton.mp hitem]
      exact hb'

theorem popRest [IsTrans Controller R] (block : SignedBlock) : Always (Apart Allowed R) (do
    onForkDb ForkDatabase.popBlock
    undo
    modify fun c => { c with poppedTx := block.transactions ++ c.poppedTx }) :=
  always_bind (hR.fork sameItems_popBlock) fun _ => always_bind hR.undoSession fun _ =>
    fun c hs hi => ⟨hs, hi, hR.forks c _ _ (.inl rfl)⟩

variable [Std.Refl R] [IsTrans Controller R]

theorem popBlock : Always (Apart Allowed R) (popBlock env) := by
  refine always_bind always_resetClosed fun _ => always_bind always_get fun c => ?_
  exact always_bind (always_ofOption _ _) fun block => hR.popRest block

theorem popUntil (previous : BlockId) : Always (Apart Allowed R) (popUntil env previous) := by
  refine always_bind always_get fun c => always_loop (always_bind always_get fun c => ?_) _
  split
  · exact always_pure _
  · exact always_bind hR.popBlock fun _ => always_pure _

theorem returnToBranch {second rest : List ForkItem} (hsecond : ∀ i ∈ second, Allowed i.data) (front : Option Nat)
    (ancestor : BlockId) : Always (Apart Allowed R) (returnToBranch env rec node second rest front ancestor) := by
  refine always_bind (always_each (fun i => hR.fork (sameItems_remove _)) _) fun _ => ?_
  refine always_bind (hR.fork (sameItems_setHead _)) fun _ => always_bind (hR.popUntil ancestor) fun _ => ?_
  exact always_each_of_mem fun i hi => hR.pushOnHead (hsecond i (List.mem_reverse.mp hi))

theorem pushBranch {second : List ForkItem} (hsecond : ∀ i ∈ second, Allowed i.data) (front : Option Nat)
    (ancestor : BlockId) {items : List ForkItem} (hitems : ∀ i ∈ items, Allowed i.data) :
    Always (Apart Allowed R) (pushBranch env rec node second front ancestor items) := by
  induction items with
  | nil => exact always_pure ()
  | cons i rest ih =>
    intro c
    have hblock : Apart Allowed R c (after (Controller.pushOnHead env rec node i.data c)) :=
      hR.pushOnHead (hitems i List.mem_cons_self) c
    unfold Controller.pushBranch
    cases hrun : Controller.pushOnHead env rec node i.data c with
    | ok u c' =>
      rw [hrun] at hblock
      exact IsTrans.trans _ _ _ hblock (ih (fun j hj => hitems j (List.mem_cons_of_mem i hj)) c')
    | error e c' =>
      rw [hrun] at hblock
      refine IsTrans.trans _ _ _ hblock ?_
      exact always_bind (hR.returnToBranch hsecond front ancestor) (fun _ => always_throw e) c'

theorem switchFork (newHead : ForkItem) : Always (Apart Allowed R) (switchFork env rec node newHead) := by
  intro c hs hi
  unfold Controller.switchFork
  rw [bind_of_ok (get_apply c)]
  refine (?_ : Always (Apart Allowed R) _) c hs hi
  refine always_bind (always_checked _) fun branches => ?_
  have hdata (hs : List Nat) : ∀ i ∈ hs.filterMap c.forkDb.item, Allowed i.data := by
    intro i hmem
    obtain ⟨h, -, hitem⟩ := List.mem_filterMap.mp hmem
    exact hi i (List.mem_of_getElem? hitem)
  refine always_bind (hR.fork (sameItems_hold _)) fun _ => ?_
  refine always_bind (always_cleanup (hR.fork (sameItems_hold _)) (always_bind (hR.popUntil _) fun _ => ?_)) fun _ =>
    hR.fork (sameItems_hold _)
  exact hR.pushBranch (hdata _) _ _ fun i hmem => hdata _ i (List.mem_reverse.mp hmem)

theorem pushBlockOnFork (hb : Allowed b) : Always (Apart Allowed R) (pushBlockOnFork env rec node b) := by
  unfold Controller.pushBlockOnFork
  split
  · exact always_bind (hR.pushNewBlock hb) fun _ => always_pure _
  · refine always_bind (hR.joinForks hb) fun head => always_bind always_get fun c => ?_
    refine always_bind (always_ofOption _ _) fun newHead => ?_
    split
    · split
      · exact always_bind (hR.switchFork newHead) fun _ => always_pure _
      · exact always_pure _
    · exact always_bind (hR.pushNewBlock hb) fun _ => always_pure _

end RespectedApart

/-! ## With pending transactions -/

namespace RespectedPending

variable (hR : RespectedPending env rec R)

include hR

theorem resetPendingTxSession [Std.Refl R] : Always (Throughout Allowed R) resetPendingTxSession := by
  intro c hi
  by_cases hs : c.pendingTxSession = true
  · rw [resetPendingTxSession_open hs]
    have hi' : Holds Allowed c.undone := holds_of_lists (lists_undone c) hi
    exact ⟨hi', hR.closed c hs⟩
  · rw [resetPendingTxSession_closed (Bool.eq_false_iff.mpr hs)]
    exact ⟨hi, Std.Refl.refl c⟩

theorem pushPending [IsTrans Controller R] (trx : SignedTransaction) : Always (Throughout Allowed R) (pushPending env rec node trx) := by
  -- in an open session
  have hopen : ∀ c, c.pendingTxSession = true → Throughout Allowed R c (after (inTempSession (do
      applyTransaction env rec node trx
      modify fun c => { c with pendingTx := c.pendingTx ++ [trx] }) c)) := by
    intro c hs hi
    have hR₁ := hR.transaction node trx c hs
    have hlists := @lists_inTempSession env rec node trx c
    rcases @inTempSession_append env rec node trx c with
      ⟨e, c', hplain, hrun⟩ | ⟨c', hplain, hrun⟩
    · rw [hplain] at hR₁ hlists
      rw [hrun]
      exact ⟨holds_of_lists hlists hi, hR₁⟩
    · rw [hplain] at hR₁ hlists
      rw [hrun]
      have hi' : Holds Allowed c' := holds_of_lists hlists hi
      exact ⟨hi', IsTrans.trans _ _ _ hR₁ (hR.pending _ _ _)⟩
  intro c hi
  unfold Controller.pushPending
  rw [bind_of_ok (get_apply c)]
  by_cases hs : c.pendingTxSession = true
  · rw [if_pos hs]
    exact hopen c hs hi
  · rw [if_neg hs]
    have hR₁ := hR.opened c (Bool.eq_false_iff.mpr hs)
    obtain ⟨hi', hR₂⟩ := hopen { c.started with pendingTxSession := true } rfl hi
    exact ⟨hi', IsTrans.trans _ _ _ hR₁ hR₂⟩

theorem includeTransaction (trx : SignedTransaction) :
    Always (Joined R) (includeTransaction env rec node trx) := by
  intro c hs
  have hlists := @lists_inTempSession env rec node trx c
  have hR' := hR.transaction node trx c hs
  unfold Controller.includeTransaction
  cases hrun : inTempSession (applyTransaction env rec node trx) c with
  | ok u c' =>
    rw [hrun] at hlists hR'
    exact ⟨hlists, hR'⟩
  | error e c' =>
    rw [hrun] at hlists hR'
    exact ⟨hlists, hR'⟩

variable [Std.Refl R] [IsTrans Controller R]

theorem restore (trxs : List SignedTransaction) : Always (Throughout Allowed R) (restore env rec node trxs) := by
  refine always_each (fun trx => always_bind always_get fun c => ?_) trxs
  split
  · exact always_pure _
  · exact always_attempt (hR.pushPending trx)

/-- What the destructor of `pending_transactions_restorer` does. -/
theorem restorer (pending : List SignedTransaction) : Always (Throughout Allowed R) (do
    Controller.restore env rec node (← get).poppedTx
    modify fun c => { c with poppedTx := [] }
    Controller.restore env rec node pending) := by
  refine always_bind always_get fun c => always_bind (hR.restore _) fun _ => ?_
  exact always_bind (fun c hi => ⟨hi, hR.pending c c.pendingTx []⟩) fun _ => hR.restore pending

theorem assemble (time : TimePointSec) (limit : Nat) (trxs : List SignedTransaction) (total : Nat) :
    Always (Joined R) (assemble env rec node time limit trxs total) := by
  induction trxs generalizing total with
  | nil => exact always_pure _
  | cons trx trxs ih =>
    unfold Controller.assemble
    split
    · exact ih total
    · refine always_bind (hR.includeTransaction trx) fun included => ?_
      split
      · exact always_bind (ih _) fun rest => always_pure _
      · exact ih total

omit [IsTrans Controller R] in
theorem of_reset {u : Unit} (h : Controller.resetPendingTxSession c = .ok u c') : R c c' := by
  have hreset : Throughout (fun _ => True) R c c' := hR.resetPendingTxSession.runs _ _ _ h
  exact (hreset fun _ _ => trivial).2

theorem of_restorer {pending : List SignedTransaction} {u : Unit} (h : (do
    Controller.restore env rec node (← get).poppedTx
    modify fun c => { c with poppedTx := [] }
    Controller.restore env rec node pending : ControllerM Unit) c = .ok u c') : R c c' := by
  have hrestorer : Throughout (fun _ => True) R c c' := (hR.restorer pending).runs _ _ _ h
  exact (hrestorer fun _ _ => trivial).2

end RespectedPending

namespace Respected

section Throughout

variable [Std.Refl R] [IsTrans Controller R] (hR : Respected env rec Allowed R)

include hR

theorem withoutPendingTransactions {α : Type} {m : ControllerM α} (hm : Always (Apart Allowed R) m) :
    Always (Throughout Allowed R) (withoutPendingTransactions env rec node m) := by
  intro c
  unfold Controller.withoutPendingTransactions
  rw [bind_of_ok (get_apply c)]
  refine after_bind (fun hi => ⟨hi, hR.pending c [] c.poppedTx⟩) fun _ c₁ _ => ?_
  refine after_bind (hR.resetPendingTxSession c₁) fun _ c₂ hreset => ?_
  have hs : c₂.pendingTxSession = false := session_resetPendingTxSession hreset
  refine after_bind ?_ fun a c₃ _ => after_bind (hR.restorer _ c₃) fun _ c₄ _ => Std.Refl.refl c₄
  exact after_cleanup (fun hi => (hm c₂ hs hi).2) (hR.restorer _)

theorem pushBlock (hb : Allowed b) : Always (Throughout Allowed R) (pushBlock env rec node b) :=
  hR.withoutPendingTransactions (hR.pushBlockOnFork hb)

theorem popBlockThroughout : Always (Throughout Allowed R) (Controller.popBlock env) := by
  intro c
  unfold Controller.popBlock
  refine after_bind (hR.resetPendingTxSession c) fun _ c₁ hreset => ?_
  refine .of_apart (?_ : Apart Allowed R c₁ _) (session_resetPendingTxSession hreset)
  refine (?_ : Always (Apart Allowed R) _) c₁
  refine always_bind always_get fun c => always_bind (always_ofOption _ _) fun block => ?_
  exact hR.popRest block

theorem pushTransaction (trx : SignedTransaction) :
    Always (Throughout Allowed R) (pushTransaction env rec node trx) :=
  always_bind always_get fun _ => always_bind (always_assert _ _) fun _ => hR.pushPending trx

end Throughout

/-! ## Production -/

section Production

variable [Std.Refl R] [IsTrans Controller R] (hR : Respected env rec Allowed R)

include hR

theorem proposeBlock {time : TimePointSec} {owner : AccountName} {key : SigningKey} :
    Always (Throughout Allowed R) (proposeBlock env rec node time owner key) := by
  intro c
  unfold Controller.proposeBlock
  rw [bind_of_ok (get_apply c)]
  refine after_readOnly (readOnly_assert _ _) fun _ => after_readOnly (readOnly_assert _ _) fun _ => ?_
  refine after_readOnly (readOnly_within (readOnly_within (readOnly_getIn _))) fun bobserver => ?_
  refine after_readOnly (readOnly_assert _ _) fun _ => ?_
  refine after_bind (hR.resetPendingTxSession c) fun _ c₁ hreset => ?_
  have hs : c₁.pendingTxSession = false := session_resetPendingTxSession hreset
  have hopened : Throughout Allowed R c₁ { c₁.started with pendingTxSession := true } := fun hi => ⟨hi, hR.opened c₁ hs⟩
  refine IsTrans.trans _ _ _ hopened ?_
  rw [bind_of_ok (show startUndoSession c₁ = .ok () c₁.started from rfl), bind_of_ok (modify_apply _ _)]
  rw [bind_of_ok (get_apply _)]
  refine after_bind (fun hi => ?_) fun trxs c₃ _ => ?_
  · obtain ⟨hlists, hR'⟩ := @RespectedPending.assemble _ _ node _ hR.toRespectedPending _ _ time
      c.objects.database.core.dgp.maximumBlockSize c₁.pendingTx maxBlockHeaderSize
      { c₁.started with pendingTxSession := true } rfl
    exact ⟨holds_of_lists hlists hi, hR'⟩
  refine after_bind (hR.resetPendingTxSession c₃) fun _ c₄ _ => ?_
  rw [bind_of_ok (get_apply c₄)]
  refine after_readOnly (readOnly_within (readOnly_within (readOnly_getIn _))) fun bobserver => ?_
  exact after_readOnly (readOnly_assert _ _) fun _ => Std.Refl.refl c₄

theorem generateBlock {time : TimePointSec} {owner : AccountName} {key : SigningKey} {c : Controller}
    (hb : ∀ b c', Controller.proposeBlock env rec node time owner key c = .ok b c' → Allowed b) :
    Throughout Allowed R c (after (generateBlock env rec node time owner key c)) :=
  after_bind (hR.proposeBlock c) fun b c' hrun => after_bind (hR.pushBlock (hb b c' hrun) c') fun _ c'' _ => Std.Refl.refl c''

/-- **A call** keeps to the relation, whether it returns or throws. -/
theorem step (call : Call) (hcall : call.Brings env rec Allowed c) : Throughout Allowed R c (step env rec c call) := by
  cases call with
  | pushBlock node b => exact after_bind (hR.pushBlock hcall c) fun _ c' _ => Std.Refl.refl c'
  | pushTransaction node trx => exact hR.pushTransaction trx c
  | generateBlock node time owner key => exact after_bind (hR.generateBlock hcall) fun _ c' _ => Std.Refl.refl c'
  | popBlock => exact hR.popBlockThroughout c

end Production

end Respected

end Controller

end Sigmaengine
