import Sigmaengine.Consensus.Finality
import Sigmaengine.Consensus.ForkBranches

/-!
# The longest branch

`push_block` keeps to the highest block that the fork database knows.  When it returns without a switch, the main chain is as
it was or has the new block on it; when it returns after a switch, the head is the highest known block, higher than the head
before, and the main chain goes on with its branch from the block that both branches stand on.

Main result: `pushBlock_head`.
-/

namespace Sigmaengine

open Effect Table

/-! ## The branches -/

theorem except_bind_eq_ok {ε α β : Type} {x : Except ε α} {f : α → Except ε β} {b : β} :
    (x >>= f) = .ok b ↔ ∃ a, x = .ok a ∧ f a = .ok b := by
  cases x with
  | error e => simp [bind, Except.bind]
  | ok a => simp [bind, Except.bind]

namespace ForkDatabase

variable {db : ForkDatabase} {lost : Error} {num fuel h k : Nat} {l l' : List Nat} {first second : BlockId}

theorem walkDown_head? (hrun : db.walkDown lost num fuel h = .ok (l, k)) : (l ++ [k]).head? = some h := by
  cases fuel with
  | zero =>
    simp only [walkDown] at hrun
    split at hrun
    · cases hrun
    · cases hrun
      rfl
  | succ fuel =>
    simp only [walkDown] at hrun
    split at hrun
    · split at hrun
      · cases hrun
      · obtain ⟨r, -, hr⟩ := map_eq_ok hrun
        cases hr
        rfl
    · cases hrun
      rfl

theorem walkTogether_head? {a b : Nat} (hrun : db.walkTogether fuel a b = .ok (l, l')) :
    l.head? = some a ∧ l'.head? = some b := by
  cases fuel with
  | zero =>
    simp only [walkTogether] at hrun
    split at hrun
    · cases hrun
    · cases hrun
      exact ⟨rfl, rfl⟩
  | succ fuel =>
    simp only [walkTogether] at hrun
    split at hrun
    · split at hrun
      · cases hrun
      · split at hrun
        · cases hrun
        · obtain ⟨r, -, hr⟩ := map_eq_ok hrun
          cases hr
          exact ⟨rfl, rfl⟩
    · cases hrun
      exact ⟨rfl, rfl⟩

theorem pushBlock_eq_ok {cd : Codec} {b : SignedBlock} {head : Option Nat} {db' : ForkDatabase}
    (h : pushBlock cd b db = .ok head db') : head = db'.head := by
  obtain ⟨_, db₁, -, h⟩ := bind_eq_ok.mp h
  obtain ⟨_, db₂, -, h⟩ := bind_eq_ok.mp h
  obtain ⟨_, db₃, -, h⟩ := bind_eq_ok.mp h
  obtain ⟨db₄, _, hget, h⟩ := bind_eq_ok.mp h
  obtain ⟨rfl, rfl⟩ := get_eq_ok.mp hget
  cases h
  rfl

/-- What was passed on the way down comes before the rest. -/
theorem head?_passed {passed last : List Nat} {a a' : Nat} (hdown : (passed ++ [a']).head? = some a)
    (htop : last.head? = some a') : (passed ++ last).head? = some a := by
  cases passed with
  | nil =>
    rw [List.nil_append, List.head?_cons, Option.some.injEq] at hdown
    rw [List.nil_append, htop, hdown]
  | cons p ps => exact hdown

/-- The branches start with the two blocks. -/
theorem fetchBranchFrom_head? (hrun : db.fetchBranchFrom fuel first second = .ok (l, l')) :
    (∃ a, db.find first = some a ∧ l.head? = some a) ∧ ∃ b, db.find second = some b ∧ l'.head? = some b := by
  unfold fetchBranchFrom at hrun
  split at hrun
  · cases hrun
  · next a ha =>
    split at hrun
    · cases hrun
    · next b hb =>
      obtain ⟨⟨passed, a'⟩, hfirst, hrun⟩ := except_bind_eq_ok.mp hrun
      obtain ⟨⟨passed', b'⟩, hsecond, hrun⟩ := except_bind_eq_ok.mp hrun
      obtain ⟨⟨last, last'⟩, htogether, hrun⟩ := except_bind_eq_ok.mp hrun
      cases hrun
      obtain ⟨htop, htop'⟩ := walkTogether_head? htogether
      exact ⟨⟨a, ha, head?_passed (walkDown_head? hfirst) htop⟩, ⟨b, hb, head?_passed (walkDown_head? hsecond) htop'⟩⟩

/-- The blocks of a branch, the lowest first. -/
def branchBlocks (db : ForkDatabase) (branch : List Nat) : List SignedBlock := ((branch.filterMap db.item).reverse).map (·.data)

/-- A branch that starts with a block found by its id ends in that block. -/
theorem getLast?_branchItems {cd : Codec} {id : BlockId} {a : Nat} (hids : ∀ i ∈ db.items, i.id = i.data.id cd)
    (hfind : db.find id = some a) (hhead : l.head? = some a) :
    ∃ i, (l.filterMap db.item).reverse.getLast? = some i ∧ i.data.id cd = id := by
  obtain ⟨-, i, hitem, hid⟩ := item_of_find hfind
  obtain ⟨rest, hrest⟩ := List.head?_eq_some_iff.mp hhead
  refine ⟨i, ?_, (hids i (List.mem_of_getElem? hitem)).symm.trans hid⟩
  rw [List.getLast?_reverse, hrest, List.filterMap_cons, hitem]
  rfl

/-- The lowest block of a branch is on the ancestor. -/
theorem head?_branchBlocks (branch : List Nat) :
    ((db.branchBlocks branch).head?.map fun b => b.previous) = (branch.filterMap db.item).getLast?.map fun i => i.data.previous := by
  rw [branchBlocks, List.head?_map, List.head?_reverse, Option.map_map]
  rfl

end ForkDatabase

namespace Controller

variable {env : Env} {rec : Recorder} {node : Node} {c c' : Controller} {b : SignedBlock} {u : Unit}

/-! ## Blocks that are pushed -/

theorem pushOnHead_eq_ok (h : pushOnHead env rec node b c = .ok u c') :
    c'.objects.chain = c.objects.chain ++ [b] ∧ b.previous = c.headBlockId ∧ c'.headBlockId = b.id env.codec ∧
      c'.headBlockNum = b.blockNum := by
  rcases @pushOnHead_cases env rec node b c with
    ⟨e, k, hrun, -⟩ | ⟨c₁, c₂, c₃, hpushed, ⟨hrun, -⟩ | ⟨e, hrun, -⟩⟩
  · rw [hrun] at h
    cases h
  · rw [hrun] at h
    cases h
    obtain ⟨hlink, -, hnum, hid, -⟩ := applyBlockHead_clock hpushed.database
    have hclock := hpushed.clock
    rw [hpushed.settles.objects] at hclock
    exact ⟨congrArg Prod.fst hpushed.stack.2.2, hlink.symm, hclock.headBlockId.trans hid, hclock.headBlockNumber.trans hnum⟩
  · rw [hrun] at h
    cases h

/-- A branch that is pushed without an exception is on the main chain, its first block on the head, and its last block is the
head then. -/
theorem pushBranch_eq_ok {second items : List ForkItem} {front : Option Nat} {ancestor : BlockId}
    (h : pushBranch env rec node second front ancestor items c = .ok u c') :
    c'.lists = c.lists ∧ c'.objects.chain = c.objects.chain ++ items.map (·.data) ∧
      (∀ i ∈ items.head?, i.data.previous = c.headBlockId) ∧
      ∀ i ∈ items.getLast?, c'.headBlockId = i.data.id env.codec ∧ c'.headBlockNum = i.data.blockNum := by
  induction items generalizing c with
  | nil =>
    cases h
    exact ⟨rfl, by simp, by rintro i ⟨⟩, by rintro i ⟨⟩⟩
  | cons i rest ih =>
    unfold pushBranch at h
    cases hrun : pushOnHead env rec node i.data c with
    | error e c₁ =>
      rw [hrun] at h
      obtain ⟨_, c₂, -, hthrow⟩ := bind_eq_ok.mp h
      cases hthrow
    | ok v c₁ =>
      rw [hrun] at h
      obtain ⟨hchain, hlink, hid, hnum⟩ := pushOnHead_eq_ok hrun
      have hlists := @lists_pushOnHead env rec node i.data c
      rw [hrun] at hlists
      obtain ⟨hlists', hchain', -, hlast⟩ := ih h
      refine ⟨hlists'.trans hlists, by rw [hchain', hchain]; simp, fun j hj => ?_, fun j hj => ?_⟩
      · rw [List.head?_cons, Option.mem_def, Option.some.injEq] at hj
        rw [← hj]
        exact hlink
      cases rest with
      | nil =>
        rw [List.getLast?_singleton, Option.mem_def, Option.some.injEq] at hj
        cases h
        rw [← hj]
        exact ⟨hid, hnum⟩
      | cons k rest => exact hlast j (by rw [List.getLast?_cons_cons] at hj; exact hj)

/-! ## Blocks that are popped -/

/-- States were dropped from the top of the history. -/
def Pops (c c' : Controller) : Prop :=
  c.pendingTxSession = false → c'.pendingTxSession = false ∧ c'.base <:+ c.base

instance : Std.Refl Pops := ⟨fun _ hs => ⟨hs, List.suffix_rfl⟩⟩

instance : IsTrans Controller Pops where
  trans _ _ _ h h' hs := by
    obtain ⟨hs', hbase⟩ := h hs
    obtain ⟨hs'', hbase'⟩ := h' hs'
    exact ⟨hs'', hbase'.trans hbase⟩

theorem pops_of_same (hsession : c'.pendingTxSession = c.pendingTxSession) (hbase : c'.base = c.base) : Pops c c' :=
  fun hs => ⟨hsession.trans hs, hbase ▸ List.suffix_rfl⟩

theorem pops_undone (c : Controller) : Pops c c.undone := by
  intro hs
  refine ⟨(session_of_lists (lists_undone c)).trans hs, ?_⟩
  rcases hstack : c.undoStack with _ | ⟨o, rest⟩
  · rw [undone_eq, hstack]
  · have hundone : c.undone = { c with objects := o, undoStack := rest, revision := c.revision - 1 } := by
      rw [undone_eq, hstack]
    rw [hundone, base_closed hs, base_closed (c := { c with objects := o, undoStack := rest, revision := _ }) hs, hstack]
    exact List.suffix_cons _ _

theorem pops_popBlock : Always Pops (popBlock env) := by
  refine always_bind (fun c hs => ?_) fun _ => always_bind always_get fun c => ?_
  · rw [resetPendingTxSession_closed hs]
    exact ⟨hs, List.suffix_rfl⟩
  · refine always_bind (always_ofOption _ _) fun block => ?_
    refine always_bind (always_within (fun f c => pops_of_same rfl rfl) _) fun _ => ?_
    exact always_bind pops_undone fun _ => fun c => pops_of_same rfl rfl

theorem pops_popRound (previous : BlockId) : Always Pops (do
    if (← get).headBlockId = previous then pure false
    else do
      popBlock env
      pure true : ControllerM Bool) := by
  refine always_bind always_get fun c => ?_
  split
  · exact always_pure _
  · exact always_bind pops_popBlock fun _ => always_pure _

theorem pops_popUntil (previous : BlockId) : Always Pops (popUntil env previous) :=
  always_bind always_get fun _ => always_loop (pops_popRound previous) _

/-- What is popped ends at the block asked for. -/
theorem popUntil_eq_ok {previous : BlockId} (h : popUntil env previous c = .ok u c') :
    c'.headBlockId = previous ∧ Pops c c' := by
  have hpops := (pops_popUntil previous).runs _ _ _ h
  unfold popUntil at h
  rw [bind_of_ok (get_apply c)] at h
  have hrounds := (@pops_popRound env previous).runs
  obtain ⟨t, -, hround⟩ := loop_exits (R := Pops) (fun s s' hs => hrounds s true s' hs) h
  rw [bind_of_ok (get_apply t)] at hround
  split at hround
  · next hhead =>
    obtain ⟨-, rfl⟩ := pure_eq_ok.mp hround
    exact ⟨hhead, hpops⟩
  · obtain ⟨_, t', -, hpure⟩ := bind_eq_ok.mp hround
    obtain ⟨hfalse, -⟩ := pure_eq_ok.mp hpure
    cases hfalse

/-! ## A switch -/

theorem cleanup_eq_ok {α : Type} {undo : ControllerM Unit} {m : ControllerM α} {a : α} (h : cleanup undo m c = .ok a c') :
    m c = .ok a c' := by
  unfold cleanup at h
  cases hm : m c with
  | ok a' c₁ =>
    rw [hm] at h
    exact h
  | error e c₁ =>
    rw [hm] at h
    cases h

/-- The items have the ids of their blocks. -/
def Named (cd : Codec) (c : Controller) : Prop := ∀ i ∈ c.forkDb.items, i.id = i.data.id cd

/-- What a switch has done: the main chain goes on with the branch of the new head, from the state of the block that this
branch and the branch of the old head stand on. -/
structure Switched (cd : Codec) (db : ForkDatabase) (id : BlockId) (c c' : Controller) : Prop where
  session : c'.pendingTxSession = false
  head : c'.headBlockId = id ∧ c'.headBlockNum = id.num
  branch : ∃ branches, db.fetchBranchFrom 4294967296 id c.headBlockId = .ok branches ∧
    ∃ o ∈ c.base, c'.objects.chain = o.chain ++ db.branchBlocks branches.1 ∧
      ((db.branchBlocks branches.1).head?.map fun b => b.previous) = some o.database.core.dgp.headBlockId ∧
      ((db.branchBlocks branches.2).head?.map fun b => b.previous) = some o.database.core.dgp.headBlockId

theorem switchFork_eq_ok {newHead : ForkItem} (hs : c.pendingTxSession = false) (hnamed : Named env.codec c)
    (h : switchFork env rec node newHead c = .ok u c') :
    Switched env.codec c.forkDb (newHead.data.id env.codec) c c' := by
  unfold switchFork at h
  rw [bind_of_ok (get_apply c)] at h
  obtain ⟨branches, c₁, hbranches, h⟩ := bind_eq_ok.mp h
  obtain ⟨hfetch, rfl⟩ := checked_eq_ok.mp hbranches
  obtain ⟨_, c₂, hheld, h⟩ := bind_eq_ok.mp h
  obtain ⟨_, c₃, hclean, hrelease⟩ := bind_eq_ok.mp h
  obtain ⟨_, c₄, hpop, hpush⟩ := bind_eq_ok.mp (cleanup_eq_ok hclean)
  cases hheld
  cases hrelease
  -- what is popped
  obtain ⟨hancestor, hpops⟩ := popUntil_eq_ok hpop
  obtain ⟨hs₄, hbase⟩ : c₄.pendingTxSession = false ∧ c₄.base <:+ c.base := hpops hs
  obtain ⟨hlists, hchain, hfirst, hlast⟩ := pushBranch_eq_ok hpush
  -- both branches end in the two heads
  obtain ⟨⟨a, hfinda, heada⟩, a', hfinda', heada'⟩ := ForkDatabase.fetchBranchFrom_head? hfetch
  obtain ⟨top, htop, hid⟩ := ForkDatabase.getLast?_branchItems hnamed hfinda heada
  obtain ⟨old, hold, -⟩ := ForkDatabase.getLast?_branchItems hnamed hfinda' heada'
  obtain ⟨hheadId, hheadNum⟩ := hlast top htop
  refine ⟨(session_of_lists hlists).trans hs₄, ⟨hheadId.trans hid, hid ▸ hheadNum⟩, branches, hfetch, c₄.objects, ?_, ?_, ?_, ?_⟩
  · refine hbase.subset ?_
    rw [base_closed hs₄]
    exact List.mem_cons_self
  · exact hchain
  · -- the branch is pushed on the head that is left
    cases hitems : (branches.1.filterMap c.forkDb.item).reverse with
    | nil =>
      rw [hitems] at htop
      cases htop
    | cons i rest =>
      rw [ForkDatabase.branchBlocks, hitems]
      exact congrArg some (hfirst i (by rw [hitems]; rfl))
  · -- and that is the block below the branch of the old head
    rw [ForkDatabase.head?_branchBlocks]
    cases hitems : (branches.2.filterMap c.forkDb.item).getLast? with
    | none =>
      rw [List.getLast?_eq_none_iff.mp hitems] at hold
      cases hold
    | some i =>
      rw [hitems] at hancestor
      exact congrArg some hancestor.symm

theorem respected_named : Respected env rec (fun _ => True) (Kept (Named env.codec)) := by
  have hsame : ∀ c c' : Controller, c'.lists = c.lists → Kept (Named env.codec) c c' := by
    intro c c' hlists hc
    have hitems : c'.forkDb.items = c.forkDb.items := congrArg (fun p => p.2.2.2) hlists
    unfold Named
    rw [hitems]
    exact hc
  refine ⟨⟨?_, ?_, ?_⟩, ⟨?_, ?_, ?_, ?_⟩⟩
  · intro c f popped hitems hc i hi
    rcases hitems with hitems | ⟨b, prev, -, hitems⟩
    · exact hc i (hitems ▸ hi)
    · rcases List.mem_append.mp (hitems ▸ hi) with hi | hi
      · exact hc i hi
      · rw [List.mem_singleton.mp hi]
  · exact fun c _ => hsame c _ (lists_undone c)
  · exact fun node b c _ _ => hsame c _ (lists_pushOnHead b c)
  · exact fun c _ _ hc => hc
  · exact fun c _ hc => hc
  · exact fun c _ hc => hsame c c.undone (lists_undone c) hc
  · exact fun node trx c _ => hsame c _ (lists_inTempSession trx c)

theorem reach_named (env : Env) (rec : Recorder) (key : PublicKey) (calls : List Call) :
    Named env.codec (Traces.run (step env rec) (start key) calls) := by
  refine (Traces.always (I := fun _ c => Holds (fun _ => True) c ∧ Named env.codec c)
    ⟨fun _ _ => trivial, fun i hi => absurd hi List.not_mem_nil⟩ ?_ calls).2
  rintro past c call ⟨hholds, hnamed⟩
  obtain ⟨hholds', hkept⟩ := (@respected_named _ rec).step call (call.brings_any c) hholds
  exact ⟨hholds', hkept hnamed⟩

/-- The highest block that the fork database knows when it has heard of the block. -/
def forkHead (cd : Codec) (b : SignedBlock) (c : Controller) : Option ForkItem :=
  (after (ForkDatabase.pushBlock cd b c.forkDb)).headItem

theorem pushBlockOnFork_eq_ok {switched : Bool} (hs : c.pendingTxSession = false) (hnamed : Named env.codec c)
    (h : pushBlockOnFork env rec node b c = .ok switched c') :
    (switched = false → c'.pendingTxSession = false ∧
      (c'.objects.chain = c.objects.chain ∨ c'.objects.chain = c.objects.chain ++ [b])) ∧
    (switched = true → ∃ newHead, forkHead env.codec b c = some newHead ∧ c.headBlockNum < newHead.num ∧
      Switched env.codec (after (ForkDatabase.pushBlock env.codec b c.forkDb)) (newHead.data.id env.codec) c c') := by
  unfold pushBlockOnFork at h
  split at h
  · obtain ⟨_, c₁, hpush, hend⟩ := bind_eq_ok.mp h
    cases hend
    have hlists := @lists_pushOnHead env rec node b c
    have hrun := cleanup_eq_ok hpush
    rw [hrun] at hlists
    exact ⟨fun _ => ⟨(session_of_lists hlists).trans hs, .inr (pushOnHead_eq_ok hrun).1⟩, fun htrue => Bool.noConfusion htrue⟩
  · obtain ⟨head, c₁, hjoin, h⟩ := bind_eq_ok.mp h
    obtain ⟨f, hpush, rfl⟩ := within_eq_ok.mp hjoin
    have hafter : after (ForkDatabase.pushBlock env.codec b c.forkDb) = f := by
      rw [show ForkDatabase.pushBlock env.codec b c.forkDb = _ from hpush]
      rfl
    obtain rfl : head = f.head := ForkDatabase.pushBlock_eq_ok hpush
    have hnamed₁ : Named env.codec { c with forkDb := f } := by
      have hitems := @items_pushBlock (fun _ => True) b env.codec trivial c.forkDb
      rw [hafter] at hitems
      exact (@respected_named _ rec).forks c f c.poppedTx hitems hnamed
    rw [bind_of_ok (get_apply _)] at h
    obtain ⟨newHead, c₂, hhead, h⟩ := bind_eq_ok.mp h
    obtain ⟨hnew, rfl⟩ := ofOption_eq_ok.mp hhead
    have hfork : forkHead env.codec b c = some newHead := by
      rw [forkHead, hafter]
      exact hnew
    split at h
    · split at h
      · next hhigher =>
        obtain ⟨_, c₃, hswitch, hend⟩ := bind_eq_ok.mp h
        cases hend
        refine ⟨fun hfalse => Bool.noConfusion hfalse, fun _ => ⟨newHead, hfork, hhigher, ?_⟩⟩
        obtain ⟨hsession, hhead, hbranch⟩ := switchFork_eq_ok (c := { c with forkDb := f }) hs hnamed₁ hswitch
        rw [hafter]
        exact ⟨hsession, hhead, hbranch⟩
      · cases h
        exact ⟨fun _ => ⟨hs, .inl rfl⟩, fun htrue => Bool.noConfusion htrue⟩
    · obtain ⟨_, c₃, hpush, hend⟩ := bind_eq_ok.mp h
      cases hend
      have hlists := @lists_pushOnHead env rec node b { c with forkDb := f }
      have hrun := cleanup_eq_ok hpush
      rw [show pushOnHead env rec node b { c with forkDb := f } = _ from hrun] at hlists
      exact ⟨fun _ => ⟨(session_of_lists hlists).trans hs, .inr (pushOnHead_eq_ok hrun).1⟩, fun htrue => Bool.noConfusion htrue⟩

/-! ## Pending transactions -/

/-- Pending transactions leave the history alone. -/
def SameBase (env : Env) (c c' : Controller) : Prop := OnChain env c → OnChain env c' ∧ c'.base = c.base

instance : Std.Refl (SameBase env) := ⟨fun _ h => ⟨h, rfl⟩⟩

instance : IsTrans Controller (SameBase env) where
  trans _ _ _ h h' hc := by
    obtain ⟨hc', hbase⟩ := h hc
    obtain ⟨hc'', hbase'⟩ := h' hc'
    exact ⟨hc'', hbase'.trans hbase⟩

theorem respectedPending_sameBase : RespectedPending env rec (SameBase env) where
  pending c _ _ hc := ⟨⟨hc.top, hc.revision, hc.linked⟩, rfl⟩
  opened c hs hc := ⟨(@follows_opened _ (fun _ => True) _ hs hc).1, (base_closed hs).symm⟩
  closed c hs hc := by
    obtain ⟨o, rest, htop, -⟩ := hc.top
    have hstack := htop
    rw [base_open hs] at hstack
    refine ⟨(@follows_closed _ (fun _ => True) _ hs hc).1, ?_⟩
    rw [htop, base_closed rfl, undone_eq, hstack]
  transaction node trx c hs hc := by
    refine ⟨(@follows_transaction _ _ _ (fun _ => True) _ trx hs hc).1, ?_⟩
    obtain ⟨o, rest, htop, -⟩ := hc.top
    rw [base_open hs] at htop
    obtain ⟨c', -, ⟨e, hrun, -⟩ | ⟨hrun, -⟩⟩ := @inTempSession_cases env rec node _ trx _ _ htop
    · rw [hrun]
      rfl
    · rw [hrun, base_open hs]
      exact base_open hs

/-- The main chain and the head are those of the history. -/
theorem SameBase.head (h : SameBase env c c') (hc : OnChain env c) :
    c'.objects.chain = c.objects.chain ∧ c'.headBlockNum = c.headBlockNum ∧ c'.headBlockId = c.headBlockId := by
  obtain ⟨hc', hbase⟩ := h hc
  obtain ⟨o, rest, htop, hchain, haccepts⟩ := hc.top
  obtain ⟨o', rest', htop', hchain', haccepts'⟩ := hc'.top
  rw [hbase, htop] at htop'
  cases htop'
  have hclock := sameClock_of_accepts haccepts
  have hclock' := sameClock_of_accepts haccepts'
  exact ⟨(Objects.eq_of_line (hchain'.symm.trans hchain)).1, hclock'.headBlockNumber.trans hclock.headBlockNumber.symm,
    hclock'.headBlockId.trans hclock.headBlockId.symm⟩

theorem forkDb_of_reset (h : resetPendingTxSession c = .ok u c') : c'.forkDb = c.forkDb := by
  by_cases hs : c.pendingTxSession = true
  · rw [resetPendingTxSession_open hs] at h
    cases h
    show c.undone.forkDb = c.forkDb
    rw [undone_eq]
    split
    · rfl
    · rfl
  · rw [resetPendingTxSession_closed (Bool.eq_false_iff.mpr hs)] at h
    cases h
    rfl

/-- A block that returns, between the end of the session and the restorer. -/
theorem pushBlock_eq_ok {switched : Bool} (h : pushBlock env rec node b c = .ok switched c') :
    ∃ c₁ c₂, resetPendingTxSession { c with pendingTx := [] } = .ok () c₁ ∧
      pushBlockOnFork env rec node b c₁ = .ok switched c₂ ∧ (do
        restore env rec node (← get).poppedTx
        modify fun c => { c with poppedTx := [] }
        restore env rec node c.pendingTx : ControllerM Unit) c₂ = .ok () c' := by
  unfold pushBlock withoutPendingTransactions at h
  rw [bind_of_ok (get_apply c), bind_of_ok (modify_apply _ _)] at h
  obtain ⟨_, c₁, hreset, h⟩ := bind_eq_ok.mp h
  obtain ⟨switched', c₂, hclean, h⟩ := bind_eq_ok.mp h
  obtain ⟨_, c₃, hrestore, hend⟩ := bind_eq_ok.mp h
  cases hend
  exact ⟨c₁, c₂, hreset, cleanup_eq_ok hclean, hrestore⟩

/-- The head of a state in the history is the last block of its chain. -/
theorem headBlockId_of_base {key : PublicKey} {calls : List Call} :
    ∀ o ∈ (Traces.run (step env rec) (start key) calls).base, o.database.core.dgp.headBlockId = tipId env.codec o.chain := by
  refine @reach_forall _ rec _ _ key _ (any_blocks calls) rfl fun o o' b _ _ hextends => ?_
  obtain ⟨-, -, -, hid, -⟩ := hextends.clock
  rw [hid, hextends.chain, tipId_append]

/-- **The longest branch**: a block that is pushed without an exception leaves the main chain as it is or comes on it; or the
main chain switches, and then it ends in the highest block known, which is higher than the head before.  What is kept of it
ends in the block that the branch of the new head and the branch of the old one stand on, and the branch of the new head comes
on it. -/
theorem pushBlock_head (env : Env) (rec : Recorder) (key : PublicKey) (calls : List Call) (node : Node) (b : SignedBlock)
    {switched : Bool} {c c' : Controller} (hc : c = Traces.run (step env rec) (start key) calls)
    (h : pushBlock env rec node b c = .ok switched c') :
    (switched = false → c'.objects.chain = c.objects.chain ∨ c'.objects.chain = c.objects.chain ++ [b]) ∧
      (switched = true → ∃ newHead branches kept, forkHead env.codec b c = some newHead ∧
        c'.headBlockId = newHead.data.id env.codec ∧ c.headBlockNum < c'.headBlockNum ∧
        (after (ForkDatabase.pushBlock env.codec b c.forkDb)).fetchBranchFrom 4294967296 (newHead.data.id env.codec)
          c.headBlockId = .ok branches ∧
        kept <+: c.objects.chain ∧
        c'.objects.chain = kept ++ (after (ForkDatabase.pushBlock env.codec b c.forkDb)).branchBlocks branches.1 ∧
        ∀ branch ∈ [branches.1, branches.2],
          (((after (ForkDatabase.pushBlock env.codec b c.forkDb)).branchBlocks branch).head?.map fun b => b.previous) =
            some (tipId env.codec kept)) := by
  obtain ⟨honChain, -⟩ := @run_follows _ rec _ _ _ (any_blocks calls) (holds_start key) (@onChain_start env key)
  have hheads := @headBlockId_of_base env rec key calls
  have hnamed := reach_named env rec key calls
  rw [← hc] at honChain hheads hnamed
  obtain ⟨c₁, c₂, hreset, hrun, hrestore⟩ := pushBlock_eq_ok h
  have hs₁ : c₁.pendingTxSession = false := session_resetPendingTxSession hreset
  have hnone : Named env.codec { c with pendingTx := [] } := hnamed
  have hnamed₁ := (@respected_named _ rec).of_reset hreset hnone
  have hstart : OnChain env { c with pendingTx := [] } := ⟨honChain.top, honChain.revision, honChain.linked⟩
  have hsame := (@respectedPending_sameBase env rec).of_reset hreset
  obtain ⟨hc₁, hbase₁⟩ := hsame hstart
  obtain ⟨hchain₁, hnum₁, hid₁⟩ := hsame.head hstart
  have hfollows : Apart (fun _ => True) (Follows env fun _ => True) c₁ (after (pushBlockOnFork env rec node b c₁)) :=
    (@respected_follows env rec fun _ => True).pushBlockOnFork trivial c₁
  rw [hrun] at hfollows
  obtain ⟨hc₂, -⟩ := (hfollows hs₁ fun _ _ => trivial).2.2 hc₁
  obtain ⟨hchain', hnum', hid'⟩ := ((@respectedPending_sameBase env rec).of_restorer hrestore).head hc₂
  obtain ⟨hstays, hswitches⟩ := pushBlockOnFork_eq_ok hs₁ hnamed₁ hrun
  refine ⟨fun hfalse => ?_, fun htrue => ?_⟩
  · obtain ⟨-, hchain⟩ := hstays hfalse
    rw [hchain', ← show c₁.objects.chain = c.objects.chain from hchain₁]
    exact hchain
  · obtain ⟨newHead, hhead, hhigher, -, ⟨hheadId, hheadNum⟩, branches, hfetch, o, ho, hchain, hnew, hold⟩ := hswitches htrue
    have hforks : c₁.forkDb = c.forkDb := (forkDb_of_reset hreset :)
    have ho' : o ∈ c.base := hbase₁ ▸ ho
    rw [hheads o ho'] at hnew hold
    rw [hforks] at hfetch hchain hnew hold
    rw [hid₁] at hfetch
    rw [hnum₁] at hhigher
    refine ⟨newHead, branches, o.chain, ?_, hid'.trans hheadId, ?_, hfetch, (honChain.below o ho').1, hchain'.trans hchain, ?_⟩
    · rw [← hhead, forkHead, forkHead, hforks]
    · rw [hnum', hheadNum]
      exact hhigher
    · intro branch hbranch
      rcases List.mem_pair.mp hbranch with rfl | rfl
      · exact hnew
      · exact hold

/-- What a call has returned. -/
def returned {ε σ α : Type} : EStateM.Result ε σ α → Option α
  | .ok a _ => some a
  | .error _ _ => none

theorem eq_ok_of_returned {ε σ α : Type} {r : EStateM.Result ε σ α} {a : α} (h : returned r = some a) :
    r = .ok a (after r) := by
  cases r with
  | ok a' s =>
    cases h
    rfl
  | error e s => cases h

/-- Two branches from genesis; the second one is the longer one with its second block. -/
def sideBlock : SignedBlock := sampleBlock {} 2 []

def tipBlock : SignedBlock := sampleBlock (sideBlock.id sampleEnv.codec) 3 []

def forkedCalls : List Call := [.pushBlock {} (sampleBlock {} 1 [createRoot]), .pushBlock {} sideBlock]

def forkedNode : Controller := Traces.run (step sampleEnv sampleRecorder) (start ⟨1⟩) forkedCalls

theorem forkedNode_switches : pushBlock sampleEnv sampleRecorder {} tipBlock forkedNode =
    .ok true (after (pushBlock sampleEnv sampleRecorder {} tipBlock forkedNode)) :=
  eq_ok_of_returned (by decide +kernel)

theorem pushBlock_head_fork : ∃ c', pushBlock sampleEnv sampleRecorder {} tipBlock forkedNode = .ok true c' ∧
    ∃ newHead branches kept, forkHead sampleEnv.codec tipBlock forkedNode = some newHead ∧
      c'.headBlockId = newHead.data.id sampleEnv.codec ∧ forkedNode.headBlockNum < c'.headBlockNum ∧
      (after (ForkDatabase.pushBlock sampleEnv.codec tipBlock forkedNode.forkDb)).fetchBranchFrom 4294967296
        (newHead.data.id sampleEnv.codec) forkedNode.headBlockId = .ok branches ∧
      kept <+: forkedNode.objects.chain ∧
      c'.objects.chain =
        kept ++ (after (ForkDatabase.pushBlock sampleEnv.codec tipBlock forkedNode.forkDb)).branchBlocks branches.1 ∧
      ∀ branch ∈ [branches.1, branches.2],
        (((after (ForkDatabase.pushBlock sampleEnv.codec tipBlock forkedNode.forkDb)).branchBlocks branch).head?.map
          fun b => b.previous) = some (tipId sampleEnv.codec kept) :=
  ⟨_, forkedNode_switches,
    (pushBlock_head sampleEnv sampleRecorder ⟨1⟩ forkedCalls {} tipBlock (by rw [forkedNode]) forkedNode_switches).2 rfl⟩

end Controller

end Sigmaengine
