import Sigmaengine.Consensus.ForkSwitch
import Sigmaengine.Consensus.Participation
import Sigmaengine.Protocol.Names

/-!
# Block production

The bobserver plugin wakes up once a second and produces a block when the slot of this second belongs to one of its
bobservers.  In between blocks and transactions come in any order, and forks are switched.  A block is stamped with the second
in which it is produced, so a node whose clock shows no second twice signs no two blocks for one slot, on whatever forks.

Main result: `no_double_production`.
-/

namespace Sigmaengine

open Effect Table Controller

/-! ## The plugin -/

/-- What the plugin is configured with. -/
structure Producer where
  bobservers : List Bytes
  privateKeys : List SigningKey
  requiredBobserverParticipation : Nat := 3300
  node : Node := {}

/-- The node with `_production_enabled`. -/
structure ProducingNode where
  controller : Controller
  productionEnabled : Bool := false

/-- `block_production_condition`; a block that is produced is broadcast. -/
inductive Production
  | produced (b : SignedBlock)
  | notSynced
  | notMyTurn
  | notTimeYet
  | noPrivateKey
  | lowParticipation
  | lag
  | exceptionProducingBlock
  | waitForGenesis

variable (env : Env) (rec : Recorder) (p : Producer)

/-- `clear_pending`. -/
def clearPending : ControllerM Unit := do
  modify fun c => { c with pendingTx := [] }
  resetPendingTxSession

/-- `now_fine + 500 ms` in seconds; `nowFine` counts microseconds. -/
def nowSeconds (nowFine : Nat) : TimePointSec := (nowFine + 500000) / 1000000 % 4294967296

/-- The checks before a block is generated: the time, the bobserver and the key for it, or why there is none. -/
def productionSlot (s : Core) (now : TimePointSec) : Except Production (TimePointSec × AccountName × SigningKey) :=
  let slot := getSlotAtTime s now
  if slot = 0 then .error .notTimeYet
  else
    let scheduled := (getScheduledBobserver s slot).toBytes
    if !p.bobservers.contains scheduled then .error .notMyTurn
    else
      match s.bobservers.find? fun b => b.account == .ofBytes scheduled with
      -- the iterator is not checked in the source
      | none => .error .exceptionProducingBlock
      | some bobserver =>
        match p.privateKeys.find? fun k => k.publicKey == bobserver.2.signingKey with
        | none => .error .noPrivateKey
        | some key =>
          if bobserverParticipationRate s < p.requiredBobserverParticipation then .error .lowParticipation
          else if 500000 < ((getSlotTime s slot : Int) - now).natAbs * 1000000 then .error .lag
          else .ok (getSlotTime s slot, .ofBytes scheduled, key)

/-- Generate the block; when that throws, clear the pending transactions and try again, `retries` times in all. -/
def generateWithRetry (time : TimePointSec) (owner : AccountName) (key : SigningKey) :
    Nat → Controller → Production × Controller
  | 0, c => (.exceptionProducingBlock, c)
  | retries + 1, c =>
    match generateBlock env rec p.node time owner key c with
    | .ok b c' => (.produced b, c')
    | .error _ c' => generateWithRetry time owner key retries (after (clearPending c'))

/-- `maybe_produce_block`. -/
def maybeProduceBlock (nowFine : Nat) (n : ProducingNode) : Production × ProducingNode :=
  if !n.productionEnabled && getSlotTime n.controller.objects.database.core 1 < nowSeconds nowFine then (.notSynced, n)
  else
    match productionSlot p n.controller.objects.database.core (nowSeconds nowFine) with
    | .error reason => (reason, { n with productionEnabled := true })
    | .ok (time, owner, key) =>
      let result := generateWithRetry env rec p time owner key 2 n.controller
      (result.1, { controller := result.2, productionEnabled := true })

/-- `block_production_loop`. -/
def blockProductionLoop (nowFine : Nat) (n : ProducingNode) : Production × ProducingNode :=
  if nowFine < genesisTime * 1000000 then (.waitForGenesis, n) else maybeProduceBlock env rec p nowFine n

/-! ## Runs -/

/-- A call from outside, or a wake-up of the plugin. -/
inductive ProductionEvent
  | call (call : Call)
  | tick (nowFine : Nat)

/-- The node and the blocks it has produced, each with the microsecond of its wake-up. -/
structure ProductionRun where
  node : ProducingNode
  made : List (Nat × SignedBlock) := []

/-- The block that a wake-up has produced. -/
def Production.made (nowFine : Nat) : Production → List (Nat × SignedBlock)
  | .produced b => [(nowFine, b)]
  | _ => []

def ProductionRun.step (r : ProductionRun) : ProductionEvent → ProductionRun
  | .call call => { r with node := { r.node with controller := Controller.step env rec r.node.controller call } }
  | .tick nowFine =>
    let (result, n) := blockProductionLoop env rec p nowFine r.node
    ⟨n, r.made ++ result.made nowFine⟩

def ProductionRun.start (key : PublicKey) : ProductionRun := ⟨{ controller := Controller.start key }, []⟩

/-- The wake-ups of a run. -/
def ticks : List ProductionEvent → List Nat := List.filterMap fun e =>
  match e with
  | .call _ => none
  | .tick nowFine => some nowFine

/-! ## What is produced -/

variable {env rec p} {c c' : Controller} {b : SignedBlock} {now time : TimePointSec} {owner : AccountName} {key : SigningKey}

theorem productionSlot_eq_ok {s : Core} (h : productionSlot p s now = .ok (time, owner, key)) :
    time = now ∧ (∃ name ∈ p.bobservers, owner = .ofBytes name) ∧ key ∈ p.privateKeys := by
  unfold productionSlot at h
  dsimp only at h
  split at h
  · cases h
  split at h
  · cases h
  next hconfigured =>
  split at h
  · cases h
  split at h
  · cases h
  next found hkey =>
  split at h
  · cases h
  split at h
  · cases h
  next hlag =>
  cases h
  refine ⟨?_, ⟨_, ?_, rfl⟩, List.mem_of_find?_eq_some hkey⟩
  · -- both are whole seconds
    simp only [TimePointSec] at *
    omega
  · simpa using hconfigured

/-- The checks produce no block. -/
theorem productionSlot_ne_produced (s : Core) : productionSlot p s now ≠ .error (.produced b) := by
  intro h
  unfold productionSlot at h
  dsimp only at h
  split at h
  · cases h
  split at h
  · cases h
  split at h
  · cases h
  split at h
  · cases h
  split at h
  · cases h
  split at h
  · cases h
  · cases h

/-- The block is one that the bobserver of this second may put on the head. -/
structure Proper (p : Producer) (now : TimePointSec) (c : Controller) (b : SignedBlock) : Prop where
  timestamp : b.timestamp = now
  previous : b.previous = c.headBlockId
  slot : 0 < getSlotAtTime c.objects.database.core now
  scheduled : b.bobserver =
    (getScheduledBobserver c.objects.database.core (getSlotAtTime c.objects.database.core now)).toBytes
  configured : ∃ name ∈ p.bobservers, b.bobserver = (.ofBytes name : AccountName).toBytes
  signed : p.node.skip.bobserverSignature = false → ∃ key ∈ p.privateKeys,
    b.bobserverSignature = key.sign { b.toSignedBlockHeader with bobserverSignature := 0 } ∧
      ∃ r ∈ c.objects.database.core.bobservers.rows, r.2.account.toBytes = b.bobserver ∧ r.2.signingKey = key.publicKey

/-- **A block that is generated** is on the head, whatever is pending. -/
theorem generateBlock_proper (hc : Controller.OnChain env c) (h : generateBlock env rec p.node now owner key c = .ok b c')
    (howner : ∃ name ∈ p.bobservers, owner = .ofBytes name) (hkey : key ∈ p.privateKeys) : Proper p now c b := by
  obtain ⟨_, c₀, hpropose, hpush⟩ := bind_eq_ok.mp h
  obtain ⟨_, _, -, hend⟩ := bind_eq_ok.mp hpush
  obtain ⟨rfl, -⟩ := pure_eq_ok.mp hend
  unfold proposeBlock at hpropose
  replace h := hpropose
  rw [bind_of_ok (get_apply c)] at h
  obtain ⟨_, c₁, hcheck, h⟩ := bind_eq_ok.mp h
  obtain ⟨hslot, rfl⟩ := fcAssert_eq_ok.mp hcheck
  obtain ⟨_, c₁, hcheck', h⟩ := bind_eq_ok.mp h
  obtain ⟨hscheduled, rfl⟩ := fcAssert_eq_ok.mp hcheck'
  obtain ⟨bobserver, c₁, hget, h⟩ := bind_eq_ok.mp h
  obtain rfl := (readOnly_within (readOnly_within (readOnly_getIn _)) : ReadOnly (onDatabase (onCore
    (getBobserver owner)))).eq_of_ok hget
  obtain ⟨d, hread, -⟩ := within_eq_ok.mp hget
  obtain ⟨s, hread', -⟩ := within_eq_ok.mp hread
  obtain ⟨hfound, -⟩ := getIn_eq_ok.mp hread'
  obtain ⟨_, c₁, hcheck'', h⟩ := bind_eq_ok.mp h
  obtain ⟨hsigner, rfl⟩ := fcAssert_eq_ok.mp hcheck''
  obtain ⟨_, c₁, hreset, h⟩ := bind_eq_ok.mp h
  rw [bind_of_ok (show startUndoSession c₁ = .ok () c₁.started from rfl), bind_of_ok (modify_apply _ _),
    bind_of_ok (get_apply _)] at h
  obtain ⟨trxs, c₂, hassemble, h⟩ := bind_eq_ok.mp h
  obtain ⟨_, c₃, hreset', h⟩ := bind_eq_ok.mp h
  rw [bind_of_ok (get_apply c₃)] at h
  obtain ⟨bobserver', c₄, hfound', h⟩ := bind_eq_ok.mp h
  obtain ⟨_, c₅, -, h⟩ := bind_eq_ok.mp h
  obtain ⟨rfl, -⟩ := pure_eq_ok.mp h
  -- the head is the same without the pending transactions
  have hR : RespectedPending env rec (SameBase env) := respectedPending_sameBase
  have hs : c₁.pendingTxSession = false := session_resetPendingTxSession hreset
  have hassembled := hR.assemble now c.objects.database.core.dgp.maximumBlockSize c₁.pendingTx maxBlockHeaderSize
    |>.runs _ _ _ hassemble
  have hsame : SameBase env c c₃ := IsTrans.trans _ _ _ (hR.of_reset hreset)
    (IsTrans.trans _ _ _ (hR.opened c₁ hs) (IsTrans.trans _ _ _ (hassembled rfl).2 (hR.of_reset hreset')))
  obtain ⟨-, -, hhead⟩ := hsame.head hc
  obtain ⟨hmem, hname⟩ := mem_of_find? hfound
  refine ⟨?_, ?_, of_decide_eq_true hslot, ?_, ?_, ?_⟩
  · split <;> rfl
  · split
    · exact hhead
    · exact hhead
  · rw [← FixedString.toBytes_ofBytes_toBytes (getScheduledBobserver _ _), eq_of_beq hscheduled]
    split <;> rfl
  · obtain ⟨name, hmem, rfl⟩ := howner
    refine ⟨name, hmem, ?_⟩
    split <;> rfl
  · intro hskip
    refine ⟨key, hkey, ?_⟩
    rw [hskip, Bool.false_or] at hsigner
    simp only [hskip]
    refine ⟨rfl, bobserver, hmem, ?_, eq_of_beq hsigner⟩
    rw [eq_of_beq hname]
    rfl

/-- An attempt has failed, and the pending transactions have been cleared. -/
def Failed (env : Env) (rec : Recorder) (p : Producer) (c c' : Controller) : Prop :=
  ∃ time owner key e c₁, generateBlock env rec p.node time owner key c = .error e c₁ ∧ c' = after (clearPending c₁)

theorem generateWithRetry_produced {retries : Nat}
    (h : generateWithRetry env rec p time owner key retries c = (.produced b, c')) :
    ∃ c₁, Relation.ReflTransGen (Failed env rec p) c c₁ ∧ generateBlock env rec p.node time owner key c₁ = .ok b c' := by
  induction retries generalizing c with
  | zero => cases h
  | succ retries ih =>
    unfold generateWithRetry at h
    cases hrun : generateBlock env rec p.node time owner key c with
    | ok b' c₁ =>
      rw [hrun] at h
      cases h
      exact ⟨c, .refl, hrun⟩
    | error e c₁ =>
      rw [hrun] at h
      obtain ⟨c₂, hfailed, hgenerate⟩ := ih h
      exact ⟨c₂, .head ⟨time, owner, key, e, c₁, hrun, rfl⟩ hfailed, hgenerate⟩

theorem onChain_generateBlock (hc : Controller.OnChain env c) :
    Controller.OnChain env (after (generateBlock env rec p.node time owner key c)) := by
  have hfollows : Throughout (fun _ => True) (Controller.Follows env fun _ => True) c
      (after (generateBlock env rec p.node time owner key c)) := respected_follows.generateBlock fun _ _ _ => trivial
  exact ((hfollows fun _ _ => trivial).2 hc).1

theorem onChain_clearPending (hc : Controller.OnChain env c) : Controller.OnChain env (after (clearPending c)) := by
  obtain ⟨c₁, hreset⟩ := resetPendingTxSession_returns { c with pendingTx := [] }
  have hsame : SameBase env { c with pendingTx := [] } c₁ :=
    (@respectedPending_sameBase env ⟨fun _ _ _ => 0, fun _ _ => [], fun _ _ => []⟩).of_reset hreset
  unfold clearPending
  rw [bind_of_ok (modify_apply _ _), hreset]
  exact (hsame ⟨hc.top, hc.revision, hc.linked⟩).1

theorem onChain_failed (h : Relation.ReflTransGen (Failed env rec p) c c') (hc : Controller.OnChain env c) :
    Controller.OnChain env c' := by
  induction h with
  | refl => exact hc
  | tail _ hfailed ih =>
    obtain ⟨time, owner, key, e, c₁, hrun, rfl⟩ := hfailed
    have hc₁ := @onChain_generateBlock env rec p _ time owner key ih
    rw [hrun] at hc₁
    exact onChain_clearPending hc₁

theorem onChain_generateWithRetry {retries : Nat} (hc : Controller.OnChain env c) :
    Controller.OnChain env (generateWithRetry env rec p time owner key retries c).2 := by
  induction retries generalizing c with
  | zero => exact hc
  | succ retries ih =>
    have hc₁ := @onChain_generateBlock env rec p _ time owner key hc
    unfold generateWithRetry
    cases hrun : generateBlock env rec p.node time owner key c with
    | ok b' c₁ =>
      rw [hrun] at hc₁
      exact hc₁
    | error e c₁ =>
      rw [hrun] at hc₁
      exact ih (onChain_clearPending hc₁)

/-! ## Wake-ups -/

variable {n n' : ProducingNode} {nowFine : Nat}

/-- A wake-up generates for the slot of its second, or leaves the chain alone. -/
theorem maybeProduceBlock_cases (nowFine : Nat) (n : ProducingNode) :
    (maybeProduceBlock env rec p nowFine n).2.controller = n.controller ∧
        (∀ b, (maybeProduceBlock env rec p nowFine n).1 ≠ .produced b) ∨
      ∃ time owner key, productionSlot p n.controller.objects.database.core (nowSeconds nowFine) = .ok (time, owner, key) ∧
        (maybeProduceBlock env rec p nowFine n).1 = (generateWithRetry env rec p time owner key 2 n.controller).1 ∧
          (maybeProduceBlock env rec p nowFine n).2.controller =
            (generateWithRetry env rec p time owner key 2 n.controller).2 := by
  unfold maybeProduceBlock
  split
  · exact .inl ⟨rfl, fun b h => by cases h⟩
  cases hslot : productionSlot p n.controller.objects.database.core (nowSeconds nowFine) with
  | error reason =>
    refine .inl ⟨rfl, ?_⟩
    rintro b rfl
    exact productionSlot_ne_produced _ hslot
  | ok slot =>
    obtain ⟨time, owner, key⟩ := slot
    exact .inr ⟨time, owner, key, rfl, rfl, rfl⟩

theorem onChain_blockProductionLoop (hc : Controller.OnChain env n.controller) :
    Controller.OnChain env (blockProductionLoop env rec p nowFine n).2.controller := by
  unfold blockProductionLoop
  by_cases hgenesis : nowFine < genesisTime * 1000000
  · rw [if_pos hgenesis]
    exact hc
  rw [if_neg hgenesis]
  rcases maybeProduceBlock_cases nowFine n with ⟨hsame, -⟩ | ⟨time, owner, key, -, -, hchain⟩
  · rw [hsame]
    exact hc
  · rw [hchain]
    exact onChain_generateWithRetry hc

/-- **A block that is produced** is proper in the second of its wake-up. -/
theorem blockProductionLoop_produced (hc : Controller.OnChain env n.controller)
    (h : blockProductionLoop env rec p nowFine n = (.produced b, n')) :
    ∃ c, Relation.ReflTransGen (Failed env rec p) n.controller c ∧ Proper p (nowSeconds nowFine) c b := by
  unfold blockProductionLoop at h
  by_cases hgenesis : nowFine < genesisTime * 1000000
  · rw [if_pos hgenesis] at h
    cases h
  rw [if_neg hgenesis] at h
  rcases maybeProduceBlock_cases nowFine n with ⟨-, hnone⟩ | ⟨time, owner, key, hslot, hmade, -⟩
  · exact absurd (congrArg Prod.fst h) (hnone b)
  · rw [h] at hmade
    obtain ⟨rfl, howner, hkey⟩ := productionSlot_eq_ok hslot
    obtain ⟨c, hfailed, hgenerate⟩ := generateWithRetry_produced (Prod.ext hmade.symm rfl)
    exact ⟨c, hfailed, generateBlock_proper (onChain_failed hfailed hc) hgenerate howner hkey⟩

namespace ProductionRun

variable {initKey : PublicKey}

/-- What is known of the blocks made so far. -/
structure Kept (env : Env) (rec : Recorder) (p : Producer) (initKey : PublicKey) (past : List ProductionEvent)
    (r : ProductionRun) : Prop where
  run : r = Traces.run (step env rec p) (start initKey) past
  onChain : Controller.OnChain env r.node.controller
  ticked : (r.made.map Prod.fst).Sublist (ticks past)
  proper : ∀ m ∈ r.made, ∃ before c, before ++ [.tick m.1] <+: past ∧
    Relation.ReflTransGen (Failed env rec p) (Traces.run (step env rec p) (start initKey) before).node.controller c ∧
      Proper p (nowSeconds m.1) c m.2

theorem ticks_concat (past : List ProductionEvent) (e : ProductionEvent) : ticks (past ++ [e]) = ticks past ++ ticks [e] :=
  List.filterMap_append

theorem Kept.step {past : List ProductionEvent} {r : ProductionRun} (h : Kept env rec p initKey past r)
    (e : ProductionEvent) : Kept env rec p initKey (past ++ [e]) (r.step env rec p e) := by
  have hrun : r.step env rec p e = Traces.run (ProductionRun.step env rec p) (start initKey) (past ++ [e]) := by
    rw [Traces.run_concat, ← h.run]
  have hbefore : ∀ m ∈ r.made, ∃ before c, before ++ [.tick m.1] <+: past ++ [e] ∧
      Relation.ReflTransGen (Failed env rec p) (Traces.run (ProductionRun.step env rec p) (start initKey) before).node.controller c ∧
        Proper p (nowSeconds m.1) c m.2 := by
    intro m hm
    obtain ⟨before, c, hbegins, hrest⟩ := h.proper m hm
    exact ⟨before, c, hbegins.trans (List.prefix_append _ _), hrest⟩
  cases e with
  | call call =>
    have hfollows : Throughout (fun _ => True) (Controller.Follows env fun _ => True) r.node.controller
        (Controller.step env rec r.node.controller call) := respected_follows.step call (call.brings_any _)
    refine ⟨hrun, ((hfollows fun _ _ => trivial).2 h.onChain).1, ?_, hbefore⟩
    rw [ticks_concat]
    exact h.ticked.trans (List.sublist_append_left _ _)
  | tick nowFine =>
    have honChain := @onChain_blockProductionLoop env rec p r.node nowFine h.onChain
    refine ⟨hrun, honChain, ?_, fun m hm => ?_⟩
    · show ((r.made ++ (blockProductionLoop env rec p nowFine r.node).1.made nowFine).map Prod.fst).Sublist _
      rw [List.map_append, ticks_concat]
      refine h.ticked.append ?_
      cases (blockProductionLoop env rec p nowFine r.node).1 with
      | produced b => exact List.Sublist.refl _
      | _ => exact List.nil_sublist _
    · change m ∈ r.made ++ (blockProductionLoop env rec p nowFine r.node).1.made nowFine at hm
      rcases List.mem_append.mp hm with hm | hm
      · exact hbefore m hm
      · cases hloop : blockProductionLoop env rec p nowFine r.node with
        | mk result n' =>
        rw [hloop] at hm
        cases result with
        | produced b =>
          obtain rfl := List.mem_singleton.mp hm
          obtain ⟨c, hfailed, hproper⟩ := blockProductionLoop_produced h.onChain hloop
          rw [h.run] at hfailed
          exact ⟨past, c, List.prefix_rfl, hfailed, hproper⟩
        | _ => exact absurd hm List.not_mem_nil

end ProductionRun

/-- **No two blocks for one slot**: in every run of a producing node, among any calls from outside, the blocks it produces are
proper on the head of their time, and if its clock shows no second twice, no two of them have the same time. -/
theorem no_double_production (env : Env) (rec : Recorder) (p : Producer) (key : PublicKey) (events : List ProductionEvent) :
    (∀ m ∈ (Traces.run (ProductionRun.step env rec p) (.start key) events).made, ∃ before c,
        before ++ [.tick m.1] <+: events ∧ Relation.ReflTransGen (Failed env rec p)
            (Traces.run (ProductionRun.step env rec p) (.start key) before).node.controller c ∧
          Proper p (nowSeconds m.1) c m.2) ∧
      (((ticks events).map nowSeconds).Nodup →
        ((Traces.run (ProductionRun.step env rec p) (.start key) events).made.map fun m => m.2.timestamp).Nodup) := by
  have hkept : ProductionRun.Kept env rec p key events (Traces.run (ProductionRun.step env rec p) (.start key) events) :=
    Traces.always (I := ProductionRun.Kept env rec p key) ⟨rfl, onChain_start key, List.Sublist.refl _,
      fun m hm => absurd hm List.not_mem_nil⟩ (fun _ _ e h => h.step e) events
  refine ⟨hkept.proper, fun hclock => ?_⟩
  have htimes : ∀ m ∈ (Traces.run (ProductionRun.step env rec p) (.start key) events).made,
      m.2.timestamp = nowSeconds m.1 := by
    intro m hm
    obtain ⟨before, c, -, -, hproper⟩ := hkept.proper m hm
    exact hproper.timestamp
  have hsub := hkept.ticked.map nowSeconds
  rw [List.map_map] at hsub
  rw [List.map_congr_left htimes]
  exact hclock.sublist hsub

/-- The producer of genesis. -/
def sampleProducer : Producer := ⟨[initMinerName.toBytes], [⟨⟨1⟩, fun _ => 0⟩], 3300, {}⟩

/-- A block in each of the first two slots; the second one is popped, and the third slot has another second block. -/
def sampleProduction : List ProductionEvent :=
  [.tick (genesisTime * 1000000 + 3000000), .tick (genesisTime * 1000000 + 4000000),
    .tick (genesisTime * 1000000 + 5000000), .call .popBlock, .tick (genesisTime * 1000000 + 8000000)]

theorem no_double_production_sample :
    ((Traces.run (ProductionRun.step sampleEnv sampleRecorder sampleProducer) (.start ⟨1⟩) sampleProduction).made.map
        fun m => m.2.timestamp) = [genesisTime + 3, genesisTime + 5, genesisTime + 8] ∧
      (∀ m ∈ (Traces.run (ProductionRun.step sampleEnv sampleRecorder sampleProducer) (.start ⟨1⟩) sampleProduction).made,
        ∃ before c, before ++ [.tick m.1] <+: sampleProduction ∧
          Relation.ReflTransGen (Failed sampleEnv sampleRecorder sampleProducer)
            (Traces.run (ProductionRun.step sampleEnv sampleRecorder sampleProducer) (.start ⟨1⟩) before).node.controller c ∧
          Proper sampleProducer (nowSeconds m.1) c m.2) ∧
      ((Traces.run (ProductionRun.step sampleEnv sampleRecorder sampleProducer) (.start ⟨1⟩) sampleProduction).made.map
        fun m => m.2.timestamp).Nodup := by
  obtain ⟨hproper, htimes⟩ := no_double_production sampleEnv sampleRecorder sampleProducer ⟨1⟩ sampleProduction
  exact ⟨by decide +kernel, hproper, htimes (by decide)⟩

end Sigmaengine
