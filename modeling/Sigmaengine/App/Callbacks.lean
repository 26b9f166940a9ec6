import Mathlib.Data.List.Infix
import Sigmaengine.Consensus.Authority
import Sigmaengine.Consensus.Replay
import Sigmaengine.Lib.Traces

/-!
# Callbacks of broadcast transactions

`broadcast_transaction_with_callback` of `network_broadcast_api` notes the callback under the id of the transaction, and
the id under its expiration, before it pushes the transaction.  Applied blocks call the callbacks back.
-/

namespace Sigmaengine

open Effect

structure TransactionConfirmation where
  id : Nat
  blockNum : Int
  trxNum : Int
  expired : Bool
  deriving DecidableEq

/-- The callback that came with the call of this number, or `[](variant){}`. -/
abbrev ConfirmationCallback := Option Nat

structure NetworkBroadcastApi where
  callbacks : Nat → Option ConfirmationCallback := fun _ => none
  callbacksExpirations : List (TimePointSec × List Nat) := []
  /-- What the callbacks were called with, in order. -/
  invoked : List (Nat × TransactionConfirmation) := []

namespace NetworkBroadcastApi

/-! ## The maps -/

/-- A conversion to `int32_t`. -/
def int32 (n : Nat) : Int := (n : Int).bmod 4294967296

/-- `_callbacks[id] = cb`, or `_callbacks.erase( id )`. -/
def setCallback (s : NetworkBroadcastApi) (id : Nat) (cb : Option ConfirmationCallback) : NetworkBroadcastApi :=
  { s with callbacks := Function.update s.callbacks id cb }

def invoke (s : NetworkBroadcastApi) (cb : ConfirmationCallback) (c : TransactionConfirmation) : NetworkBroadcastApi :=
  match cb with
  | none => s
  | some n => { s with invoked := s.invoked ++ [(n, c)] }

/-- `_callbacks_expirations[time].push_back( id )`. -/
def pushExpiration (time : TimePointSec) (id : Nat) : List (TimePointSec × List Nat) → List (TimePointSec × List Nat)
  | [] => [(time, [id])]
  | (t, ids) :: rest =>
    if time < t then (time, [id]) :: (t, ids) :: rest
    else if time = t then (t, ids ++ [id]) :: rest
    else (t, ids) :: pushExpiration time id rest

variable (cd : Codec)

/-- A transaction of an applied block, and its number there. -/
def confirm (blockNum : Int) (s : NetworkBroadcastApi) (trx : SignedTransaction × Nat) : NetworkBroadcastApi :=
  match s.callbacks (cd.transactionId trx.1) with
  | none => s
  | some cb =>
    (s.setCallback (cd.transactionId trx.1) (some none)).invoke cb ⟨cd.transactionId trx.1, blockNum, int32 trx.2, false⟩

def expire (blockNum : Int) (s : NetworkBroadcastApi) (id : Nat) : NetworkBroadcastApi :=
  match s.callbacks id with
  | none => s
  | some cb => (s.invoke cb ⟨id, blockNum, -1, true⟩).setCallback id none

/-- Clear all expirations before the block. -/
def clearExpirations (b : SignedBlock) : List (TimePointSec × List Nat) → NetworkBroadcastApi → NetworkBroadcastApi
  | [], s => { s with callbacksExpirations := [] }
  | (time, ids) :: rest, s =>
    if b.timestamp ≤ time then { s with callbacksExpirations := (time, ids) :: rest }
    else clearExpirations b rest (ids.foldl (expire (int32 b.blockNum)) s)

/-- What the task that `on_applied_block` starts does. -/
def onAppliedBlock (b : SignedBlock) (s : NetworkBroadcastApi) : NetworkBroadcastApi :=
  clearExpirations b s.callbacksExpirations (b.transactions.zipIdx.foldl (confirm cd (int32 b.blockNum)) s)

/-- What `broadcast_transaction_with_callback` notes, for the call of this number. -/
def register (trx : SignedTransaction) (n : Nat) (s : NetworkBroadcastApi) : NetworkBroadcastApi :=
  { s.setCallback (cd.transactionId trx) (some (some n)) with
    callbacksExpirations := pushExpiration trx.expiration (cd.transactionId trx) s.callbacksExpirations }

/-- What the callback of the call of this number was called with. -/
def calledBack (s : NetworkBroadcastApi) (n : Nat) : List TransactionConfirmation :=
  (s.invoked.filter fun p => p.1 = n).map Prod.snd

end NetworkBroadcastApi

/-! ## The node -/

/-- A call: its transaction, and whether it returned normally. -/
structure BroadcastCall where
  trx : SignedTransaction
  returned : Bool

/-- A node with the api object. -/
structure BroadcastNode where
  /-- The state after the last block. -/
  head : Database
  /-- The same with the pending transactions. -/
  top : Database
  /-- The blocks for which the task of `on_applied_block` has run, and those for which it has not. -/
  seen : List SignedBlock := []
  tasks : List SignedBlock := []
  calls : List BroadcastCall := []
  api : NetworkBroadcastApi := {}

inductive BroadcastStep where
  /-- `broadcast_transaction_with_callback`; whether the head block is too old, and whether handing the transaction to the
  network throws. -/
  | call (trx : SignedTransaction) (tooOld networkFails : Bool)
  /-- A transaction from elsewhere, or one that was pending before a block. -/
  | pushed (trx : SignedTransaction)
  | applied (node : Node) (b : SignedBlock)
  | task

variable (env : Env)

/-- `_push_transaction`: the new pending state, if it accepts. -/
def pushPending (trx : SignedTransaction) (d : Database) : Option Database :=
  match applyTransaction env { isProducing := true } trx d with
  | .ok _ d' => some d'
  | .error _ _ => none

/-- `push_transaction`. -/
def pushTransaction (trx : SignedTransaction) (d : Database) : Option Database :=
  if env.codec.transactionPackSize trx ≤ (d.core.dgp.maximumBlockSize + 4294967296 - 256) % 4294967296 then
    pushPending env trx d
  else none

/-- The checks before anything is noted. -/
def BroadcastStep.refuses (trx : SignedTransaction) (tooOld : Bool) : Bool :=
  tooOld ||
    match runChecks (trx.validate env.fc) with
    | .ok _ => false
    | .error _ => true

namespace BroadcastNode

def start (d : Database) : BroadcastNode := { head := d, top := d }

/-- The blocks applied so far. -/
def chain (s : BroadcastNode) : List SignedBlock := s.seen ++ s.tasks

def next (s : BroadcastNode) : BroadcastStep → BroadcastNode
  | .call trx tooOld networkFails =>
    if BroadcastStep.refuses env trx tooOld = true then { s with calls := s.calls ++ [⟨trx, false⟩] }
    else
      match pushTransaction env trx s.top with
      | none => { s with api := s.api.register env.codec trx s.calls.length, calls := s.calls ++ [⟨trx, false⟩] }
      | some top =>
        { s with
          api := s.api.register env.codec trx s.calls.length, top := top, calls := s.calls ++ [⟨trx, !networkFails⟩] }
  | .pushed trx =>
    match pushPending env trx s.top with
    | none => s
    | some top => { s with top := top }
  | .applied node b =>
    match applyBlock env node b s.head with
    | .error _ _ => { s with top := s.head }
    | .ok _ head => { s with head := head, top := head, tasks := s.tasks ++ [b] }
  | .task =>
    match s.tasks with
    | [] => s
    | b :: tasks => { s with tasks := tasks, seen := s.seen ++ [b], api := s.api.onAppliedBlock env.codec b }

end BroadcastNode

/-! ## What a callback is to be told -/

variable (cd : Codec)

/-- The number of the transaction in the block. -/
def numberIn (trx : SignedTransaction) (b : SignedBlock) : Option Nat :=
  b.transactions.findIdx? fun t => cd.transactionId t = cd.transactionId trx

def confirmationIn (trx : SignedTransaction) (b : SignedBlock) : Option TransactionConfirmation :=
  (numberIn cd trx b).map fun i =>
    ⟨cd.transactionId trx, NetworkBroadcastApi.int32 b.blockNum, NetworkBroadcastApi.int32 i, false⟩

def expirationAt (trx : SignedTransaction) (b : SignedBlock) : Option TransactionConfirmation :=
  if trx.expiration < b.timestamp then some ⟨cd.transactionId trx, NetworkBroadcastApi.int32 b.blockNum, -1, true⟩ else none

/-- The first block with the transaction confirms it; if there is none, the first block later than its expiration reports
that. -/
def confirmationOf (blocks : List SignedBlock) (trx : SignedTransaction) : Option TransactionConfirmation :=
  (blocks.findSome? (confirmationIn cd trx)).or (blocks.findSome? (expirationAt cd trx))

/-- The callback of a call that returned is called once, when the blocks say so and no later than its expiration is passed;
that of a call that threw is never called. -/
structure CallAnswered (blocks : List SignedBlock) (c : BroadcastCall) (answers : List TransactionConfirmation) :
    Prop where
  threw : c.returned = false → answers = []
  told : c.returned = true → answers = (confirmationOf cd blocks c.trx).toList
  passed : c.returned = true → (∃ b ∈ blocks, c.trx.expiration < b.timestamp) → answers.length = 1

/-- Every call so far has been answered. -/
def CallsAnswered (s : BroadcastNode) : Prop :=
  ∀ n c, s.calls[n]? = some c → CallAnswered cd s.seen c (s.api.calledBack n)

/-- The call throws before it notes anything, or its id is not noted and it returns. -/
def CallCareful (s : BroadcastNode) : BroadcastStep → Prop
  | .call trx tooOld networkFails =>
    BroadcastStep.refuses env trx tooOld = true ∨
      s.api.callbacks (env.codec.transactionId trx) = none ∧ (pushTransaction env trx s.top).isSome = true ∧
        networkFails = false
  | _ => True

/-- Blocks are applied with default flags, and a timestamp is a 32-bit number of seconds. -/
def BroadcastStep.Ordinary : BroadcastStep → Prop
  | .applied node b => node.skip = {} ∧ b.timestamp < 4294967296
  | _ => True

/-! ## Callbacks and answers -/

section Answers

variable {cd : Codec} {calls : List BroadcastCall} {answered : Nat → Option TransactionConfirmation}
  {s : NetworkBroadcastApi} {id n : Nat} {f g : SignedTransaction → Option TransactionConfirmation}

/-- The call of this number, if it returned. -/
def returnedCall (calls : List BroadcastCall) (n : Nat) : Option BroadcastCall := calls[n]?.filter (·.returned)

/-- The call returned, has not been answered, and its transaction has the id. -/
def Awaits (cd : Codec) (calls : List BroadcastCall) (answered : Nat → Option TransactionConfirmation) (id n : Nat) :
    Prop :=
  answered n = none ∧ ∃ c, returnedCall calls n = some c ∧ cd.transactionId c.trx = id

/-- The answers when `f` answers the calls that await one. -/
def answeredThen (calls : List BroadcastCall) (answered : Nat → Option TransactionConfirmation)
    (f : SignedTransaction → Option TransactionConfirmation) (n : Nat) : Option TransactionConfirmation :=
  (answered n).or ((returnedCall calls n).bind fun c => f c.trx)

/-- The callbacks were told these answers, and the calls that await one are noted. -/
structure Serves (cd : Codec) (calls : List BroadcastCall) (answered : Nat → Option TransactionConfirmation)
    (s : NetworkBroadcastApi) : Prop where
  told : ∀ n, s.calledBack n = (answered n).toList
  noted : ∀ id n, s.callbacks id = some (some n) ↔ Awaits cd calls answered id n

theorem returnedCall_eq_some {c : BroadcastCall} :
    returnedCall calls n = some c ↔ calls[n]? = some c ∧ c.returned = true := Option.filter_eq_some_iff

theorem answeredThen_none : answeredThen calls answered (fun _ => none) = answered := by
  funext n
  simp [answeredThen]

theorem answeredThen_then :
    answeredThen calls (answeredThen calls answered f) g = answeredThen calls answered fun trx => (f trx).or (g trx) := by
  funext n
  unfold answeredThen
  rw [Option.or_assoc]
  cases returnedCall calls n with
  | none => rfl
  | some c => rfl

theorem answeredThen_congr (h : ∀ n c, returnedCall calls n = some c → answered n = none → f c.trx = g c.trx) :
    answeredThen calls answered f = answeredThen calls answered g := by
  funext n
  unfold answeredThen
  cases hanswered : answered n with
  | some c => simp
  | none =>
    cases hcall : returnedCall calls n with
    | none => rfl
    | some c => simp [h n c hcall hanswered]

theorem answeredThen_eq_none : answeredThen calls answered f n = none ↔
    answered n = none ∧ ∀ c, returnedCall calls n = some c → f c.trx = none := by
  unfold answeredThen
  rw [Option.or_eq_none_iff]
  refine and_congr_right fun _ => ?_
  cases returnedCall calls n with
  | none => simp
  | some c => simp

/-- The answer to the calls with one id. -/
def answerTo (cd : Codec) (id : Nat) (c : TransactionConfirmation) (trx : SignedTransaction) :
    Option TransactionConfirmation :=
  if cd.transactionId trx = id then some c else none

theorem answeredThen_of_awaits {c : TransactionConfirmation} (h : Awaits cd calls answered id n) :
    answeredThen calls answered (answerTo cd id c) n = some c := by
  obtain ⟨hnone, call, hcall, hid⟩ := h
  simp [answeredThen, answerTo, hnone, hcall, hid]

theorem answeredThen_of_not_awaits {c : TransactionConfirmation} (h : ¬ Awaits cd calls answered id n) :
    answeredThen calls answered (answerTo cd id c) n = answered n := by
  unfold answeredThen
  cases hanswered : answered n with
  | some c => simp
  | none =>
    cases hcall : returnedCall calls n with
    | none => rfl
    | some call => simpa [answerTo] using fun hid => h ⟨hanswered, call, hcall, hid⟩

theorem awaits_answerTo {c : TransactionConfirmation} {id' : Nat} :
    Awaits cd calls (answeredThen calls answered (answerTo cd id c)) id' n ↔ id' ≠ id ∧ Awaits cd calls answered id' n := by
  unfold Awaits
  rw [answeredThen_eq_none]
  constructor
  · rintro ⟨⟨hnone, hno⟩, call, hcall, rfl⟩
    refine ⟨fun heq => ?_, hnone, call, hcall, rfl⟩
    have hsome := hno call hcall
    rw [answerTo, if_pos heq] at hsome
    cases hsome
  · rintro ⟨hne, hnone, call, hcall, rfl⟩
    refine ⟨⟨hnone, fun call' hcall' => ?_⟩, call, hcall, rfl⟩
    obtain rfl : call = call' := Option.some.inj (hcall.symm.trans hcall')
    exact if_neg hne

namespace NetworkBroadcastApi

theorem calledBack_invoke (s : NetworkBroadcastApi) (m : Nat) (c : TransactionConfirmation) :
    (s.invoke (some m) c).calledBack n = s.calledBack n ++ if n = m then [c] else [] := by
  unfold invoke calledBack
  by_cases h : n = m
  · simp [h]
  · simp [h, Ne.symm h]

theorem callbacks_setCallback (s : NetworkBroadcastApi) (cb : Option ConfirmationCallback) (id' : Nat) :
    (s.setCallback id cb).callbacks id' = if id' = id then cb else s.callbacks id' :=
  Function.update_apply s.callbacks id cb id'

theorem callbacks_invoke (s : NetworkBroadcastApi) (cb : ConfirmationCallback) (c : TransactionConfirmation) :
    (s.invoke cb c).callbacks = s.callbacks := by
  cases cb with
  | none => rfl
  | some m => rfl

end NetworkBroadcastApi

/-- A callback is called and taken away. -/
theorem Serves.invoke (h : Serves cd calls answered s) {cb : ConfirmationCallback} {after : Option ConfirmationCallback}
    (hcb : s.callbacks id = some cb) (hafter : ∀ n, after ≠ some (some n)) (c : TransactionConfirmation) :
    Serves cd calls (answeredThen calls answered (answerTo cd id c)) ((s.invoke cb c).setCallback id after) := by
  constructor
  · intro n
    show (s.invoke cb c).calledBack n = _
    cases cb with
    | none =>
      have hnot : ¬ Awaits cd calls answered id n := fun hawaits => by
        rw [(h.noted id n).mpr hawaits] at hcb
        cases hcb
      rw [answeredThen_of_not_awaits hnot]
      exact h.told n
    | some m =>
      rw [NetworkBroadcastApi.calledBack_invoke, h.told n]
      by_cases hn : n = m
      · rw [if_pos hn]
        have hawaits : Awaits cd calls answered id n := (h.noted id n).mp (hn ▸ hcb)
        rw [answeredThen_of_awaits hawaits, hawaits.1]
        rfl
      · rw [if_neg hn, List.append_nil, answeredThen_of_not_awaits]
        intro hawaits
        rw [(h.noted id n).mpr hawaits] at hcb
        exact hn (Option.some.inj (Option.some.inj hcb))
  · intro id' n
    rw [NetworkBroadcastApi.callbacks_setCallback, NetworkBroadcastApi.callbacks_invoke, awaits_answerTo]
    split
    · rename_i heq
      exact iff_of_false (hafter n) fun hne => hne.1 heq
    · rename_i hne
      rw [h.noted id' n]
      exact (and_iff_right hne).symm

/-- Where no callback is noted, no call awaits an answer. -/
theorem Serves.skip (h : Serves cd calls answered s) (hcb : s.callbacks id = none) (c : TransactionConfirmation) :
    Serves cd calls (answeredThen calls answered (answerTo cd id c)) s := by
  have hsame : answeredThen calls answered (answerTo cd id c) = answered := by
    funext n
    refine answeredThen_of_not_awaits fun hawaits => ?_
    rw [(h.noted id n).mpr hawaits] at hcb
    cases hcb
  rwa [hsame]

namespace NetworkBroadcastApi

theorem serves_confirm (h : Serves cd calls answered s) (blockNum : Int) (trx : SignedTransaction) (i : Nat) :
    Serves cd calls (answeredThen calls answered
      (answerTo cd (cd.transactionId trx) ⟨cd.transactionId trx, blockNum, int32 i, false⟩))
      (confirm cd blockNum s (trx, i)) := by
  unfold confirm
  split
  · rename_i hcb
    exact h.skip hcb _
  · rename_i cb hcb
    have hafter : ∀ n : Nat, (some none : Option ConfirmationCallback) ≠ some (some n) := fun n => by simp
    have hserves := h.invoke hcb hafter ⟨cd.transactionId trx, blockNum, int32 i, false⟩
    cases cb with
    | none => exact hserves
    | some m => exact hserves

theorem serves_expire (h : Serves cd calls answered s) (blockNum : Int) (id : Nat) :
    Serves cd calls (answeredThen calls answered (answerTo cd id ⟨id, blockNum, -1, true⟩)) (expire blockNum s id) := by
  unfold expire
  split
  · rename_i hcb
    exact h.skip hcb _
  · rename_i cb hcb
    exact h.invoke hcb (fun n => by simp) _

/-- The transactions of a block, the first of them at place `k`. -/
theorem serves_foldl_confirm (h : Serves cd calls answered s) (blockNum : Int) (trxs : List SignedTransaction) (k : Nat) :
    Serves cd calls (answeredThen calls answered fun trx =>
      (trxs.findIdx? fun t => cd.transactionId t = cd.transactionId trx).map fun i =>
        ⟨cd.transactionId trx, blockNum, int32 (k + i), false⟩)
      ((trxs.zipIdx k).foldl (confirm cd blockNum) s) := by
  induction trxs generalizing k s answered with
  | nil =>
    simp only [List.findIdx?_nil, Option.map_none, answeredThen_none]
    exact h
  | cons trx trxs ih =>
    have hrest := ih (serves_confirm h blockNum trx k) (k + 1)
    rw [answeredThen_then] at hrest
    rw [List.zipIdx_cons, List.foldl_cons]
    convert hrest using 3 with t
    by_cases hid : cd.transactionId t = cd.transactionId trx
    · simp [List.findIdx?_cons, answerTo, hid]
    · simp only [List.findIdx?_cons, answerTo, hid, Ne.symm hid, decide_false, Bool.false_eq_true, if_false,
        Option.none_or, Option.map_map]
      refine Option.map_congr fun i _ => ?_
      have hplace : k + (i + 1) = k + 1 + i := by omega
      simp only [Function.comp, hplace]

theorem serves_foldl_expire (h : Serves cd calls answered s) (blockNum : Int) (ids : List Nat) :
    Serves cd calls (answeredThen calls answered fun trx =>
      if cd.transactionId trx ∈ ids then some ⟨cd.transactionId trx, blockNum, -1, true⟩ else none)
      (ids.foldl (expire blockNum) s) := by
  induction ids generalizing s answered with
  | nil =>
    simp only [List.not_mem_nil, if_false, answeredThen_none]
    exact h
  | cons id ids ih =>
    have hrest := ih (serves_expire h blockNum id)
    rw [answeredThen_then] at hrest
    rw [List.foldl_cons]
    convert hrest using 3 with t
    by_cases hid : cd.transactionId t = id
    · simp [answerTo, hid]
    · simp [answerTo, hid]

/-- The expirations in order: those before the block are cleared. -/
theorem serves_clearExpirations (h : Serves cd calls answered s) (b : SignedBlock)
    {expirations : List (TimePointSec × List Nat)} (hsorted : expirations.Pairwise fun e e' => e.1 < e'.1) :
    Serves cd calls (answeredThen calls answered fun trx =>
        if ∃ e ∈ expirations, e.1 < b.timestamp ∧ cd.transactionId trx ∈ e.2 then
          some ⟨cd.transactionId trx, int32 b.blockNum, -1, true⟩ else none)
        (clearExpirations b expirations s) ∧
      (clearExpirations b expirations s).callbacksExpirations = expirations.filter fun e => b.timestamp ≤ e.1 := by
  induction expirations generalizing s answered with
  | nil =>
    simp only [List.not_mem_nil, false_and, exists_false, if_false, answeredThen_none]
    exact ⟨⟨h.told, h.noted⟩, rfl⟩
  | cons e rest ih =>
    obtain ⟨time, ids⟩ := e
    obtain ⟨hlater, hrest⟩ := List.pairwise_cons.mp hsorted
    unfold clearExpirations
    by_cases hle : b.timestamp ≤ time
    · have hnone : ∀ e ∈ (time, ids) :: rest, b.timestamp ≤ e.1 := by
        rw [List.forall_mem_cons]
        exact ⟨hle, fun e he => hle.trans (hlater e he).le⟩
      have hno : ∀ trx, ¬ ∃ e ∈ (time, ids) :: rest, e.1 < b.timestamp ∧ cd.transactionId trx ∈ e.2 := by
        rintro trx ⟨e, he, hlt, -⟩
        exact absurd hlt (not_lt.mpr (hnone e he))
      rw [if_pos hle]
      simp only [hno, if_false, answeredThen_none]
      refine ⟨⟨h.told, h.noted⟩, (List.filter_eq_self.mpr fun e he => ?_).symm⟩
      simpa using hnone e he
    · obtain ⟨hserves, hexpirations⟩ := ih (serves_foldl_expire h (int32 b.blockNum) ids) hrest
      rw [if_neg hle]
      rw [answeredThen_then] at hserves
      refine ⟨?_, ?_⟩
      · convert hserves using 3 with t
        have hone : (∃ e ∈ (time, ids) :: rest, e.1 < b.timestamp ∧ cd.transactionId t ∈ e.2) ↔
            cd.transactionId t ∈ ids ∨ ∃ e ∈ rest, e.1 < b.timestamp ∧ cd.transactionId t ∈ e.2 := by
          rw [List.exists_mem_cons_iff, and_iff_right (not_le.mp hle)]
        by_cases hid : cd.transactionId t ∈ ids
        · simp only [hone, hid, true_or, if_true, Option.some_or]
        · simp only [hone, hid, false_or, if_false, Option.none_or]
      · rw [hexpirations, List.filter_cons_of_neg (by simpa using hle)]

end NetworkBroadcastApi

/-! ## Expirations -/

/-- The id is noted under the time. -/
def NotedUnder (expirations : List (TimePointSec × List Nat)) (time : TimePointSec) (id : Nat) : Prop :=
  ∃ e ∈ expirations, e.1 = time ∧ id ∈ e.2

/-- The expirations are in order, ids are noted under the expiration of their transaction, and those of the calls that await
an answer are noted. -/
structure Queues (cd : Codec) (calls : List BroadcastCall) (answered : Nat → Option TransactionConfirmation)
    (expirations : List (TimePointSec × List Nat)) : Prop where
  sorted : expirations.Pairwise fun e e' => e.1 < e'.1
  known : ∀ time id, NotedUnder expirations time id → ∃ trx, cd.transactionId trx = id ∧ trx.expiration = time
  waiting : ∀ n c, returnedCall calls n = some c → answered n = none →
    NotedUnder expirations c.trx.expiration (cd.transactionId c.trx)

section Expirations

open NetworkBroadcastApi

variable {expirations : List (TimePointSec × List Nat)} {time t : TimePointSec} {x : Nat}

theorem notedUnder_cons {e : TimePointSec × List Nat} :
    NotedUnder (e :: expirations) t x ↔ (e.1 = t ∧ x ∈ e.2) ∨ NotedUnder expirations t x := by
  simp [NotedUnder]

theorem notedUnder_pushExpiration :
    NotedUnder (pushExpiration time id expirations) t x ↔ NotedUnder expirations t x ∨ (t = time ∧ x = id) := by
  induction expirations with
  | nil => simp [pushExpiration, NotedUnder, eq_comm]
  | cons e rest ih =>
    obtain ⟨time', ids⟩ := e
    unfold pushExpiration
    split
    · rw [notedUnder_cons, or_comm]
      simp [eq_comm]
    · split
      · rename_i heq
        rw [notedUnder_cons, notedUnder_cons, heq]
        simp only [List.mem_append, List.mem_singleton]
        constructor
        · rintro (⟨rfl, hx | rfl⟩ | h)
          · exact .inl (.inl ⟨rfl, hx⟩)
          · exact .inr ⟨rfl, rfl⟩
          · exact .inl (.inr h)
        · rintro ((⟨rfl, hx⟩ | h) | ⟨rfl, rfl⟩)
          · exact .inl ⟨rfl, .inl hx⟩
          · exact .inr h
          · exact .inl ⟨rfl, .inr rfl⟩
      · rw [notedUnder_cons, notedUnder_cons, ih, or_assoc]

theorem mem_pushExpiration_time {e : TimePointSec × List Nat} (h : e ∈ pushExpiration time id expirations) :
    e.1 = time ∨ ∃ e' ∈ expirations, e'.1 = e.1 := by
  induction expirations with
  | nil => exact .inl (congrArg Prod.fst (List.mem_singleton.mp h))
  | cons e' rest ih =>
    obtain ⟨time', ids⟩ := e'
    unfold pushExpiration at h
    split at h
    · rcases List.mem_cons.mp h with rfl | h
      · exact .inl rfl
      · exact .inr ⟨e, h, rfl⟩
    · split at h
      · rcases List.mem_cons.mp h with rfl | h
        · exact .inr ⟨(time', ids), .head _, rfl⟩
        · exact .inr ⟨e, .tail _ h, rfl⟩
      · rcases List.mem_cons.mp h with rfl | h
        · exact .inr ⟨(time', ids), .head _, rfl⟩
        · exact (ih h).imp_right fun ⟨e', he', htime⟩ => ⟨e', .tail _ he', htime⟩

theorem pushExpiration_sorted (h : expirations.Pairwise fun e e' => e.1 < e'.1) :
    (pushExpiration time id expirations).Pairwise fun e e' => e.1 < e'.1 := by
  induction expirations with
  | nil => exact List.pairwise_singleton _ _
  | cons e rest ih =>
    obtain ⟨time', ids⟩ := e
    obtain ⟨hlater, hrest⟩ := List.pairwise_cons.mp h
    unfold pushExpiration
    split
    · rename_i hlt
      refine .cons (fun e he => ?_) h
      rcases List.mem_cons.mp he with rfl | he
      · exact hlt
      · exact hlt.trans (hlater e he)
    · split
      · exact .cons hlater hrest
      · rename_i hnot hne
        refine .cons (fun e he => ?_) (ih hrest)
        rcases mem_pushExpiration_time he with htime | ⟨e', he', htime⟩
        · rw [htime]
          exact lt_of_le_of_ne (not_lt.mp hnot) (Ne.symm hne)
        · rw [← htime]
          exact hlater e' he'

end Expirations

/-! ## One block, one call -/

section Steps

variable {b : SignedBlock}

/-- What a block tells the callback of a transaction. -/
def tellsOf (cd : Codec) (b : SignedBlock) (trx : SignedTransaction) : Option TransactionConfirmation :=
  (confirmationIn cd trx b).or (expirationAt cd trx b)

/-- A call that awaits an answer is among those expired exactly if its expiration is before the block. -/
theorem Queues.expired_iff {expirations : List (TimePointSec × List Nat)} (hid : ExpirationInId cd)
    (hq : Queues cd calls answered expirations) {c : BroadcastCall} (hcall : returnedCall calls n = some c)
    (hnone : answered n = none) :
    (∃ e ∈ expirations, e.1 < b.timestamp ∧ cd.transactionId c.trx ∈ e.2) ↔ c.trx.expiration < b.timestamp := by
  constructor
  · rintro ⟨e, he, hlt, hmem⟩
    obtain ⟨trx, hsame, htime⟩ := hq.known e.1 _ ⟨e, he, rfl, hmem⟩
    rw [← hid trx c.trx hsame, htime]
    exact hlt
  · intro hlt
    obtain ⟨e, he, htime, hmem⟩ := hq.waiting n c hcall hnone
    exact ⟨e, he, htime ▸ hlt, hmem⟩

/-- **A block** confirms and expires what is noted, and clears the expirations before it. -/
theorem Serves.onAppliedBlock (hid : ExpirationInId cd) (h : Serves cd calls answered s)
    (hq : Queues cd calls answered s.callbacksExpirations) :
    Serves cd calls (answeredThen calls answered (tellsOf cd b)) (s.onAppliedBlock cd b) ∧
      Queues cd calls (answeredThen calls answered (tellsOf cd b)) (s.onAppliedBlock cd b).callbacksExpirations := by
  have hconfirmed := NetworkBroadcastApi.serves_foldl_confirm h (NetworkBroadcastApi.int32 b.blockNum) b.transactions 0
  obtain ⟨hserves, hexpirations⟩ := NetworkBroadcastApi.serves_clearExpirations hconfirmed b hq.sorted
  simp only [Nat.zero_add] at hserves
  rw [answeredThen_then] at hserves
  constructor
  · rw [answeredThen_congr fun n c hcall hnone => ?_]
    · exact hserves
    · simp only [hq.expired_iff hid hcall hnone]
      rfl
  · show Queues _ _ _ (NetworkBroadcastApi.clearExpirations b _ _).callbacksExpirations
    rw [hexpirations]
    refine ⟨hq.sorted.filter _, fun time id => ?_, fun n c hcall hnone => ?_⟩
    · rintro ⟨e, he, htime, hmem⟩
      exact hq.known time id ⟨e, List.mem_of_mem_filter he, htime, hmem⟩
    · obtain ⟨hnone, hquiet⟩ := answeredThen_eq_none.mp hnone
      obtain ⟨e, he, htime, hmem⟩ := hq.waiting n c hcall hnone
      have hlate : ¬ c.trx.expiration < b.timestamp := by
        intro hlt
        have hboth := hquiet c hcall
        rw [tellsOf, Option.or_eq_none_iff, expirationAt, if_pos hlt] at hboth
        cases hboth.2
      refine ⟨e, List.mem_filter.mpr ⟨he, ?_⟩, htime, hmem⟩
      rw [htime]
      exact decide_eq_true (not_lt.mp hlate)

theorem returnedCall_concat (c : BroadcastCall) : returnedCall (calls ++ [c]) n =
    if n = calls.length then (if c.returned = true then some c else none) else returnedCall calls n := by
  unfold returnedCall
  rcases Nat.lt_trichotomy n calls.length with hlt | rfl | hgt
  · rw [List.getElem?_append_left hlt, if_neg (by omega)]
  · rw [List.getElem?_concat_length, if_pos rfl, Option.filter_some]
  · rw [if_neg (by omega), List.getElem?_eq_none (by simp; omega), List.getElem?_eq_none (by omega)]

theorem returnedCall_length : returnedCall calls calls.length = none := by
  unfold returnedCall
  rw [List.getElem?_eq_none le_rfl]
  rfl

/-- A call that threw is none that returned. -/
theorem returnedCall_threw (trx : SignedTransaction) : returnedCall (calls ++ [⟨trx, false⟩]) = returnedCall calls := by
  funext n
  rw [returnedCall_concat]
  split
  · rename_i hn
    rw [hn, returnedCall_length]
    rfl
  · rfl

theorem Serves.threw (h : Serves cd calls answered s) (trx : SignedTransaction) :
    Serves cd (calls ++ [⟨trx, false⟩]) answered s := by
  refine ⟨h.told, fun id n => ?_⟩
  unfold Awaits
  rw [returnedCall_threw]
  exact h.noted id n

theorem Queues.threw {expirations : List (TimePointSec × List Nat)} (h : Queues cd calls answered expirations)
    (trx : SignedTransaction) : Queues cd (calls ++ [⟨trx, false⟩]) answered expirations := by
  refine ⟨h.sorted, h.known, ?_⟩
  rw [returnedCall_threw]
  exact h.waiting

/-- **A call** whose id is not noted awaits an answer from now on. -/
theorem Serves.register (h : Serves cd calls answered s) (trx : SignedTransaction)
    (hfree : s.callbacks (cd.transactionId trx) = none) (hnone : answered calls.length = none) :
    Serves cd (calls ++ [⟨trx, true⟩]) answered (s.register cd trx calls.length) := by
  refine ⟨h.told, fun id n => ?_⟩
  show (s.setCallback (cd.transactionId trx) (some (some calls.length))).callbacks id = some (some n) ↔ _
  rw [NetworkBroadcastApi.callbacks_setCallback]
  unfold Awaits
  rw [returnedCall_concat]
  by_cases hn : n = calls.length
  · have hold : ¬ s.callbacks id = some (some calls.length) := by
      rw [h.noted]
      rintro ⟨-, c, hcall, -⟩
      rw [returnedCall_length] at hcall
      cases hcall
    by_cases hid : id = cd.transactionId trx
    · simp [hn, hid, hnone]
    · simp [hn, hid, Ne.symm hid, hold]
  · rw [if_neg hn]
    by_cases hid : id = cd.transactionId trx
    · have hno := (h.noted id n).not.mp (by rw [hid, hfree]; simp)
      rw [if_pos hid]
      refine iff_of_false (fun hsome => hn ?_) hno
      exact (Option.some.inj (Option.some.inj hsome)).symm
    · rw [if_neg hid]
      exact h.noted id n

theorem Queues.register (h : Queues cd calls answered s.callbacksExpirations) (trx : SignedTransaction) :
    Queues cd (calls ++ [⟨trx, true⟩]) answered (s.register cd trx calls.length).callbacksExpirations := by
  refine ⟨pushExpiration_sorted h.sorted, fun time id hnoted => ?_, fun n c hcall hnone => ?_⟩
  · rcases notedUnder_pushExpiration.mp hnoted with hold | ⟨rfl, rfl⟩
    · exact h.known time id hold
    · exact ⟨trx, rfl, rfl⟩
  · apply notedUnder_pushExpiration.mpr
    rw [returnedCall_concat] at hcall
    split at hcall
    · cases hcall
      exact .inr ⟨rfl, rfl⟩
    · exact .inl (h.waiting n c hcall hnone)

end Steps

end Answers

/-! ## The chain -/

section Chain

variable {node : Node} {trx : SignedTransaction} {d d' : Database} {u : Unit} {blocks : List SignedBlock}

/-- A transaction is applied before it expires, and does not move the head. -/
theorem applyTransaction_timely (hskip : node.skip = {}) (happly : applyTransaction env node trx d = .ok u d') :
    (d.core.dgp.headBlockNumber = 0 ∨ d.core.dgp.time < trx.expiration) ∧
      d'.core.dgp.headBlockNumber = d.core.dgp.headBlockNumber ∧ d'.core.dgp.time = d.core.dgp.time := by
  obtain ⟨_, t, hcore, hops⟩ := bind_eq_ok.mp happly
  obtain ⟨c₁, hpassed, rfl⟩ := within_eq_ok.mp hcore
  have hstays : Stays c₁ d'.core := (always_each (always_applyOperation operationFrame_stays env node) _).runs _ _ _ hops
  obtain ⟨-, hlate, hdgp, -⟩ := admitTransaction_eq_ok hskip hpassed
  change d.core.dgp.headBlockNumber = 0 ∨ d.core.dgp.time < _ at hlate
  change c₁.dgp = d.core.dgp at hdgp
  exact ⟨hlate, by rw [hstays.headBlockNumber, hdgp], by rw [hstays.time, hdgp]⟩

theorem applyTransactions_timely (hskip : node.skip = {}) {trxs : List SignedTransaction}
    (happly : each (applyTransaction env node) trxs d = .ok u d') :
    ∀ trx ∈ trxs, d.core.dgp.headBlockNumber = 0 ∨ d.core.dgp.time < trx.expiration := by
  induction trxs generalizing d with
  | nil => exact fun trx htrx => absurd htrx List.not_mem_nil
  | cons trx trxs ih =>
    obtain ⟨_, t, hfirst, hrest⟩ := bind_eq_ok.mp happly
    obtain ⟨hlate, hnum, htime⟩ := applyTransaction_timely env hskip hfirst
    intro x hx
    rcases List.mem_cons.mp hx with rfl | hx
    · exact hlate
    · have hlater := ih hrest x hx
      rwa [hnum, htime] at hlater

/-- No block holds a transaction that has expired before an earlier one. -/
structure Timely (blocks : List SignedBlock) (d : Database) : Prop where
  inTime : blocks.Pairwise fun a b => ∀ trx ∈ b.transactions, a.timestamp < trx.expiration
  reached : ∀ b ∈ blocks, b.timestamp ≤ d.core.dgp.time
  empty : d.core.dgp.headBlockNumber = 0 → blocks = []

theorem Timely.of_pushed (h : Timely blocks d) (hlate : d.core.dgp.headBlockNumber = 0 ∨ d.core.dgp.time < trx.expiration) :
    ∀ b ∈ blocks, b.timestamp < trx.expiration := by
  intro b hb
  rcases hlate with hzero | hlate
  · rw [h.empty hzero] at hb
    cases hb
  · exact (h.reached b hb).trans_lt hlate

theorem AppliedChain.timely (hid : ExpirationInId env.codec) (h : AppliedChain env blocks d) : Timely blocks d := by
  induction h with
  | genesis key => exact ⟨.nil, fun b hb => absurd hb List.not_mem_nil, fun _ => rfl⟩
  | @block blocks d d' node b h hskip htime happly ih =>
    obtain ⟨-, hcounted⟩ := h.ledgered hid
    obtain ⟨-, hnonzero⟩ := hcounted.applyBlock htime happly
    obtain ⟨-, hlater, -, -, htime'⟩ := applyBlock_head happly
    obtain ⟨c₁, d₂, c₃, c₄, c₅, hsame, -, -, htrxs, -⟩ := applyBlock_stages happly
    refine ⟨?_, fun a ha => ?_, fun hzero => absurd hzero hnonzero⟩
    · refine List.pairwise_append.mpr ⟨ih.inTime, List.pairwise_singleton _ _, fun a ha x hx trx htrx => ?_⟩
      obtain rfl := List.mem_singleton.mp hx
      have hlate := applyTransactions_timely env hskip htrxs trx htrx
      change c₁.dgp.headBlockNumber = 0 ∨ c₁.dgp.time < _ at hlate
      rw [hsame.headBlockNumber, hsame.time] at hlate
      exact ih.of_pushed hlate a ha
    · rw [htime']
      rcases List.mem_append.mp ha with ha | ha
      · exact (ih.reached a ha).trans hlater.le
      · rw [List.mem_singleton.mp ha]

end Chain

/-! ## What the blocks say -/

section Confirmations

variable {cd : Codec} {trx : SignedTransaction} {b : SignedBlock} {blocks : List SignedBlock}

theorem confirmationIn_eq_none (h : ∀ t ∈ b.transactions, cd.transactionId t ≠ cd.transactionId trx) :
    confirmationIn cd trx b = none := by
  unfold confirmationIn numberIn
  rw [List.findIdx?_eq_none_iff.mpr fun t ht => decide_eq_false (h t ht)]
  rfl

theorem confirmationOf_eq_none (habsent : ∀ b ∈ blocks, ∀ t ∈ b.transactions, cd.transactionId t ≠ cd.transactionId trx)
    (htimely : ∀ b ∈ blocks, b.timestamp < trx.expiration) : confirmationOf cd blocks trx = none := by
  unfold confirmationOf
  rw [Option.or_eq_none_iff, List.findSome?_eq_none_iff, List.findSome?_eq_none_iff]
  refine ⟨fun b hb => confirmationIn_eq_none (habsent b hb), fun b hb => ?_⟩
  exact if_neg (not_lt.mpr (htimely b hb).le)

/-- **One block more** only adds what it tells itself: no block holds a transaction that has expired before an earlier
one. -/
theorem confirmationOf_concat (hid : ExpirationInId cd)
    (h : (blocks ++ [b]).Pairwise fun a b => ∀ trx ∈ b.transactions, a.timestamp < trx.expiration) :
    confirmationOf cd (blocks ++ [b]) trx = (confirmationOf cd blocks trx).or (tellsOf cd b trx) := by
  obtain ⟨-, -, hlast⟩ := List.pairwise_append.mp h
  unfold confirmationOf tellsOf
  simp only [List.findSome?_append, List.findSome?_singleton]
  cases hconfirmed : blocks.findSome? (confirmationIn cd trx) with
  | some c => simp
  | none =>
    cases hexpired : blocks.findSome? (expirationAt cd trx) with
    | none => simp
    | some c =>
      obtain ⟨a, ha, hat⟩ := List.exists_of_findSome?_eq_some hexpired
      have hpassed : trx.expiration < a.timestamp := by
        by_contra hnot
        rw [expirationAt, if_neg hnot] at hat
        cases hat
      have hnone : confirmationIn cd trx b = none := by
        refine confirmationIn_eq_none fun t ht hsame => ?_
        have hlater := hlast a ha b (List.mem_singleton.mpr rfl) t ht
        rw [hid t trx hsame] at hlater
        exact lt_asymm hlater hpassed
      simp [hnone]

theorem confirmationOf_of_passed (hb : b ∈ blocks) (h : trx.expiration < b.timestamp) :
    (confirmationOf cd blocks trx).isSome = true := by
  unfold confirmationOf
  rw [Option.isSome_or, Bool.or_eq_true]
  right
  rw [List.findSome?_isSome_iff]
  exact ⟨b, hb, by rw [expirationAt, if_pos h]; rfl⟩

end Confirmations

/-! ## Runs -/

namespace BroadcastNode

/-- The answers that the seen blocks ask for. -/
def answered (s : BroadcastNode) (n : Nat) : Option TransactionConfirmation :=
  (returnedCall s.calls n).bind fun c => confirmationOf cd s.seen c.trx

/-- The pending state continues the chain, and the api serves what the seen blocks ask for. -/
structure Sound (s : BroadcastNode) : Prop where
  chained : AppliedChain env s.chain s.head
  pending : ∃ more, Ledgered env (chainTransactions s.chain ++ more) s.top.core
  number : s.top.core.dgp.headBlockNumber = s.head.core.dgp.headBlockNumber
  time : s.top.core.dgp.time = s.head.core.dgp.time
  serves : Serves env.codec s.calls (s.answered env.codec) s.api
  queues : Queues env.codec s.calls (s.answered env.codec) s.api.callbacksExpirations

variable {env} {s : BroadcastNode} {trx : SignedTransaction} {d d' : Database}

theorem pushPending_eq_some (h : pushPending env trx d = some d') :
    applyTransaction env { isProducing := true } trx d = .ok () d' := by
  unfold pushPending at h
  split at h
  · rename_i hrun
    cases h
    exact hrun
  · cases h

theorem pushTransaction_eq_some (h : pushTransaction env trx d = some d') : pushPending env trx d = some d' := by
  unfold pushTransaction at h
  split at h
  · exact h
  · cases h

theorem sound_start (hid : ExpirationInId env.codec) (key : PublicKey) : Sound env (start (genesis key)) where
  chained := .genesis key
  pending := ⟨[], ((AppliedChain.genesis key).ledgered hid).1⟩
  number := rfl
  time := rfl
  serves := by
    refine ⟨fun n => rfl, fun id n => ?_⟩
    refine iff_of_false (fun h => by cases h) ?_
    rintro ⟨-, c, hcall, -⟩
    cases hcall
  queues := by
    refine ⟨.nil, ?_, fun n c hcall => ?_⟩
    · rintro time id ⟨e, he, -⟩
      cases he
    · cases hcall

/-- What is accepted while pending. -/
theorem Sound.accepts (hid : ExpirationInId env.codec) (h : Sound env s) (hpush : pushPending env trx s.top = some d') :
    (∃ more, Ledgered env (chainTransactions s.chain ++ more) d'.core) ∧
      d'.core.dgp.headBlockNumber = s.head.core.dgp.headBlockNumber ∧ d'.core.dgp.time = s.head.core.dgp.time ∧
      (∀ b ∈ s.chain, ∀ t ∈ b.transactions, env.codec.transactionId t ≠ env.codec.transactionId trx) ∧
      ∀ b ∈ s.chain, b.timestamp < trx.expiration := by
  obtain ⟨more, hledgered⟩ := h.pending
  have happly := pushPending_eq_some hpush
  obtain ⟨hledgered', hnum, htime⟩ := hledgered.applyTransaction hid rfl happly
  obtain ⟨hlate, -, -⟩ := applyTransaction_timely env rfl happly
  rw [h.number, h.time] at hlate
  refine ⟨⟨more ++ [trx], ?_⟩, hnum.trans h.number, htime.trans h.time, fun b hb t ht hsame => ?_, ?_⟩
  · rw [← List.append_assoc]
    exact hledgered'
  · have hnodup := hledgered'.nodup
    rw [List.map_append, List.nodup_append] at hnodup
    refine hnodup.2.2 _ (List.mem_map_of_mem (List.mem_append_left _ ?_)) _ (List.mem_singleton.mpr rfl) hsame
    exact List.mem_flatMap.mpr ⟨b, hb, ht⟩
  · exact (h.chained.timely env hid).of_pushed hlate

theorem Sound.task (hid : ExpirationInId env.codec) (h : Sound env s) : Sound env (s.next env .task) := by
  cases htasks : s.tasks with
  | nil =>
    have hnext : s.next env .task = s := by
      unfold next
      simp only [htasks]
    rwa [hnext]
  | cons b tasks =>
    have hnext : s.next env .task =
        { s with tasks := tasks, seen := s.seen ++ [b], api := s.api.onAppliedBlock env.codec b } := by
      unfold next
      simp only [htasks]
    rw [hnext]
    have hchain : s.chain = (s.seen ++ [b]) ++ tasks := by simp [chain, htasks]
    have htimely := (h.chained.timely env hid).inTime
    rw [hchain] at htimely
    have hanswered : ∀ s' : BroadcastNode, s'.calls = s.calls → s'.seen = s.seen ++ [b] →
        s'.answered env.codec = answeredThen s.calls (s.answered env.codec) (tellsOf env.codec b) := by
      intro s' hcalls hseen
      funext n
      unfold answeredThen
      simp only [answered, hcalls, hseen]
      cases returnedCall s.calls n with
      | none => rfl
      | some c => exact confirmationOf_concat hid (List.pairwise_append.mp htimely).1
    obtain ⟨hserves, hqueues⟩ := @Serves.onAppliedBlock _ _ _ _ b hid h.serves h.queues
    refine ⟨?_, ?_, h.number, h.time, ?_, ?_⟩
    · have hchained := h.chained
      rwa [hchain] at hchained
    · have hpending := h.pending
      rwa [hchain] at hpending
    · rw [hanswered]
      · exact hserves
      · rfl
      · rfl
    · rw [hanswered]
      · exact hqueues
      · rfl
      · rfl

theorem Sound.applied (hid : ExpirationInId env.codec) (h : Sound env s) {node : Node} {b : SignedBlock}
    (hord : (BroadcastStep.applied node b).Ordinary) : Sound env (s.next env (.applied node b)) := by
  obtain ⟨hskip, htime⟩ := hord
  unfold next
  simp only
  cases happly : applyBlock env node b s.head with
  | error e d => exact ⟨h.chained, ⟨[], (List.append_nil _).symm ▸ (h.chained.ledgered hid).1⟩, rfl, rfl, h.serves, h.queues⟩
  | ok u head =>
    have hchained : AppliedChain env (s.chain ++ [b]) head := h.chained.block node b hskip htime happly
    have hchain : s.seen ++ (s.tasks ++ [b]) = s.chain ++ [b] := (List.append_assoc _ _ _).symm
    refine ⟨?_, ⟨[], ?_⟩, rfl, rfl, h.serves, h.queues⟩
    · unfold chain
      rw [hchain]
      exact hchained
    · unfold chain
      rw [hchain, List.append_nil]
      exact (hchained.ledgered hid).1

theorem Sound.call (hid : ExpirationInId env.codec) (h : Sound env s) {tooOld networkFails : Bool}
    (hcareful : CallCareful env s (.call trx tooOld networkFails)) : Sound env (s.next env (.call trx tooOld networkFails)) := by
  unfold next
  simp only
  split
  · have hanswered : answered env.codec { s with calls := s.calls ++ [⟨trx, false⟩] } = s.answered env.codec := by
      unfold answered
      rw [returnedCall_threw]
    refine ⟨h.chained, h.pending, h.number, h.time, ?_, ?_⟩
    · rw [hanswered]
      exact h.serves.threw trx
    · rw [hanswered]
      exact h.queues.threw trx
  · rename_i hpasses
    obtain ⟨hfree, haccepted, rfl⟩ := hcareful.resolve_left hpasses
    obtain ⟨top, htop⟩ := Option.isSome_iff_exists.mp haccepted
    obtain ⟨hpending, hnum, htime, habsent, htimely⟩ := h.accepts hid (pushTransaction_eq_some htop)
    simp only [htop, Bool.not_false]
    have hseen : ∀ b ∈ s.seen, b ∈ s.chain := fun b hb => List.mem_append_left _ hb
    have hnone : confirmationOf env.codec s.seen trx = none :=
      confirmationOf_eq_none (fun b hb => habsent b (hseen b hb)) fun b hb => htimely b (hseen b hb)
    have hanswered : ∀ s' : BroadcastNode, s'.calls = s.calls ++ [⟨trx, true⟩] → s'.seen = s.seen →
        s'.answered env.codec = s.answered env.codec := by
      intro s' hcalls hsame
      funext n
      unfold answered
      rw [hcalls, hsame, returnedCall_concat]
      split
      · rename_i hn
        rw [hn, returnedCall_length]
        exact hnone
      · rfl
    refine ⟨h.chained, hpending, hnum, htime, ?_, ?_⟩
    · rw [hanswered]
      · refine h.serves.register trx hfree ?_
        unfold answered
        rw [returnedCall_length]
        rfl
      · rfl
      · rfl
    · rw [hanswered]
      · exact h.queues.register trx
      · rfl
      · rfl

theorem Sound.pushed (hid : ExpirationInId env.codec) (h : Sound env s) : Sound env (s.next env (.pushed trx)) := by
  unfold next
  simp only
  cases hpush : pushPending env trx s.top with
  | none => exact h
  | some top =>
    obtain ⟨hpending, hnum, htime, -, -⟩ := h.accepts hid hpush
    exact ⟨h.chained, hpending, hnum, htime, h.serves, h.queues⟩

/-- Where the api serves what the seen blocks ask for, every call is answered. -/
theorem Sound.callsAnswered (h : Sound env s) : CallsAnswered env.codec s := by
  intro n c hcall
  have htold := h.serves.told n
  by_cases hreturned : c.returned = true
  · have hanswered : s.answered env.codec n = confirmationOf env.codec s.seen c.trx := by
      unfold answered
      rw [returnedCall_eq_some.mpr ⟨hcall, hreturned⟩]
      rfl
    rw [hanswered] at htold
    refine ⟨fun hthrew => absurd (hreturned.symm.trans hthrew) (by decide), fun _ => htold, ?_⟩
    rintro - ⟨b, hb, hpassed⟩
    obtain ⟨answer, hsome⟩ := Option.isSome_iff_exists.mp (@confirmationOf_of_passed env.codec _ _ _ hb hpassed)
    rw [htold, hsome]
    rfl
  · have hanswered : s.answered env.codec n = none := by
      unfold answered returnedCall
      rw [hcall, Option.filter_some, if_neg hreturned]
      rfl
    rw [hanswered] at htold
    exact ⟨fun _ => htold, fun h => absurd h hreturned, fun h => absurd h hreturned⟩

/-- Every step that is careful keeps it. -/
theorem Sound.next (hid : ExpirationInId env.codec) (h : Sound env s) {step : BroadcastStep}
    (hcareful : CallCareful env s step) (hord : step.Ordinary) : Sound env (s.next env step) := by
  cases step with
  | call trx tooOld networkFails => exact h.call hid hcareful
  | pushed trx => exact h.pushed hid
  | applied node b => exact h.applied hid hord
  | task => exact h.task hid

end BroadcastNode

open BroadcastNode in
/-- **Callbacks of broadcast transactions.**  Where every call throws before it notes anything, or returns and its id is
not noted yet, the callback of a call that returned is called once, by the first block with the transaction or else by the
first one later than its expiration, and that of a call that threw never. -/
theorem callbacks_answered (hid : ExpirationInId env.codec) (key : PublicKey) (steps : List BroadcastStep)
    (hord : ∀ step ∈ steps, step.Ordinary)
    (hcareful : Traces.Each (next env) (CallCareful env) (start (genesis key)) steps) :
    Traces.Along (next env) (fun _ s => CallsAnswered env.codec s) (start (genesis key)) steps := by
  intro past hpast
  replace hcareful := hcareful.ofPrefix hpast
  replace hord : ∀ step ∈ past, step.Ordinary := fun step hstep => hord step (hpast.subset hstep)
  clear hpast
  apply Sound.callsAnswered
  induction past using List.reverseRecOn with
  | nil => exact sound_start hid key
  | append_singleton past step ih =>
    rw [Traces.run_concat]
    refine (ih (hcareful.ofPrefix (List.prefix_append past [step])) fun e he => ?_).next hid ?_ ?_
    · exact hord e (List.mem_append_left _ he)
    · exact hcareful past step List.prefix_rfl
    · exact hord step (List.mem_append_right _ (List.mem_singleton.mpr rfl))

/-- The first transaction of the sample chain. -/
def createRootTransaction : SignedTransaction := ⟨0, 0, genesisTime + 100, [createRoot], [1]⟩

/-- A call, the block with its transaction, and the task. -/
theorem callbacks_answered_createRoot :
    CallsAnswered sampleEnv.codec (Traces.run (BroadcastNode.next sampleEnv) (.start (genesis ⟨1⟩))
        [.call createRootTransaction false false, .applied {} moneyBlock, .task]) ∧
      (Traces.run (BroadcastNode.next sampleEnv) (.start (genesis ⟨1⟩))
        [.call createRootTransaction false false, .applied {} moneyBlock, .task]).api.calledBack 0 =
          [⟨genesisTime + 100, 1, 0, false⟩] := by
  refine ⟨callbacks_answered sampleEnv (fun _ _ h => h) ⟨1⟩ _ (fun step hstep => ?_) ?_ _ List.prefix_rfl, by decide +kernel⟩
  · simp only [List.mem_cons, List.not_mem_nil, or_false] at hstep
    rcases hstep with rfl | rfl | rfl
    · trivial
    · exact ⟨rfl, by decide +kernel⟩
    · trivial
  · refine Traces.each_cons.mpr ⟨.inr ⟨rfl, by decide +kernel, rfl⟩, ?_⟩
    exact Traces.each_cons.mpr ⟨trivial, Traces.each_cons.mpr ⟨trivial, Traces.each_nil⟩⟩

/-! ### The same transaction twice -/

/-- The transaction is pending when it is broadcast again, and no block takes it. -/
def twice : List BroadcastStep :=
  [.call createRootTransaction false false, .call createRootTransaction false false, .applied {} (sampleBlock {} 40 []),
    .task]

/-- The second call throws, and its callback is called instead of the first one. -/
theorem callback_of_failed_call :
    (∀ step ∈ twice, step.Ordinary) ∧
      (Traces.run (BroadcastNode.next sampleEnv) (.start (genesis ⟨1⟩)) twice).calls.map (·.returned) = [true, false] ∧
      (Traces.run (BroadcastNode.next sampleEnv) (.start (genesis ⟨1⟩)) twice).api.calledBack 0 = [] ∧
      (Traces.run (BroadcastNode.next sampleEnv) (.start (genesis ⟨1⟩)) twice).api.calledBack 1 =
        [⟨genesisTime + 100, 1, -1, true⟩] ∧
      ¬ CallsAnswered sampleEnv.codec (Traces.run (BroadcastNode.next sampleEnv) (.start (genesis ⟨1⟩)) twice) := by
  have hruns : (Traces.run (BroadcastNode.next sampleEnv) (.start (genesis ⟨1⟩)) twice).calls.map (·.returned) =
        [true, false] ∧
      (Traces.run (BroadcastNode.next sampleEnv) (.start (genesis ⟨1⟩)) twice).api.calledBack 0 = [] ∧
      (Traces.run (BroadcastNode.next sampleEnv) (.start (genesis ⟨1⟩)) twice).api.calledBack 1 =
        [⟨genesisTime + 100, 1, -1, true⟩] := by
    decide +kernel
  obtain ⟨hcalls, hfirst, hsecond⟩ := hruns
  refine ⟨fun step hstep => ?_, hcalls, hfirst, hsecond, fun h => ?_⟩
  · simp only [twice, List.mem_cons, List.not_mem_nil, or_false] at hstep
    rcases hstep with rfl | rfl | rfl | rfl
    · trivial
    · trivial
    · exact ⟨rfl, by decide +kernel⟩
    · trivial
  · have hthrew := congrArg (fun l => l[1]?) hcalls
    simp only [List.getElem?_map] at hthrew
    obtain ⟨c, hcall, hreturned⟩ := Option.map_eq_some_iff.mp hthrew
    have hnone := (h 1 c hcall).threw hreturned
    rw [hsecond] at hnone
    cases hnone

end Sigmaengine
