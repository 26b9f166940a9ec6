import Sigmaengine.Consensus.Locations

/-!
# Looking a transaction up

`get_transaction` of `database_api` takes the first operation recorded for the id, asks for the block of the recorded number
and answers with the transaction at the recorded position.

Main result: `getTransaction_right_iff`.
-/

namespace Sigmaengine

namespace Controller

/-- `get_transaction`: the transaction, `block_num` and `transaction_num`. -/
def getTransaction (c : Controller) (id : Nat) : Except Error (SignedTransaction × Nat × Nat) :=
  match c.objects.operations.find? fun o => o.trxId == id with
  | none => .error (.assertion "Unknown Transaction $\x7bt\x7d")
  | some o =>
    match c.fetchBlockByNumber o.block with
    | none => .error (.assertion "blk.valid()")
    | some b =>
      match b.transactions[o.trxInBlock]? with
      | none => .error (.assertion "blk->transactions.size() > itr->trx_in_block")
      | some trx => .ok (trx, o.block, o.trxInBlock)

variable {env : Env} {rec : Recorder} {c : Controller} {id n i : Nat} {trx : SignedTransaction}

theorem getTransaction_eq_ok : getTransaction c id = .ok (trx, n, i) ↔
    ∃ o b, (c.objects.operations.find? fun o => o.trxId == id) = some o ∧ c.fetchBlockByNumber o.block = some b ∧
      b.transactions[o.trxInBlock]? = some trx ∧ o.block = n ∧ o.trxInBlock = i := by
  unfold getTransaction
  split
  · next hnone => simp [hnone]
  · next o ho =>
    simp only [ho, Option.some.injEq]
    split
    · next hnone =>
      constructor
      · intro h
        cases h
      · rintro ⟨o', b, rfl, hb, -⟩
        rw [hnone] at hb
        cases hb
    · next b hb =>
      split
      · next hnone =>
        constructor
        · intro h
          cases h
        · rintro ⟨o', b', rfl, hb', htrx, -⟩
          rw [hb] at hb'
          cases hb'
          rw [hnone] at htrx
          cases htrx
      · next t ht =>
        constructor
        · intro h
          cases h
          exact ⟨o, b, rfl, hb, ht, rfl, rfl⟩
        · rintro ⟨o', b', rfl, hb', htrx, rfl, rfl⟩
          rw [hb] at hb'
          cases hb'
          rw [ht] at htrx
          cases htrx
          rfl

/-- The block that is found under the number of the first recorded operation has the transaction at the recorded position
that the main chain has there, or none. -/
def StoredRight (c : Controller) (id : Nat) : Prop :=
  ∀ o b trx, (c.objects.operations.find? fun o => o.trxId == id) = some o → c.fetchBlockByNumber o.block = some b →
    b.transactions[o.trxInBlock]? = some trx →
    ∃ b' ∈ c.objects.chain, b'.blockNum = o.block ∧ b'.transactions[o.trxInBlock]? = some trx

/-- The answer is the transaction with the id, at its place on the main chain. -/
def AnswersRight (cd : Codec) (c : Controller) (id : Nat) : Prop :=
  ∀ trx n i, getTransaction c id = .ok (trx, n, i) →
    cd.transactionId trx = id ∧ ∃ b ∈ c.objects.chain, b.blockNum = n ∧ b.transactions[i]? = some trx

/-- **A lookup is right exactly when the block it finds is**, in every state reached: what is recorded is never to blame. -/
theorem getTransaction_right_iff (env : Env) (rec : Recorder) (key : PublicKey) (calls : List Call)
    (hcalls : Traces.Each (step env rec) (fun c call => call.Brings env rec SignedBlock.Small c) (start key) calls) (id : Nat) :
    AnswersRight env.codec (Traces.run (step env rec) (start key) calls) id ↔
      StoredRight (Traces.run (step env rec) (start key) calls) id := by
  have hanchored := (anchored_run fun past call h => Call.Brings.mono (fun _ hb => hb.timed) (hcalls past call h)).2
  have hlocated := (located_run hcalls).placed
  generalize Traces.run (step env rec) (start key) calls = c at hanchored hlocated
  constructor
  · intro h o b trx ho hb htrx
    exact (h trx _ _ (getTransaction_eq_ok.mpr ⟨o, b, ho, hb, htrx, rfl, rfl⟩)).2
  · intro h trx n i hget
    obtain ⟨o, b, ho, hb, htrx, rfl, rfl⟩ := getTransaction_eq_ok.mp hget
    obtain ⟨b', hb', hnum, htrx'⟩ := h o b trx ho hb htrx
    refine ⟨?_, b', hb', hnum, htrx'⟩
    have hid : (o.trxId == id) = true := List.find?_some (p := fun o : OperationObject => o.trxId == id) ho
    rcases hlocated o (List.mem_of_find?_eq_some ho) with ⟨b'', hb'', hnum'', hplace⟩ | hoff
    · change b''.blockNum = o.block at hnum''
      change (b''.transactions[o.trxInBlock]?).map env.codec.transactionId = some o.trxId at hplace
      rw [hanchored.eq_of_number hb'' hb' (hnum''.trans hnum.symm), htrx', Option.map_some, Option.some.injEq] at hplace
      rw [hplace]
      exact eq_of_beq hid
    · have hlen := hoff b' hb' hnum
      have hlt := (List.getElem?_eq_some_iff.mp htrx').1
      change b'.transactions.length ≤ o.trxInBlock at hlen
      omega

theorem getTransaction_right_iff_sample :
    AnswersRight sampleEnv.codec (Traces.run (step sampleEnv sampleRecorder) (start ⟨1⟩) sampleCalls) (genesisTime + 100) ↔
      StoredRight (Traces.run (step sampleEnv sampleRecorder) (start ⟨1⟩) sampleCalls) (genesisTime + 100) :=
  getTransaction_right_iff sampleEnv sampleRecorder ⟨1⟩ sampleCalls sampleCalls_small _

end Controller

end Sigmaengine
