import Sigmaengine.Chain.Head
import Sigmaengine.Ledger.Runs

/-!
# No transaction twice

A transaction leaves a record when it is applied, and the record is dropped only when the head is later than
the expiration; from then on the expiration check refuses the transaction.  Block 1 skips that check, but
nothing has been dropped before it.
-/

namespace Sigmaengine

open Effect Table

variable {env : Env} {node : Node}

/-! ## Records -/

/-- The transaction has left a record, or is refused as expired. -/
def Spent (env : Env) (c : Core) (trx : SignedTransaction) : Prop :=
  (∃ r ∈ c.transactions.values, r.trxId = env.codec.transactionId trx ∧ r.expiration = trx.expiration) ∨
    (trx.expiration < c.dgp.time ∧ c.dgp.headBlockNumber ≠ 0)

/-- The transactions applied so far are distinct and spent. -/
structure Ledgered (env : Env) (done : List SignedTransaction) (c : Core) : Prop where
  nodup : (done.map env.codec.transactionId).Nodup
  spent : ∀ trx ∈ done, Spent env c trx

theorem Spent.of_sameHead {c c' : Core} {trx : SignedTransaction} (h : Spent env c trx) (hsame : SameHead c c') :
    Spent env c' trx := by
  unfold Spent at h ⊢
  rwa [hsame.transactions, hsame.time, hsame.headBlockNumber]

theorem Ledgered.of_sameHead {done : List SignedTransaction} {c c' : Core} (h : Ledgered env done c)
    (hsame : SameHead c c') : Ledgered env done c' :=
  ⟨h.nodup, fun trx htrx => (h.spent trx htrx).of_sameHead hsame⟩

/-! ## Transactions -/

theorem checkSignatures_readOnly (trx : SignedTransaction) : ReadOnly (checkSignatures env node trx) := by
  refine readOnly_get.bind fun s => ?_
  split
  · exact readOnly_pure _
  · exact (readOnly_checked _).bind fun _ => readOnly_checked _

theorem checkExpiration_eq_ok {trx : SignedTransaction} {c c' : Core} {u : Unit}
    (h : checkExpiration node trx c = .ok u c') :
    c' = c ∧ (c.dgp.headBlockNumber = 0 ∨ c.dgp.time < trx.expiration) := by
  obtain ⟨_, _, hget, h⟩ := bind_eq_ok.mp h
  obtain ⟨rfl, rfl⟩ := get_eq_ok.mp hget
  split at h
  next hzero =>
    obtain ⟨-, rfl⟩ := pure_eq_ok.mp h
    exact ⟨rfl, .inl hzero⟩
  next =>
    simp only [bind_eq_ok, fcAssert_eq_ok] at h
    obtain ⟨_, _, ⟨-, rfl⟩, _, _, ⟨-, rfl⟩, hlate, rfl⟩ := h
    exact ⟨rfl, .inr (of_decide_eq_true hlate)⟩

/-- **Admission** with default flags: no record, not expired, and one more record. -/
theorem admitTransaction_eq_ok (hskip : node.skip = {}) {trx : SignedTransaction} {c c' : Core} {u : Unit}
    (h : admitTransaction env node trx c = .ok u c') :
    (∀ r ∈ c.transactions.values, r.trxId ≠ env.codec.transactionId trx) ∧
      (c.dgp.headBlockNumber = 0 ∨ c.dgp.time < trx.expiration) ∧ c'.dgp = c.dgp ∧
      ∀ r, r ∈ c'.transactions.values ↔
        r ∈ c.transactions.values ∨ r = ⟨env.codec.transactionId trx, trx.expiration⟩ := by
  simp only [admitTransaction, bind_eq_ok, checked_eq_ok, get_eq_ok, fcAssert_eq_ok] at h
  obtain ⟨_, _, ⟨-, rfl⟩, _, _, ⟨rfl, rfl⟩, _, _, ⟨hdupe, rfl⟩, _, c₁, hsign, _, c₂, hexp, hrecord⟩ := h
  have hc₁ : c₁ = c := ((checkSignatures_readOnly trx).eq_of_ok hsign).symm
  subst hc₁
  obtain ⟨rfl, hlate⟩ := checkExpiration_eq_ok hexp
  have hnew : ∀ r ∈ c₂.transactions.values, r.trxId ≠ env.codec.transactionId trx := by
    rw [hskip, Bool.false_or, Option.isNone_iff_eq_none] at hdupe
    intro r hr heq
    obtain ⟨id, hid⟩ := mem_values.mp hr
    have := find?_eq_none hdupe hid
    simp [heq] at this
  rw [recordTransaction, hskip, if_neg (by decide)] at hrecord
  obtain ⟨id, t, hcreate, hpure⟩ := bind_eq_ok.mp hrecord
  obtain ⟨-, rfl⟩ := pure_eq_ok.mp hpure
  obtain ⟨hfree, rfl, rfl⟩ := createIn_eq_ok.mp hcreate
  refine ⟨hnew, hlate, rfl, fun r => ?_⟩
  have hvalues : (Index.transactions.set ((Index.transactions.get c₂).insert _ hfree) c₂).transactions.values =
      _ ::ₘ c₂.transactions.values := values_insert _ _ hfree
  rw [hvalues, Multiset.mem_cons, or_comm]

/-- The ids of transactions that expire at different times differ. -/
def ExpirationInId (cd : Codec) : Prop :=
  ∀ trx trx', cd.transactionId trx = cd.transactionId trx' → trx.expiration = trx'.expiration

/-- **One transaction**: it is none of those applied before, and joins them. -/
theorem Ledgered.applyTransaction (hid : ExpirationInId env.codec) (hskip : node.skip = {})
    {done : List SignedTransaction} {trx : SignedTransaction} {d d' : Database} {u : Unit}
    (h : Ledgered env done d.core) (happly : applyTransaction env node trx d = .ok u d') :
    Ledgered env (done ++ [trx]) d'.core ∧ d'.core.dgp.headBlockNumber = d.core.dgp.headBlockNumber ∧
      d'.core.dgp.time = d.core.dgp.time := by
  obtain ⟨_, t, hcore, hops⟩ := bind_eq_ok.mp happly
  obtain ⟨c₁, hpassed, rfl⟩ := within_eq_ok.mp hcore
  have hstays : Stays c₁ d'.core := (always_each (always_applyOperation operationFrame_stays env node) _).runs _ _ _ hops
  obtain ⟨hnew, hlate, hdgp, hrecords⟩ := admitTransaction_eq_ok hskip hpassed
  change ∀ r ∈ d.core.transactions.values, _ at hnew
  change d.core.dgp.headBlockNumber = 0 ∨ d.core.dgp.time < _ at hlate
  change c₁.dgp = d.core.dgp at hdgp
  change ∀ r, r ∈ c₁.transactions.values ↔ r ∈ d.core.transactions.values ∨ _ at hrecords
  have hledgered : Ledgered env (done ++ [trx]) c₁ := by
    constructor
    · rw [List.map_append, List.nodup_append]
      refine ⟨h.nodup, List.nodup_singleton _, ?_⟩
      intro x hx y hy
      obtain ⟨old, hold, rfl⟩ := List.mem_map.mp hx
      obtain rfl := List.mem_singleton.mp hy
      intro heq
      rcases h.spent old hold with ⟨r, hr, hrid, -⟩ | ⟨hexpired, hnum⟩
      · exact hnew r hr (hrid.trans heq)
      · rcases hlate with hzero | hlate
        · exact hnum hzero
        · rw [← hid old trx heq] at hlate
          exact lt_asymm hlate hexpired
    · intro x hx
      rcases List.mem_append.mp hx with hold | hthis
      · rcases h.spent x hold with ⟨r, hr, hrx⟩ | hexpired
        · exact .inl ⟨r, (hrecords r).mpr (.inl hr), hrx⟩
        · exact .inr (by rwa [hdgp])
      · rw [List.mem_singleton.mp hthis]
        exact .inl ⟨_, (hrecords _).mpr (.inr rfl), rfl, rfl⟩
  refine ⟨hledgered.of_sameHead hstays.sameHead, ?_, ?_⟩
  · rw [hstays.headBlockNumber, hdgp]
  · rw [hstays.time, hdgp]

theorem Ledgered.applyTransactions (hid : ExpirationInId env.codec) (hskip : node.skip = {})
    {trxs done : List SignedTransaction} {d d' : Database} {u : Unit} (h : Ledgered env done d.core)
    (happly : each (Sigmaengine.applyTransaction env node) trxs d = .ok u d') :
    Ledgered env (done ++ trxs) d'.core ∧ d'.core.dgp.headBlockNumber = d.core.dgp.headBlockNumber ∧
      d'.core.dgp.time = d.core.dgp.time := by
  induction trxs generalizing done d with
  | nil =>
    obtain ⟨-, rfl⟩ := pure_eq_ok.mp happly
    rw [List.append_nil]
    exact ⟨h, rfl, rfl⟩
  | cons trx trxs ih =>
    obtain ⟨_, t, hfirst, hrest⟩ := bind_eq_ok.mp happly
    obtain ⟨ht, hnum, htime⟩ := h.applyTransaction hid hskip hfirst
    obtain ⟨hd, hnum', htime'⟩ := ih ht hrest
    rw [List.append_assoc] at hd
    exact ⟨hd, hnum'.trans hnum, htime'.trans htime⟩

/-! ## Clearing -/

/-- Only records that have expired are dropped. -/
def DropsExpired (s s' : Core) : Prop :=
  s'.dgp = s.dgp ∧ ∀ r ∈ s.transactions.values, r ∈ s'.transactions.values ∨ r.expiration < s.dgp.time

instance : Std.Refl DropsExpired := ⟨fun _ => ⟨rfl, fun _ hr => .inl hr⟩⟩

instance : IsTrans Core DropsExpired where
  trans s t u := by
    rintro ⟨hdgp, hst⟩ ⟨hdgp', htu⟩
    refine ⟨hdgp'.trans hdgp, fun r hr => ?_⟩
    rcases hst r hr with hr | hlt
    · rcases htu r hr with hr | hlt
      · exact .inl hr
      · rw [hdgp] at hlt
        exact .inr hlt
    · exact .inr hlt

theorem dropsExpired_clearExpiredTransaction : Runs DropsExpired clearExpiredTransaction := by
  intro s again s' h
  simp only [clearExpiredTransaction, bind_eq_ok, get_eq_ok] at h
  obtain ⟨_, _, ⟨rfl, rfl⟩, h⟩ := h
  cases hleast : s.transactions.least? TransactionObject.before with
  | none =>
    rw [hleast] at h
    obtain ⟨-, rfl⟩ := pure_eq_ok.mp h
    exact Std.Refl.refl _
  | some p =>
    obtain ⟨id, t⟩ := p
    rw [hleast] at h
    dsimp only at h
    split at h
    next hexpired =>
      obtain ⟨_, _, hremove, hpure⟩ := bind_eq_ok.mp h
      obtain ⟨-, rfl⟩ := pure_eq_ok.mp hpure
      obtain rfl := removeIn_eq_ok.mp hremove
      refine ⟨rfl, fun r hr => ?_⟩
      obtain ⟨i, hi⟩ := mem_values.mp hr
      by_cases heq : i = id
      · subst heq
        rw [eq_of_mem hi (mem_of_least? hleast)]
        exact .inr hexpired
      · exact .inl (mem_values.mpr ⟨i, mem_erase.mpr ⟨hi, heq⟩⟩)
    next =>
      obtain ⟨-, rfl⟩ := pure_eq_ok.mp h
      exact Std.Refl.refl _

theorem clearExpiredTransactions_eq_ok {c c' : Core} {u : Unit} (h : clearExpiredTransactions c = .ok u c') :
    DropsExpired c c' := by
  obtain ⟨_, _, hget, h⟩ := bind_eq_ok.mp h
  obtain ⟨rfl, rfl⟩ := get_eq_ok.mp hget
  exact runs_loop dropsExpired_clearExpiredTransaction _ _ _ _ h

/-! ## Chains -/

/-- Blocks applied one after the other with default flags.  A timestamp is a 32-bit number of seconds. -/
inductive AppliedChain (env : Env) : List SignedBlock → Database → Prop
  | genesis (initPublicKey : PublicKey) : AppliedChain env [] (Sigmaengine.genesis initPublicKey)
  | block {blocks : List SignedBlock} {d d' : Database} (node : Node) (b : SignedBlock)
      (h : AppliedChain env blocks d) (hskip : node.skip = {}) (htime : b.timestamp < 4294967296)
      (happly : applyBlock env node b d = .ok () d') : AppliedChain env (blocks ++ [b]) d'

/-- The transactions of a chain, in order. -/
def chainTransactions (blocks : List SignedBlock) : List SignedTransaction :=
  blocks.flatMap fun b => b.transactions

/-- Every block takes at least a second, so the head number has not wrapped. -/
structure Counted (c : Core) : Prop where
  number : c.dgp.headBlockId.num = c.dgp.headBlockNumber
  elapsed : genesisTime + c.dgp.headBlockNumber ≤ c.dgp.time

theorem Counted.applyBlock {b : SignedBlock} {d d' : Database} {u : Unit} (h : Counted d.core)
    (htime : b.timestamp < 4294967296) (happly : applyBlock env node b d = .ok u d') :
    Counted d'.core ∧ d'.core.dgp.headBlockNumber ≠ 0 := by
  obtain ⟨hlink, hlate, hnum, hblockId, htime'⟩ := applyBlock_head happly
  have helapsed : genesisTime + (d.core.dgp.headBlockNumber + 1) ≤ b.timestamp :=
    (Nat.succ_le_succ h.elapsed).trans hlate
  have hcount : b.blockNum = d.core.dgp.headBlockNumber + 1 := by
    unfold SignedBlockHeader.blockNum
    rw [← hlink, h.number]
    exact Nat.mod_eq_of_lt ((Nat.le_add_left _ _).trans_lt (helapsed.trans_lt htime))
  refine ⟨⟨?_, ?_⟩, by omega⟩
  · rw [hblockId, hnum]
    rfl
  · rw [hnum, htime', hcount]
    exact helapsed

/-- **One block** leaves the transactions of the chain distinct and spent. -/
theorem Ledgered.applyBlock (hid : ExpirationInId env.codec) (hskip : node.skip = {})
    {done : List SignedTransaction} {b : SignedBlock} {d d' : Database} {u : Unit} (h : Ledgered env done d.core)
    (hnonzero : d'.core.dgp.headBlockNumber ≠ 0) (happly : applyBlock env node b d = .ok u d') :
    Ledgered env (done ++ b.transactions) d'.core := by
  obtain ⟨c₁, d₂, c₃, c₄, c₅, hsame, -, hlate, htrxs, hhead, hsame', hclear, hend⟩ := applyBlock_stages happly
  obtain ⟨h₂, -, htime₂⟩ := (h.of_sameHead hsame).applyTransactions hid hskip htrxs
  obtain ⟨hdgp, hdrop⟩ := clearExpiredTransactions_eq_ok hclear
  have htime₄ : c₄.dgp.time = b.timestamp := by
    rw [hsame'.time]
    exact congrArg (fun p => p.2.2.1) hhead
  have htrx₄ : c₄.transactions = d₂.core.transactions := by
    rw [hsame'.transactions]
    exact congrArg (fun p => p.2.2.2) hhead
  have hnum₅ : c₅.dgp.headBlockNumber ≠ 0 := by rwa [← hend.headBlockNumber]
  have hlate₂ : d₂.core.dgp.time < b.timestamp := by
    rw [htime₂]
    exact hsame.time ▸ hlate
  refine Ledgered.of_sameHead ⟨h₂.nodup, fun trx htrx => ?_⟩ hend
  rcases h₂.spent trx htrx with ⟨r, hr, hrid, hrexp⟩ | ⟨hexpired, -⟩
  · rw [← htrx₄] at hr
    rcases hdrop r hr with hkept | hdropped
    · exact .inl ⟨r, hkept, hrid, hrexp⟩
    · rw [hrexp] at hdropped
      exact .inr ⟨by rwa [hdgp], hnum₅⟩
  · refine .inr ⟨?_, hnum₅⟩
    rw [hdgp, htime₄]
    exact hexpired.trans hlate₂

theorem AppliedChain.ledgered (hid : ExpirationInId env.codec) {blocks : List SignedBlock} {d : Database}
    (h : AppliedChain env blocks d) : Ledgered env (chainTransactions blocks) d.core ∧ Counted d.core := by
  induction h with
  | genesis key =>
    refine ⟨⟨List.nodup_nil, fun trx htrx => absurd htrx List.not_mem_nil⟩, rfl, ?_⟩
    exact (Nat.add_zero genesisTime).le
  | block node b h hskip htime happly ih =>
    obtain ⟨hledgered, hcounted⟩ := ih
    obtain ⟨hcounted', hnonzero⟩ := hcounted.applyBlock htime happly
    rw [chainTransactions, List.flatMap_append, List.flatMap_singleton]
    exact ⟨hledgered.applyBlock hid hskip hnonzero happly, hcounted'⟩

/-- **No transaction is applied twice**: along a chain of blocks applied with default flags the ids of all
transactions are distinct. -/
theorem transaction_ids_nodup (hid : ExpirationInId env.codec) {blocks : List SignedBlock} {d : Database}
    (h : AppliedChain env blocks d) : ((chainTransactions blocks).map env.codec.transactionId).Nodup :=
  (h.ledgered hid).1.nodup

/-- The four transactions of the first sample block. -/
theorem transaction_ids_nodup_moneyBlock :
    AppliedChain sampleEnv [moneyBlock] (sampleAfter moneyBlock (genesis ⟨1⟩)) ∧
      ((chainTransactions [moneyBlock]).map sampleEnv.codec.transactionId).Nodup := by
  have hrun : succeeds (applyBlock sampleEnv {} moneyBlock (genesis ⟨1⟩)) = true := by decide +kernel
  have hchain : AppliedChain sampleEnv [moneyBlock] (sampleAfter moneyBlock (genesis ⟨1⟩)) :=
    (AppliedChain.genesis ⟨1⟩).block {} moneyBlock rfl (by decide +kernel) (eq_ok_of_succeeds hrun)
  exact ⟨hchain, transaction_ids_nodup (fun _ _ h => h) hchain⟩

end Sigmaengine
