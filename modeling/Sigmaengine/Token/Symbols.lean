import Mathlib.Data.List.TakeWhile
import Mathlib.Data.Nat.Digits.Lemmas
import Sigmaengine.Chain.Reached
import Sigmaengine.Ledger.TokenIsolation

/-!
# Symbols of new tokens

The evaluator of `create_token` shifts the letters of the name into a symbol, sign bits included, and reads
the symbols of all stored tokens back.  `PlainName` are the names this is right for: at most six bytes, none
of them zero or above 127.
-/

namespace Sigmaengine.Token

open Sigmaengine Effect Table

variable {upper name : Bytes} {d i : Nat}

/-! ## The bytes of a symbol -/

/-- The symbol with the given decimals and name, least significant byte first. -/
def symbolOf (decimals : UInt8) (name : Bytes) : AssetSymbol := Nat.ofDigits 256 ((decimals :: name).map UInt8.toNat)

theorem symbolByte_ofDigits (bytes : Bytes) (i : Nat) :
    symbolByte (Nat.ofDigits 256 (bytes.map UInt8.toNat)) i = ((bytes[i]?).map UInt8.toNat).getD 0 := by
  unfold symbolByte
  induction bytes generalizing i with
  | nil => simp
  | cons c cs ih =>
    have hc : c.toNat < 256 := c.toNat_lt
    rw [List.map_cons, Nat.ofDigits_cons]
    cases i with
    | zero =>
      simp only [pow_zero, Nat.div_one, List.getElem?_cons_zero, Option.map_some, Option.getD_some]
      omega
    | succ i =>
      rw [List.getElem?_cons_succ, ← ih i, pow_succ', ← Nat.div_div_eq_div_mul]
      congr 2
      omega

theorem symbolByte_symbolOf (c : UInt8) (name : Bytes) (i : Nat) :
    symbolByte (symbolOf c name) (i + 1) = ((name[i]?).map UInt8.toNat).getD 0 := by
  unfold symbolOf
  rw [symbolByte_ofDigits, List.getElem?_cons_succ]

/-- What stands in six bytes before the first zero. -/
theorem takeWhile_padded (hlen : name.length ≤ 6) (hnul : ∀ c ∈ name, c ≠ 0) :
    ((List.range 6).map fun i => UInt8.ofNat (((name[i]?).map UInt8.toNat).getD 0)).takeWhile (· != 0) = name := by
  have hpad : (List.range 6).map (fun i => UInt8.ofNat (((name[i]?).map UInt8.toNat).getD 0)) =
      name ++ List.replicate (6 - name.length) 0 := by
    apply List.ext_getElem?
    intro i
    by_cases hi : i < 6
    · rw [List.getElem?_map, List.getElem?_range hi, Option.map_some]
      by_cases hname : i < name.length
      · rw [List.getElem?_append_left hname, List.getElem?_eq_getElem hname]
        simp
      · rw [List.getElem?_append_right (by omega), List.getElem?_replicate, if_pos (by omega),
          List.getElem?_eq_none (by omega)]
        rfl
    · rw [List.getElem?_eq_none (by simp; omega), List.getElem?_eq_none (by simp; omega)]
  rw [hpad, List.takeWhile_append_of_pos (by simpa using hnul)]
  cases 6 - name.length <;> simp

theorem symbolName_symbolOf {c : UInt8} (hlen : name.length ≤ 6) (hnul : ∀ c ∈ name, c ≠ 0) :
    symbolName (symbolOf c name) = .ok name := by
  have hlast : symbolByte (symbolOf c name) 7 = 0 := by
    rw [symbolByte_symbolOf, List.getElem?_eq_none (by omega)]
    rfl
  unfold symbolName
  rw [if_pos hlast]
  simp only [symbolByte_symbolOf]
  rw [takeWhile_padded hlen hnul]

/-- A name that is read has at most six bytes and no zero among them. -/
theorem symbolName_eq_ok {symbol : AssetSymbol} (h : symbolName symbol = .ok name) :
    symbolByte symbol 7 = 0 ∧ name.length ≤ 6 ∧ ∀ c ∈ name, c ≠ 0 := by
  unfold symbolName at h
  split at h
  next hlast =>
    obtain rfl := Except.ok.inj h
    refine ⟨hlast, ?_, fun c hc => ?_⟩
    · refine le_trans (List.takeWhile_prefix _).length_le ?_
      simp
    · simpa using List.mem_takeWhile_imp hc
  next => cases h

/-! ## The shift loop -/

/-- One letter of the loop. -/
def shiftIn (acc : UInt64) (p : UInt8 × Nat) : UInt64 :=
  acc ||| ((p.1.toUInt64 ||| (if 128 ≤ p.1 then 0xffffffffffffff00 else 0)) <<< (UInt64.ofNat (8 * (p.2 + 1))))

theorem makeSymbol_eq (upper : Bytes) : makeSymbol upper = (upper.zipIdx.foldl shiftIn 6).toNat := rfl

theorem toNat_shift_amount {k : Nat} (hk : k ≤ 6) : (UInt64.ofNat (8 * (k + 1))).toNat % 64 = 8 * (k + 1) := by
  rw [UInt64.toNat_ofNat']
  omega

/-- A letter of ASCII lands above what is there. -/
theorem toNat_shiftIn {acc : UInt64} {c : UInt8} {k : Nat} (hk : k ≤ 6) (hc : c < 128)
    (hacc : acc.toNat < 256 ^ (k + 1)) : (shiftIn acc (c, k)).toNat = acc.toNat + 256 ^ (k + 1) * c.toNat := by
  have hsmall : c.toNat < 128 := UInt8.lt_iff_toNat_lt.mp hc
  have hpow : (2 : Nat) ^ (8 * (k + 1)) = 256 ^ (k + 1) := by rw [pow_mul]; norm_num
  have hfits : c.toNat * 256 ^ (k + 1) < 2 ^ 64 := by
    have hle : 256 ^ (k + 1) ≤ 256 ^ 7 := Nat.pow_le_pow_right (by norm_num) (by omega)
    calc c.toNat * 256 ^ (k + 1) ≤ 127 * 256 ^ 7 := Nat.mul_le_mul (by omega) hle
      _ < 2 ^ 64 := by norm_num
  unfold shiftIn
  dsimp only
  rw [if_neg (UInt8.not_le.mpr hc), UInt64.toNat_or, UInt64.toNat_shiftLeft, toNat_shift_amount hk,
    UInt64.toNat_or, UInt64.toNat_zero, Nat.or_zero, UInt8.toNat_toUInt64, Nat.shiftLeft_eq, hpow,
    Nat.mod_eq_of_lt hfits, Nat.or_comm, Nat.mul_comm c.toNat, ← hpow,
    ← Nat.two_pow_add_eq_or_of_lt (by rw [hpow]; exact hacc)]
  omega

theorem toNat_foldl_shiftIn {k : Nat} {acc : UInt64} (hlen : k + upper.length ≤ 7) (hascii : ∀ c ∈ upper, c < 128)
    (hacc : acc.toNat < 256 ^ (k + 1)) :
    ((upper.zipIdx k).foldl shiftIn acc).toNat =
      acc.toNat + 256 ^ (k + 1) * Nat.ofDigits 256 (upper.map UInt8.toNat) := by
  induction upper generalizing k acc with
  | nil => simp
  | cons c cs ih =>
    rw [List.length_cons] at hlen
    have hstep := toNat_shiftIn (k := k) (by omega) (hascii c (.head _)) hacc
    have hnext : (shiftIn acc (c, k)).toNat < 256 ^ (k + 1 + 1) := by
      have hc : c.toNat < 256 := c.toNat_lt
      calc (shiftIn acc (c, k)).toNat = acc.toNat + 256 ^ (k + 1) * c.toNat := hstep
        _ < 256 ^ (k + 1) + 256 ^ (k + 1) * 255 :=
          Nat.add_lt_add_of_lt_of_le hacc (Nat.mul_le_mul_left _ (by omega))
        _ = 256 ^ (k + 1 + 1) := by rw [pow_succ 256 (k + 1)]; omega
    rw [List.zipIdx_cons, List.foldl_cons, ih (by omega) (fun x hx => hascii x (.tail _ hx)) hnext, hstep,
      List.map_cons, Nat.ofDigits_cons, pow_succ 256 (k + 1)]
    ring

/-- **Letters of ASCII** are packed one to a byte. -/
theorem makeSymbol_ascii (hlen : upper.length ≤ 7) (hascii : ∀ c ∈ upper, c < 128) :
    makeSymbol upper = symbolOf 6 upper := by
  rw [makeSymbol_eq, toNat_foldl_shiftIn (by omega) hascii (by decide)]
  unfold symbolOf
  rw [List.map_cons, Nat.ofDigits_cons]
  rfl

theorem testBit_foldl_shiftIn {cs : List (UInt8 × Nat)} {acc : UInt64} {j : Nat} (h : acc.toNat.testBit j = true) :
    (cs.foldl shiftIn acc).toNat.testBit j = true := by
  induction cs generalizing acc with
  | nil => exact h
  | cons p cs ih =>
    refine ih ?_
    unfold shiftIn
    rw [UInt64.toNat_or, Nat.testBit_or, h, Bool.true_or]

/-- A letter above 127 sets the sign bit of the whole symbol. -/
theorem testBit_shiftIn {acc : UInt64} {c : UInt8} {k : Nat} (hk : k ≤ 6) (hc : 128 ≤ c) :
    (shiftIn acc (c, k)).toNat.testBit 63 = true := by
  have hlarge : 128 ≤ c.toNat := UInt8.le_iff_toNat_le.mp hc
  have hsmall : c.toNat < 256 := c.toNat_lt
  unfold shiftIn
  dsimp only
  rw [if_pos hc, UInt64.toNat_or, Nat.testBit_or, UInt64.toNat_shiftLeft, toNat_shift_amount hk,
    Nat.testBit_mod_two_pow, Nat.testBit_shiftLeft, UInt64.toNat_or, Nat.testBit_or, UInt8.toNat_toUInt64]
  have hextended : c.toNat.testBit (63 - 8 * (k + 1)) || (0xffffffffffffff00 : UInt64).toNat.testBit (63 - 8 * (k + 1)) := by
    by_cases hlast : k = 6
    · subst hlast
      have hbit : c.toNat.testBit 7 = true := by
        rw [Nat.testBit_eq_decide_div_mod_eq]
        simp
        omega
      rw [hbit, Bool.true_or]
    · have hbits : ∀ k < 6, (0xffffffffffffff00 : UInt64).toNat.testBit (63 - 8 * (k + 1)) = true := by decide
      rw [hbits k (by omega), Bool.or_true]
  rw [hextended]
  simp
  omega

theorem symbolByte_high (hlen : upper.length ≤ 7) (hhigh : ∃ c ∈ upper, 128 ≤ c) :
    symbolByte (makeSymbol upper) 7 ≠ 0 := by
  have hbit : (makeSymbol upper).testBit 63 = true := by
    obtain ⟨c, hc, hlarge⟩ := hhigh
    obtain ⟨before, behind, rfl⟩ := List.append_of_mem hc
    rw [List.length_append, List.length_cons] at hlen
    rw [makeSymbol_eq, List.zipIdx_append, List.foldl_append, List.zipIdx_cons, List.foldl_cons]
    exact testBit_foldl_shiftIn (testBit_shiftIn (by omega) hlarge)
  rw [Nat.testBit_eq_decide_div_mod_eq, decide_eq_true_eq] at hbit
  unfold symbolByte
  intro hzero
  omega

/-! ## Names that are read back -/

/-- A name the symbol has room for. -/
def PlainName (name : Bytes) : Prop := name.length ≤ 6 ∧ ∀ c ∈ name, c ≠ 0 ∧ c < 128

instance : DecidablePred PlainName := fun _ => inferInstanceAs (Decidable (_ ∧ _))

/-- **The name of a made symbol** is the name it was made of exactly for plain names. -/
theorem symbolName_makeSymbol_iff (hlen : upper.length < 8) :
    symbolName (makeSymbol upper) = .ok upper ↔ PlainName upper := by
  constructor
  · intro h
    obtain ⟨hlast, hshort, hnul⟩ := symbolName_eq_ok h
    refine ⟨hshort, fun c hc => ⟨hnul c hc, UInt8.not_le.mp fun hhigh => ?_⟩⟩
    exact symbolByte_high (by omega) ⟨c, hc, hhigh⟩ hlast
  · rintro ⟨hshort, hplain⟩
    rw [makeSymbol_ascii (by omega) fun c hc => (hplain c hc).2]
    exact symbolName_symbolOf hshort fun c hc => (hplain c hc).1

theorem plainName_toUpper (name : Bytes) : PlainName (toUpper name) ↔ PlainName name := by
  have hletter : ∀ c : UInt8, ((if 97 ≤ c && c ≤ 122 then c - 32 else c) ≠ 0 ∧
      (if 97 ≤ c && c ≤ 122 then c - 32 else c) < 128) ↔ (c ≠ 0 ∧ c < 128) := by
    intro c
    have hall : ∀ n < 256, ((if 97 ≤ UInt8.ofNat n && UInt8.ofNat n ≤ 122 then UInt8.ofNat n - 32 else UInt8.ofNat n) ≠ 0 ∧
        (if 97 ≤ UInt8.ofNat n && UInt8.ofNat n ≤ 122 then UInt8.ofNat n - 32 else UInt8.ofNat n) < 128) ↔
        (UInt8.ofNat n ≠ 0 ∧ UInt8.ofNat n < 128) := by decide +kernel
    have hc := hall c.toNat c.toNat_lt
    rwa [UInt8.ofNat_toNat] at hc
  unfold PlainName toUpper
  rw [List.length_map, List.forall_mem_map]
  simp only [hletter]

/-! ## The scan of the stored symbols -/

theorem symbolUnused_eq_ok {rows : List (Nat × TokenObject)} :
    symbolUnused upper rows = .ok () ↔ ∀ r ∈ rows, ∃ n, symbolName r.2.initSupply.symbol = .ok n ∧ n ≠ upper := by
  induction rows with
  | nil => simp [symbolUnused]
  | cons r rows ih =>
    rw [List.forall_mem_cons, ← ih, symbolUnused]
    cases hname : symbolName r.2.initSupply.symbol with
    | error e => simp
    | ok n =>
      by_cases hsame : n = upper
      · simp [hsame]
      · simp [hsame]

/-- A token whose name is read and is another one does not matter. -/
theorem symbolUnused_filter {rows : List (Nat × TokenObject)} {id : Nat}
    (h : ∀ r ∈ rows, r.1 = id → ∃ n, symbolName r.2.initSupply.symbol = .ok n ∧ n ≠ upper) :
    symbolUnused upper rows = .ok () ↔ symbolUnused upper (rows.filter (·.1 != id)) = .ok () := by
  rw [symbolUnused_eq_ok, symbolUnused_eq_ok]
  constructor
  · intro hall r hr
    exact hall r (List.mem_of_mem_filter hr)
  · intro hall r hr
    by_cases hid : r.1 = id
    · exact h r hr hid
    · exact hall r (List.mem_filter.mpr ⟨hr, by simpa using hid⟩)

/-! ## What is stored -/

variable {v : CoreView} {s s' : TokenIndices} {u : Unit} {op : CreateTokenOperation}

/-- The token an operation stores, when a unit of it has the given number of parts. -/
def newToken (v : CoreView) (op : CreateTokenOperation) (unit : ℤ) : TokenObject :=
  let symbol := makeSymbol (toUpper op.symbolName)
  let supply : Asset := ⟨op.initSupplyAmount * unit, symbol⟩
  { name := op.name, symbol := symbol, publisher := op.publisher, dappName := op.dappName, initSupply := supply,
    totalBalance := supply, created := v.now, lastUpdated := v.now }

theorem storeToken_eq_ok (h : storeToken v op s = .ok u s') :
    symbolName sgtSymbol ≠ .ok (toUpper op.symbolName) ∧
      ∃ unit hc, s'.tokens = s.tokens.insert (newToken v op unit) hc := by
  simp only [storeToken, bind_eq_ok, findIn_eq_ok, checked_eq_ok, fcAssert_eq_ok, get_eq_ok, createIn_eq_ok] at h
  obtain ⟨_, _, ⟨-, rfl⟩, _, _, ⟨-, rfl⟩, _, _, ⟨-, rfl⟩, _, _, ⟨-, rfl⟩, sgtName, _, ⟨hsgt, rfl⟩, _,
    _, ⟨hother, rfl⟩, _, _, ⟨rfl, rfl⟩, _, _, ⟨-, rfl⟩, unit, _, ⟨-, rfl⟩, id, _, ⟨hc, -, rfl⟩, hopen⟩ := h
  have htokens := (always_openBalance sameTokens_balances v op _).runs _ _ _ hopen
  refine ⟨fun heq => ?_, unit, hc, htokens⟩
  rw [hsgt] at heq
  simp [Except.ok.inj heq] at hother

/-! ## What later operations leave of it -/

/-- No token goes away or changes its symbol. -/
def SymbolsStay (s s' : TokenIndices) : Prop :=
  Retains (fun t : TokenObject => (t.symbol, t.initSupply)) s.tokens s'.tokens

instance : Std.Refl SymbolsStay := ⟨fun s => Retains.refl s.tokens⟩

instance : IsTrans TokenIndices SymbolsStay := ⟨fun _ _ _ h h' => Retains.trans h h'⟩

theorem SameTokens.symbolsStay (h : SameTokens s s') : SymbolsStay s s' := by
  unfold SymbolsStay
  rw [show s'.tokens = s.tokens from h]
  exact Retains.refl _

theorem symbolsStay_modify {id : Nat} {f : TokenObject → Except Error TokenObject}
    (hf : ∀ a b, f a = .ok b → (b.symbol, b.initSupply) = (a.symbol, a.initSupply))
    (h : modifyIn Index.tokens id f s = .ok u s') : SymbolsStay s s' := by
  obtain ⟨a, b, hc, ha, hfa, rfl⟩ := modifyIn_eq_ok.mp h
  exact retains_replace ha hc (hf a b hfa)

theorem symbolsStay_total {id : Nat} {g : TokenObject → Except Error Asset} (now : TokenObject → TimePointSec)
    (h : modifyIn Index.tokens id (fun t => (g t).map fun a => { t with totalBalance := a, lastUpdated := now t }) s =
      .ok u s') : SymbolsStay s s' := by
  refine symbolsStay_modify (fun a b hf => ?_) h
  cases hg : g a with
  | error e => simp [hg, Except.map] at hf
  | ok total =>
    rw [hg] at hf
    cases hf
    rfl

theorem symbolsStay_issueToken {op : IssueTokenOperation} {token : Nat × TokenObject}
    (h : issueToken v op token s = .ok u s') : SymbolsStay s s' := by
  simp only [issueToken, bind_eq_ok, checked_eq_ok, fcAssert_eq_ok] at h
  obtain ⟨_, _, ⟨-, rfl⟩, _, _, ⟨-, rfl⟩, _, _, ⟨-, rfl⟩, _, _, ⟨-, rfl⟩, _, _, ⟨-, rfl⟩, _, t, hmodify, hcredit⟩ := h
  have hsame := (always_creditIssue sameTokens_balances v op).runs _ _ _ hcredit
  exact IsTrans.trans (r := SymbolsStay) _ _ _ (symbolsStay_total (fun _ => v.now) hmodify) hsame.symbolsStay

theorem symbolsStay_burnToken {op : BurnTokenOperation} {token : Nat × TokenObject}
    (h : burnToken v op token s = .ok u s') : SymbolsStay s s' := by
  simp only [burnToken, bind_eq_ok, checked_eq_ok] at h
  obtain ⟨_, _, ⟨-, rfl⟩, _, t, hadjust, hmodify⟩ := h
  have hsame := (always_adjustSide sameTokens_balances v .balance _ _ _).runs _ _ _ hadjust
  exact IsTrans.trans (r := SymbolsStay) _ _ _ hsame.symbolsStay (symbolsStay_total TokenObject.lastUpdated hmodify)

theorem symbolsStay_storeToken (h : storeToken v op s = .ok u s') : SymbolsStay s s' := by
  obtain ⟨-, unit, hc, htokens⟩ := storeToken_eq_ok h
  unfold SymbolsStay
  rw [htokens]
  exact retains_insert s.tokens hc

theorem symbolsStay_tokenEvaluator (interest : TokenInterest) (op : TokenOperation) :
    Runs (OnTokens SymbolsStay) (tokenEvaluator interest op) := by
  intro d u d' h
  have hstep := tokenStep_of_evaluator h
  by_cases hop : changesTotal op = false
  · exact SameTokens.symbolsStay ((sameTokens_tokenEvaluator interest op hop).runs _ _ _ h)
  · cases op with
    | createToken op => exact symbolsStay_storeToken hstep
    | issueToken op =>
      obtain ⟨r, -, -, hissue⟩ := hstep
      exact symbolsStay_issueToken hissue
    | burnToken op =>
      obtain ⟨r, -, -, hburn⟩ := hstep
      exact symbolsStay_burnToken hburn
    | _ => exact absurd rfl hop

/-- Nothing a node does removes a token or changes its symbol. -/
theorem pluginFrame_symbolsStay (env : Env) : PluginFrame env (OnTokens SymbolsStay) where
  core d _ := Std.Refl.refl (r := SymbolsStay) d.token
  dapp op := (onTokens_dappEvaluator env.fc op).runs
  token op := symbolsStay_tokenEvaluator env.tokenInterest op
  dappHandler := onTokens_dappOnApplyBlock
  tokenHandler := sameTokens_tokenOnApplyBlock.mono fun _ _ h => SameTokens.symbolsStay h

/-- The states operations are run in from `d` on: those that blocks and transactions lead to, whatever the
chain has done to its own indices since, and those after one more operation of a plugin. -/
inductive Onward (env : Env) (d : Database) : Database → Prop
  | here : Onward env d d
  | block {e e' : Database} (node : Node) (b : SignedBlock) (h : Onward env d e)
      (happly : applyBlock env node b e = .ok () e') : Onward env d e'
  | transaction {e e' : Database} (node : Node) (trx : SignedTransaction) (h : Onward env d e)
      (happly : applyTransaction env node trx e = .ok () e') : Onward env d e'
  | core {e : Database} (c : Core) (h : Onward env d e) : Onward env d { e with core := c }
  | dapp {e e' : Database} (op : Dapp.DappOperation) (h : Onward env d e)
      (hrun : Dapp.dappEvaluator env.fc op e = .ok () e') : Onward env d e'
  | token {e e' : Database} (op : TokenOperation) (h : Onward env d e)
      (hrun : tokenEvaluator env.tokenInterest op e = .ok () e') : Onward env d e'

theorem Onward.frame {env : Env} {R : Database → Database → Prop} [Std.Refl R] [IsTrans Database R]
    (hR : PluginFrame env R) {d e : Database} (h : Onward env d e) : R d e := by
  induction h with
  | here => exact Std.Refl.refl d
  | block node b _ happly ih => exact IsTrans.trans _ _ _ ih ((hR.applyBlock node b).runs _ _ _ happly)
  | transaction node trx _ happly ih => exact IsTrans.trans _ _ _ ih ((hR.applyTransaction node trx).runs _ _ _ happly)
  | core c _ ih => exact IsTrans.trans _ _ _ ih (hR.core _ c)
  | dapp op _ hrun ih => exact IsTrans.trans _ _ _ ih (hR.dapp op _ _ _ hrun)
  | token op _ hrun ih => exact IsTrans.trans _ _ _ ih (hR.token op _ _ _ hrun)

/-! ## The symbol of a created token -/

/-- The new token has six decimals and the requested name in capitals, its symbol is neither that of the chain
nor that of another token, now or later, and no scan on behalf of another name fails because of it. -/
def SymbolServes (env : Env) (op : CreateTokenOperation) (d d' : Database) : Prop :=
  ∃ id t, d.token.tokens.lookup id = none ∧ d'.token.tokens.lookup id = some t ∧ symbolByte t.symbol 0 = 6 ∧
    t.initSupply.symbol = t.symbol ∧ symbolName t.initSupply.symbol = .ok (toUpper op.symbolName) ∧
    t.symbol ≠ sgtSymbol ∧
    ∀ e, Onward env d' e → (∀ r ∈ e.token.tokens.rows, r.1 ≠ id → r.2.symbol ≠ t.symbol) ∧
      ∀ op' : CreateTokenOperation, toUpper op'.symbolName ≠ toUpper op.symbolName →
        (symbolUnused (toUpper op'.symbolName) e.token.tokens.rows = .ok () ↔
          symbolUnused (toUpper op'.symbolName) (e.token.tokens.rows.filter (·.1 != id)) = .ok ())

theorem symbolServes_iff_name {env : Env} {d d' : Database} (hlen : op.symbolName.length < 8)
    (h : createTokenEvaluator op d = .ok () d') :
    SymbolServes env op d d' ↔ symbolName (makeSymbol (toUpper op.symbolName)) = .ok (toUpper op.symbolName) := by
  have hrun : tokenEvaluator env.tokenInterest (.createToken op) d = .ok () d' := h
  have hstep : storeToken (coreView d.core) op d.token = .ok () d'.token := tokenStep_of_evaluator hrun
  obtain ⟨hsgt, unit, hc, htokens⟩ := storeToken_eq_ok hstep
  constructor
  · rintro ⟨id, t, hnone, ht, -, -, hname, -, -⟩
    rw [htokens, lookup_insert] at ht
    split at ht
    · obtain rfl := Option.some.inj ht
      exact hname
    · rw [hnone] at ht
      cases ht
  · intro hname
    have hnew : d'.token.tokens.lookup d.token.tokens.nextId = some (newToken (coreView d.core) op unit) := by
      rw [htokens, lookup_insert, if_pos rfl]
    have hnone : d.token.tokens.lookup d.token.tokens.nextId = none := by
      rw [Option.eq_none_iff_forall_ne_some]
      intro t ht
      exact absurd (d.token.tokens.fresh _ (lookup_eq_some.mp ht)) (lt_irrefl _)
    refine ⟨_, _, hnone, hnew, ?_, rfl, hname, ?_, ?_⟩
    · have hmod := makeSymbol_mod (toUpper op.symbolName) (by simpa [toUpper] using hlen)
      show makeSymbol (toUpper op.symbolName) / 256 ^ 0 % 256 = 6
      rwa [pow_zero, Nat.div_one]
    · intro heq
      exact hsgt (heq ▸ hname)
    · intro e he
      have hstay : SymbolsStay d'.token e.token := he.frame (R := OnTokens SymbolsStay) (pluginFrame_symbolsStay env)
      obtain ⟨t, ht, hkey⟩ := hstay _ _ hnew
      obtain ⟨hsymbol, hsupply⟩ := Prod.ext_iff.mp hkey
      have hrow := lookup_eq_some.mp ht
      refine ⟨fun r hr hid heq => ?_, fun op' hother => symbolUnused_filter fun r hr hid => ?_⟩
      · have hclash : Clash.clash r.2 t = true := by simp [Clash.clash, heq.trans hsymbol.symm]
        exact hid (congrArg Prod.fst (eq_of_clash hr hrow hclash))
      · have hrt : r.2 = t := eq_of_mem (i := r.1) hr (by rw [hid]; exact hrow)
        refine ⟨_, ?_, hother.symm⟩
        rw [hrt, show t.initSupply = _ from hsupply]
        exact hname

/-- **The symbol of a created token** is what it should be exactly for plain names. -/
theorem create_token_symbol (env : Env) (op : CreateTokenOperation) (d d' : Database)
    (hvalid : ∀ c ∈ op.validate, c.holds = true) (happly : createTokenEvaluator op d = .ok () d') :
    SymbolServes env op d d' ↔ PlainName op.symbolName := by
  have hlen : op.symbolName.length < 8 := by
    simp only [CreateTokenOperation.validate, List.forall_mem_cons, decide_eq_true_eq, Bool.and_eq_true] at hvalid
    exact hvalid.2.2.2.1.2
  rw [symbolServes_iff_name hlen happly, symbolName_makeSymbol_iff (by simpa [toUpper] using hlen), plainName_toUpper]

/-- The two dapps without tokens. -/
def twoDappState : Database := after (applyBlock isolationEnv {} twoDappBlock (genesis ⟨1⟩))

def createShopToken (symbolName : Bytes) : CreateTokenOperation :=
  { name := named "coin", symbolName := symbolName, publisher := rootAccount, dappName := named "shop",
    dappKey := ⟨1⟩, initSupplyAmount := 5 }

def createMallToken : CreateTokenOperation :=
  { name := named "gem", symbolName := ascii ['g', 'm'], publisher := rootAccount, dappName := named "mall",
    dappKey := ⟨1⟩, initSupplyAmount := 5 }

/-- The state after the first dapp has created its token. -/
def shopTokenState (symbolName : Bytes) : Database :=
  after (createTokenEvaluator (createShopToken symbolName) twoDappState)

theorem create_token_symbol_sixLetters :
    let name := ascii ['c', 'o', 'p', 'p', 'e', 'r']
    PlainName name ∧ SymbolServes isolationEnv (createShopToken name) twoDappState (shopTokenState name) := by
  intro name
  have hrun : (∀ c ∈ (createShopToken name).validate, c.holds = true) ∧
      succeeds (createTokenEvaluator (createShopToken name) twoDappState) = true := by decide +kernel
  have hplain : PlainName name := by decide +kernel
  exact ⟨hplain, (create_token_symbol isolationEnv _ _ _ hrun.1 (eq_ok_of_succeeds hrun.2)).mpr hplain⟩

/-- A name of seven letters passes validation, and no token can be created after it. -/
theorem seven_letters_block_every_token :
    let name := ascii ['c', 'o', 'p', 'p', 'e', 'r', 's']
    Reached isolationEnv twoDappState ∧ (∀ c ∈ (createShopToken name).validate, c.holds = true) ∧
      createTokenEvaluator (createShopToken name) twoDappState = .ok () (shopTokenState name) ∧
      (∀ c ∈ createMallToken.validate, c.holds = true) ∧
      succeeds (createTokenEvaluator createMallToken twoDappState) = true ∧
      succeeds (createTokenEvaluator createMallToken (shopTokenState name)) = false ∧
      ¬ SymbolServes isolationEnv (createShopToken name) twoDappState (shopTokenState name) := by
  intro name
  have hrun : succeeds (applyBlock isolationEnv {} twoDappBlock (genesis ⟨1⟩)) = true ∧
      (∀ c ∈ (createShopToken name).validate, c.holds = true) ∧
      succeeds (createTokenEvaluator (createShopToken name) twoDappState) = true ∧
      (∀ c ∈ createMallToken.validate, c.holds = true) ∧
      succeeds (createTokenEvaluator createMallToken twoDappState) = true ∧
      succeeds (createTokenEvaluator createMallToken (shopTokenState name)) = false := by decide +kernel
  obtain ⟨hblock, hvalid, hcreate, hvalid', hfirst, hsecond⟩ := hrun
  have happly : createTokenEvaluator (createShopToken name) twoDappState = .ok () (shopTokenState name) :=
    eq_ok_of_succeeds hcreate
  refine ⟨.block {} twoDappBlock (.genesis ⟨1⟩) (eq_ok_of_succeeds hblock), hvalid, happly, hvalid', hfirst, hsecond, ?_⟩
  rw [symbolServes_iff_name (by decide) happly, symbolName_makeSymbol_iff (by decide), plainName_toUpper]
  decide +kernel

end Sigmaengine.Token
