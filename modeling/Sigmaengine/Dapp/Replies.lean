import Sigmaengine.Dapp.CommentTree
import Sigmaengine.Protocol.Names

/-!
# A thread that outgrows its counter

The number of descendants is a 32-bit number.  Accounts cost nothing, and every account that joins the dapp
may reply once right away, so a thread gets as many replies as there are names; after 2^32 of them the comment
they answer counts none.
-/

namespace Sigmaengine

open Effect Table Dapp Bytes

/-! ## Names -/

/-- `k` letters from a to p: the last digits of `n` to the base 16. -/
def letters : Nat → Nat → Bytes
  | 0, _ => []
  | k + 1, n => UInt8.ofNat (97 + n % 16) :: letters k (n / 16)

theorem length_letters (k n : Nat) : (letters k n).length = k := by
  induction k generalizing n with
  | zero => rfl
  | succ k ih => rw [letters, List.length_cons, ih]

theorem toNat_letter (n : Nat) : (UInt8.ofNat (97 + n % 16)).toNat = 97 + n % 16 := by
  have hlt : 97 + n % 16 < 256 := by omega
  rw [UInt8.toNat_ofNat']
  exact Nat.mod_eq_of_lt hlt

theorem isLetter_of_mem_letters {k n : Nat} {c : UInt8} (h : c ∈ letters k n) : isLetter c = true := by
  induction k generalizing n with
  | zero => cases h
  | succ k ih =>
    rcases List.mem_cons.mp h with rfl | h
    · have hnat := toNat_letter n
      simp only [isLetter, Bool.or_eq_true, Bool.and_eq_true, decide_eq_true_eq, UInt8.le_iff_toNat_le]
      left
      constructor
      · show 97 ≤ _
        omega
      · show _ ≤ 122
        omega
    · exact ih h

theorem letters_inj {k n m : Nat} (hn : n < 16 ^ k) (hm : m < 16 ^ k) (h : letters k n = letters k m) : n = m := by
  induction k generalizing n m with
  | zero =>
    rw [Nat.pow_zero] at hn hm
    omega
  | succ k ih =>
    obtain ⟨hdigit, hrest⟩ := List.cons.inj h
    have hlast : 97 + n % 16 = 97 + m % 16 := by
      rw [← toNat_letter n, hdigit, toNat_letter]
    rw [Nat.pow_succ] at hn hm
    have hhigh : n / 16 = m / 16 := ih (by omega) (by omega) hrest
    omega

theorem text_stored {w : Nat} {s : Bytes} (hlen : s.length ≤ w) (hs : ∀ c ∈ s, c ≠ 0) : text (stored w s) = s := by
  have htake : s.take w = s := List.take_of_length_le hlen
  unfold text stored
  rw [htake]
  by_cases hfull : w - s.length = 0
  · rw [hfull, List.replicate_zero, List.append_nil, if_neg]
    exact fun hlast => hs 0 (List.mem_of_getLast? hlast) rfl
  · have hlast : (s ++ List.replicate (w - s.length) 0).getLast? = some 0 := by
      obtain ⟨j, hj⟩ := Nat.exists_eq_succ_of_ne_zero hfull
      rw [hj, List.replicate_succ', ← List.append_assoc, List.getLast?_concat]
    rw [if_pos hlast, List.takeWhile_append_of_pos fun c hc => by simpa using hs c hc]
    have hzeros : (List.replicate (w - s.length) (0 : UInt8)).takeWhile (· != 0) = [] := by
      rw [List.takeWhile_replicate]
      rfl
    rw [hzeros, List.append_nil]

/-- The name of the account that gives the reply with number `n`. -/
def replierText (n : Nat) : Bytes := 114 :: letters 9 n

def replier (n : Nat) : AccountName := .ofBytes (replierText n)

theorem toBytes_replier (n : Nat) : (replier n).toBytes = replierText n := by
  unfold replier
  rw [FixedString.toBytes_eq_text, FixedString.raw_ofBytes]
  refine text_stored ?_ ?_
  · rw [replierText, List.length_cons, length_letters]
    omega
  · intro c hc
    rcases List.mem_cons.mp hc with rfl | hc
    · decide
    · rintro rfl
      exact absurd (isLetter_of_mem_letters hc) (by decide)

theorem replier_inj {n m : Nat} (hn : n < 16 ^ 9) (hm : m < 16 ^ 9) (h : replier n = replier m) : n = m := by
  have hbytes := congrArg FixedString.toBytes h
  rw [toBytes_replier, toBytes_replier] at hbytes
  exact letters_inj hn hm (List.cons.inj hbytes).2

theorem isValidAccountName_replier (n : Nat) : isValidAccountName (replier n).toBytes = true := by
  have hletters : ∀ c ∈ replierText n, isLetter c = true := by
    intro c hc
    rcases List.mem_cons.mp hc with rfl | hc
    · decide
    · exact isLetter_of_mem_letters hc
  have hlen : (replierText n).length = 10 := by rw [replierText, List.length_cons, length_letters]
  rw [toBytes_replier]
  have hlast : ((replierText n).getLast?.map fun c => isLetter c || isDigit c).getD false = true := by
    have hne : replierText n ≠ [] := List.cons_ne_nil _ _
    rw [List.getLast?_eq_getLast_of_ne_nil hne, Option.map_some, Option.getD_some, hletters _ (List.getLast_mem hne)]
    rfl
  have hmiddle : ((replierText n).drop 1).dropLast.all (fun c => isLetter c || isDigit c || c == 45) = true := by
    refine List.all_eq_true.mpr fun c hc => ?_
    rw [hletters c (List.mem_of_mem_drop (List.mem_of_mem_dropLast hc))]
    rfl
  simp only [isValidAccountName, hlen, hlast, hmiddle, Bool.and_true]
  rfl

/-! ## Operations -/

/-- A node that takes transactions without looking at signatures or at the block they refer to. -/
def openNode : Node :=
  { skip := { transactionSignatures := true, transactionDupeCheck := true, taposCheck := true, authorityCheck := true } }

theorem applyOperation_forum {o : CustomDappOperation} {op : DappOperation} {d d' : Database}
    (hid : o.id = ascii ['d', 'a', 'p', 'p']) (hdecode : unpackForum o.payload = some [op])
    (hvalid : ∀ c ∈ op.validate forumEnv.fc, c.holds = true)
    (hauth : op.getRequiredAuthorities {} = (Operation.customBinary o).getRequiredAuthorities {})
    (hrun : dappEvaluator forumEnv.fc op d = .ok () d') :
    applyOperation forumEnv openNode (.customBinary o) d = .ok () d' := by
  have heach : each (dappEvaluator forumEnv.fc) [op] d = .ok () d' := bind_eq_ok.mpr ⟨(), d', hrun, rfl⟩
  have hops : applyDappPayload forumEnv (.binary o.payload) ((Operation.customBinary o).getRequiredAuthorities {}) d =
      .ok () d' := by
    refine bind_eq_ok.mpr ⟨[op], d, ofOption_eq_ok.mpr ⟨hdecode, rfl⟩, ?_⟩
    simp only [applyOperations, atomically_eq_ok, bind_eq_ok, each_checked_eq_ok, fcAssert, assert_eq_ok,
      List.foldl_cons, List.foldl_nil, hauth, beq_self_eq_true, true_and]
    refine ⟨(), d, ⟨fun p hp => ?_, rfl⟩, (), d, rfl, (), d, rfl, (), d, rfl, (), d, rfl, heach⟩
    rw [List.mem_singleton.mp hp]
    exact runChecks_eq_ok.mpr hvalid
  have hinterpret : interpret forumEnv o.id (.binary o.payload) ((Operation.customBinary o).getRequiredAuthorities {}) d =
      .ok () d' := by
    unfold interpret
    rw [if_pos ⟨hid, by decide⟩]
    exact hops
  show (attempt _ : ChainM Unit) d = _
  exact attempt_eq_ok.mpr (by rw [hinterpret, after_ok])

/-- The account with a name. -/
theorem find_account {t : Table AccountObject} {r : Nat × AccountObject} (hr : r ∈ t.rows) {name : AccountName}
    (hname : r.2.name = name) : t.find? (fun a => a.name == name) = some r := by
  refine find?_of_mem hr (beq_iff_eq.mpr hname) fun a ha => ?_
  show (a.name == r.2.name) = true
  rw [hname]
  exact ha

theorem replace_self {α : Type} [Clash α] {t : Table α} {id : Nat} {a : α} (ha : t.lookup id = some a)
    (h : t.clashes id a = false) : t.replace id a h = t := by
  have hrows : (t.rows.map fun r => if r.1 = id then (r.1, a) else r) = t.rows := by
    refine (List.map_congr_left fun r hr => ?_).trans (List.map_id _)
    split
    next hid =>
      have hra : r.2 = a := eq_of_mem (i := id) (by rw [← hid]; exact hr) (lookup_eq_some.mp ha)
      rw [← hra]
      rfl
    next => rfl
  cases t
  simp only [Table.replace, Table.mk.injEq, and_true]
  exact hrows

/-- A fee of nothing is always paid. -/
theorem withDappFee_free {payer : AccountName} {m : ChainM Unit} {d d₁ : Database} {r : Nat × AccountObject}
    {a : AccountObject} (hfee : d.core.dgp.dappTransactionFee = 0)
    (hpayer : d.core.accounts.find? (fun x => x.name == payer) = some r) (hafford : r.2.balance = 0)
    (hm : m d = .ok () d₁) (hrow : d₁.core.accounts.lookup r.1 = some a) (hbalance : a.balance = 0)
    (hfund : d₁.core.dappRewardFund.fundBalance = 0) :
    withDappFee payer m d =
      .ok () { d₁ with core := { d₁.core with dappRewardFund := ⟨0, d₁.core.dgp.time⟩ } } := by
  have hcheck : onCore (checkDappFee payer) d = .ok (r.1, 0) d := by
    refine onCore_eq_ok.mpr ⟨d.core, ?_, rfl⟩
    simp only [checkDappFee, getAccount, bind_eq_ok, get_eq_ok, getIn_eq_ok, fcAssert, assert_eq_ok, pure_eq_ok]
    refine ⟨d.core, d.core, ⟨rfl, rfl⟩, r, d.core, ⟨hpayer, rfl⟩, (), d.core, ⟨?_, rfl⟩, ?_, rfl⟩
    · rw [hfee, hafford]
      rfl
    · rw [hfee]
  have hself : d₁.core.accounts.clashes r.1 a = false := clashes_of_keys hrow fun _ => rfl
  have hpay : onCore (payDappFee (r.1, 0)) d₁ =
      .ok () { d₁ with core := { d₁.core with dappRewardFund := ⟨0, d₁.core.dgp.time⟩ } } := by
    refine onCore_eq_ok.mpr ⟨_, bind_eq_ok.mpr ⟨sgt 0, d₁.core, rfl, bind_eq_ok.mpr ⟨(), d₁.core, ?_, ?_⟩⟩, rfl⟩
    · refine modifyIn_eq_ok.mpr ⟨a, a, hself, hrow, ?_, ?_⟩
      · rw [hbalance]
        show Except.ok { a with balance := 0 } = _
        rw [← hbalance]
      · exact (congrArg (fun t => ({ d₁.core with accounts := t } : Core)) (replace_self hrow hself)).symm
    · refine bind_eq_ok.mpr ⟨d₁.core, d₁.core, rfl, bind_eq_ok.mpr ⟨0, d₁.core, ?_, rfl⟩⟩
      rw [hfund]
      rfl
  exact bind_eq_ok.mpr ⟨_, d, hcheck, bind_eq_ok.mpr ⟨(), d₁, hm, hpay⟩⟩

theorem unpackText_packText {text : Bytes} (h : text.length < 128) (rest : Bytes) :
    unpackText (packText text ++ rest) = some (text, rest) := by
  have hnat : (UInt8.ofNat text.length).toNat = text.length := by
    rw [UInt8.toNat_ofNat']
    exact Nat.mod_eq_of_lt (by omega)
  have hle : text.length ≤ (text ++ rest).length := by
    rw [List.length_append]
    omega
  show (if (UInt8.ofNat text.length).toNat < 128 ∧ (UInt8.ofNat text.length).toNat ≤ (text ++ rest).length then
    some ((text ++ rest).take (UInt8.ofNat text.length).toNat, (text ++ rest).drop (UInt8.ofNat text.length).toNat)
    else none) = _
  rw [hnat, if_pos ⟨h, hle⟩, List.take_left, List.drop_left]

theorem unpackTexts_packTexts (texts : List Bytes) (h : ∀ t ∈ texts, t.length < 128) :
    unpackTexts texts.length (texts.flatMap packText) = some (texts, []) := by
  induction texts with
  | nil => rfl
  | cons t ts ih =>
    have hrest := ih fun u hu => h u (List.mem_cons_of_mem _ hu)
    rw [List.flatMap_cons, List.length_cons, unpackTexts, unpackText_packText (h t List.mem_cons_self)]
    dsimp only
    rw [hrest]
    rfl

/-! ## One reply -/

def shop : DappName := named "shop"

def hello : Bytes := ascii ['h', 'e', 'l', 'l', 'o']

def createReplier (n : Nat) : AccountCreateOperation :=
  { creator := initMinerName, newAccountName := replier n, owner := .ofKey ⟨1⟩, active := .ofKey ⟨1⟩,
    posting := .ofKey ⟨1⟩, memoKey := ⟨1⟩, jsonMetadata := [] }

/-- The replier joins the shop. -/
def joinShop (n : Nat) : CustomDappOperation :=
  ⟨[], [replier n], [], [], ascii ['d', 'a', 'p', 'p'], 1 :: 5 :: [replierText n, ascii "shop".toList].flatMap packText⟩

/-- What the replier writes under the comment of root. -/
def replyTexts (n : Nat) : List Bytes :=
  [ascii "shop".toList, ascii "root".toList, hello, replierText n, hello, ascii "Re".toList, ascii "Hi".toList, []]

def replyToRoot (n : Nat) : CustomDappOperation :=
  ⟨[], [], [replier n], [], ascii ['d', 'a', 'p', 'p'], 1 :: 2 :: (replyTexts n).flatMap packText⟩

/-- An account is created, joins and replies. -/
def replyTransaction (n : Nat) : SignedTransaction :=
  { refBlockNum := 0, refBlockPrefix := 0, expiration := genesisTime + 60,
    operations := [.accountCreate (createReplier n), .customBinary (joinShop n), .customBinary (replyToRoot n)],
    signatures := [] }

/-- The operation inside. -/
def reply (n : Nat) : CommentDappOperation :=
  ⟨shop, rootAccount, hello, replier n, hello, ascii "Re".toList, ascii "Hi".toList, []⟩

theorem length_replierText (n : Nat) : (replierText n).length = 10 := by
  rw [replierText, List.length_cons, length_letters]

theorem unpackForum_joinShop (n : Nat) : unpackForum (joinShop n).payload = some [.joinDapp ⟨replier n, shop⟩] := by
  have htexts : unpackTexts 2 ([replierText n, ascii "shop".toList].flatMap packText) =
      some ([replierText n, ascii "shop".toList], []) := by
    refine unpackTexts_packTexts [replierText n, ascii "shop".toList] fun t ht => ?_
    rcases List.mem_cons.mp ht with rfl | ht
    · rw [length_replierText]
      omega
    · rw [List.mem_singleton.mp ht]
      decide
  simp only [joinShop, unpackForum, htexts]
  rfl

theorem unpackForum_replyToRoot (n : Nat) : unpackForum (replyToRoot n).payload = some [.commentDapp (reply n)] := by
  have htexts : unpackTexts 8 ((replyTexts n).flatMap packText) = some (replyTexts n, []) := by
    refine unpackTexts_packTexts (replyTexts n) fun t ht => ?_
    simp only [replyTexts, List.mem_cons, List.not_mem_nil, or_false] at ht
    rcases ht with rfl | rfl | rfl | rfl | rfl | rfl | rfl | rfl
    case inr.inr.inr.inl =>
      rw [length_replierText]
      omega
    all_goals decide
  simp only [replyToRoot, unpackForum, htexts]
  rfl

theorem validate_joinShop (n : Nat) : ∀ c ∈ (MemberOperation.validate ⟨replier n, shop⟩), c.holds = true := by
  intro c hc
  simp only [MemberOperation.validate, List.mem_cons, List.not_mem_nil, or_false] at hc
  rcases hc with rfl | rfl | rfl
  · exact isValidAccountName_replier n
  · show decide (0 < shop.size) = true
    decide +kernel
  · show (!shop.toBytes.contains 32) = true
    decide +kernel

theorem validate_reply (n : Nat) : ∀ c ∈ (reply n).validate forumEnv.fc, c.holds = true := by
  have hlist : (reply n).validate forumEnv.fc =
      ((reply 0).validate forumEnv.fc).set 6 (validateAccountName (replier n)) := rfl
  intro c hc
  rw [hlist] at hc
  rcases List.mem_or_eq_of_mem_set hc with hc | rfl
  · have hzero : ∀ c ∈ (reply 0).validate forumEnv.fc, c.holds = true := by decide +kernel
    exact hzero c hc
  · exact isValidAccountName_replier n

/-! ## The thread -/

/-- The shop is approved, and joining and replying cost nothing. -/
structure Shop (d : Database) : Prop where
  fee : d.core.dgp.dappTransactionFee = 0
  fund : d.core.dappRewardFund.fundBalance = 0
  owner : ∃ r ∈ d.core.accounts.rows, r.2.name = rootAccount ∧ r.2.balance = 0
  dapp : ∃ r, d.dapp.dapps.find? (fun x => x.dappName == shop) = some r ∧ r.2.dappState = .approval ∧
    r.2.owner = rootAccount

/-- The thread of root's comment with `n` replies, and room for those that follow. -/
structure Thread (n : Nat) (d : Database) : Prop extends Shop d where
  time : d.core.dgp.time = genesisTime + 6
  accountsFree : ∀ k, n ≤ k → k < 16 ^ 9 → ∀ r ∈ d.core.accounts.rows, r.2.name ≠ replier k
  usersFree : ∀ k, n ≤ k → k < 16 ^ 9 → ∀ r ∈ d.dapp.users.rows, r.2.accountName ≠ replier k
  commentsFree : ∀ k, n ≤ k → k < 16 ^ 9 → ∀ r ∈ d.dapp.comments.rows, r.2.author ≠ replier k
  root : ∃ c, d.dapp.comments.lookup 0 = some c ∧ isPermlink shop rootAccount hello c = true ∧
    c.parentAuthor = default ∧ c.depth = 0 ∧ c.rootComment = 0 ∧ c.allowReplies = true ∧
    c.children = n % 4294967296
  replies : ∀ r ∈ d.dapp.comments.rows, r.1 ≠ 0 →
    r.2.dappName = shop ∧ r.2.parentAuthor = rootAccount ∧ cStr r.2.parentPermlink = cStr hello
  count : d.dapp.comments.rows.length = n + 1

section Step

variable {n : Nat} {d : Database}

theorem clashes_of_fresh {t : Table AccountObject} {a : AccountObject} (h : ∀ r ∈ t.rows, r.2.name ≠ a.name) (id : Nat) :
    t.clashes id a = false := by
  refine clashes_eq_false fun x hx => beq_eq_false_iff_ne.mpr ?_
  obtain ⟨i, hi⟩ := mem_values.mp hx
  exact h _ hi

/-- The account that is created. -/
def newReplier (n : Nat) : AccountObject :=
  { name := replier n, memoKey := ⟨1⟩, created := genesisTime + 6, mined := false, recoveryAccount := initMinerName }

/-- The account is created. -/
theorem Thread.create (h : Thread n d) (hn : n < 16 ^ 9) :
    ∃ hc auths, applyOperation forumEnv openNode (.accountCreate (createReplier n)) d =
      .ok () { d with core := { d.core with
        accounts := d.core.accounts.insert (newReplier n) hc, accountAuthorities := auths } } := by
  have hc : d.core.accounts.clashes d.core.accounts.nextId (newReplier n) = false :=
    clashes_of_fresh (h.accountsFree n le_rfl hn) _
  have hauth : ∀ a : AccountAuthorityObject,
      d.core.accountAuthorities.clashes d.core.accountAuthorities.nextId a = false := fun a =>
    clashes_eq_false fun _ _ => rfl
  refine ⟨hc, d.core.accountAuthorities.insert _ (hauth ⟨replier n, .ofKey ⟨1⟩, .ofKey ⟨1⟩, .ofKey ⟨1⟩, 0⟩), ?_⟩
  refine onCore_eq_ok.mpr ⟨_, ?_, rfl⟩
  refine bind_eq_ok.mpr ⟨(), d.core, rfl, bind_eq_ok.mpr ⟨(), d.core, rfl, bind_eq_ok.mpr ⟨(), d.core, rfl, ?_⟩⟩⟩
  refine bind_eq_ok.mpr ⟨genesisTime + 6, d.core, ?_, bind_eq_ok.mpr ⟨_, _, createIn_eq_ok.mpr ⟨hc, rfl, rfl⟩, ?_⟩⟩
  · rw [← h.time]
    rfl
  · exact bind_eq_ok.mpr ⟨_, _, createIn_eq_ok.mpr ⟨hauth _, rfl, rfl⟩, rfl⟩

/-- The shop takes nothing for what leaves its owner's account and the reward fund alone. -/
theorem Shop.withDappFee (h : Shop d) {m : ChainM Unit} {d₁ : Database} (hm : m d = .ok () d₁)
    (hkeep : ∀ i a, a.name = rootAccount → d.core.accounts.lookup i = some a → d₁.core.accounts.lookup i = some a)
    (hfund : d₁.core.dappRewardFund = d.core.dappRewardFund) :
    Sigmaengine.withDappFee rootAccount m d =
      .ok () { d₁ with core := { d₁.core with dappRewardFund := ⟨0, d₁.core.dgp.time⟩ } } := by
  obtain ⟨r, hr, hname, hbalance⟩ := h.owner
  have hrow := hkeep r.1 r.2 hname (lookup_eq_some.mpr hr)
  exact withDappFee_free h.fee (find_account hr hname) hbalance hm hrow hbalance (hfund ▸ h.fund)

/-- The account joins. -/
theorem Shop.join (h : Shop d) {r : Nat × AccountObject} (hr : r ∈ d.core.accounts.rows) (hname : r.2.name = replier n)
    (hfree : ∀ u ∈ d.dapp.users.rows, u.2.accountName ≠ replier n) :
    ∃ user hu, user.accountName = replier n ∧ user.dappName = shop ∧
      applyOperation forumEnv openNode (.customBinary (joinShop n)) d = .ok () { d with
        dapp := { d.dapp with users := d.dapp.users.insert user hu }
        core := { d.core with dappRewardFund := ⟨0, d.core.dgp.time⟩ } } := by
  obtain ⟨x, hx, happroved, howner⟩ := h.dapp
  let user : DappUserObject := ⟨x.1, shop, r.1, replier n, d.core.dgp.time⟩
  have hu : d.dapp.users.clashes d.dapp.users.nextId user = false := by
    refine clashes_eq_false fun u hu => ?_
    obtain ⟨i, hi⟩ := mem_values.mp hu
    have hne : (u.accountName == replier n) = false := beq_eq_false_iff_ne.mpr (hfree _ hi)
    show (u.dappName == shop && u.accountName == replier n && _) = false
    rw [hne, Bool.and_false, Bool.false_and]
  have hnone : d.dapp.users.find? (fun u => u.accountName == replier n && u.dappName == shop) = none := by
    refine List.find?_eq_none.mpr fun u hu => ?_
    rw [Bool.and_eq_true, beq_iff_eq]
    exact fun hboth => hfree u hu hboth.1
  have hinsert : (onDapp do
      let found ← findIn Dapp.Index.users fun u => u.accountName == replier n && u.dappName == shop
      fcAssert found.isNone "You have already joined $dapp dapp."
      let _ ← createIn Dapp.Index.users user) d =
      .ok () { d with dapp := { d.dapp with users := d.dapp.users.insert user hu } } := by
    refine onDapp_eq_ok.mpr ⟨_, ?_, rfl⟩
    refine bind_eq_ok.mpr ⟨none, d.dapp, findIn_eq_ok.mpr ⟨hnone, rfl⟩, bind_eq_ok.mpr ⟨(), d.dapp, rfl, ?_⟩⟩
    exact bind_eq_ok.mpr ⟨_, _, createIn_eq_ok.mpr ⟨hu, rfl, rfl⟩, rfl⟩
  refine ⟨user, hu, rfl, rfl, ?_⟩
  refine applyOperation_forum rfl (unpackForum_joinShop n) (validate_joinShop n) rfl ?_
  refine bind_eq_ok.mpr ⟨_, d, rfl, ?_⟩
  refine bind_eq_ok.mpr ⟨some r, d, onCore_eq_ok.mpr ⟨d.core, findIn_eq_ok.mpr ⟨find_account hr hname, rfl⟩, rfl⟩, ?_⟩
  refine bind_eq_ok.mpr ⟨r, d, rfl, ?_⟩
  refine bind_eq_ok.mpr ⟨x, d, onDapp_eq_ok.mpr ⟨d.dapp, requireDapp_eq_ok.mpr ⟨hx, rfl⟩, rfl⟩, ?_⟩
  refine bind_eq_ok.mpr ⟨(), d, onDapp_eq_ok.mpr ⟨d.dapp, requireApproved_eq_ok.mpr ⟨happroved, rfl⟩, rfl⟩, ?_⟩
  rw [howner]
  exact h.withDappFee hinsert (fun i a _ ha => ha) rfl

/-- The reply, and the comment it answers. -/
def newReply (c : DappCommentObject) (n id : Nat) : DappCommentObject :=
  newComment (reply n) (genesisTime + 6) id (some (0, c))

def answered (c : DappCommentObject) : DappCommentObject :=
  { c with children := (c.children + 1) % 4294967296, active := genesisTime + 6 }

/-- The reply is stored and counted once. -/
theorem storeReply {s : DappIndices} {c : DappCommentObject} (hroot : s.comments.lookup 0 = some c)
    (hparent : c.parentAuthor = default)
    (hc : s.comments.clashes s.comments.nextId (newReply c n s.comments.nextId) = false) :
    ∃ hc', storeComment (reply n) (genesisTime + 6) (some (0, c)) s =
      .ok () { s with comments := (s.comments.insert (newReply c n s.comments.nextId) hc).replace 0 (answered c) hc' } := by
  have hold := lookup_insert_old (h := hc) hroot
  have hc' : (s.comments.insert (newReply c n s.comments.nextId) hc).clashes 0 (answered c) = false :=
    clashes_of_keys hold fun _ => rfl
  refine ⟨hc', bind_eq_ok.mpr ⟨s, s, rfl, bind_eq_ok.mpr ⟨_, _, createIn_eq_ok.mpr ⟨hc, rfl, rfl⟩, ?_⟩⟩⟩
  refine bind_eq_ok.mpr ⟨(), _, modifyIn_eq_ok.mpr ⟨c, answered c, hc', hold, rfl, rfl⟩, ?_⟩
  rw [if_pos hparent]
  rfl

/-- The account replies to root. -/
theorem Shop.takeReply (h : Shop d) {r : Nat × AccountObject} (hr : r ∈ d.core.accounts.rows) (hname : r.2.name = replier n)
    (hfirst : r.2.lastPost = 0) (htime : d.core.dgp.time = genesisTime + 6) (hother : rootAccount ≠ replier n)
    {u : Nat × DappUserObject} (hu : u ∈ d.dapp.users.rows) (hmember : u.2.accountName = replier n)
    (hshop : u.2.dappName = shop) (hfree : ∀ q ∈ d.dapp.comments.rows, q.2.author ≠ replier n) {c : DappCommentObject}
    (hroot : d.dapp.comments.lookup 0 = some c) (hkey : isPermlink shop rootAccount hello c = true)
    (hparent : c.parentAuthor = default) (hdepth : c.depth = 0) (hthread : c.rootComment = 0)
    (hallow : c.allowReplies = true) :
    ∃ a ha hc hc', a.name = replier n ∧ applyOperation forumEnv openNode (.customBinary (replyToRoot n)) d =
      .ok () { d with
        core := { d.core with accounts := d.core.accounts.replace r.1 a ha, dappRewardFund := ⟨0, d.core.dgp.time⟩ }
        dapp := { d.dapp with comments :=
          (d.dapp.comments.insert (newReply c n d.dapp.comments.nextId) hc).replace 0 (answered c) hc' } } := by
  obtain ⟨x, hx, happroved, howner⟩ := h.dapp
  have hc : d.dapp.comments.clashes d.dapp.comments.nextId (newReply c n d.dapp.comments.nextId) = false := by
    refine clashes_eq_false fun y hy => ?_
    obtain ⟨i, hi⟩ := mem_values.mp hy
    have hne : (y.author == replier n) = false := beq_eq_false_iff_ne.mpr (hfree _ hi)
    show (_ && y.author == replier n && _) = false
    rw [hne, Bool.and_false, Bool.false_and]
  obtain ⟨hc', hstore⟩ := storeReply hroot hparent hc
  let a : AccountObject :=
    { r.2 with lastRootPost := r.2.lastRootPost, lastPost := genesisTime + 6,
               postCount := (r.2.postCount + 1) % 4294967296 }
  have hrow := lookup_eq_some.mpr hr
  have ha : d.core.accounts.clashes r.1 a = false := clashes_of_keys hrow fun _ => rfl
  have hnone : d.dapp.comments.find? (isPermlink shop (replier n) hello) = none := by
    refine List.find?_eq_none.mpr fun q hq hkey' => ?_
    exact hfree q hq (isPermlink_iff.mp hkey').2.1
  have hfind : d.dapp.comments.find? (isPermlink shop rootAccount hello) = some (0, c) :=
    find?_permlink (r := (0, c)) (lookup_eq_some.mp hroot) hkey
  have hreply : (reply n).parentAuthor ≠ default := by
    show rootAccount ≠ default
    decide +kernel
  have hget : getParent (reply n) d.dapp = .ok (some (0, c)) d.dapp := by
    unfold getParent
    rw [if_neg hreply]
    refine bind_eq_ok.mpr ⟨(0, c), d.dapp, getIn_eq_ok.mpr ⟨hfind, rfl⟩, bind_eq_ok.mpr ⟨(), d.dapp, ?_, rfl⟩⟩
    exact assert_eq_ok.mpr ⟨by rw [hdepth]; decide, rfl⟩
  have htouch : onCore (touchPost r (decide ((reply n).parentAuthor = default)) (genesisTime + 6)) d =
      .ok () { d with core := { d.core with accounts := d.core.accounts.replace r.1 a ha } } := by
    rw [decide_eq_false hreply]
    refine onCore_eq_ok.mpr ⟨_, bind_eq_ok.mpr ⟨(), d.core, rfl, bind_eq_ok.mpr ⟨(), d.core, ?_, ?_⟩⟩, rfl⟩
    · refine assert_eq_ok.mpr ⟨?_, rfl⟩
      rw [hfirst]
      decide
    · exact modifyIn_eq_ok.mpr ⟨r.2, a, ha, hrow, rfl, rfl⟩
  have hwrite : writeComment (reply n) (genesisTime + 6) r (some (0, c)) none d = .ok () { d with
      core := { d.core with accounts := d.core.accounts.replace r.1 a ha }
      dapp := { d.dapp with comments :=
        (d.dapp.comments.insert (newReply c n d.dapp.comments.nextId) hc).replace 0 (answered c) hc' } } := by
    refine bind_eq_ok.mpr ⟨(), d, onDapp_eq_ok.mpr ⟨d.dapp, ?_, rfl⟩, bind_eq_ok.mpr ⟨(), _, htouch,
      onDapp_eq_ok.mpr ⟨_, hstore, rfl⟩⟩⟩
    refine bind_eq_ok.mpr ⟨d.dapp, d.dapp, rfl, bind_eq_ok.mpr ⟨c, d.dapp, ?_, assert_eq_ok.mpr ⟨hallow, rfl⟩⟩⟩
    rw [hthread, hroot]
    rfl
  refine ⟨a, ha, hc, hc', hname, ?_⟩
  refine applyOperation_forum rfl (unpackForum_replyToRoot n) (validate_reply n) rfl ?_
  refine bind_eq_ok.mpr ⟨x, d, onDapp_eq_ok.mpr ⟨d.dapp, requireDapp_eq_ok.mpr ⟨hx, rfl⟩, rfl⟩, ?_⟩
  refine bind_eq_ok.mpr ⟨(), d, onDapp_eq_ok.mpr ⟨d.dapp, requireApproved_eq_ok.mpr ⟨happroved, rfl⟩, rfl⟩, ?_⟩
  have hmembers : requireMember shop (replier n) "$author isn't member of $dapp dapp" d.dapp = .ok () d.dapp := by
    refine bind_eq_ok.mpr ⟨_, d.dapp, findIn_eq_ok.mpr ⟨rfl, rfl⟩, assert_eq_ok.mpr ⟨?_, rfl⟩⟩
    refine List.find?_isSome.mpr ⟨u, hu, ?_⟩
    show (u.2.dappName == shop && u.2.accountName == replier n) = true
    rw [hmember, hshop, beq_self_eq_true, beq_self_eq_true]
    rfl
  refine bind_eq_ok.mpr ⟨(), d, onDapp_eq_ok.mpr ⟨d.dapp, hmembers, rfl⟩, ?_⟩
  rw [howner]
  have hexisting : onDapp (findIn Dapp.Index.comments (isPermlink shop (replier n) hello)) d = .ok none d :=
    onDapp_eq_ok.mpr ⟨d.dapp, findIn_eq_ok.mpr ⟨hnone, rfl⟩, rfl⟩
  have hauthor : onCore (getAccount (replier n)) d = .ok r d :=
    onCore_eq_ok.mpr ⟨d.core, getIn_eq_ok.mpr ⟨find_account hr hname, rfl⟩, rfl⟩
  have hfound : onDapp (getParent (reply n)) d = .ok (some (0, c)) d := onDapp_eq_ok.mpr ⟨d.dapp, hget, rfl⟩
  have hnow : onCore headBlockTime d = .ok (genesisTime + 6) d := by
    rw [← htime]
    rfl
  refine @Shop.withDappFee d h _ { d with
      core := { d.core with accounts := d.core.accounts.replace r.1 a ha }
      dapp := { d.dapp with comments :=
        (d.dapp.comments.insert (newReply c n d.dapp.comments.nextId) hc).replace 0 (answered c) hc' } }
    (bind_eq_ok.mpr ⟨(), d, rfl, bind_eq_ok.mpr ⟨none, d, hexisting, bind_eq_ok.mpr ⟨r, d, hauthor,
      bind_eq_ok.mpr ⟨some (0, c), d, hfound, bind_eq_ok.mpr ⟨(), d, rfl, bind_eq_ok.mpr ⟨_, d, hnow, hwrite⟩⟩⟩⟩⟩⟩)
    (fun i b hroot' hb => ?_) rfl
  refine (lookup_replace hrow ha i).trans ((if_neg ?_).trans hb)
  rintro rfl
  obtain rfl := Option.some.inj (hb.symm.trans hrow)
  exact hother (hroot'.symm.trans hname)

theorem validate_customBinary {o : CustomDappOperation} (hcount : 0 < o.authCount) (hid : o.id.length ≤ 32)
    (hauths : o.requiredAuths = []) : ∀ c ∈ o.validateBinary, c.holds = true := by
  intro c hc
  simp only [CustomDappOperation.validateBinary, hauths, List.map_nil, List.append_nil, List.mem_cons,
    List.not_mem_nil, or_false] at hc
  rcases hc with rfl | rfl
  · exact decide_eq_true hcount
  · exact decide_eq_true hid

theorem validate_createReplier (n : Nat) : ∀ c ∈ (createReplier n).validate forumEnv.fc, c.holds = true := by
  have hlist : (createReplier n).validate forumEnv.fc =
      ((createReplier 0).validate forumEnv.fc).set 0 (validateAccountName (replier n)) := rfl
  intro c hc
  rw [hlist] at hc
  rcases List.mem_or_eq_of_mem_set hc with hc | rfl
  · have hzero : ∀ c ∈ (createReplier 0).validate forumEnv.fc, c.holds = true := by decide +kernel
    exact hzero c hc
  · exact isValidAccountName_replier n

theorem validate_replyTransaction (n : Nat) : ∀ c ∈ (replyTransaction n).validate forumEnv.fc, c.holds = true := by
  intro c hc
  rcases List.mem_cons.mp hc with rfl | hc
  · rfl
  · obtain ⟨op, hop, hc⟩ := List.mem_flatMap.mp hc
    simp only [replyTransaction, List.mem_cons, List.not_mem_nil, or_false] at hop
    rcases hop with rfl | rfl | rfl
    · exact validate_createReplier n c hc
    · exact validate_customBinary (o := joinShop n) Nat.one_pos (Nat.le_of_ble_eq_true rfl) rfl c hc
    · exact validate_customBinary (o := replyToRoot n) Nat.one_pos (Nat.le_of_ble_eq_true rfl) rfl c hc

theorem admit_replyTransaction (htime : d.core.dgp.time = genesisTime + 6) :
    onCore (admitTransaction forumEnv openNode (replyTransaction n)) d = .ok () d := by
  have hvalid : (if openNode.skip.validate then .ok () else runChecks ((replyTransaction n).validate forumEnv.fc)) =
      (.ok () : Except Error Unit) := by
    rw [if_neg (by decide)]
    exact runChecks_eq_ok.mpr (validate_replyTransaction n)
  have hexpiration : checkExpiration openNode (replyTransaction n) d.core = .ok () d.core := by
    refine bind_eq_ok.mpr ⟨d.core, d.core, rfl, ?_⟩
    split
    · rfl
    · refine bind_eq_ok.mpr ⟨(), d.core, rfl, bind_eq_ok.mpr ⟨(), d.core, ?_, ?_⟩⟩
      · refine assert_eq_ok.mpr ⟨?_, rfl⟩
        rw [htime]
        show decide (genesisTime + 60 ≤ addSeconds (genesisTime + 6) maxTimeUntilExpiration) = true
        decide
      · refine assert_eq_ok.mpr ⟨?_, rfl⟩
        rw [htime]
        show decide (genesisTime + 6 < genesisTime + 60) = true
        decide
  refine onCore_eq_ok.mpr ⟨d.core, ?_, rfl⟩
  refine bind_eq_ok.mpr ⟨(), d.core, checked_eq_ok.mpr ⟨hvalid, rfl⟩, bind_eq_ok.mpr ⟨d.core, d.core, rfl, ?_⟩⟩
  refine bind_eq_ok.mpr ⟨(), d.core, rfl, bind_eq_ok.mpr ⟨(), d.core, rfl, ?_⟩⟩
  exact bind_eq_ok.mpr ⟨(), d.core, hexpiration, rfl⟩

/-- **One more reply.** -/
theorem Thread.next (h : Thread n d) (hn : n < 16 ^ 9) :
    ∃ d', applyTransaction forumEnv openNode (replyTransaction n) d = .ok () d' ∧ Thread (n + 1) d' := by
  obtain ⟨hnew, auths, hcreate⟩ := h.create hn
  obtain ⟨q, hq, hroot, hbalance⟩ := h.owner
  obtain ⟨c, hc, hkey, hparent, hdepth, hthread, hallow, hchildren⟩ := h.root
  have hother : rootAccount ≠ replier n := hroot ▸ h.accountsFree n le_rfl hn q hq
  have hshop : Shop { d with core := { d.core with
      accounts := d.core.accounts.insert (newReplier n) hnew, accountAuthorities := auths } } :=
    ⟨h.fee, h.fund, ⟨q, (mem_insert (h := hnew)).mpr (.inl hq), hroot, hbalance⟩, h.dapp⟩
  have hrow : (d.core.accounts.nextId, newReplier n) ∈ (d.core.accounts.insert (newReplier n) hnew).rows :=
    mem_insert.mpr (.inr rfl)
  obtain ⟨user, hu, hmember, hshopName, hjoin⟩ := hshop.join hrow rfl (h.usersFree n le_rfl hn)
  have hshop' : Shop { d with
      core := { d.core with
        accounts := d.core.accounts.insert (newReplier n) hnew, accountAuthorities := auths
        dappRewardFund := ⟨0, d.core.dgp.time⟩ }
      dapp := { d.dapp with users := d.dapp.users.insert user hu } } :=
    ⟨h.fee, rfl, hshop.owner, h.dapp⟩
  obtain ⟨a, ha, hstored, hcounted, haname, hreply⟩ := hshop'.takeReply hrow rfl rfl h.time hother
    ((mem_insert (h := hu)).mpr (.inr rfl)) hmember hshopName (h.commentsFree n le_rfl hn) hc hkey hparent hdepth hthread hallow
  refine ⟨_, bind_eq_ok.mpr ⟨(), d, admit_replyTransaction h.time, bind_eq_ok.mpr ⟨(), _, hcreate,
    bind_eq_ok.mpr ⟨(), _, hjoin, bind_eq_ok.mpr ⟨(), _, hreply, rfl⟩⟩⟩⟩, ?_⟩
  have hrow' := lookup_eq_some.mpr hrow
  have hc₀ := lookup_insert_old (h := hstored) hc
  have hfresh : ∀ k, n + 1 ≤ k → k < 16 ^ 9 → replier n ≠ replier k := fun k hk hlt heq => by
    have := replier_inj hn hlt heq
    omega
  constructor
  · refine ⟨h.fee, rfl, ⟨q, ?_, hroot, hbalance⟩, h.dapp⟩
    refine (mem_replace (h := ha)).mpr (.inl ⟨(mem_insert (h := hnew)).mpr (.inl hq), fun hid => ?_⟩)
    exact Nat.ne_of_lt (d.core.accounts.fresh q hq) hid
  · exact h.time
  · intro k hk hlt r hr
    rcases (mem_replace (h := ha)).mp hr with ⟨hr, -⟩ | ⟨rfl, -⟩
    · rcases (mem_insert (h := hnew)).mp hr with hr | rfl
      · exact h.accountsFree k (by omega) hlt r hr
      · exact hfresh k hk hlt
    · rw [haname]
      exact hfresh k hk hlt
  · intro k hk hlt r hr
    rcases (mem_insert (h := hu)).mp hr with hr | rfl
    · exact h.usersFree k (by omega) hlt r hr
    · rw [hmember]
      exact hfresh k hk hlt
  · intro k hk hlt r hr
    rcases (mem_replace (h := hcounted)).mp hr with ⟨hr, -⟩ | ⟨rfl, -⟩
    · rcases (mem_insert (h := hstored)).mp hr with hr | rfl
      · exact h.commentsFree k (by omega) hlt r hr
      · exact hfresh k hk hlt
    · exact h.commentsFree k (by omega) hlt (0, c) (lookup_eq_some.mp hc)
  · refine ⟨answered c, (lookup_replace hc₀ hcounted 0).trans (if_pos rfl), hkey, hparent, hdepth, hthread, hallow, ?_⟩
    show (c.children + 1) % 4294967296 = _
    rw [hchildren]
    omega
  · intro r hr hid
    rcases (mem_replace (h := hcounted)).mp hr with ⟨hr, -⟩ | ⟨rfl, -⟩
    · rcases (mem_insert (h := hstored)).mp hr with hr | rfl
      · exact h.replies r hr hid
      · obtain ⟨-, hauthor, hpermlink⟩ := isPermlink_iff.mp hkey
        exact ⟨rfl, hauthor, hpermlink⟩
    · exact absurd rfl hid
  · show ((d.dapp.comments.rows ++ [_]).map _).length = _
    rw [List.length_map, List.length_append, h.count]
    rfl

/-- Every comment but the first is below the first. -/
theorem Thread.below_root (h : Thread n d) :
    Forest.below (ParentOf d.dapp.comments) 0 = ((d.dapp.comments.rows.map Prod.fst).toFinset.erase 0 : Finset Nat) := by
  obtain ⟨c, hc, hkey, hparent, -⟩ := h.root
  obtain ⟨hdapp, hauthor, hpermlink⟩ := isPermlink_iff.mp hkey
  ext y
  rw [Finset.coe_erase, List.coe_toFinset]
  constructor
  · intro hy
    obtain ⟨p, hstep, -⟩ := Relation.TransGen.head'_iff.mp hy
    obtain ⟨x, q, hx, -⟩ := id hstep
    refine ⟨List.mem_map.mpr ⟨(y, x), lookup_eq_some.mp hx, rfl⟩, ?_⟩
    rintro rfl
    exact not_parentOf_root hc hparent p hstep
  · rintro ⟨hy, hne⟩
    obtain ⟨r, hr, rfl⟩ := List.mem_map.mp hy
    obtain ⟨hdapp', hauthor', hpermlink'⟩ := h.replies r hr hne
    refine Relation.TransGen.single ⟨r.2, c, lookup_eq_some.mpr hr, hc, ?_, isPermlink_iff.mpr ⟨?_, ?_, ?_⟩⟩
    · rw [hauthor']
      decide +kernel
    · rw [hdapp, hdapp']
    · rw [hauthor, hauthor']
    · rw [hpermlink, hpermlink']

theorem Thread.descendants (h : Thread n d) : descendants d.dapp.comments 0 = n := by
  obtain ⟨c, hc, -⟩ := h.root
  have hids : (d.dapp.comments.rows.map Prod.fst).Nodup :=
    (List.pairwise_map.mpr d.dapp.comments.sorted).imp fun hlt => Nat.ne_of_lt hlt
  have hroot : 0 ∈ (d.dapp.comments.rows.map Prod.fst).toFinset :=
    List.mem_toFinset.mpr (List.mem_map.mpr ⟨(0, c), lookup_eq_some.mp hc, rfl⟩)
  unfold Dapp.descendants
  rw [h.below_root, Set.ncard_coe_finset, Finset.card_erase_of_mem hroot, List.toFinset_card_of_nodup hids,
    List.length_map, h.count]
  rfl

end Step

/-! ## Many replies -/

/-- The comment of root before anybody has answered. -/
theorem thread_likedState : Thread 0 (likedState 0) := by
  have hstate : (∀ r ∈ (likedState 0).core.accounts.rows, r.2.name.toBytes.take 1 ≠ [114] ∨ r.2.name.toBytes.length ≠ 10) ∧
      (∀ r ∈ (likedState 0).dapp.users.rows, r.2.accountName = rootAccount) ∧
      (∀ r ∈ (likedState 0).dapp.comments.rows, r.1 = 0 ∧ r.2.author = rootAccount) ∧
      ((likedState 0).dapp.comments.lookup 0).map (fun c => (isPermlink shop rootAccount hello c,
        c.parentAuthor, c.depth, c.rootComment, c.allowReplies, c.children)) = some (true, default, 0, 0, true, 0) ∧
      ((likedState 0).dapp.dapps.find? fun x => x.dappName == shop).map (fun r => (r.2.dappState, r.2.owner)) =
        some (.approval, rootAccount) ∧
      (∃ r ∈ (likedState 0).core.accounts.rows, r.2.name = rootAccount ∧ r.2.balance = 0) ∧
      (likedState 0).core.dgp.dappTransactionFee = 0 ∧ (likedState 0).core.dappRewardFund.fundBalance = 0 ∧
      (likedState 0).core.dgp.time = genesisTime + 6 ∧ (likedState 0).dapp.comments.rows.length = 0 + 1 := by
    decide +kernel
  obtain ⟨hnames, husers, hcomments, hroot, hdapp, howner, hfee, hfund, htime, hcount⟩ := hstate
  have hother : ∀ k, rootAccount ≠ replier k := fun k heq => by
    have hlen := congrArg (fun a => a.toBytes.length) heq
    rw [toBytes_replier, length_replierText] at hlen
    exact absurd hlen (by decide +kernel)
  refine ⟨⟨hfee, hfund, howner, ?_⟩, htime, ?_, ?_, ?_, ?_, ?_, hcount⟩
  · obtain ⟨r, hr, hrest⟩ := Option.map_eq_some_iff.mp hdapp
    exact ⟨r, hr, congrArg Prod.fst hrest, congrArg Prod.snd hrest⟩
  · intro k _ _ r hr heq
    have hne := hnames r hr
    rw [heq, toBytes_replier, length_replierText] at hne
    rcases hne with hne | hne
    · exact hne rfl
    · exact hne rfl
  · intro k _ _ r hr
    rw [husers r hr]
    exact hother k
  · intro k _ _ r hr
    rw [(hcomments r hr).2]
    exact hother k
  · obtain ⟨c, hc, hrest⟩ := Option.map_eq_some_iff.mp hroot
    simp only [Prod.mk.injEq] at hrest
    exact ⟨c, hc, hrest⟩
  · intro r hr hne
    exact absurd (hcomments r hr).1 hne

/-- **Any number of replies**, up to the number of names. -/
theorem reached_thread (n : Nat) (hn : n ≤ 16 ^ 9) : ∃ d, Reached forumEnv d ∧ Thread n d := by
  induction n with
  | zero =>
    obtain ⟨hfirst, hsecond⟩ := @applyBlock_likedBlock 0 (by decide +kernel)
    exact ⟨likedState 0, ((Reached.genesis ⟨1⟩).block {} dappBlock hfirst).block {} (likedBlock 0) hsecond,
      thread_likedState⟩
  | succ n ih =>
    obtain ⟨d, hreached, hthread⟩ := ih (by omega)
    obtain ⟨d', happly, hnext⟩ := hthread.next (by omega)
    exact ⟨d', hreached.transaction openNode (replyTransaction n) happly, hnext⟩

/-- After 2^32 replies the comment they answer counts none. -/
theorem thread_outgrows_counter : ∃ d c, Reached forumEnv d ∧ d.dapp.comments.lookup 0 = some c ∧ c.children = 0 ∧
    Dapp.descendants d.dapp.comments 0 = 4294967296 := by
  obtain ⟨d, hreached, hthread⟩ := reached_thread 4294967296 (by norm_num)
  obtain ⟨c, hc, -, -, -, -, -, hchildren⟩ := hthread.root
  exact ⟨d, c, hreached, hc, hchildren, hthread.descendants⟩

end Sigmaengine
