import Sigmaengine.Dapp.CommentVotes

/-!
# The parent of a comment

An edit names the parent of the comment and is to be refused when that is not the stored one.  The author of
the parent is compared; its permlink goes through `strcmp_equal`, which takes any two texts of one length for
equal.  The comparison comes after the first two assignments, so a refused edit is undone with the session of
its payload.

Main result: `comment_parent_iff`.
-/

namespace Sigmaengine

open Effect Table

variable {d : Database}

/-- What fails in a session is undone. -/
theorem atomically_eq_error {ε σ α : Type} {m : Prog ε σ α} {s s' : σ} {e : ε} (h : atomically m s = .error e s') :
    s' = s := by
  unfold atomically at h
  cases hrun : m s with
  | ok a t =>
    rw [hrun] at h
    cases h
  | error e' t =>
    rw [hrun] at h
    cases h
    rfl

/-! ## The fee -/

/-- The payer's balance and the reward fund have room for the fee. -/
structure FeePayable (balance fund fee : Int) : Prop where
  affordable : fee ≤ balance
  negated : fee ≠ int64Min
  debit : ∃ n, safeAdd balance (-fee) = .ok n
  credit : ∃ n, safeAdd fund fee = .ok n

theorem adjust_sgt_eq (field amount : Int) : adjust field (sgt amount) = safeAdd field amount := if_pos rfl

theorem payDappFee_returns {c : Core} {payer : Nat × AccountObject} {fee : Int}
    (hpayer : c.accounts.lookup payer.1 = some payer.2) (hfee : fee ≤ payer.2.balance) :
    (∃ c', payDappFee (payer.1, fee) c = .ok () c') ↔
      FeePayable payer.2.balance c.dappRewardFund.fundBalance fee := by
  simp only [payDappFee, adjustBalance, adjustDappRewardFundBalance, bind_eq_ok, checked_eq_ok, modifyIn_eq_ok,
    get_eq_ok, modify_eq_ok]
  constructor
  · rintro ⟨c', delta, _, ⟨hneg, rfl⟩, _, t, ⟨a, a', hclash, ha, hadjust, rfl⟩, _, _, ⟨rfl, rfl⟩, n, _, ⟨hn, rfl⟩, -⟩
    obtain rfl := Option.some.inj (hpayer.symm.trans ha)
    obtain ⟨m, hm, -⟩ := map_eq_ok hadjust
    obtain ⟨amount, hamount, rfl⟩ := map_eq_ok hneg
    have hmin : fee ≠ int64Min := by
      intro hmin
      simp [safeNeg, sgt, hmin] at hamount
    obtain rfl := safeNeg_eq_ok hamount
    exact ⟨hfee, hmin, ⟨m, (adjust_eq_ok hm).2⟩, ⟨n, (adjust_eq_ok hn).2⟩⟩
  · rintro ⟨-, hmin, ⟨n, hn⟩, m, hm⟩
    have hclash : c.accounts.clashes payer.1 { payer.2 with balance := n } = false :=
      clashes_of_keys hpayer fun _ => rfl
    have hneg : (sgt fee).neg = .ok (sgt (-fee)) := by
      show (safeNeg fee).map _ = _
      rw [safeNeg, if_neg hmin]
      rfl
    refine ⟨_, _, _, ⟨hneg, rfl⟩, (), _, ⟨_, _, hclash, hpayer, ?_, rfl⟩, _, _, ⟨rfl, rfl⟩, m, _, ⟨?_, rfl⟩, rfl⟩
    · rw [adjust_sgt_eq, hn]
      rfl
    · exact (adjust_sgt_eq _ _).trans hm

/-- What is paid for leaves the core alone: payment asks for a payer who has the fee, and room for it. -/
theorem withDappFee_returns {payer : AccountName} {m : ChainM Unit}
    (hm : ∀ d', m d = .ok () d' → d'.core = d.core) :
    (∃ d', withDappFee payer m d = .ok () d') ↔
      (∃ r, d.core.accounts.find? (fun a => a.name == payer) = some r ∧
        FeePayable r.2.balance d.core.dappRewardFund.fundBalance d.core.dgp.dappTransactionFee) ∧
      ∃ d', m d = .ok () d' := by
  constructor
  · rintro ⟨d', h⟩
    simp only [withDappFee, bind_eq_ok, onCore_eq_ok, checkDappFee, getAccount, get_eq_ok, getIn_eq_ok, fcAssert,
      assert_eq_ok, pure_eq_ok, decide_eq_true_eq] at h
    obtain ⟨_, _, ⟨_, ⟨_, _, ⟨rfl, rfl⟩, r, _, ⟨hr, rfl⟩, _, _, ⟨hfee, rfl⟩, rfl, rfl⟩, rfl⟩, _, d₁, hrun, c, hpay, -⟩ := h
    rw [hm d₁ hrun] at hpay
    exact ⟨⟨r, hr, (payDappFee_returns (lookup_eq_some.mpr (mem_of_find? hr).1) hfee).mp ⟨c, hpay⟩⟩, d₁, hrun⟩
  · rintro ⟨⟨r, hr, hpayable⟩, d₁, hrun⟩
    obtain ⟨c, hpay⟩ := (payDappFee_returns (lookup_eq_some.mpr (mem_of_find? hr).1) hpayable.affordable).mpr hpayable
    have hpay' : payDappFee (r.1, d.core.dgp.dappTransactionFee) d₁.core = .ok () c := by
      rw [hm d₁ hrun]
      exact hpay
    have hcheck : onCore (checkDappFee payer) d = .ok (r.1, d.core.dgp.dappTransactionFee) d := by
      simp only [onCore_eq_ok, checkDappFee, getAccount, bind_eq_ok, get_eq_ok, getIn_eq_ok, fcAssert, assert_eq_ok,
        pure_eq_ok, decide_eq_true_eq]
      exact ⟨_, ⟨_, _, ⟨rfl, rfl⟩, r, _, ⟨hr, rfl⟩, (), _, ⟨hpayable.affordable, rfl⟩, rfl, rfl⟩, rfl⟩
    exact ⟨_, bind_eq_ok.mpr ⟨_, _, hcheck, bind_eq_ok.mpr ⟨(), d₁, hrun, onCore_eq_ok.mpr ⟨c, hpay', rfl⟩⟩⟩⟩

namespace Dapp

variable {fc : TextRules} {op : CommentDappOperation} {id : Nat} {c : DappCommentObject}

/-! ## The edit -/

/-- **The comparison** decides whether an edit returns, and then nothing but two times has changed. -/
theorem editComment_eq_ok {s s' : DappIndices} {now : TimePointSec} {u : Unit} (hc : s.comments.lookup id = some c)
    (h : editComment op now id s = .ok u s') :
    (c.parentAuthor = op.parentAuthor ∧ strcmpEqual c.parentPermlink op.parentPermlink = true) ∧
      s'.comments.lookup id = some { c with lastUpdate := now, active := now } := by
  simp only [editComment, bind_eq_ok, modifyIn_eq_ok] at h
  obtain ⟨_, t, ⟨a, b, hclash, ha, hab, rfl⟩, a', b', hclash', ha', hcheck, rfl⟩ := h
  obtain rfl := Option.some.inj (hc.symm.trans ha)
  cases hab
  have hmid := lookup_replace ha hclash id
  rw [if_pos rfl] at hmid
  obtain rfl := Option.some.inj (hmid.symm.trans ha')
  split at hcheck
  · cases hcheck
  · next hauthor =>
    split at hcheck
    · cases hcheck
    · next hpermlink =>
      cases hcheck
      refine ⟨⟨not_not.mp hauthor, by simpa using hpermlink⟩, ?_⟩
      have hend := lookup_replace ha' hclash' id
      rwa [if_pos rfl] at hend

theorem editComment_returns {s : DappIndices} {now : TimePointSec} (hc : s.comments.lookup id = some c)
    (hauthor : c.parentAuthor = op.parentAuthor)
    (hpermlink : strcmpEqual c.parentPermlink op.parentPermlink = true) : ∃ s', editComment op now id s = .ok () s' := by
  have hclash : s.comments.clashes id { c with lastUpdate := now, active := now } = false :=
    clashes_of_keys hc fun _ => rfl
  have hmid := lookup_replace hc hclash id
  rw [if_pos rfl] at hmid
  have hclash' := clashes_of_keys hmid fun _ => rfl
  simp only [editComment, bind_eq_ok, modifyIn_eq_ok]
  refine ⟨_, (), _, ⟨c, _, hclash, hc, rfl, rfl⟩, _, _, hclash', hmid, ?_, rfl⟩
  rw [if_neg (not_not.mpr hauthor)]
  simp [hpermlink]

/-- What an edit is checked for before its parent is compared, and that its fee can be paid. -/
structure EditChecks (fc : TextRules) (d : Database) (op : CommentDappOperation) : Prop where
  dapp : ∃ r, d.dapp.dapps.find? (fun x => x.dappName == op.dappName) = some r ∧ r.2.dappState = .approval ∧
    ∃ owner, d.core.accounts.find? (fun a => a.name == r.2.owner) = some owner ∧
      FeePayable owner.2.balance d.core.dappRewardFund.fundBalance d.core.dgp.dappTransactionFee
  member : (d.dapp.users.find? fun u => u.dappName == op.dappName && u.accountName == op.author).isSome = true
  text : op.title.length + op.body.length + op.jsonMetadata.length ≠ 0
  author : (d.core.accounts.find? fun a => a.name == op.author).isSome = true
  parent : op.parentAuthor = default ∨
    ∃ p, d.dapp.comments.find? (isPermlink op.dappName op.parentAuthor op.parentPermlink) = some p ∧
      p.2.depth < maxCommentDepth
  metadata : (op.jsonMetadata.isEmpty || fc.isUtf8 op.jsonMetadata) = true

theorem getParent_returns {s : DappIndices} :
    (∃ parent, getParent op s = .ok parent s) ↔ op.parentAuthor = default ∨
      ∃ p, s.comments.find? (isPermlink op.dappName op.parentAuthor op.parentPermlink) = some p ∧
        p.2.depth < maxCommentDepth := by
  unfold getParent
  by_cases hroot : op.parentAuthor = default
  · rw [if_pos hroot]
    exact iff_of_true ⟨none, rfl⟩ (.inl hroot)
  · rw [if_neg hroot]
    simp only [getComment, bind_eq_ok, getIn_eq_ok, fcAssert_eq_ok, pure_eq_ok, decide_eq_true_eq]
    constructor
    · rintro ⟨_, p, _, ⟨hp, rfl⟩, _, _, ⟨hdepth, rfl⟩, -⟩
      exact .inr ⟨p, hp, hdepth⟩
    · rintro (h | ⟨p, hp, hdepth⟩)
      · exact absurd h hroot
      · exact ⟨some p, p, _, ⟨hp, rfl⟩, (), _, ⟨hdepth, rfl⟩, rfl, rfl⟩

/-- What the fee is paid for. -/
theorem commentDapp_paid (fc : TextRules)
    (hfound : d.dapp.comments.find? (isPermlink op.dappName op.author op.permlink) = some (id, c)) {d' : Database} :
    (do
      fcAssert (op.title.length + op.body.length + op.jsonMetadata.length ≠ 0)
        "Cannot update comment because nothing appears to be changing."
      let existing ← onDapp (findIn Index.comments (isPermlink op.dappName op.author op.permlink))
      let author ← onCore (getAccount op.author)
      let parent ← onDapp (getParent op)
      fcAssert (op.jsonMetadata.isEmpty || fc.isUtf8 op.jsonMetadata) "JSON Metadata must be UTF-8"
      let now ← onCore headBlockTime
      writeComment op now author parent existing : ChainM Unit) d = .ok () d' ↔
    op.title.length + op.body.length + op.jsonMetadata.length ≠ 0 ∧
      (∃ a, d.core.accounts.find? (fun x => x.name == op.author) = some a) ∧
      (∃ parent, getParent op d.dapp = .ok parent d.dapp) ∧
      (op.jsonMetadata.isEmpty || fc.isUtf8 op.jsonMetadata) = true ∧
      ∃ s, editComment op d.core.dgp.time id d.dapp = .ok () s ∧ d' = { d with dapp := s } := by
  simp only [bind_eq_ok, onCore_eq_ok, onDapp_eq_ok, findIn_eq_ok, fcAssert_eq_ok, getAccount, getIn_eq_ok,
    headBlockTime, get_eq_ok, pure_eq_ok, decide_eq_true_eq]
  constructor
  · rintro ⟨_, _, ⟨htext, rfl⟩, existing, _, ⟨_, ⟨hfind, rfl⟩, rfl⟩, author, _, ⟨_, ⟨hauthor, rfl⟩, rfl⟩, parent, _,
      ⟨s, hparent, rfl⟩, _, _, ⟨hmeta, rfl⟩, now, _, ⟨_, ⟨_, _, ⟨rfl, rfl⟩, rfl, rfl⟩, rfl⟩, hwrite⟩
    obtain rfl := (readOnly_getParent op).eq_of_ok hparent
    obtain rfl : some (id, c) = existing := hfound.symm.trans hfind
    exact ⟨htext, ⟨author, hauthor⟩, ⟨parent, hparent⟩, hmeta, onDapp_eq_ok.mp hwrite⟩
  · rintro ⟨htext, ⟨author, hauthor⟩, ⟨parent, hparent⟩, hmeta, s, hedit, rfl⟩
    exact ⟨(), d, ⟨htext, rfl⟩, some (id, c), d, ⟨d.dapp, ⟨hfound, rfl⟩, rfl⟩, author, d, ⟨d.core, ⟨hauthor, rfl⟩, rfl⟩,
      parent, d, ⟨d.dapp, hparent, rfl⟩, (), d, ⟨hmeta, rfl⟩, d.core.dgp.time, d,
      ⟨d.core, ⟨d.core, d.core, ⟨rfl, rfl⟩, rfl, rfl⟩, rfl⟩, onDapp_eq_ok.mpr ⟨s, hedit, rfl⟩⟩

/-- **When an edit is accepted.** -/
theorem commentDapp_edit_returns
    (hfound : d.dapp.comments.find? (isPermlink op.dappName op.author op.permlink) = some (id, c)) :
    (∃ d', commentDappEvaluator fc op d = .ok () d') ↔ EditChecks fc d op ∧
      c.parentAuthor = op.parentAuthor ∧ strcmpEqual c.parentPermlink op.parentPermlink = true := by
  have hc : d.dapp.comments.lookup id = some c := lookup_eq_some.mpr (mem_of_find? hfound).1
  constructor
  · rintro ⟨d', h⟩
    simp only [commentDappEvaluator, bind_eq_ok, onDapp_eq_ok, requireMember, findIn_eq_ok, fcAssert_eq_ok] at h
    obtain ⟨r, _, ⟨s, hr, rfl⟩, _, _, ⟨_, hstate, rfl⟩, _, _, ⟨_, ⟨_, _, ⟨rfl, rfl⟩, hmember, rfl⟩, rfl⟩, hpaid⟩ := h
    obtain ⟨hfind, rfl⟩ := requireDapp_eq_ok.mp hr
    obtain ⟨happroved, rfl⟩ := requireApproved_eq_ok.mp hstate
    obtain ⟨hfee, d₁, hrun⟩ := (withDappFee_returns fun d' h => by
      obtain ⟨-, -, -, -, s, -, rfl⟩ := (commentDapp_paid fc hfound).mp h
      rfl).mp ⟨d', hpaid⟩
    obtain ⟨htext, ⟨author, hauthor⟩, hparent, hmeta, s, hedit, -⟩ := (commentDapp_paid fc hfound).mp hrun
    refine ⟨⟨⟨r, hfind, happroved, hfee⟩, hmember, htext, ?_, getParent_returns.mp hparent, hmeta⟩,
      (editComment_eq_ok hc hedit).1⟩
    rw [hauthor]
    rfl
  · rintro ⟨⟨⟨r, hr, happroved, hfee⟩, hmember, htext, hauthor, hparent, hmeta⟩, hparentAuthor, hpermlink⟩
    obtain ⟨s, hedit⟩ : ∃ s, editComment op d.core.dgp.time id d.dapp = .ok () s :=
      editComment_returns hc hparentAuthor hpermlink
    have hrun := (commentDapp_paid fc hfound).mpr
      ⟨htext, Option.isSome_iff_exists.mp hauthor, getParent_returns.mpr hparent, hmeta, s, hedit, rfl⟩
    obtain ⟨d', hpaid⟩ := (withDappFee_returns fun d' h => by
      obtain ⟨-, -, -, -, s, -, rfl⟩ := (commentDapp_paid fc hfound).mp h
      rfl).mpr ⟨hfee, _, hrun⟩
    refine ⟨d', ?_⟩
    simp only [commentDappEvaluator, bind_eq_ok, onDapp_eq_ok, requireMember, findIn_eq_ok, fcAssert_eq_ok]
    exact ⟨r, d, ⟨d.dapp, requireDapp_eq_ok.mpr ⟨hr, rfl⟩, rfl⟩, (), d,
      ⟨d.dapp, requireApproved_eq_ok.mpr ⟨happroved, rfl⟩, rfl⟩, (), d,
      ⟨d.dapp, ⟨_, d.dapp, ⟨rfl, rfl⟩, hmember, rfl⟩, rfl⟩, hpaid⟩

/-! ## The parent -/

/-- What the operation leaves in place: it names the stored parent, or it fails in the session of its payload and
the comment is as it was. -/
def ParentKept (fc : TextRules) (d : Database) (op : CommentDappOperation) (id : Nat) (c : DappCommentObject) : Prop :=
  (op.parentAuthor = c.parentAuthor ∧ op.parentPermlink = c.parentPermlink) ∨
    ∃ e d', atomically (dappEvaluator fc (.commentDapp op)) d = .error e d' ∧ d'.dapp.comments.lookup id = some c

/-- **The parent of a comment.**  An edit names the stored parent or is refused and undone, unless everything else
about it is in order, the author of the parent is right and `strcmp_equal` takes another permlink for the stored
one.  No edit changes the stored parent, and a payload that is refused changes nothing. -/
theorem comment_parent_iff (fc : TextRules)
    (hfound : d.dapp.comments.find? (isPermlink op.dappName op.author op.permlink) = some (id, c)) :
    (ParentKept fc d op id c ↔ (EditChecks fc d op → c.parentAuthor = op.parentAuthor →
      strcmpEqual c.parentPermlink op.parentPermlink = true → op.parentPermlink = c.parentPermlink)) ∧
    (∀ d', dappEvaluator fc (.commentDapp op) d = .ok () d' → ∃ c', d'.dapp.comments.lookup id = some c' ∧
      c'.parentAuthor = c.parentAuthor ∧ c'.parentPermlink = c.parentPermlink) ∧
    ∀ ops outer e d', applyOperations (DappOperation.validate fc) DappOperation.getRequiredAuthorities
      (dappEvaluator fc) ops outer d = .error e d' → d' = d := by
  have hc : d.dapp.comments.lookup id = some c := lookup_eq_some.mpr (mem_of_find? hfound).1
  have hreturns := @commentDapp_edit_returns d fc op id c hfound
  refine ⟨⟨?_, fun hsame => ?_⟩, fun d' h => ?_, fun ops outer e d' h => ?_⟩
  · rintro (⟨-, hpermlink⟩ | ⟨e, d', herror, -⟩) hchecks hauthor hequal
    · exact hpermlink
    · obtain ⟨d₁, hrun⟩ := hreturns.mpr ⟨hchecks, hauthor, hequal⟩
      have hok : atomically (dappEvaluator fc (.commentDapp op)) d = .ok () d₁ := atomically_eq_ok.mpr hrun
      rw [hok] at herror
      cases herror
  · by_cases hrun : ∃ d', commentDappEvaluator fc op d = .ok () d'
    · obtain ⟨hchecks, hauthor, hequal⟩ := hreturns.mp hrun
      exact .inl ⟨hauthor.symm, hsame hchecks hauthor hequal⟩
    · right
      cases herror : commentDappEvaluator fc op d with
      | ok u d' => exact absurd ⟨d', herror⟩ hrun
      | error e d' => exact ⟨e, d, by unfold atomically; rw [show dappEvaluator fc (.commentDapp op) d = _ from herror], hc⟩
  · cases dappStep_commentDapp h with
    | posted _ _ _ _ hnew =>
      rw [hfound] at hnew
      cases hnew
    | edited hfound' hedit =>
      obtain rfl := Option.some.inj (hfound.symm.trans hfound')
      exact ⟨_, (editComment_eq_ok hc hedit).2, rfl, rfl⟩
  · exact atomically_eq_error h

/-! ## An edit under another permlink -/

/-- An edit of the comment, of the posts under `parentPermlink`. -/
def editHello (parentPermlink : Bytes) : CommentDappOperation where
  dappName := named "shop"
  parentAuthor := default
  parentPermlink := parentPermlink
  author := rootAccount
  permlink := ascii "hello".toList
  title := []
  body := ascii "Again".toList
  jsonMetadata := []

/-- The comment, posted under `news`, and what becomes of two edits of it. -/
theorem posted_hello : Reached forumEnv (likedState 0) ∧
    ((likedState 0).dapp.comments.find? (isPermlink (named "shop") rootAccount (ascii "hello".toList))).map
        (fun r => (r.1, r.2.parentAuthor, r.2.parentPermlink)) = some (0, default, ascii "news".toList) ∧
    succeeds (commentDappEvaluator forumEnv.fc (editHello (ascii "olds".toList)) (likedState 0)) = true := by
  have hrun : succeeds (applyBlock forumEnv {} (likedBlock 0) forumState) = true ∧
      ((likedState 0).dapp.comments.find? (isPermlink (named "shop") rootAccount (ascii "hello".toList))).map
        (fun r => (r.1, r.2.parentAuthor, r.2.parentPermlink)) = some (0, default, ascii "news".toList) ∧
      succeeds (commentDappEvaluator forumEnv.fc (editHello (ascii "olds".toList)) (likedState 0)) = true := by
    decide +kernel
  obtain ⟨happly, hstate⟩ := hrun
  obtain ⟨hfirst, hsecond⟩ := applyBlock_likedBlock happly
  exact ⟨((Reached.genesis ⟨1⟩).block {} dappBlock hfirst).block {} (likedBlock 0) hsecond, hstate⟩

theorem comment_parent_hello : ∃ c, ParentKept forumEnv.fc (likedState 0) (editHello (ascii "news".toList)) 0 c := by
  obtain ⟨⟨id, c⟩, hfound, hstored⟩ := Option.map_eq_some_iff.mp posted_hello.2.1
  obtain ⟨rfl, -, hpermlink⟩ : id = 0 ∧ c.parentAuthor = default ∧ c.parentPermlink = ascii "news".toList := by
    simpa using hstored
  refine ⟨c, (@comment_parent_iff (likedState 0) (editHello (ascii "news".toList)) 0 c forumEnv.fc hfound).1.mpr
    fun _ _ _ => ?_⟩
  exact hpermlink.symm

/-- An edit that names another permlink of the same length is accepted. -/
theorem edit_under_olds : ∃ d op id c, Reached forumEnv d ∧ runChecks (op.validate forumEnv.fc) = .ok () ∧
    d.dapp.comments.find? (isPermlink op.dappName op.author op.permlink) = some (id, c) ∧
    ¬ ParentKept forumEnv.fc d op id c := by
  obtain ⟨hreached, hrow, hedit⟩ := posted_hello
  obtain ⟨⟨id, c⟩, hfound, hstored⟩ := Option.map_eq_some_iff.mp hrow
  obtain ⟨rfl, -, hpermlink⟩ : id = 0 ∧ c.parentAuthor = default ∧ c.parentPermlink = ascii "news".toList := by
    simpa using hstored
  refine ⟨likedState 0, editHello (ascii "olds".toList), 0, c, hreached, by decide +kernel, hfound, ?_⟩
  rintro (⟨-, hsame⟩ | ⟨e, d', herror, -⟩)
  · rw [hpermlink] at hsame
    exact absurd hsame (by decide)
  · have hok := eq_ok_of_succeeds hedit
    unfold atomically at herror
    rw [show dappEvaluator forumEnv.fc (.commentDapp (editHello (ascii "olds".toList))) (likedState 0) = _ from hok]
      at herror
    cases herror

end Dapp

end Sigmaengine
