import Sigmaengine.Dapp.Runs

/-!
# Votes on comments

A comment carries the number of likes and of dislikes it has received, and the votes themselves are stored
beside it.  The two agree as long as nobody casts the same vote twice: a repeated vote is counted once more
but only refreshes the vote that is stored.
-/

namespace Sigmaengine.Dapp

open Sigmaengine Effect Table

variable {d : Database} {s s' : DappIndices} {votes : Table DappCommentVoteObject}

/-- The counter of a comment that counts the votes of a kind. -/
def DappCommentObject.counter (c : DappCommentObject) : CommentVoteType → Nat
  | .like => c.likeCount
  | .dislike => c.dislikeCount

/-- A vote of a kind for a comment. -/
def votesFor (comment : Nat) (type : CommentVoteType) (v : DappCommentVoteObject) : Bool :=
  v.comment == comment && v.voteType == type

/-- How many votes of a kind are stored for a comment. -/
def storedVotes (votes : Table DappCommentVoteObject) (comment : Nat) (type : CommentVoteType) : Nat :=
  votes.rows.countP fun r => votesFor comment type r.2

/-- Every comment counts the votes of each kind that are stored for it. -/
structure VotesCounted (forum : Table DappCommentObject × Table DappCommentVoteObject) : Prop where
  counted : ∀ id c, forum.1.lookup id = some c → ∀ type, c.counter type = storedVotes forum.2 id type
  counter_lt : ∀ id c, forum.1.lookup id = some c → ∀ type, c.counter type < 4294967296
  /-- Votes are for comments that were stored before. -/
  voted : ∀ r ∈ forum.2.rows, r.2.comment < forum.1.nextId

/-! ## Counting stored votes -/

theorem votesFor_iff {comment : Nat} {type : CommentVoteType} {v : DappCommentVoteObject} :
    votesFor comment type v = true ↔ v.comment = comment ∧ v.voteType = type := by
  simp only [votesFor, Bool.and_eq_true, beq_iff_eq]

theorem storedVotes_insert {v : DappCommentVoteObject} (hv : votes.clashes votes.nextId v = false) (comment : Nat)
    (type : CommentVoteType) :
    storedVotes (votes.insert v hv) comment type =
      storedVotes votes comment type + if votesFor comment type v then 1 else 0 := by
  show (votes.rows ++ [(votes.nextId, v)]).countP _ = _
  rw [List.countP_append, List.countP_singleton]
  rfl

/-- Refreshing a vote leaves the numbers as they are. -/
theorem storedVotes_replace {r : Nat × DappCommentVoteObject} {now : TimePointSec} (hr : r ∈ votes.rows)
    (hv : votes.clashes r.1 { r.2 with lastUpdate := now } = false) (comment : Nat) (type : CommentVoteType) :
    storedVotes (votes.replace r.1 { r.2 with lastUpdate := now } hv) comment type = storedVotes votes comment type :=
  Nat.add_right_cancel (countP_replace (lookup_eq_some.mpr hr) _ hv (votesFor comment type))

theorem storedVotes_without {comment gone : Nat} (hne : comment ≠ gone) (type : CommentVoteType) :
    storedVotes (votes.without fun v => v.comment == gone) comment type = storedVotes votes comment type := by
  unfold storedVotes
  rw [rows_without, List.countP_filter]
  refine List.countP_congr fun r _ => ?_
  rw [Bool.and_eq_true, votesFor_iff, Bool.not_eq_true', beq_eq_false_iff_ne]
  constructor
  · exact And.left
  · rintro ⟨rfl, htype⟩
    exact ⟨⟨rfl, htype⟩, hne⟩

theorem counter_countVote (type type' : CommentVoteType) (c : DappCommentObject) :
    (countVote type c).counter type' =
      if type = type' then (c.counter type' + 1) % 4294967296 else c.counter type' := by
  cases type <;> cases type' <;> rfl

theorem VotesCounted.counter_eq (h : VotesCounted s.forum) {id : Nat} {c : DappCommentObject}
    (hc : s.comments.lookup id = some c) (type : CommentVoteType) :
    c.counter type = storedVotes s.commentVotes id type :=
  h.counted id c hc type

/-! ## Steps -/

theorem VotesCounted.congr (hcount : VotesCounted s.forum) (h : SameRows DappCommentObject.counter s s') :
    VotesCounted s'.forum := by
  have hvotes : s'.commentVotes = s.commentVotes := h.commentVotes
  have hnext : s'.comments.nextId = s.comments.nextId := congrArg (fun p => p.2.2.2.2.2) h
  refine ⟨fun id c hc type => ?_, fun id c hc type => ?_, fun r hr => ?_⟩
  · obtain ⟨c₀, hc₀, hkey⟩ := h.lookup hc
    show c.counter type = storedVotes s'.commentVotes id type
    rw [← hkey, hvotes]
    exact hcount.counted id c₀ hc₀ type
  · obtain ⟨c₀, hc₀, hkey⟩ := h.lookup hc
    rw [← hkey]
    exact hcount.counter_lt id c₀ hc₀ type
  · show r.2.comment < s'.comments.nextId
    rw [hnext]
    have hr' : r ∈ s'.commentVotes.rows := hr
    rw [hvotes] at hr'
    exact hcount.voted r hr'

/-- No vote for a comment that is not there yet. -/
theorem VotesCounted.none_stored (hcount : VotesCounted s.forum) (type : CommentVoteType) :
    storedVotes s.commentVotes s.comments.nextId type = 0 := by
  refine List.countP_eq_zero.mpr fun r hr hvote => ?_
  exact Nat.ne_of_lt (hcount.voted r hr) (votesFor_iff.mp hvote).1

theorem VotesCounted.insert (hcount : VotesCounted s.forum) {c : DappCommentObject}
    (hc : s.comments.clashes s.comments.nextId c = false) (hnew : ∀ type, c.counter type = 0) :
    VotesCounted { s with comments := s.comments.insert c hc }.forum := by
  have hcases : ∀ id x, (s.comments.insert c hc).lookup id = some x →
      id = s.comments.nextId ∧ c = x ∨ s.comments.lookup id = some x := by
    intro id x hx
    rw [lookup_insert] at hx
    split at hx
    next hid => exact .inl ⟨hid, Option.some.inj hx⟩
    next => exact .inr hx
  refine ⟨fun id x hx type => ?_, fun id x hx type => ?_, fun r hr => ?_⟩
  · rcases hcases id x hx with ⟨rfl, rfl⟩ | hx
    · exact (hnew type).trans (hcount.none_stored type).symm
    · exact hcount.counted id x hx type
  · rcases hcases id x hx with ⟨rfl, rfl⟩ | hx
    · rw [hnew]
      omega
    · exact hcount.counter_lt id x hx type
  · exact Nat.lt_succ_of_lt (hcount.voted r hr)

/-- A new comment has no votes. -/
theorem VotesCounted.store (hcount : VotesCounted s.forum) {op : CommentDappOperation} {now : TimePointSec}
    {parent : Option (Nat × DappCommentObject)} {u : Unit} (h : storeComment op now parent s = .ok u s') :
    VotesCounted s'.forum := by
  cases parent with
  | none =>
    obtain ⟨hc, hstored⟩ := storeComment_eq_ok h
    have hinsert := hcount.insert hc fun type => by cases type <;> rfl
    rw [show s' = _ from hstored]
    exact hinsert
  | some p =>
    obtain ⟨hc, hrun⟩ := storeComment_eq_ok h
    have hinsert := hcount.insert hc fun type => by cases type <;> rfl
    exact hinsert.congr (runs_countChild (fun _ _ _ => rfl) _ _ _ _ _ _ hrun)

/-- A comment goes together with the votes on it. -/
theorem VotesCounted.drop (hcount : VotesCounted s.forum) {id : Nat}
    (h : SameRows DappCommentObject.counter { s with commentVotes := s.commentVotes.without fun v => v.comment == id } s') :
    VotesCounted { s' with comments := s'.comments.erase id }.forum := by
  have hvotes : s'.commentVotes = s.commentVotes.without fun v => v.comment == id := h.commentVotes
  have hnext : s'.comments.nextId = s.comments.nextId := congrArg (fun p => p.2.2.2.2.2) h
  have hold : ∀ y x, (s'.comments.erase id).lookup y = some x →
      y ≠ id ∧ ∃ x₀, s.comments.lookup y = some x₀ ∧ x₀.counter = x.counter := by
    intro y x hx
    rw [lookup_erase] at hx
    split at hx
    next => cases hx
    next hy => exact ⟨hy, h.lookup hx⟩
  refine ⟨fun y x hx type => ?_, fun y x hx type => ?_, fun r hr => ?_⟩
  · obtain ⟨hy, x₀, hx₀, hkey⟩ := hold y x hx
    show x.counter type = storedVotes s'.commentVotes y type
    rw [← hkey, hvotes, storedVotes_without hy]
    exact hcount.counted y x₀ hx₀ type
  · obtain ⟨-, x₀, hx₀, hkey⟩ := hold y x hx
    rw [← hkey]
    exact hcount.counter_lt y x₀ hx₀ type
  · have hr' : r ∈ s'.commentVotes.rows := hr
    rw [hvotes, mem_without] at hr'
    show r.2.comment < s'.comments.nextId
    rw [hnext]
    exact hcount.voted r hr'.1

/-- The counter of one kind on one comment goes up, and nothing else changes besides the votes `votes`. -/
theorem VotesCounted.count_iff (hcount : VotesCounted s.forum) {id : Nat} {c : DappCommentObject} {type : CommentVoteType}
    (hlookup : s.comments.lookup id = some c) (hc : s.comments.clashes id (countVote type c) = false)
    (hvoted : ∀ r ∈ votes.rows, r.2.comment < s.comments.nextId)
    (hother : ∀ y kind, ¬ (y = id ∧ kind = type) → storedVotes votes y kind = storedVotes s.commentVotes y kind) :
    VotesCounted { s with comments := s.comments.replace id (countVote type c) hc, commentVotes := votes }.forum ↔
      (storedVotes s.commentVotes id type + 1) % 4294967296 = storedVotes votes id type := by
  have hsame := hcount.counter_eq hlookup type
  have hself := (lookup_replace hlookup hc id).trans (if_pos rfl)
  constructor
  · intro h
    have hnow := h.counted id _ hself type
    rw [counter_countVote, if_pos rfl, hsame] at hnow
    exact hnow
  · intro hnow
    have hcases : ∀ y x, (s.comments.replace id (countVote type c) hc).lookup y = some x →
        (y = id ∧ countVote type c = x) ∨ (y ≠ id ∧ s.comments.lookup y = some x) := by
      intro y x hx
      rw [lookup_replace hlookup] at hx
      split at hx
      next hy => exact .inl ⟨hy, Option.some.inj hx⟩
      next hy => exact .inr ⟨hy, hx⟩
    refine ⟨fun y x hx kind => ?_, fun y x hx kind => ?_, hvoted⟩
    · show x.counter kind = storedVotes votes y kind
      rcases hcases y x hx with ⟨rfl, rfl⟩ | ⟨hy, hold⟩
      · rw [counter_countVote]
        split
        next htype =>
          subst htype
          rw [hsame, hnow]
        next htype =>
          rw [hother y kind fun h => htype h.2.symm]
          exact hcount.counted y c hlookup kind
      · rw [hother y kind fun h => hy h.1]
        exact hcount.counted y x hold kind
    · rcases hcases y x hx with ⟨rfl, rfl⟩ | ⟨-, hold⟩
      · rw [counter_countVote]
        split
        · exact Nat.mod_lt _ (by omega)
        · exact hcount.counter_lt y c hlookup kind
      · exact hcount.counter_lt y x hold kind

end Sigmaengine.Dapp

namespace Sigmaengine

open Effect Table Dapp

variable {env : Env} {d d' : Database}

/-- A vote on a comment is the voter's first of its kind, and the counter has room for it. -/
def NewVote (d : Database) : DappOperation → Prop
  | .commentVoteDapp o =>
    ∀ c ∈ d.dapp.comments.find? (isPermlink o.dappName o.author o.permlink),
      ∀ voter ∈ d.core.accounts.find? (fun a => a.name == o.voter), ∀ type ∈ CommentVoteType.ofNat? o.voteType,
        (d.dapp.commentVotes.find? fun v => v.comment == c.1 && v.voter == voter.1 && v.voteType == type).isNone ∧
          storedVotes d.dapp.commentVotes c.1 type + 1 < 4294967296
  | _ => True

/-- **One operation** keeps the counters right exactly when it is not a repeated vote. -/
theorem DappStep.votesCounted_iff {op : DappOperation} {s' : DappIndices} (h : DappStep d op s')
    (hcount : VotesCounted d.dapp.forum) : VotesCounted s'.forum ↔ NewVote d op := by
  cases h with
  | posted hfound happroved hname hparent hnew hstore => exact iff_of_true (hcount.store hstore) trivial
  | edited hfound hedit =>
    exact iff_of_true (hcount.congr (runs_editComment (fun _ _ _ => rfl) _ _ _ _ _ _ hedit)) trivial
  | deleted hfound hleaf hdelete =>
    obtain ⟨s₁, hrun, rfl⟩ := deleteComment_eq_ok hdelete
    exact iff_of_true (hcount.drop (runs_uncountChild (fun _ _ _ => rfl) _ _ _ _ _ _ hrun)) trivial
  | @voted op _ type c voter now hfound hvoter htype hcast =>
    obtain ⟨x, hc, hlookup, hstore⟩ := castVote_eq_ok hcast
    have hlt : storedVotes d.dapp.commentVotes c.1 type < 4294967296 := by
      rw [← hcount.counter_eq hlookup]
      exact hcount.counter_lt c.1 x hlookup type
    simp only [NewVote, hfound, hvoter, htype, Option.mem_some_iff, forall_eq', Option.isNone_iff_eq_none]
    rcases hstore with ⟨hnone, hv, rfl⟩ | ⟨r, hr, hcomment, hby, hkind, hv, rfl⟩
    · have hself : Dapp.votesFor c.1 type ⟨op.dappName, voter.1, c.1, type, now⟩ = true := votesFor_iff.mpr ⟨rfl, rfl⟩
      rw [hcount.count_iff hlookup hc, storedVotes_insert, if_pos hself]
      · constructor
        · intro h
          exact ⟨hnone, by omega⟩
        · rintro ⟨-, h⟩
          exact Nat.mod_eq_of_lt h
      · intro v hv'
        rcases mem_insert.mp hv' with hv' | rfl
        · exact hcount.voted v hv'
        · exact d.dapp.comments.fresh (c.1, x) (lookup_eq_some.mp hlookup)
      · intro y kind hne
        rw [storedVotes_insert, if_neg, Nat.add_zero]
        rw [votesFor_iff]
        exact fun h => hne ⟨h.1.symm, h.2.symm⟩
    · rw [hcount.count_iff hlookup hc, storedVotes_replace hr]
      · refine iff_of_false (by omega) fun h => ?_
        -- the stored vote is the one the search would have found
        have hnone := find?_eq_none h.1 hr
        simp [hcomment, hby, hkind] at hnone
      · intro v hv'
        obtain ⟨w, hw, hsame⟩ : ∃ w ∈ d.dapp.commentVotes.rows, w.2.comment = v.2.comment := by
          rcases mem_replace.mp hv' with ⟨hmem, -⟩ | ⟨rfl, -⟩
          · exact ⟨v, hmem, rfl⟩
          · exact ⟨r, hr, rfl⟩
        rw [← hsame]
        exact hcount.voted w hw
      · exact fun y kind _ => storedVotes_replace hr hv y kind
  | created | rekeyed | joined | left | voteCast | voteChanged | feeVoted => exact iff_of_true hcount trivial

/-- **The counters of votes.**  In runs in which nobody casts a vote again, every comment counts the votes that
are stored for it; and wherever that is so, an operation keeps it exactly when it is not a repeated vote. -/
theorem vote_counters (env : Env) :
    (∀ d, Visited env NewVote d → VotesCounted d.dapp.forum) ∧
      ∀ d d' op, VotesCounted d.dapp.forum → dappEvaluator env.fc op d = .ok () d' →
        (VotesCounted d'.dapp.forum ↔ NewVote d op) := by
  constructor
  · intro d h
    refine h.forum (fun d op s' hstep hnew hcount => (DappStep.votesCounted_iff hstep hcount).mpr hnew) ?_
    refine ⟨?_, ?_, ?_⟩
    · intro id c hc
      cases hc
    · intro id c hc
      cases hc
    · intro r hr
      cases hr
  · exact fun d d' op hcount h => DappStep.votesCounted_iff (dappStep_dappEvaluator h) hcount

/-! ## A dapp with a comment -/

/-- A text of fewer than 128 bytes on the wire: its length, then its bytes. -/
def packText (text : Bytes) : Bytes := UInt8.ofNat text.length :: text

def unpackText : Bytes → Option (Bytes × Bytes)
  | [] => none
  | n :: rest =>
    if n.toNat < 128 ∧ n.toNat ≤ rest.length then some (rest.take n.toNat, rest.drop n.toNat) else none

def unpackTexts : Nat → Bytes → Option (List Bytes × Bytes)
  | 0, data => some ([], data)
  | n + 1, data =>
    match unpackText data with
    | none => none
    | some (text, rest) => (unpackTexts n rest).map fun p => (text :: p.1, p.2)

/-- One operation of the forum: how many there are, the number of its type, and its fields. -/
def unpackForum : Bytes → Option (List DappOperation)
  | 1 :: 2 :: data =>
    match unpackTexts 8 data with
    | some ([dapp, parentAuthor, parentPermlink, author, permlink, title, body, metadata], []) =>
      some [.commentDapp ⟨.ofBytes dapp, .ofBytes parentAuthor, parentPermlink, .ofBytes author, permlink, title, body,
        metadata⟩]
    | _ => none
  | 1 :: 3 :: data =>
    match unpackTexts 4 data with
    | some ([dapp, voter, author, permlink], [low, high]) =>
      some [.commentVoteDapp ⟨.ofBytes dapp, .ofBytes voter, .ofBytes author, permlink, low.toNat + 256 * high.toNat⟩]
    | _ => none
  | 1 :: 5 :: data =>
    match unpackTexts 2 data with
    | some ([account, dapp], []) => some [.joinDapp ⟨.ofBytes account, .ofBytes dapp⟩]
    | _ => none
  | _ => none

/-- The sample node with the dapp plugin, reading comments and votes in their binary form. -/
def forumEnv : Env :=
  { tokenEnv with
    plugins := [.dapp]
    decodeDapp := fun
      | .json text => tokenEnv.decodeDapp (.json text)
      | .binary data => unpackForum data }

/-- A custom operation for the dapp plugin, with the posting authority of `author`. -/
def forumOperation (author : AccountName) (data : Bytes) : Operation :=
  .customBinary ⟨[], [], [author], [], ascii ['d', 'a', 'p', 'p'], data⟩

/-- Root posts in the shop. -/
def postComment : Operation :=
  forumOperation rootAccount (1 :: 2 :: (["shop", "", "news", "root", "hello", "Hello", "World", ""].flatMap fun t =>
    packText (ascii t.toList)))

/-- Root likes the comment. -/
def likeComment : Operation :=
  forumOperation rootAccount (1 :: 3 :: (["shop", "root", "root", "hello"].flatMap fun t =>
    packText (ascii t.toList)) ++ [11, 0])

/-- The comment is posted and liked a number of times. -/
def likedBlock (times : Nat) : SignedBlock :=
  sampleBlock (dappBlock.id forumEnv.codec) 2 (postComment :: List.replicate times likeComment)

def forumState : Database := after (applyBlock forumEnv {} dappBlock (genesis ⟨1⟩))

def likedState (times : Nat) : Database := after (applyBlock forumEnv {} (likedBlock times) forumState)

instance (d : Database) (op : DappOperation) : Decidable (NewVote d op) :=
  match op with
  | .commentVoteDapp _ => inferInstanceAs (Decidable (∀ _ ∈ _, ∀ _ ∈ _, ∀ _ ∈ _, _ ∧ _))
  | .createDapp _ | .updateDappKey _ | .commentDapp _ | .deleteCommentDapp _ | .joinDapp _ | .leaveDapp _
  | .voteDapp _ | .voteDappTrxFee _ => isTrue trivial

instance (env : Env) (ok : Database → DappOperation → Prop) [∀ d op, Decidable (ok d op)] (d : Database)
    (op : Operation) : Decidable (EachDapp env ok d op) :=
  inferInstanceAs (Decidable (∀ _ ∈ _, _ → ∀ _ ∈ _, _))

theorem applyBlock_likedBlock {times : Nat} (h : succeeds (applyBlock forumEnv {} (likedBlock times) forumState) = true) :
    applyBlock forumEnv {} dappBlock (genesis ⟨1⟩) = .ok () forumState ∧
      applyBlock forumEnv {} (likedBlock times) forumState = .ok () (likedState times) := by
  have hdapp : succeeds (applyBlock forumEnv {} dappBlock (genesis ⟨1⟩)) = true := by decide +kernel
  exact ⟨eq_ok_of_succeeds hdapp, eq_ok_of_succeeds h⟩

theorem vote_counters_likedState : EachOperation forumEnv {} (EachDapp forumEnv NewVote) (likedBlock 1) forumState ∧
    (likedState 1).dapp.commentVotes.rows.length = 1 ∧ VotesCounted (likedState 1).dapp.forum := by
  have hrun : EachOperation forumEnv {} (EachDapp forumEnv NewVote) dappBlock (genesis ⟨1⟩) ∧
      EachOperation forumEnv {} (EachDapp forumEnv NewVote) (likedBlock 1) forumState ∧
      succeeds (applyBlock forumEnv {} (likedBlock 1) forumState) = true ∧
      (likedState 1).dapp.commentVotes.rows.length = 1 := by
    decide +kernel
  obtain ⟨hdapp, hliked, happly, hlength⟩ := hrun
  obtain ⟨hfirst, hsecond⟩ := applyBlock_likedBlock happly
  have hvisited : Visited forumEnv NewVote (likedState 1) :=
    ((Visited.genesis ⟨1⟩).block {} dappBlock hdapp hfirst).block {} (likedBlock 1) hliked hsecond
  exact ⟨hliked, hlength, (vote_counters forumEnv).1 _ hvisited⟩

/-- A like that is cast twice is counted twice and stored once. -/
theorem like_cast_twice : Reached forumEnv (likedState 2) ∧ ¬ VotesCounted (likedState 2).dapp.forum := by
  have hrun : succeeds (applyBlock forumEnv {} (likedBlock 2) forumState) = true ∧
      ((likedState 2).dapp.comments.lookup 0).map DappCommentObject.likeCount = some 2 ∧
      storedVotes (likedState 2).dapp.commentVotes 0 .like = 1 := by
    decide +kernel
  obtain ⟨happly, hrow, hstored⟩ := hrun
  obtain ⟨hfirst, hsecond⟩ := applyBlock_likedBlock happly
  refine ⟨((Reached.genesis ⟨1⟩).block {} dappBlock hfirst).block {} (likedBlock 2) hsecond, fun h => ?_⟩
  obtain ⟨c, hc, hcount⟩ := Option.map_eq_some_iff.mp hrow
  have hcounted := h.counter_eq hc .like
  rw [hstored, show c.counter .like = 2 from hcount] at hcounted
  exact absurd hcounted (by decide)

end Sigmaengine
