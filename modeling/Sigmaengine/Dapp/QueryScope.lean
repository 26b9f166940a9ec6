import Sigmaengine.Dapp.Lifecycle
import Sigmaengine.Dapp.Queries
import Sigmaengine.Dapp.Voters

/-!
# What queries of a dapp are about

The walk over the contents of a dapp stops where another dapp begins.  The walks over the comments of an author and
over the replies to an account do not: they go on as long as the author or the account is the same, and throw on a
comment that the dapp of the query does not have, or return it.  The votes of an account are those in all dapps.
-/

namespace Sigmaengine.Dapp

open OrderedIndex Table

variable {d : Database} {dappName : DappName}

/-! ## Lists -/

/-- A map that never throws, seen through its results. -/
theorem mapM_ok {ε α β γ : Type} {f : α → Except ε β} {h : β → γ} {k : α → γ} {as : List α}
    (hf : ∀ a ∈ as, ∃ b, f a = .ok b ∧ h b = k a) : ∃ bs, as.mapM f = .ok bs ∧ bs.map h = as.map k := by
  induction as with
  | nil => exact ⟨[], rfl, rfl⟩
  | cons a as ih =>
    obtain ⟨b, hb, hbk⟩ := hf a List.mem_cons_self
    obtain ⟨bs, hbs, hbsk⟩ := ih fun a' ha' => hf a' (.tail _ ha')
    refine ⟨b :: bs, ?_, ?_⟩
    · rw [List.mapM_cons, hb, hbs]
      rfl
    · rw [List.map_cons, List.map_cons, hbk, hbsk]

/-! ## Votes on a comment -/

/-- A dapp has a comment under the author and the permlink of a comment. -/
def answers (d : Database) (dappName : DappName) (c : Comment) : Bool :=
  (d.dapp.comments.find? (isPermlink dappName (.ofBytes c.2.author.toBytes) c.2.permlink)).isSome

theorem getDappActiveVotes_ok (hd : VotersKnown d) {author : AccountName} {permlink : Bytes} (type : CommentVoteType)
    (hfound : (d.dapp.comments.find? (isPermlink dappName author permlink)).isSome = true) :
    ∃ votes, getDappActiveVotes d dappName author permlink type = .ok votes := by
  obtain ⟨c, hc⟩ := Option.isSome_iff_exists.mp hfound
  unfold getDappActiveVotes
  rw [hc]
  dsimp only
  refine (mapM_ok (h := fun _ => ()) (k := fun _ => ()) fun v hv => ?_).imp fun _ h => h.1
  have hmem := List.mem_of_mem_filter hv
  have hrow : v ∈ d.dapp.commentVotes.rows := by
    have hsuffix := (List.takeWhile_prefix _).subset hmem
    exact mem_ordered.mp ((List.dropWhile_suffix _).subset hsuffix)
  obtain ⟨a, ha⟩ := hd v.2 (mem_values.mpr ⟨v.1, hrow⟩)
  exact ⟨⟨a.name, v.2.lastUpdate⟩, by rw [ha], rfl⟩

/-- **A comment can be shown** where the dapp of the query has one under its author and permlink. -/
theorem discussion_ok (hd : VotersKnown d) {c : Comment} (h : answers d dappName c = true) :
    ∃ x, discussion d dappName c = .ok x ∧ (x.id, x.comment) = c := by
  obtain ⟨likes, hlikes⟩ := getDappActiveVotes_ok hd .like h
  obtain ⟨dislikes, hdislikes⟩ := getDappActiveVotes_ok hd .dislike h
  refine ⟨⟨c.1, c.2, likes, dislikes⟩, ?_, rfl⟩
  unfold discussion
  simp only [hlikes, hdislikes]
  rfl

theorem eq_of_discussion {c : Comment} {x : DappDiscussion} (h : discussion d dappName c = .ok x) :
    (x.id, x.comment) = c := by
  unfold discussion at h
  dsimp only at h
  cases hlikes : getDappActiveVotes d dappName (.ofBytes c.2.author.toBytes) c.2.permlink .like with
  | error e =>
    rw [hlikes] at h
    cases h
  | ok likes =>
    cases hdislikes : getDappActiveVotes d dappName (.ofBytes c.2.author.toBytes) c.2.permlink .dislike with
    | error e =>
      rw [hlikes, hdislikes] at h
      cases h
    | ok dislikes =>
      rw [hlikes, hdislikes] at h
      cases h
      rfl

theorem discussion_error {c : Comment} (h : answers d dappName c = false) :
    discussion d dappName c = .error .notFound := by
  have hnone : d.dapp.comments.find? (isPermlink dappName (.ofBytes c.2.author.toBytes) c.2.permlink) = none := by
    rw [← Option.not_isSome_iff_eq_none, Bool.not_eq_true]
    exact h
  unfold discussion getDappActiveVotes
  simp only [hnone]
  rfl

/-! ## Walks -/

/-- A query is about its dapp: what it returns is in it, and what it throws at. -/
def Inside {α : Type} (dappName : DappName) (of : α → DappName) : Query (List α) → Prop
  | .ok xs => ∀ x ∈ xs, of x = dappName
  | .error (.refused _) => True
  | .error (.at_ name _) => name = dappName

/-- The comments that a walk would show. -/
def reach (inCommon shown : DappCommentObject → Bool) (limit : Nat) (itr : List Comment) : List Comment :=
  ((itr.takeWhile fun c => inCommon c.2).filter fun c => shown c.2).take limit

/-- The first of some comments that is not answered is in the dapp; where all are answered, so are all. -/
def Stays (d : Database) (dappName : DappName) (within : List Comment) : Prop :=
  match within.find? fun c => !answers d dappName c with
  | some c => c.2.dappName = dappName
  | none => ∀ c ∈ within, c.2.dappName = dappName

section Walks

variable {inCommon shown : DappCommentObject → Bool}

/-- **A walk** shows the comments within reach, or throws at the first that is not answered. -/
theorem walk_spec (hd : VotersKnown d) (limit : Nat) (itr : List Comment) :
    match (reach inCommon shown limit itr).find? fun c => !answers d dappName c with
    | some c => walk d dappName inCommon shown limit itr = .error (.at_ c.2.dappName .notFound)
    | none => ∃ xs, walk d dappName inCommon shown limit itr = .ok xs ∧
        (xs.map fun x => (x.id, x.comment)) = reach inCommon shown limit itr := by
  induction itr generalizing limit with
  | nil =>
    cases limit with
    | zero => exact ⟨[], rfl, rfl⟩
    | succ left => exact ⟨[], rfl, rfl⟩
  | cons c rest ih =>
    cases limit with
    | zero => exact ⟨[], rfl, rfl⟩
    | succ left =>
      by_cases hcommon : inCommon c.2 = true
      swap
      · have hreach : reach inCommon shown (left + 1) (c :: rest) = [] := by simp [reach, hcommon]
        rw [hreach]
        exact ⟨[], by rw [walk, if_neg hcommon], rfl⟩
      by_cases hshown : shown c.2 = true
      swap
      · have hreach : reach inCommon shown (left + 1) (c :: rest) = reach inCommon shown (left + 1) rest := by
          simp [reach, hcommon, hshown]
        rw [hreach, walk, if_pos hcommon, if_neg hshown]
        exact ih (left + 1)
      have hreach : reach inCommon shown (left + 1) (c :: rest) = c :: reach inCommon shown left rest := by
        simp [reach, hcommon, hshown]
      rw [hreach, walk, if_pos hcommon, if_pos hshown, List.find?_cons]
      cases hanswered : answers d dappName c with
      | false => simp [discussion_error hanswered]
      | true =>
        obtain ⟨x, hx, hxc⟩ := discussion_ok hd hanswered
        have hrest := ih left
        simp only [Bool.not_true, hx]
        cases hfind : (reach inCommon shown left rest).find? fun c => !answers d dappName c with
        | some c' =>
          rw [hfind] at hrest
          dsimp only at hrest ⊢
          rw [hrest]
          rfl
        | none =>
          rw [hfind] at hrest
          obtain ⟨xs, hxs, hmap⟩ := hrest
          refine ⟨x :: xs, ?_, ?_⟩
          · rw [hxs]
            rfl
          · rw [List.map_cons, hxc, hmap]

/-- **A walk is about its dapp** exactly where the comments within reach are. -/
theorem inside_walk (hd : VotersKnown d) (limit : Nat) (itr : List Comment) :
    Inside dappName (fun x => x.comment.dappName) (walk d dappName inCommon shown limit itr) ↔
      Stays d dappName (reach inCommon shown limit itr) := by
  have hspec := @walk_spec d dappName inCommon shown hd limit itr
  unfold Stays
  cases hfind : (reach inCommon shown limit itr).find? fun c => !answers d dappName c with
  | some c =>
    rw [hfind] at hspec
    dsimp only at hspec ⊢
    rw [hspec]
    rfl
  | none =>
    rw [hfind] at hspec
    obtain ⟨xs, hxs, hmap⟩ := hspec
    rw [hxs, ← hmap]
    show (∀ x ∈ xs, x.comment.dappName = dappName) ↔ ∀ c ∈ xs.map _, _
    rw [List.forall_mem_map]

end Walks

/-! ## Comments of an author, and replies to one -/

theorem startComment_refused {author : AccountName} {permlink : Bytes} {e : Thrown}
    (h : startComment d dappName author permlink = .error e) : ∃ e', e = .refused e' := by
  unfold startComment at h
  split at h
  · cases h
    exact ⟨_, rfl⟩
  · cases h

theorem discussionsStart_refused {author : AccountName} {permlink : Bytes} {date : TimePointSec} {e : Thrown}
    (h : discussionsStart d dappName author permlink date = .error e) : ∃ e', e = .refused e' := by
  unfold discussionsStart at h
  dsimp only at h
  split at h
  · cases hstart : startComment d dappName author permlink with
    | error e' =>
      rw [hstart] at h
      cases h
      exact startComment_refused hstart
    | ok start =>
      rw [hstart] at h
      cases h
  · cases h

theorem repliesStart_refused {account author : AccountName} {permlink : Bytes} {e : Thrown}
    (h : repliesStart d dappName account author permlink = .error e) : ∃ e', e = .refused e' := by
  unfold repliesStart at h
  split at h
  · cases hstart : startComment d dappName author permlink with
    | error e' =>
      rw [hstart] at h
      cases h
      exact startComment_refused hstart
    | ok start =>
      rw [hstart] at h
      cases h
  · split at h
    · cases h
    · cases h

/-- The comments of an author that are within reach of the query. -/
def AuthorStays (d : Database) (dappName : DappName) (author : AccountName) (permlink : Bytes) (date : TimePointSec)
    (limit : Nat) : Prop :=
  ∀ itr, limit ≤ 100 → discussionsStart d dappName author permlink date = .ok itr →
    Stays d dappName (reach (fun c => c.author = author) isRoot limit itr)

/-- The replies that are within reach of the query. -/
def RepliesStay (d : Database) (dappName : DappName) (account author : AccountName) (permlink : Bytes) (limit : Nat) :
    Prop :=
  ∀ start, limit ≤ 100 → repliesStart d dappName account author permlink = .ok start →
    Stays d dappName (reach (fun c => c.parentAuthor = start.2) (fun _ => true) limit start.1)

theorem inside_discussionsByAuthor (hd : VotersKnown d) (author : AccountName) (permlink : Bytes) (date : TimePointSec)
    (limit : Nat) : Inside dappName (fun x => x.comment.dappName)
        (getDappDiscussionsByAuthorBeforeDate d dappName author permlink date limit) ↔
      AuthorStays d dappName author permlink date limit := by
  unfold getDappDiscussionsByAuthorBeforeDate AuthorStays expect
  by_cases hlimit : limit ≤ 100
  swap
  · simp only [hlimit, decide_false, Bool.false_eq_true, if_false, false_implies, implies_true, iff_true]
    exact trivial
  simp only [hlimit, decide_true, if_true]
  cases hstart : discussionsStart d dappName author permlink date with
  | error e =>
    obtain ⟨e', rfl⟩ := discussionsStart_refused hstart
    exact iff_of_true trivial fun itr _ h => by cases h
  | ok itr =>
    refine (inside_walk hd limit itr).trans ⟨fun h itr' _ heq => ?_, fun h => h itr trivial rfl⟩
    cases heq
    exact h

theorem inside_repliesByLastUpdate (hd : VotersKnown d) (account author : AccountName) (permlink : Bytes) (limit : Nat) :
    Inside dappName (fun x => x.comment.dappName)
        (getDappRepliesByLastUpdate d dappName account author permlink limit) ↔
      RepliesStay d dappName account author permlink limit := by
  unfold getDappRepliesByLastUpdate RepliesStay expect
  by_cases hlimit : limit ≤ 100
  swap
  · simp only [hlimit, decide_false, Bool.false_eq_true, if_false, false_implies, implies_true, iff_true]
    exact trivial
  simp only [hlimit, decide_true, if_true]
  cases hstart : repliesStart d dappName account author permlink with
  | error e =>
    obtain ⟨e', rfl⟩ := repliesStart_refused hstart
    exact iff_of_true trivial fun itr _ h => by cases h
  | ok start =>
    refine (inside_walk hd limit start.1).trans ⟨fun h start' _ heq => ?_, fun h => h start trivial rfl⟩
    cases heq
    exact h

/-! ## The contents of a dapp -/

theorem getDappDiscussion_eq {c : Comment} (hc : c ∈ d.dapp.comments.rows) :
    getDappDiscussion d c.1 = discussion d (.ofBytes c.2.dappName.toBytes) c := by
  unfold getDappDiscussion
  rw [lookup_eq_some.mpr hc]

/-- **The contents** end where another dapp begins. -/
theorem own_of_discussionsLoop {query : DappDiscussionQuery} {filter exit : DappDiscussion → Bool} {ignoreParent : Bool}
    {limit : Nat} {itr : List Comment} (hrows : ∀ c ∈ itr, c ∈ d.dapp.comments.rows) :
    ∀ x ∈ discussionsLoop d query filter exit ignoreParent limit itr, x.comment.dappName = query.dappName := by
  induction itr generalizing limit with
  | nil =>
    intro x hx
    cases limit <;> cases hx
  | cons c rest ih =>
    intro x hx
    have hrest {left : Nat} := @ih left fun c' hc' => hrows c' (.tail _ hc')
    cases limit with
    | zero => cases hx
    | succ left =>
      rw [discussionsLoop] at hx
      split_ifs at hx with hdapp hparent
      · cases hx
      · cases hx
      · cases hcomment : getDappDiscussion d c.1 with
        | error e =>
          rw [hcomment] at hx
          exact hrest x hx
        | ok y =>
          rw [hcomment] at hx
          dsimp only at hx
          split_ifs at hx
          · exact hrest x hx
          · cases hx
          · rcases List.mem_cons.mp hx with rfl | hx
            · rw [getDappDiscussion_eq (hrows c List.mem_cons_self)] at hcomment
              rw [not_not.mp hdapp, ← eq_of_discussion hcomment]
            · exact hrest x hx

theorem mem_rows_of_dropWhile {κ : Type} [LinearOrder κ] {key : Comment → κ} {p : Comment → Bool} {c : Comment}
    (h : c ∈ (ordered key d.dapp.comments.rows).dropWhile p) : c ∈ d.dapp.comments.rows :=
  mem_ordered.mp ((List.dropWhile_suffix p).subset h)

theorem inside_getDappDiscussions {κ : Type} [LinearOrder κ] (query : DappDiscussionQuery) (key : Comment → κ)
    {itr : List Comment} (hitr : ∀ c ∈ itr, c ∈ d.dapp.comments.rows) (filter exit : DappDiscussion → Bool)
    (ignoreParent : Bool) : Inside query.dappName (fun x => x.comment.dappName)
      (getDappDiscussions d query key itr filter exit ignoreParent) := by
  unfold getDappDiscussions expect
  by_cases hlimit : query.limit ≤ 100
  swap
  · simp only [hlimit, decide_false, Bool.false_eq_true, if_false]
    exact trivial
  simp only [hlimit, decide_true, if_true]
  by_cases hstart : query.startAuthor.getD [] ≠ [] ∧ query.startPermlink.getD [] ≠ []
  · rw [if_pos hstart]
    cases hfind : d.dapp.comments.find? (isPermlink query.dappName (.ofBytes (query.startAuthor.getD []))
        (query.startPermlink.getD [])) with
    | none => exact trivial
    | some start => exact own_of_discussionsLoop fun c hc => mem_rows_of_dropWhile hc
  · rw [if_neg hstart]
    exact own_of_discussionsLoop hitr

/-- **Contents are those of the dapp**, for all arguments. -/
theorem inside_lookupDappContents (lastAuthor lastPermlink : Bytes) (limit : Nat) :
    Inside dappName (fun x => x.comment.dappName) (lookupDappContents d dappName lastAuthor lastPermlink limit) := by
  unfold lookupDappContents expect
  by_cases hlimit : 0 < limit ∧ limit ≤ 100
  · simp only [hlimit, and_self, decide_true, if_true]
    exact inside_getDappDiscussions _ byDappAndCreated (fun c hc => mem_rows_of_dropWhile hc) _ _ _
  · simp only [hlimit, decide_false, Bool.false_eq_true, if_false]
    exact trivial

/-! ## The votes of an account -/

/-- All votes of the account are in the dapp. -/
def VotesStay (d : Database) (dappName : DappName) (voter : AccountName) : Prop :=
  ∀ account, d.core.accounts.find? (fun a => a.name == voter) = some account →
    ∀ v ∈ d.dapp.commentVotes.values, v.voter = account.1 →
      ∀ c, d.dapp.comments.lookup v.comment = some c → c.dappName = dappName

theorem leads_voter : Leads byVoterComment fun v => v.2.voter := fun _ _ h => Prod.Lex.monotone_fst _ _ h

/-- **The votes of an account** are about the dapp exactly where the account has voted in no other. -/
theorem inside_getDappAccountVotes (hd : d.Linked) (voter : AccountName) :
    Inside dappName (fun x => x.dappName) (getDappAccountVotes d dappName voter) ↔ VotesStay d dappName voter := by
  unfold getDappAccountVotes VotesStay
  cases hfind : d.core.accounts.find? fun a => a.name == voter with
  | none => exact iff_of_true trivial fun account h => by cases h
  | some account =>
    dsimp only
    rw [takeWhile_prefixBound leads_voter]
    have hvotes {v : CommentVote} : v ∈ (ordered byVoterComment d.dapp.commentVotes.rows).filter
        (fun v => v.2.voter = account.1) ↔ v ∈ d.dapp.commentVotes.rows ∧ v.2.voter = account.1 := by
      rw [List.mem_filter, mem_ordered, decide_eq_true_eq]
    have hlinked {v : CommentVote} (hv : v ∈ d.dapp.commentVotes.rows) :=
      Linked.commentVotes hd v.2 (mem_values.mpr ⟨v.1, hv⟩)
    obtain ⟨xs, hxs, hmap⟩ := mapM_ok (f := accountVote d) (h := fun x => x.dappName) (k := fun v => v.2.dappName)
      fun v hv => by
        obtain ⟨c, hc, -⟩ := hlinked (hvotes.mp hv).1
        exact ⟨⟨v.2.dappName, c.author, c.permlink, v.2.voteType, v.2.lastUpdate⟩, by rw [accountVote, hc], rfl⟩
    rw [hxs]
    have hinside : Inside dappName (fun x => x.dappName) (.ok xs) ↔ ∀ name ∈ xs.map fun x => x.dappName, name = dappName := by
      rw [List.forall_mem_map]
      rfl
    rw [hinside, hmap, List.forall_mem_map]
    constructor
    · intro h account' heq v hv hvoter c hc
      cases heq
      obtain ⟨id, hid⟩ := mem_values.mp hv
      obtain ⟨c', hc', hname⟩ := hlinked hid
      rw [hc] at hc'
      cases hc'
      rw [hname]
      exact h (id, v) (hvotes.mpr ⟨hid, hvoter⟩)
    · intro h v hv
      obtain ⟨hrow, hvoter⟩ := hvotes.mp hv
      obtain ⟨c, hc, hname⟩ := hlinked hrow
      rw [← hname]
      exact h account rfl v.2 (mem_values.mpr ⟨v.1, hrow⟩) hvoter c hc

end Sigmaengine.Dapp
