import Sigmaengine.Dapp.Paging

/-!
# Queries and the next dapp

What the queries of a dapp answer in a state with several dapps: the contents are always those of the dapp, the other
queries leave it exactly where their walks meet objects of another, and a listing in pages is complete exactly where
every page can start from the last comment of the page before.
-/

namespace Sigmaengine

namespace Dapp

open Effect Table

/-- **Queries stay inside their dapp** under these conditions and no others. -/
theorem dapp_queries (env : Env) (d : Database) (h : Reached env d) (dappName : DappName) :
    (∀ lastAuthor lastPermlink limit, Inside dappName (fun x => x.comment.dappName)
      (lookupDappContents d dappName lastAuthor lastPermlink limit)) ∧
    (∀ author permlink date limit, Inside dappName (fun x => x.comment.dappName)
        (getDappDiscussionsByAuthorBeforeDate d dappName author permlink date limit) ↔
      AuthorStays d dappName author permlink date limit) ∧
    (∀ account author permlink limit, Inside dappName (fun x => x.comment.dappName)
        (getDappRepliesByLastUpdate d dappName account author permlink limit) ↔
      RepliesStay d dappName account author permlink limit) ∧
    (∀ voter, Inside dappName (fun x => x.dappName) (getDappAccountVotes d dappName voter) ↔
      VotesStay d dappName voter) ∧
    (∀ c, c ∈ newestFirst d dappName ↔ c ∈ d.dapp.comments.rows ∧ c.2.dappName = dappName ∧ isRoot c.2 = true) ∧
    ((newestFirst d dappName).Pairwise fun a b => b.2.created ≤ a.2.created) ∧
    ∀ limit, 2 ≤ limit → (Enumerates d dappName limit ↔ CanBeListed d dappName limit) := by
  have hvoters : VotersKnown d := h.votersKnown
  have hlinked : d.Linked := h.plugins (linked_genesis) (pluginFrame_linked env)
  refine ⟨inside_lookupDappContents, inside_discussionsByAuthor hvoters, inside_repliesByLastUpdate hvoters,
    inside_getDappAccountVotes hlinked, fun c => mem_newestFirst, pairwise_newestFirst, fun limit hlimit => ?_⟩
  exact enumerates_iff hvoters hlimit

/-! ## Two dapps -/

/-- An operation that creates a dapp, besides those of the forum. -/
def unpackBazaar : Bytes → Option (List DappOperation)
  | 1 :: 0 :: data =>
    match unpackTexts 2 data with
    | some ([owner, dapp], [key]) => some [.createDapp ⟨.ofBytes owner, .ofBytes dapp, some ⟨key.toNat⟩⟩]
    | _ => none
  | data => unpackForum data

def bazaarEnv : Env :=
  { forumEnv with
    decodeDapp := fun
      | .json text => forumEnv.decodeDapp (.json text)
      | .binary data => unpackBazaar data }

/-- A custom operation with the active authority of an account. -/
def activeOperation (account : AccountName) (data : Bytes) : Operation :=
  .customBinary ⟨[], [account], [], [], ascii ['d', 'a', 'p', 'p'], data⟩

/-- Root creates a second dapp. -/
def createNews : Operation :=
  activeOperation rootAccount (1 :: 0 :: (["root", "news"].flatMap fun t => packText (ascii t.toList)) ++ [1])

/-- A producer becomes a member of the shop. -/
def joinShop (account : String) : Operation :=
  activeOperation (named account) (1 :: 5 :: ([account, "shop"].flatMap fun t => packText (ascii t.toList)))

/-- A member of the dapp posts there. -/
def postIn (dapp author permlink : String) : Operation :=
  forumOperation (named author) (1 :: 2 :: ([dapp, "", "news", author, permlink, "Hello", "World", ""].flatMap fun t =>
    packText (ascii t.toList)))

/-- Three posts in the shop, one of them without a permlink, and a vote; the second dapp has nothing. -/
def bazaarBlock : SignedBlock :=
  sampleBlock (dappBlock.id bazaarEnv.codec) 2 [createNews, joinShop "aaa", joinShop "bbb", postIn "shop" "root" "hello",
    postIn "shop" "aaa" "", postIn "shop" "bbb" "bye", likeComment]

def shopState : Database := after (applyBlock bazaarEnv {} dappBlock (genesis ⟨1⟩))

def bazaarState : Database := after (applyBlock bazaarEnv {} bazaarBlock shopState)

instance {α : Type} (dappName : DappName) (of : α → DappName) (answer : Query (List α)) :
    Decidable (Inside dappName of answer) :=
  match answer with
  | .ok xs => inferInstanceAs (Decidable (∀ x ∈ xs, of x = dappName))
  | .error (.refused _) => isTrue trivial
  | .error (.at_ name _) => inferInstanceAs (Decidable (name = dappName))

theorem reached_bazaarState : Reached bazaarEnv bazaarState := by
  have hrun : succeeds (applyBlock bazaarEnv {} dappBlock (genesis ⟨1⟩)) = true ∧
      succeeds (applyBlock bazaarEnv {} bazaarBlock shopState) = true := by decide +kernel
  exact ((Reached.genesis ⟨1⟩).block {} dappBlock (eq_ok_of_succeeds hrun.1)).block {} bazaarBlock
    (eq_ok_of_succeeds hrun.2)

/-- All posts in the shop have a permlink. -/
def tidyBlock : SignedBlock :=
  sampleBlock (dappBlock.id bazaarEnv.codec) 2 [createNews, joinShop "aaa", joinShop "bbb", postIn "shop" "root" "hello",
    postIn "shop" "aaa" "again", postIn "shop" "bbb" "bye", likeComment]

def tidyState : Database := after (applyBlock bazaarEnv {} tidyBlock shopState)

theorem reached_tidyState : Reached bazaarEnv tidyState := by
  have hrun : succeeds (applyBlock bazaarEnv {} dappBlock (genesis ⟨1⟩)) = true ∧
      succeeds (applyBlock bazaarEnv {} tidyBlock shopState) = true := by decide +kernel
  exact ((Reached.genesis ⟨1⟩).block {} dappBlock (eq_ok_of_succeeds hrun.1)).block {} tidyBlock
    (eq_ok_of_succeeds hrun.2)

/-- A comment whose texts lead back to it. -/
theorem resumes_of_found {d : Database} {dappName : DappName} {c : Comment} (hauthor : c.2.author.toBytes ≠ [])
    (hpermlink : c.2.permlink ≠ [])
    (hfound : (d.dapp.comments.find? (isPermlink dappName (.ofBytes c.2.author.toBytes) c.2.permlink)).map Prod.fst =
      some c.1) : Resumes d dappName c := by
  obtain ⟨start, hstart, hid⟩ := Option.map_eq_some_iff.mp hfound
  refine ⟨hauthor, hpermlink, start, hstart, ?_⟩
  unfold contentsAfter
  rw [hid]

/-- The pages of two, the posts of one author and the votes of another. -/
theorem dapp_queries_tidyState : (newestFirst tidyState (named "shop")).length = 3 ∧
    Enumerates tidyState (named "shop") 2 ∧
    Inside (named "shop") (fun x => x.comment.dappName)
      (getDappDiscussionsByAuthorBeforeDate tidyState (named "shop") (named "aaa") [] 0 10) ∧
    Inside (named "shop") (fun x => x.dappName) (getDappAccountVotes tidyState (named "shop") (named "root")) := by
  obtain ⟨-, hauthors, -, hvoters, -, -, hpages⟩ := dapp_queries bazaarEnv tidyState reached_tidyState (named "shop")
  have hstate : (newestFirst tidyState (named "shop")).length = 3 ∧
      (∀ c ∈ newestFirst tidyState (named "shop"), shown tidyState (named "shop") c = true ∧ c.2.author.toBytes ≠ [] ∧
        c.2.permlink ≠ [] ∧ (tidyState.dapp.comments.find?
          (isPermlink (named "shop") (.ofBytes c.2.author.toBytes) c.2.permlink)).map Prod.fst = some c.1) ∧
      (∀ v ∈ tidyState.dapp.commentVotes.rows, ∀ r ∈ tidyState.dapp.comments.rows, r.1 = v.2.comment →
        r.2.dappName = named "shop") ∧
      ∀ c ∈ reach (fun c => c.author = named "aaa") isRoot 10 (((discussionsStart tidyState (named "shop") (named "aaa") [] 0).toOption).getD []),
        answers tidyState (named "shop") c = true ∧ c.2.dappName = named "shop" := by
    decide +kernel
  obtain ⟨hlength, hshown, hvotes, hauthor⟩ := hstate
  refine ⟨hlength, ?_, ?_, ?_⟩
  · refine (hpages 2 (by decide)).mpr ⟨by decide, fun c hc => (hshown c hc).1, fun j c hj hmore hc => ?_⟩
    obtain ⟨-, hbytes, hpermlink, hfound⟩ := hshown c (List.mem_of_getElem? hc)
    exact resumes_of_found hbytes hpermlink hfound
  · rw [hauthors]
    intro itr _ hitr
    rw [hitr] at hauthor
    unfold Stays
    split
    next c hc => exact (hauthor c (List.mem_of_find?_eq_some hc)).2
    next => exact fun c hc => (hauthor c hc).2
  · rw [hvoters]
    intro account _ v hv _ c hc
    obtain ⟨id, hid⟩ := mem_values.mp hv
    exact hvotes _ hid _ (lookup_eq_some.mp hc) rfl

/-- The comments and votes of the shop get in the way of queries of the other dapp, and its own listing in pages of two
does not get past the comment without a permlink. -/
theorem queries_astray : Reached bazaarEnv bazaarState ∧
    (∀ name ∈ ["shop", "news"], (bazaarState.dapp.dapps.find? fun x => x.dappName == named name).isSome = true) ∧
    ¬ Inside (named "news") (fun x => x.comment.dappName)
      (getDappDiscussionsByAuthorBeforeDate bazaarState (named "news") (named "aaa") [] 0 10) ∧
    ¬ Inside (named "news") (fun x => x.comment.dappName)
      (getDappRepliesByLastUpdate bazaarState (named "news") default default [] 10) ∧
    ¬ Inside (named "news") (fun x => x.dappName) (getDappAccountVotes bazaarState (named "news") (named "root")) ∧
    ¬ Enumerates bazaarState (named "shop") 2 := by
  have hstate : (∀ name ∈ ["shop", "news"],
        (bazaarState.dapp.dapps.find? fun x => x.dappName == named name).isSome = true) ∧
      ¬ Inside (named "news") (fun x => x.comment.dappName)
        (getDappDiscussionsByAuthorBeforeDate bazaarState (named "news") (named "aaa") [] 0 10) ∧
      ¬ Inside (named "news") (fun x => x.comment.dappName)
        (getDappRepliesByLastUpdate bazaarState (named "news") default default [] 10) ∧
      ¬ Inside (named "news") (fun x => x.dappName) (getDappAccountVotes bazaarState (named "news") (named "root")) ∧
      (newestFirst bazaarState (named "shop")).map Prod.fst = [0, 1, 2] ∧
      (page bazaarState (named "shop") 2 1).toOption.map (fun xs => xs.map DappDiscussion.id) = some [0, 1] := by
    decide +kernel
  obtain ⟨hdapps, hauthor, hreplies, hvotes, hids, hpage⟩ := hstate
  refine ⟨reached_bazaarState, hdapps, hauthor, hreplies, hvotes, fun h => ?_⟩
  have hlength : (newestFirst bazaarState (named "shop")).length = 3 := by
    rw [← List.length_map (f := Prod.fst), hids]
    rfl
  obtain ⟨xs, hxs, hcomments⟩ := h 1 (.inr (by rw [hlength]; decide))
  rw [hxs] at hpage
  replace hcomments : comments xs = ((newestFirst bazaarState (named "shop")).drop 1).take 2 := hcomments
  -- the second page ought to show the second comment and the third
  have hshown : xs.map DappDiscussion.id = (((newestFirst bazaarState (named "shop")).map Prod.fst).drop 1).take 2 := by
    rw [← List.map_drop, ← List.map_take, ← hcomments, comments, List.map_map]
    rfl
  rw [show xs.map DappDiscussion.id = [0, 1] from Option.some.inj hpage, hids] at hshown
  exact absurd hshown (by decide)

end Dapp

end Sigmaengine
