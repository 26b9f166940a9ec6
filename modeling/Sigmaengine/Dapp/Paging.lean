import Sigmaengine.Consensus.Authority
import Sigmaengine.Dapp.CommentTree
import Sigmaengine.Dapp.QueryScope

/-!
# Paging through the contents of a dapp

The contents of a dapp are listed newest first, a page at a time, each page from the last comment of the page before.
A comment may have no permlink, and where the start has none the listing begins again.
-/

namespace Sigmaengine.Dapp

open OrderedIndex Table

/-! ## Lists -/

section Lists

variable {α : Type} {limit : Nat}

theorem filter_dropWhile {p q : α → Bool} {as : List α} (h : ∀ a ∈ as, p a = false → q a = true) :
    (as.dropWhile p).filter q = (as.filter q).dropWhile p := by
  induction as with
  | nil => rfl
  | cons a as ih =>
    have hrest := ih fun b hb => h b (.tail _ hb)
    cases hp : p a with
    | true => by_cases hq : q a = true <;> simp [hp, hq, hrest]
    | false => simp [hp, h a List.mem_cons_self hp]

/-- To drop what comes before an object, where all have different ids. -/
theorem dropWhile_id_eq_drop {as : List (Nat × α)} (hids : (as.map Prod.fst).Nodup) {i : Nat} {a : Nat × α}
    (ha : as[i]? = some a) : as.dropWhile (fun r => r.1 != a.1) = as.drop i := by
  induction as generalizing i with
  | nil => simp at ha
  | cons b as ih =>
    rw [List.map_cons, List.nodup_cons] at hids
    cases i with
    | zero =>
      rw [List.getElem?_cons_zero, Option.some_inj] at ha
      simp [ha]
    | succ i =>
      rw [List.getElem?_cons_succ] at ha
      have hne : b.1 ≠ a.1 := by
        intro heq
        exact hids.1 (heq ▸ List.mem_map_of_mem (List.mem_of_getElem? ha))
      simp [hne, ih hids.2 ha]

theorem eq_of_take_drop {as : List α} (has : as.Nodup) {i i' : Nat} (hpos : 0 < limit) (hi : i < as.length)
    (h : (as.drop i').take limit = (as.drop i).take limit) : i' = i := by
  have hfirst := congrArg (·[0]?) h
  simp only [List.getElem?_take_of_lt hpos, List.getElem?_drop, Nat.add_zero] at hfirst
  rw [List.getElem?_eq_getElem hi] at hfirst
  obtain ⟨hi', heq⟩ := List.getElem?_eq_some_iff.mp hfirst
  exact (has.getElem_inj_iff).mp heq

end Lists

variable {d : Database} {dappName : DappName} {limit : Nat}

/-! ## The contents in order -/

/-- The root comments of a dapp, the newest first. -/
def newestFirst (d : Database) (dappName : DappName) : List Comment :=
  (ordered byDappAndCreated d.dapp.comments.rows).filter fun c => c.2.dappName = dappName ∧ isRoot c.2 = true

theorem mem_newestFirst {c : Comment} :
    c ∈ newestFirst d dappName ↔ c ∈ d.dapp.comments.rows ∧ c.2.dappName = dappName ∧ isRoot c.2 = true := by
  rw [newestFirst, List.mem_filter, mem_ordered, decide_eq_true_eq]

theorem leads_dappName : Leads byDappAndCreated fun c => c.2.dappName := fun _ _ h => Prod.Lex.monotone_fst _ _ h

theorem leads_created : Leads byDappAndCreated fun c => toLex (c.2.dappName, OrderDual.toDual c.2.created) := by
  intro a b h
  rcases Prod.Lex.toLex_le_toLex.mp h with hlt | ⟨heq, hle⟩
  · exact Prod.Lex.toLex_le_toLex.mpr (.inl hlt)
  · exact Prod.Lex.toLex_le_toLex.mpr (.inr ⟨heq, Prod.Lex.monotone_fst _ _ hle⟩)

theorem pairwise_newestFirst : (newestFirst d dappName).Pairwise fun a b => b.2.created ≤ a.2.created := by
  have hsorted : (newestFirst d dappName).Pairwise fun a b => byDappAndCreated a ≤ byDappAndCreated b :=
    pairwise_ordered.filter _
  refine hsorted.imp_of_mem fun {a b} ha hb h => ?_
  have hsame : a.2.dappName = b.2.dappName := (mem_newestFirst.mp ha).2.1.trans (mem_newestFirst.mp hb).2.1.symm
  rcases Prod.Lex.toLex_le_toLex.mp (leads_created a b h) with hlt | ⟨-, hle⟩
  · exact absurd hsame (ne_of_lt hlt)
  · exact hle

theorem nodup_ids_newestFirst : ((newestFirst d dappName).map Prod.fst).Nodup := by
  have hrows : (d.dapp.comments.rows.map Prod.fst).Nodup := by
    rw [List.Nodup, List.pairwise_map]
    exact d.dapp.comments.sorted.imp fun h => ne_of_lt h
  have hordered : ((ordered byDappAndCreated d.dapp.comments.rows).map Prod.fst).Nodup :=
    ((ordered_perm.map Prod.fst).nodup_iff).mpr hrows
  exact hordered.sublist (List.filter_sublist.map _)

/-! ## Pages -/

/-- The comments of a page. -/
def comments (page : List DappDiscussion) : List Comment := page.map fun x => (x.id, x.comment)

/-- The contents from an iterator on. -/
def contentsFrom (dappName : DappName) (itr : List Comment) : List Comment :=
  (itr.takeWhile fun c => c.2.dappName = dappName).filter fun c => isRoot c.2

/-- A comment can be shown by the texts of its names. -/
def readable (d : Database) (dappName : DappName) (c : Comment) : Bool := answers d (.ofBytes dappName.toBytes) c

theorem getDappDiscussion_of_readable (hd : VotersKnown d) {c : Comment} (hc : c ∈ d.dapp.comments.rows)
    (h : readable d c.2.dappName c = true) : ∃ x, getDappDiscussion d c.1 = .ok x ∧ (x.id, x.comment) = c := by
  rw [getDappDiscussion_eq hc]
  exact discussion_ok hd h

theorem getDappDiscussion_of_not_readable {c : Comment} (hc : c ∈ d.dapp.comments.rows)
    (h : readable d c.2.dappName c = false) : getDappDiscussion d c.1 = .error .notFound := by
  rw [getDappDiscussion_eq hc]
  exact discussion_error h

/-- **The loop** lists the contents that can be shown, from where it stands. -/
theorem comments_discussionsLoop (hd : VotersKnown d) {query : DappDiscussionQuery} {itr : List Comment}
    (hrows : ∀ c ∈ itr, c ∈ d.dapp.comments.rows) (limit : Nat) :
    comments (discussionsLoop d query (fun c => !isRoot c.comment) (fun _ => false) true limit itr) =
      ((contentsFrom query.dappName itr).filter (readable d query.dappName)).take limit := by
  induction itr generalizing limit with
  | nil => cases limit <;> rfl
  | cons c rest ih =>
    have hrest (left : Nat) := ih (fun c' hc' => hrows c' (.tail _ hc')) left
    have hc := hrows c List.mem_cons_self
    cases limit with
    | zero => rfl
    | succ left =>
      rw [discussionsLoop]
      by_cases hown : c.2.dappName = query.dappName
      swap
      · rw [if_pos (Ne.symm hown)]
        simp [contentsFrom, hown, comments]
      rw [if_neg (not_not.mpr hown.symm), if_neg (by simp)]
      by_cases hread : readable d query.dappName c = true
      swap
      · -- what cannot be shown is passed over, and so is what is no root
        rw [getDappDiscussion_of_not_readable hc (by rw [hown]; simpa using hread)]
        dsimp only
        rw [hrest (left + 1)]
        by_cases hroot : isRoot c.2 = true <;> simp [contentsFrom, hown, hroot, hread]
      obtain ⟨x, hx, hxc⟩ := getDappDiscussion_of_readable hd hc (by rw [hown]; exact hread)
      have hcomment : x.comment = c.2 := congrArg Prod.snd hxc
      rw [hx]
      dsimp only
      by_cases hroot : isRoot c.2 = true
      · rw [hcomment, hroot]
        have hfirst : (contentsFrom query.dappName (c :: rest)).filter (readable d query.dappName) =
            c :: (contentsFrom query.dappName rest).filter (readable d query.dappName) := by
          simp [contentsFrom, hown, hroot, hread]
        rw [hfirst, List.take_succ_cons, ← hrest left, ← hxc]
        rfl
      · have hskip : contentsFrom query.dappName (c :: rest) = contentsFrom query.dappName rest := by
          simp [contentsFrom, hown, hroot]
        rw [hcomment, hskip, ← hrest (left + 1), Bool.eq_false_iff.mpr hroot]
        rfl

/-- The contents of a dapp from an iterator on that does not begin before it. -/
theorem contentsFrom_eq {itr : List Comment} (hsorted : itr.Pairwise fun a b => byDappAndCreated a ≤ byDappAndCreated b)
    (hlow : ∀ c ∈ itr, dappName ≤ c.2.dappName) :
    contentsFrom dappName itr = itr.filter fun c => c.2.dappName = dappName ∧ isRoot c.2 = true := by
  have hgroup : (itr.takeWhile fun c => c.2.dappName = dappName) = itr.filter fun c => c.2.dappName = dappName := by
    convert takeWhile_group leads_dappName hsorted hlow
  rw [contentsFrom, hgroup, List.filter_filter]
  apply List.filter_congr
  intro c _
  rw [Bool.eq_iff_iff]
  simp only [Bool.and_eq_true, decide_eq_true_eq]
  exact and_comm

/-- Where a listing begins. -/
def firstPage (d : Database) (dappName : DappName) : List Comment :=
  prefixBound byDappAndCreated d.dapp.comments.rows (fun c => toLex (c.2.dappName, OrderDual.toDual c.2.created))
    (toLex (dappName, OrderDual.toDual maximumTime))

theorem contentsFrom_first : contentsFrom dappName (firstPage d dappName) =
    (newestFirst d dappName).filter fun c => c.2.created ≤ maximumTime := by
  rw [contentsFrom_eq, firstPage, prefixBound_eq_filter leads_created, List.filter_filter, newestFirst,
    List.filter_filter]
  · apply List.filter_congr
    intro c _
    rw [Bool.eq_iff_iff]
    simp only [Bool.and_eq_true, decide_eq_true_eq]
    rw [and_comm]
    refine and_congr_left fun hroot => ?_
    rw [Prod.Lex.toLex_le_toLex, OrderDual.toDual_le_toDual, hroot.1]
    simp
  · rw [firstPage, prefixBound_eq_filter leads_created]
    exact pairwise_ordered.filter _
  · intro c hc
    exact Prod.Lex.monotone_fst _ _ ((mem_prefixBound leads_created).mp hc).2

/-- The contents from a comment on. -/
def contentsAfter (d : Database) (dappName : DappName) (c : Comment) : List Comment :=
  contentsFrom dappName (iteratorTo byDappAndCreated d.dapp.comments.rows c.1)

/-- A listing that begins with a comment of the dapp does not begin before the dapp. -/
theorem contentsAfter_eq {c : Comment} (hc : c ∈ d.dapp.comments.rows) (hname : c.2.dappName = dappName) :
    contentsAfter d dappName c = (iteratorTo byDappAndCreated d.dapp.comments.rows c.1).filter
      fun c => c.2.dappName = dappName ∧ isRoot c.2 = true := by
  have hsuffix := List.dropWhile_suffix (fun r : Comment => r.1 != c.1)
    (l := ordered byDappAndCreated d.dapp.comments.rows)
  have hsorted : (iteratorTo byDappAndCreated d.dapp.comments.rows c.1).Pairwise
      fun a b => byDappAndCreated a ≤ byDappAndCreated b := pairwise_ordered.sublist hsuffix.sublist
  refine contentsFrom_eq hsorted fun b hb => ?_
  cases hitr : iteratorTo byDappAndCreated d.dapp.comments.rows c.1 with
  | nil =>
    rw [hitr] at hb
    cases hb
  | cons a rest =>
    have hhead := List.head?_dropWhile_not (fun r : Comment => r.1 != c.1)
      (ordered byDappAndCreated d.dapp.comments.rows)
    rw [iteratorTo] at hitr
    rw [hitr] at hhead
    have ha : a ∈ d.dapp.comments.rows := mem_rows_of_dropWhile (hitr ▸ List.mem_cons_self)
    have hac : a.2 = c.2 := by
      have hid : a.1 = c.1 := by simpa using hhead
      exact eq_of_mem (hid ▸ ha) hc
    rw [iteratorTo, hitr] at hb hsorted
    rw [← hname, ← hac]
    rcases List.mem_cons.mp hb with rfl | hb
    · exact le_rfl
    · exact leads_dappName a b ((List.pairwise_cons.mp hsorted).1 b hb)

theorem contentsAfter_suffix {c : Comment} (hc : c ∈ d.dapp.comments.rows) (hname : c.2.dappName = dappName) :
    contentsAfter d dappName c <:+ newestFirst d dappName := by
  rw [contentsAfter_eq hc hname]
  exact (List.dropWhile_suffix _).filter _

theorem contentsAfter_getElem {c : Comment} {i : Nat} (hc : (newestFirst d dappName)[i]? = some c) :
    contentsAfter d dappName c = (newestFirst d dappName).drop i := by
  have hmem := mem_newestFirst.mp (List.mem_of_getElem? hc)
  rw [← dropWhile_id_eq_drop nodup_ids_newestFirst hc, contentsAfter_eq hmem.1 hmem.2.1]
  apply filter_dropWhile
  intro b hb hid
  have hsame : b = c := by
    obtain ⟨j, x⟩ := b
    obtain rfl : j = c.1 := by simpa using hid
    rw [eq_of_mem (mem_ordered.mp hb) hmem.1]
  rw [hsame]
  exact decide_eq_true hmem.2

/-! ## Calls -/

/-- What a listing from the beginning shows. -/
def shown (d : Database) (dappName : DappName) (c : Comment) : Bool :=
  decide (c.2.created ≤ maximumTime) && readable d dappName c

theorem lookup_refused {lastAuthor lastPermlink : Bytes} (hlimit : ¬ limit ≤ 100) :
    ∃ e, lookupDappContents d dappName lastAuthor lastPermlink limit = .error e := by
  unfold lookupDappContents expect
  simp only [hlimit, and_false, decide_false, Bool.false_eq_true, if_false]
  exact ⟨_, rfl⟩

/-- **From the beginning**, where the author or the permlink of the start is missing. -/
theorem lookup_first (hd : VotersKnown d) {lastAuthor lastPermlink : Bytes} (hpos : 0 < limit) (hlimit : limit ≤ 100)
    (hstart : lastAuthor = [] ∨ lastPermlink = []) :
    ∃ xs, lookupDappContents d dappName lastAuthor lastPermlink limit = .ok xs ∧
      comments xs = ((newestFirst d dappName).filter (shown d dappName)).take limit := by
  unfold lookupDappContents getDappDiscussions expect
  simp only [hpos, hlimit, and_self, decide_true, if_true]
  have hmissing : ¬ ((if lastAuthor ≠ [] then some lastAuthor else none).getD [] ≠ [] ∧
      (if lastPermlink ≠ [] then some lastPermlink else none).getD [] ≠ []) := by
    rcases hstart with rfl | rfl <;> simp
  rw [if_neg hmissing]
  refine ⟨_, rfl, ?_⟩
  refine (comments_discussionsLoop hd (fun c hc => mem_rows_of_dropWhile hc) limit).trans ?_
  congr 1
  show (contentsFrom dappName (firstPage d dappName)).filter _ = _
  rw [contentsFrom_first, List.filter_filter]
  apply List.filter_congr
  intro c _
  exact Bool.and_comm _ _

/-- **From a comment on**, which is found by its author and permlink. -/
theorem lookup_from (hd : VotersKnown d) {lastAuthor lastPermlink : Bytes} (hpos : 0 < limit) (hlimit : limit ≤ 100)
    (hauthor : lastAuthor ≠ []) (hpermlink : lastPermlink ≠ []) :
    match d.dapp.comments.find? (isPermlink dappName (.ofBytes lastAuthor) lastPermlink) with
    | none => ∃ e, lookupDappContents d dappName lastAuthor lastPermlink limit = .error e
    | some start => ∃ xs, lookupDappContents d dappName lastAuthor lastPermlink limit = .ok xs ∧
        comments xs = ((contentsAfter d dappName start).filter (readable d dappName)).take limit := by
  unfold lookupDappContents getDappDiscussions expect
  simp only [hpos, hlimit, and_self, decide_true, if_true, hauthor, hpermlink, ne_eq, not_false_eq_true,
    Option.getD_some]
  cases hfind : d.dapp.comments.find? (isPermlink dappName (.ofBytes lastAuthor) lastPermlink) with
  | none => exact ⟨_, rfl⟩
  | some start =>
    refine ⟨_, rfl, ?_⟩
    exact comments_discussionsLoop hd (fun c hc => mem_rows_of_dropWhile hc) limit

/-! ## Going through the pages -/

/-- The call from the last comment of a page. -/
def nextPage (d : Database) (dappName : DappName) (limit : Nat) (previous : List DappDiscussion) :
    Query (List DappDiscussion) :=
  match previous.getLast? with
  | none => .ok []
  | some last => lookupDappContents d dappName last.comment.author.toBytes last.comment.permlink limit

/-- The pages, one after another. -/
def page (d : Database) (dappName : DappName) (limit : Nat) : Nat → Query (List DappDiscussion)
  | 0 => lookupDappContents d dappName [] [] limit
  | j + 1 => page d dappName limit j >>= nextPage d dappName limit

/-- The pages go through the contents: as long as there are more, the next page goes on with them. -/
def Enumerates (d : Database) (dappName : DappName) (limit : Nat) : Prop :=
  ∀ j, j = 0 ∨ j * (limit - 1) + 1 < (newestFirst d dappName).length →
    ∃ xs, page d dappName limit j = .ok xs ∧
      comments xs = ((newestFirst d dappName).drop (j * (limit - 1))).take limit

/-- Every comment is on one of the pages. -/
theorem exists_page {n i : Nat} (hlimit : 2 ≤ limit) (hi : i < n) :
    ∃ j, (j = 0 ∨ j * (limit - 1) + 1 < n) ∧ j * (limit - 1) ≤ i ∧ i < j * (limit - 1) + limit := by
  obtain ⟨m, rfl⟩ : ∃ m, limit = m + 2 := ⟨limit - 2, by omega⟩
  rw [show m + 2 - 1 = m + 1 from rfl]
  refine ⟨(i - 1) / (m + 1), ?_, ?_, ?_⟩
  · have hle := Nat.div_mul_le_self (i - 1) (m + 1)
    by_cases hzero : (i - 1) / (m + 1) = 0
    · exact .inl hzero
    · have hpos : 0 < i - 1 := by
        by_contra hneg
        exact hzero (by rw [show i - 1 = 0 by omega, Nat.zero_div])
      exact .inr (by omega)
  · have hle := Nat.div_mul_le_self (i - 1) (m + 1)
    omega
  · have hlt := Nat.lt_div_mul_add (a := i - 1) (b := m + 1) (by omega)
    omega

theorem Enumerates.every (h : Enumerates d dappName limit) (hlimit : 2 ≤ limit) {c : Comment}
    (hc : c ∈ newestFirst d dappName) : ∃ j xs, page d dappName limit j = .ok xs ∧ c ∈ comments xs := by
  obtain ⟨i, hi, rfl⟩ := List.mem_iff_getElem.mp hc
  obtain ⟨j, hj, hlow, hhigh⟩ := exists_page hlimit hi
  obtain ⟨xs, hxs, hpage⟩ := h j hj
  refine ⟨j, xs, hxs, ?_⟩
  rw [hpage, List.mem_iff_getElem?]
  refine ⟨i - j * (limit - 1), ?_⟩
  rw [List.getElem?_take_of_lt (by omega), List.getElem?_drop, show j * (limit - 1) + (i - j * (limit - 1)) = i by omega]
  exact List.getElem?_eq_getElem hi

/-- A listing that starts with a comment goes on with the contents after it. -/
def Resumes (d : Database) (dappName : DappName) (c : Comment) : Prop :=
  c.2.author.toBytes ≠ [] ∧ c.2.permlink ≠ [] ∧
    ∃ start, d.dapp.comments.find? (isPermlink dappName (.ofBytes c.2.author.toBytes) c.2.permlink) = some start ∧
      contentsAfter d dappName start = contentsAfter d dappName c

theorem readable_of_lookup (hd : VotersKnown d) {lastAuthor lastPermlink : Bytes} {xs : List DappDiscussion}
    (h : lookupDappContents d dappName lastAuthor lastPermlink limit = .ok xs) :
    ∀ c ∈ comments xs, readable d dappName c = true := by
  intro c hc
  by_cases hpos : 0 < limit
  swap
  · unfold lookupDappContents expect at h
    simp only [hpos, false_and, decide_false, Bool.false_eq_true, if_false] at h
    cases h
  by_cases hlimit : limit ≤ 100
  swap
  · obtain ⟨e, he⟩ := @lookup_refused d dappName limit lastAuthor lastPermlink hlimit
    rw [he] at h
    cases h
  by_cases hmissing : lastAuthor = [] ∨ lastPermlink = []
  · obtain ⟨ys, hys, hpage⟩ := @lookup_first d dappName limit hd _ _ hpos hlimit hmissing
    rw [hys] at h
    cases h
    rw [hpage] at hc
    have hshown := (List.mem_filter.mp (List.mem_of_mem_take hc)).2
    unfold shown at hshown
    exact (Bool.and_eq_true_iff.mp hshown).2
  · obtain ⟨hauthor, hpermlink⟩ := not_or.mp hmissing
    have hfrom := @lookup_from d dappName limit hd _ _ hpos hlimit hauthor hpermlink
    cases hfind : d.dapp.comments.find? (isPermlink dappName (.ofBytes lastAuthor) lastPermlink) with
    | none =>
      rw [hfind] at hfrom
      obtain ⟨e, he⟩ := hfrom
      rw [he] at h
      cases h
    | some start =>
      rw [hfind] at hfrom
      obtain ⟨ys, hys, hpage⟩ := hfrom
      rw [hys] at h
      cases h
      rw [hpage] at hc
      exact (List.mem_filter.mp (List.mem_of_mem_take hc)).2

theorem readable_of_page (hd : VotersKnown d) {j : Nat} {xs : List DappDiscussion}
    (h : page d dappName limit j = .ok xs) : ∀ c ∈ comments xs, readable d dappName c = true := by
  cases j with
  | zero => exact readable_of_lookup hd h
  | succ j =>
    rw [page] at h
    cases hprevious : page d dappName limit j with
    | error e =>
      rw [hprevious] at h
      cases h
    | ok previous =>
      rw [hprevious] at h
      have hnext : nextPage d dappName limit previous = .ok xs := h
      unfold nextPage at hnext
      cases hlast : previous.getLast? with
      | none =>
        rw [hlast] at hnext
        cases hnext
        intro c hc
        cases hc
      | some last =>
        rw [hlast] at hnext
        exact readable_of_lookup hd hnext

/-- The next page is the one from the last comment. -/
theorem page_succ {j : Nat} {xs : List DappDiscussion} {c : Comment} (hlimit : 2 ≤ limit)
    (hxs : page d dappName limit j = .ok xs)
    (hpage : comments xs = ((newestFirst d dappName).drop (j * (limit - 1))).take limit)
    (hc : (newestFirst d dappName)[(j + 1) * (limit - 1)]? = some c) :
    page d dappName limit (j + 1) = lookupDappContents d dappName c.2.author.toBytes c.2.permlink limit := by
  obtain ⟨m, rfl⟩ : ∃ m, limit = m + 2 := ⟨limit - 2, by omega⟩
  rw [show m + 2 - 1 = m + 1 from rfl] at *
  have hlength := (List.getElem?_eq_some_iff.mp hc).1
  have hindex : (j + 1) * (m + 1) = j * (m + 1) + (m + 1) := by rw [Nat.add_mul, Nat.one_mul]
  have hlast : (comments xs).getLast? = some c := by
    rw [hpage, List.getLast?_eq_getElem?, List.length_take, List.length_drop,
      show min (m + 2) ((newestFirst d dappName).length - j * (m + 1)) - 1 = m + 1 by omega,
      List.getElem?_take_of_lt (by omega), List.getElem?_drop, ← hindex]
    exact hc
  rw [comments, List.getLast?_map, Option.map_eq_some_iff] at hlast
  obtain ⟨x, hx, hxc⟩ := hlast
  rw [page, hxs]
  show nextPage d dappName _ xs = _
  rw [nextPage, hx, ← hxc]

theorem nodup_newestFirst : (newestFirst d dappName).Nodup := nodup_ids_newestFirst.of_map _

theorem filter_shown (h : ∀ c ∈ newestFirst d dappName, shown d dappName c = true) :
    (newestFirst d dappName).filter (shown d dappName) = newestFirst d dappName := List.filter_eq_self.mpr h

theorem readable_of_shown {c : Comment} (h : shown d dappName c = true) : readable d dappName c = true := by
  unfold shown at h
  exact (Bool.and_eq_true_iff.mp h).2

/-- Where a comment was found, the contents after it are contents. -/
theorem contentsAfter_found {start : Comment} {author : AccountName} {permlink : Bytes}
    (h : d.dapp.comments.find? (isPermlink dappName author permlink) = some start) :
    contentsAfter d dappName start <:+ newestFirst d dappName := by
  obtain ⟨hrow, hkey⟩ := mem_of_find? h
  exact contentsAfter_suffix hrow (isPermlink_iff.mp hkey).1

/-- All contents can be shown, and no page but the last ends with a comment from which the next cannot start. -/
def CanBeListed (d : Database) (dappName : DappName) (limit : Nat) : Prop :=
  limit ≤ 100 ∧ (∀ c ∈ newestFirst d dappName, shown d dappName c = true) ∧
    ∀ j c, 0 < j → j * (limit - 1) + 1 < (newestFirst d dappName).length →
      (newestFirst d dappName)[j * (limit - 1)]? = some c → Resumes d dappName c

section Exact

variable (hd : VotersKnown d) (hlimit : 2 ≤ limit)
include hd hlimit

theorem Enumerates.shown_all (h : Enumerates d dappName limit) :
    ∀ c ∈ newestFirst d dappName, shown d dappName c = true := by
  intro c hc
  obtain ⟨xs, hxs, hpage⟩ := h 0 (.inl rfl)
  have hle : limit ≤ 100 := by
    by_contra hbig
    obtain ⟨e, he⟩ := @lookup_refused d dappName limit [] [] hbig
    rw [page, he] at hxs
    cases hxs
  obtain ⟨ys, hys, hfirst⟩ := @lookup_first d dappName limit hd [] [] (by omega) hle (.inl rfl)
  rw [page, hys] at hxs
  cases hxs
  rw [hfirst, Nat.zero_mul, List.drop_zero] at hpage
  -- the newest comment is on the first page, and none is later
  have hdated : c.2.created ≤ maximumTime := by
    cases hcontents : newestFirst d dappName with
    | nil =>
      rw [hcontents] at hc
      cases hc
    | cons a rest =>
      have ha : a ∈ ((newestFirst d dappName).filter (shown d dappName)).take limit := by
        rw [hpage, hcontents, show limit = (limit - 1) + 1 by omega]
        exact List.mem_cons_self
      have hshown := (List.mem_filter.mp (List.mem_of_mem_take ha)).2
      unfold shown at hshown
      have hnewest := of_decide_eq_true (Bool.and_eq_true_iff.mp hshown).1
      have hsorted := @pairwise_newestFirst d dappName
      rw [hcontents] at hc hsorted
      rcases List.mem_cons.mp hc with rfl | hc
      · exact hnewest
      · exact ((List.pairwise_cons.mp hsorted).1 c hc).trans hnewest
  obtain ⟨j, zs, hzs, hmem⟩ := h.every hlimit hc
  unfold shown
  rw [readable_of_page hd hzs c hmem, decide_eq_true hdated]
  rfl

theorem Enumerates.resumes (h : Enumerates d dappName limit) (hle : limit ≤ 100) {j : Nat} {c : Comment} (hj : 0 < j)
    (hmore : j * (limit - 1) + 1 < (newestFirst d dappName).length)
    (hc : (newestFirst d dappName)[j * (limit - 1)]? = some c) : Resumes d dappName c := by
  have hshown := h.shown_all hd hlimit
  obtain ⟨i, rfl⟩ : ∃ i, j = i + 1 := ⟨j - 1, by omega⟩
  have hprevious : i = 0 ∨ i * (limit - 1) + 1 < (newestFirst d dappName).length := by
    rw [Nat.add_mul] at hmore
    omega
  obtain ⟨xs, hxs, hpage⟩ := h i hprevious
  obtain ⟨ys, hys, hnext⟩ := h (i + 1) (.inr hmore)
  rw [page_succ hlimit hxs hpage hc] at hys
  have hpos : 0 < (i + 1) * (limit - 1) := Nat.mul_pos hj (by omega)
  have hin := (List.getElem?_eq_some_iff.mp hc).1
  by_cases hmissing : c.2.author.toBytes = [] ∨ c.2.permlink = []
  · -- the listing begins again
    obtain ⟨zs, hzs, hagain⟩ := @lookup_first d dappName limit hd _ _ (by omega) hle hmissing
    rw [hzs] at hys
    cases hys
    rw [hagain, filter_shown hshown] at hnext
    have hsame : 0 = (i + 1) * (limit - 1) := eq_of_take_drop nodup_newestFirst (by omega) hin hnext
    omega
  obtain ⟨hauthor, hpermlink⟩ := not_or.mp hmissing
  refine ⟨hauthor, hpermlink, ?_⟩
  have hfrom := @lookup_from d dappName limit hd _ _ (by omega) hle hauthor hpermlink
  cases hfind : d.dapp.comments.find? (isPermlink dappName (.ofBytes c.2.author.toBytes) c.2.permlink) with
  | none =>
    rw [hfind] at hfrom
    obtain ⟨e, he⟩ := hfrom
    rw [he] at hys
    cases hys
  | some start =>
    rw [hfind] at hfrom
    obtain ⟨zs, hzs, hfound⟩ := hfrom
    rw [hzs] at hys
    cases hys
    have hsuffix := contentsAfter_found hfind
    have hall : (contentsAfter d dappName start).filter (readable d dappName) = contentsAfter d dappName start := by
      rw [List.filter_eq_self]
      exact fun a ha => readable_of_shown (hshown a (hsuffix.subset ha))
    rw [hfound, hall, List.suffix_iff_eq_drop.mp hsuffix] at hnext
    have hplace := eq_of_take_drop nodup_newestFirst (by omega) hin hnext
    refine ⟨start, rfl, ?_⟩
    rw [contentsAfter_getElem hc, ← hplace]
    exact List.suffix_iff_eq_drop.mp hsuffix

/-- **A listing goes through the contents** exactly where they can be listed. -/
theorem enumerates_iff : Enumerates d dappName limit ↔ CanBeListed d dappName limit := by
  constructor
  · intro h
    have hle : limit ≤ 100 := by
      by_contra hbig
      obtain ⟨xs, hxs, -⟩ := h 0 (.inl rfl)
      obtain ⟨e, he⟩ := @lookup_refused d dappName limit [] [] hbig
      rw [page, he] at hxs
      cases hxs
    exact ⟨hle, h.shown_all hd hlimit, fun j c hj hmore hc => h.resumes hd hlimit hle hj hmore hc⟩
  · rintro ⟨hle, hshown, hresumes⟩ j
    induction j with
    | zero =>
      intro _
      obtain ⟨xs, hxs, hpage⟩ := @lookup_first d dappName limit hd [] [] (by omega) hle (.inl rfl)
      exact ⟨xs, hxs, by rw [hpage, filter_shown hshown, Nat.zero_mul, List.drop_zero]⟩
    | succ j ih =>
      intro hj
      have hmore := hj.resolve_left (by omega)
      have hin : (j + 1) * (limit - 1) < (newestFirst d dappName).length := by omega
      have hprevious : j = 0 ∨ j * (limit - 1) + 1 < (newestFirst d dappName).length := by
        rw [Nat.add_mul] at hin
        omega
      obtain ⟨xs, hxs, hpage⟩ := ih hprevious
      have hc := List.getElem?_eq_getElem hin
      obtain ⟨hauthor, hpermlink, start, hfind, hsame⟩ := hresumes (j + 1) _ (by omega) hmore hc
      have hfrom := @lookup_from d dappName limit hd _ _ (by omega) hle hauthor hpermlink
      rw [hfind] at hfrom
      obtain ⟨ys, hys, hnext⟩ := hfrom
      refine ⟨ys, (page_succ hlimit hxs hpage hc).trans hys, ?_⟩
      have hsuffix := contentsAfter_found hfind
      have hall : (contentsAfter d dappName start).filter (readable d dappName) = contentsAfter d dappName start := by
        rw [List.filter_eq_self]
        exact fun a ha => readable_of_shown (hshown a (hsuffix.subset ha))
      rw [hnext, hall, hsame, contentsAfter_getElem hc]

end Exact

end Sigmaengine.Dapp
