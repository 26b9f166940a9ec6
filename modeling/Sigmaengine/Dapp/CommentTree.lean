import Sigmaengine.Dapp.CommentVotes
import Sigmaengine.Dapp.Lifecycle
import Sigmaengine.Lib.Forest

/-!
# The tree of comments

A reply names its parent by dapp, author and permlink.  `Rooted` says that the parent is there, one level
up and in the same thread; `CommentTree` also that every comment counts its descendants.
-/

namespace Sigmaengine.Dapp

open Sigmaengine Effect Table Relation

variable {s s' : DappIndices} {t t' : Table DappCommentObject}

/-! ## Parents -/

/-- The comment `y` is a reply to the comment `p`. -/
def ParentOf (t : Table DappCommentObject) (y p : Nat) : Prop :=
  ∃ c q, t.lookup y = some c ∧ t.lookup p = some q ∧ c.parentAuthor ≠ default ∧
    isPermlink c.dappName c.parentAuthor c.parentPermlink q = true

/-- The number of comments below a comment, at any distance. -/
noncomputable def descendants (t : Table DappCommentObject) (id : Nat) : Nat :=
  (Forest.below (ParentOf t) id).ncard

/-- Every reply has its parent, one level up in the same thread; every other comment is a root. -/
structure Rooted (t : Table DappCommentObject) : Prop where
  parent : ∀ id c, t.lookup id = some c → c.parentAuthor ≠ default →
    ∃ r, t.find? (isPermlink c.dappName c.parentAuthor c.parentPermlink) = some r ∧
      c.depth = r.2.depth + 1 ∧ c.rootComment = r.2.rootComment
  root : ∀ id c, t.lookup id = some c → c.parentAuthor = default → c.depth = 0 ∧ c.rootComment = id
  depth_le : ∀ id c, t.lookup id = some c → c.depth ≤ maxCommentDepth

/-- In a tree every comment also counts what is below it. -/
structure CommentTree (t : Table DappCommentObject) : Prop extends Rooted t where
  counted : ∀ id c, t.lookup id = some c → c.children = descendants t id
  children_lt : ∀ id c, t.lookup id = some c → c.children < 4294967296

theorem isPermlink_iff {dapp : DappName} {author : AccountName} {permlink : Bytes} {c : DappCommentObject} :
    isPermlink dapp author permlink c = true ↔
      c.dappName = dapp ∧ c.author = author ∧ cStr c.permlink = cStr permlink := by
  simp only [isPermlink, Bool.and_eq_true, beq_iff_eq, and_assoc]

/-- Dapp, author and permlink name one comment. -/
theorem find?_permlink {dapp : DappName} {author : AccountName} {permlink : Bytes} {r : Nat × DappCommentObject}
    (hr : r ∈ t.rows) (hkey : isPermlink dapp author permlink r.2 = true) :
    t.find? (isPermlink dapp author permlink) = some r := by
  refine find?_of_mem hr hkey fun c hc => ?_
  obtain ⟨hdapp, hauthor, hpermlink⟩ := isPermlink_iff.mp hc
  obtain ⟨hdapp', hauthor', hpermlink'⟩ := isPermlink_iff.mp hkey
  show (c.dappName == r.2.dappName && c.author == r.2.author && cStr c.permlink == cStr r.2.permlink) = true
  rw [hdapp, hauthor, hpermlink, hdapp', hauthor', hpermlink']
  simp

/-- A search for the parent finds it. -/
theorem ParentOf.find {y p : Nat} (h : ParentOf t y p) : ∃ c q, t.lookup y = some c ∧ c.parentAuthor ≠ default ∧
    t.find? (isPermlink c.dappName c.parentAuthor c.parentPermlink) = some (p, q) := by
  obtain ⟨c, q, hc, hq, hreply, hkey⟩ := h
  exact ⟨c, q, hc, hreply, find?_permlink (r := (p, q)) (lookup_eq_some.mp hq) hkey⟩

theorem parentOf_of_find {y : Nat} {c : DappCommentObject} {r : Nat × DappCommentObject} (hc : t.lookup y = some c)
    (hreply : c.parentAuthor ≠ default)
    (hfind : t.find? (isPermlink c.dappName c.parentAuthor c.parentPermlink) = some r) : ParentOf t y r.1 := by
  obtain ⟨hr, hkey⟩ := mem_of_find? hfind
  exact ⟨c, r.2, hc, lookup_eq_some.mpr hr, hreply, hkey⟩

theorem ParentOf.unique {y : Nat} {c : DappCommentObject} {r : Nat × DappCommentObject} (hc : t.lookup y = some c)
    (hfind : t.find? (isPermlink c.dappName c.parentAuthor c.parentPermlink) = some r) {q : Nat}
    (h : ParentOf t y q) : q = r.1 := by
  obtain ⟨c', x, hc', -, hfind'⟩ := h.find
  obtain rfl : c = c' := Option.some.inj (hc.symm.trans hc')
  exact (congrArg Prod.fst (Option.some.inj (hfind.symm.trans hfind'))).symm

theorem not_parentOf_root {y : Nat} {c : DappCommentObject} (hc : t.lookup y = some c)
    (hroot : c.parentAuthor = default) (q : Nat) : ¬ ParentOf t y q := by
  rintro ⟨c', x, hc', -, hreply, -⟩
  obtain rfl : c = c' := Option.some.inj (hc.symm.trans hc')
  exact hreply hroot

/-- How deep a comment is. -/
def depthOf (t : Table DappCommentObject) (id : Nat) : Nat := ((t.lookup id).map DappCommentObject.depth).getD 0

theorem Rooted.depth_lt (ht : Rooted t) (y p : Nat) (h : ParentOf t y p) : depthOf t p < depthOf t y := by
  obtain ⟨c, q, hc, hreply, hfind⟩ := h.find
  obtain ⟨r, hr, hdepth, -⟩ := ht.parent y c hc hreply
  obtain rfl : r = (p, q) := Option.some.inj (hr.symm.trans hfind)
  have hq : t.lookup p = some q := lookup_eq_some.mpr (mem_of_find? hfind).1
  simp only [depthOf, hc, hq, Option.map_some, Option.getD_some, hdepth]
  omega

theorem below_subset (t : Table DappCommentObject) (id : Nat) :
    Forest.below (ParentOf t) id ⊆ ((t.rows.map Prod.fst).toFinset : Set Nat) := by
  intro y hy
  obtain ⟨p, ⟨c, q, hc, -⟩, -⟩ := TransGen.head'_iff.mp hy
  rw [List.coe_toFinset]
  exact List.mem_map.mpr ⟨(y, c), lookup_eq_some.mp hc, rfl⟩

theorem finite_below (t : Table DappCommentObject) (id : Nat) : (Forest.below (ParentOf t) id).Finite :=
  (t.rows.map Prod.fst).toFinset.finite_toSet.subset (below_subset t id)

theorem descendants_le (t : Table DappCommentObject) (id : Nat) : descendants t id ≤ t.rows.length :=
  calc descendants t id ≤ ((t.rows.map Prod.fst).toFinset : Set Nat).ncard :=
        Set.ncard_le_ncard (below_subset t id) (Finset.finite_toSet _)
    _ = (t.rows.map Prod.fst).toFinset.card := Set.ncard_coe_finset _
    _ ≤ (t.rows.map Prod.fst).length := List.toFinset_card_le _
    _ = t.rows.length := List.length_map _

/-! ## Comments that stay where they are -/

section SamePlaces

variable (hplaces : (t'.rows.map fun r => (r.1, r.2.place)) = t.rows.map fun r => (r.1, r.2.place))
include hplaces

theorem parentOf_subset {y p : Nat} (h : ParentOf t y p) : ParentOf t' y p := by
  obtain ⟨c, q, hc, hq, hreply, hkey⟩ := h
  obtain ⟨c', hc', hplace⟩ := retains_of_rows hplaces _ _ hc
  obtain ⟨q', hq', hplace'⟩ := retains_of_rows hplaces _ _ hq
  have hsame : c'.dappName = c.dappName ∧ c'.parentAuthor = c.parentAuthor ∧ c'.parentPermlink = c.parentPermlink :=
    ⟨congrArg Prod.fst hplace, congrArg (fun p => p.2.1) hplace, congrArg (fun p => p.2.2.1) hplace⟩
  refine ⟨c', q', hc', hq', hsame.2.1 ▸ hreply, ?_⟩
  rw [isPermlink_iff] at hkey ⊢
  rw [hsame.1, hsame.2.1, hsame.2.2, show q'.dappName = q.dappName from congrArg Prod.fst hplace',
    show q'.author = q.author from congrArg (fun p => p.2.2.2.1) hplace',
    show q'.permlink = q.permlink from congrArg (fun p => p.2.2.2.2.1) hplace']
  exact hkey

theorem parentOf_congr : ParentOf t' = ParentOf t := by
  funext y p
  exact propext ⟨parentOf_subset hplaces.symm, parentOf_subset hplaces⟩

theorem Rooted.congr (ht : Rooted t) : Rooted t' := by
  have hback : ∀ id c', t'.lookup id = some c' → ∃ c, t.lookup id = some c ∧ c.place = c'.place := fun id c' hc' =>
    retains_of_rows hplaces.symm id c' hc'
  refine ⟨fun id c' hc' hreply => ?_, fun id c' hc' hroot => ?_, fun id c' hc' => ?_⟩
  · obtain ⟨c, hc, hplace⟩ := hback id c' hc'
    have hreply' : c.parentAuthor ≠ default := by
      rw [show c.parentAuthor = c'.parentAuthor from congrArg (fun p => p.2.1) hplace]
      exact hreply
    obtain ⟨r, hr, hdepth, hthread⟩ := ht.parent id c hc hreply'
    have hparent := parentOf_subset hplaces (parentOf_of_find hc hreply' hr)
    obtain ⟨c'', q, hc'', -, hfind⟩ := hparent.find
    obtain rfl : c' = c'' := Option.some.inj (hc'.symm.trans hc'')
    obtain ⟨q₀, hq₀, hplace'⟩ := hback r.1 q (lookup_eq_some.mpr (mem_of_find? hfind).1)
    obtain rfl : r.2 = q₀ := Option.some.inj ((lookup_eq_some.mpr (mem_of_find? hr).1).symm.trans hq₀)
    refine ⟨(r.1, q), hfind, ?_, ?_⟩
    · rw [← show c.depth = c'.depth from congrArg (fun p => p.2.2.2.2.2.1) hplace, hdepth,
        show r.2.depth = q.depth from congrArg (fun p => p.2.2.2.2.2.1) hplace']
    · rw [← show c.rootComment = c'.rootComment from congrArg (fun p => p.2.2.2.2.2.2) hplace, hthread,
        show r.2.rootComment = q.rootComment from congrArg (fun p => p.2.2.2.2.2.2) hplace']
  · obtain ⟨c, hc, hplace⟩ := hback id c' hc'
    have hroot' : c.parentAuthor = default := (congrArg (fun p => p.2.1) hplace).trans hroot
    obtain ⟨hdepth, hthread⟩ := ht.root id c hc hroot'
    exact ⟨(congrArg (fun p => p.2.2.2.2.2.1) hplace).symm.trans hdepth,
      (congrArg (fun p => p.2.2.2.2.2.2) hplace).symm.trans hthread⟩
  · obtain ⟨c, hc, hplace⟩ := hback id c' hc'
    rw [← show c.depth = c'.depth from congrArg (fun p => p.2.2.2.2.2.1) hplace]
    exact ht.depth_le id c hc

end SamePlaces

/-! ## The walks over the ancestors -/

/-- `f` was applied to the counters of the comments in `touched`, and to no others. -/
def Touches (touched : Nat → Prop) (f : Nat → Nat) (t t' : Table DappCommentObject) : Prop :=
  ∀ id c, t.lookup id = some c → ∃ c', t'.lookup id = some c' ∧
    (touched id → c'.children = f c.children) ∧ (¬ touched id → c'.children = c.children)

theorem touches_none (f : Nat → Nat) (t : Table DappCommentObject) : Touches (fun _ => False) f t t :=
  fun _ c hc => ⟨c, hc, False.elim, fun _ => rfl⟩

theorem Touches.trans {P Q R : Nat → Prop} {f : Nat → Nat} {t'' : Table DappCommentObject} (h : Touches P f t t')
    (h' : Touches Q f t' t'') (hR : ∀ id, R id ↔ P id ∨ Q id) (hdisjoint : ∀ id, P id → ¬ Q id) :
    Touches R f t t'' := by
  intro id c hc
  obtain ⟨c', hc', hyes, hno⟩ := h id c hc
  obtain ⟨c'', hc'', hyes', hno'⟩ := h' id c' hc'
  refine ⟨c'', hc'', fun hid => ?_, fun hid => ?_⟩
  · rcases (hR id).mp hid with hP | hQ
    · rw [hno' (hdisjoint id hP), hyes hP]
    · rw [hyes' hQ, hno fun hP => hdisjoint id hP hQ]
  · rw [hR, not_or] at hid
    rw [hno' hid.2, hno hid.1]

/-- One comment gets another counter. -/
theorem touch_returns (f : Nat → Nat) (now : TimePointSec) {id : Nat} {c : DappCommentObject}
    (hc : s.comments.lookup id = some c) :
    ∃ s', (modifyIn Index.comments id fun x => .ok { x with children := f x.children, active := now } : DappM Unit) s =
        .ok () s' ∧ SameLayout s s' ∧ Touches (· = id) f s.comments s'.comments := by
  have hclash : s.comments.clashes id { c with children := f c.children, active := now } = false :=
    clashes_of_keys hc fun _ => rfl
  have hrun : (modifyIn Index.comments id fun x => .ok { x with children := f x.children, active := now } : DappM Unit) s =
      .ok () { s with comments := s.comments.replace id _ hclash } :=
    modifyIn_eq_ok.mpr ⟨c, _, hclash, hc, rfl, rfl⟩
  refine ⟨_, hrun, runs_modifyComment (fun a b h => by cases h; rfl) _ _ _ hrun, fun y x hx => ?_⟩
  have hlookup := lookup_replace hc hclash y
  by_cases hy : y = id
  · subst hy
    obtain rfl : c = x := Option.some.inj (hc.symm.trans hx)
    exact ⟨_, hlookup.trans (if_pos rfl), fun _ => rfl, fun hne => absurd rfl hne⟩
  · exact ⟨x, hlookup.trans ((if_neg hy).trans hx), fun heq => absurd heq hy, fun _ => rfl⟩

/-- The parent of a stored comment, looked up by what the comment says about it. -/
theorem Rooted.next (ht : Rooted t) {id : Nat} {c c₀ : DappCommentObject} (hc : t.lookup id = some c)
    (hplace : c.place = c₀.place) (hreply : c₀.parentAuthor ≠ default) :
    ∃ r, t.find? (isPermlink c₀.dappName c₀.parentAuthor c₀.parentPermlink) = some r ∧ t.lookup r.1 = some r.2 ∧
      c₀.depth = r.2.depth + 1 ∧ ∀ a, TransGen (ParentOf t) id a ↔ a = r.1 ∨ TransGen (ParentOf t) r.1 a := by
  have hauthor : c.parentAuthor = c₀.parentAuthor := congrArg (fun p => p.2.1) hplace
  have hreply' : c.parentAuthor ≠ default := hauthor ▸ hreply
  obtain ⟨r, hr, hdepth, -⟩ := ht.parent id c hc hreply'
  have habove := fun a => Forest.above_iff (a := a) (parentOf_of_find hc hreply' hr) fun q hq => hq.unique hc hr
  refine ⟨r, ?_, lookup_eq_some.mpr (mem_of_find? hr).1, ?_, habove⟩
  · rw [← hauthor, ← show c.dappName = c₀.dappName from congrArg Prod.fst hplace,
      ← show c.parentPermlink = c₀.parentPermlink from congrArg (fun p => p.2.2.1) hplace]
    exact hr
  · exact (congrArg (fun p => p.2.2.2.2.2.1) hplace).symm.trans hdepth

/-- **Counting a new descendant** returns, having reached the comment and everything above it once. -/
theorem countChild_returns (now : TimePointSec) {fuel : Nat} {p : Nat × DappCommentObject} {c : DappCommentObject}
    (ht : Rooted s.comments) (hc : s.comments.lookup p.1 = some c) (hplace : c.place = p.2.place)
    (hfuel : p.2.depth < fuel) :
    ∃ s', countChild now fuel p s = .ok () s' ∧ SameLayout s s' ∧
      Touches (fun id => id = p.1 ∨ TransGen (ParentOf s.comments) p.1 id) (fun n => (n + 1) % 4294967296)
        s.comments s'.comments := by
  induction fuel generalizing p c s with
  | zero => exact absurd hfuel (Nat.not_lt_zero _)
  | succ n ih =>
    obtain ⟨s₁, hrun, hlayout, htouch⟩ := touch_returns (fun n => (n + 1) % 4294967296) now hc
    unfold countChild
    rw [bind_of_ok hrun]
    by_cases hroot : p.2.parentAuthor = default
    · rw [if_pos hroot]
      have hauthor : c.parentAuthor = default := (congrArg (fun p => p.2.1) hplace).trans hroot
      refine ⟨s₁, rfl, hlayout, htouch.trans (touches_none _ _) (fun id => ?_) fun _ _ => id⟩
      exact or_congr_right (iff_of_false (Forest.not_above (not_parentOf_root hc hauthor)) not_false)
    · rw [if_neg hroot]
      -- the parent is looked up after the counter has changed, which moves nothing
      obtain ⟨c₁, hc₁, hplace₁⟩ := hlayout.retains p.1 c hc
      have ht₁ := ht.congr hlayout.places
      obtain ⟨r, hr, hrow, hdepth, habove⟩ := ht₁.next hc₁ (hplace₁.trans hplace) hroot
      have hget : (getComment p.2.dappName p.2.parentAuthor p.2.parentPermlink) s₁ = .ok r s₁ :=
        getIn_eq_ok.mpr ⟨hr, rfl⟩
      rw [bind_of_ok hget]
      obtain ⟨s₂, hrest, hlayout₂, htouch₂⟩ := ih ht₁ hrow rfl (by omega)
      rw [parentOf_congr hlayout.places] at habove htouch₂
      refine ⟨s₂, hrest, IsTrans.trans _ _ _ hlayout hlayout₂, htouch.trans htouch₂ (fun id => ?_) ?_⟩
      · exact or_congr_right (habove id)
      · rintro id rfl habove'
        exact absurd (Forest.rank_lt ht.depth_lt ((habove p.1).mpr habove')) (Nat.lt_irrefl _)

/-- **Taking a descendant off** returns, having reached everything above the comment once. -/
theorem uncountChild_returns (now : TimePointSec) {fuel : Nat} {id : Nat} {c c₀ : DappCommentObject}
    (ht : Rooted s.comments) (hc : s.comments.lookup id = some c) (hplace : c.place = c₀.place)
    (hfuel : c₀.depth < fuel) :
    ∃ s', uncountChild now fuel c₀ s = .ok () s' ∧ SameLayout s s' ∧
      Touches (TransGen (ParentOf s.comments) id) (fun n => (n + 4294967295) % 4294967296)
        s.comments s'.comments := by
  induction fuel generalizing id c c₀ s with
  | zero => exact absurd hfuel (Nat.not_lt_zero _)
  | succ n ih =>
    unfold uncountChild
    by_cases hroot : c₀.parentAuthor = default
    · rw [if_pos hroot]
      have hauthor : c.parentAuthor = default := (congrArg (fun p => p.2.1) hplace).trans hroot
      refine ⟨s, rfl, Std.Refl.refl s, (touches_none _ _).trans (touches_none _ _) (fun a => ?_) fun _ _ => not_false⟩
      exact iff_of_false (Forest.not_above (not_parentOf_root hc hauthor)) (not_or.mpr ⟨not_false, not_false⟩)
    · rw [if_neg hroot]
      obtain ⟨r, hr, hrow, hdepth, habove⟩ := ht.next hc hplace hroot
      have hfind : findIn Index.comments (isPermlink c₀.dappName c₀.parentAuthor c₀.parentPermlink) s =
          (.ok (some r) s : EStateM.Result Error _ _) := findIn_eq_ok.mpr ⟨hr, rfl⟩
      rw [bind_of_ok hfind]
      obtain ⟨s₁, hrun, hlayout, htouch⟩ := touch_returns (fun n => (n + 4294967295) % 4294967296) now hrow
      obtain ⟨c₁, hc₁, hplace₁⟩ := hlayout.retains r.1 r.2 hrow
      obtain ⟨s₂, hrest, hlayout₂, htouch₂⟩ := ih (ht.congr hlayout.places) hc₁ hplace₁ (by omega)
      rw [parentOf_congr hlayout.places] at htouch₂
      refine ⟨s₂, ?_, IsTrans.trans _ _ _ hlayout hlayout₂, htouch.trans htouch₂ habove ?_⟩
      · dsimp only
        rw [bind_of_ok hrun]
        exact hrest
      · rintro a rfl habove'
        exact absurd (Forest.rank_lt ht.depth_lt habove') (Nat.lt_irrefl _)

/-- A comment of some depth has one of every smaller depth above it. -/
theorem Rooted.depth_lt_length (ht : Rooted t) {id : Nat} {c : DappCommentObject} (hc : t.lookup id = some c) :
    c.depth < t.rows.length := by
  have hdepths : ∀ n id c, t.lookup id = some c → c.depth = n → ∀ k ≤ n, ∃ r ∈ t.rows, r.2.depth = k := by
    intro n
    induction n with
    | zero =>
      intro id c hc hdepth k hk
      exact ⟨(id, c), lookup_eq_some.mp hc, by dsimp only; omega⟩
    | succ n ih =>
      intro id c hc hdepth k hk
      by_cases hlast : k = n + 1
      · exact ⟨(id, c), lookup_eq_some.mp hc, hdepth.trans hlast.symm⟩
      · have hreply : c.parentAuthor ≠ default := fun hroot => by
          have := (ht.root id c hc hroot).1
          omega
        obtain ⟨r, hr, hparent, -⟩ := ht.parent id c hc hreply
        exact ih r.1 r.2 (lookup_eq_some.mpr (mem_of_find? hr).1) (by omega) k (by omega)
  have hsubset : Finset.range (c.depth + 1) ⊆ (t.rows.map fun r => r.2.depth).toFinset := by
    intro k hk
    obtain ⟨r, hr, hdepth⟩ := hdepths c.depth id c hc rfl k (Nat.lt_succ_iff.mp (Finset.mem_range.mp hk))
    exact List.mem_toFinset.mpr (List.mem_map.mpr ⟨r, hr, hdepth⟩)
  have hcard := (Finset.card_le_card hsubset).trans (List.toFinset_card_le _)
  rw [Finset.card_range, List.length_map] at hcard
  exact hcard

/-! ## A new comment -/

section Insert

variable {c : DappCommentObject} {h : t.clashes t.nextId c = false}

theorem lookup_insert_old {id : Nat} {x : DappCommentObject} (hx : t.lookup id = some x) :
    (t.insert c h).lookup id = some x := by
  have hne : id ≠ t.nextId := Nat.ne_of_lt (t.fresh _ (lookup_eq_some.mp hx))
  rw [lookup_insert, if_neg hne, hx]

/-- A search that found something finds it still. -/
theorem find?_insert_old {p : DappCommentObject → Bool} {r : Nat × DappCommentObject} (hr : t.find? p = some r) :
    (t.insert c h).find? p = some r := by
  show (t.rows ++ [(t.nextId, c)]).find? _ = _
  rw [List.find?_append, show t.rows.find? _ = some r from hr]
  rfl

/-- What a comment that is stored next has to look like. -/
structure Fits (t : Table DappCommentObject) (c : DappCommentObject) : Prop where
  reply : c.parentAuthor ≠ default →
    ∃ r, t.find? (isPermlink c.dappName c.parentAuthor c.parentPermlink) = some r ∧
      c.depth = r.2.depth + 1 ∧ c.rootComment = r.2.rootComment
  root : c.parentAuthor = default → c.depth = 0 ∧ c.rootComment = t.nextId
  depth_le : c.depth ≤ maxCommentDepth

theorem Rooted.insert (ht : Rooted t) (hc : Fits t c) : Rooted (t.insert c h) := by
  have hcases : ∀ {id x}, (t.insert c h).lookup id = some x → id = t.nextId ∧ c = x ∨ t.lookup id = some x := by
    intro id x hx
    rw [lookup_insert] at hx
    split at hx
    next hid => exact .inl ⟨hid, Option.some.inj hx⟩
    next => exact .inr hx
  refine ⟨fun id x hx hreply => ?_, fun id x hx hroot => ?_, fun id x hx => ?_⟩
  · rcases hcases hx with ⟨-, rfl⟩ | hx
    · obtain ⟨r, hr, hrest⟩ := hc.reply hreply
      exact ⟨r, find?_insert_old hr, hrest⟩
    · obtain ⟨r, hr, hrest⟩ := ht.parent id x hx hreply
      exact ⟨r, find?_insert_old hr, hrest⟩
  · rcases hcases hx with ⟨rfl, rfl⟩ | hx
    · exact hc.root hroot
    · exact ht.root id x hx hroot
  · rcases hcases hx with ⟨-, rfl⟩ | hx
    · exact hc.depth_le
    · exact ht.depth_le id x hx

/-- The new comment is a leaf. -/
theorem addsLeaf_insert (ht : Rooted t) (hc : Fits t c) :
    Forest.AddsLeaf (ParentOf t) (ParentOf (t.insert c h)) t.nextId where
  fresh a := by
    rintro ⟨x, -, hx, -⟩
    exact Nat.lt_irrefl _ (t.fresh _ (lookup_eq_some.mp hx))
  leaf y hy := by
    obtain ⟨x, q, hx, hreply, hfind⟩ := hy.find
    -- every parent was there before
    have hold : ∃ r, t.find? (isPermlink x.dappName x.parentAuthor x.parentPermlink) = some r := by
      rw [lookup_insert] at hx
      split at hx
      next =>
        obtain rfl := Option.some.inj hx
        obtain ⟨r, hr, -⟩ := hc.reply hreply
        exact ⟨r, hr⟩
      next =>
        obtain ⟨r, hr, -⟩ := ht.parent y x hx hreply
        exact ⟨r, hr⟩
    obtain ⟨r, hr⟩ := hold
    obtain rfl : r = (t.nextId, q) := Option.some.inj ((find?_insert_old hr).symm.trans hfind)
    exact Nat.lt_irrefl _ (t.fresh _ (mem_of_find? hr).1)
  old y a hy := by
    constructor
    · intro hparent
      obtain ⟨x, q, hx, hreply, hfind⟩ := hparent.find
      rw [lookup_insert, if_neg hy] at hx
      obtain ⟨r, hr, -⟩ := ht.parent y x hx hreply
      obtain rfl : r = (a, q) := Option.some.inj ((find?_insert_old hr).symm.trans hfind)
      exact parentOf_of_find hx hreply hr
    · intro hparent
      obtain ⟨x, q, hx, hreply, hfind⟩ := hparent.find
      exact parentOf_of_find (lookup_insert_old hx) hreply (find?_insert_old hfind)

/-- What is above the new comment is its parent and what is above that. -/
theorem above_insert (ht : Rooted t) (hc : Fits t c) (hreply : c.parentAuthor ≠ default)
    {r : Nat × DappCommentObject} (hr : t.find? (isPermlink c.dappName c.parentAuthor c.parentPermlink) = some r)
    (a : Nat) : TransGen (ParentOf (t.insert c h)) t.nextId a ↔ a = r.1 ∨ TransGen (ParentOf t) r.1 a := by
  have hnew : (t.insert c h).lookup t.nextId = some c := (lookup_insert t h _).trans (if_pos rfl)
  have hfind := find?_insert_old (c := c) (h := h) hr
  have hne : r.1 ≠ t.nextId := Nat.ne_of_lt (t.fresh _ (mem_of_find? hr).1)
  rw [Forest.above_iff (parentOf_of_find hnew hreply hfind) fun q hq => hq.unique hnew hfind,
    (addsLeaf_insert ht hc).transGen_iff hne]

end Insert

/-! ## A comment less -/

/-- Dropping a comment without replies leaves every other one its parent. -/
theorem Rooted.erase (ht : Rooted t) {id : Nat} (hleaf : ∀ y, ¬ ParentOf t y id) : Rooted (t.erase id) := by
  have hold : ∀ {y x}, (t.erase id).lookup y = some x → y ≠ id ∧ t.lookup y = some x := by
    intro y x hx
    rw [lookup_erase] at hx
    split at hx
    next => cases hx
    next hy => exact ⟨hy, hx⟩
  refine ⟨fun y x hx hreply => ?_, fun y x hx => ht.root y x (hold hx).2, fun y x hx => ht.depth_le y x (hold hx).2⟩
  obtain ⟨-, hstored⟩ := hold hx
  obtain ⟨r, hr, hrest⟩ := ht.parent y x hstored hreply
  have hne : r.1 ≠ id := by
    rintro rfl
    exact hleaf y (parentOf_of_find hstored hreply hr)
  obtain ⟨hmem, hkey⟩ := mem_of_find? hr
  exact ⟨r, find?_permlink (mem_erase.mpr ⟨hmem, hne⟩) hkey, hrest⟩

theorem addsLeaf_erase {id : Nat} (hleaf : ∀ y, ¬ ParentOf t y id) :
    Forest.AddsLeaf (ParentOf (t.erase id)) (ParentOf t) id where
  fresh a := by
    rintro ⟨x, -, hx, -⟩
    rw [lookup_erase, if_pos rfl] at hx
    cases hx
  leaf := hleaf
  old y a hy := by
    have ha : ParentOf t y a → a ≠ id := by
      rintro h rfl
      exact hleaf y h
    constructor
    · rintro ⟨x, q, hx, hq, hrest⟩
      have hne := ha ⟨x, q, hx, hq, hrest⟩
      exact ⟨x, q, by rw [lookup_erase, if_neg hy, hx], by rw [lookup_erase, if_neg hne, hq], hrest⟩
    · rintro ⟨x, q, hx, hq, hrest⟩
      rw [lookup_erase] at hx hq
      split at hx
      · cases hx
      · split at hq
        · cases hq
        · exact ⟨x, q, hx, hq, hrest⟩

/-! ## Steps -/

/-- The comment and everything above it have room for one more descendant. -/
def Room (t : Table DappCommentObject) (id : Nat) : Prop :=
  ∀ a, (a = id ∨ TransGen (ParentOf t) id a) → descendants t a + 1 < 4294967296

theorem CommentTree.of_same (ht : CommentTree t)
    (hrows : (t'.rows.map fun r => (r.1, r.2.place, r.2.children)) = t.rows.map fun r => (r.1, r.2.place, r.2.children)) :
    CommentTree t' := by
  have hplaces : (t'.rows.map fun r => (r.1, r.2.place)) = t.rows.map fun r => (r.1, r.2.place) := by
    have h := congrArg (List.map fun p : Nat × _ × Nat => (p.1, p.2.1)) hrows
    rwa [List.map_map, List.map_map] at h
  have hback : ∀ id c', t'.lookup id = some c' → ∃ c, t.lookup id = some c ∧ c.children = c'.children := by
    intro id c' hc'
    obtain ⟨c, hc, hkey⟩ : ∃ c : DappCommentObject, _ ∧ (c.place, c.children) = (c'.place, c'.children) :=
      retains_of_rows hrows.symm id c' hc'
    exact ⟨c, hc, congrArg Prod.snd hkey⟩
  refine { ht.toRooted.congr hplaces with counted := fun id c' hc' => ?_, children_lt := fun id c' hc' => ?_ }
  · obtain ⟨c, hc, hchildren⟩ := hback id c' hc'
    unfold descendants
    rw [parentOf_congr hplaces, ← hchildren]
    exact ht.counted id c hc
  · obtain ⟨c, hc, hchildren⟩ := hback id c' hc'
    rw [← hchildren]
    exact ht.children_lt id c hc

/-- **A comment more**, counted on everything above it. -/
theorem CommentTree.store (ht : CommentTree t) {c : DappCommentObject} {h : t.clashes t.nextId c = false}
    (hc : Fits t c) (hchildren : c.children = 0)
    (hplaces : (t'.rows.map fun r => (r.1, r.2.place)) = (t.insert c h).rows.map fun r => (r.1, r.2.place))
    (htouch : Touches (TransGen (ParentOf (t.insert c h)) t.nextId) (fun n => (n + 1) % 4294967296) (t.insert c h) t')
    (hroom : ∀ a, TransGen (ParentOf (t.insert c h)) t.nextId a → descendants t a + 1 < 4294967296) :
    CommentTree t' := by
  classical
  have hleaf := addsLeaf_insert (h := h) ht.toRooted hc
  have hcounts : ∀ id c', t'.lookup id = some c' → c'.children = descendants t' id ∧ c'.children < 4294967296 := by
    intro id c' hc'
    obtain ⟨x, hx, -⟩ := retains_of_rows hplaces.symm id c' hc'
    obtain ⟨c'', hc'', hyes, hno⟩ := htouch id x hx
    obtain rfl : c' = c'' := Option.some.inj (hc'.symm.trans hc'')
    unfold descendants
    rw [parentOf_congr hplaces, hleaf.ncard_below (finite_below t id)]
    rw [lookup_insert] at hx
    split at hx
    next hid =>
      -- the new comment itself
      subst hid
      obtain rfl := Option.some.inj hx
      have hself : ¬ TransGen (ParentOf (t.insert c h)) t.nextId t.nextId := fun habove => by
        obtain ⟨y, -, hy⟩ := TransGen.tail'_iff.mp habove
        exact hleaf.leaf y hy
      have hnone : Forest.below (ParentOf t) t.nextId = ∅ := by
        rw [← hleaf.below_of_not_above hself]
        exact hleaf.below_leaf
      rw [if_neg hself, hno hself, hchildren, hnone, Set.ncard_empty]
      exact ⟨rfl, by omega⟩
    next hid =>
      have hcount : x.children = (Forest.below (ParentOf t) id).ncard := ht.counted id x hx
      split
      next habove =>
        have hspace : (Forest.below (ParentOf t) id).ncard + 1 < 4294967296 := hroom id habove
        have hbump : c'.children = (x.children + 1) % 4294967296 := hyes habove
        omega
      next habove =>
        rw [hno habove]
        exact ⟨hcount, ht.children_lt id x hx⟩
  exact { (ht.toRooted.insert hc).congr hplaces with
    counted := fun id c' hc' => (hcounts id c' hc').1
    children_lt := fun id c' hc' => (hcounts id c' hc').2 }

/-- **A comment less**, taken off everything above it. -/
theorem CommentTree.drop (ht : CommentTree t) {id : Nat} {c : DappCommentObject} (hc : t.lookup id = some c)
    (hchildren : c.children = 0) (hplaces : (t'.rows.map fun r => (r.1, r.2.place)) = t.rows.map fun r => (r.1, r.2.place))
    (htouch : Touches (TransGen (ParentOf t) id) (fun n => (n + 4294967295) % 4294967296) t t') :
    CommentTree (t'.erase id) := by
  classical
  have hempty : Forest.below (ParentOf t) id = ∅ := by
    have hcard := ht.counted id c hc
    rw [hchildren] at hcard
    exact (Set.ncard_eq_zero (finite_below t id)).mp hcard.symm
  have hnone : ∀ y, ¬ ParentOf t y id := fun y hy => by
    have hmem : y ∈ Forest.below (ParentOf t) id := TransGen.single hy
    rw [hempty] at hmem
    exact hmem
  have hnone' : ∀ y, ¬ ParentOf t' y id := by
    rw [parentOf_congr hplaces]
    exact hnone
  have hleaf := addsLeaf_erase hnone'
  have hcounts : ∀ y c', (t'.erase id).lookup y = some c' →
      c'.children = descendants (t'.erase id) y ∧ c'.children < 4294967296 := by
    intro y c' hc'
    rw [lookup_erase] at hc'
    split at hc'
    next => cases hc'
    next hy =>
      obtain ⟨x, hx, -⟩ := retains_of_rows hplaces.symm y c' hc'
      obtain ⟨c'', hc'', hyes, hno⟩ := htouch y x hx
      obtain rfl : c' = c'' := Option.some.inj (hc'.symm.trans hc'')
      have hcount : x.children = (Forest.below (ParentOf t) y).ncard := ht.counted y x hx
      have hlt := ht.children_lt y x hx
      rw [← parentOf_congr hplaces, hleaf.ncard_below (finite_below _ y), parentOf_congr hplaces] at hcount
      unfold descendants
      split at hcount
      next habove =>
        have hdrop : c'.children = (x.children + 4294967295) % 4294967296 := hyes habove
        omega
      next habove =>
        have hsame := hno habove
        omega
  exact { (ht.toRooted.congr hplaces).erase hnone' with
    counted := fun y c' hc' => (hcounts y c' hc').1
    children_lt := fun y c' hc' => (hcounts y c' hc').2 }

/-- A reply under a comment with that key is stored with room above it. -/
def RoomFor (t : Table DappCommentObject) (op : CommentDappOperation) : Prop :=
  op.parentAuthor ≠ default → t.find? (isPermlink op.dappName op.author op.permlink) = none →
    ∀ p, t.find? (isPermlink op.dappName op.parentAuthor op.parentPermlink) = some p → Room t p.1

theorem getParent_eq_ok {op : CommentDappOperation} {parent : Option (Nat × DappCommentObject)}
    (h : getParent op s = .ok parent s') :
    s = s' ∧ ((op.parentAuthor = default ∧ parent = none) ∨ (op.parentAuthor ≠ default ∧ ∃ p, parent = some p ∧
      s.comments.find? (isPermlink op.dappName op.parentAuthor op.parentPermlink) = some p ∧
        p.2.depth < maxCommentDepth)) := by
  unfold getParent at h
  by_cases hroot : op.parentAuthor = default
  · rw [if_pos hroot] at h
    obtain ⟨rfl, rfl⟩ := pure_eq_ok.mp h
    exact ⟨rfl, .inl ⟨hroot, rfl⟩⟩
  · rw [if_neg hroot] at h
    simp only [getComment, bind_eq_ok, getIn_eq_ok, fcAssert, assert_eq_ok, pure_eq_ok] at h
    obtain ⟨p, _, ⟨hfind, rfl⟩, _, _, ⟨hdepth, rfl⟩, rfl, rfl⟩ := h
    exact ⟨rfl, .inr ⟨hroot, p, rfl, hfind, of_decide_eq_true hdepth⟩⟩

/-- **Storing a comment**: the walk over its ancestors returns, and with room above the result is a tree. -/
theorem storeComment_returns {op : CommentDappOperation} (now : TimePointSec)
    {parent : Option (Nat × DappCommentObject)} (ht : CommentTree s.comments) (hparent : getParent op s = .ok parent s)
    (hc : s.comments.clashes s.comments.nextId (newComment op now s.comments.nextId parent) = false) :
    ∃ s', storeComment op now parent s = .ok () s' ∧
      ((∀ p, parent = some p → Room s.comments p.1) → CommentTree s'.comments) := by
  have hcreate : createIn Index.comments (newComment op now s.comments.nextId parent) s =
      (.ok s.comments.nextId { s with comments := s.comments.insert _ hc } : EStateM.Result Error _ _) :=
    createIn_eq_ok.mpr ⟨hc, rfl, rfl⟩
  unfold storeComment
  rw [bind_of_ok (get_apply s), bind_of_ok hcreate]
  rcases (getParent_eq_ok hparent).2 with ⟨-, rfl⟩ | ⟨hreply, p, rfl, hfind, hdepth⟩
  · refine ⟨_, rfl, fun _ => ?_⟩
    have hfits : Fits s.comments (newComment op now s.comments.nextId none) :=
      ⟨fun hne => absurd rfl hne, fun _ => ⟨rfl, rfl⟩, Nat.zero_le _⟩
    have hnew : (s.comments.insert _ hc).lookup s.comments.nextId = some _ := (lookup_insert _ hc _).trans (if_pos rfl)
    have habove : ∀ a, ¬ TransGen (ParentOf (s.comments.insert _ hc)) s.comments.nextId a := fun a =>
      Forest.not_above (not_parentOf_root hnew rfl)
    refine ht.store hfits rfl (h := hc) rfl (fun id x hx => ⟨x, hx, fun h => absurd h (habove id), fun _ => rfl⟩) ?_
    exact fun a h => absurd h (habove a)
  · obtain ⟨hrow, hkey⟩ := mem_of_find? hfind
    obtain ⟨hdapp, hauthor, hpermlink⟩ := isPermlink_iff.mp hkey
    have hauthor' : (newComment op now s.comments.nextId (some p)).parentAuthor ≠ default := by
      show p.2.author ≠ default
      rw [hauthor]
      exact hreply
    have hkey' : s.comments.find? (isPermlink op.dappName p.2.author p.2.permlink) = some p :=
      find?_permlink hrow (isPermlink_iff.mpr ⟨hdapp, rfl, rfl⟩)
    have hfits : Fits s.comments (newComment op now s.comments.nextId (some p)) :=
      ⟨fun _ => ⟨p, hkey', rfl, rfl⟩, fun hroot => absurd hroot hauthor', hdepth⟩
    have hold := lookup_insert_old (h := hc) (lookup_eq_some.mpr hrow)
    have hfuel : p.2.depth < s.comments.rows.length + 1 :=
      (ht.toRooted.depth_lt_length (lookup_eq_some.mpr hrow)).trans (Nat.lt_succ_self _)
    obtain ⟨s', hrun, hlayout, htouch⟩ := countChild_returns (s := { s with comments := s.comments.insert _ hc }) now
      (ht.toRooted.insert (h := hc) hfits) hold rfl hfuel
    refine ⟨s', hrun, fun hroom => ?_⟩
    have hnew : (s.comments.insert _ hc).lookup s.comments.nextId = some _ := (lookup_insert _ hc _).trans (if_pos rfl)
    have habove := fun a => Forest.above_iff (a := a) (parentOf_of_find hnew hauthor' (find?_insert_old (h := hc) hkey'))
      fun q hq => hq.unique hnew (find?_insert_old (h := hc) hkey')
    refine ht.store (h := hc) hfits rfl hlayout.places ?_ fun a ha => hroom p rfl a ?_
    · intro id x hx
      obtain ⟨x', hx', hyes, hno⟩ := htouch id x hx
      exact ⟨x', hx', fun h => hyes ((habove id).mp h), fun h => hno fun h' => h ((habove id).mpr h')⟩
    · exact (above_insert ht.toRooted hfits hauthor' hkey' a).mp ha

/-- **Deleting a comment**: the walk over its ancestors returns, and leaves a tree without it. -/
theorem uncountChild_tree (now : TimePointSec) {c : Nat × DappCommentObject} (ht : CommentTree s.comments)
    (hrow : c ∈ s.comments.rows) (hleaf : c.2.children = 0) :
    ∃ s₁, uncountChild now (s.comments.rows.length + 1) c.2 s = .ok () s₁ ∧ CommentTree (s₁.comments.erase c.1) := by
  have hc := lookup_eq_some.mpr hrow
  have hfuel : c.2.depth < s.comments.rows.length + 1 := (ht.toRooted.depth_lt_length hc).trans (Nat.lt_succ_self _)
  obtain ⟨s₁, hrun, hlayout, htouch⟩ := uncountChild_returns now ht.toRooted hc rfl hfuel
  exact ⟨s₁, hrun, ht.drop hc hleaf hlayout.places htouch⟩

theorem DappStep.commentTree {d : Database} {op : DappOperation} (h : DappStep d op s')
    (hroom : ∀ o, op = .commentDapp o → RoomFor d.dapp.comments o) (ht : CommentTree d.dapp.comments) :
    CommentTree s'.comments := by
  cases h with
  | posted hfound happroved hname hparent hnew hstore =>
    obtain ⟨hc, -⟩ := storeComment_eq_ok hstore
    obtain ⟨s₁, hrun, htree⟩ := storeComment_returns _ ht hparent hc
    cases hrun.symm.trans hstore
    refine htree fun p hp => ?_
    rcases (getParent_eq_ok hparent).2 with ⟨-, hnone⟩ | ⟨hreply, q, hq, hfind, -⟩
    · rw [hnone] at hp
      cases hp
    · obtain rfl : q = p := Option.some.inj (hq.symm.trans hp)
      exact hroom _ rfl hreply hnew q hfind
  | edited hfound hedit =>
    exact ht.of_same (runs_editComment (k := fun c => (c.place, c.children)) (fun _ _ _ => rfl) _ _ _ _ _ _ hedit).places
  | @voted op _ type c voter now hfound hvoter htype hcast =>
    obtain ⟨x, hc, hlookup, hstore⟩ := castVote_eq_ok hcast
    have hsame : ((countVote type x).place, (countVote type x).children) = (x.place, x.children) := by
      cases type <;> rfl
    have htree := ht.of_same (map_rows_replace (k := fun c => (c.place, c.children)) hlookup hc hsame)
    rcases hstore with ⟨-, hv, rfl⟩ | ⟨r, -, -, -, -, hv, rfl⟩ <;> exact htree
  | @deleted _ _ c now hfound hleaf hdelete =>
    obtain ⟨hrow, -⟩ := mem_of_find? hfound
    obtain ⟨s₁, hcount, rfl⟩ := deleteComment_eq_ok hdelete
    obtain ⟨s₂, hrun, htree⟩ := uncountChild_tree now ht hrow hleaf
      (s := { d.dapp with commentVotes := d.dapp.commentVotes.without fun v => v.comment == c.1 })
    cases hrun.symm.trans hcount
    exact htree
  | created | rekeyed | joined | left | voteCast | voteChanged | feeVoted => exact ht

end Sigmaengine.Dapp

namespace Sigmaengine

open Effect Table Dapp Relation

/-- Replies are written where nothing above them has 2^32 - 1 descendants yet. -/
def RoomForReplies (d : Database) (op : DappOperation) : Prop :=
  ∀ o, op = .commentDapp o → RoomFor d.dapp.comments o

/-- A comment whose key is free does not clash. -/
theorem clashes_newComment {t : Table DappCommentObject} {op : CommentDappOperation}
    (hnew : t.find? (isPermlink op.dappName op.author op.permlink) = none) (now : TimePointSec) (id : Nat)
    (parent : Option (Nat × DappCommentObject)) : t.clashes id (newComment op now id parent) = false := by
  refine clashes_eq_false fun x hx => ?_
  obtain ⟨i, hi⟩ := mem_values.mp hx
  have hfree := find?_eq_none hnew hi
  cases parent <;> exact hfree

theorem deleteComment_returns {s : DappIndices} {c : Nat × DappCommentObject} (ht : CommentTree s.comments)
    (hrow : c ∈ s.comments.rows) (hleaf : c.2.children = 0) (now : TimePointSec) :
    ∃ s', deleteComment c now s = .ok () s' := by
  obtain ⟨s₁, hcount, -⟩ := uncountChild_tree now ht hrow hleaf
    (s := { s with commentVotes := s.commentVotes.without fun v => v.comment == c.1 })
  refine ⟨{ s₁ with comments := s₁.comments.erase c.1 }, ?_⟩
  unfold deleteComment
  rw [bind_of_ok (get_apply s), bind_of_ok (each_removeIn (fun _ _ _ => rfl) _ s)]
  exact (bind_of_ok hcount).trans (removeIn_eq_ok.mpr rfl)

/-- **The tree of comments.**  As long as no comment gets 2^32 descendants, every comment counts its
descendants and every reply has its parent in the same dapp and thread, one level up; so the walks over the
ancestors of a comment that is written or deleted end, and no counter falls below zero. -/
theorem comment_tree (env : Env) (d : Database) (h : Visited env RoomForReplies d) :
    CommentTree d.dapp.comments ∧
    (∀ op parent now, getParent op d.dapp = .ok parent d.dapp →
      d.dapp.comments.find? (isPermlink op.dappName op.author op.permlink) = none →
      ∃ s', storeComment op now parent d.dapp = .ok () s') ∧
    ∀ c ∈ d.dapp.comments.rows, c.2.children = 0 → ∀ now, (∃ s', deleteComment c now d.dapp = .ok () s') ∧
      ∀ a x, TransGen (ParentOf d.dapp.comments) c.1 a → d.dapp.comments.lookup a = some x → 0 < x.children := by
  have htree : CommentTree d.dapp.comments := by
    refine Visited.forum (I := fun f => CommentTree f.1) (fun d op s' hstep hok ht => hstep.commentTree hok ht) ?_ h
    refine ⟨⟨?_, ?_, ?_⟩, ?_, ?_⟩ <;> intro id c hc <;> cases hc
  refine ⟨htree, fun op parent now hparent hnew => ?_, fun c hrow hleaf now => ⟨?_, fun a x habove hx => ?_⟩⟩
  · obtain ⟨s', hrun, -⟩ := storeComment_returns now htree hparent (clashes_newComment hnew now _ parent)
    exact ⟨s', hrun⟩
  · exact deleteComment_returns htree hrow hleaf now
  · have hcount : x.children = (Forest.below (ParentOf d.dapp.comments) a).ncard := htree.counted a x hx
    rw [hcount, Set.ncard_pos (finite_below _ a)]
    exact ⟨c.1, habove⟩

/-- There are few comments. -/
def FewComments (d : Database) (_ : DappOperation) : Prop := d.dapp.comments.rows.length < 100

instance (d : Database) (op : DappOperation) : Decidable (FewComments d op) := inferInstanceAs (Decidable (_ < _))

theorem eachDapp_roomForReplies {env : Env} {d : Database} {op : Operation} (h : EachDapp env FewComments d op) :
    EachDapp env RoomForReplies d op := by
  intro c hc hsucceeds p hp o _ _ _ q _ a _
  have hfew : p.1.dapp.comments.rows.length < 100 := h c hc hsucceeds p hp
  have hle := descendants_le p.1.dapp.comments a
  omega

/-- A producer becomes a member of the shop, and answers there. -/
def joinForum (account : String) : Operation :=
  .customBinary ⟨[], [named account], [], [], ascii ['d', 'a', 'p', 'p'],
    1 :: 5 :: ([account, "shop"].flatMap fun t => packText (ascii t.toList))⟩

def writeAnswer (author parent permlink : String) : Operation :=
  forumOperation (named author) (1 :: 2 :: (["shop", parent, permlink, author, "re", "Re", "Hi", ""].flatMap fun t =>
    packText (ascii t.toList)))

/-- A comment with two answers one below the other, and a third beside them. -/
def answerBlock : SignedBlock :=
  sampleBlock (dappBlock.id forumEnv.codec) 2 [postComment, joinForum "aaa", joinForum "bbb", joinForum "ccc",
    writeAnswer "aaa" "root" "hello", writeAnswer "bbb" "aaa" "re", writeAnswer "ccc" "root" "hello"]

def answeredState : Database := after (applyBlock forumEnv {} answerBlock forumState)

theorem comment_tree_answeredState :
    answeredState.dapp.comments.rows.map (fun r => (r.1, r.2.children, r.2.depth, r.2.rootComment)) =
        [(0, 3, 0, 0), (1, 1, 1, 0), (2, 0, 2, 0), (3, 0, 1, 0)] ∧
      CommentTree answeredState.dapp.comments := by
  have hruns : EachOperation forumEnv {} (EachDapp forumEnv FewComments) dappBlock (genesis ⟨1⟩) ∧
      EachOperation forumEnv {} (EachDapp forumEnv FewComments) answerBlock forumState ∧
      succeeds (applyBlock forumEnv {} dappBlock (genesis ⟨1⟩)) = true ∧
      succeeds (applyBlock forumEnv {} answerBlock forumState) = true ∧
      answeredState.dapp.comments.rows.map (fun r => (r.1, r.2.children, r.2.depth, r.2.rootComment)) =
        [(0, 3, 0, 0), (1, 1, 1, 0), (2, 0, 2, 0), (3, 0, 1, 0)] := by
    decide +kernel
  obtain ⟨hdapp, hanswers, hfirst, hsecond, hrows⟩ := hruns
  have hforum : Visited forumEnv RoomForReplies forumState :=
    (Visited.genesis ⟨1⟩).block {} dappBlock (fun p hp => eachDapp_roomForReplies (hdapp p hp)) (eq_ok_of_succeeds hfirst)
  have hvisited : Visited forumEnv RoomForReplies answeredState :=
    hforum.block {} answerBlock (fun p hp => eachDapp_roomForReplies (hanswers p hp)) (eq_ok_of_succeeds hsecond)
  exact ⟨hrows, (comment_tree forumEnv answeredState hvisited).1⟩

end Sigmaengine
