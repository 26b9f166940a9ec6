import Sigmaengine.Lib.Ancestry
import Sigmaengine.Lib.Traces
import Sigmaengine.Chain.ForkDatabase

/-!
# The way back to a common ancestor

`fetch_branch_from` walks from two blocks to the first blocks of equal height on one previous block.  It ends, since
every step goes one block down, and it throws exactly when the weak pointers do not lead that far.  The previous
block itself is not looked up, so it may be gone.

Main results: `reach_parentLinked`, `fetch_branch_from`.
-/

namespace Sigmaengine

open Effect Ancestry

namespace ForkDatabase

variable {cd : Codec} {db : ForkDatabase} {i j : ForkItem} {h p a b : Nat} {fuel : Nat}

/-! ## Parents -/

/-- The pointer of an item leads to the block it is built on, one block lower. -/
def ParentLinked (db : ForkDatabase) : Prop :=
  ∀ h i p, db.item h = some i → i.prev = some p →
    ∃ j, db.item p = some j ∧ j.id = i.data.previous ∧ i.num = j.num + 1

theorem parent_eq_some : db.parent h = some p ↔ ∃ i, db.item h = some i ∧ i.prev = some p ∧ db.alive p = true := by
  simp only [parent, Option.filter_eq_some_iff, Option.bind_eq_some_iff, ← exists_and_right, and_assoc]

theorem num_eq (hitem : db.item h = some i) : db.num h = i.num := by
  simp [num, hitem, ForkItem.num]

theorem ParentLinked.ranked (hlinked : ParentLinked db) : Ranked db.parent db.num := by
  intro a b hup
  obtain ⟨i, hi, hprev, -⟩ := parent_eq_some.mp hup
  obtain ⟨j, hj, -, hnum⟩ := hlinked a i b hi hprev
  rw [num_eq hi, num_eq hj, hnum]

/-! ## The walks -/

/-- Weak pointers lead from both to one item. -/
def CommonAncestor (db : ForkDatabase) (a b : Nat) : Prop :=
  ∃ c l m, Climb db.parent a l c ∧ Climb db.parent b m c

/-- Weak pointers lead from both to items of one height on one previous block. -/
def Joined (db : ForkDatabase) (a b : Nat) : Prop := Meets db.parent db.num db.previous a b

/-- What `fetch_branch_from` is to return. -/
structure Branches (db : ForkDatabase) (a b : Nat) (l m : List Nat) : Prop where
  starts : l.head? = some a ∧ m.head? = some b
  linked : l.IsChain (fun x y => db.parent x = some y) ∧ m.IsChain fun x y => db.parent x = some y
  falling : l.Pairwise (fun x y => db.num y < db.num x) ∧ m.Pairwise fun x y => db.num y < db.num x
  /-- The last two are on one previous block, and no two before them of one height are. -/
  ends : ∃ y z, l.getLast? = some y ∧ m.getLast? = some z ∧ db.num y = db.num z ∧ db.previous y = db.previous z ∧
    ∀ x ∈ l, ∀ x' ∈ m, db.num x = db.num x' → db.previous x = db.previous x' → x = y ∧ x' = z

theorem branches_of_nearest (hlinked : ParentLinked db) {l m : List Nat}
    (hnearest : Nearest db.parent db.num db.previous a b l m) : Branches db a b l m := by
  obtain ⟨y, z, hl, hm, hnum, hprevious, hfirst⟩ := hnearest
  constructor
  · exact ⟨hl.head_eq, hm.head_eq⟩
  · exact ⟨hl.isChain, hm.isChain⟩
  · exact ⟨hl.falling hlinked.ranked, hm.falling hlinked.ranked⟩
  · exact ⟨y, z, hl.getLast_eq, hm.getLast_eq, hnum, hprevious, hfirst⟩

/-- The first two loops go down to the height of the other item, or find that the two are not joined. -/
theorem walkDown_spec (hlinked : ParentLinked db) (lost : Error) (hlost : lost ≠ .diverged) (target : Nat)
    (hfuel : db.num a < fuel) :
    (∃ l z, db.walkDown lost (db.num target) fuel a = .ok (l, z) ∧ db.num z ≤ db.num a ∧
        db.num z ≤ db.num target ∧ (db.num target ≤ db.num a → db.num z = db.num target) ∧
        (Joined db a target → Joined db z target) ∧
        ∀ l' m, Nearest db.parent db.num db.previous z target l' m →
          Nearest db.parent db.num db.previous a target (l ++ l') m) ∨
      ∃ e, e ≠ .diverged ∧ db.walkDown lost (db.num target) fuel a = .error e ∧ ¬ Joined db a target := by
  induction fuel generalizing a with
  | zero => omega
  | succ fuel ih =>
    by_cases hlt : db.num target < db.num a
    · unfold walkDown
      rw [if_pos hlt]
      cases hup : db.parent a with
      | none =>
        refine .inr ⟨lost, hlost, rfl, fun hjoined => ?_⟩
        obtain ⟨p, hp, -⟩ := Meets.left hlinked.ranked hjoined hlt
        rw [hup] at hp
        cases hp
      | some p =>
        have hstep := hlinked.ranked a p hup
        have hdown : Joined db a target → Joined db p target := by
          intro hjoined
          obtain ⟨q, hq, hrest⟩ := Meets.left hlinked.ranked hjoined hlt
          rw [hup, Option.some.injEq] at hq
          rw [hq]
          exact hrest
        rcases ih (a := p) (by omega) with ⟨l, z, hwalk, hz, hle, heq, hjoin, hnearest⟩ | ⟨e, he, hwalk, hnot⟩
        · refine .inl ⟨a :: l, z, ?_, by omega, hle, fun _ => heq (by omega), hjoin ∘ hdown, ?_⟩
          · simp only [hwalk]
            rfl
          · intro l' m hrest
            exact (hnearest l' m hrest).cons_left hlinked.ranked hup hlt
        · refine .inr ⟨e, he, ?_, hnot ∘ hdown⟩
          simp only [hwalk]
          rfl
    · refine .inl ⟨[], a, ?_, le_rfl, by omega, fun _ => by omega, id, fun l' m hrest => hrest⟩
      unfold walkDown
      rw [if_neg hlt]

/-- The last loop finds where the two meet, or that they do not. -/
theorem walkTogether_spec (hlinked : ParentLinked db) (hnum : db.num a = db.num b) (hfuel : db.num a < fuel) :
    (∃ l m, db.walkTogether fuel a b = .ok (l, m) ∧ Nearest db.parent db.num db.previous a b l m) ∨
      ∃ e, e ≠ .diverged ∧ db.walkTogether fuel a b = .error e ∧ ¬ Joined db a b := by
  induction fuel generalizing a b with
  | zero => omega
  | succ fuel ih =>
    unfold walkTogether
    by_cases hne : db.previous a ≠ db.previous b
    · rw [if_pos hne]
      cases hup : db.parent a with
      | none =>
        refine .inr ⟨_, by decide, rfl, fun hjoined => ?_⟩
        obtain ⟨p, q, hp, -⟩ := Meets.both hlinked.ranked hjoined hnum hne
        rw [hup] at hp
        cases hp
      | some p =>
        cases hup' : db.parent b with
        | none =>
          refine .inr ⟨_, by decide, rfl, fun hjoined => ?_⟩
          obtain ⟨p, q, -, hq, -⟩ := Meets.both hlinked.ranked hjoined hnum hne
          rw [hup'] at hq
          cases hq
        | some q =>
          have hp := hlinked.ranked a p hup
          have hq := hlinked.ranked b q hup'
          rcases ih (a := p) (b := q) (by omega) (by omega) with ⟨l, m, hwalk, hnearest⟩ | ⟨e, he, hwalk, hnot⟩
          · refine .inl ⟨a :: l, b :: m, ?_, hnearest.cons_both hlinked.ranked hup hup' hnum hne⟩
            simp only [hwalk]
            rfl
          · refine .inr ⟨e, he, ?_, fun hjoined => hnot ?_⟩
            · simp only [hwalk]
              rfl
            · obtain ⟨p', q', hp', hq', hrest⟩ := Meets.both hlinked.ranked hjoined hnum hne
              rw [hup, Option.some.injEq] at hp'
              rw [hup', Option.some.injEq] at hq'
              rw [hp', hq']
              exact hrest
    · rw [if_neg hne]
      exact .inl ⟨[a], [b], rfl, nearest_here hnum (not_not.mp hne)⟩

/-- `fetch_branch_from` finds where the two meet, or that they do not. -/
theorem fetchBranchFrom_spec (hlinked : ParentLinked db) {first second : BlockId} (hfirst : db.find first = some a)
    (hsecond : db.find second = some b) (hfuel : db.num a < fuel) (hfuel' : db.num b < fuel) :
    (∃ l m, db.fetchBranchFrom fuel first second = .ok (l, m) ∧
        Nearest db.parent db.num db.previous a b l m) ∨
      ∃ e, e ≠ .diverged ∧ db.fetchBranchFrom fuel first second = .error e ∧ ¬ Joined db a b := by
  unfold fetchBranchFrom
  simp only [hfirst, hsecond]
  rcases walkDown_spec hlinked (.assertion "first_branch") (by decide) b hfuel with
    ⟨l, y, hwalk, hylt, hyle, -, hjoin, hnearest⟩ | ⟨e, he, hwalk, hnot⟩
  · rw [hwalk]
    rcases walkDown_spec hlinked (.assertion "second_branch") (by decide) y hfuel' with
      ⟨m, z, hwalk', hzlt, hzle, hzeq, hjoin', hnearest'⟩ | ⟨e, he, hwalk', hnot⟩
    · have hequal := hzeq hyle
      rcases walkTogether_spec hlinked hequal.symm (by omega : db.num y < fuel) with
        ⟨l', m', hlast, hmeet⟩ | ⟨e, he, hlast, hnot⟩
      · refine .inl ⟨l ++ l', m ++ m', ?_, hnearest _ _ (hnearest' _ _ hmeet.symm).symm⟩
        show (db.walkDown _ (db.num y) fuel b >>= _) = _
        rw [hwalk']
        show (db.walkTogether fuel y z >>= _) = _
        rw [hlast]
        rfl
      · refine .inr ⟨e, he, ?_, fun hjoined => hnot (hjoin' (hjoin hjoined).symm).symm⟩
        show (db.walkDown _ (db.num y) fuel b >>= _) = _
        rw [hwalk']
        show (db.walkTogether fuel y z >>= _) = _
        rw [hlast]
        rfl
    · refine .inr ⟨e, he, ?_, fun hjoined => hnot (hjoin hjoined).symm⟩
      show (db.walkDown _ (db.num y) fuel b >>= _) = _
      rw [hwalk']
      rfl
  · refine .inr ⟨e, he, ?_, hnot⟩
    rw [hwalk]
    rfl

/-- **The common ancestor** is found whenever weak pointers lead there, and the branches are returned exactly when the two
blocks are joined, the ancestor pruned or not; otherwise it throws. -/
theorem fetch_branch_from (hlinked : ParentLinked db) {first second : BlockId} (hfirst : db.find first = some a)
    (hsecond : db.find second = some b) (hfuel : db.num a < fuel) (hfuel' : db.num b < fuel) :
    (CommonAncestor db a b → ∃ l m, db.fetchBranchFrom fuel first second = .ok (l, m)) ∧
      ((∃ l m, db.fetchBranchFrom fuel first second = .ok (l, m)) ↔ Joined db a b) ∧
      (∀ l m, db.fetchBranchFrom fuel first second = .ok (l, m) → Branches db a b l m) ∧
      ((∃ e, e ≠ .diverged ∧ db.fetchBranchFrom fuel first second = .error e) ↔ ¬ Joined db a b) := by
  rcases fetchBranchFrom_spec hlinked hfirst hsecond hfuel hfuel' with ⟨l, m, hok, hnearest⟩ | ⟨e, he, herror, hnot⟩
  · refine ⟨fun _ => ⟨l, m, hok⟩, iff_of_true ⟨l, m, hok⟩ hnearest.meets, ?_, ?_⟩
    · intro l' m' hreturn
      rw [hok] at hreturn
      cases hreturn
      exact branches_of_nearest hlinked hnearest
    · refine iff_of_false ?_ (not_not.mpr hnearest.meets)
      rintro ⟨e, -, herror⟩
      rw [hok] at herror
      cases herror
  · refine ⟨?_, iff_of_false ?_ hnot, ?_, iff_of_true ⟨e, he, herror⟩ hnot⟩
    · rintro ⟨c, l, m, hl, hm⟩
      exact absurd (hl.meets hm) hnot
    · rintro ⟨l, m, hreturn⟩
      rw [herror] at hreturn
      cases hreturn
    · intro l m hreturn
      rw [herror] at hreturn
      cases hreturn

/-! ## Every run -/

/-- What every call keeps. -/
structure Sound (cd : Codec) (db : ForkDatabase) : Prop where
  ids : ∀ h i, db.item h = some i → i.id = i.data.id cd
  owned : ∀ h, db.alive h = true → h < db.items.length
  linked : ParentLinked db

theorem alive_iff : db.alive h = true ↔ h ∈ db.index ∨ db.head = some h ∨ h ∈ db.held := by
  simp [alive, or_assoc]

theorem item_of_find {id : BlockId} (hfind : db.find id = some h) :
    h ∈ db.index ∧ ∃ i, db.item h = some i ∧ i.id = id := by
  obtain ⟨hmem, hid⟩ := And.intro (List.mem_of_find?_eq_some hfind) (List.find?_some hfind)
  unfold hasId at hid
  cases hitem : db.item h with
  | none => simp [hitem] at hid
  | some i => exact ⟨hmem, i, rfl, by simpa [hitem] using hid⟩

/-- Pointers that come and go change nothing about the items. -/
theorem Sound.of_items {db' : ForkDatabase} (hsound : Sound cd db) (hitems : db'.items = db.items)
    (howned : ∀ h, db'.alive h = true → db.alive h = true) : Sound cd db' := by
  have hitem : ∀ h, db'.item h = db.item h := fun h => congrArg (·[h]?) hitems
  constructor
  · intro h i hi
    rw [hitem] at hi
    exact hsound.ids h i hi
  · intro h hh
    rw [hitems]
    exact hsound.owned h (howned h hh)
  · intro h i p hi hprev
    rw [hitem] at hi
    rw [hitem]
    exact hsound.linked h i p hi hprev

theorem item_insert : (db.insert i).item h = if h = db.items.length then some i else db.item h := by
  unfold item insert
  rw [List.getElem?_append]
  by_cases hlt : h < db.items.length
  · rw [if_pos hlt, if_neg (by omega)]
  · rw [if_neg hlt]
    by_cases heq : h = db.items.length
    · simp [heq]
    · rw [if_neg heq, List.getElem?_eq_none (by simp; omega), List.getElem?_eq_none (by omega)]

theorem item_lt (hitem : db.item h = some i) : h < db.items.length := by
  unfold item at hitem
  exact (List.getElem?_eq_some_iff.mp hitem).1

/-- A new item whose parent, if it has one, is the block before. -/
theorem Sound.insert (hsound : Sound cd db) (hid : i.id = i.data.id cd)
    (hprev : ∀ p, i.prev = some p → ∃ j, db.item p = some j ∧ j.id = i.data.previous ∧ i.num = j.num + 1) :
    Sound cd (db.insert i) := by
  constructor
  · intro h j hj
    rw [item_insert] at hj
    split at hj
    · cases hj
      exact hid
    · exact hsound.ids h j hj
  · intro h hh
    have hlength : (db.insert i).items.length = db.items.length + 1 := by simp [ForkDatabase.insert]
    have hold : h = db.items.length ∨ db.alive h = true := by
      rw [alive_iff] at hh
      rw [alive_iff]
      rcases hh with hindex | hhead | hheld
      · simp only [ForkDatabase.insert] at hindex
        split at hindex
        · exact .inr (.inl hindex)
        · rcases List.mem_append.mp hindex with hindex | hnew
          · exact .inr (.inl hindex)
          · exact .inl (List.mem_singleton.mp hnew)
      · exact .inr (.inr (.inl hhead))
      · exact .inr (.inr (.inr hheld))
    rcases hold with rfl | hold
    · omega
    · have hlt := hsound.owned h hold
      omega
  · intro h j p hj hp
    have hfound : ∃ k, db.item p = some k ∧ k.id = j.data.previous ∧ j.num = k.num + 1 := by
      rw [item_insert] at hj
      split at hj
      · cases hj
        exact hprev p hp
      · exact hsound.linked h j p hj hp
    obtain ⟨k, hk, hrest⟩ := hfound
    refine ⟨k, ?_, hrest⟩
    have hlt := item_lt hk
    rw [item_insert, if_neg (by omega), hk]

/-- The newest item can become the head. -/
theorem Sound.setHead (hsound : Sound cd db) (hlt : h < db.items.length) :
    Sound cd { db with head := some h } := by
  constructor
  · exact hsound.ids
  · intro g hg
    rw [alive_iff] at hg
    rcases hg with hindex | hhead | hheld
    · exact hsound.owned g (alive_iff.mpr (.inl hindex))
    · cases hhead
      exact hlt
    · exact hsound.owned g (alive_iff.mpr (.inr (.inr hheld)))
  · exact hsound.linked

theorem linkTo_eq_ok {b : SignedBlock} {prev : Option Nat} {db' : ForkDatabase} (h : linkTo b db = .ok prev db') :
    db' = db ∧ ∀ p, prev = some p → db.head.isSome = true ∧ db.find b.previous = some p := by
  unfold linkTo at h
  obtain ⟨t, t', hget, h⟩ := bind_eq_ok.mp h
  obtain ⟨rfl, rfl⟩ := get_eq_ok.mp hget
  split at h
  · rename_i hlink
    obtain ⟨p, t, hfind, h⟩ := bind_eq_ok.mp h
    obtain ⟨hfound, rfl⟩ := ofOption_eq_ok.mp hfind
    obtain ⟨_, t, hvalid, h⟩ := bind_eq_ok.mp h
    obtain ⟨-, rfl⟩ := fcAssert_eq_ok.mp hvalid
    obtain ⟨rfl, rfl⟩ := pure_eq_ok.mp h
    refine ⟨rfl, fun q hq => ?_⟩
    cases hq
    exact ⟨(Bool.and_eq_true_iff.mp hlink).1, hfound⟩
  · obtain ⟨rfl, rfl⟩ := pure_eq_ok.mp h
    exact ⟨rfl, fun q hq => by cases hq⟩

theorem readOnly_linkTo (b : SignedBlock) : ReadOnly (linkTo b) := by
  unfold linkTo
  refine readOnly_get.bind fun db => ?_
  split
  · refine (readOnly_ofOption _ _).bind fun p => (readOnly_assert _ _).bind fun _ => readOnly_pure _
  · exact readOnly_pure _

theorem checkAge_eq_ok {b : SignedBlock} {u : Unit} {db' : ForkDatabase} (h : checkAge b db = .ok u db') :
    db' = db ∧ ∀ head, db.headItem = some head → head.num - db.maxSize < b.blockNum := by
  unfold checkAge at h
  obtain ⟨t, t', hget, h⟩ := bind_eq_ok.mp h
  obtain ⟨rfl, rfl⟩ := get_eq_ok.mp hget
  cases hhead : db.headItem with
  | none =>
    simp only [hhead] at h
    obtain ⟨-, rfl⟩ := pure_eq_ok.mp h
    exact ⟨rfl, fun head hnone => by cases hnone⟩
  | some head =>
    simp only [hhead] at h
    obtain ⟨hyoung, rfl⟩ := fcAssert_eq_ok.mp h
    refine ⟨rfl, fun head' hsome => ?_⟩
    cases hsome
    exact of_decide_eq_true hyoung

theorem readOnly_checkAge (b : SignedBlock) : ReadOnly (checkAge b) := by
  unfold checkAge
  refine readOnly_get.bind fun db => ?_
  split
  · exact readOnly_pure _
  · exact readOnly_assert _ _

/-- **What a pushed block does**: nothing, or it is put on its parent, and it may be the new head. -/
theorem after_pushBlock (b : SignedBlock) :
    after (pushBlock cd b db) = db ∨
      ∃ prev, (∀ head, db.headItem = some head → head.num - db.maxSize < b.blockNum) ∧
        (∀ p, prev = some p → db.head.isSome = true ∧ db.find b.previous = some p) ∧
        after (pushBlock cd b db) = db.add { data := b, id := b.id cd, prev := prev } := by
  have hchecks := readOnly_checkAge b db
  have hlinks := readOnly_linkTo b db
  unfold pushBlock
  cases hage : checkAge b db with
  | error e db' =>
    rw [hage] at hchecks
    obtain rfl : db = db' := hchecks
    rw [bind_of_error hage]
    exact .inl rfl
  | ok u db' =>
    obtain ⟨rfl, hyoung⟩ := checkAge_eq_ok hage
    rw [bind_of_ok hage]
    cases hlink : linkTo b db' with
    | error e db'' =>
      rw [hlink] at hlinks
      obtain rfl : db' = db'' := hlinks
      rw [bind_of_error hlink]
      exact .inl rfl
    | ok prev db'' =>
      obtain ⟨rfl, hprev⟩ := linkTo_eq_ok hlink
      rw [bind_of_ok hlink]
      exact .inr ⟨prev, hyoung, hprev, rfl⟩

theorem headItem_isSome (hsound : Sound cd db) (hhead : db.head.isSome = true) : ∃ head, db.headItem = some head := by
  obtain ⟨h, hh⟩ := Option.isSome_iff_exists.mp hhead
  have hlt := hsound.owned h (alive_iff.mpr (.inr (.inl hh)))
  refine ⟨db.items.get ⟨h, hlt⟩, ?_⟩
  simp [headItem, hh, item, hlt]

/-- A block that is young enough has a number, so the number of its parent is one less. -/
theorem num_of_parent {b : SignedBlock} (hsound : Sound cd db) (hj : db.item p = some j) (hid : j.id = b.previous)
    (hpos : 0 < b.blockNum) : b.blockNum = j.num + 1 := by
  have hnum : b.previous.num = j.num := by
    rw [← hid, hsound.ids p j hj]
    rfl
  have hlt : j.num < 4294967296 := Nat.mod_lt _ (by decide)
  have hblock : b.blockNum = (b.previous.num + 1) % 4294967296 := rfl
  rw [hnum] at hblock
  omega

theorem Sound.add (hsound : Sound cd db) (hid : i.id = i.data.id cd)
    (hprev : ∀ p, i.prev = some p → ∃ j, db.item p = some j ∧ j.id = i.data.previous ∧ i.num = j.num + 1) :
    Sound cd (db.add i) := by
  have hinsert := hsound.insert hid hprev
  have hlength : (db.insert i).items.length = db.items.length + 1 := by simp [ForkDatabase.insert]
  by_cases hhigher : db.headItem.all (·.num < i.num) = true
  · have hadd : db.add i = { db.insert i with head := some db.items.length } := by simp [ForkDatabase.add, hhigher]
    rw [hadd]
    exact hinsert.setHead (by omega)
  · have hadd : db.add i = db.insert i := by
      simp only [ForkDatabase.add, hhigher]
      rfl
    rw [hadd]
    exact hinsert

theorem Sound.pushBlock (hsound : Sound cd db) (b : SignedBlock) : Sound cd (after (pushBlock cd b db)) := by
  rcases @after_pushBlock cd db b with hsame | ⟨prev, hyoung, hlink, hadd⟩
  · rw [hsame]
    exact hsound
  · rw [hadd]
    refine hsound.add rfl fun p hp => ?_
    obtain ⟨hhead, hfind⟩ := hlink p hp
    obtain ⟨head, hitem⟩ := headItem_isSome hsound hhead
    have hpos := hyoung head hitem
    obtain ⟨-, j, hj, hid⟩ := item_of_find hfind
    have hpositive : 0 < b.blockNum := by omega
    exact ⟨j, hj, hid, num_of_parent hsound hj hid hpositive⟩

theorem Sound.popBlock (hsound : Sound cd db) : Sound cd (after (popBlock db)) := by
  unfold ForkDatabase.popBlock
  rw [bind_of_ok (get_apply db)]
  cases hhead : db.head with
  | none => exact hsound
  | some head =>
    cases hparent : db.parent head with
    | none =>
      show Sound cd (after ((ofOption (db.parent head) _ >>= _) db))
      rw [hparent]
      exact hsound
    | some prev =>
      show Sound cd (after ((ofOption (db.parent head) _ >>= _) db))
      rw [hparent]
      obtain ⟨i, hi, hprev, halive⟩ := parent_eq_some.mp hparent
      exact hsound.setHead (hsound.owned prev halive)

/-- **Every call** keeps the items linked, whether it returns or throws. -/
theorem Sound.step (hsound : Sound cd db) (c : Call) : Sound cd (step cd db c) := by
  unfold ForkDatabase.step
  split
  · rename_i hpossible
    cases c with
    | reset =>
      refine hsound.of_items rfl fun h hh => ?_
      rw [alive_iff] at hh
      rcases hh with hindex | hhead | hheld
      · cases hindex
      · cases hhead
      · exact alive_iff.mpr (.inr (.inr hheld))
    | popBlock => exact hsound.popBlock
    | startBlock b =>
      refine (hsound.insert (i := { data := b, id := b.id cd }) rfl fun p hp => by cases hp).setHead ?_
      simp [ForkDatabase.insert]
    | pushBlock b =>
      have hpush := hsound.pushBlock b
      show Sound cd (after ((ForkDatabase.pushBlock cd b >>= fun _ => pure ()) db))
      cases hresult : ForkDatabase.pushBlock cd b db with
      | error e db' =>
        rw [hresult] at hpush
        rw [bind_of_error hresult]
        exact hpush
      | ok r db' =>
        rw [hresult] at hpush
        rw [bind_of_ok hresult]
        exact hpush
    | setMaxSize s =>
      show Sound cd (after (ForkDatabase.setMaxSize s db))
      rcases setMaxSize_cases s db with hrun | ⟨head, hrun⟩
      · rw [hrun]
        exact hsound.of_items rfl fun h hh => hh
      · rw [hrun]
        refine hsound.of_items rfl fun h hh => ?_
        rw [alive_iff] at hh ⊢
        exact hh.imp_left fun hindex => (List.mem_filter.mp hindex).1
    | setHead g =>
      cases g with
      | none =>
        refine hsound.of_items rfl fun h hh => ?_
        rw [alive_iff] at hh ⊢
        rcases hh with hindex | hhead | hheld
        · exact .inl hindex
        · cases hhead
        · exact .inr (.inr hheld)
      | some g => exact hsound.setHead (hsound.owned g hpossible)
    | remove id =>
      refine hsound.of_items rfl fun h hh => ?_
      rw [alive_iff] at hh ⊢
      exact hh.imp_left fun hindex => (List.mem_filter.mp hindex).1
    | hold g =>
      refine hsound.of_items rfl fun h hh => ?_
      rw [alive_iff] at hh
      rcases hh with hindex | hhead | hheld
      · exact alive_iff.mpr (.inl hindex)
      · exact alive_iff.mpr (.inr (.inl hhead))
      · rcases List.mem_cons.mp hheld with rfl | hheld
        · exact hpossible
        · exact alive_iff.mpr (.inr (.inr hheld))
    | release g =>
      refine hsound.of_items rfl fun h hh => ?_
      rw [alive_iff] at hh ⊢
      exact hh.imp_right (Or.imp_right List.mem_of_mem_erase)
  · exact hsound

theorem sound_empty : Sound cd {} := by
  constructor
  · intro h i hi
    simp [item] at hi
  · intro h hh
    simp [alive] at hh
  · intro h i p hi
    simp [item] at hi

theorem reach_sound (calls : List Call) : Sound cd (Traces.run (step cd) {} calls) :=
  Traces.always (I := fun _ db => Sound cd db) sound_empty (fun _ _ c hsound => hsound.step c) calls

/-- **In every run** the items are linked to their parents. -/
theorem reach_parentLinked (calls : List Call) : ParentLinked (Traces.run (step cd) {} calls) :=
  (reach_sound calls).linked

/-! ## A parent that is gone -/

/-- Blocks with these numbers under their hash are told apart by their signatures. -/
def signedCodec : Codec where
  headerHash b := (b.bobserverSignature, 0)
  transactionId _ := 0
  merkleDigest _ := 0
  hashPair _ _ := 0
  checksum := id
  transactionPackSize _ := 0
  blockPackSize _ := 0
  signee _ := none
  signatureKey _ _ := none

def signedBlock (previous : BlockId) (signature : Nat) : SignedBlock where
  previous := previous
  timestamp := 0
  bobserver := []
  transactionMerkleRoot := 0
  extensions := []
  bobserverSignature := signature
  transactions := []

def parentBlock : SignedBlock := signedBlock {} 1

def childBlock (signature : Nat) : SignedBlock := signedBlock (parentBlock.id signedCodec) signature

/-- Two blocks on one parent. -/
def siblings : ForkDatabase :=
  Traces.run (step signedCodec) {} [.pushBlock parentBlock, .pushBlock (childBlock 2), .pushBlock (childBlock 3)]

/-- The parent is pruned. -/
def prunedSiblings : ForkDatabase := step signedCodec siblings (.setMaxSize 0)

theorem parentLinked_pruned : ParentLinked prunedSiblings :=
  Sound.linked ((reach_sound _).step _)

theorem fetch_branch_from_siblings :
    (∃ l m, siblings.fetchBranchFrom 3 ((childBlock 2).id signedCodec) ((childBlock 3).id signedCodec) = .ok (l, m) ∧
      Branches siblings 1 2 l m) ∧
    ∃ l m, prunedSiblings.fetchBranchFrom 3 ((childBlock 2).id signedCodec) ((childBlock 3).id signedCodec) =
      .ok (l, m) ∧ Branches prunedSiblings 1 2 l m := by
  have hlinked : ParentLinked siblings := reach_parentLinked _
  obtain ⟨hcommon, -, hbranches, -⟩ := fetch_branch_from hlinked
    (show siblings.find ((childBlock 2).id signedCodec) = some 1 by decide +kernel)
    (show siblings.find ((childBlock 3).id signedCodec) = some 2 by decide +kernel)
    (show siblings.num 1 < 3 by decide +kernel) (show siblings.num 2 < 3 by decide +kernel)
  obtain ⟨-, -, hbranches', -⟩ := fetch_branch_from parentLinked_pruned
    (show prunedSiblings.find ((childBlock 2).id signedCodec) = some 1 by decide +kernel)
    (show prunedSiblings.find ((childBlock 3).id signedCodec) = some 2 by decide +kernel)
    (show prunedSiblings.num 1 < 3 by decide +kernel) (show prunedSiblings.num 2 < 3 by decide +kernel)
  have hleft : Climb siblings.parent 1 [1, 0] 0 := .step (by decide +kernel) (.here 0)
  have hright : Climb siblings.parent 2 [2, 0] 0 := .step (by decide +kernel) (.here 0)
  obtain ⟨l, m, hok⟩ := hcommon ⟨0, _, _, hleft, hright⟩
  refine ⟨⟨l, m, hok, hbranches l m hok⟩, [1], [2], ?_, ?_⟩
  · rfl
  · exact hbranches' [1] [2] rfl

/-- **A pruned ancestor** does not make it throw: the two children of a parent that is gone are returned. -/
theorem pruned_siblings_returned :
    ¬ ∀ db : ForkDatabase, ParentLinked db → ∀ (first second : BlockId) (a b : Nat), db.find first = some a →
      db.find second = some b → ¬ CommonAncestor db a b → ∀ fuel, db.num a < fuel → db.num b < fuel →
        ∃ e, db.fetchBranchFrom fuel first second = .error e := by
  intro hclaim
  have hroot : prunedSiblings.parent 1 = none := by decide +kernel
  have hroot' : prunedSiblings.parent 2 = none := by decide +kernel
  obtain ⟨e, herror⟩ := hclaim prunedSiblings parentLinked_pruned ((childBlock 2).id signedCodec)
    ((childBlock 3).id signedCodec) 1 2 (by decide +kernel) (by decide +kernel)
    (fun ⟨c, l, m, hl, hm⟩ => by
      cases hl with
      | here =>
        cases hm with
        | step hup => simp [hroot'] at hup
      | step hup => simp [hroot] at hup)
    3 (by decide +kernel) (by decide +kernel)
  have hok : prunedSiblings.fetchBranchFrom 3 ((childBlock 2).id signedCodec) ((childBlock 3).id signedCodec) =
      .ok ([1], [2]) := rfl
  rw [hok] at herror
  cases herror

end ForkDatabase

end Sigmaengine
