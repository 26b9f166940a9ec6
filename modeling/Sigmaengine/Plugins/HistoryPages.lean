import Sigmaengine.Plugins.HistoryNumbers

/-!
# Pages of the history of an account

`get_account_history` and `get_account_transfer_history` read a range of the entries of an account: from what
`lower_bound` finds for the number asked for, up to a second bound that is computed from it.  The number has 64 bits and
those of the entries have 32; and what is found is looked at even if it is past the end.
-/

namespace Sigmaengine.AccountHistoryPlugin

open OrderedIndex OrderDual

/-! ## The queries -/

/-- An assertion fails, an iterator is dereferenced at the end of its index, or there is no such object. -/
inductive PageFault
  | assertion
  | endIterator
  | notFound
  deriving DecidableEq

/-- `map<uint32_t, applied_operation>`. -/
abbrev Page := UInt32 → Option OperationObject

section Queries

variable {κ : Type} [LinearOrder κ]

/-- The loop from `itr` to `stop`, which are places in one index. -/
def collect (operations : Table OperationObject) (number : AccountHistoryObject → UInt32)
    (stop : List AccountHistoryObject) : List AccountHistoryObject → Page → Except PageFault Page
  | [], result => if stop.length = 0 then .ok result else .error .endIterator
  | o :: rest, result =>
    if stop.length = rest.length + 1 then .ok result
    else
      match operations.lookup o.op with
      | some op => collect operations number stop rest (Function.update result (number o) (some op))
      | none => .error .notFound

/-- The body of both queries, over an index and the numbers in it.  A key takes 32 bits of `from`. -/
def historyPage (key : AccountHistoryObject → κ) (keyOf : Nat → κ) (number : AccountHistoryObject → UInt32) (s : History)
    (from_ : UInt64) (limit : UInt32) : Except PageFault Page :=
  if limit.toNat ≤ 10000 ∧ limit.toNat ≤ from_.toNat then
    let itr := lowerBound key (objects s.history) (keyOf from_.toUInt32.toNat)
    match itr.head? with
    | none => .error .endIterator
    | some o =>
      let stop := upperBound key (objects s.history)
        (keyOf (max (0 : Int) ((number o).toNat - limit.toNat)).toNat)
      collect s.operations number stop itr fun _ => none
  else .error .assertion

end Queries

/-- `operation::tag<transfer_operation>::value`. -/
def transferTag : UInt32 := 0

def accountKey (account : AccountName) (n : Nat) : AccountName ×ₗ Natᵒᵈ := toLex (account, toDual n)

def opTagKey (account : AccountName) (tag : UInt32) (n : Nat) : AccountName ×ₗ (Natᵒᵈ ×ₗ Natᵒᵈ) :=
  toLex (account, toLex (toDual tag.toNat, toDual n))

def getAccountHistory (s : History) (account : AccountName) (from_ : UInt64) (limit : UInt32) : Except PageFault Page :=
  historyPage byAccount (accountKey account) (·.sequence) s from_ limit

def getAccountTransferHistory (s : History) (account : AccountName) (from_ : UInt64) (limit : UInt32) :
    Except PageFault Page :=
  historyPage byOpTag (opTagKey account transferTag) (·.opSeq) s from_ limit

/-! ## What they are to answer -/

/-- The numbers of the entries are those from zero on. -/
def Counted (number : AccountHistoryObject → UInt32) (entries : List AccountHistoryObject) : Prop :=
  (entries.map fun o => (number o).toNat).Perm (List.range entries.length)

instance (number : AccountHistoryObject → UInt32) (entries : List AccountHistoryObject) :
    Decidable (Counted number entries) := inferInstanceAs (Decidable (List.Perm _ _))

/-- The entries of an account with a tag. -/
def taggedOf (h : Table AccountHistoryObject) (a : AccountName) (tag : UInt32) : List AccountHistoryObject :=
  (entriesOf h a).filter fun o => o.opTag = tag

/-- Every account counts its entries, altogether and for each tag. -/
structure DenselyNumbered (h : Table AccountHistoryObject) : Prop where
  sequences : ∀ a, Counted (·.sequence) (entriesOf h a)
  opSeqs : ∀ a tag, Counted (·.opSeq) (taggedOf h a tag)

/-- The operation of every entry is there. -/
def Linked (s : History) : Prop := ∀ o ∈ objects s.history, (s.operations.lookup o.op).isSome

/-- The greatest number. -/
def newest (number : AccountHistoryObject → UInt32) (entries : List AccountHistoryObject) : Nat :=
  ((entries.map fun o => (number o).toNat).max?).getD 0

/-- The entries with a number in `[max(0, s - limit), s]`, where `s` is the smaller of `from` and the newest. -/
def Answered (number : AccountHistoryObject → UInt32) (entries : List AccountHistoryObject) (s : History) (from_ : UInt64)
    (limit : UInt32) (r : Except PageFault Page) : Prop :=
  ∃ page, r = .ok page ∧ ∀ n op, page n = some op ↔
    ∃ o ∈ entries, number o = n ∧ min from_.toNat (newest number entries) - limit.toNat ≤ n.toNat ∧
      n.toNat ≤ min from_.toNat (newest number entries) ∧ s.operations.lookup o.op = some op

/-- With entries, `from` does not lose more than it has above the newest; without, a later account has some. -/
def Reaches (number : AccountHistoryObject → UInt32) (entries : List AccountHistoryObject) (h : Table AccountHistoryObject)
    (account : AccountName) (from_ : UInt64) : Prop :=
  if entries = [] then ∃ o ∈ objects h, account < o.account
  else from_.toNat < 4294967296 ∨ newest number entries ≤ from_.toNat % 4294967296

/-! ## Counted entries -/

section Counted

variable {number : AccountHistoryObject → UInt32} {entries : List AccountHistoryObject} {o o' : AccountHistoryObject}

theorem Counted.number_lt (h : Counted number entries) (ho : o ∈ entries) : (number o).toNat < entries.length := by
  rw [← List.mem_range]
  exact h.subset (List.mem_map_of_mem ho)

theorem Counted.exists_number (h : Counted number entries) {n : Nat} (hn : n < entries.length) :
    ∃ o ∈ entries, (number o).toNat = n :=
  List.mem_map.mp (h.symm.subset (List.mem_range.mpr hn))

theorem Counted.number_inj (h : Counted number entries) (ho : o ∈ entries) (ho' : o' ∈ entries)
    (heq : number o = number o') : o = o' := by
  have hnodup : (entries.map fun o => (number o).toNat).Nodup := h.nodup_iff.mpr List.nodup_range
  exact List.inj_on_of_nodup_map hnodup ho ho' (congrArg UInt32.toNat heq)

theorem Counted.newest_eq (h : Counted number entries) (hne : entries ≠ []) : newest number entries = entries.length - 1 := by
  have hpos : 0 < entries.length := List.length_pos_iff.mpr hne
  unfold newest
  have hmax : (entries.map fun o => (number o).toNat).max? = some (entries.length - 1) := by
    rw [List.max?_eq_some_iff]
    refine ⟨?_, fun n hn => ?_⟩
    · exact h.symm.subset (List.mem_range.mpr (by omega))
    · have hlt := List.mem_range.mp (h.subset hn)
      omega
  rw [hmax, Option.getD_some]

end Counted

/-! ## The loop -/

section Loop

variable {number : AccountHistoryObject → UInt32} {operations : Table OperationObject} {page stop : List AccountHistoryObject}

/-- The loop passes over what is before `stop`. -/
theorem collect_append (hlinked : ∀ o ∈ page, (operations.lookup o.op).isSome) (result : Page) :
    collect operations number stop (page ++ stop) result =
      .ok (page.foldl (fun r o => Function.update r (number o) (operations.lookup o.op)) result) := by
  induction page generalizing result with
  | nil => cases stop <;> simp [collect]
  | cons o rest ih =>
    obtain ⟨op, hop⟩ := Option.isSome_iff_exists.mp (hlinked o List.mem_cons_self)
    rw [List.cons_append, collect, if_neg (by rw [List.length_append]; omega), hop]
    dsimp only
    rw [ih (fun o' ho' => hlinked o' (.tail _ ho')), List.foldl_cons, hop]

/-- What the map has for a number in the end. -/
theorem foldl_update_eq_some (hinj : ∀ o ∈ page, ∀ o' ∈ page, number o = number o' → o = o')
    (hlinked : ∀ o ∈ page, (operations.lookup o.op).isSome) (n : UInt32) (op : OperationObject) (result : Page) :
    page.foldl (fun r o => Function.update r (number o) (operations.lookup o.op)) result n = some op ↔
      (∃ o ∈ page, number o = n ∧ operations.lookup o.op = some op) ∨
        (∀ o ∈ page, number o ≠ n) ∧ result n = some op := by
  induction page generalizing result with
  | nil => simp
  | cons o rest ih =>
    rw [List.foldl_cons, ih (fun a ha b hb => hinj a (.tail _ ha) b (.tail _ hb)) fun a ha => hlinked a (.tail _ ha)]
    by_cases hn : number o = n
    · have hlater : ∀ o' ∈ rest, number o' = n → o' = o := by
        intro o' ho' hn'
        exact hinj o' (.tail _ ho') o List.mem_cons_self (hn'.trans hn.symm)
      subst hn
      rw [Function.update_self]
      constructor
      · rintro (⟨o', ho', hn', hop⟩ | ⟨-, hop⟩)
        · exact .inl ⟨o', .tail _ ho', hn', hop⟩
        · exact .inl ⟨o, List.mem_cons_self, rfl, hop⟩
      · rintro (⟨o', ho', hn', hop⟩ | ⟨hnone, -⟩)
        · rcases List.mem_cons.mp ho' with rfl | hrest
          · by_cases hagain : ∀ o'' ∈ rest, number o'' ≠ number o'
            · exact .inr ⟨hagain, hop⟩
            · push Not at hagain
              obtain ⟨o'', ho'', hsame⟩ := hagain
              exact .inl ⟨o'', ho'', hsame, hlater o'' ho'' hsame ▸ hop⟩
          · exact .inl ⟨o', hrest, hn', hop⟩
        · exact absurd rfl (hnone o List.mem_cons_self)
    · rw [Function.update_of_ne (Ne.symm hn)]
      simp [hn]

end Loop

/-! ## Both queries -/

section Pages

variable {κ : Type} [LinearOrder κ] {key : AccountHistoryObject → κ} {keyOf : Nat → κ} {member : AccountHistoryObject → Prop}
  {number : AccountHistoryObject → UInt32} {entries : List AccountHistoryObject} {s : History} {from_ : UInt64} {limit : UInt32}

/-- With entries, the page is that of the 32 bits. -/
theorem historyPage_of_entries (hkeys : CountsDown key member (fun o => (number o).toNat) keyOf)
    (hentries : ∀ o, o ∈ entries ↔ o ∈ objects s.history ∧ member o) (hcounted : Counted number entries) (hlinked : Linked s)
    (hlimit : limit.toNat ≤ 10000 ∧ limit.toNat ≤ from_.toNat) (hne : entries ≠ []) :
    ∃ page, historyPage key keyOf number s from_ limit = .ok page ∧ ∀ n op, page n = some op ↔
      ∃ o ∈ entries, number o = n ∧ min (from_.toNat % 4294967296) (entries.length - 1) - limit.toNat ≤ n.toNat ∧
        n.toNat ≤ min (from_.toNat % 4294967296) (entries.length - 1) ∧ s.operations.lookup o.op = some op := by
  have hpos : 0 < entries.length := List.length_pos_iff.mpr hne
  have hbits : from_.toUInt32.toNat = from_.toNat % 4294967296 := UInt64.toNat_toUInt32 from_
  generalize htop : min (from_.toNat % 4294967296) (entries.length - 1) = top
  -- the entry that is found
  obtain ⟨a, ha, hnumber⟩ := hcounted.exists_number (show top < entries.length by omega)
  obtain ⟨hrows, hmember⟩ := (hentries a).mp ha
  obtain ⟨b, hb, -, -, hfound⟩ := hkeys.head?_lowerBound (n := from_.toNat % 4294967296) hrows hmember (by omega)
    (fun b hb hbm hle => by have := hcounted.number_lt ((hentries b).mpr ⟨hb, hbm⟩); omega)
  have hstop : (max (0 : Int) ((number b).toNat - limit.toNat)).toNat = top - limit.toNat := by omega
  have hsplit := @lowerBound_eq_append _ _ _ key (objects s.history) (keyOf (from_.toNat % 4294967296))
    (keyOf (top - limit.toNat)) ((hkeys.le_iff _ _).mpr (by omega))
  generalize hread : between key (objects s.history) (keyOf (from_.toNat % 4294967296)) (keyOf (top - limit.toNat)) = read
    at hsplit
  have hmem : ∀ o, o ∈ read ↔
      o ∈ entries ∧ top - limit.toNat ≤ (number o).toNat ∧ (number o).toNat ≤ from_.toNat % 4294967296 := by
    intro o
    rw [← hread, hkeys.mem_between, hentries, and_assoc]
  have hops : ∀ o ∈ read, (s.operations.lookup o.op).isSome :=
    fun o ho => hlinked o ((hentries o).mp ((hmem o).mp ho).1).1
  refine ⟨read.foldl (fun r o => Function.update r (number o) (s.operations.lookup o.op)) fun _ => none, ?_, ?_⟩
  · unfold historyPage
    dsimp only
    rw [if_pos hlimit, hbits, hb]
    dsimp only
    rw [hstop, hsplit]
    exact collect_append hops _
  · intro n op
    rw [foldl_update_eq_some (fun o ho o' ho' => hcounted.number_inj ((hmem o).mp ho).1 ((hmem o').mp ho').1) hops]
    simp only [hmem, reduceCtorEq, and_false, or_false]
    refine exists_congr fun o => ⟨?_, ?_⟩
    · rintro ⟨⟨ho, hlow, hhigh⟩, rfl, hop⟩
      have hlt := hcounted.number_lt ho
      exact ⟨ho, rfl, hlow, by omega, hop⟩
    · rintro ⟨ho, rfl, hlow, hhigh, hop⟩
      exact ⟨⟨ho, hlow, by omega⟩, rfl, hop⟩

/-- Past the last entry there is nothing to look at. -/
theorem historyPage_past (hlimit : limit.toNat ≤ 10000 ∧ limit.toNat ≤ from_.toNat)
    (hpast : lowerBound key (objects s.history) (keyOf from_.toUInt32.toNat) = []) :
    historyPage key keyOf number s from_ limit = .error .endIterator := by
  unfold historyPage
  dsimp only
  rw [if_pos hlimit, hpast]
  rfl

/-- **A query answers exactly if what it finds is what is asked for.** -/
theorem historyPage_answered_iff (hkeys : CountsDown key member (fun o => (number o).toNat) keyOf)
    (hentries : ∀ o, o ∈ entries ↔ o ∈ objects s.history ∧ member o) (hcounted : Counted number entries) (hlinked : Linked s)
    (hlimit : limit.toNat ≤ 10000 ∧ limit.toNat ≤ from_.toNat) {account : AccountName}
    (hlater : ∀ o, (∀ n, keyOf n < key o) ↔ account < o.account) :
    Answered number entries s from_ limit (historyPage key keyOf number s from_ limit) ↔
      Reaches number entries s.history account from_ := by
  unfold Reaches
  split
  · next hempty =>
    have hnone : ∀ o ∈ objects s.history, ¬ member o := by
      intro o ho hmember
      have hmem := (hentries o).mpr ⟨ho, hmember⟩
      rw [hempty] at hmem
      cases hmem
    have hfound := hkeys.lowerBound_ne_nil_iff hnone from_.toUInt32.toNat
    simp only [hlater] at hfound
    rw [← hfound]
    cases hitr : lowerBound key (objects s.history) (keyOf from_.toUInt32.toNat) with
    | nil =>
      rw [historyPage_past hlimit hitr]
      simp [Answered]
    | cons o rest =>
      refine iff_of_true ⟨fun _ => none, ?_, ?_⟩ (List.cons_ne_nil o rest)
      · unfold historyPage
        dsimp only
        rw [if_pos hlimit, hitr]
        dsimp only [List.head?_cons]
        rw [← hkeys.lowerBound_eq_upperBound hnone _ from_.toUInt32.toNat, hitr]
        exact if_pos rfl
      · simp [hempty]
  · next hne =>
    obtain ⟨page, hpage, hmem⟩ := historyPage_of_entries hkeys hentries hcounted hlinked hlimit hne
    have hnewest := hcounted.newest_eq hne
    have hpos : 0 < entries.length := List.length_pos_iff.mpr hne
    rw [hpage, hnewest]
    constructor
    · rintro ⟨page', hpage', hanswer⟩
      obtain rfl : page = page' := Except.ok.inj hpage'
      rw [hnewest] at hanswer
      by_contra hlost
      -- the newest entry is asked for and not there
      obtain ⟨o, ho, hnumber⟩ := hcounted.exists_number (show entries.length - 1 < entries.length by omega)
      obtain ⟨op, hop⟩ := Option.isSome_iff_exists.mp (hlinked o ((hentries o).mp ho).1)
      have hlt := (number o).toNat_lt
      have hthere := (hanswer (number o) op).mpr ⟨o, ho, rfl, by omega, by omega, hop⟩
      obtain ⟨_, _, hsame, -, hle, -⟩ := (hmem (number o) op).mp hthere
      omega
    · intro hreach
      have hlast := hcounted.exists_number (show entries.length - 1 < entries.length by omega)
      obtain ⟨o, ho, hnumber⟩ := hlast
      have hlt := (number o).toNat_lt
      have hmin : min (from_.toNat % 4294967296) (entries.length - 1) = min from_.toNat (entries.length - 1) := by omega
      refine ⟨page, rfl, fun n op => ?_⟩
      rw [hmem, hmin, hnewest]

end Pages

/-! ## What the plugin records -/

theorem counted_of_range {number : AccountHistoryObject → UInt32} {entries : List AccountHistoryObject} {n : Nat}
    (h : entries.map (fun o => (number o).toNat) = List.range n) : Counted number entries := by
  have hlength := congrArg List.length h
  rw [List.length_map, List.length_range] at hlength
  unfold Counted
  rw [h, hlength]

/-- A history that is numbered as it was notified. -/
theorem Dense.denselyNumbered {h : Table AccountHistoryObject} {es : List Entry} (hdense : Dense h es) :
    DenselyNumbered h where
  sequences a := counted_of_range (hdense a).sequences
  opSeqs a tag := counted_of_range ((hdense a).opSeqs tag)

theorem linked_withOperation {s s' : History} {note : OperationNotification} {newObj : Option Nat} {op : Nat}
    (hlinked : Linked s) (hnew : ∀ id ∈ newObj, (s.operations.lookup id).isSome)
    (h : withOperation note newObj s = (s', op)) : Linked s' ∧ (s'.operations.lookup op).isSome := by
  cases newObj with
  | some id =>
    obtain ⟨rfl, rfl⟩ := Prod.mk.inj h
    exact ⟨hlinked, hnew id rfl⟩
  | none =>
    obtain ⟨rfl, rfl⟩ := Prod.mk.inj h
    refine ⟨fun o ho => ?_, ?_⟩
    · obtain ⟨op, hop⟩ := Option.isSome_iff_exists.mp (hlinked o ho)
      rw [Option.isSome_iff_exists]
      exact ⟨op, Table.lookup_eq_some.mpr (List.mem_append_left _ (Table.lookup_eq_some.mp hop))⟩
    · rw [Option.isSome_iff_exists]
      exact ⟨_, Table.lookup_eq_some.mpr (List.mem_append_right _ List.mem_cons_self)⟩

theorem linked_onOperationLoop {cfg : Tracking} {note : OperationNotification} (items : List AccountName)
    {newObj : Option Nat} {s : History} (hlinked : Linked s) (hnew : ∀ id ∈ newObj, (s.operations.lookup id).isSome) :
    Linked (onOperationLoop cfg note items newObj s) := by
  induction items generalizing newObj s with
  | nil => exact hlinked
  | cons item rest ih =>
    rw [onOperationLoop]
    split
    · cases hwith : withOperation note newObj s with
      | mk t op =>
        obtain ⟨ht, hop⟩ := linked_withOperation hlinked hnew hwith
        dsimp only
        cases hadd : addEntry t.history item note.which op with
        | none => exact ht
        | some h =>
          refine ih (fun o ho => ?_) fun id hid => ?_
          · change o ∈ objects h at ho
            rw [objects_addEntry hadd, List.mem_append, List.mem_singleton] at ho
            rcases ho with hold | rfl
            · exact ht o hold
            · exact hop
          · obtain rfl := Option.some_inj.mp hid
            exact hop
    · exact ih hlinked hnew

/-- **The operations of the entries are there**, after any notifications. -/
theorem linked_run (cfg : Tracking) (notes : List OperationNotification) :
    Linked (notes.foldl (onOperation cfg) {}) := by
  have hstep : ∀ s, Linked s → Linked (notes.foldl (onOperation cfg) s) := by
    induction notes with
    | nil => exact fun s hs => hs
    | cons note notes ih => exact fun s hs => ih _ (linked_onOperationLoop note.impacted hs nofun)
  exact hstep {} fun o ho => by simp [objects, Table.empty] at ho

/-! ## The two indices -/

theorem countsDown_byAccount (account : AccountName) :
    CountsDown byAccount (fun o => o.account = account) (fun o => o.sequence.toNat) (accountKey account) where
  le_iff m n := by
    unfold accountKey
    rw [Prod.Lex.toLex_le_toLex]
    simp [toDual_le_toDual]
  inside o ho := by rw [byAccount, accountKey, ho]
  outside o ho := by
    rcases lt_or_gt_of_ne ho with hlt | hgt
    · exact .inl fun n => Prod.Lex.toLex_lt_toLex.mpr (.inl hlt)
    · exact .inr fun n => Prod.Lex.toLex_lt_toLex.mpr (.inl hgt)

theorem later_byAccount (account : AccountName) (o : AccountHistoryObject) :
    (∀ n, accountKey account n < byAccount o) ↔ account < o.account := by
  refine ⟨fun h => ?_, fun h n => Prod.Lex.toLex_lt_toLex.mpr (.inl h)⟩
  rcases Prod.Lex.toLex_lt_toLex.mp (h o.sequence.toNat) with hlt | ⟨-, hlt⟩
  · exact hlt
  · exact absurd hlt (lt_irrefl _)

/-- The entries with the tag 0 are the last ones of an account. -/
theorem countsDown_byOpTag (account : AccountName) :
    CountsDown byOpTag (fun o => o.account = account ∧ o.opTag = transferTag) (fun o => o.opSeq.toNat)
      (opTagKey account transferTag) where
  le_iff m n := by
    unfold opTagKey
    rw [Prod.Lex.toLex_le_toLex, Prod.Lex.toLex_le_toLex]
    simp [toDual_le_toDual]
  inside o ho := by rw [byOpTag, opTagKey, ho.1, ho.2]
  outside o ho := by
    by_cases haccount : o.account = account
    · left
      intro n
      have htag : 0 < o.opTag.toNat := by
        by_contra hzero
        exact ho ⟨haccount, UInt32.toNat_inj.mp (by rw [show transferTag.toNat = 0 from rfl]; omega)⟩
      refine Prod.Lex.toLex_lt_toLex.mpr (.inr ⟨haccount, Prod.Lex.toLex_lt_toLex.mpr (.inl ?_)⟩)
      exact toDual_lt_toDual.mpr htag
    · rcases lt_or_gt_of_ne haccount with hlt | hgt
      · exact .inl fun n => Prod.Lex.toLex_lt_toLex.mpr (.inl hlt)
      · exact .inr fun n => Prod.Lex.toLex_lt_toLex.mpr (.inl hgt)

theorem later_byOpTag (account : AccountName) (o : AccountHistoryObject) :
    (∀ n, opTagKey account transferTag n < byOpTag o) ↔ account < o.account := by
  refine ⟨fun h => ?_, fun h n => Prod.Lex.toLex_lt_toLex.mpr (.inl h)⟩
  rcases Prod.Lex.toLex_lt_toLex.mp (h o.opSeq.toNat) with hlt | ⟨-, hlt⟩
  · exact hlt
  · rcases Prod.Lex.toLex_lt_toLex.mp hlt with htag | ⟨-, hseq⟩
    · exact absurd (toDual_lt_toDual.mp htag) (Nat.not_lt_zero _)
    · exact absurd hseq (lt_irrefl _)

theorem mem_taggedOf {h : Table AccountHistoryObject} {a : AccountName} {tag : UInt32} {o : AccountHistoryObject} :
    o ∈ taggedOf h a tag ↔ o ∈ objects h ∧ o.account = a ∧ o.opTag = tag := by
  rw [taggedOf, List.mem_filter, mem_entriesOf, decide_eq_true_eq, and_assoc]

/-- **Both queries answer exactly if `from` is not cut below the newest entry, and an account without entries has a later
one with some.** -/
theorem history_pages {s : History} (hdense : DenselyNumbered s.history) (hlinked : Linked s) (account : AccountName)
    {from_ : UInt64} {limit : UInt32} (hmost : limit.toNat ≤ 10000) (hfrom : limit.toNat ≤ from_.toNat) :
    (Answered (·.sequence) (entriesOf s.history account) s from_ limit (getAccountHistory s account from_ limit) ↔
      Reaches (·.sequence) (entriesOf s.history account) s.history account from_) ∧
    (Answered (·.opSeq) (taggedOf s.history account transferTag) s from_ limit
        (getAccountTransferHistory s account from_ limit) ↔
      Reaches (·.opSeq) (taggedOf s.history account transferTag) s.history account from_) := by
  constructor
  · exact historyPage_answered_iff (countsDown_byAccount account) (fun _ => mem_entriesOf) (hdense.sequences account)
      hlinked ⟨hmost, hfrom⟩ (later_byAccount account)
  · exact historyPage_answered_iff (countsDown_byOpTag account) (fun _ => mem_taggedOf) (hdense.opSeqs account transferTag)
      hlinked ⟨hmost, hfrom⟩ (later_byOpTag account)

/-- Two transfers from a to b. -/
def twoTransfers : List OperationNotification :=
  [1, 2].map fun trx => { trxId := trx, block := 1, trxInBlock := trx - 1, opInTrx := 0, virtualOp := 0, headBlockTime := 3,
                          which := transferTag, typename := [], impacted := [.ofBytes [97], .ofBytes [98]] }

theorem dense_twoTransfers :
    Dense (twoTransfers.foldl (onOperation {}) {}).history (notified {} twoTransfers) := by
  have htags : ∀ a, ∀ tag ∈ tagsOf (notified {} twoTransfers) a, tag = transferTag := by
    intro a tag htag
    obtain ⟨e, he, rfl⟩ := List.mem_map.mp htag
    have hall : ∀ e ∈ notified {} twoTransfers, e.tag = transferTag := by decide +kernel
    exact hall e (List.mem_of_mem_filter he)
  rw [← List.nil_append (notified {} twoTransfers)]
  refine run_dense twoTransfers {} dense_empty fun a => ?_
  rw [List.nil_append]
  constructor
  · have hlength : (notified {} twoTransfers).length = 4 := by decide +kernel
    have hle : ((notified {} twoTransfers).filter fun e => e.account = a).length ≤ _ := List.length_filter_le _ _
    rw [tagsOf, List.length_map]
    omega
  · intro before tag after hsplit hnew t ht
    have hsame := htags a t (hsplit ▸ List.mem_append_left _ ht)
    have hsame' := htags a tag (hsplit ▸ List.mem_append_right _ List.mem_cons_self)
    exact absurd (hsame'.trans hsame.symm ▸ ht) hnew

/-- The account a has both transfers in its history, and c, which comes after all others, has none to look at. -/
theorem history_pages_twoTransfers :
    Answered (·.sequence) (entriesOf (twoTransfers.foldl (onOperation {}) {}).history (.ofBytes [97]))
        (twoTransfers.foldl (onOperation {}) {}) 18446744073709551615 1
        (getAccountHistory (twoTransfers.foldl (onOperation {}) {}) (.ofBytes [97]) 18446744073709551615 1) ∧
      Answered (·.opSeq) (taggedOf (twoTransfers.foldl (onOperation {}) {}).history (.ofBytes [97]) transferTag)
        (twoTransfers.foldl (onOperation {}) {}) 1 1
        (getAccountTransferHistory (twoTransfers.foldl (onOperation {}) {}) (.ofBytes [97]) 1 1) := by
  have hdense := dense_twoTransfers.denselyNumbered
  have hlinked := linked_run {} twoTransfers
  refine ⟨((history_pages hdense hlinked (.ofBytes [97]) (by decide) (by decide)).1).mpr ?_,
    ((history_pages hdense hlinked (.ofBytes [97]) (by decide) (by decide)).2).mpr ?_⟩
  · have hreaches : entriesOf (twoTransfers.foldl (onOperation {}) {}).history (.ofBytes [97]) ≠ [] ∧
        newest (·.sequence) (entriesOf (twoTransfers.foldl (onOperation {}) {}).history (.ofBytes [97])) = 1 := by
      decide +kernel
    unfold Reaches
    rw [if_neg hreaches.1, hreaches.2]
    exact .inr (by decide)
  · have hreaches : taggedOf (twoTransfers.foldl (onOperation {}) {}).history (.ofBytes [97]) transferTag ≠ [] := by
      decide +kernel
    unfold Reaches
    rw [if_neg hreaches]
    exact .inl (by decide)

/-- **The end of the index is dereferenced** for an account that comes after all that have entries, and a number above
32 bits **finds older entries**: the account a has the numbers 0 and 1, and from 2 ^ 32 on only 0 is found. -/
theorem pages_lost :
    DenselyNumbered (twoTransfers.foldl (onOperation {}) {}).history ∧
      getAccountHistory (twoTransfers.foldl (onOperation {}) {}) (.ofBytes [99]) 0 0 = .error .endIterator ∧
      getAccountTransferHistory (twoTransfers.foldl (onOperation {}) {}) (.ofBytes [99]) 0 0 = .error .endIterator ∧
      (entriesOf (twoTransfers.foldl (onOperation {}) {}).history (.ofBytes [97])).map (·.sequence) = [0, 1] ∧
      (getAccountHistory (twoTransfers.foldl (onOperation {}) {}) (.ofBytes [97]) 4294967296 1).map
        (fun page => ((page 0).map (·.trxId), (page 1).map (·.trxId))) = .ok (some 1, none) ∧
      ¬ Answered (·.sequence) (entriesOf (twoTransfers.foldl (onOperation {}) {}).history (.ofBytes [99]))
        (twoTransfers.foldl (onOperation {}) {}) 0 0
        (getAccountHistory (twoTransfers.foldl (onOperation {}) {}) (.ofBytes [99]) 0 0) := by
  have hend : getAccountHistory (twoTransfers.foldl (onOperation {}) {}) (.ofBytes [99]) 0 0 = .error .endIterator :=
    historyPage_past (by decide) (by decide +kernel)
  refine ⟨dense_twoTransfers.denselyNumbered, hend, historyPage_past (by decide) (by decide +kernel), by decide +kernel,
    by decide +kernel, ?_⟩
  · rw [hend]
    rintro ⟨_, hpage, -⟩
    cases hpage

end Sigmaengine.AccountHistoryPlugin
