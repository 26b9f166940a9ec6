import Sigmaengine.Lib.Index
import Sigmaengine.Protocol.Ordering

/-!
# Numbers of history entries

`account_history_plugin` gives every entry of an account a number, and another among the entries of the account with
the same operation tag.  Each is one more than that of the neighbour found in a descending index.  The neighbour's
account is compared, its tag is not: an operation of a tag that is new to an account continues the numbers of the
largest smaller tag there is.
-/

namespace Sigmaengine.AccountHistoryPlugin

open OrderedIndex

/-! ## Objects -/

/-- `operation_object`, without the packed operation. -/
structure OperationObject where
  trxId : Nat
  block : Nat
  trxInBlock : Nat
  opInTrx : Nat
  virtualOp : Nat
  timestamp : TimePointSec

/-- Every index ends in the id. -/
instance : Clash OperationObject where
  clash _ _ := false

structure AccountHistoryObject where
  account : AccountName
  sequence : UInt32
  opTag : UInt32
  opSeq : UInt32
  op : Nat

/-- `by_account` and `by_op_tag`. -/
instance : Clash AccountHistoryObject where
  clash a b := a.account == b.account && (a.sequence == b.sequence || a.opTag == b.opTag && a.opSeq == b.opSeq)

/-- The keys of the two indices; numbers and tags go down. -/
def byAccount (o : AccountHistoryObject) : AccountName ×ₗ Natᵒᵈ :=
  toLex (o.account, OrderDual.toDual o.sequence.toNat)

def byOpTag (o : AccountHistoryObject) : AccountName ×ₗ (Natᵒᵈ ×ₗ Natᵒᵈ) :=
  toLex (o.account, toLex (OrderDual.toDual o.opTag.toNat, OrderDual.toDual o.opSeq.toNat))

/-! ## The plugin -/

/-- What the plugin is told of an operation: where it stands, `which()` and the name of its type, and the accounts that
`operation_get_impacted_accounts` finds. -/
structure OperationNotification where
  trxId : Nat
  block : Nat
  trxInBlock : Nat
  opInTrx : Nat
  virtualOp : Nat
  headBlockTime : TimePointSec
  which : UInt32
  typename : Bytes
  impacted : List AccountName

/-- The options of the plugin. -/
structure Tracking where
  trackedAccounts : List (AccountName × AccountName) := []
  filterContent : Bool := false
  blacklist : Bool := false
  opList : List Bytes := []

structure History where
  operations : Table OperationObject := .empty
  history : Table AccountHistoryObject := .empty

namespace Tracking

variable (cfg : Tracking)

/-- An account that is in one of the ranges, if there are any.  The range may begin before what `lower_bound` finds. -/
def isTracked (item : AccountName) : Bool :=
  let found := cfg.trackedAccounts.findIdx fun range => decide (item ≤ range.1)
  let itr := if found ≠ 0 ∧ (cfg.trackedAccounts[found]?).map Prod.fst ≠ some item then found - 1 else found
  cfg.trackedAccounts.isEmpty ||
    match cfg.trackedAccounts[itr]? with
    | some range => decide (range.1 ≤ item) && decide (item ≤ range.2)
    | none => false

/-- `operation_visitor_filter`. -/
def visits (note : OperationNotification) : Bool :=
  !cfg.filterContent || if cfg.opList.contains note.typename then !cfg.blacklist else cfg.blacklist

end Tracking

/-- The operation object, which is created for the first entry. -/
def withOperation (note : OperationNotification) (newObj : Option Nat) (s : History) : History × Nat :=
  match newObj with
  | some id => (s, id)
  | none =>
    let obj : OperationObject :=
      { trxId := note.trxId, block := note.block, trxInBlock := note.trxInBlock, opInTrx := note.opInTrx,
        virtualOp := note.virtualOp, timestamp := note.headBlockTime }
    ({ s with operations := s.operations.insert obj (by simp [Table.clashes, Clash.clash]) }, s.operations.nextId)

def objects (h : Table AccountHistoryObject) : List AccountHistoryObject := h.rows.map Prod.snd

def nextSequence (h : Table AccountHistoryObject) (item : AccountName) : UInt32 :=
  match (lowerBound byAccount (objects h) (toLex (item, OrderDual.toDual 4294967295))).head? with
  | some o => if o.account = item then o.sequence + 1 else 0
  | none => 0

def nextOpSeq (h : Table AccountHistoryObject) (item : AccountName) (tag : UInt32) : UInt32 :=
  match (lowerBound byOpTag (objects h)
      (toLex (item, toLex (OrderDual.toDual tag.toNat, OrderDual.toDual 4294967295)))).head? with
  | some o => if o.account = item then o.opSeq + 1 else 0
  | none => 0

/-- The entry of an account, unless it clashes with one there is. -/
def addEntry (h : Table AccountHistoryObject) (item : AccountName) (tag : UInt32) (op : Nat) :
    Option (Table AccountHistoryObject) :=
  let o : AccountHistoryObject :=
    { account := item, sequence := nextSequence h item, opTag := tag, opSeq := nextOpSeq h item tag, op := op }
  if hclash : h.clashes h.nextId o = false then some (h.insert o hclash) else none

/-- `on_operation`, over the impacted accounts.  The database catches what is thrown: the accounts that are left get no
entry, and those before keep theirs. -/
def onOperationLoop (cfg : Tracking) (note : OperationNotification) : List AccountName → Option Nat → History → History
  | [], _, s => s
  | item :: rest, newObj, s =>
    if cfg.isTracked item && cfg.visits note then
      let (s, op) := withOperation note newObj s
      match addEntry s.history item note.which op with
      | some h => onOperationLoop cfg note rest (some op) { s with history := h }
      | none => s
    else onOperationLoop cfg note rest newObj s

def onOperation (cfg : Tracking) (s : History) (note : OperationNotification) : History :=
  onOperationLoop cfg note note.impacted none s

/-! ## Entries and what they are to be -/

/-- The entries of an account, in order of creation. -/
def entriesOf (h : Table AccountHistoryObject) (a : AccountName) : List AccountHistoryObject :=
  (objects h).filter fun o => o.account = a

/-- An entry that is to be made. -/
structure Entry where
  account : AccountName
  tag : UInt32

/-- The entries an operation asks for. -/
def entriesFor (cfg : Tracking) (note : OperationNotification) (items : List AccountName) : List Entry :=
  (items.filter fun item => cfg.isTracked item && cfg.visits note).map fun item => ⟨item, note.which⟩

def notified (cfg : Tracking) (notes : List OperationNotification) : List Entry :=
  notes.flatMap fun note => entriesFor cfg note note.impacted

/-- The tags of the entries of an account, in order. -/
def tagsOf (es : List Entry) (a : AccountName) : List UInt32 := (es.filter fun e => e.account = a).map Entry.tag

/-- The entries of an account have the given tags and count up, altogether and for each tag. -/
structure Numbered (entries : List AccountHistoryObject) (tags : List UInt32) : Prop where
  tags_eq : entries.map (·.opTag) = tags
  sequences : entries.map (·.sequence.toNat) = List.range tags.length
  opSeqs : ∀ tag, (entries.filter fun o => o.opTag = tag).map (·.opSeq.toNat) = List.range (tags.count tag)

/-- The history has what was notified, numbered densely. -/
def Dense (h : Table AccountHistoryObject) (es : List Entry) : Prop :=
  ∀ a, Numbered (entriesOf h a) (tagsOf es a)

/-- Tags that come for the first time are below all before them, and there are not more than there are numbers. -/
structure Numberable (tags : List UInt32) : Prop where
  few : tags.length ≤ 4294967296
  descending : ∀ before tag after, tags = before ++ tag :: after → tag ∉ before → ∀ t ∈ before, tag < t

/-! ## The neighbours -/

section Neighbours

variable {h : Table AccountHistoryObject} {a : AccountName} {tags : List UInt32}

theorem mem_entriesOf {o : AccountHistoryObject} : o ∈ entriesOf h a ↔ o ∈ objects h ∧ o.account = a := by
  simp [entriesOf]

theorem Numbered.length_eq {entries : List AccountHistoryObject} (hn : Numbered entries tags) :
    entries.length = tags.length := by
  rw [← hn.tags_eq, List.length_map]

theorem Numbered.sequence_lt {entries : List AccountHistoryObject} (hn : Numbered entries tags)
    {o : AccountHistoryObject} (ho : o ∈ entries) : o.sequence.toNat < tags.length := by
  have hmem : o.sequence.toNat ∈ entries.map (·.sequence.toNat) := List.mem_map_of_mem ho
  rw [hn.sequences, List.mem_range] at hmem
  exact hmem

theorem Numbered.opSeq_lt {entries : List AccountHistoryObject} (hn : Numbered entries tags)
    {o : AccountHistoryObject} (ho : o ∈ entries) : o.opSeq.toNat < tags.count o.opTag := by
  have hmem : o.opSeq.toNat ∈ (entries.filter fun o' => o'.opTag = o.opTag).map (·.opSeq.toNat) :=
    List.mem_map_of_mem (by simp [ho])
  rw [hn.opSeqs, List.mem_range] at hmem
  exact hmem

theorem Numbered.exists_sequence {entries : List AccountHistoryObject} (hn : Numbered entries tags) {n : Nat}
    (hlt : n < tags.length) : ∃ o ∈ entries, o.sequence.toNat = n := by
  have hmem : n ∈ entries.map (·.sequence.toNat) := by
    rw [hn.sequences, List.mem_range]
    exact hlt
  exact List.mem_map.mp hmem

theorem Numbered.exists_opSeq {entries : List AccountHistoryObject} (hn : Numbered entries tags) {tag : UInt32} {n : Nat}
    (hlt : n < tags.count tag) : ∃ o ∈ entries, o.opTag = tag ∧ o.opSeq.toNat = n := by
  have hmem : n ∈ (entries.filter fun o => o.opTag = tag).map (·.opSeq.toNat) := by
    rw [hn.opSeqs, List.mem_range]
    exact hlt
  obtain ⟨o, ho, hseq⟩ := List.mem_map.mp hmem
  rw [List.mem_filter, decide_eq_true_eq] at ho
  exact ⟨o, ho.1, ho.2, hseq⟩

theorem Numbered.mem_tags {entries : List AccountHistoryObject} (hn : Numbered entries tags)
    {o : AccountHistoryObject} (ho : o ∈ entries) : o.opTag ∈ tags := by
  rw [← hn.tags_eq]
  exact List.mem_map_of_mem ho

/-- The next number is that of how many entries there are, in 32 bits. -/
theorem toNat_nextSequence (hn : Numbered (entriesOf h a) tags) (hfew : tags.length ≤ 4294967296) :
    (nextSequence h a).toNat = tags.length % 4294967296 := by
  unfold nextSequence
  rcases head?_lowerBound_group AccountHistoryObject.account
      (fun o => OrderDual.toDual o.sequence.toNat) (objects h) a (OrderDual.toDual 4294967295) with
    ⟨b, hb, hrows, haccount, -, hleast⟩ | ⟨hnone, hother⟩
  · have hentry : b ∈ entriesOf h a := mem_entriesOf.mpr ⟨hrows, haccount⟩
    have hlt := hn.sequence_lt hentry
    obtain ⟨c, hc, hlast⟩ := hn.exists_sequence (n := tags.length - 1) (by omega)
    have hc' := mem_entriesOf.mp hc
    have hmax : c.sequence.toNat ≤ b.sequence.toNat := hleast c hc'.1 hc'.2 (by
      have := c.sequence.toNat_lt
      show c.sequence.toNat ≤ 4294967295
      omega)
    rw [show (lowerBound byAccount (objects h) (toLex (a, OrderDual.toDual 4294967295))).head? = some b from hb]
    dsimp only
    rw [if_pos haccount, UInt32.toNat_add, show (1 : UInt32).toNat = 1 from rfl]
    omega
  · have hempty : tags.length = 0 := by
      by_contra hne
      obtain ⟨c, hc, -⟩ := hn.exists_sequence (n := 0) (by omega)
      have hc' := mem_entriesOf.mp hc
      have hbelow : 4294967295 < c.sequence.toNat := hnone c hc'.1 hc'.2
      have := c.sequence.toNat_lt
      omega
    rw [hempty]
    cases hb : (lowerBound byAccount (objects h) (toLex (a, OrderDual.toDual 4294967295))).head? with
    | none => rfl
    | some b =>
      dsimp only
      rw [if_neg (hother b hb)]
      rfl

/-- In the index of tags, what comes from a tag on are the entries with it and with smaller ones. -/
theorem rank_le_iff {tag : UInt32} {o : AccountHistoryObject} :
    toLex (OrderDual.toDual tag.toNat, OrderDual.toDual 4294967295) ≤
        toLex (OrderDual.toDual o.opTag.toNat, OrderDual.toDual o.opSeq.toNat) ↔ o.opTag ≤ tag := by
  rw [Prod.Lex.toLex_le_toLex, UInt32.le_iff_toNat_le]
  have hseq := o.opSeq.toNat_lt
  show o.opTag.toNat < tag.toNat ∨ tag.toNat = o.opTag.toNat ∧ o.opSeq.toNat ≤ 4294967295 ↔ _
  omega

/-- The neighbour in the index of tags has the largest tag that is not above, and of these entries the last number. -/
theorem nextOpSeq_cases (h : Table AccountHistoryObject) (a : AccountName) (tag : UInt32) :
    (∃ b ∈ entriesOf h a, nextOpSeq h a tag = b.opSeq + 1 ∧ b.opTag ≤ tag ∧
        ∀ c ∈ entriesOf h a, c.opTag ≤ tag → c.opTag < b.opTag ∨ c.opTag = b.opTag ∧ c.opSeq.toNat ≤ b.opSeq.toNat) ∨
      nextOpSeq h a tag = 0 ∧ ∀ c ∈ entriesOf h a, ¬ c.opTag ≤ tag := by
  unfold nextOpSeq
  rcases head?_lowerBound_group AccountHistoryObject.account
      (fun o => toLex (OrderDual.toDual o.opTag.toNat, OrderDual.toDual o.opSeq.toNat)) (objects h) a
      (toLex (OrderDual.toDual tag.toNat, OrderDual.toDual 4294967295)) with
    ⟨b, hb, hrows, haccount, hrank, hleast⟩ | ⟨hnone, hother⟩
  · left
    refine ⟨b, mem_entriesOf.mpr ⟨hrows, haccount⟩, ?_, rank_le_iff.mp hrank, fun c hc hle => ?_⟩
    · rw [show (lowerBound byOpTag (objects h) _).head? = some b from hb]
      exact if_pos haccount
    · have hc' := mem_entriesOf.mp hc
      rcases Prod.Lex.toLex_le_toLex.mp (hleast c hc'.1 hc'.2 (rank_le_iff.mpr hle)) with hlt | ⟨heq, hseq⟩
      · exact .inl (UInt32.lt_iff_toNat_lt.mpr hlt)
      · exact .inr ⟨(UInt32.toNat_inj.mp heq).symm, hseq⟩
  · right
    refine ⟨?_, fun c hc hle => ?_⟩
    · cases hb : (lowerBound byOpTag (objects h)
          (toLex (a, toLex (OrderDual.toDual tag.toNat, OrderDual.toDual 4294967295)))).head? with
      | none => rfl
      | some b => exact if_neg (hother b hb)
    · have hc' := mem_entriesOf.mp hc
      exact absurd (rank_le_iff.mpr hle) (not_le.mpr (hnone c hc'.1 hc'.2))

theorem toNat_opSeq_succ (hn : Numbered (entriesOf h a) tags) (hfew : tags.length < 4294967296)
    {b : AccountHistoryObject} (hb : b ∈ entriesOf h a) : (b.opSeq + 1).toNat = b.opSeq.toNat + 1 := by
  have hlt := hn.opSeq_lt hb
  have hcount : tags.count b.opTag ≤ tags.length := List.count_le_length
  rw [UInt32.toNat_add, show (1 : UInt32).toNat = 1 from rfl]
  omega

theorem toNat_nextOpSeq_of_mem (hn : Numbered (entriesOf h a) tags) (hfew : tags.length < 4294967296) {tag : UInt32}
    (htag : tag ∈ tags) : (nextOpSeq h a tag).toNat = tags.count tag := by
  have hcount : 0 < tags.count tag := List.count_pos_iff.mpr htag
  obtain ⟨c, hc, hctag, hcseq⟩ := hn.exists_opSeq (show tags.count tag - 1 < tags.count tag by omega)
  have hcle : c.opTag ≤ tag := hctag ▸ UInt32.le_refl c.opTag
  rcases nextOpSeq_cases h a tag with ⟨b, hb, hnext, hle, hmost⟩ | ⟨-, hnone⟩
  · have hbtag : b.opTag = tag := by
      rcases hmost c hc hcle with hlt | ⟨heq, -⟩
      · rw [hctag] at hlt
        exact absurd hle (UInt32.not_le.mpr hlt)
      · rw [← heq, hctag]
    have hlt := hn.opSeq_lt hb
    rcases hmost c hc hcle with hlt' | ⟨-, hseq⟩
    · rw [hctag, hbtag] at hlt'
      exact absurd hlt' (UInt32.lt_irrefl tag)
    · rw [hnext, toNat_opSeq_succ hn hfew hb]
      rw [hbtag] at hlt
      omega
  · exact absurd hcle (hnone c hc)

/-- A tag that is new and below all others starts with zero. -/
theorem nextOpSeq_of_below (hn : Numbered (entriesOf h a) tags) {tag : UInt32} (hbelow : ∀ t ∈ tags, tag < t) :
    nextOpSeq h a tag = 0 := by
  rcases nextOpSeq_cases h a tag with ⟨b, hb, -, hle, -⟩ | ⟨hzero, -⟩
  · exact absurd hle (UInt32.not_le.mpr (hbelow _ (hn.mem_tags hb)))
  · exact hzero

/-- A tag that is new and above another one does not. -/
theorem nextOpSeq_of_above (hn : Numbered (entriesOf h a) tags) (hfew : tags.length < 4294967296) {tag t : UInt32}
    (ht : t ∈ tags) (hlt : ¬ tag < t) : (nextOpSeq h a tag).toNat ≠ 0 := by
  have hcount : 0 < tags.count t := List.count_pos_iff.mpr ht
  obtain ⟨c, hc, hctag, -⟩ := hn.exists_opSeq hcount
  rcases nextOpSeq_cases h a tag with ⟨b, hb, hnext, -, -⟩ | ⟨-, hnone⟩
  · rw [hnext, toNat_opSeq_succ hn hfew hb]
    omega
  · exact absurd (by rw [hctag]; exact UInt32.not_lt.mp hlt) (hnone c hc)

end Neighbours

/-! ## One entry -/

section AddEntry

variable {h h' : Table AccountHistoryObject} {a : AccountName} {tag : UInt32} {op : Nat} {tags : List UInt32}

theorem objects_insert {o : AccountHistoryObject} (hclash : h.clashes h.nextId o = false) :
    objects (h.insert o hclash) = objects h ++ [o] := by
  simp [objects, Table.insert]

/-- The entry that is made. -/
theorem objects_addEntry (hadd : addEntry h a tag op = some h') :
    objects h' = objects h ++
      [{ account := a, sequence := nextSequence h a, opTag := tag, opSeq := nextOpSeq h a tag, op := op }] := by
  unfold addEntry at hadd
  dsimp only at hadd
  split at hadd
  · rename_i hclash
    obtain rfl : h.insert _ hclash = h' := by simpa using hadd
    exact objects_insert hclash
  · simp at hadd

theorem addEntry_eq_some (hfree : ∀ o ∈ entriesOf h a, o.sequence ≠ nextSequence h a ∧
    (o.opTag = tag → o.opSeq ≠ nextOpSeq h a tag)) : ∃ h', addEntry h a tag op = some h' := by
  unfold addEntry
  dsimp only
  rw [dif_pos]
  · exact ⟨_, rfl⟩
  · unfold Table.clashes
    rw [List.any_eq_false]
    intro r hr
    by_cases haccount : r.2.account = a
    · obtain ⟨hsequence, hop⟩ := hfree r.2 (mem_entriesOf.mpr ⟨List.mem_map_of_mem hr, haccount⟩)
      simp only [Clash.clash, haccount, BEq.rfl, Bool.true_and, Bool.and_eq_true, Bool.or_eq_true, beq_iff_eq, not_and,
        not_or]
      exact fun _ => ⟨hsequence, fun htag => hop htag⟩
    · simp [Clash.clash, haccount]

/-- An entry whose number is taken is refused. -/
theorem addEntry_eq_none {o : AccountHistoryObject} (ho : o ∈ entriesOf h a) (htaken : o.sequence = nextSequence h a) :
    addEntry h a tag op = none := by
  obtain ⟨hobjects, haccount⟩ := mem_entriesOf.mp ho
  obtain ⟨r, hr, hro⟩ := List.mem_map.mp hobjects
  unfold addEntry
  dsimp only
  rw [dif_neg]
  unfold Table.clashes
  rw [Bool.not_eq_false, List.any_eq_true]
  refine ⟨r, hr, ?_⟩
  have hfresh := h.fresh r hr
  simp [Clash.clash, hro, haccount, htaken, hfresh.ne]

theorem entriesOf_addEntry (hadd : addEntry h a tag op = some h') (b : AccountName) :
    entriesOf h' b = entriesOf h b ++ if a = b then
      [{ account := a, sequence := nextSequence h a, opTag := tag, opSeq := nextOpSeq h a tag, op := op }] else [] := by
  unfold entriesOf
  rw [objects_addEntry hadd, List.filter_append]
  by_cases hb : a = b <;> simp [hb]

theorem Numberable.ofPrefix {tags' : List UInt32} (h : Numberable tags) (hbegins : tags' <+: tags) :
    Numberable tags' := by
  obtain ⟨rest, rfl⟩ := hbegins
  refine ⟨?_, fun before tag after hsplit => h.descending before tag (after ++ rest) (by simp [hsplit])⟩
  have := h.few
  rw [List.length_append] at this
  omega

/-- An entry that may be numbered is, and gets the next numbers. -/
theorem addEntry_numbered (hn : Numbered (entriesOf h a) tags) (hgood : Numberable (tags ++ [tag])) :
    ∃ h', addEntry h a tag op = some h' ∧ Numbered (entriesOf h' a) (tags ++ [tag]) := by
  have hfew : tags.length < 4294967296 := by
    have := hgood.few
    rw [List.length_append, List.length_singleton] at this
    omega
  have hsequence : (nextSequence h a).toNat = tags.length := by
    rw [toNat_nextSequence hn hfew.le, Nat.mod_eq_of_lt hfew]
  have hopSeq : (nextOpSeq h a tag).toNat = tags.count tag := by
    by_cases htag : tag ∈ tags
    · exact toNat_nextOpSeq_of_mem hn hfew htag
    · rw [nextOpSeq_of_below hn (hgood.descending tags tag [] rfl htag), List.count_eq_zero_of_not_mem htag]
      rfl
  obtain ⟨h', hadd⟩ : ∃ h', addEntry h a tag op = some h' := by
    refine addEntry_eq_some fun o ho => ⟨fun heq => ?_, fun htag heq => ?_⟩
    · have hlt := hn.sequence_lt ho
      rw [heq, hsequence] at hlt
      exact absurd hlt (lt_irrefl _)
    · have hlt := hn.opSeq_lt ho
      rw [heq, htag, hopSeq] at hlt
      exact absurd hlt (lt_irrefl _)
  refine ⟨h', hadd, ?_⟩
  rw [entriesOf_addEntry hadd, if_pos rfl]
  refine ⟨?_, ?_, fun t => ?_⟩
  · rw [List.map_append, hn.tags_eq]
    rfl
  · rw [List.map_append, hn.sequences, List.length_append, List.length_singleton, List.range_succ]
    simp [hsequence]
  · rw [List.filter_append, List.map_append, hn.opSeqs, List.count_append]
    by_cases ht : tag = t
    · subst ht
      rw [List.count_singleton_self, List.range_succ]
      simp [hopSeq]
    · simp [ht]

theorem addEntry_other (hadd : addEntry h a tag op = some h') {b : AccountName} (hb : a ≠ b) :
    entriesOf h' b = entriesOf h b := by
  rw [entriesOf_addEntry hadd, if_neg hb, List.append_nil]

/-- The wrong number is given, or none at all, to an entry that may not be numbered. -/
theorem addEntry_wrong (hn : Numbered (entriesOf h a) tags) (hgood : Numberable tags)
    (hbad : ¬ Numberable (tags ++ [tag])) (hadd : addEntry h a tag op = some h') :
    tag ∉ tags ∧ (nextOpSeq h a tag).toNat ≠ 0 := by
  have hfew : tags.length < 4294967296 := by
    by_contra hmany
    have hlength : tags.length = 4294967296 := le_antisymm hgood.few (not_lt.mp hmany)
    obtain ⟨o, ho, hzero⟩ := hn.exists_sequence (n := 0) (by omega)
    have htaken : o.sequence = nextSequence h a := by
      apply UInt32.toNat_inj.mp
      rw [hzero, toNat_nextSequence hn hgood.few, hlength]
    rw [addEntry_eq_none ho htaken] at hadd
    simp at hadd
  by_contra hright
  apply hbad
  refine ⟨by simp; omega, fun before t after hsplit hnew u hu => ?_⟩
  rcases List.eq_nil_or_concat after with rfl | ⟨after, last, rfl⟩
  · obtain ⟨rfl, hlast⟩ := List.append_inj' hsplit rfl
    obtain rfl : tag = t := by simpa using hlast
    by_contra hlt
    exact hright ⟨hnew, nextOpSeq_of_above hn hfew hu hlt⟩
  · have hcut : tags ++ [tag] = (before ++ t :: after) ++ [last] := by simpa using hsplit
    exact hgood.descending before t after (List.append_inj' hcut rfl).1 hnew u hu

end AddEntry

/-! ## Runs -/

section Runs

variable {cfg : Tracking} {note : OperationNotification} {es es' : List Entry} {h h' : Table AccountHistoryObject}

theorem tagsOf_append (a : AccountName) : tagsOf (es ++ es') a = tagsOf es a ++ tagsOf es' a := by
  simp [tagsOf]

theorem tagsOf_begins (a : AccountName) : tagsOf es a <+: tagsOf (es ++ es') a := by
  rw [tagsOf_append]
  exact List.prefix_append _ _

theorem tagsOf_cons (e : Entry) (a : AccountName) :
    tagsOf (e :: es) a = (if e.account = a then [e.tag] else []) ++ tagsOf es a := by
  by_cases he : e.account = a <;> simp [tagsOf, he]

theorem dense_empty : Dense (.empty : Table AccountHistoryObject) [] := fun a => by
  constructor <;> simp [entriesOf, objects, Table.empty, tagsOf]

/-- An entry keeps the history dense, if its account may have it. -/
theorem addEntry_dense {e : Entry} (hdense : Dense h es) (hgood : Numberable (tagsOf (es ++ [e]) e.account)) (op : Nat) :
    ∃ h', addEntry h e.account e.tag op = some h' ∧ Dense h' (es ++ [e]) := by
  have htags : tagsOf (es ++ [e]) e.account = tagsOf es e.account ++ [e.tag] := by simp [tagsOf]
  rw [htags] at hgood
  obtain ⟨h', hadd, hnumbered⟩ : ∃ h', addEntry h e.account e.tag op = some h' ∧ _ :=
    addEntry_numbered (hdense e.account) hgood
  refine ⟨h', hadd, fun b => ?_⟩
  by_cases hb : e.account = b
  · subst hb
    rw [htags]
    exact hnumbered
  · rw [addEntry_other hadd hb, tagsOf_append, tagsOf_cons, if_neg hb]
    simpa [tagsOf] using hdense b

theorem withOperation_history (note : OperationNotification) (newObj : Option Nat) (s : History) :
    (withOperation note newObj s).1.history = s.history := by
  cases newObj <;> rfl

theorem entriesFor_cons (item : AccountName) (items : List AccountName) :
    entriesFor cfg note (item :: items) =
      if cfg.isTracked item && cfg.visits note then ⟨item, note.which⟩ :: entriesFor cfg note items
      else entriesFor cfg note items := by
  unfold entriesFor
  rw [List.filter_cons]
  split <;> rfl

theorem onOperationLoop_dense (items : List AccountName) (newObj : Option Nat) (s : History)
    (hdense : Dense s.history es) (hgood : ∀ a, Numberable (tagsOf (es ++ entriesFor cfg note items) a)) :
    Dense (onOperationLoop cfg note items newObj s).history (es ++ entriesFor cfg note items) := by
  induction items generalizing es newObj s with
  | nil => simpa [onOperationLoop, entriesFor] using hdense
  | cons item items ih =>
    rw [entriesFor_cons] at hgood ⊢
    unfold onOperationLoop
    split
    · rename_i htracked
      rw [if_pos htracked] at hgood
      have hsplit : es ++ ⟨item, note.which⟩ :: entriesFor cfg note items =
          (es ++ [⟨item, note.which⟩]) ++ entriesFor cfg note items := by simp
      rw [hsplit] at hgood ⊢
      have hfirst : Numberable (tagsOf (es ++ [⟨item, note.which⟩]) item) :=
        (hgood item).ofPrefix (tagsOf_begins item)
      rw [← withOperation_history note newObj] at hdense
      obtain ⟨h', hadd, hdense'⟩ := addEntry_dense hdense hfirst (withOperation note newObj s).2
      dsimp only at hadd ⊢
      rw [hadd]
      exact ih _ _ hdense' hgood
    · rename_i htracked
      rw [if_neg htracked] at hgood
      exact ih _ _ hdense hgood

theorem run_dense (notes : List OperationNotification) (s : History) (hdense : Dense s.history es)
    (hgood : ∀ a, Numberable (tagsOf (es ++ notified cfg notes) a)) :
    Dense (notes.foldl (onOperation cfg) s).history (es ++ notified cfg notes) := by
  induction notes generalizing es s with
  | nil => simpa [notified] using hdense
  | cons note notes ih =>
    have hsplit : es ++ notified cfg (note :: notes) =
        (es ++ entriesFor cfg note note.impacted) ++ notified cfg notes := by simp [notified]
    rw [hsplit] at hgood ⊢
    rw [List.foldl_cons]
    exact ih _ (onOperationLoop_dense note.impacted none s hdense fun a => (hgood a).ofPrefix (tagsOf_begins a)) hgood

/-- Some of the entries asked for are made, one after the other. -/
inductive Grows : List Entry → Table AccountHistoryObject → Table AccountHistoryObject → Prop
  | nil (h : Table AccountHistoryObject) : Grows [] h h
  | added {e : Entry} {es : List Entry} {h h' h'' : Table AccountHistoryObject} (op : Nat)
      (hadd : addEntry h e.account e.tag op = some h') (hrest : Grows es h' h'') : Grows (e :: es) h h''
  | missed {es : List Entry} {h h' : Table AccountHistoryObject} (e : Entry) (hrest : Grows es h h') :
    Grows (e :: es) h h'

theorem Grows.missedAll (es : List Entry) (h : Table AccountHistoryObject) : Grows es h h := by
  induction es with
  | nil => exact .nil h
  | cons e es ih => exact .missed e ih

theorem Grows.append {h'' : Table AccountHistoryObject} (hgrows : Grows es h h') (hrest : Grows es' h' h'') :
    Grows (es ++ es') h h'' := by
  induction hgrows with
  | nil => exact hrest
  | added op hadd _ ih => exact .added op hadd (ih hrest)
  | missed e _ ih => exact .missed e (ih hrest)

theorem onOperationLoop_grows (items : List AccountName) (newObj : Option Nat) (s : History) :
    Grows (entriesFor cfg note items) s.history (onOperationLoop cfg note items newObj s).history := by
  induction items generalizing newObj s with
  | nil => exact .nil _
  | cons item items ih =>
    rw [entriesFor_cons]
    unfold onOperationLoop
    split
    · dsimp only
      rw [← withOperation_history note newObj s]
      split
      · rename_i h hadd
        exact .added _ hadd (ih _ { (withOperation note newObj s).1 with history := h })
      · exact .missedAll _ _
    · exact ih _ _

theorem run_grows (notes : List OperationNotification) (s : History) :
    Grows (notified cfg notes) s.history (notes.foldl (onOperation cfg) s).history := by
  induction notes generalizing s with
  | nil => exact .nil _
  | cons note notes ih => exact (onOperationLoop_grows note.impacted none s).append (ih _)

theorem Grows.objects_prefix (hgrows : Grows es h h') : objects h <+: objects h' := by
  induction hgrows with
  | nil => exact List.prefix_rfl
  | added op hadd _ ih =>
    rw [objects_addEntry hadd] at ih
    exact (List.prefix_append _ _).trans ih
  | missed e _ ih => exact ih

theorem Grows.length_le (hgrows : Grows es h h') (a : AccountName) :
    (entriesOf h' a).length ≤ (entriesOf h a).length + (tagsOf es a).length := by
  induction hgrows with
  | nil => exact Nat.le_add_right _ _
  | added op hadd _ ih =>
    rw [entriesOf_addEntry hadd, List.length_append] at ih
    rw [tagsOf_cons, List.length_append]
    split at ih
    · rename_i ha
      rw [if_pos ha]
      simp only [List.length_singleton] at ih ⊢
      omega
    · rename_i ha
      rw [if_neg ha]
      simp only [List.length_nil] at ih ⊢
      omega
  | missed e _ ih =>
    rw [tagsOf_cons, List.length_append]
    omega

/-- A history that is dense in the end has only entries that may be numbered. -/
theorem Grows.numberable (es : List Entry) (hgrows : Grows es' h h') (hdense : Dense h es) (hgood : ∀ a, Numberable (tagsOf es a))
    (hend : Dense h' (es ++ es')) : ∀ a, Numberable (tagsOf (es ++ es') a) := by
  induction hgrows generalizing es with
  | nil => simpa using hgood
  | @added e rest h h₁ h₂ op hadd hrest ih =>
    by_cases hnext : Numberable (tagsOf (es ++ [e]) e.account)
    · obtain ⟨h₁', hadd', hdense'⟩ := addEntry_dense hdense hnext op
      obtain rfl : h₁ = h₁' := by simpa [hadd] using hadd'
      have hsplit : es ++ e :: rest = (es ++ [e]) ++ rest := by simp
      rw [hsplit] at hend ⊢
      refine ih (es ++ [e]) hdense' (fun a => ?_) hend
      by_cases ha : e.account = a
      · exact ha ▸ hnext
      · rw [tagsOf_append, tagsOf_cons, if_neg ha]
        simpa [tagsOf] using hgood a
    · -- the first entry with this tag does not have the number zero, and stays the first one
      exfalso
      rw [tagsOf_append, tagsOf_cons, if_pos rfl] at hnext
      obtain ⟨hnew, hnonzero⟩ := addEntry_wrong (hdense e.account) (hgood e.account)
        (by simpa [tagsOf] using hnext) hadd
      obtain ⟨more, hmore⟩ := hrest.objects_prefix
      have hseqs := (hend e.account).opSeqs e.tag
      have hnone : (entriesOf h e.account).filter (fun o => o.opTag = e.tag) = [] := by
        rw [List.filter_eq_nil_iff]
        intro o ho htag
        rw [decide_eq_true_eq] at htag
        exact hnew (htag ▸ (hdense e.account).mem_tags ho)
      have hfirst : (entriesOf h₂ e.account).filter (fun o => o.opTag = e.tag) =
          { account := e.account, sequence := nextSequence h e.account, opTag := e.tag,
            opSeq := nextOpSeq h e.account e.tag, op := op } ::
          (more.filter fun o => o.account = e.account).filter fun o => o.opTag = e.tag := by
        rw [← List.nil_append (_ :: _), ← hnone]
        unfold entriesOf
        rw [← hmore, objects_addEntry hadd]
        simp
      rw [hfirst, List.map_cons] at hseqs
      cases hcount : (tagsOf (es ++ e :: rest) e.account).count e.tag with
      | zero => simp [hcount] at hseqs
      | succ n =>
        rw [hcount, List.range_succ_eq_map] at hseqs
        exact hnonzero (List.cons.inj hseqs).1
  | @missed rest h h₂ e hrest _ =>
    exfalso
    have hle := hrest.length_le e.account
    rw [(hend e.account).length_eq, (hdense e.account).length_eq, tagsOf_append, List.length_append, tagsOf_cons,
      if_pos rfl, List.length_append, List.length_singleton] at hle
    omega

/-- **The history is numbered densely exactly if, for every account, a tag that comes for the first time is below all
before it** and the account has at most `2 ^ 32` entries. -/
theorem history_numbering_dense_iff (cfg : Tracking) (notes : List OperationNotification) :
    Dense (notes.foldl (onOperation cfg) {}).history (notified cfg notes) ↔
      ∀ a, Numberable (tagsOf (notified cfg notes) a) := by
  constructor
  · intro h
    refine (run_grows notes {}).numberable [] dense_empty (fun a => ?_) h
    constructor <;> simp [tagsOf]
  · intro h
    exact run_dense notes {} dense_empty h

end Runs

/-- A transfer, which has the tag 0, and then an update of the account, which has the tag 2. -/
def transferThenUpdate : List OperationNotification :=
  [0, 2].map fun tag => { trxId := 1, block := 1, trxInBlock := 0, opInTrx := 0, virtualOp := 0, headBlockTime := 3,
                          which := tag, typename := [], impacted := [.ofBytes [97]] }

/-- **A tag that comes after a smaller one does not start with zero.**  The only update of the account is number 1. -/
theorem update_after_transfer_is_number_one :
    ((entriesOf (transferThenUpdate.foldl (onOperation {}) {}).history (.ofBytes [97])).filter
        fun o => o.opTag = 2).map (·.opSeq.toNat) = [1] ∧
      ¬ Dense (transferThenUpdate.foldl (onOperation {}) {}).history (notified {} transferThenUpdate) := by
  have hone : ((entriesOf (transferThenUpdate.foldl (onOperation {}) {}).history (.ofBytes [97])).filter
      fun o => o.opTag = 2).map (·.opSeq.toNat) = [1] := by decide +kernel
  refine ⟨hone, fun h => ?_⟩
  have hseqs := (h (.ofBytes [97])).opSeqs 2
  have hcount : (tagsOf (notified {} transferThenUpdate) (.ofBytes [97])).count 2 = 1 := by decide +kernel
  rw [hone, hcount] at hseqs
  exact absurd hseqs (by decide)

end Sigmaengine.AccountHistoryPlugin
