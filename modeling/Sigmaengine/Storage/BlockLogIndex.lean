import Sigmaengine.Storage.BlockLog
import Sigmaengine.Ledger.Runs

/-!
# Block log and index agree

What `open` makes of the two files.  The last position in the log and the last entry of the index tell
whether the index is the one the appends have written; when it is not, the index is rebuilt by following the
positions up to the last one.  The first position is zero, so the loop does not start on a log of one block.

Main result: `block_log_index`.
-/

namespace Sigmaengine

open Effect Framed BlockLog

variable {raw : RawBlocks} {cd : Codec}

/-! ## Streams -/

/-- `fc::raw` reads the block back from what it packed, whatever follows. -/
def RawBlocks.Reads (raw : RawBlocks) (b : SignedBlock) : Prop :=
  ∀ rest, raw.unpack (raw.pack b ++ rest) = some (b, rest)

namespace FileStream

theorem append_apply (bs : List UInt8) (s : FileStream) :
    append bs s = .ok () { s with bytes := s.bytes ++ bs } := rfl

theorem seekg_apply (n : Nat) (s : FileStream) : seekg n s = .ok () { s with place := n } := rfl

theorem seekgEnd_at {s : FileStream} {p q : List UInt8} (h : s.bytes = p ++ q) {n : Nat}
    (hn : q.length = n) : seekgEnd n s = .ok () { s with place := p.length } := by
  have hlen : s.bytes.length = p.length + n := by rw [h, List.length_append, hn]
  unfold seekgEnd
  rw [bind_of_ok (get_apply s), bind_of_ok (assert_eq_ok (u := ()).mpr ⟨decide_eq_true (by omega), rfl⟩), seekg, modify_apply, hlen,
    Nat.add_sub_cancel]

theorem readWord_at {s : FileStream} {p q : List UInt8} {n : Nat}
    (h : s.bytes = p ++ (word n ++ q)) (hplace : s.place = p.length) (hn : n < 2 ^ 64) :
    readWord s = .ok n { s with place := p.length + 8 } := by
  have hlen : s.bytes.length = p.length + (8 + q.length) := by simp [h]
  have hword : (s.bytes.drop s.place).take 8 = word n := by
    rw [h, hplace, List.drop_left, List.take_left' (length_word n)]
  unfold readWord
  rw [bind_of_ok (get_apply s), bind_of_ok (assert_eq_ok (u := ()).mpr ⟨decide_eq_true (by omega), rfl⟩), hword,
    number_word hn, hplace]
  rfl

theorem unpack_at {s : FileStream} {p q : List UInt8} {b : SignedBlock} (hb : raw.Reads b)
    (h : s.bytes = p ++ (raw.pack b ++ q)) (hplace : s.place = p.length) :
    unpack raw s = .ok b { s with place := p.length + (raw.pack b).length } := by
  have hlen : s.bytes.length = p.length + (raw.pack b).length + q.length := by
    simp only [h, List.length_append, Nat.add_assoc]
  have hread : raw.unpack (s.bytes.drop s.place) = some (b, q) := by
    rw [h, hplace, List.drop_left, hb]
  unfold unpack
  rw [bind_of_ok (get_apply s), hread, bind_of_ok (ofOption_eq_ok.mpr ⟨rfl, rfl⟩)]
  dsimp only
  rw [hlen, Nat.add_sub_cancel]
  rfl

end FileStream

theorem onBlock_of_ok {α : Type} {m : StreamM α} {s : BlockLog} {a : α} {t : FileStream}
    (h : m s.blockStream = .ok a t) : onBlock m s = .ok a { s with blockStream := t } :=
  within_eq_ok.mpr ⟨t, h, rfl⟩

theorem onIndex_of_ok {α : Type} {m : StreamM α} {s : BlockLog} {a : α} {t : FileStream}
    (h : m s.indexStream = .ok a t) : onIndex m s = .ok a { s with indexStream := t } :=
  within_eq_ok.mpr ⟨t, h, rfl⟩

/-- Opening a stream in another mode keeps the files. -/
theorem checkBlockRead_eq (s : BlockLog) :
    ∃ t, checkBlockRead s = .ok () { s with blockStream := t } ∧ t.bytes = s.blockStream.bytes := by
  unfold checkBlockRead
  rw [bind_of_ok (get_apply s)]
  by_cases h : s.blockStream.write = true
  · rw [if_pos h]
    exact ⟨_, onBlock_of_ok (modify_apply _ _), rfl⟩
  · rw [if_neg h]
    exact ⟨s.blockStream, rfl, rfl⟩

theorem checkIndexRead_eq (s : BlockLog) :
    ∃ t, checkIndexRead s = .ok () { s with indexStream := t } ∧ t.bytes = s.indexStream.bytes := by
  unfold checkIndexRead
  rw [bind_of_ok (get_apply s)]
  by_cases h : s.indexStream.write = true
  · rw [if_pos h]
    exact ⟨_, onIndex_of_ok (modify_apply _ _), rfl⟩
  · rw [if_neg h]
    exact ⟨s.indexStream, rfl, rfl⟩

theorem checkBlockWrite_eq (s : BlockLog) :
    ∃ t, checkBlockWrite s = .ok () { s with blockStream := t } ∧ t.bytes = s.blockStream.bytes := by
  unfold checkBlockWrite
  rw [bind_of_ok (get_apply s)]
  by_cases h : s.blockStream.write = true
  · rw [if_pos h]
    exact ⟨s.blockStream, rfl, rfl⟩
  · rw [if_neg h]
    exact ⟨_, onBlock_of_ok (modify_apply _ _), rfl⟩

theorem checkIndexWrite_eq (s : BlockLog) :
    ∃ t, checkIndexWrite s = .ok () { s with indexStream := t } ∧ t.bytes = s.indexStream.bytes := by
  unfold checkIndexWrite
  rw [bind_of_ok (get_apply s)]
  by_cases h : s.indexStream.write = true
  · rw [if_pos h]
    exact ⟨s.indexStream, rfl, rfl⟩
  · rw [if_neg h]
    exact ⟨_, onIndex_of_ok (modify_apply _ _), rfl⟩

/-! ## Rebuilding -/

/-- Files and head are the same, whatever the modes of the streams. -/
structure Alike (s s' : BlockLog) : Prop where
  block : s'.blockStream.bytes = s.blockStream.bytes
  index : s'.indexStream.bytes = s.indexStream.bytes
  head : s'.head = s.head
  headId : s'.headId = s.headId

theorem Alike.trans {s t s' : BlockLog} (h : Alike s t) (h' : Alike t s') : Alike s s' :=
  ⟨h'.block.trans h.block, h'.index.trans h.index, h'.head.trans h.head, h'.headId.trans h.headId⟩

/-- The index has become `index`, and all else is the same. -/
structure Indexed (index : List UInt8) (s s' : BlockLog) : Prop where
  block : s'.blockStream.bytes = s.blockStream.bytes
  index : s'.indexStream.bytes = index
  head : s'.head = s.head
  headId : s'.headId = s.headId

/-- **The loop**: from a place between records it appends the entries of all that follow, as long as the
position it has is before the last one. -/
theorem rebuild_eq (todo done : List SignedBlock) (pos : Nat) {fuel : Nat} {s : BlockLog}
    (hne : todo ≠ []) (hreads : ∀ b ∈ todo, raw.Reads b)
    (hbytes : s.blockStream.bytes = logFrom raw.pack 0 (done ++ todo))
    (hplace : s.blockStream.place = endFrom raw.pack 0 done)
    (hfits : endFrom raw.pack 0 (done ++ todo) < 2 ^ 64)
    (hpos : pos < lastFrom raw.pack (endFrom raw.pack 0 done) todo) (hfuel : todo.length < fuel) :
    ∃ s', rebuild raw (lastFrom raw.pack (endFrom raw.pack 0 done) todo) fuel pos s = .ok () s' ∧
      Indexed (s.indexStream.bytes ++ indexFrom raw.pack (endFrom raw.pack 0 done) todo) s s' := by
  induction todo generalizing done pos fuel s with
  | nil => exact absurd rfl hne
  | cons b rest ih =>
    obtain ⟨fuel, rfl⟩ : ∃ f, fuel = f + 1 := ⟨fuel - 1, by simp only [List.length_cons] at hfuel; omega⟩
    -- one round reads the record and its position
    have hsplit : s.blockStream.bytes = logFrom raw.pack 0 done ++
        (raw.pack b ++ (word (endFrom raw.pack 0 done) ++
          logFrom raw.pack (endFrom raw.pack 0 done + (raw.pack b).length + 8) rest)) := by
      rw [hbytes, logFrom_append]
      simp only [logFrom, List.append_assoc]
    have hstart : s.blockStream.place = (logFrom raw.pack 0 done).length := by rw [hplace, length_logFrom]
    have hunpack := FileStream.unpack_at (hreads b List.mem_cons_self) hsplit hstart
    have hword : endFrom raw.pack 0 done < 2 ^ 64 := by
      have hle := le_endFrom raw.pack (endFrom raw.pack 0 done) (b :: rest)
      rw [endFrom_append] at hfits
      omega
    have hread := FileStream.readWord_at
      (s := { s.blockStream with place := (logFrom raw.pack 0 done).length + (raw.pack b).length })
      (p := logFrom raw.pack 0 done ++ raw.pack b) (by rw [hsplit, List.append_assoc])
      (by rw [List.length_append]) hword
    have hround : ∀ {s'}, rebuild raw (lastFrom raw.pack (endFrom raw.pack 0 done) (b :: rest)) fuel
        (endFrom raw.pack 0 done)
        { s with
          blockStream := { s.blockStream with place := (logFrom raw.pack 0 done ++ raw.pack b).length + 8 }
          indexStream := { s.indexStream with bytes := s.indexStream.bytes ++ word (endFrom raw.pack 0 done) } } =
          .ok () s' →
        rebuild raw (lastFrom raw.pack (endFrom raw.pack 0 done) (b :: rest)) (fuel + 1) pos s = .ok () s' := by
      intro s' hrest
      rw [rebuild, if_pos hpos]
      refine bind_eq_ok.mpr ⟨_, _, onBlock_of_ok hunpack, ?_⟩
      refine bind_eq_ok.mpr ⟨_, _, onBlock_of_ok hread, ?_⟩
      exact bind_eq_ok.mpr ⟨(), _, onIndex_of_ok (modify_apply _ _), hrest⟩
    cases rest with
    | nil =>
      -- the position read is the last one
      have hstop : ∀ t, rebuild raw (lastFrom raw.pack (endFrom raw.pack 0 done) [b]) fuel
          (endFrom raw.pack 0 done) t = .ok () t := by
        intro t
        obtain ⟨fuel, rfl⟩ : ∃ f, fuel = f + 1 := ⟨fuel - 1, by simp only [List.length_cons] at hfuel; omega⟩
        have hlast : lastFrom raw.pack (endFrom raw.pack 0 done) [b] = endFrom raw.pack 0 done := rfl
        rw [rebuild, hlast, if_neg (Nat.lt_irrefl _)]
        rfl
      refine ⟨_, hround (hstop _), rfl, ?_, rfl, rfl⟩
      simp [indexFrom]
    | cons c rest =>
      have hnext : endFrom raw.pack 0 (done ++ [b]) = endFrom raw.pack 0 done + (raw.pack b).length + 8 := by
        rw [endFrom_append]
        rfl
      have hplace' : (logFrom raw.pack 0 done ++ raw.pack b).length + 8 = endFrom raw.pack 0 (done ++ [b]) := by
        rw [List.length_append, length_logFrom, hnext]
      have hlater := le_lastFrom raw.pack (endFrom raw.pack 0 (done ++ [b])) (c :: rest)
      obtain ⟨s', hrun, hindexed⟩ := @ih (done ++ [b]) (endFrom raw.pack 0 done) fuel
        { s with
          blockStream := { s.blockStream with place := (logFrom raw.pack 0 done ++ raw.pack b).length + 8 }
          indexStream := { s.indexStream with bytes := s.indexStream.bytes ++ word (endFrom raw.pack 0 done) } }
        (List.cons_ne_nil _ _) (fun x hx => hreads x (List.mem_cons_of_mem _ hx))
        (by rw [List.append_assoc]; exact hbytes) hplace' (by rw [List.append_assoc]; exact hfits)
        (by omega) (by simp only [List.length_cons] at hfuel ⊢; omega)
      rw [hnext] at hrun hindexed
      refine ⟨s', hround hrun, hindexed.block, ?_, hindexed.head, hindexed.headId⟩
      rw [hindexed.index, List.append_assoc]
      rfl

/-! ## Opening -/

/-- Blocks `1 .. n` that fit into a file. -/
structure Recorded (raw : RawBlocks) (bs : List SignedBlock) : Prop where
  numbered : ∀ k b, bs[k]? = some b → b.blockNum = k + 1
  reads : ∀ b ∈ bs, raw.Reads b
  fits : endFrom raw.pack 0 bs < 2 ^ 64

theorem Recorded.of_append {bs more : List SignedBlock} (h : Recorded raw (bs ++ more)) : Recorded raw bs := by
  refine ⟨fun k b hb => ?_, fun b hb => h.reads b (List.mem_append_left _ hb), ?_⟩
  · have hk : k < bs.length := (List.getElem?_eq_some_iff.mp hb).1
    exact h.numbered k b (by rw [List.getElem?_append_left hk, hb])
  · have hle := le_endFrom raw.pack (endFrom raw.pack 0 bs) more
    have hfits := h.fits
    rw [endFrom_append] at hfits
    omega

/-- The blocks are in the log, and the last one is the head. -/
structure Stores (raw : RawBlocks) (cd : Codec) (bs : List SignedBlock) (s : BlockLog) : Prop where
  block : s.blockStream.bytes = logFrom raw.pack 0 bs
  head : s.head = bs.getLast?
  headId : ∀ b ∈ bs.getLast?, s.headId = b.id cd

variable {init : List SignedBlock} {last : SignedBlock}

/-- Both files of a nonempty log end in the start of the last block. -/
theorem last_word (hfits : endFrom raw.pack 0 init < 2 ^ 64) {t : FileStream} {p : List UInt8}
    (h : t.bytes = p ++ word (endFrom raw.pack 0 init)) :
    ∃ t', FileStream.seekgEnd 8 t = .ok () { t with place := p.length } ∧
      FileStream.readWord { t with place := p.length } = .ok (endFrom raw.pack 0 init) t' ∧
      t'.bytes = t.bytes := by
  have hread := FileStream.readWord_at (s := { t with place := p.length }) (p := p) (q := [])
    (by rw [List.append_nil]; exact h) rfl hfits
  exact ⟨_, FileStream.seekgEnd_at h (length_word _), hread, rfl⟩

theorem readBlock_eq (done rest : List SignedBlock) {b : SignedBlock} {s : BlockLog} (hb : raw.Reads b)
    (h : s.blockStream.bytes = logFrom raw.pack 0 (done ++ b :: rest)) :
    ∃ n s', readBlock raw (endFrom raw.pack 0 done) s = .ok (b, n) s' ∧ Alike s s' := by
  obtain ⟨t, hmode, hbytes⟩ := checkBlockRead_eq s
  have hsplit : t.bytes = logFrom raw.pack 0 done ++ (raw.pack b ++ (word (endFrom raw.pack 0 done) ++
      logFrom raw.pack (endFrom raw.pack 0 done + (raw.pack b).length + 8) rest)) := by
    rw [hbytes, h, logFrom_append]
    simp only [logFrom, List.append_assoc]
  have hunpack := FileStream.unpack_at (s := { t with place := endFrom raw.pack 0 done }) hb hsplit
    (length_logFrom _ _).symm
  refine ⟨_, _, bind_eq_ok.mpr ⟨(), _, hmode, bind_eq_ok.mpr ⟨(), _, onBlock_of_ok (modify_apply _ _),
    bind_eq_ok.mpr ⟨_, _, onBlock_of_ok hunpack, rfl⟩⟩⟩, hbytes, rfl, rfl, rfl⟩

theorem readHead_eq {s : BlockLog} (hrec : Recorded raw (init ++ [last]))
    (h : s.blockStream.bytes = logFrom raw.pack 0 (init ++ [last])) :
    ∃ s', readHead raw s = .ok last s' ∧ Alike s s' := by
  obtain ⟨t, hmode, hbytes⟩ := checkBlockRead_eq s
  obtain ⟨t', hseek, hword, hbytes'⟩ := last_word hrec.of_append.fits (t := t) (p := logFrom raw.pack 0 init ++ raw.pack last)
    (by rw [hbytes, h, logFrom_concat])
  obtain ⟨n, s', hread, halike⟩ := readBlock_eq init [] (s := { s with blockStream := t' })
    (hrec.reads last (by simp)) (by rw [← h, ← hbytes, ← hbytes'])
  refine ⟨s', bind_eq_ok.mpr ⟨(), _, hmode, bind_eq_ok.mpr ⟨(), _, onBlock_of_ok hseek,
    bind_eq_ok.mpr ⟨_, _, onBlock_of_ok hword, bind_eq_ok.mpr ⟨_, _, hread, rfl⟩⟩⟩⟩, ?_⟩
  exact ⟨halike.block.trans (hbytes'.trans hbytes), halike.index, halike.head, halike.headId⟩

/-- The index that `construct_index` writes: nothing when the log holds one block. -/
def rebuilt (raw : RawBlocks) (bs : List SignedBlock) : List UInt8 :=
  if bs.length = 1 then [] else indexFrom raw.pack 0 bs

theorem constructIndex_eq {s : BlockLog} (hrec : Recorded raw (init ++ [last]))
    (h : s.blockStream.bytes = logFrom raw.pack 0 (init ++ [last])) :
    ∃ s', constructIndex raw s = .ok () s' ∧ Indexed (rebuilt raw (init ++ [last])) s s' := by
  obtain ⟨t, hmode, hbytes⟩ := checkBlockRead_eq { s with indexStream := {} }
  obtain ⟨t', hseek, hword, hbytes'⟩ := last_word hrec.of_append.fits (t := t) (p := logFrom raw.pack 0 init ++ raw.pack last)
    (by rw [hbytes, ← logFrom_concat]; exact h)
  have hbytes'' : t'.bytes = logFrom raw.pack 0 (init ++ [last]) := hbytes'.trans (hbytes.trans h)
  have hrun : ∀ {u}, rebuild raw (endFrom raw.pack 0 init) (t'.bytes.length + 1) 0
      { s with blockStream := { t' with place := 0 }, indexStream := {} } = .ok () u →
      constructIndex raw s = .ok () u := fun {u} hloop =>
    bind_eq_ok.mpr ⟨(), _, modify_apply _ _, bind_eq_ok.mpr ⟨(), _, hmode, bind_eq_ok.mpr ⟨(), _, onBlock_of_ok hseek,
      bind_eq_ok.mpr ⟨_, _, onBlock_of_ok hword, bind_eq_ok.mpr ⟨(), _, onBlock_of_ok (modify_apply _ _),
        bind_eq_ok.mpr ⟨_, _, get_apply _, hloop⟩⟩⟩⟩⟩⟩
  by_cases hone : init = []
  · -- the last position is zero, and the loop does not start
    subst hone
    refine ⟨_, hrun (u := { s with blockStream := { t' with place := 0 }, indexStream := {} }) ?_, ?_, rfl, rfl, rfl⟩
    · rw [rebuild, show endFrom raw.pack 0 [] = 0 from rfl, if_neg (Nat.lt_irrefl _)]
      rfl
    · exact hbytes''.trans h.symm
  · have hlast : endFrom raw.pack 0 init = lastFrom raw.pack (endFrom raw.pack 0 ([] : List SignedBlock)) (init ++ [last]) :=
      (lastFrom_concat raw.pack 0 init last).symm
    have hpos : 0 < endFrom raw.pack 0 init := by
      have hle := le_endFrom raw.pack 0 init
      have hlen := List.length_pos_iff.mpr hone
      omega
    have hfuel : (init ++ [last]).length < t'.bytes.length + 1 := by
      have hle := le_endFrom raw.pack 0 (init ++ [last])
      rw [hbytes'', length_logFrom]
      omega
    obtain ⟨s', hloop, hindexed⟩ := rebuild_eq (init ++ [last]) [] 0
      (s := { s with blockStream := { t' with place := 0 }, indexStream := {} }) (by simp) hrec.reads hbytes'' rfl
      hrec.fits (by rw [← hlast]; exact hpos) hfuel
    rw [← hlast] at hloop
    refine ⟨s', hrun hloop, ?_, ?_, hindexed.head, hindexed.headId⟩
    · exact hindexed.block.trans (hbytes''.trans h.symm)
    · rw [hindexed.index, rebuilt, if_neg (by simpa using hone)]
      rfl

/-- Of two comparable indices with different lengths the last entries differ. -/
theorem lastFrom_ne (raw : RawBlocks) {as bs : List SignedBlock} (has : as ≠ []) (hbs : bs ≠ []) (hcomparable : as <+: bs ∨ bs <+: as)
    (hlen : as.length ≠ bs.length) : lastFrom raw.pack 0 as ≠ lastFrom raw.pack 0 bs := by
  rcases hcomparable with ⟨more, rfl⟩ | ⟨more, rfl⟩
  · have hmore : more ≠ [] := by
      rintro rfl
      simp at hlen
    exact (lastFrom_lt raw.pack 0 has hmore).ne
  · have hmore : more ≠ [] := by
      rintro rfl
      simp at hlen
    exact (lastFrom_lt raw.pack 0 hbs hmore).ne'

/-- A new log: whatever the index holds is dropped. -/
theorem open_new (index : List UInt8) : open_ raw cd (onFiles [] index) = .ok () (onFiles [] []) := by
  cases index <;> rfl

/-- The two positions at the ends of the files. -/
theorem positions_eq {as' : List SignedBlock} {last' : SignedBlock} {s : BlockLog}
    (hrec : Recorded raw (init ++ [last])) (hfits : endFrom raw.pack 0 as' < 2 ^ 64)
    (hblock : s.blockStream.bytes = logFrom raw.pack 0 (init ++ [last]))
    (hindex : s.indexStream.bytes = indexFrom raw.pack 0 (as' ++ [last'])) :
    ∃ t, Alike s t ∧ ∀ f : Nat → Nat → LogM Unit,
      (do
        checkBlockRead
        checkIndexRead
        onBlock (FileStream.seekgEnd 8)
        let blockPos ← onBlock FileStream.readWord
        onIndex (FileStream.seekgEnd 8)
        let indexPos ← onIndex FileStream.readWord
        f blockPos indexPos) s = f (endFrom raw.pack 0 init) (endFrom raw.pack 0 as') t := by
  obtain ⟨t, hmode, hbytes⟩ := checkBlockRead_eq s
  obtain ⟨u, hmode', hbytes'⟩ := checkIndexRead_eq { s with blockStream := t }
  obtain ⟨t', hseek, hread, hsame⟩ := last_word hrec.of_append.fits (t := t)
    (p := logFrom raw.pack 0 init ++ raw.pack last) (by rw [hbytes, hblock, logFrom_concat])
  obtain ⟨u', hseek', hread', hsame'⟩ := last_word hfits (t := u) (p := indexFrom raw.pack 0 as')
    (by rw [hbytes', ← indexFrom_concat]; exact hindex)
  refine ⟨{ s with blockStream := t', indexStream := u' },
    ⟨hsame.trans hbytes, hsame'.trans hbytes', rfl, rfl⟩, fun f => ?_⟩
  rw [bind_of_ok hmode, bind_of_ok hmode', bind_of_ok (onBlock_of_ok hseek), bind_of_ok (onBlock_of_ok hread),
    bind_of_ok (onIndex_of_ok hseek'), bind_of_ok (onIndex_of_ok hread')]

/-- **`open`** stores the blocks, keeps an index that is up to date and rebuilds any other. -/
theorem open_eq {bs as : List SignedBlock} (hrec : Recorded raw bs) (hfits : endFrom raw.pack 0 as < 2 ^ 64)
    (hcomparable : as <+: bs ∨ bs <+: as) :
    ∃ s', open_ raw cd (onFiles (logFrom raw.pack 0 bs) (indexFrom raw.pack 0 as)) = .ok () s' ∧
      Stores raw cd bs s' ∧
      s'.indexStream.bytes = if as.length = bs.length then indexFrom raw.pack 0 bs else rebuilt raw bs := by
  rcases List.eq_nil_or_concat bs with rfl | ⟨init, last, rfl⟩
  · refine ⟨_, open_new _, ⟨rfl, rfl, fun b hb => by simp at hb⟩, ?_⟩
    split <;> rfl
  rw [List.concat_eq_append] at *
  have hlogSize : (onFiles (logFrom raw.pack 0 (init ++ [last])) (indexFrom raw.pack 0 as)).blockStream.bytes.length ≠ 0 := by
    have hle := le_endFrom raw.pack 0 (init ++ [last])
    rw [onFiles, length_logFrom]
    simp only [List.length_append, List.length_singleton] at hle
    omega
  obtain ⟨s₁, hhead, halike⟩ := readHead_eq (s := onFiles (logFrom raw.pack 0 (init ++ [last]))
    (indexFrom raw.pack 0 as)) hrec rfl
  have hstores : ∀ {index : List UInt8} {t : BlockLog},
      Indexed index { s₁ with head := some last, headId := last.id cd } t →
      Stores raw cd (init ++ [last]) t := by
    intro index t ht
    refine ⟨ht.block.trans halike.block, ?_, fun b hb => ?_⟩
    · rw [List.getLast?_concat]
      exact ht.head
    · rw [List.getLast?_concat, Option.mem_some_iff] at hb
      rw [← hb]
      exact ht.headId
  unfold open_
  rw [bind_of_ok (get_apply _), if_pos hlogSize, bind_of_ok hhead, bind_of_ok (modify_apply _ _)]
  rcases List.eq_nil_or_concat as with rfl | ⟨as', last', rfl⟩
  · -- there is no index
    rw [if_neg (by simp [onFiles, indexFrom])]
    obtain ⟨s', hrun, hindexed⟩ := constructIndex_eq (s := { s₁ with head := some last, headId := last.id cd })
      hrec halike.block
    refine ⟨s', hrun, hstores hindexed, ?_⟩
    rw [hindexed.index, if_neg (by simp)]
  rw [List.concat_eq_append] at *
  have hindexSize : (onFiles (logFrom raw.pack 0 (init ++ [last])) (indexFrom raw.pack 0 (as' ++ [last']))).indexStream.bytes.length ≠ 0 := by
    simp [onFiles]
  rw [if_pos hindexSize]
  have hfits' : endFrom raw.pack 0 as' < 2 ^ 64 := by
    have hle := le_endFrom raw.pack (endFrom raw.pack 0 as') [last']
    rw [endFrom_append] at hfits
    omega
  obtain ⟨t, ht, hrest⟩ := positions_eq (s := { s₁ with head := some last, headId := last.id cd }) hrec hfits'
    halike.block halike.index
  rw [hrest fun blockPos indexPos =>
    if blockPos < indexPos then constructIndex raw
    else if indexPos < blockPos then constructIndex raw else pure ()]
  by_cases hlen : (as' ++ [last']).length = (init ++ [last]).length
  · -- the index is up to date
    have hsame : as' = init := by
      have hall : as' ++ [last'] = init ++ [last] := by
        rcases hcomparable with hinitial | hinitial
        · exact hinitial.eq_of_length hlen
        · exact (hinitial.eq_of_length hlen.symm).symm
      exact (List.append_inj' hall rfl).1
    subst hsame
    rw [if_neg (Nat.lt_irrefl _), if_neg (Nat.lt_irrefl _)]
    refine ⟨t, rfl, hstores ⟨ht.block, rfl, ht.head, ht.headId⟩, ?_⟩
    rw [if_pos hlen, indexFrom_concat, ← indexFrom_concat raw.pack as' last']
    exact ht.index.trans halike.index
  · have hne := lastFrom_ne raw (by simp) (by simp) hcomparable hlen
    rw [lastFrom_concat, lastFrom_concat] at hne
    obtain ⟨s', hrun, hindexed⟩ := constructIndex_eq (s := t) hrec (ht.block.trans halike.block)
    refine ⟨s', ?_, ?_, ?_⟩
    · rcases Nat.lt_or_gt_of_ne hne with hlt | hgt
      · rw [if_neg (Nat.not_lt.mpr hlt.le), if_pos hlt]
        exact hrun
      · rw [if_pos hgt]
        exact hrun
    · exact hstores ⟨hindexed.block.trans ht.block, hindexed.index, hindexed.head.trans ht.head,
        hindexed.headId.trans ht.headId⟩
    · rw [hindexed.index, if_neg hlen]

/-! ## Appending and reading -/

theorem Recorded.blockNum {bs : List SignedBlock} {b : SignedBlock} (h : Recorded raw (bs ++ [b])) :
    b.blockNum = bs.length + 1 ∧ (b.blockNum + 4294967295) % 4294967296 = bs.length := by
  have hnum : b.blockNum = bs.length + 1 := h.numbered bs.length b (by simp)
  have hrange : b.blockNum < 4294967296 := Nat.mod_lt _ (by decide)
  exact ⟨hnum, by omega⟩

/-- Both streams in the mode that appends. -/
theorem checkWrites_eq (s : BlockLog) {α : Type} (f : LogM α) :
    ∃ t, Alike s t ∧ (do
      checkBlockWrite
      checkIndexWrite
      f) s = f t := by
  obtain ⟨t, hmode, hbytes⟩ := checkBlockWrite_eq s
  obtain ⟨u, hmode', hbytes'⟩ := checkIndexWrite_eq { s with blockStream := t }
  refine ⟨{ s with blockStream := t, indexStream := u }, ⟨hbytes, hbytes', rfl, rfl⟩, ?_⟩
  rw [bind_of_ok hmode, bind_of_ok hmode']

/-- **`append`** of the next block asks for an index with an entry for every block before. -/
theorem append_eq {bs : List SignedBlock} {b : SignedBlock} {s : BlockLog} (hs : Stores raw cd bs s)
    (hrec : Recorded raw (bs ++ [b])) :
    if s.indexStream.bytes.length = 8 * bs.length then
      ∃ s', BlockLog.append raw cd b s = .ok (endFrom raw.pack 0 bs) s' ∧ Stores raw cd (bs ++ [b]) s' ∧
        s'.indexStream.bytes = s.indexStream.bytes ++ word (endFrom raw.pack 0 bs)
    else ∃ e t, BlockLog.append raw cd b s = .error e t := by
  obtain ⟨t, ht, hrun⟩ := checkWrites_eq s (do
    let pos ← onBlock FileStream.tellp
    let indexPos ← onIndex FileStream.tellp
    assert (indexPos == 8 * ((b.blockNum + 4294967295) % 4294967296))
      (LogError.assertion "Append to index file occuring at wrong position.")
    onBlock (FileStream.append (raw.pack b))
    onBlock (FileStream.append (word pos))
    onIndex (FileStream.append (word pos))
    modify fun s => { s with head := some b, headId := b.id cd }
    return pos)
  have hpos : t.blockStream.bytes.length = endFrom raw.pack 0 bs := by
    rw [ht.block, hs.block, length_logFrom]
  have htellp : onBlock FileStream.tellp t = .ok (endFrom raw.pack 0 bs) t :=
    within_eq_ok.mpr ⟨t.blockStream, by rw [← hpos]; rfl, rfl⟩
  have htellp' : onIndex FileStream.tellp t = .ok s.indexStream.bytes.length t :=
    within_eq_ok.mpr ⟨t.indexStream, by rw [← ht.index]; rfl, rfl⟩
  unfold BlockLog.append
  rw [hrun, bind_of_ok htellp, bind_of_ok htellp', hrec.blockNum.2]
  by_cases hindex : s.indexStream.bytes.length = 8 * bs.length
  · rw [if_pos hindex, bind_of_ok (assert_eq_ok (u := ()).mpr ⟨beq_iff_eq.mpr hindex, rfl⟩),
      bind_of_ok (onBlock_of_ok (FileStream.append_apply _ _)), bind_of_ok (onBlock_of_ok (FileStream.append_apply _ _)),
      bind_of_ok (onIndex_of_ok (FileStream.append_apply _ _)), bind_of_ok (modify_apply _ _)]
    refine ⟨_, rfl, ⟨?_, ?_, fun x hx => ?_⟩, ?_⟩
    · rw [logFrom_concat, ← hs.block, ← ht.block]
    · rw [List.getLast?_concat]
    · rw [List.getLast?_concat, Option.mem_some_iff] at hx
      rw [hx]
    · rw [← ht.index]
  · rw [if_neg hindex, bind_of_error (e := LogError.assertion "Append to index file occuring at wrong position.") (t := t)]
    · exact ⟨_, _, rfl⟩
    · rw [beq_eq_false_iff_ne.mpr hindex]
      rfl

/-- Block `k` of a log. -/
def blockAt (bs : List SignedBlock) (k : Nat) : Option SignedBlock := if k = 0 then none else bs[k - 1]?

theorem getBlockPos_eq {bs : List SignedBlock} {s : BlockLog} (hrec : Recorded raw bs) (hs : Stores raw cd bs s)
    (hindex : s.indexStream.bytes = indexFrom raw.pack 0 bs) (k : Nat) :
    ∃ s', getBlockPos k s =
        .ok (if 0 < k ∧ k ≤ bs.length then endFrom raw.pack 0 (bs.take (k - 1)) else npos) s' ∧ Alike s s' := by
  obtain ⟨t, hmode, hbytes⟩ := checkIndexRead_eq s
  have hguard : (s.head.isSome && decide (k ≤ s.headId.num) && decide (0 < k)) = decide (0 < k ∧ k ≤ bs.length) := by
    rcases List.eq_nil_or_concat bs with rfl | ⟨init, last, rfl⟩
    · rw [hs.head]
      simp
      omega
    · rw [List.concat_eq_append] at *
      have hnum : s.headId.num = init.length + 1 := by
        rw [hs.headId last (by rw [List.getLast?_concat]; rfl)]
        exact hrec.blockNum.1
      rw [hs.head, hnum]
      simp [Bool.and_comm]
  unfold getBlockPos
  rw [bind_of_ok hmode, bind_of_ok (get_apply _), hguard]
  by_cases hk : 0 < k ∧ k ≤ bs.length
  · rw [if_pos (decide_eq_true hk), if_pos hk, bind_of_ok (onIndex_of_ok (FileStream.seekg_apply _ _))]
    have hsplit : bs = bs.take (k - 1) ++ bs[k - 1] :: bs.drop k := by
      conv_lhs => rw [← List.take_append_drop (k - 1) bs, List.drop_eq_getElem_cons (by omega)]
      rw [show k - 1 + 1 = k by omega]
    have hlen : (indexFrom raw.pack 0 (bs.take (k - 1))).length = 8 * (k - 1) := by
      rw [length_indexFrom, List.length_take, Nat.min_eq_left (by omega)]
    have hword : endFrom raw.pack 0 (bs.take (k - 1)) < 2 ^ 64 := by
      rw [hsplit] at hrec
      exact hrec.of_append.fits
    have hread := FileStream.readWord_at (s := { t with place := 8 * (k - 1) })
      (p := indexFrom raw.pack 0 (bs.take (k - 1))) (n := endFrom raw.pack 0 (bs.take (k - 1)))
      (q := indexFrom raw.pack (endFrom raw.pack 0 (bs.take (k - 1)) + (raw.pack bs[k - 1]).length + 8) (bs.drop k))
      (by
        rw [hbytes, hindex]
        conv_lhs => rw [hsplit]
        rw [indexFrom_append]
        rfl) hlen.symm hword
    refine ⟨_, onIndex_of_ok hread, rfl, hbytes, rfl, rfl⟩
  · rw [if_neg (by simpa using hk), if_neg hk]
    exact ⟨_, rfl, rfl, hbytes, rfl, rfl⟩

/-- **`read_block_by_num`** reads the blocks of the log, and nothing else. -/
theorem readBlockByNum_eq {bs : List SignedBlock} {s : BlockLog} (hrec : Recorded raw bs) (hs : Stores raw cd bs s)
    (hindex : s.indexStream.bytes = indexFrom raw.pack 0 bs) (k : Nat) :
    ∃ s', readBlockByNum raw k s = .ok (blockAt bs k) s' ∧ Alike s s' := by
  obtain ⟨s₁, hpos, halike⟩ := getBlockPos_eq hrec hs hindex k
  unfold readBlockByNum
  rw [bind_of_ok hpos]
  by_cases hk : 0 < k ∧ k ≤ bs.length
  · have hsplit : bs = bs.take (k - 1) ++ bs[k - 1] :: bs.drop k := by
      conv_lhs => rw [← List.take_append_drop (k - 1) bs, List.drop_eq_getElem_cons (by omega)]
      rw [show k - 1 + 1 = k by omega]
    have hget : bs[k - 1]? = some bs[k - 1] := List.getElem?_eq_getElem (by omega)
    have hnpos : endFrom raw.pack 0 (bs.take (k - 1)) ≠ npos := by
      have hfits := hrec.fits
      have hle := le_endFrom raw.pack (endFrom raw.pack 0 (bs.take (k - 1))) (bs[k - 1] :: bs.drop k)
      rw [hsplit, endFrom_append] at hfits
      simp only [List.length_cons] at hle
      unfold npos
      omega
    obtain ⟨n, s', hread, halike'⟩ := readBlock_eq (bs.take (k - 1)) (bs.drop k) (s := s₁)
      (hrec.reads bs[k - 1] (List.getElem_mem _)) (by rw [← hsplit, halike.block, hs.block])
    have hnum : bs[k - 1].blockNum = k := by
      rw [hrec.numbered _ _ hget]
      omega
    rw [if_pos hk, if_pos hnpos, bind_of_ok hread, bind_of_ok (assert_eq_ok (u := ()).mpr ⟨beq_iff_eq.mpr hnum, rfl⟩)]
    refine ⟨s', ?_, halike.trans halike'⟩
    rw [blockAt, if_neg (by omega), hget]
    rfl
  · rw [if_neg hk, if_neg (by simp)]
    refine ⟨s₁, ?_, halike⟩
    have hnone : blockAt bs k = none := by
      unfold blockAt
      split
      · rfl
      · exact List.getElem?_eq_none (by omega)
    rw [hnone]
    rfl

/-! ## Reading keeps the files -/

/-- The file is the same, wherever the stream stands. -/
def SameBytes (t t' : FileStream) : Prop := t'.bytes = t.bytes

instance : Std.Refl SameBytes := ⟨fun _ => rfl⟩

instance : IsTrans FileStream SameBytes := ⟨fun _ _ _ h h' => h'.trans h⟩

instance : Std.Refl Alike := ⟨fun _ => ⟨rfl, rfl, rfl, rfl⟩⟩

instance : IsTrans BlockLog Alike := ⟨fun _ _ _ h h' => h.trans h'⟩

theorem alike_onBlock {α : Type} {m : StreamM α} (h : Always SameBytes m) : Always Alike (onBlock m) := by
  intro s
  unfold onBlock
  rw [after_within]
  exact ⟨h s.blockStream, rfl, rfl, rfl⟩

theorem alike_onIndex {α : Type} {m : StreamM α} (h : Always SameBytes m) : Always Alike (onIndex m) := by
  intro s
  unfold onIndex
  rw [after_within]
  exact ⟨rfl, h s.indexStream, rfl, rfl⟩

theorem sameBytes_readWord : Always SameBytes FileStream.readWord :=
  always_bind always_get fun _ => always_bind (always_assert _ _) fun _ =>
    always_bind (fun _ => rfl) fun _ => always_pure _

theorem alike_readBlockByNum (k : Nat) : Always Alike (readBlockByNum raw k) := by
  have hindexRead : Always Alike checkIndexRead := by
    refine always_bind always_get fun s => ?_
    split
    · exact alike_onIndex fun _ => rfl
    · exact always_pure _
  have hblockRead : Always Alike checkBlockRead := by
    refine always_bind always_get fun s => ?_
    split
    · exact alike_onBlock fun _ => rfl
    · exact always_pure _
  have hpos : Always Alike (getBlockPos k) := by
    refine always_bind hindexRead fun _ => always_bind always_get fun s => ?_
    split
    · exact always_bind (alike_onIndex fun _ => rfl) fun _ => alike_onIndex sameBytes_readWord
    · exact always_pure _
  have hunpack : Always SameBytes (FileStream.unpack raw) :=
    always_bind always_get fun _ => always_bind (always_ofOption _ _) fun _ =>
      always_bind (fun _ => rfl) fun _ => always_pure _
  refine always_bind hpos fun pos => ?_
  split
  · refine always_bind ?_ fun r => always_bind (always_assert _ _) fun _ => always_pure _
    refine always_bind hblockRead fun _ => always_bind (alike_onBlock fun _ => rfl) fun _ => ?_
    exact always_bind (alike_onBlock hunpack) fun b => always_bind always_get fun s => always_pure _
  · exact always_pure _

/-! ## Runs -/

/-- What may have become of the index file while the log was closed. -/
inductive IndexFile (raw : RawBlocks) (bs : List SignedBlock) (file : List UInt8) : List UInt8 → Prop
  | untouched : IndexFile raw bs file file
  | deleted : IndexFile raw bs file []
  | truncated (entries : Nat) : IndexFile raw bs file (file.take (8 * entries))
  /-- The index of a log that went on. -/
  | longer (more : List SignedBlock) (hne : more ≠ []) (hrec : Recorded raw (bs ++ more)) :
    IndexFile raw bs file (indexFrom raw.pack 0 (bs ++ more))

/-- A log of the blocks `bs`, after appends, reads and reopenings in any order.  `lost` tells whether it was
ever reopened with one block and an index that was not the one the appends had written. -/
inductive LogRun (raw : RawBlocks) (cd : Codec) : List SignedBlock → Bool → BlockLog → Prop
  | create {s : BlockLog} (hopen : open_ raw cd (onFiles [] []) = .ok () s) : LogRun raw cd [] false s
  | append {bs : List SignedBlock} {lost : Bool} {s s' : BlockLog} {pos : Nat} (b : SignedBlock)
    (hrun : LogRun raw cd bs lost s) (hrec : Recorded raw (bs ++ [b]))
    (happend : BlockLog.append raw cd b s = .ok pos s') : LogRun raw cd (bs ++ [b]) lost s'
  | read {bs : List SignedBlock} {lost : Bool} {s s' : BlockLog} {b : Option SignedBlock} (k : Nat)
    (hrun : LogRun raw cd bs lost s) (hread : readBlockByNum raw k s = .ok b s') : LogRun raw cd bs lost s'
  | reopen {bs : List SignedBlock} {lost : Bool} {s s' : BlockLog} {index : List UInt8}
    (hrun : LogRun raw cd bs lost s) (hfile : IndexFile raw bs s.indexStream.bytes index)
    (hopen : open_ raw cd (onFiles s.blockStream.bytes index) = .ok () s') :
    LogRun raw cd bs (lost || decide (bs.length = 1 ∧ index ≠ indexFrom raw.pack 0 bs)) s'

/-- The index is that of the blocks, unless it was lost with one block in the log. -/
structure RunSound (raw : RawBlocks) (cd : Codec) (bs : List SignedBlock) (lost : Bool) (s : BlockLog) : Prop where
  recorded : Recorded raw bs
  stores : Stores raw cd bs s
  kept : lost = false → s.indexStream.bytes = indexFrom raw.pack 0 bs
  gone : lost = true → bs.length = 1 ∧ s.indexStream.bytes = []

theorem recorded_nil : Recorded raw [] :=
  ⟨fun k b h => by simp at h, fun b h => by simp at h, by show 0 < 2 ^ 64; decide⟩

theorem endFrom_le_of_initial {as bs : List SignedBlock} (h : as <+: bs) :
    endFrom raw.pack 0 as ≤ endFrom raw.pack 0 bs := by
  obtain ⟨more, rfl⟩ := h
  have hle := le_endFrom raw.pack (endFrom raw.pack 0 as) more
  rw [endFrom_append]
  omega

/-- Whatever becomes of the index file, it is the index of a log that is comparable; a lost index does not
come back. -/
theorem IndexFile.comparable {bs : List SignedBlock} {lost : Bool} {s : BlockLog} {index : List UInt8}
    (h : RunSound raw cd bs lost s) (hfile : IndexFile raw bs s.indexStream.bytes index) :
    ∃ as, index = indexFrom raw.pack 0 as ∧ endFrom raw.pack 0 as < 2 ^ 64 ∧ (as <+: bs ∨ bs <+: as) ∧
      (lost = true → as.length ≠ bs.length) := by
  have hof : ∀ as : List SignedBlock, as <+: bs → (lost = true → as = []) → index = indexFrom raw.pack 0 as →
      ∃ as, index = indexFrom raw.pack 0 as ∧ endFrom raw.pack 0 as < 2 ^ 64 ∧ (as <+: bs ∨ bs <+: as) ∧
        (lost = true → as.length ≠ bs.length) := by
    intro as hinitial hnil hindex
    refine ⟨as, hindex, (endFrom_le_of_initial hinitial).trans_lt h.recorded.fits, .inl hinitial, fun hlost => ?_⟩
    rw [hnil hlost, (h.gone hlost).1]
    exact Nat.zero_ne_one
  have hfile' : ∃ as, s.indexStream.bytes = indexFrom raw.pack 0 as ∧ as <+: bs ∧ (lost = true → as = []) := by
    cases lost with
    | false => exact ⟨bs, h.kept rfl, List.prefix_refl bs, fun hlost => absurd hlost Bool.false_ne_true⟩
    | true => exact ⟨[], (h.gone rfl).2, List.nil_prefix, fun _ => rfl⟩
  obtain ⟨as, hbytes, hinitial, hnil⟩ := hfile'
  cases hfile with
  | untouched => exact hof as hinitial hnil hbytes
  | deleted => exact hof [] List.nil_prefix (fun _ => rfl) rfl
  | truncated entries =>
    refine hof (as.take entries) ((List.take_prefix _ _).trans hinitial) (fun hlost => by rw [hnil hlost, List.take_nil]) ?_
    rw [hbytes]
    by_cases hentries : entries ≤ as.length
    · exact take_indexFrom raw.pack hentries
    · rw [List.take_of_length_le (by rw [length_indexFrom]; omega), List.take_of_length_le (by omega)]
  | longer more hne hrec =>
    refine ⟨bs ++ more, rfl, hrec.fits, .inr (List.prefix_append _ _), fun _ => ?_⟩
    have hpos := List.length_pos_iff.mpr hne
    rw [List.length_append]
    omega

/-- **One reopening** returns, and loses the index exactly when the log holds one block and the index is not
its own. -/
theorem RunSound.reopen {bs : List SignedBlock} {lost : Bool} {s : BlockLog} {index : List UInt8}
    (h : RunSound raw cd bs lost s) (hfile : IndexFile raw bs s.indexStream.bytes index) :
    ∃ s', open_ raw cd (onFiles s.blockStream.bytes index) = .ok () s' ∧
      RunSound raw cd bs (lost || decide (bs.length = 1 ∧ index ≠ indexFrom raw.pack 0 bs)) s' := by
  obtain ⟨as, rfl, hfits, hcomparable, hlost⟩ := hfile.comparable h
  obtain ⟨s', hopen, hstores, hindex⟩ := @open_eq raw cd _ _ h.recorded hfits hcomparable
  rw [← h.stores.block] at hopen
  -- comparable logs of one length have one index, and others do not
  have hsame : indexFrom raw.pack 0 as = indexFrom raw.pack 0 bs ↔ as.length = bs.length := by
    constructor
    · intro heq
      have hlen := congrArg List.length heq
      rw [length_indexFrom, length_indexFrom] at hlen
      omega
    · intro hlen
      rcases hcomparable with hinitial | hinitial
      · rw [hinitial.eq_of_length hlen]
      · rw [hinitial.eq_of_length hlen.symm]
  refine ⟨s', hopen, h.recorded, hstores, fun hkept => ?_, fun hgone => ?_⟩
  · rw [Bool.or_eq_false_iff, decide_eq_false_iff_not, not_and_not_right] at hkept
    rw [hindex]
    split
    · rfl
    · rename_i hlen
      by_cases hone : bs.length = 1
      · exact absurd (hsame.mp (hkept.2 hone)) hlen
      · rw [rebuilt, if_neg hone]
  · have hlen : as.length ≠ bs.length := by
      rw [Bool.or_eq_true, decide_eq_true_eq] at hgone
      rcases hgone with hlost' | ⟨-, hne⟩
      · exact hlost hlost'
      · exact fun hlen => hne (hsame.mpr hlen)
    have hone : bs.length = 1 := by
      rw [Bool.or_eq_true, decide_eq_true_eq] at hgone
      rcases hgone with hlost' | ⟨hone, -⟩
      · exact (h.gone hlost').1
      · exact hone
    rw [hindex, if_neg hlen, rebuilt, if_pos hone]
    exact ⟨hone, rfl⟩

theorem LogRun.sound {bs : List SignedBlock} {lost : Bool} {s : BlockLog} (h : LogRun raw cd bs lost s) :
    RunSound raw cd bs lost s := by
  induction h with
  | create hopen =>
    rw [open_new] at hopen
    cases hopen
    exact ⟨recorded_nil, ⟨rfl, rfl, fun b hb => by simp at hb⟩, fun _ => rfl, fun h => absurd h Bool.false_ne_true⟩
  | @append bs lost s s' pos b hrun hrec happend ih =>
    have hspec := append_eq ih.stores hrec
    cases lost with
    | false =>
      rw [if_pos (by rw [ih.kept rfl, length_indexFrom])] at hspec
      obtain ⟨t, hok, hstores, hindex⟩ := hspec
      rw [happend] at hok
      cases hok
      refine ⟨hrec, hstores, fun _ => ?_, fun h => absurd h Bool.false_ne_true⟩
      rw [hindex, ih.kept rfl, indexFrom_concat]
    | true =>
      obtain ⟨hone, hempty⟩ := ih.gone rfl
      rw [if_neg (by rw [hempty, hone]; decide)] at hspec
      obtain ⟨e, t, herror⟩ := hspec
      rw [happend] at herror
      cases herror
  | read k hrun hread ih =>
    have halike := (alike_readBlockByNum k).runs _ _ _ hread
    refine ⟨ih.recorded, ⟨halike.block.trans ih.stores.block, halike.head.trans ih.stores.head, fun b hb => ?_⟩,
      fun hkept => halike.index.trans (ih.kept hkept), fun hgone => ?_⟩
    · exact halike.headId.trans (ih.stores.headId b hb)
    · exact ⟨(ih.gone hgone).1, halike.index.trans (ih.gone hgone).2⟩
  | reopen hrun hfile hopen ih =>
    obtain ⟨t, hok, hsound⟩ := ih.reopen hfile
    rw [hopen] at hok
    cases hok
    exact hsound

/-- What the log promises: its index is the one the appends write, reading finds the blocks, the last one is the
head, and the next one can be appended. -/
structure Agrees (raw : RawBlocks) (cd : Codec) (bs : List SignedBlock) (s : BlockLog) : Prop where
  index : s.indexStream.bytes = indexFrom raw.pack 0 bs
  read : ∀ k, ∃ s', readBlockByNum raw k s = .ok (blockAt bs k) s'
  head : s.head = bs.getLast?
  accepts : ∀ b, Recorded raw (bs ++ [b]) → ∃ pos s', BlockLog.append raw cd b s = .ok pos s'

/-- **Block log and index** agree in every run in which the index was never lost with one block in the log, and
in no other; every reopening returns. -/
theorem block_log_index {bs : List SignedBlock} {lost : Bool} {s : BlockLog} (h : LogRun raw cd bs lost s) :
    (Agrees raw cd bs s ↔ lost = false) ∧
      ∀ index, IndexFile raw bs s.indexStream.bytes index →
        ∃ s', open_ raw cd (onFiles s.blockStream.bytes index) = .ok () s' := by
  have hsound := h.sound
  refine ⟨⟨fun hagrees => ?_, fun hkept => ?_⟩, fun index hfile => ?_⟩
  · cases lost with
    | false => rfl
    | true =>
      obtain ⟨hone, hempty⟩ := hsound.gone rfl
      have hlen := congrArg List.length hagrees.index
      rw [hempty, length_indexFrom, hone] at hlen
      exact absurd hlen (by decide)
  · have hindex := hsound.kept hkept
    refine ⟨hindex, fun k => ?_, hsound.stores.head, fun b hrec => ?_⟩
    · obtain ⟨s', hread, -⟩ := readBlockByNum_eq hsound.recorded hsound.stores hindex k
      exact ⟨s', hread⟩
    · have hspec := append_eq hsound.stores hrec
      rw [if_pos (by rw [hindex, length_indexFrom])] at hspec
      obtain ⟨s', hok, -⟩ := hspec
      exact ⟨_, s', hok⟩
  · obtain ⟨s', hopen, -⟩ := hsound.reopen hfile
    exact ⟨s', hopen⟩

/-! ## Samples -/

/-- Two blocks that follow each other. -/
def logFirst : SignedBlock := sampleBlock {} 1 []

def logSecond : SignedBlock := sampleBlock (logFirst.id sampleEnv.codec) 2 []

/-- A format in which the first byte tells the block. -/
def sampleRaw : RawBlocks where
  pack b := if b.previous.num = 0 then [1] else [2, 2]
  unpack
    | 1 :: rest => some (logFirst, rest)
    | 2 :: 2 :: rest => some (logSecond, rest)
    | _ => none

theorem recorded_sample : Recorded sampleRaw [logFirst, logSecond] := by
  refine ⟨fun k b hb => ?_, fun b hb => ?_, by show 19 < 2 ^ 64; decide⟩
  · match k, hb with
    | 0, hb =>
      cases hb
      rfl
    | 1, hb =>
      cases hb
      rfl
  · rcases List.mem_pair.mp hb with rfl | rfl
    · exact fun rest => rfl
    · exact fun rest => rfl

/-- The log of the first block, its index and the second block. -/
def oneBlockLog : BlockLog := after (BlockLog.append sampleRaw sampleEnv.codec logFirst (onFiles [] []))

def twoBlockLog : BlockLog := after (BlockLog.append sampleRaw sampleEnv.codec logSecond oneBlockLog)

theorem logRun_oneBlock : LogRun sampleRaw sampleEnv.codec [logFirst] false oneBlockLog :=
  (LogRun.create (open_new [])).append logFirst recorded_sample.of_append
    (show BlockLog.append sampleRaw sampleEnv.codec logFirst (onFiles [] []) = .ok 0 oneBlockLog from rfl)

theorem logRun_twoBlocks : LogRun sampleRaw sampleEnv.codec [logFirst, logSecond] false twoBlockLog :=
  logRun_oneBlock.append logSecond recorded_sample
    (show BlockLog.append sampleRaw sampleEnv.codec logSecond oneBlockLog = .ok 9 twoBlockLog from rfl)

/-- With two blocks a deleted index comes back. -/
theorem block_log_index_deleted : ∃ s', open_ sampleRaw sampleEnv.codec (onFiles twoBlockLog.blockStream.bytes []) =
    .ok () s' ∧ Agrees sampleRaw sampleEnv.codec [logFirst, logSecond] s' := by
  obtain ⟨s', hopen⟩ := (block_log_index logRun_twoBlocks).2 [] .deleted
  have hrun := LogRun.reopen logRun_twoBlocks .deleted hopen
  exact ⟨s', hopen, (block_log_index hrun).1.mpr rfl⟩

/-- With one block it does not: the index stays empty, the block cannot be read by its number, and the second
block is refused. -/
theorem first_index_lost : LogRun sampleRaw sampleEnv.codec [logFirst] false oneBlockLog ∧
    IndexFile sampleRaw [logFirst] oneBlockLog.indexStream.bytes [] ∧
    ∃ s', open_ sampleRaw sampleEnv.codec (onFiles oneBlockLog.blockStream.bytes []) = .ok () s' ∧
      s'.indexStream.bytes = [] ∧ indexFrom sampleRaw.pack 0 [logFirst] = [0, 0, 0, 0, 0, 0, 0, 0] ∧
      thrown (readBlockByNum sampleRaw 1 s') = some .stream ∧
      thrown (BlockLog.append sampleRaw sampleEnv.codec logSecond s') =
        some (.assertion "Append to index file occuring at wrong position.") := by
  refine ⟨logRun_oneBlock, .deleted, _, rfl, ?_⟩
  decide +kernel

end Sigmaengine
