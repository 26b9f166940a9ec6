import Sigmaengine.Lib.Effect
import Sigmaengine.Lib.Framed
import Sigmaengine.Protocol.Block

/-!
# The block log

`block_log`: an append-only file of packed blocks, each followed by the position it starts at, and an index
file of those positions.  Files are byte arrays.  A stream is either opened for appending, where writing and
`tellp` go to the end, or for reading.
-/

namespace Sigmaengine

open Effect Framed

inductive LogError
  /-- The fail bit of a stream. -/
  | stream
  /-- `fc::raw::unpack` could not read a block. -/
  | unpack
  | assertion (text : String)
  | diverged
deriving DecidableEq, Repr

/-- `fc::raw::pack` and `fc::raw::unpack`; the second leaves the bytes it did not read. -/
structure RawBlocks where
  pack : SignedBlock → List UInt8
  unpack : List UInt8 → Option (SignedBlock × List UInt8)

/-! ## Streams -/

/-- A `std::fstream` on a file: `write` when it was opened with `LOG_WRITE`, else the place it reads from. -/
structure FileStream where
  bytes : List UInt8 := []
  write : Bool := true
  place : Nat := 0

abbrev StreamM := Prog LogError FileStream

namespace FileStream

/-- `close` and `open( …, LOG_READ )`. -/
def reopenRead : StreamM Unit := modify fun s => { s with write := false, place := 0 }

/-- `close` and `open( …, LOG_WRITE )`. -/
def reopenWrite : StreamM Unit := modify fun s => { s with write := true, place := 0 }

/-- `seekg( n )`. -/
def seekg (n : Nat) : StreamM Unit := modify fun s => { s with place := n }

/-- `seekg( -n, std::ios::end )`. -/
def seekgEnd (n : Nat) : StreamM Unit := do
  let s ← get
  assert (n ≤ s.bytes.length) .stream
  seekg (s.bytes.length - n)

/-- Read a `uint64_t`. -/
def readWord : StreamM Nat := do
  let s ← get
  assert (s.place + 8 ≤ s.bytes.length) .stream
  seekg (s.place + 8)
  return number ((s.bytes.drop s.place).take 8)

/-- `fc::raw::unpack( stream, block )`. -/
def unpack (raw : RawBlocks) : StreamM SignedBlock := do
  let s ← get
  let r ← ofOption (raw.unpack (s.bytes.drop s.place)) .unpack
  seekg (s.bytes.length - r.2.length)
  return r.1

/-- `tellp` of a stream that appends. -/
def tellp : StreamM Nat := return (← get).bytes.length

/-- `write` of a stream that appends. -/
def append (bs : List UInt8) : StreamM Unit := modify fun s => { s with bytes := s.bytes ++ bs }

end FileStream

/-! ## The log -/

/-- `block_log_impl`; `block_write` and `index_write` are the modes of the streams. -/
structure BlockLog where
  blockStream : FileStream := {}
  indexStream : FileStream := {}
  head : Option SignedBlock := none
  headId : BlockId := {}

abbrev LogM := Prog LogError BlockLog

def blockPart : Part BlockLog FileStream where
  get s := s.blockStream
  set t s := { s with blockStream := t }
  get_set _ _ := rfl
  set_get _ := rfl

def indexPart : Part BlockLog FileStream where
  get s := s.indexStream
  set t s := { s with indexStream := t }
  get_set _ _ := rfl
  set_get _ := rfl

namespace BlockLog

def onBlock {α : Type} (m : StreamM α) : LogM α := within blockPart m

def onIndex {α : Type} (m : StreamM α) : LogM α := within indexPart m

/-- `npos`. -/
def npos : Nat := 18446744073709551615

def checkBlockRead : LogM Unit := do
  let s ← get
  if s.blockStream.write then onBlock FileStream.reopenRead else pure ()

def checkBlockWrite : LogM Unit := do
  let s ← get
  if s.blockStream.write then pure () else onBlock FileStream.reopenWrite

def checkIndexRead : LogM Unit := do
  let s ← get
  if s.indexStream.write then onIndex FileStream.reopenRead else pure ()

def checkIndexWrite : LogM Unit := do
  let s ← get
  if s.indexStream.write then pure () else onIndex FileStream.reopenWrite

variable (raw : RawBlocks) (cd : Codec)

/-- `read_block`: the block at `pos` and the place after its trailing position. -/
def readBlock (pos : Nat) : LogM (SignedBlock × Nat) := do
  checkBlockRead
  onBlock (FileStream.seekg pos)
  let b ← onBlock (FileStream.unpack raw)
  let s ← get
  return (b, s.blockStream.place + 8)

def readHead : LogM SignedBlock := do
  checkBlockRead
  onBlock (FileStream.seekgEnd 8)
  let pos ← onBlock FileStream.readWord
  let r ← readBlock raw pos
  return r.1

/-- The loop of `construct_index`, for at most `fuel` rounds. -/
def rebuild (endPos : Nat) : Nat → Nat → LogM Unit
  | 0, _ => throw .diverged
  | fuel + 1, pos =>
    if pos < endPos then do
      let _ ← onBlock (FileStream.unpack raw)
      let pos ← onBlock FileStream.readWord
      onIndex (FileStream.append (word pos))
      rebuild endPos fuel pos
    else pure ()

def constructIndex : LogM Unit := do
  modify fun s => { s with indexStream := {} }
  checkBlockRead
  onBlock (FileStream.seekgEnd 8)
  let endPos ← onBlock FileStream.readWord
  onBlock (FileStream.seekg 0)
  let s ← get
  rebuild raw endPos (s.blockStream.bytes.length + 1) 0

/-- A new `block_log_impl` whose streams are opened on the two files. -/
def onFiles (blockFile indexFile : List UInt8) : BlockLog where
  blockStream := { bytes := blockFile }
  indexStream := { bytes := indexFile }

/-- `open`, once both streams are. -/
def open_ : LogM Unit := do
  let s ← get
  let logSize := s.blockStream.bytes.length
  let indexSize := s.indexStream.bytes.length
  if logSize ≠ 0 then do
    let head ← readHead raw
    modify fun s => { s with head := some head, headId := head.id cd }
    if indexSize ≠ 0 then do
      checkBlockRead
      checkIndexRead
      onBlock (FileStream.seekgEnd 8)
      let blockPos ← onBlock FileStream.readWord
      onIndex (FileStream.seekgEnd 8)
      let indexPos ← onIndex FileStream.readWord
      if blockPos < indexPos then constructIndex raw
      else if indexPos < blockPos then constructIndex raw
      else pure ()
    else constructIndex raw
  else if indexSize ≠ 0 then modify fun s => { s with indexStream := {} }
  else pure ()

/-- `append`: the position the block is written at. -/
def append (b : SignedBlock) : LogM Nat := do
  checkBlockWrite
  checkIndexWrite
  let pos ← onBlock FileStream.tellp
  let indexPos ← onIndex FileStream.tellp
  assert (indexPos == 8 * ((b.blockNum + 4294967295) % 4294967296))
    (.assertion "Append to index file occuring at wrong position.")
  onBlock (FileStream.append (raw.pack b))
  onBlock (FileStream.append (word pos))
  onIndex (FileStream.append (word pos))
  modify fun s => { s with head := some b, headId := b.id cd }
  return pos

def getBlockPos (blockNum : Nat) : LogM Nat := do
  checkIndexRead
  let s ← get
  if s.head.isSome && blockNum ≤ s.headId.num && 0 < blockNum then do
    onIndex (FileStream.seekg (8 * (blockNum - 1)))
    onIndex FileStream.readWord
  else return npos

def readBlockByNum (blockNum : Nat) : LogM (Option SignedBlock) := do
  let pos ← getBlockPos blockNum
  if pos ≠ npos then do
    let r ← readBlock raw pos
    assert (r.1.blockNum == blockNum) (.assertion "Wrong block was read from block log.")
    return some r.1
  else return none

end BlockLog

end Sigmaengine
