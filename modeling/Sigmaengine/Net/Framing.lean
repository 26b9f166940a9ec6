import Sigmaengine.Lib.Reader

/-!
# Message framing

`message_oriented_connection` writes a message as its header, its data and zeros up to a multiple of sixteen bytes, and
reads sixteen bytes and then what is left, into a buffer that holds the last message.  The writer rounds the whole
length up and the reader the length without the first sixteen bytes, which for short messages wraps around.
-/

namespace Graphene

open Reading

/-- `message`: the header `message_header` and the data. -/
structure FramedMessage where
  size : UInt32 := 0
  msgType : UInt32 := 0
  data : List UInt8 := []
deriving DecidableEq

def maxMessageSize : UInt32 := 1024 * 1024 * 30
def bufferSize : Nat := 16
def headerSize : Nat := 8
def leftover : Nat := bufferSize - headerSize

/-! ## Vectors of bytes -/

/-- `std::vector::resize`. -/
def resize (n : Nat) (data : List UInt8) : List UInt8 := Bytes.stored n data

/-- Copy bytes into a vector, from an offset on. -/
def overwrite (data : List UInt8) (offset : Nat) (bs : List UInt8) : List UInt8 :=
  data.take offset ++ bs ++ data.drop (offset + bs.length)

/-! ## Writing and reading -/

/-- The memory of a `message_header`. -/
def headerBytes (m : FramedMessage) : List UInt8 :=
  packLittleEndian 4 m.size.toNat ++ packLittleEndian 4 m.msgType.toNat

def sizeWithPadding (m : FramedMessage) : Nat := 16 * ((headerSize + m.size.toNat + 15) / 16)

/-- What `send_message` writes to the socket. -/
def sendMessage (m : FramedMessage) : List UInt8 :=
  headerBytes m ++ m.data.take m.size.toNat ++ List.replicate (sizeWithPadding m - (headerSize + m.size.toNat)) 0

/-- In 32 bits. -/
def remainingBytesWithPadding (size : UInt32) : UInt32 := 16 * ((size - UInt32.ofNat leftover + 15) / 16)

/-- Read into a buffer behind what it holds; there may be nothing to read. -/
def readRemaining (data : List UInt8) (remaining : Nat) : Reader (List UInt8) :=
  if remaining = 0 then pure data else overwrite data leftover <$> take remaining

/-- One iteration of `read_loop`, which finds nothing where it leaves the loop.  `m` is the message before. -/
def readMessage (m : FramedMessage) : Reader FramedMessage := do
  let size ← littleEndian 4
  let msgType ← littleEndian 4
  let front ← take leftover
  let size := UInt32.ofNat size
  check (size ≤ maxMessageSize)
  let remaining := (remainingBytesWithPadding size).toNat
  let data ← readRemaining (overwrite (resize (leftover + remaining) m.data) 0 front) remaining
  return { size := size, msgType := UInt32.ofNat msgType, data := resize size.toNat data }

/-- The messages that `read_loop` hands to its delegate before the socket has nothing more to read, and what is left
there.  An iteration takes at least sixteen bytes. -/
def readLoopFrom : Nat → FramedMessage → List UInt8 → List FramedMessage × List UInt8
  | 0, _, stream => ([], stream)
  | fuel + 1, m, stream =>
    match readMessage m stream with
    | none => ([], stream)
    | some (m, stream) =>
      let r := readLoopFrom fuel m stream
      (m :: r.1, r.2)

def readLoop (stream : List UInt8) : List FramedMessage × List UInt8 := readLoopFrom stream.length {} stream

/-! ## Lengths -/

/-- A message as it may be sent: the size is that of the data. -/
structure FramedMessage.Sound (m : FramedMessage) : Prop where
  size_eq : m.size.toNat = m.data.length
  size_le : m.size ≤ maxMessageSize

/-- The reader's rounding does not wrap around in the end, not even where the size is below eight. -/
theorem toNat_remainingBytesWithPadding {size : UInt32} (hsize : size ≤ maxMessageSize) :
    (remainingBytesWithPadding size).toNat = 16 * ((size.toNat + 7) / 16) := by
  have hmax : size.toNat ≤ 31457280 := hsize
  have hsum : (size - UInt32.ofNat leftover + 15).toNat = size.toNat + 7 := by
    have hleftover : (UInt32.ofNat leftover).toNat = 8 := rfl
    rw [UInt32.toNat_add, UInt32.toNat_sub, hleftover]
    simp only [UInt32.toNat_ofNat]
    omega
  unfold remainingBytesWithPadding
  have hsixteen : (16 : UInt32).toNat = 16 := rfl
  rw [UInt32.toNat_mul, UInt32.toNat_div, hsum, hsixteen]
  omega

theorem remainingBytesWithPadding_eq_zero {size : UInt32} (hsize : size ≤ 8) : remainingBytesWithPadding size = 0 := by
  have hsmall : size.toNat ≤ 8 := hsize
  have hmax : size ≤ maxMessageSize := by
    show size.toNat ≤ 31457280
    omega
  have hzero := toNat_remainingBytesWithPadding hmax
  apply UInt32.toNat_inj.mp
  rw [hzero, UInt32.toNat_zero]
  omega

/-- The data and the zeros behind them. -/
def paddedData (m : FramedMessage) : List UInt8 :=
  m.data ++ List.replicate (sizeWithPadding m - (headerSize + m.size.toNat)) 0

namespace FramedMessage.Sound

variable {m : FramedMessage} (h : m.Sound)

include h

theorem sendMessage_eq : sendMessage m = headerBytes m ++ paddedData m := by
  unfold sendMessage paddedData
  rw [h.size_eq, List.take_length, List.append_assoc]

/-- Both sides agree on the length. -/
theorem length_paddedData : (paddedData m).length = leftover + (remainingBytesWithPadding m.size).toNat := by
  rw [toNat_remainingBytesWithPadding h.size_le, paddedData, List.length_append, List.length_replicate, ← h.size_eq]
  simp only [sizeWithPadding, headerSize, leftover, bufferSize]
  omega

theorem resize_paddedData : resize m.size.toNat (paddedData m) = m.data := by
  unfold resize Bytes.stored paddedData
  rw [h.size_eq, List.take_left, List.length_append, Nat.sub_eq_zero_of_le (Nat.le_add_right _ _)]
  simp

end FramedMessage.Sound

/-! ## The round trip -/

theorem overwrite_front {data front : List UInt8} : overwrite data 0 front = front ++ data.drop front.length := by
  simp [overwrite]

/-- Once its first bytes are there, the buffer is filled by the others. -/
theorem overwrite_back {data front back : List UInt8} {n : Nat} (hn : front.length = n)
    (hdata : data.length = n + back.length) : overwrite (overwrite data 0 front) n back = front ++ back := by
  subst hn
  rw [overwrite_front]
  unfold overwrite
  have hlast : (front ++ data.drop front.length).drop (front.length + back.length) = [] := by
    apply List.drop_eq_nil_of_le
    rw [List.length_append, List.length_drop]
    omega
  rw [hlast, List.take_left, List.append_nil]

theorem reads_readRemaining {data front back : List UInt8} (hfront : front.length = leftover)
    (hdata : data.length = leftover + back.length) :
    Reads (readRemaining (overwrite data 0 front) back.length) back (front ++ back) := by
  have hfilled := overwrite_back hfront hdata
  unfold readRemaining
  split
  · rename_i hnone
    have hall : back = [] := List.eq_nil_of_length_eq_zero hnone
    subst hall
    have hexact : overwrite data 0 front = front := by
      rw [overwrite_front, List.drop_eq_nil_of_le (by simp [hdata, hfront]), List.append_nil]
    rw [hexact, List.append_nil]
    exact reads_pure front
  · rw [← hfilled]
    exact (reads_take back).map _

/-- An iteration takes exactly what was written of one message, whatever the buffer held before. -/
theorem reads_sendMessage (previous : FramedMessage) {m : FramedMessage} (h : m.Sound) :
    Reads (readMessage previous) (sendMessage m) m := by
  have hlength := h.length_paddedData
  have hfront : ((paddedData m).take leftover).length = leftover := by
    rw [List.length_take, hlength]
    omega
  have hback : ((paddedData m).drop leftover).length = (remainingBytesWithPadding m.size).toNat := by
    rw [List.length_drop, hlength]
    omega
  have hresized : (resize (leftover + (remainingBytesWithPadding m.size).toNat) previous.data).length =
      leftover + ((paddedData m).drop leftover).length := by
    rw [hback]
    exact Bytes.length_stored _ _
  have hfill := reads_readRemaining hfront hresized
  rw [List.take_append_drop, hback] at hfill
  have hsize : UInt32.ofNat m.size.toNat = m.size := UInt32.ofNat_toNat
  have htype : UInt32.ofNat m.msgType.toNat = m.msgType := UInt32.ofNat_toNat
  have hsplit : sendMessage m = packLittleEndian 4 m.size.toNat ++ (packLittleEndian 4 m.msgType.toNat ++
      ((paddedData m).take leftover ++ ([] ++ ((paddedData m).drop leftover ++ [])))) := by
    rw [h.sendMessage_eq, headerBytes]
    simp
  rw [hsplit]
  unfold readMessage
  refine (reads_littleEndian m.size.toNat_lt).bind ((reads_littleEndian m.msgType.toNat_lt).bind ?_)
  have htake := reads_take ((paddedData m).take leftover)
  rw [hfront] at htake
  refine htake.bind ?_
  dsimp only
  rw [hsize, htype]
  refine (reads_check (by simpa using h.size_le)).bind ?_
  have hdone : ({ size := m.size, msgType := m.msgType, data := resize m.size.toNat (paddedData m) } : FramedMessage) =
      m := by
    rw [h.resize_paddedData]
  refine hfill.bind ?_
  rw [hdone]
  exact reads_pure m

/-- `read_loop` hands over what was sent, message by message. -/
theorem readLoopFrom_sendMessages (ms : List FramedMessage) (hms : ∀ m ∈ ms, m.Sound) (previous : FramedMessage)
    (fuel : Nat) (hfuel : ms.length < fuel) : readLoopFrom fuel previous (ms.flatMap sendMessage) = (ms, []) := by
  induction ms generalizing previous fuel with
  | nil =>
    cases fuel with
    | zero => omega
    | succ fuel => rfl
  | cons m ms ih =>
    cases fuel with
    | zero => simp at hfuel
    | succ fuel =>
      have hread := reads_sendMessage previous (hms m (.head _)) (ms.flatMap sendMessage)
      rw [List.flatMap_cons, readLoopFrom, hread]
      have hrest := ih (fun m hm => hms m (.tail _ hm)) m fuel (by simpa using hfuel)
      dsimp only
      rw [hrest]

theorem length_sendMessage {m : FramedMessage} (h : m.Sound) :
    (sendMessage m).length = bufferSize + (remainingBytesWithPadding m.size).toNat := by
  rw [h.sendMessage_eq, List.length_append, h.length_paddedData]
  simp [headerBytes, packLittleEndian, Bytes.length_digits, leftover, bufferSize, headerSize]
  omega

theorem length_le_sendMessages (ms : List FramedMessage) (hms : ∀ m ∈ ms, m.Sound) :
    bufferSize * ms.length ≤ (ms.flatMap sendMessage).length := by
  induction ms with
  | nil => simp
  | cons m ms ih =>
    have hrest := ih fun m hm => hms m (.tail _ hm)
    rw [List.flatMap_cons, List.length_append, length_sendMessage (hms m (.head _)), List.length_cons]
    unfold bufferSize at *
    omega

/-- **Framing round trip.**  The stream of all messages sent is split into the same messages, with nothing left over;
each iteration consumes the bytes of its message; and for sizes up to eight nothing more is read. -/
theorem framing_round_trip (ms : List FramedMessage) (hms : ∀ m ∈ ms, m.Sound) :
    readLoop (ms.flatMap sendMessage) = (ms, []) ∧
      (∀ m ∈ ms, ∀ previous, Reads (readMessage previous) (sendMessage m) m) ∧
      ∀ size : UInt32, size ≤ 8 → remainingBytesWithPadding size = 0 := by
  refine ⟨?_, fun m hm previous => reads_sendMessage previous (hms m hm),
    fun size => remainingBytesWithPadding_eq_zero⟩
  have hlength := length_le_sendMessages ms hms
  cases ms with
  | nil => rfl
  | cons m ms =>
    apply readLoopFrom_sendMessages _ hms
    rw [List.length_cons] at *
    unfold bufferSize at hlength
    omega

/-- An empty message, and one whose last byte goes into a second block. -/
def shortAndLong : List FramedMessage :=
  [{ size := 0, msgType := 5001 }, { size := 9, msgType := 1001, data := [1, 2, 3, 4, 5, 6, 7, 8, 9] }]

theorem framing_round_trip_shortAndLong :
    (shortAndLong.flatMap sendMessage).length = 48 ∧ readLoop (shortAndLong.flatMap sendMessage) = (shortAndLong, []) := by
  refine ⟨by decide, (framing_round_trip shortAndLong ?_).1⟩
  intro m hm
  simp only [shortAndLong, List.mem_cons, List.not_mem_nil, or_false] at hm
  rcases hm with rfl | rfl
  · exact ⟨rfl, by decide⟩
  · exact ⟨rfl, by decide⟩

end Graphene
