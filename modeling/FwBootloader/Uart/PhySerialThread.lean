import FwBootloader.Lib.Bytes
import FwBootloader.Uart.Crc

/-!
## The serial host's receiver: `physerialthread.cpp` and `blockingqueue.h`

`onReadReady` appends what the port has read to `m_alreadyReadBuffer`, drops bytes up to a possible
packet head and puts the payload of every complete packet whose checksum matches into the queue.
-/

namespace FwBootloader.Uart

open Bytes

/-! ### `blockingqueue.h`

`m_queue` is a `std::deque`; its front is the head of the list. -/

/-- `m_queue.push_front(value)`. -/
def put {α : Type} (value : α) (queue : List α) : List α :=
  value :: queue

/-- `poll`: the element at the back and the queue without it; `none` when the timeout passes. -/
def poll {α : Type} (queue : List α) : Option (α × List α) :=
  queue.getLast?.map fun out => (out, queue.dropLast)

/-! ### `physerialthread.cpp` -/

/-- Drop bytes until `AA 55` stands in front or two bytes are left. -/
def removeUntilFindHead : List UInt8 → List UInt8
  | b0 :: b1 :: b2 :: rest =>
    if b0 = 0xAA ∧ b1 = 0x55 then b0 :: b1 :: b2 :: rest
    else removeUntilFindHead (b1 :: b2 :: rest)
  | buf => buf

theorem length_removeUntilFindHead_le (buf : List UInt8) :
    (removeUntilFindHead buf).length ≤ buf.length := by
  fun_induction removeUntilFindHead buf with
  | case1 => exact le_rfl
  | case2 b0 b1 b2 rest _ ih => exact ih.trans (by simp)
  | case3 => exact le_rfl

/-- The `while` loop of `on_readReady`: the payloads it puts, in order, and the buffer it leaves. -/
def parsePackets (buf : List UInt8) : List (List UInt8) × List UInt8 :=
  if 2 + 2 + 2 < buf.length then
    let payloadLen := (ofLe16 (buf.getD 2 0) (buf.getD 3 0)).toNat
    if buf.length < 2 + 2 + payloadLen + 2 then ([], buf)
    else
      let recvCrc16 :=
        ofLe16 (buf.getD (2 + 2 + payloadLen) 0) (buf.getD (2 + 2 + payloadLen + 1) 0)
      let realCrc16 := crc16 (buf.take (payloadLen + 2 + 2))
      if recvCrc16 ≠ realCrc16 then
        parsePackets (removeUntilFindHead (buf.drop 2))
      else
        let r := parsePackets (removeUntilFindHead (buf.drop (2 + 2 + payloadLen + 2)))
        ((buf.drop 4).take payloadLen :: r.1, r.2)
  else ([], buf)
termination_by buf.length
decreasing_by
  all_goals
    refine lt_of_le_of_lt (length_removeUntilFindHead_le _) ?_
    rw [List.length_drop]
    omega

/-- The receiver's buffer and the queue it shares with the updater. -/
structure PhySerialThread where
  alreadyReadBuffer : List UInt8
  rawRemoteCmdQueue : List (List UInt8)

def onReadReady (t : PhySerialThread) (curBuf : List UInt8) : PhySerialThread :=
  let buf := t.alreadyReadBuffer ++ curBuf
  if buf.length < 4 then { t with alreadyReadBuffer := buf }
  else
    let r := parsePackets (removeUntilFindHead buf)
    { alreadyReadBuffer := r.2
      rawRemoteCmdQueue := r.1.foldl (fun queue payload => put payload queue) t.rawRemoteCmdQueue }

end FwBootloader.Uart
