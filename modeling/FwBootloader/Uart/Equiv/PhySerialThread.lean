import FwBootloader.Protocol
import FwBootloader.Uart.Equiv.Crc
import FwBootloader.Uart.PhySerialThread

/-!
## The serial host's receiver is the reference scanner

`received_eq_scan`: however a stream is cut into chunks, the payloads that `onReadReady` puts into
the queue are those of `xmodemPacket.scan` on the whole stream.

What carries the induction over the chunks is a statement with any bytes `t` still to come
(`parsePackets_spec`, `onReadReady_spec`): reading the buffer and then `t` is delivering what was
put into the queue and then reading the new buffer and `t`.  The buffer left behind holds no
complete packet, so nothing is delivered late.
-/

namespace FwBootloader.Uart

open Bytes Framing

/-! ### `removeUntilFindHead` -/

/-- Dropping bytes that start no marker does not change what is read, now or later. -/
theorem scan_removeUntilFindHead (buf t : List UInt8) :
    xmodemPacket.scan (removeUntilFindHead buf ++ t) = xmodemPacket.scan (buf ++ t) := by
  fun_induction removeUntilFindHead buf with
  | case1 => rfl
  | case2 b0 b1 b2 rest h ih =>
    have hm : ¬ xmodemPacket.Marked (b0 :: b1 :: b2 :: rest ++ t) := h
    rw [ih, xmodemPacket.scan_of_unmarked hm]
    rfl
  | case3 => rfl

/-- What is left starts with the marker or has at most two bytes. -/
theorem marked_removeUntilFindHead (buf : List UInt8) :
    2 < (removeUntilFindHead buf).length → xmodemPacket.Marked (removeUntilFindHead buf) := by
  fun_induction removeUntilFindHead buf with
  | case1 b0 b1 b2 rest h => exact fun _ => h
  | case2 b0 b1 b2 rest h ih => exact ih
  | case3 buf hne =>
    intro hlen
    rcases buf with _ | ⟨b0, _ | ⟨b1, _ | ⟨b2, rest⟩⟩⟩
    · simp at hlen
    · simp at hlen
    · simp at hlen
    · exact absurd rfl (hne b0 b1 b2 rest)

/-! ### The packet loop -/

/-- The largest packet with its last byte missing. -/
def maxBuffered : ℕ := 65540

/-- The loop's checksum test is the format's. -/
theorem intact_iff (buf : List UInt8) {payloadLen : ℕ} (h : Format.declared buf = payloadLen) :
    xmodemPacket.Intact buf ↔
      ofLe16 (buf.getD (2 + 2 + payloadLen) 0) (buf.getD (2 + 2 + payloadLen + 1) 0)
        = crc16 (buf.take (payloadLen + 2 + 2)) := by
  rw [crc16_eq, ← h, show 2 + 2 + Format.declared buf + 1 = 5 + Format.declared buf by omega,
    show Format.declared buf + 2 + 2 = 4 + Format.declared buf by omega]
  exact Iff.rfl

/-- The loop delivers what the scanner delivers, and leaves a buffer with nothing to deliver. -/
theorem parsePackets_spec (buf : List UInt8) (hm : 2 < buf.length → xmodemPacket.Marked buf) :
    (∀ t, xmodemPacket.scan (buf ++ t)
        = (parsePackets buf).1 ++ xmodemPacket.scan ((parsePackets buf).2 ++ t)) ∧
      xmodemPacket.scan (parsePackets buf).2 = [] ∧ (parsePackets buf).2.length ≤ maxBuffered := by
  fun_induction parsePackets buf with
  | case1 buf hlen payloadLen hpart =>
    have hl := UInt16.toNat_lt (ofLe16 (buf.getD 2 0) (buf.getD 3 0))
    refine ⟨fun _ => rfl, xmodemPacket.scan_of_partial (hm (by omega)) ?_, ?_⟩
    · show buf.length < 6 + payloadLen
      omega
    · show buf.length ≤ 65540
      omega
  | case2 buf hlen payloadLen hfull recvCrc16 realCrc16 hcrc ih =>
    -- a broken packet: its marker is dropped
    obtain ⟨h1, h2, h3⟩ := ih (marked_removeUntilFindHead _)
    refine ⟨fun t => ?_, h2, h3⟩
    have hdecl : Format.declared buf = payloadLen := rfl
    have hl : Format.declared (buf ++ t) = payloadLen := Format.declared_append t (by omega)
    rw [← h1, scan_removeUntilFindHead, ← List.drop_append_of_le_length (by omega)]
    apply xmodemPacket.scan_of_broken
    · rw [List.length_append]; omega
    · exact (xmodemPacket.marked_append t (by omega)).mpr (hm (by omega))
    · rw [List.length_append, hl]; omega
    · rw [xmodemPacket.intact_append t (by omega)]
      exact fun h => hcrc ((intact_iff buf hdecl).mp h)
  | case3 buf hlen payloadLen hfull recvCrc16 realCrc16 hcrc r ih =>
    -- an intact packet: its payload is delivered
    obtain ⟨h1, h2, h3⟩ := ih (marked_removeUntilFindHead _)
    refine ⟨fun t => ?_, h2, h3⟩
    have hdecl : Format.declared buf = payloadLen := rfl
    have hl : Format.declared (buf ++ t) = payloadLen := Format.declared_append t (by omega)
    rw [xmodemPacket.scan_of_intact (by rw [List.length_append]; omega)
      ((xmodemPacket.marked_append t (by omega)).mpr (hm (by omega)))
      (by rw [List.length_append, hl]; omega)
      ((xmodemPacket.intact_append t (by omega)).mpr
        ((intact_iff buf hdecl).mpr (not_not.mp hcrc))), hl,
      List.drop_append_of_le_length (by omega), List.drop_append_of_le_length (by omega),
      List.take_append_of_le_length (by rw [List.length_drop]; omega),
      show 6 + payloadLen = 2 + 2 + payloadLen + 2 by omega, List.cons_append, ← h1,
      scan_removeUntilFindHead]
  | case4 buf hlen =>
    refine ⟨fun _ => rfl, xmodemPacket.scan_of_short ?_, ?_⟩
    · show buf.length ≤ 6
      omega
    · show buf.length ≤ 65540
      omega

/-! ### One read and a whole stream -/

/-- One read: the queue gets what the scanner delivers from the buffer and the chunk. -/
theorem onReadReady_spec (r : PhySerialThread) (chunk : List UInt8) :
    ∃ ps, (onReadReady r chunk).rawRemoteCmdQueue = ps.reverse ++ r.rawRemoteCmdQueue ∧
      (∀ t, xmodemPacket.scan (r.alreadyReadBuffer ++ (chunk ++ t))
        = ps ++ xmodemPacket.scan ((onReadReady r chunk).alreadyReadBuffer ++ t)) ∧
      xmodemPacket.scan (onReadReady r chunk).alreadyReadBuffer = [] ∧
      (onReadReady r chunk).alreadyReadBuffer.length ≤ maxBuffered := by
  unfold onReadReady
  set buf := r.alreadyReadBuffer ++ chunk with hbuf
  by_cases hlen : buf.length < 4
  · simp only [if_pos hlen]
    refine ⟨[], rfl, fun t => by rw [hbuf, List.append_assoc, List.nil_append],
      xmodemPacket.scan_of_short (by omega), ?_⟩
    rw [maxBuffered]
    omega
  · simp only [if_neg hlen]
    obtain ⟨h1, h2, h3⟩ := parsePackets_spec _ (marked_removeUntilFindHead buf)
    refine ⟨(parsePackets (removeUntilFindHead buf)).1, ?_, fun t => ?_, h2, h3⟩
    · exact List.foldl_flip_cons_eq_append'
    · rw [← h1, scan_removeUntilFindHead, hbuf, List.append_assoc]

/-- The receiver after a sequence of reads. -/
def receive (r : PhySerialThread) (chunks : List (List UInt8)) : PhySerialThread :=
  chunks.foldl onReadReady r

/-- A sequence of reads, from a buffer with nothing to deliver. -/
theorem receive_spec (r : PhySerialThread) (chunks : List (List UInt8))
    (hnone : xmodemPacket.scan r.alreadyReadBuffer = [])
    (hlen : r.alreadyReadBuffer.length ≤ maxBuffered) :
    ∃ ps, (receive r chunks).rawRemoteCmdQueue = ps.reverse ++ r.rawRemoteCmdQueue ∧
      (∀ t, xmodemPacket.scan (r.alreadyReadBuffer ++ (chunks.flatten ++ t))
        = ps ++ xmodemPacket.scan ((receive r chunks).alreadyReadBuffer ++ t)) ∧
      xmodemPacket.scan (receive r chunks).alreadyReadBuffer = [] ∧
      (receive r chunks).alreadyReadBuffer.length ≤ maxBuffered := by
  induction chunks generalizing r with
  | nil => exact ⟨[], rfl, fun _ => rfl, hnone, hlen⟩
  | cons chunk chunks ih =>
    obtain ⟨ps, hq, hscan, hnone', hlen'⟩ := onReadReady_spec r chunk
    obtain ⟨qs, ihq, ihscan, ihnone, ihlen⟩ := ih (onReadReady r chunk) hnone' hlen'
    refine ⟨ps ++ qs, ?_, fun t => ?_, ihnone, ihlen⟩
    · rw [List.reverse_append, List.append_assoc, ← hq]
      exact ihq
    · rw [List.flatten_cons, List.append_assoc, hscan, ihscan, List.append_assoc]
      rfl

/-- What such a sequence of reads puts into the queue. -/
theorem receive_queue (r : PhySerialThread) (chunks : List (List UInt8))
    (hnone : xmodemPacket.scan r.alreadyReadBuffer = [])
    (hlen : r.alreadyReadBuffer.length ≤ maxBuffered) :
    (receive r chunks).rawRemoteCmdQueue
        = (xmodemPacket.scan (r.alreadyReadBuffer ++ chunks.flatten)).reverse
          ++ r.rawRemoteCmdQueue := by
  obtain ⟨ps, hq, hscan, hnone', -⟩ := receive_spec r chunks hnone hlen
  have h := hscan []
  rw [List.append_nil, List.append_nil, hnone', List.append_nil] at h
  rw [hq, h]

theorem receive_queue_of_empty (queue chunks : List (List UInt8)) :
    (receive ⟨[], queue⟩ chunks).rawRemoteCmdQueue
      = (xmodemPacket.scan chunks.flatten).reverse ++ queue :=
  receive_queue ⟨[], queue⟩ chunks xmodemPacket.scan_nil (Nat.zero_le _)

/-- **The receiver is the reference scanner on the whole stream, however it is cut into chunks**,
and it never holds more than an incomplete packet.  The queue's oldest element is its last. -/
theorem received_eq_scan (chunks : List (List UInt8)) :
    (receive ⟨[], []⟩ chunks).rawRemoteCmdQueue.reverse = xmodemPacket.scan chunks.flatten ∧
      (receive ⟨[], []⟩ chunks).alreadyReadBuffer.length ≤ 65540 := by
  obtain ⟨-, -, -, -, hlen⟩ :=
    receive_spec ⟨[], []⟩ chunks xmodemPacket.scan_nil (Nat.zero_le _)
  refine ⟨?_, hlen⟩
  rw [receive_queue_of_empty, List.append_nil, List.reverse_reverse]

end FwBootloader.Uart
