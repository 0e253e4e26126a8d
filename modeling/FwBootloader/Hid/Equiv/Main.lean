import FwBootloader.Hid.Port
import FwBootloader.Uart.Equiv.Crc
import FwBootloader.ZoneDevice

/-!
## The reports of the USB hosts

* `report_makeCmd`: the report of a command starts with its packet, whatever `hid_tx_buf` held.
* `received_readDeice`: when the first report that comes is a packet, its decrypted payload is in
  `hid_rx_buf` and `dev_cmd_ops`, whatever they held; `replyBytes_run` is what the reply checks then
  get.
-/

namespace FwBootloader.Hid

open Bytes User

/-! ### Commands -/

theorem crc16_eq (bytes : List UInt8) : crc16 bytes = Crc16.xmodem bytes :=
  Uart.chipCrc16_eq bytes

/-- **The checksums of the hosts are one function**, the bit-serial CRC-16/XMODEM. -/
theorem checksums_agree (bytes : List UInt8) :
    Uart.chipCrc16 bytes = Crc16.xmodem bytes ∧ crc16 bytes = Crc16.xmodem bytes ∧
      Uart.crc16 bytes = Crc16.xmodem bytes := by
  have hnibbles := Uart.chipCrc16_eq bytes
  have hbytes := Uart.crc16_eq bytes
  exact ⟨hnibbles, crc16_eq bytes, hbytes⟩

variable (p : Port)

theorem makeCommand_eq (hidTxBuf : Mem) (opcode : UInt8) (bodys : List (List UInt8)) :
    p.makeCommand hidTxBuf opcode bodys
      = hidTxBuf.write 0 (p.reportNumber ++ xmodemPacket.encode
          (xorKey communicationKey (opcode :: jlSuRspSucc :: bodys.flatten))) := by
  rw [← layout_eq]
  simp only [Port.makeCommand, crc16_eq]
  rfl

/-- `hid_tx_buf` holds the command's packet behind the report number. -/
theorem makeCmd_eq (hidTxBuf : Mem) (c : Cmd) :
    p.makeCmd hidTxBuf c
      = hidTxBuf.write 0
          (p.reportNumber ++ xmodemPacket.encode (xorKey communicationKey c.payload)) := by
  have happ (l₁ l₂ l₃ : List UInt8) : l₁ ++ (l₂ ++ l₃) = l₁ ++ l₂ ++ l₃ :=
    (List.append_assoc ..).symm
  cases c <;>
    simp only [Port.makeCmd, Port.makeDeviceInitCmd, Port.makeWriteCmd, makeCommand_eq,
      List.flatten_cons, List.flatten_nil, List.append_nil, happ] <;>
    rfl

/-- **The report of a command starts with its packet.** -/
theorem report_makeCmd (hidTxBuf : Mem) {c : Cmd} (h : c.payload.length ≤ 58) :
    ∃ trailing, p.report (p.makeCmd hidTxBuf c)
      = xmodemPacket.encode (xorKey communicationKey c.payload) ++ trailing := by
  set frame := xmodemPacket.encode (xorKey communicationKey c.payload) with hframe
  have hlen : frame.length = 6 + c.payload.length := by
    rw [hframe, Framing.Format.length_encode, length_xorKey]
  set n := p.reportNumber.length with hn
  have hinside : (hidTxBuf.write 0 (p.reportNumber ++ frame)).bytes n frame.length = frame := by
    have hin := @Mem.bytes_write_inside hidTxBuf 0 n frame.length (p.reportNumber ++ frame)
      (by rw [List.length_append])
    rw [Nat.zero_add, List.drop_left] at hin
    rw [hin]
    exact List.take_length
  refine ⟨(hidTxBuf.write 0 (p.reportNumber ++ frame)).bytes (n + frame.length)
    (64 - frame.length), ?_⟩
  rw [Port.report, makeCmd_eq, ← hframe, ← hn,
    show 64 = frame.length + (64 - frame.length) by omega, Mem.bytes_add, hinside,
    Nat.add_sub_cancel' (by omega)]

/-! ### Replies -/

/-- A reply's payload is where the host looks for it. -/
structure Received (s : State) (payload : List UInt8) : Prop where
  cmdLen : s.cmdLen = payload.length
  buf : s.hidRxBuf.bytes 4 payload.length = payload
  ops : ∀ i < payload.length, 4 + i < sizeofCommandDevItem →
    s.devCmdOps.getD (4 + i) 0 = payload.getD i 0

/-- Decrypting more than the payload decrypts the payload. -/
theorem xorKey_append_left (key : UInt32) (l₁ l₂ : List UInt8) :
    (xorKey key (l₁ ++ l₂)).take l₁.length = xorKey key l₁ := by
  apply List.ext_getElem (by simp [xorKey])
  intro i h₁ h₂
  simp only [length_xorKey] at h₂
  simp [xorKey, List.getElem_append_left h₂]

/-- One poll that reads. -/
theorem readLoop_cons (timeout : ℕ) (r : List UInt8) (reads : List (List UInt8)) (s : State) :
    p.readLoop (timeout + 1) (r :: reads) s =
      let buf := s.hidRxBuf.write 0 (p.stored r)
      if (p.stored r).length ≥ 64 then
        let buf := buf.write 4 (decodeCommand (buf.bytes 4 60))
        { hidRxBuf := buf, devCmdOps := buf.bytes 0 sizeofCommandDevItem }
      else p.readLoop timeout reads { s with hidRxBuf := buf } := rfl

/-- Polls that read nothing change nothing. -/
theorem readLoop_nothing {timeout k : ℕ} (hk : k < timeout) (reads : List (List UInt8))
    (s : State) :
    p.readLoop timeout (List.replicate k [] ++ reads) s = p.readLoop (timeout - k) reads s := by
  induction k generalizing timeout with
  | zero => rfl
  | succ k ih =>
    cases timeout with
    | zero => exact absurd hk (Nat.not_lt_zero _)
    | succ timeout =>
      rw [List.replicate_succ, List.cons_append, readLoop_cons]
      dsimp only
      rw [p.stored_nil, if_neg (by decide), Mem.write_nil, ih (by omega), Nat.add_sub_add_right]

/-- **A packet that comes in time is received**, whatever the two globals held before. -/
theorem received_readDeice {payload rest : List UInt8} (hpayload : payload.length ≤ 58) {k : ℕ}
    (hk : k < 3000)
    (hrest : (xmodemPacket.encode (xorKey communicationKey payload) ++ rest).length = 64)
    (reads : List (List UInt8)) (s : State) :
    Received (p.readDeice (List.replicate k [] ++
      (xmodemPacket.encode (xorKey communicationKey payload) ++ rest) :: reads) s) payload := by
  set r := xmodemPacket.encode (xorKey communicationKey payload) ++ rest with hr
  set buf := s.hidRxBuf.write 0 r with hbuf
  set plain := decodeCommand (buf.bytes 4 60) with hplain
  have hread : p.readDeice (List.replicate k [] ++ r :: reads) s
      = { hidRxBuf := buf.write 4 plain
          devCmdOps := (buf.write 4 plain).bytes 0 sizeofCommandDevItem } := by
    have hstored : p.stored r = r := p.stored_report r hrest
    rw [Port.readDeice, readLoop_nothing p hk, show 3000 - k = (3000 - k - 1) + 1 by omega,
      readLoop_cons]
    dsimp only
    rw [hstored, if_pos (by omega)]
  -- the body of the report is the encrypted payload and what follows
  have hdrop : r.drop 4 = xorKey communicationKey payload ++
      (le16 (xmodemPacket.crc (xmodemPacket.header payload.length ++
        xorKey communicationKey payload)) ++ rest) := by
    rw [hr, Framing.Format.encode, length_xorKey, List.append_assoc, List.append_assoc,
      List.drop_left' (xmodemPacket.length_header payload.length)]
  have hbody : buf.bytes 4 60 = r.drop 4 := by
    have h := @Mem.bytes_write_inside s.hidRxBuf 0 4 60 r (by omega)
    rw [Nat.zero_add] at h
    rw [hbuf, h]
    exact List.take_of_length_le (by rw [List.length_drop]; omega)
  have hplen : plain.length = 60 := by
    rw [hplain, decodeCommand, length_xorKey, Mem.length_bytes]
  have htake : plain.take payload.length = payload := by
    have h := xorKey_append_left communicationKey (xorKey communicationKey payload)
      (le16 (xmodemPacket.crc (xmodemPacket.header payload.length ++
        xorKey communicationKey payload)) ++ rest)
    rw [length_xorKey, xorKey_xorKey] at h
    rw [hplain, decodeCommand, hbody, hdrop]
    exact h
  have hstored : (buf.write 4 plain).bytes 4 payload.length = payload := by
    have h := Mem.bytes_write_self buf 4 plain
    rw [← Mem.take_bytes _ _ (show payload.length ≤ plain.length by omega), h, htake]
  have hget (i : ℕ) (hi : i < sizeofCommandDevItem) :
      ((buf.write 4 plain).bytes 0 sizeofCommandDevItem).getD i 0 = buf.write 4 plain i := by
    rw [List.getD_eq_getElem _ _ (by rw [Mem.length_bytes]; exact hi), Mem.getElem_bytes,
      Nat.zero_add]
  have hhead (i : ℕ) (hi : i < 4) : buf.write 4 plain i = r.getD i 0 := by
    have hin := @Mem.write_of_inside s.hidRxBuf 0 i r (by omega)
    rw [Nat.zero_add] at hin
    rw [Mem.write_of_outside buf (Or.inl hi), hbuf, hin, List.getD_eq_getElem]
  rw [hread]
  refine ⟨?_, hstored, fun i hi hlt => ?_⟩
  · have hdeclared := xmodemPacket.declared_encode
      (p := xorKey communicationKey payload) (by rw [length_xorKey]; omega)
    rw [length_xorKey] at hdeclared
    rw [State.cmdLen]
    dsimp only
    rw [hget 2 (by decide), hget 3 (by decide), hhead 2 (by decide), hhead 3 (by decide),
      ← hdeclared]
    rfl
  · dsimp only
    rw [hget (4 + i) hlt, List.getD_eq_getElem _ _ hi]
    have h := Mem.getElem_bytes (buf.write 4 plain) 4 payload.length i
      (by rw [Mem.length_bytes]; exact hi)
    rw [← h]
    simp only [hstored]

/-- What the reply checks get: the payload and the two bytes behind it. -/
theorem replyBytes_run {s : State} {payload : List UInt8} (h : Received s payload)
    (hlen : payload.length ≤ 58) :
    ∃ bin, p.replyBytes.run s = .done (bin, s) ∧ bin.length = payload.length + 2 ∧
      bin.take payload.length = payload := by
  refine ⟨s.hidRxBuf.bytes 4 (2 + s.cmdLen), ?_, ?_, ?_⟩
  · have hsize := p.rxSize_cases
    show (if 4 + (2 + s.cmdLen) > p.rxSize then abort .replyOutOfBounds
      else pure (s.hidRxBuf.bytes 4 (2 + s.cmdLen)) : HidM (List UInt8)) s = _
    rw [h.cmdLen, if_neg (by omega)]
    rfl
  · rw [Mem.length_bytes, h.cmdLen, Nat.add_comm]
  · rw [h.cmdLen, Mem.take_bytes _ _ (by omega), h.buf]

end FwBootloader.Hid
