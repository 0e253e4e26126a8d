import FwBootloader.Link.Equiv.Device
import FwBootloader.Link.Uart
import FwBootloader.Uart.Equiv.Command
import FwBootloader.Uart.Equiv.PhySerialThread

/-!
## The device as the serial host sees it

`simulates_serve`: over a lossless link with equal keys, the exchanges with the device's own loop
are those with the `ZoneDevice`, for all commands that `Fits` allows; these are all that the updater
sends.
-/

namespace FwBootloader

open Bytes User Uart Framing

variable (z : Zone) (key : UInt32)

/-! ### One exchange -/

/-- The receiver holds no payload and no bytes that would show up later. -/
structure Ready (r : PhySerialThread) : Prop where
  queue : r.rawRemoteCmdQueue = []
  scan : ∀ t, xmodemPacket.scan (r.alreadyReadBuffer ++ t) = xmodemPacket.scan t
  length : r.alreadyReadBuffer.length ≤ maxBuffered

/-- A packet, however it is cut, leaves its payload in the queue and the receiver ready for more. -/
theorem Ready.receive_encode {r : PhySerialThread} (hr : Ready r) {p : List UInt8} (hp : p ≠ [])
    (hlen : p.length < 2 ^ 16) {chunks : List (List UInt8)}
    (hchunks : chunks.flatten = xmodemPacket.encode p) :
    (receive r chunks).rawRemoteCmdQueue = [p] ∧
      Ready { receive r chunks with rawRemoteCmdQueue := [] } := by
  have hnone : xmodemPacket.scan r.alreadyReadBuffer = [] := by
    rw [← List.append_nil r.alreadyReadBuffer, hr.scan, xmodemPacket.scan_nil]
  obtain ⟨ps, hq, hscan, hnone', hlen'⟩ := receive_spec r chunks hnone hr.length
  have hps (t : List UInt8) : p :: xmodemPacket.scan t
      = ps ++ xmodemPacket.scan ((receive r chunks).alreadyReadBuffer ++ t) := by
    rw [← hscan, hr.scan, hchunks, xmodemPacket.scan_encode_append hp hlen]
  have hone : ps = [p] := by
    have h := hps []
    rw [xmodemPacket.scan_nil, List.append_nil, hnone', List.append_nil] at h
    exact h.symm
  subst hone
  refine ⟨by rw [hq, hr.queue]; rfl, rfl, fun t => ?_, hlen'⟩
  exact (List.cons.inj (hps t)).2.symm

/-- Without bytes nothing is delivered. -/
theorem Ready.receive_nil {r : PhySerialThread} (hr : Ready r) {chunks : List (List UInt8)}
    (hchunks : chunks.flatten = []) : Ready (receive r chunks) := by
  have hnone : xmodemPacket.scan r.alreadyReadBuffer = [] := by
    rw [← List.append_nil r.alreadyReadBuffer, hr.scan, xmodemPacket.scan_nil]
  obtain ⟨ps, hq, hscan, hnone', hlen'⟩ := receive_spec r chunks hnone hr.length
  have hps (t : List UInt8) : xmodemPacket.scan t
      = ps ++ xmodemPacket.scan ((receive r chunks).alreadyReadBuffer ++ t) := by
    rw [← hscan, hr.scan, hchunks, List.nil_append]
  have hzero : ps = [] := by
    have h := hps []
    rw [xmodemPacket.scan_nil, List.append_nil, hnone', List.append_nil] at h
    exact h.symm
  subst hzero
  exact ⟨by rw [hq, hr.queue]; rfl, fun t => (hps t).symm, hlen'⟩

/-- The byte-level system and the abstract device agree. -/
structure Related (s : UartSystem Flash) (t : ZoneDevice) : Prop where
  flash : s.device.fs = t.flash
  running : s.running = t.running
  align : s.device.flashAlignsize = z.alignSize
  ready : Ready s.receiver

/-- A packet is delivered: the answer's payload is in the queue. -/
theorem deliver_spec (link : Chunking) {s : UartSystem Flash} {t : ZoneDevice}
    (hst : Related z s t) (hrun : t.running = true) {c : Cmd} (hfits : Fits c) :
    let s' := s.deliver (norChip z key Crc16.xmodem) link (makeCmd key c)
    s'.receiver.rawRemoteCmdQueue
        = (ZoneDevice.answer z t.flash c).toList.map (fun a => xorKey key a.payload) ∧
      Ready { s'.receiver with rawRemoteCmdQueue := [] } ∧
      s'.device.fs = ZoneDevice.step t.flash c ∧ s'.device.flashAlignsize = z.alignSize ∧
      s'.running = !decide (c = .reboot) := by
  intro s'
  set chip := norChip z key Crc16.xmodem with hchip
  obtain ⟨d', hturn, hsent, hfs, halign⟩ := upgradeTurn_payload z key hfits [] hst.align
  have hmake : makeCmd key c = replyFrame chip c.payload := makeCmd_eq key c
  rw [List.append_nil, ← hmake] at hturn
  rw [hst.flash] at hsent hfs
  have hs' : s' = { device := d'
                    running := !decide (c = .reboot)
                    receiver := receive s.receiver (link.cut s.device.sent.length
                      (d'.sent.drop s.device.sent.length).flatten) } := by
    show UartSystem.deliver chip link s (makeCmd key c) = _
    rw [UartSystem.deliver, if_pos (hst.running.trans hrun), hturn]
    rfl
  rw [hsent, List.drop_left] at hs'
  -- what the device sends, if anything, is one packet
  cases ha : ZoneDevice.answer z t.flash c with
  | none =>
    rw [ha] at hs'
    have hready := hst.ready.receive_nil (link.flatten_cut s.device.sent.length [])
    rw [hs']
    exact ⟨hready.queue, ⟨rfl, hready.scan, hready.length⟩, hfs, halign, rfl⟩
  | some a =>
    rw [ha] at hs'
    have hlen : a.payload.length ≤ 58 := by
      apply length_payload_le
      rintro crcs rfl
      exact (length_of_answer z hfits ha).trans (by decide)
    have hflat := link.flatten_cut s.device.sent.length
      [xmodemPacket.encode (xorKey key a.payload)].flatten
    obtain ⟨hqueue, hready⟩ := hst.ready.receive_encode (p := xorKey key a.payload)
      (by rw [← List.length_pos_iff, length_xorKey]; exact Nat.succ_pos _)
      (by rw [length_xorKey]; omega) (hflat.trans (List.append_nil _))
    rw [hs']
    exact ⟨hqueue, hready, hfs, halign, rfl⟩

/-- An exchange whose delivery leaves the queue `q`. -/
theorem serve_of_queue {chip : Chip Flash} {link : Chunking} {s s' : UartSystem Flash} {c : Cmd}
    {q : List (List UInt8)} (hs' : s.deliver chip link (makeCmd key c) = s')
    (hq : s'.receiver.rawRemoteCmdQueue = q) :
    UartSystem.serve chip link key s c =
      match poll (if shouldReplyFake c then put [] q else q) with
      | none => (none, { s' with
          receiver.rawRemoteCmdQueue := if shouldReplyFake c then put [] q else q })
      | some (cmd, queue) =>
        (some (decodeCommand cmd key), { s' with receiver.rawRemoteCmdQueue := queue }) := by
  rw [← hq, ← hs']
  rfl

theorem shouldReplyFake_of_ne {c : Cmd} (h : c ≠ .reboot) : shouldReplyFake c = false := by
  cases c with
  | reboot => exact absurd rfl h
  | _ => rfl

/-- **Over a lossless link the device is the abstract device.** -/
theorem simulates_serve (link : Chunking) :
    Dialog.Simulates (UartSystem.serve (norChip z key Crc16.xmodem) link key) (ZoneDevice.serve z)
      (Related z) Fits := by
  intro s t c hst hfits
  cases hrun : t.running with
  | true =>
    obtain ⟨hqueue, hready, hfs, halign, hrunning⟩ := deliver_spec z key link hst hrun hfits
    by_cases hc : c = .reboot
    · -- the host's own empty reply
      subst hc
      rw [serve_of_queue key rfl hqueue, ZoneDevice.serve, if_pos rfl]
      exact ⟨rfl, hfs, hrunning, halign, hready⟩
    · cases ha : ZoneDevice.answer z t.flash c with
      | none => exact absurd ha (by cases c <;> simp_all [ZoneDevice.answer])
      | some a =>
        rw [ha] at hqueue
        rw [serve_of_queue key rfl hqueue, shouldReplyFake_of_ne hc, ZoneDevice.serve, if_neg hc,
          if_pos hrun, ha]
        refine ⟨congrArg some (xorKey_xorKey key a.payload), hfs, ?_, halign, hready⟩
        rw [hrun]
        exact hrunning.trans (by rw [decide_eq_false hc]; rfl)
  | false =>
    -- a device that has been rebooted gets nothing more
    have hdeliver : s.deliver (norChip z key Crc16.xmodem) link (makeCmd key c) = s := by
      rw [UartSystem.deliver, if_neg (by rw [hst.running, hrun]; decide)]
    rw [serve_of_queue key hdeliver hst.ready.queue, ZoneDevice.serve]
    by_cases hc : c = .reboot
    · subst hc
      rw [if_pos rfl]
      exact ⟨rfl, hst.flash, hst.running.trans hrun, hst.align, rfl, hst.ready.scan,
        hst.ready.length⟩
    · have hstopped : ¬ t.running = true := by rw [hrun]; decide
      rw [shouldReplyFake_of_ne hc, if_neg hc, if_neg hstopped]
      exact ⟨rfl, hst.flash, hst.running, hst.align, rfl, hst.ready.scan, hst.ready.length⟩

/-- The system before anything has been sent. -/
theorem related_initial (flash : Flash) :
    Related z (UartSystem.initial (norChip z key Crc16.xmodem) flash) ⟨flash, true⟩ :=
  ⟨rfl, rfl, rfl, rfl, fun _ => rfl, Nat.zero_le _⟩

end FwBootloader
