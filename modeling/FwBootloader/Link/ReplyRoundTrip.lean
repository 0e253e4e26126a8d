import FwBootloader.Uart.Equiv.PhySerialThread
import FwBootloader.Uart.UpdateThread
import FwBootloader.User.Equiv.Loop
import FwBootloader.User.Equiv.Safety

/-!
## From the device's replies to the host's `isReply…` functions

`replies_received`: over a whole run of the device's loop, and however the bytes it sends are cut
into chunks, the host decodes exactly the answers to the accepted commands, in order; what the
handlers have put into a reply is what `isReplyDeviceInitCmd` and its like recover.
-/

namespace FwBootloader

open Bytes User Uart

variable {σ : Type} (chip : Chip σ)

/-- The host's check of a reply recovers what the handler has put into it.  The host has no check
for the reply about the dual-bank checksum, which it never asks for. -/
def Recovered (a : Answer) : Prop :=
  match a with
  | .deviceInit upgradeAddr upgradeLen eoffset alignsize =>
    isReplyDeviceInitCmd a.payload = .ok ⟨upgradeAddr, upgradeLen, eoffset, alignsize⟩
  | .deviceInitError => isReplyDeviceInitCmd a.payload = .error (some jlSuCmdOtherError)
  | .flashCrc crcs => isReplyFlashCrcCmd a.payload (UInt32.ofNat crcs.length) = .ok crcs
  | .write status => isReplyWriteCmd a.payload = some status
  | .erase status => isReplyEraseCmd a.payload = some status
  | .deviceCheck vid pid =>
    ∀ vid' pid', isReplyDeviceCheckCmd a.payload vid' pid'
      = .ok ⟨vid', pid', 0x12345678, vid.toList, pid.toList⟩
  | .deviceCheckError _ =>
    ∀ vid' pid', (isReplyDeviceCheckCmd a.payload vid' pid').toOption = none
  | .dualBank => True

theorem isReplyDeviceInitCmd_payload (a b c e : UInt32) :
    isReplyDeviceInitCmd (Answer.deviceInit a b c e).payload = .ok ⟨a, b, c, e⟩ := by
  have h (v : UInt32) := ofLe32_le32 v
  have hwords : isReplyDeviceInitCmd (Answer.deviceInit a b c e).payload
      = .ok ⟨ofLe32 a.toUInt8 (a >>> 8).toUInt8 (a >>> 16).toUInt8 (a >>> 24).toUInt8,
        ofLe32 b.toUInt8 (b >>> 8).toUInt8 (b >>> 16).toUInt8 (b >>> 24).toUInt8,
        ofLe32 c.toUInt8 (c >>> 8).toUInt8 (c >>> 16).toUInt8 (c >>> 24).toUInt8,
        ofLe32 e.toUInt8 (e >>> 8).toUInt8 (e >>> 16).toUInt8 (e >>> 24).toUInt8⟩ := rfl
  rw [hwords, h, h, h, h]

theorem isReplyFlashCrcCmd_payload {crcs : List UInt16} (h : crcs.length < 2 ^ 31 - 1) :
    isReplyFlashCrcCmd (Answer.flashCrc crcs).payload (UInt32.ofNat crcs.length) = .ok crcs := by
  have hlen : UInt32.ofNat (Answer.flashCrc crcs).payload.length
      = 1 + 1 + 2 * UInt32.ofNat crcs.length := by
    rw [Answer.payload, Answer.body, List.length_cons, List.length_cons, length_le16s,
      UInt32.ofNat_add, UInt32.ofNat_add, UInt32.ofNat_mul, UInt32.add_assoc, UInt32.add_comm]
    rfl
  have htake : (UInt32.ofNat crcs.length * 2).toNat = (le16s crcs).length := by
    have hcrcs : (UInt32.ofNat crcs.length).toNat = crcs.length :=
      UInt32.toNat_ofNat_of_lt' (show _ < 2 ^ 32 by omega)
    rw [UInt32.toNat_mul, hcrcs, length_le16s, Nat.mul_comm]
    exact Nat.mod_eq_of_lt (show 2 * crcs.length < 2 ^ 32 by omega)
  have hop : ¬ ((Answer.flashCrc crcs).payload.getD 0 0 ≠ Uart.jlSuCmdFlashCrc ∨
      (Answer.flashCrc crcs).payload.getD 1 0 ≠ jlSuRspSucc) :=
    not_or.mpr ⟨not_not.mpr rfl, not_not.mpr rfl⟩
  have hdrop : (Answer.flashCrc crcs).payload.drop 2 = le16s crcs := rfl
  rw [isReplyFlashCrcCmd, if_neg (not_not.mpr hlen), if_neg hop, hdrop, htake, List.take_length,
    ofLe16s_le16s]

/-- The identity and the `sdk_id` of a device check reply. -/
theorem isReplyDeviceCheckCmd_ok (id : List UInt8) (hid : id.length = 20) (sdkId : UInt32)
    (vid pid : List UInt8) :
    isReplyDeviceCheckCmd (0xC1 :: 0 :: (id ++ le32 sdkId)) vid pid
      = .ok ⟨vid, pid, sdkId, id.take 4, (id.drop 4).take 16⟩ := by
  set bin := 0xC1 :: 0 :: (id ++ le32 sdkId) with hbin
  have hlen : bin.length = 1 + 1 + 4 + 16 + 4 := by simp [hbin, hid]
  have hop : ¬ (bin.getD 0 0 ≠ Uart.jlSuCmdDeviceCheck ∨ bin.getD 1 0 ≠ jlSuRspSucc) :=
    not_or.mpr ⟨not_not.mpr rfl, not_not.mpr rfl⟩
  have hget (k : ℕ) : bin.getD (22 + k) 0 = (le32 sdkId).getD k 0 := by
    rw [hbin, show 22 + k = (20 + k) + 1 + 1 by omega, List.getD_cons_succ, List.getD_cons_succ,
      List.getD_append_right _ _ _ _ (by omega), hid, Nat.add_sub_cancel_left]
  have htake : (bin.drop 2).take 4 = id.take 4 :=
    List.take_append_of_le_length (by omega)
  have hdrop : (bin.drop (2 + 4)).take 16 = (id.drop 4).take 16 := by
    have h : bin.drop (2 + 4) = (id ++ le32 sdkId).drop 4 := rfl
    rw [h, List.drop_append_of_le_length (by omega), List.take_append_of_le_length (by simp [hid])]
  rw [isReplyDeviceCheckCmd, if_neg (not_not.mpr hlen), if_neg hop, htake, hdrop, hget 0, hget 1,
    hget 2, hget 3]
  exact congrArg (fun k => Except.ok (DeviceCheckReply.mk vid pid k _ _)) (ofLe32_le32 sdkId)

/-- Every answer with at most 16 checksums is recovered. -/
theorem recovered {a : Answer} (h : ∀ crcs, a = .flashCrc crcs → crcs.length ≤ 16) :
    Recovered a := by
  cases a with
  | deviceInit a b c e => exact isReplyDeviceInitCmd_payload a b c e
  | deviceInitError => rfl
  | flashCrc crcs =>
    have hlen := h crcs rfl
    exact isReplyFlashCrcCmd_payload (by omega)
  | write st => rfl
  | erase st => rfl
  | deviceCheck v p =>
    intro vid pid
    have h := isReplyDeviceCheckCmd_ok (v.toList ++ p.toList) (by simp) 0x12345678 vid pid
    have htake : (v.toList ++ p.toList).take 4 = v.toList := List.take_left' (by simp)
    have hdrop : ((v.toList ++ p.toList).drop 4).take 16 = p.toList := by
      rw [List.drop_left' (by simp), List.take_of_length_le (by simp)]
    rw [htake, hdrop] at h
    exact h
  | deviceCheckError stale =>
    intro vid pid
    rw [isReplyDeviceCheckCmd]
    split_ifs with hlen hop
    · rfl
    · rfl
    · exact absurd (show jlSuCmdSdkIdError ≠ jlSuRspSucc by decide) fun h => hop (Or.inr h)
  | dualBank => trivial

/-- However the packets of some payloads are cut into chunks, the host decodes the payloads. -/
theorem decoded_eq {key : UInt32} {ps : List (List UInt8)}
    (hps : ∀ p ∈ ps, p ≠ [] ∧ p.length < 2 ^ 16) {chunks : List (List UInt8)}
    (hchunks : chunks.flatten = (ps.map fun p => xmodemPacket.encode (xorKey key p)).flatten) :
    (receive ⟨[], []⟩ chunks).rawRemoteCmdQueue.reverse.map (decodeCommand · key) = ps := by
  have hstream : chunks.flatten = (ps.map (xorKey key)).flatMap xmodemPacket.encode := by
    rw [hchunks, List.flatMap_def, List.map_map]
    rfl
  have hxor : ∀ p ∈ ps.map (xorKey key), p ≠ [] ∧ p.length < 2 ^ 16 := by
    intro p hp
    obtain ⟨q, hq, rfl⟩ := List.mem_map.mp hp
    obtain ⟨hne, hlen⟩ := hps q hq
    rw [← List.length_pos_iff, length_xorKey, List.length_pos_iff]
    exact ⟨hne, hlen⟩
  rw [receive_queue_of_empty, List.append_nil, List.reverse_reverse, hstream,
    xmodemPacket.scan_flatMap_encode hxor, List.map_map]
  have hid : (decodeCommand · key) ∘ xorKey key = id := funext fun p => xorKey_xorKey key p
  rw [hid, List.map_id]

/-- **Round trip of the replies over a whole run.** -/
theorem replies_received (hcrc : chip.chipCrc16 = Crc16.xmodem) (d : Device σ)
    (bufs : List (List UInt8)) (hbufs : CrcCommandsWithin chip 16 bufs d) :
    ∃ d' sent as, upgradeLoop chip bufs d = .ok () d' ∧ d'.sent = d.sent ++ sent ∧
      d'.log = d.log ++ as ∧
      (∀ chunks : List (List UInt8), chunks.flatten = sent.flatten →
        (receive ⟨[], []⟩ chunks).rawRemoteCmdQueue.reverse.map
            (decodeCommand · chip.communicationKey)
          = (answers chip bufs d).map Answer.payload) ∧
      (answers chip bufs d).map Answer.payload = completed as ∧
      ∀ a ∈ answers chip bufs d, Recovered a := by
  obtain ⟨d', as, hrun, hsent, hlog, has⟩ := upgradeLoop_spec chip (by decide) bufs d hbufs
  have hcrcs : ∀ a ∈ answers chip bufs d, ∀ crcs, a = .flashCrc crcs → crcs.length ≤ 16 := by
    rintro a ha crcs rfl
    exact length_of_mem_answers chip hbufs ha
  refine ⟨d', _, as, hrun, hsent, hlog, ?_, has.symm, fun a ha => recovered (hcrcs a ha)⟩
  intro chunks hchunks
  apply decoded_eq
  · intro p hp
    obtain ⟨a, ha, rfl⟩ := List.mem_map.mp hp
    have hlen := length_payload_le fun crcs h => (hcrcs a ha crcs h).trans (by decide)
    exact ⟨List.cons_ne_nil _ _, by omega⟩
  · rw [hchunks, List.map_map]
    simp only [Function.comp_def, replyFrame, hcrc, xmodemPacket]

/-- A flash CRC command for two blocks of 4096 bytes. -/
def sampleFlashCrc : List UInt8 := [0xC4, 0, 0, 0x10, 0, 0, 0, 0x20, 0, 0, 0, 0x10, 0, 0]

theorem crcCommandsWithin_sample :
    CrcCommandsWithin sampleChip 16 [samplePacket sampleFlashCrc] sampleDevice := by
  have hacc : accepted sampleChip (samplePacket sampleFlashCrc) sampleDevice
      = some (sampleAccepted sampleFlashCrc) := by
    rw [accepted]
    exact congrArg (Option.map _) (sampleAccepted_spec sampleFlashCrc (by decide) (by decide)).1
  refine ⟨fun d₁ hd₁ _ => ?_, by split <;> trivial⟩
  obtain rfl := Option.some.inj (hacc.symm.trans hd₁)
  exact ⟨by decide, by decide⟩

/-- The two checksums of the sample device reach its host. -/
theorem replies_received_sample :
    ∃ d' sent as, upgradeLoop sampleChip [samplePacket sampleFlashCrc] sampleDevice = .ok () d' ∧
      d'.sent = sampleDevice.sent ++ sent ∧ d'.log = sampleDevice.log ++ as ∧
      (∀ chunks : List (List UInt8), chunks.flatten = sent.flatten →
        (receive ⟨[], []⟩ chunks).rawRemoteCmdQueue.reverse.map
            (decodeCommand · sampleChip.communicationKey)
          = (answers sampleChip [samplePacket sampleFlashCrc] sampleDevice).map Answer.payload) ∧
      (answers sampleChip [samplePacket sampleFlashCrc] sampleDevice).map Answer.payload
        = completed as ∧
      ∀ a ∈ answers sampleChip [samplePacket sampleFlashCrc] sampleDevice, Recovered a :=
  replies_received sampleChip rfl sampleDevice _ crcCommandsWithin_sample

end FwBootloader
