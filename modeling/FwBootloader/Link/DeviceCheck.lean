import FwBootloader.Link.ReplyRoundTrip
import FwBootloader.User.Equiv.ReplyHistory

/-!
## The device's identity on its way to the host

`jl_su_devcie_check` puts `vid`, `pid` and `sdk_id` into its reply and the packet reaches the host
unchanged, but `isReplyDeviceCheckCmd` copies to `&vid` and `&pid`, the addresses of its own
parameters.  `deviceCheck_lost`: the caller's arrays never get the identity.
-/

namespace FwBootloader

open Bytes User Uart

variable {σ : Type} {chip : Chip σ}

/-- The plaintext of a successful device check reply. -/
def checkReply (vid : Vector UInt8 4) (pid : Vector UInt8 16) (sdkId : UInt32) : List UInt8 :=
  User.jlSuCmdDeviceCheck :: jlSuCmdSuss :: (vid.toList ++ pid.toList ++ le32 sdkId)

/-- From the bytes that have come in `chunks` the host decodes one payload, takes it for a device
check reply, and has stored the identity in the caller's arrays `vid'`, `pid'` and variable, and
nothing anywhere else. -/
def ReceivesIdentity (key : UInt32) (chunks : List (List UInt8)) (vid : Vector UInt8 4)
    (pid : Vector UInt8 16) (sdkId : UInt32) (vid' pid' : List UInt8) : Prop :=
  ∃ bin r, (receive ⟨[], []⟩ chunks).rawRemoteCmdQueue.reverse.map (decodeCommand · key) = [bin] ∧
    isReplyDeviceCheckCmd bin vid' pid' = .ok r ∧ r.vid = vid.toList ∧ r.pid = pid.toList ∧
    r.sdkId = sdkId ∧ r.vidParam = [] ∧ r.pidParam = []

/-- A reply that is accepted overwrites 4 and 16 bytes from the addresses of the parameters on, and
leaves the caller's arrays as they are. -/
theorem stores_of_isReplyDeviceCheckCmd {bin vid pid : List UInt8} {r : DeviceCheckReply}
    (h : isReplyDeviceCheckCmd bin vid pid = .ok r) :
    r.vid = vid ∧ r.pid = pid ∧ r.vidParam.length = 4 ∧ r.pidParam.length = 16 := by
  unfold isReplyDeviceCheckCmd at h
  split_ifs at h with hlen hop
  obtain rfl := Except.ok.inj h
  rw [not_not] at hlen
  refine ⟨rfl, rfl, ?_, ?_⟩
  · rw [List.length_take, List.length_drop, hlen]
    rfl
  · rw [List.length_take, List.length_drop, hlen]
    rfl

theorem not_receivesIdentity (key : UInt32) (chunks : List (List UInt8)) (vid : Vector UInt8 4)
    (pid : Vector UInt8 16) (sdkId : UInt32) (vid' pid' : List UInt8) :
    ¬ ReceivesIdentity key chunks vid pid sdkId vid' pid' := by
  rintro ⟨bin, r, -, hr, -, -, -, hvid, -⟩
  obtain ⟨-, -, hlen, -⟩ := stores_of_isReplyDeviceCheckCmd hr
  rw [hvid] at hlen
  cases hlen

/-- The host decodes such a reply and accepts it; only the `sdk_id` arrives where it belongs. -/
theorem checkReply_received {key sdkId : UInt32} {vid : Vector UInt8 4} {pid : Vector UInt8 16}
    {chunks : List (List UInt8)}
    (hchunks : chunks.flatten = xmodemPacket.encode (xorKey key (checkReply vid pid sdkId)))
    (vid' pid' : List UInt8) :
    (receive ⟨[], []⟩ chunks).rawRemoteCmdQueue.reverse.map (decodeCommand · key)
        = [checkReply vid pid sdkId] ∧
      isReplyDeviceCheckCmd (checkReply vid pid sdkId) vid' pid'
        = .ok ⟨vid', pid', sdkId, vid.toList, pid.toList⟩ := by
  constructor
  · apply decoded_eq
    · intro p hp
      obtain rfl := List.mem_singleton.mp hp
      refine ⟨List.cons_ne_nil _ _, ?_⟩
      simp [checkReply]
    · rw [hchunks, List.map_singleton, List.flatten_singleton]
  · have h := isReplyDeviceCheckCmd_ok (vid.toList ++ pid.toList) (by simp) sdkId vid' pid'
    have htake : (vid.toList ++ pid.toList).take 4 = vid.toList := List.take_left' (by simp)
    have hdrop : ((vid.toList ++ pid.toList).drop 4).take 16 = pid.toList := by
      rw [List.drop_left' (by simp), List.take_of_length_le (by simp)]
    rw [htake, hdrop] at h
    exact h

/-- The device's reply to a device check for its own product. -/
theorem repliesTo_deviceCheck {d e : Device σ} {chunk : List UInt8}
    (hacc : accepted chip chunk d = some e) (hop : e.opcode = User.jlSuCmdDeviceCheck)
    (hown : e.cmd32 CommandItem.deviceCheckSdkId = 0x12345678) :
    repliesTo chip chunk d = [replyFrame chip (checkReply (chip.jlfsGetPidVid e.fs).2
      (chip.jlfsGetPidVid e.fs).1 0x12345678)] := by
  have hfits : ∀ e', accepted chip chunk d = some e' → CrcReplyFits e' := by
    intro e' he' hcrc
    obtain rfl := Option.some.inj (hacc.symm.trans he')
    rw [hop] at hcrc
    exact absurd hcrc (by decide)
  obtain ⟨stop, d', as, hrun, hsent, -⟩ := upgradeTurn_spec chip hfits
  have hans : turnAnswer chip chunk d = some (.deviceCheck (chip.jlfsGetPidVid e.fs).2
      (chip.jlfsGetPidVid e.fs).1) := by
    rw [turnAnswer, hacc, Option.bind_some, answerOf, hop, if_neg (by decide), if_neg (by decide),
      if_neg (by decide), if_neg (by decide), if_pos rfl, deviceCheckAnswer, if_pos hown]
  rw [repliesTo, after_of_ok hrun, hsent, hans, List.drop_left]
  rfl

/-- **The identity never reaches the caller's arrays**, although the reply to a device check arrives
unchanged and is accepted; whatever identity a reply carries, the two copies go elsewhere. -/
theorem deviceCheck_lost (hcrc : chip.chipCrc16 = Crc16.xmodem) {d e : Device σ}
    {chunk : List UInt8} (hacc : accepted chip chunk d = some e)
    (hop : e.opcode = User.jlSuCmdDeviceCheck)
    (hown : e.cmd32 CommandItem.deviceCheckSdkId = 0x12345678) :
    repliesTo chip chunk d = [xmodemPacket.encode (xorKey chip.communicationKey
        (checkReply (chip.jlfsGetPidVid e.fs).2 (chip.jlfsGetPidVid e.fs).1 0x12345678))] ∧
      ∀ (vid : Vector UInt8 4) (pid : Vector UInt8 16) (sdkId : UInt32)
        (chunks : List (List UInt8)),
        chunks.flatten
            = xmodemPacket.encode (xorKey chip.communicationKey (checkReply vid pid sdkId)) →
          ∀ vid' pid', ¬ ReceivesIdentity chip.communicationKey chunks vid pid sdkId vid' pid' ∧
            (receive ⟨[], []⟩ chunks).rawRemoteCmdQueue.reverse.map
                (decodeCommand · chip.communicationKey) = [checkReply vid pid sdkId] ∧
            isReplyDeviceCheckCmd (checkReply vid pid sdkId) vid' pid'
              = .ok ⟨vid', pid', sdkId, vid.toList, pid.toList⟩ := by
  constructor
  · rw [repliesTo_deviceCheck hacc hop hown, replyFrame, hcrc, xmodemPacket]
  · intro vid pid sdkId chunks hchunks vid' pid'
    exact ⟨not_receivesIdentity _ _ _ _ _ _ _, checkReply_received hchunks vid' pid'⟩

/-- The sample device is asked. -/
theorem deviceCheck_lost_sample :
    repliesTo sampleChip (samplePacket sampleCheck) sampleDevice
        = [xmodemPacket.encode (xorKey sampleChip.communicationKey
          (checkReply (Vector.replicate 4 0) (Vector.replicate 16 0) 0x12345678))] ∧
      ∀ (vid : Vector UInt8 4) (pid : Vector UInt8 16) (sdkId : UInt32)
        (chunks : List (List UInt8)),
        chunks.flatten = xmodemPacket.encode
            (xorKey sampleChip.communicationKey (checkReply vid pid sdkId)) →
          ∀ vid' pid',
            ¬ ReceivesIdentity sampleChip.communicationKey chunks vid pid sdkId vid' pid' ∧
            (receive ⟨[], []⟩ chunks).rawRemoteCmdQueue.reverse.map
                (decodeCommand · sampleChip.communicationKey) = [checkReply vid pid sdkId] ∧
            isReplyDeviceCheckCmd (checkReply vid pid sdkId) vid' pid'
              = .ok ⟨vid', pid', sdkId, vid.toList, pid.toList⟩ :=
  deviceCheck_lost rfl (accepted_sample sampleCheck (by decide) (by decide)) (by decide) (by decide)

/-- A device with the vendor bytes 1 to 4 is asked, and the caller's zeros stay. -/
theorem deviceCheck_zeros :
    let vid : Vector UInt8 4 := #v[1, 2, 3, 4]
    let pid : Vector UInt8 16 := Vector.replicate 16 5
    ¬ ReceivesIdentity 0xC0FFEE
        [xmodemPacket.encode (xorKey 0xC0FFEE (checkReply vid pid 0x12345678))] vid pid 0x12345678
        (List.replicate 4 0) (List.replicate 16 0) ∧
      ∃ r, isReplyDeviceCheckCmd (checkReply vid pid 0x12345678) (List.replicate 4 0)
        (List.replicate 16 0) = .ok r ∧ r.vid = [0, 0, 0, 0] := by
  intro vid pid
  exact ⟨not_receivesIdentity _ _ _ _ _ _ _, _, rfl, rfl⟩

end FwBootloader
