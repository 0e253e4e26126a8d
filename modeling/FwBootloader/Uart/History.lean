import FwBootloader.Uart.UpdateThread

/-!
## What a run of the updater has seen

The history of a run is the list of its completed exchanges.  `failed` is the updater's own verdict
on one of them, `ReplyFits` are the commands that can be answered, `Started` says that it begins
with the accepted replies to the device init and check commands, and `Fetched` that some exchanges
are a complete reading of the chip's checksums.
-/

namespace FwBootloader.Uart

/-- A command and what came back: the decrypted payload, or nothing within the timeout. -/
abbrev Exchange : Type := Cmd × Option (List UInt8)

/-- Nothing came back, the `isReply…` function rejects it, or the device reports an error.  What
comes back after the reboot command is not looked at. -/
def failed : Exchange → Bool
  | (_, none) => true
  | (.deviceInit _ _, some cmd) => !(isReplyDeviceInitCmd cmd).isOk
  | (.deviceCheck _, some cmd) =>
    !(isReplyDeviceCheckCmd cmd (List.replicate 4 0) (List.replicate 16 0)).isOk
  | (.erase _ _, some cmd) => isReplyEraseCmd cmd ≠ some jlSuRspSucc
  | (.write _ _ _, some cmd) => isReplyWriteCmd cmd ≠ some jlSuRspSucc
  | (.flashCrc _ len blockSize, some cmd) => !(isReplyFlashCrcCmd cmd (len / blockSize)).isOk
  | (.reboot, some _) => false

/-- The command can be answered: a list of checksums is one that a reply can hold. -/
def ReplyFits : Cmd → Prop
  | .flashCrc _ len blockSize => blockSize ≠ 0 ∧ (len / blockSize).toNat ≤ 16
  | _ => True

/-- The command is answered by the device. -/
def Answerable (c : Cmd) : Prop :=
  c ≠ .reboot ∧ ReplyFits c

/-- The run has begun with an accepted reply to the device init command, which was `app`, and an
accepted reply to the device check command. -/
def Started (app : DeviceInitInfo) (h : List Exchange) : Prop :=
  ∃ reply reply' checked h',
    h = (.deviceInit "app_dir_head" 0, some reply) :: (.deviceCheck 0x12345678, some reply') :: h' ∧
    isReplyDeviceInitCmd reply = .ok app ∧
    isReplyDeviceCheckCmd reply' (List.replicate 4 0) (List.replicate 16 0) = .ok checked

/-- The exchanges are a complete reading of the checksums of `count` units from `address` on: each
request asks for the next `n` of them, and its reply is accepted and holds `n` checksums. -/
inductive Fetched (unit : UInt32) : UInt32 → ℕ → List UInt16 → List Exchange → Prop where
  | nil (address : UInt32) : Fetched unit address 0 [] []
  | batch {address n : UInt32} {count : ℕ} {reply : List UInt8} {crcs rest : List UInt16}
      {t : List Exchange} (hreply : isReplyFlashCrcCmd reply n = .ok crcs)
      (hrest : Fetched unit (address + n * unit) count rest t) :
      Fetched unit address (n.toNat + count) (crcs ++ rest)
        ((.flashCrc address (n * unit) unit, some reply) :: t)

theorem Started.append {app : DeviceInitInfo} {h : List Exchange} (hs : Started app h)
    (t : List Exchange) : Started app (h ++ t) := by
  obtain ⟨reply, reply', checked, h', rfl, hinit, hcheck⟩ := hs
  exact ⟨reply, reply', checked, h' ++ t, rfl, hinit, hcheck⟩

end FwBootloader.Uart
