import FwBootloader.Uart.Equiv.Command
import FwBootloader.User.Equiv.Receive

/-!
## From the host's `makeCommand` to the device's `enc_cmd_data`

`encCmdData_makeCommand`: a command packet is found behind any noise without a marker, and the
decrypted buffer holds the opcode, status zero, the length and the body pieces.
-/

namespace FwBootloader

open Bytes User Uart

variable {σ : Type} (chip : Chip σ)

/-- **Round trip of a command**: behind noise without a marker, and whatever follows, the packet of
`makeCommand` is accepted at its offset and its decrypted fields are those it was made from. -/
theorem encCmdData_makeCommand (hcrc : chip.chipCrc16 = Crc16.xmodem) (opcode : UInt8)
    (bodys : List (List UInt8)) (hfits : 8 + bodys.flatten.length ≤ 4128)
    {noise : List UInt8} (hnoise : ¬ [0xAA, 0x55] <:+: noise) (trailing : List UInt8) (buf : Mem) :
    let stream := noise ++ makeCommand chip.communicationKey opcode bodys ++ trailing
    let i := noise.length
    ∃ rx, encCmdData chip (buf.write 0 stream) stream.length = some (i, rx) ∧
      rx (i + CommandItem.cmd) = opcode ∧ rx (i + DevItem.rspStatus) = 0 ∧
      (ofLe16 (rx (i + DevItem.cmdLen)) (rx (i + DevItem.cmdLen + 1))).toNat
        = bodys.flatten.length + 2 ∧
      rx.bytes (i + 6) bodys.flatten.length = bodys.flatten := by
  intro stream i
  set payload := opcode :: jlSuRspSucc :: bodys.flatten with hpayload
  have hlen : payload.length = bodys.flatten.length + 2 := rfl
  have hmake : makeCommand chip.communicationKey opcode bodys
      = (packet chip.chipCrc16).encode (xorKey chip.communicationKey payload) := by
    rw [makeCommand_eq, hcrc, xmodemPacket]
  obtain ⟨hsome, hlenAt⟩ :=
    encCmdData_packet chip noise hnoise payload (by omega) (by omega) trailing buf
  rw [← hmake] at hsome hlenAt
  have hinside (k n : ℕ) (hk : k + n ≤ payload.length) :
      ((buf.write 0 stream).write (i + 4) payload).bytes (i + 4 + k) n = (payload.drop k).take n :=
    Mem.bytes_write_inside _ hk
  have hfield (k : ℕ) (hk : k < payload.length) :
      (buf.write 0 stream).write (i + 4) payload (i + 4 + k) = payload[k] :=
    Mem.write_of_inside _ hk
  refine ⟨_, hsome, hfield 0 (by omega), hfield 1 (by omega), ?_, ?_⟩
  · -- the length field is in front of the decrypted bytes
    have hout (k : ℕ) (hk : k < 4) : (buf.write 0 stream).write (i + 4) payload (i + k)
        = buf.write 0 stream (i + k) := Mem.write_of_outside _ (Or.inl (by omega))
    rw [Nat.add_assoc, hout DevItem.cmdLen (by decide), hout (DevItem.cmdLen + 1) (by decide),
      ← hlen]
    exact hlenAt
  · rw [show i + 6 = i + 4 + 2 by omega, hinside 2 _ (by omega)]
    exact List.take_length ..

/-- A write command behind a lone `AA`, with a byte after the packet. -/
theorem encCmdData_makeCommand_write :
    ∃ rx, encCmdData sampleChip
        (Mem.write (fun _ => 0) 0
          ([0xAA] ++ makeCommand 0xC0FFEE 0xC3 [le32 0x2000, le32 2, [1, 2]] ++ [0]))
        ([0xAA] ++ makeCommand 0xC0FFEE 0xC3 [le32 0x2000, le32 2, [1, 2]] ++ [0]).length
          = some (1, rx) ∧
      rx 5 = 0xC3 ∧ rx 6 = 0 ∧ (ofLe16 (rx 3) (rx 4)).toNat = 12 ∧
      rx.bytes 7 10 = [0x00, 0x20, 0, 0, 2, 0, 0, 0, 1, 2] :=
  encCmdData_makeCommand sampleChip rfl 0xC3
    [le32 0x2000, le32 2, [1, 2]] (by decide) (by decide) [0] fun _ => 0

end FwBootloader
