import FwBootloader.Protocol
import FwBootloader.Uart.Equiv.Crc
import FwBootloader.Uart.UpdateThread
import FwBootloader.ZoneDevice

/-!
## The packets of the serial host

`makeCommand_eq`: `makeCommand` lays out the protocol's packet of the encrypted opcode, status and
body pieces; `makeCmd_eq` says so of every command and its plaintext.
-/

namespace FwBootloader.Uart

open Bytes

/-- **`makeCommand` is the packet of the encrypted opcode, status and body.** -/
theorem makeCommand_eq (encKey : UInt32) (opcode : UInt8) (bodys : List (List UInt8)) :
    makeCommand encKey opcode bodys
      = xmodemPacket.encode (xorKey encKey (opcode :: jlSuRspSucc :: bodys.flatten)) := by
  rw [← layout_eq]
  simp only [makeCommand, crc16_eq]
  rfl

/-- Every command is sent as the packet of its encrypted plaintext. -/
theorem makeCmd_eq (encKey : UInt32) (c : Cmd) :
    makeCmd encKey c = xmodemPacket.encode (xorKey encKey c.payload) := by
  have happ (l₁ l₂ l₃ : List UInt8) : l₁ ++ (l₂ ++ l₃) = l₁ ++ l₂ ++ l₃ :=
    (List.append_assoc ..).symm
  cases c <;>
    simp only [makeCmd, makeDeviceInitCmd, makeDeviceCheckCmd, makeEraseCmd, makeWriteCmd,
      makeFlashCRCCmd, makeRebootCmd, makeCommand_eq, List.flatten_cons, List.flatten_nil,
      List.append_nil, happ] <;>
    rfl

end FwBootloader.Uart
