import FwBootloader.Lib.Crc16
import FwBootloader.Lib.Nor

/-!
## What `user.c` takes from outside

The file layer `jlfs`, the checksum unit behind `chip_crc16` and the key are not part of the
sources, so they are parameters: `Chip σ` lists them over a state `σ` that only `jlfs` looks into.

`norChip` is the instance that stands for a working device with one zone: the zone's flash is an
array of bytes indexed by the position of the file, a 32-bit word; reading and programming act at
that position, erasing sets the bytes to `0xFF`, programming ands the bytes into the flash, and
every call succeeds.
-/

namespace FwBootloader.User

/-- `JLFS_FILE`. -/
structure JlfsFile where
  addr : UInt32
  size : UInt32
  pos : UInt32
  res : UInt32

/-- The functions `user.c` calls and the globals it only reads.  A `jlfs` function gets the file and
the state and gives both back; `jlfsFread` gives the bytes it stored, at most as many as asked. -/
structure Chip (σ : Type) where
  communicationKey : UInt32
  chipCrc16 : List UInt8 → UInt16
  jlfsGetFlashAlignSize : σ → UInt32
  jlfsGetFlashEoffsetSize : σ → UInt32
  jlfsFopenByName : JlfsFile → List UInt8 → UInt8 → σ → UInt8 × JlfsFile × σ
  jlfsGetIdleBankInfo : JlfsFile → UInt32 → σ → UInt32 × JlfsFile × σ
  jlfsFseek : JlfsFile → UInt32 → σ → JlfsFile × σ
  jlfsFread : JlfsFile → UInt32 → σ → List UInt8 × JlfsFile × σ
  jlfsErase : JlfsFile → UInt32 → σ → UInt32 × JlfsFile × σ
  jlfsWrite : JlfsFile → List UInt8 → σ → UInt32 × JlfsFile × σ
  jlfsGetPidVid : σ → Vector UInt8 16 × Vector UInt8 4
  jlfsUpdataDualBankInfo : JlfsFile → UInt16 → σ → UInt32 × JlfsFile × σ

/-- What a device reports about its zone, and its identity. -/
structure Zone where
  zoneAddr : UInt32
  upgradeLen : UInt32
  flashEoffsetSize : UInt32
  alignSize : UInt32
  pid : Vector UInt8 16
  vid : Vector UInt8 4

/-- A device whose zone flash is a NOR array indexed by the address field of a command. -/
def norChip (z : Zone) (key : UInt32) (crc : List UInt8 → UInt16) : Chip Flash where
  communicationKey := key
  chipCrc16 := crc
  jlfsGetFlashAlignSize _ := z.alignSize
  jlfsGetFlashEoffsetSize _ := z.flashEoffsetSize
  jlfsFopenByName _ _ _ flash := (0, ⟨z.zoneAddr, z.upgradeLen, 0, 0⟩, flash)
  jlfsGetIdleBankInfo _ _ flash := (0, ⟨z.zoneAddr, z.upgradeLen, 0, 0⟩, flash)
  jlfsFseek file offset flash := ({ file with pos := offset }, flash)
  jlfsFread file len flash :=
    (flash.read file.pos len.toNat, { file with pos := file.pos + len }, flash)
  jlfsErase file len flash := (1, file, flash.erase file.pos len.toNat)
  jlfsWrite file buf flash :=
    (UInt32.ofNat buf.length, { file with pos := file.pos + UInt32.ofNat buf.length },
      flash.program file.pos buf)
  jlfsGetPidVid _ := (z.pid, z.vid)
  jlfsUpdataDualBankInfo file _ flash := (0, file, flash)

/-- A device with 4K sectors whose first sector is reserved. -/
def sampleChip : Chip Flash :=
  norChip
    { zoneAddr := 0x2000
      upgradeLen := 0x10000
      flashEoffsetSize := 0x1000
      alignSize := 4096
      pid := Vector.replicate 16 0
      vid := Vector.replicate 4 0 }
    0xC0FFEE Crc16.xmodem

end FwBootloader.User
