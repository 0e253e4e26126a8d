import FwBootloader.Image
import FwBootloader.Uart.Equiv.Crc
import FwBootloader.Uart.UpdateThread

/-!
## The image in the serial updater

`appPhase_eq`: for a file that reaches behind the zone's address and a page or sector device,
everything that `runInner` computes before it reads the chip's checksums is the `AppImage`.
-/

namespace FwBootloader.Uart

theorem getBufferCrcList_data (b : UnitBuffer) (base : UInt32) :
    getBufferCrcList b.data (UInt32.ofNat b.count) b.unit
      = some ((b.blocks base).checksums Crc16.xmodem) := by
  have hcrc : chipCrc16 = Crc16.xmodem := funext chipCrc16_eq
  rw [getBufferCrcList, hcrc]
  exact b.checksums_eq Crc16.xmodem base

theorem getBufferCrcList_eq (a : AppImage) :
    getBufferCrcList a.data (UInt32.ofNat a.count) a.app.eraseUnitSize
      = some (a.blocks.checksums Crc16.xmodem) :=
  getBufferCrcList_data a.buffer _

theorem getBufferCrcList_boot (a : UbootImage) :
    getBufferCrcList a.bootData (UInt32.ofNat a.bootCount) a.app.eraseUnitSize
      = some ((a.bootBuffer.blocks 65536).checksums Crc16.xmodem) :=
  getBufferCrcList_data a.bootBuffer _

/-- **The preparation of the image.** -/
theorem appPhase_eq (a : AppImage) (fuel : ℕ) :
    appPhase fuel a.file.data a.app
      = updateApp fuel a.data (a.blocks.checksums Crc16.xmodem) a.app.flashEoffsetSize
          a.app.eraseUnitSize (UInt32.ofNat a.count) := by
  have hunit : a.app.eraseUnitSize ≠ 0 := a.eraseUnitSize_ne
  simp only [appPhase]
  rw [a.fileSize_eq, if_neg hunit, a.blockCount_eq, a.padded_eq, getBufferCrcList_eq]

end FwBootloader.Uart
