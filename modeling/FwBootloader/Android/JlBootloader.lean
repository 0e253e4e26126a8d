import FwBootloader.Hid.Port

/-!
## The USB host for Android: `jl_bootloader.cpp`

The members of `JL_Bootloader` are the procedures of `Hid.Port` at `port`: `hid_rx_buf` and
`hid_tx_buf` have 64 bytes and no report number, `readHid` takes only reads of at most 64 bytes,
`fill_n` does not extend the vector, and the first unit is written in one piece, head first.
-/

namespace FwBootloader.Android

open Hid

/-- `HID_RW_MAX`. -/
def hidRwMax : ℕ := 64

/-- What `readHid` copies: nothing where it returns `false`. -/
def readHid (data : List UInt8) : List UInt8 :=
  if data.length ≤ hidRwMax then data else []

def port : Port where
  rxSize := hidRwMax
  stored := readHid
  reportNumber := []
  -- `std::fill_n(fileContent.end(), count, '\xFF')`
  fill _ _ := none
  firstUnit eraseUnitSize := [(0 * eraseUnitSize, eraseUnitSize)]
  rxSize_cases := Or.inl rfl
  stored_nil := rfl
  stored_report _ hr := if_pos (Nat.le_of_eq hr)
  fill_cases _ _ := Or.inl rfl
  firstUnit_le unit _ := by
    refine List.forall_mem_singleton.mpr ?_
    show (0 * unit).toNat + unit.toNat ≤ unit.toNat
    rw [UInt32.zero_mul]
    exact Nat.le_of_eq (Nat.zero_add _)

/-- The table and the loop are those of `chip_crc16`. -/
def crc16 (bytes : List UInt8) : UInt16 :=
  Uart.chipCrc16 bytes

def getBufferCrcList (fileBuf : List UInt8) (blockCount eraseUnitSize : UInt32) :
    Option (List UInt16) :=
  (List.range blockCount.toNat).mapM fun offset =>
    (readBuf fileBuf (UInt32.ofNat offset * eraseUnitSize) eraseUnitSize).map crc16

def deviceUpdateZoneInit (name : String) (mode : UInt8) (info : DeviceInitInfo) :
    HidM DeviceInitInfo :=
  port.deviceUpdateZoneInit name mode info

/-- One request of `fetchChipCrcList`. -/
def fetchCrcBatch (blockSize address readCount : UInt32) : HidM (Option (List UInt16)) :=
  port.fetchCrcBatch blockSize address readCount

def fetchChipCrcList (address blockCount blockSize : UInt32) : HidM (Option (List UInt16)) :=
  port.fetchChipCrcList address blockCount blockSize

def doEraseFlash (address len : UInt32) : HidM Bool :=
  port.doEraseFlash address len

def eraseFlash (fuel : ℕ) (address len : UInt32) : HidM Bool :=
  port.eraseFlash fuel address len

def doWriteFlash (buffer : List UInt8) (address len : UInt32) : HidM Bool :=
  port.doWriteFlash buffer address len

def writeFlash (buffer : List UInt8) (address len flashEraseUnit : UInt32) : HidM Bool :=
  port.writeFlash buffer address len flashEraseUnit

def ensureCrcMatch (fileCrcList : List UInt16) (addr blockCount eraseUnitSize : UInt32) :
    HidM Bool :=
  port.ensureCrcMatch fileCrcList addr blockCount eraseUnitSize

/-- `startUpgrading` from the reading of the chip's checksums on. -/
def updateApp (fuel : ℕ) (fileBuf : List UInt8) (fileCrcList : List UInt16)
    (flashEoffsetSize eraseUnitSize blockCount : UInt32) : HidM ℤ :=
  port.updateApp (-1) 0 fuel fileBuf fileCrcList flashEoffsetSize eraseUnitSize blockCount

/-- The file's length is a `jsize`.  `fill_n` writes behind the end of the vector. -/
def startUpgrading (fileData : QByteArray) (fuel : ℕ) : HidM ℤ := do
  let app ← deviceUpdateZoneInit "app_dir_head" 0 ⟨0, 0, 0, 0⟩
  let appZoneAddr := app.zoneAddr
  let flashEoffsetSize := app.flashEoffsetSize
  let eraseUnitSize := app.eraseUnitSize
  let fileContent := fileData.data
  let fileSize := UInt32.ofNat fileContent.length - appZoneAddr
  if eraseUnitSize = 0 then abort .divByZero
  else
    let blockCount := (fileSize + eraseUnitSize - 1) / eraseUnitSize
    let alignedFileSize := blockCount * eraseUnitSize
    if alignedFileSize ≠ fileSize then abort .outOfBounds
    else
      let fileBuf := fileContent.drop appZoneAddr.toNat
      match getBufferCrcList fileBuf blockCount eraseUnitSize with
      | none => abort .outOfBounds
      | some fileCrcList =>
        updateApp fuel fileBuf fileCrcList flashEoffsetSize eraseUnitSize blockCount

end FwBootloader.Android
