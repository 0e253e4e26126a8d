import FwBootloader.Host
import FwBootloader.Lib.Bytes
import FwBootloader.Uart.Crc
import Mathlib.Tactic.SplitIfs

/-!
## The serial updater: `updatethread.cpp`

`makeCommand` and the builders on top of it lay out the packets, the `isReply…` functions check the
decrypted replies, and `runInner` is the whole update.  `HostM` is a dialog over the commands:
sending one with `infoWriteBuffer` and waiting with `waitCommand` always go together, so both are
one `exchange`, whose reply is the decrypted payload or `none` when the wait times out.

The two phases of `runInner` are definitions of their own; it returns where the source does, and
`Outcome` says which of the messages came last.
-/

namespace FwBootloader.Uart

open Bytes Dialog

def jlSuCmdDeviceInit : UInt8 := 0xC0
def jlSuCmdDeviceCheck : UInt8 := 0xC1
def jlSuCmdErase : UInt8 := 0xC2
def jlSuCmdWrite : UInt8 := 0xC3
def jlSuCmdFlashCrc : UInt8 := 0xC4
def jlSuCmdReboot : UInt8 := 0xCA

def jlSuRspSucc : UInt8 := 0

/-! ### Commands -/

/-- A body piece is the bytes its pointer and length stand for. -/
def makeCommand (encKey : UInt32) (opcode : UInt8) (bodys : List (List UInt8)) : List UInt8 :=
  let bodyLen : UInt32 := bodys.foldl (fun n v => n + UInt32.ofNat v.length) 0
  let head := [0xAA, 0x55, (bodyLen + 2).toUInt8, ((bodyLen + 2) >>> 8).toUInt8]
  let data := opcode :: jlSuRspSucc :: bodys.flatten
  -- we encrypt now
  let p := head ++ xorKey encKey data
  let crc := crc16 p
  p ++ [crc.toUInt8, (crc >>> 8).toUInt8]

/-- `buf[16 + 1]`, zeroed, with at most 15 characters of `area` and the mode behind them. -/
def makeDeviceInitCmd (encKey : UInt32) (area : String) (mode : UInt8) : List UInt8 :=
  let name := (chars area).take 15
  makeCommand encKey jlSuCmdDeviceInit [name ++ List.replicate (16 - name.length) 0 ++ [mode]]

def makeDeviceCheckCmd (encKey sdkId : UInt32) : List UInt8 :=
  makeCommand encKey jlSuCmdDeviceCheck [le32 sdkId]

def makeEraseCmd (encKey address type : UInt32) : List UInt8 :=
  makeCommand encKey jlSuCmdErase [le32 address, le32 type]

def makeWriteCmd (encKey address len : UInt32) (content : List UInt8) : List UInt8 :=
  makeCommand encKey jlSuCmdWrite [le32 address, le32 len, content]

def makeFlashCRCCmd (encKey address len blockSize : UInt32) : List UInt8 :=
  makeCommand encKey jlSuCmdFlashCrc [le32 address, le32 len, le32 blockSize]

def makeRebootCmd (encKey : UInt32) : List UInt8 :=
  makeCommand encKey jlSuCmdReboot []

/-- The packet of a command. -/
def makeCmd (encKey : UInt32) : Cmd → List UInt8
  | .deviceInit area mode => makeDeviceInitCmd encKey area mode
  | .deviceCheck sdkId => makeDeviceCheckCmd encKey sdkId
  | .erase address type => makeEraseCmd encKey address type
  | .write address len content => makeWriteCmd encKey address len content
  | .flashCrc address len blockSize => makeFlashCRCCmd encKey address len blockSize
  | .reboot => makeRebootCmd encKey

/-- The second argument of `infoWriteBuffer` where the command is sent. -/
def shouldReplyFake : Cmd → Bool
  | .reboot => true
  | _ => false

/-! ### Replies

An `isReply…` function that rejects gives the status it has stored, if any. -/

def isReplyDeviceInitCmd (bin : List UInt8) : Except (Option UInt8) DeviceInitInfo :=
  if bin.length ≠ 1 + 1 + 4 + 4 + 4 + 4 then .error none
  else if bin.getD 0 0 ≠ jlSuCmdDeviceInit ∨ bin.getD 1 0 ≠ jlSuRspSucc then
    .error (some (bin.getD 1 0))
  else
    let word (i : ℕ) : UInt32 :=
      ofLe32 (bin.getD i 0) (bin.getD (i + 1) 0) (bin.getD (i + 2) 0) (bin.getD (i + 3) 0)
    .ok ⟨word 2, word (2 + 4), word (2 + 4 + 4), word (2 + 4 + 4 + 4)⟩

/-- What `isReplyDeviceCheckCmd` leaves.  `vid` and `pid` are the caller's arrays; the two copies
store their bytes over the pointer parameters instead.  The 16 bytes at `&pid` reach behind that
parameter, into whatever stands there: this is taken as harmless. -/
structure DeviceCheckReply where
  vid : List UInt8
  pid : List UInt8
  sdkId : UInt32
  /-- The bytes stored from the address of the parameter `vid` on. -/
  vidParam : List UInt8
  /-- The bytes stored from the address of the parameter `pid` on. -/
  pidParam : List UInt8

def isReplyDeviceCheckCmd (bin vid pid : List UInt8) :
    Except (Option UInt8) DeviceCheckReply :=
  if bin.length ≠ 1 + 1 + 4 + 16 + 4 then .error none
  else if bin.getD 0 0 ≠ jlSuCmdDeviceCheck ∨ bin.getD 1 0 ≠ jlSuRspSucc then
    .error (some (bin.getD 1 0))
  else
    .ok
      { vid := vid
        pid := pid
        sdkId := ofLe32 (bin.getD 22 0) (bin.getD 23 0) (bin.getD 24 0) (bin.getD 25 0)
        vidParam := (bin.drop 2).take 4
        pidParam := (bin.drop (2 + 4)).take 16 }

def isReplyFlashCrcCmd (bin : List UInt8) (blockCount : UInt32) :
    Except (Option UInt8) (List UInt16) :=
  if UInt32.ofNat bin.length ≠ 1 + 1 + 2 * blockCount then .error none
  else if bin.getD 0 0 ≠ jlSuCmdFlashCrc ∨ bin.getD 1 0 ≠ jlSuRspSucc then
    .error (some (bin.getD 1 0))
  else .ok (ofLe16s ((bin.drop 2).take (blockCount * 2).toNat))

/-- The status of a reply to `opcode` that has nothing else in it. -/
def isReplyStatus (opcode : UInt8) (bin : List UInt8) : Option UInt8 :=
  if bin.length ≠ 1 + 1 then none
  else if bin.getD 0 0 ≠ opcode then none
  else some (bin.getD 1 0)

def isReplyEraseCmd (bin : List UInt8) : Option UInt8 :=
  isReplyStatus jlSuCmdErase bin

def isReplyWriteCmd (bin : List UInt8) : Option UInt8 :=
  isReplyStatus jlSuCmdWrite bin

def decodeCommand (cmd : List UInt8) (encKey : UInt32) : List UInt8 :=
  xorKey encKey cmd

/-! ### The exchanges -/

/-- The updater's dialog: commands out, decrypted payloads or timeouts back. -/
abbrev HostM : Type → Type := Dialog Cmd (Option (List UInt8)) HostFault

def deviceUpdateZoneInit (name : String) (type : UInt8) : HostM (Option DeviceInitInfo) := do
  match ← exchange (.deviceInit name type) with
  | none => return none
  | some cmd =>
    match isReplyDeviceInitCmd cmd with
    | .error _ => return none
    | .ok info => return some info

/-- The CRC of every block of `fileBuf`; `none` when a block reaches outside. -/
def getBufferCrcList (fileBuf : List UInt8) (blockCount eraseUnitSize : UInt32) :
    Option (List UInt16) :=
  (List.range blockCount.toNat).mapM fun offset =>
    (readBuf fileBuf (UInt32.ofNat offset * eraseUnitSize) eraseUnitSize).map chipCrc16

/-- One request of `fetchChipCrcList`. -/
def fetchCrcBatch (blockSize address readCount : UInt32) : HostM (Option (List UInt16)) := do
  match ← exchange (.flashCrc address (readCount * blockSize) blockSize) with
  | none => return none
  | some cmd =>
    match isReplyFlashCrcCmd cmd readCount with
    | .error _ => return none
    | .ok crcList => return some crcList

def fetchChipCrcList (address blockCount blockSize : UInt32) : HostM (Option (List UInt16)) :=
  fetchBatches (fetchCrcBatch blockSize) blockSize address blockCount

def doEraseFlash (address len : UInt32) : HostM Bool := do
  match ← exchange (.erase address (eraseType len)) with
  | none => return false
  | some cmd =>
    match isReplyEraseCmd cmd with
    | none => return false
    | some rspStatus => return rspStatus = jlSuRspSucc

def eraseFlash (fuel : ℕ) (address len : UInt32) : HostM Bool :=
  eraseUnits (.abort .outOfFuel) doEraseFlash fuel address len

/-- `buffer` is what stands from the pointer on. -/
def doWriteFlash (buffer : List UInt8) (address len : UInt32) : HostM Bool :=
  match readBuf buffer 0 len with
  | none => .abort .outOfBounds
  | some content => do
    match ← exchange (.write address len content) with
    | none => return false
    | some cmd =>
      match isReplyWriteCmd cmd with
      | none => return false
      | some rspStatus => return rspStatus = jlSuRspSucc

def writeFlash (fuel : ℕ) (buffer : List UInt8) (address len flashEraseUnit : UInt32) :
    HostM Bool :=
  if len = 0 then return true
  else
    match fuel with
    | 0 => .abort .outOfFuel
    | fuel + 1 => do
      let writeLen := if len > flashEraseUnit then flashEraseUnit else len
      if ← doWriteFlash buffer address writeLen then
        writeFlash fuel (buffer.drop writeLen.toNat) (address + writeLen) (len - writeLen)
          flashEraseUnit
      else return false

/-- How much the next command writes. -/
def writeLenOf (flashEraseUnit len : UInt32) : UInt32 :=
  if len > flashEraseUnit then flashEraseUnit else len

theorem toNat_writeLenOf (unit len : UInt32) :
    (writeLenOf unit len).toNat = min len.toNat unit.toNat := by
  unfold writeLenOf
  split_ifs with h
  · rw [Nat.min_eq_right (Nat.le_of_lt (UInt32.lt_iff_toNat_lt.mp h))]
  · rw [Nat.min_eq_left (Nat.le_of_not_lt fun hlt => h (UInt32.lt_iff_toNat_lt.mpr hlt))]

theorem writeLenOf_le (unit len : UInt32) : writeLenOf unit len ≤ len := by
  rw [UInt32.le_iff_toNat_le, toNat_writeLenOf]
  exact Nat.min_le_left _ _

theorem writeLenOf_of_le {unit len : UInt32} (h : unit ≤ len) : writeLenOf unit len = unit := by
  apply UInt32.toNat_inj.mp
  rw [toNat_writeLenOf, Nat.min_eq_right (UInt32.le_iff_toNat_le.mp h)]

/-- One turn of the loop. -/
theorem writeFlash_succ {len : UInt32} (h0 : len ≠ 0) (fuel : ℕ) (buffer : List UInt8)
    (address unit : UInt32) :
    writeFlash (fuel + 1) buffer address len unit = (do
      if ← doWriteFlash buffer address (writeLenOf unit len) then
        writeFlash fuel (buffer.drop (writeLenOf unit len).toNat)
          (address + writeLenOf unit len) (len - writeLenOf unit len) unit
      else return false) := by
  rw [writeFlash, if_neg h0]
  rfl

def ensureCrcMatch (fileCrcList : List UInt16) (addr blockCount eraseUnitSize : UInt32) :
    HostM Bool := do
  match ← fetchChipCrcList addr blockCount eraseUnitSize with
  | none => return false
  | some ubootChipCrcList => return ubootChipCrcList = fileCrcList

/-! ### The update -/

/-- What an `UpdateThread` is made from. -/
structure UpdateThread where
  isUpdateUboot : Bool
  fileContent : QByteArray
  encKey : UInt32

/-- Where `runInner` returns: before any reboot command, with all CRCs equal from the start, or
after the update has been checked. -/
inductive Outcome where
  | stopped
  | sameCrc
  | updateOk
  deriving DecidableEq

/-- The body of `if (m_isUpdateUboot)` from the writing of the first block on. -/
def finishUboot (fuel : ℕ) (ubootFileBuf : List UInt8) (ubootFileCrcList : List UInt16)
    (flashEoffsetSize eraseUnitSize ubootBlockCount : UInt32) : HostM Bool := do
  if !(← writeFlash fuel ubootFileBuf (0 + flashEoffsetSize) eraseUnitSize eraseUnitSize) then
    return false
  if !(← ensureCrcMatch ubootFileCrcList (0 + flashEoffsetSize) ubootBlockCount
      eraseUnitSize) then
    return false
  -- and switch back to appzone
  match ← deviceUpdateZoneInit "app_dir_head" 0 with
  | none => return false
  | some _ => return true

/-- The body of `if (m_isUpdateUboot)` from the writing to the uboot area on.  When a block behind
the first one cannot be written the error is only reported. -/
def updateUboot (fuel : ℕ) (ubootFileBuf : List UInt8) (ubootFileCrcList : List UInt16)
    (flashEoffsetSize abs64kLen eraseUnitSize ubootBlockCount : UInt32) : HostM Bool := do
  if !(← eraseFlash fuel (0 + flashEoffsetSize) abs64kLen) then return false
  if ubootBlockCount > 1 then
    let _ ← writeFlash fuel (ubootFileBuf.drop (1 * eraseUnitSize).toNat)
      (1 * eraseUnitSize + flashEoffsetSize) ((ubootBlockCount - 1) * eraseUnitSize)
      eraseUnitSize
  finishUboot fuel ubootFileBuf ubootFileCrcList flashEoffsetSize eraseUnitSize ubootBlockCount

/-- The body of `if (m_isUpdateUboot)`; `false` for `return`. -/
def ubootPhase (fuel : ℕ) (fileContent : List UInt8) (app : DeviceInitInfo) : HostM Bool := do
  let appZoneAddr := app.zoneAddr
  let flashEoffsetSize := app.flashEoffsetSize
  let eraseUnitSize := app.eraseUnitSize
  -- switch to zone
  match ← deviceUpdateZoneInit "uboot_zone" 0 with
  | none => return false
  | some _ =>
    let backupUbootAddr : UInt32 := 65536
    let abs64kLen := backupUbootAddr - flashEoffsetSize
    let ubootFileContent := qMid fileContent abs64kLen
    let ubootFileBuf :=
      if UInt32.ofNat ubootFileContent.length < abs64kLen then
        qAppend ubootFileContent (abs64kLen - UInt32.ofNat ubootFileContent.length) 0xFF
      else ubootFileContent
    -- inform that we are updating
    if !(← eraseFlash fuel appZoneAddr eraseUnitSize) then return false
    -- write uboot to backup area (64K)
    if !(← eraseFlash fuel backupUbootAddr abs64kLen) then return false
    if eraseUnitSize = 0 then .abort .divByZero
    let ubootBlockCount := abs64kLen / eraseUnitSize
    if !(← writeFlash fuel ubootFileBuf backupUbootAddr abs64kLen eraseUnitSize) then return false
    match getBufferCrcList ubootFileBuf ubootBlockCount eraseUnitSize with
    | none => .abort .outOfBounds
    | some ubootFileCrcList =>
      if !(← ensureCrcMatch ubootFileCrcList backupUbootAddr ubootBlockCount eraseUnitSize) then
        return false
      -- now, we should write to uboot area
      updateUboot fuel ubootFileBuf ubootFileCrcList flashEoffsetSize abs64kLen eraseUnitSize
        ubootBlockCount

/-- `runInner` from the reading of the chip's checksums on. -/
def updateApp (fuel : ℕ) (fileBuf : List UInt8) (fileCrcList : List UInt16)
    (flashEoffsetSize eraseUnitSize blockCount : UInt32) : HostM Outcome := do
  -- read crc in chip
  match ← fetchChipCrcList (0 + flashEoffsetSize) blockCount eraseUnitSize with
  | none => return .stopped
  | some chipCrcList =>
    if fileCrcList = chipCrcList then
      -- same crc, no need to upgrade
      let _ ← exchange .reboot
      return .sameCrc
    let upgradeAddr := 0 + flashEoffsetSize
    if !(← eraseFlash fuel upgradeAddr eraseUnitSize) then return .stopped
    if !(← updateBlocks (eraseFlash fuel) (writeFlash fuel) fileBuf fileCrcList chipCrcList
        upgradeAddr eraseUnitSize (blockCount.toNat - 1) 1) then
      return .stopped
    -- and finally write first unit
    if !(← writeFlash fuel (fileBuf.drop (0 * eraseUnitSize).toNat)
        (upgradeAddr + 0 * eraseUnitSize) eraseUnitSize eraseUnitSize) then
      return .stopped
    if !(← ensureCrcMatch fileCrcList (0 + flashEoffsetSize) blockCount eraseUnitSize) then
      return .stopped
    -- ask for reboot
    let _ ← exchange .reboot
    return .updateOk

/-- `runInner` from the padding of the file on. -/
def appPhase (fuel : ℕ) (fileContent : List UInt8) (app : DeviceInitInfo) : HostM Outcome := do
  let appZoneAddr := app.zoneAddr
  let flashEoffsetSize := app.flashEoffsetSize
  let eraseUnitSize := app.eraseUnitSize
  let fileSize := UInt32.ofNat fileContent.length - appZoneAddr
  if eraseUnitSize = 0 then .abort .divByZero
  let blockCount := (fileSize + eraseUnitSize - 1) / eraseUnitSize
  let alignedFileSize := blockCount * eraseUnitSize
  let fileContent :=
    if alignedFileSize ≠ fileSize then qAppend fileContent (alignedFileSize - fileSize) 0xFF
    else fileContent
  let fileBuf := fileContent.drop appZoneAddr.toNat
  match getBufferCrcList fileBuf blockCount eraseUnitSize with
  | none => .abort .outOfBounds
  | some fileCrcList =>
    updateApp fuel fileBuf fileCrcList flashEoffsetSize eraseUnitSize blockCount

/-- `vid` and `pid` are not initialised when the device check reply is parsed; nothing reads them.
The run goes on behind the parse as if its store over the parameter `pid` had met nothing else. -/
def runInner (t : UpdateThread) (fuel : ℕ) : HostM Outcome := do
  match ← deviceUpdateZoneInit "app_dir_head" 0 with
  | none => return .stopped
  | some app =>
    -- and perform device check
    match ← exchange (.deviceCheck 0x12345678) with
    | none => return .stopped
    | some cmd =>
      match isReplyDeviceCheckCmd cmd (List.replicate 4 0) (List.replicate 16 0) with
      | .error _ => return .stopped
      | .ok _ =>
        let fileContent := t.fileContent.data
        if UInt32.ofNat fileContent.length ≤ app.zoneAddr then return .stopped
        if t.isUpdateUboot then
          if !(← ubootPhase fuel fileContent app) then return .stopped
        appPhase fuel fileContent app

end FwBootloader.Uart
