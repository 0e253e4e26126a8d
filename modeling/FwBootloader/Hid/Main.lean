import FwBootloader.Host
import FwBootloader.Lib.Bytes
import FwBootloader.Uart.Crc

/-!
## The USB host for Windows: `main.cpp` of `win-usb_hid`

Commands are laid out in `hid_tx_buf` and written as one report; replies are polled with `hid_read`
into `hid_rx_buf`, decrypted in place and copied into `dev_cmd_ops`.  `HidM` is a dialog over the
commands that keeps these two globals: a reply is what the calls of `hid_read` give, one after
another, an empty list where a call reads nothing.

The report of a command depends on what `hid_tx_buf` held before, so `makeCmd` gives the whole
buffer.
-/

namespace FwBootloader.Hid

open Bytes

def jlSuCmdDeviceInit : UInt8 := 0xC0
def jlSuCmdDeviceCheck : UInt8 := 0xC1
def jlSuCmdErase : UInt8 := 0xC2
def jlSuCmdWrite : UInt8 := 0xC3
def jlSuCmdFlashCrc : UInt8 := 0xC4
def jlSuCmdReboot : UInt8 := 0xCA

def jlSuRspSucc : UInt8 := 0

/-- `sizeof(JL_SECTOR_COMMAND_ITEM)`, with the 17 bytes of `init`. -/
def sizeofCommandItem : UInt32 := 2 + 2 + 1 + 1 + 17

/-- `sizeof(JL_SECTOR_COMMAND_DEV_ITEM)`, with the 24 bytes of `device_check`. -/
def sizeofCommandDevItem : ℕ := 2 + 2 + 1 + 1 + 24

def communicationKey : UInt32 := 12345678

/-- The table and the loop are those of `chip_crc16`. -/
def crc16 (bytes : List UInt8) : UInt16 :=
  Uart.chipCrc16 bytes

/-! ### Commands -/

/-- `hid_tx_buf` after the command has been laid out behind the report number. -/
def makeCommand (hidTxBuf : Mem) (opcode : UInt8) (bodys : List (List UInt8)) : Mem :=
  let bodyLen : UInt32 := bodys.foldl (fun n v => n + UInt32.ofNat v.length) 0
  let head := [0xAA, 0x55, (bodyLen + 2).toUInt8, ((bodyLen + 2) >>> 8).toUInt8]
  let data := opcode :: jlSuRspSucc :: bodys.flatten
  -- we encrypt now
  let p := head ++ xorKey communicationKey data
  let crc := crc16 p
  hidTxBuf.write 0 (0 :: (p ++ [crc.toUInt8, (crc >>> 8).toUInt8]))

def makeDeviceInitCmd (hidTxBuf : Mem) (area : String) (mode : UInt8) : Mem :=
  let name := (chars area).take 15
  makeCommand hidTxBuf jlSuCmdDeviceInit [name ++ List.replicate (16 - name.length) 0 ++ [mode]]

def makeWriteCmd (hidTxBuf : Mem) (address len : UInt32) (content : List UInt8) : Mem :=
  makeCommand hidTxBuf jlSuCmdWrite [le32 address, le32 len, content]

/-- `hid_tx_buf` with a command.  A device check is never sent. -/
def makeCmd (hidTxBuf : Mem) : Cmd → Mem
  | .deviceInit area mode => makeDeviceInitCmd hidTxBuf area mode
  | .deviceCheck sdkId => makeCommand hidTxBuf jlSuCmdDeviceCheck [le32 sdkId]
  | .erase address type => makeCommand hidTxBuf jlSuCmdErase [le32 address, le32 type]
  | .write address len content => makeWriteCmd hidTxBuf address len content
  | .flashCrc address len blockSize =>
    makeCommand hidTxBuf jlSuCmdFlashCrc [le32 address, le32 len, le32 blockSize]
  | .reboot => makeCommand hidTxBuf jlSuCmdReboot []

/-- What `hid_write(handle, hid_tx_buf, 65)` sends, without the report number. -/
def report (hidTxBuf : Mem) : List UInt8 :=
  hidTxBuf.bytes 1 64

/-! ### Replies -/

/-- The globals that replies go to. -/
structure State where
  hidRxBuf : Mem
  devCmdOps : List UInt8

/-- The host's dialog: commands out, what `hid_read` reads back. -/
abbrev HidM : Type → Type := StateT State (Dialog Cmd (List (List UInt8)) HostFault)

def decodeCommand (buf : List UInt8) : List UInt8 :=
  xorKey communicationKey buf

/-- The polls of `read_deice`: `timeout` of them at most, the next ones reading `reads`. -/
def readLoop : ℕ → List (List UInt8) → State → State
  | timeout + 1, r :: reads, s =>
    let buf := s.hidRxBuf.write 0 (r.take 65)
    if (r.take 65).length ≥ 64 then
      let buf := buf.write 4 (decodeCommand (buf.bytes 4 60))
      { hidRxBuf := buf, devCmdOps := buf.bytes 0 sizeofCommandDevItem }
    else readLoop timeout reads { s with hidRxBuf := buf }
  | _, _, s => s

def readDeice (reads : List (List UInt8)) (s : State) : State :=
  readLoop 3000 reads { s with devCmdOps := List.replicate sizeofCommandDevItem 0xff }

/-- Write the report of a command. -/
def send (c : Cmd) : HidM (List (List UInt8)) :=
  StateT.lift (Dialog.exchange c)

/-- Send a command and read the reply. -/
def exchange (c : Cmd) : HidM Unit := do
  let reads ← send c
  modify (readDeice reads)

def abort {α : Type} (e : HostFault) : HidM α :=
  StateT.lift (.abort e)

/-- `dev_cmd_ops.cmd_len`. -/
def State.cmdLen (s : State) : ℕ :=
  (ofLe16 (s.devCmdOps.getD 2 0) (s.devCmdOps.getD 3 0)).toNat

/-- `cmd.resize(2 + dev_cmd_ops.cmd_len)`, filled from `hid_rx_buf + 4`. -/
def replyBytes : HidM (List UInt8) := do
  let s ← get
  if 4 + (2 + s.cmdLen) > 65 then abort .replyOutOfBounds
  else return s.hidRxBuf.bytes 4 (2 + s.cmdLen)

/-- On an error reply `info` stays as it is. -/
def deviceUpdateZoneInit (name : String) (mode : UInt8) (info : DeviceInitInfo) :
    HidM DeviceInitInfo := do
  exchange (.deviceInit name mode)
  let s ← get
  let byte (i : ℕ) : UInt8 := s.devCmdOps.getD i 0
  let word (i : ℕ) : UInt32 := ofLe32 (byte i) (byte (i + 1)) (byte (i + 2)) (byte (i + 3))
  if byte 5 = jlSuRspSucc then return ⟨word 6, word 10, word 14, word 18⟩ else return info

def getBufferCrcList (fileBuf : List UInt8) (blockCount eraseUnitSize : UInt32) :
    Option (List UInt16) :=
  (List.range blockCount.toNat).mapM fun offset =>
    (readBuf fileBuf (UInt32.ofNat offset * eraseUnitSize) eraseUnitSize).map crc16

/-- The filled list, or `none` for `false`. -/
def isReplyFlashCrcCmd (bin : List UInt8) (blockCount : UInt32) :
    Except HostFault (Option (List UInt16)) :=
  if bin.getD 0 0 ≠ jlSuCmdFlashCrc ∨ bin.getD 1 0 ≠ jlSuRspSucc then .ok none
  else if bin.length < 2 + (blockCount * 2).toNat then .error .replyOutOfBounds
  else .ok (some (ofLe16s ((bin.drop 2).take (blockCount * 2).toNat)))

/-- One request of `fetchChipCrcList`. -/
def fetchCrcBatch (blockSize address readCount : UInt32) : HidM (Option (List UInt16)) := do
  exchange (.flashCrc address (readCount * blockSize) blockSize)
  let cmd ← replyBytes
  match isReplyFlashCrcCmd cmd readCount with
  | .error e => abort e
  | .ok crcList => return crcList

def fetchChipCrcList (address blockCount blockSize : UInt32) : HidM (Option (List UInt16)) :=
  fetchBatches (fetchCrcBatch blockSize) blockSize address blockCount

/-- The status of a reply to `opcode`. -/
def isReplyStatus (opcode : UInt8) (bin : List UInt8) : Option UInt8 :=
  if bin.getD 0 0 ≠ opcode then none else some (bin.getD 1 0)

def isReplyEraseCmd (bin : List UInt8) : Option UInt8 :=
  isReplyStatus jlSuCmdErase bin

def isReplyWriteCmd (bin : List UInt8) : Option UInt8 :=
  isReplyStatus jlSuCmdWrite bin

def doEraseFlash (address len : UInt32) : HidM Bool := do
  exchange (.erase address (eraseType len))
  let cmd ← replyBytes
  match isReplyEraseCmd cmd with
  | none => return false
  | some rspStatus => return rspStatus = jlSuRspSucc

def eraseFlash (fuel : ℕ) (address len : UInt32) : HidM Bool :=
  eraseUnits (abort .outOfFuel) doEraseFlash fuel address len

/-- `buffer` is what stands from the pointer on. -/
def doWriteFlash (buffer : List UInt8) (address len : UInt32) : HidM Bool :=
  match readBuf buffer 0 len with
  | none => abort .outOfBounds
  | some content => do
    exchange (.write address len content)
    let cmd ← replyBytes
    match isReplyWriteCmd cmd with
    | none => return false
    | some rspStatus => return rspStatus = jlSuRspSucc

def maxWriteSize : UInt32 := 64 - sizeofCommandItem

/-- How much the next command writes. -/
def writeLenOf (len : UInt32) : UInt32 :=
  if len > maxWriteSize then maxWriteSize else len

theorem toNat_writeLenOf (len : UInt32) : (writeLenOf len).toNat = min len.toNat 41 := by
  unfold writeLenOf
  split_ifs with h
  · have h41 : 41 < len.toNat := UInt32.lt_iff_toNat_lt.mp h
    rw [Nat.min_eq_right (by omega)]
    rfl
  · have h41 : ¬ 41 < len.toNat := fun hlt => h (UInt32.lt_iff_toNat_lt.mpr hlt)
    rw [Nat.min_eq_left (by omega)]

theorem writeLenOf_le (len : UInt32) : writeLenOf len ≤ len := by
  rw [UInt32.le_iff_toNat_le, toNat_writeLenOf]
  omega

/-- The erase unit is not used. -/
def writeFlash (buffer : List UInt8) (address len flashEraseUnit : UInt32) : HidM Bool :=
  if _h : len = 0 then return true
  else do
    let writeLen := writeLenOf len
    if ← doWriteFlash buffer address writeLen then
      writeFlash (buffer.drop writeLen.toNat) (address + writeLen) (len - writeLen) flashEraseUnit
    else return false
termination_by len.toNat
decreasing_by
  have hpos : len.toNat ≠ 0 := fun h0 => _h (UInt32.toNat_inj.mp h0)
  rw [UInt32.toNat_sub_of_le _ _ (writeLenOf_le len), toNat_writeLenOf]
  omega

def ensureCrcMatch (fileCrcList : List UInt16) (addr blockCount eraseUnitSize : UInt32) :
    HidM Bool := do
  match ← fetchChipCrcList addr blockCount eraseUnitSize with
  | none => return false
  | some ubootChipCrcList => return ubootChipCrcList = fileCrcList

/-! ### The update -/

/-- How `main` ends: with `return -1`, or at `__reboot`. -/
inductive Outcome where
  | failed
  | updateOk
  deriving DecidableEq

/-- The code at the label `__reboot`. -/
def reboot : HidM Outcome := do
  let _ ← send .reboot
  return .updateOk

/-- `main` from the reading of the chip's checksums on. -/
def updateApp (fuel : ℕ) (fileBuf : List UInt8) (fileCrcList : List UInt16)
    (flashEoffsetSize eraseUnitSize blockCount : UInt32) : HidM Outcome := do
  -- read crc in chip
  match ← fetchChipCrcList (0 + flashEoffsetSize) blockCount eraseUnitSize with
  | none => reboot
  | some chipCrcList =>
    if fileCrcList = chipCrcList then
      -- same crc, no need to upgrade
      reboot
    else
      let upgradeAddr := 0 + flashEoffsetSize
      if !(← eraseFlash fuel upgradeAddr eraseUnitSize) then return .failed
      if !(← updateBlocks (eraseFlash fuel) writeFlash fileBuf fileCrcList chipCrcList upgradeAddr
          eraseUnitSize (blockCount.toNat - 1) 1) then
        return .failed
      -- and finally write first unit
      if !(← writeFlash (fileBuf.drop 32) (upgradeAddr + 32) (eraseUnitSize - 32)
          eraseUnitSize) then
        return .failed
      if !(← writeFlash fileBuf upgradeAddr 32 eraseUnitSize) then return .failed
      if !(← ensureCrcMatch fileCrcList (0 + flashEoffsetSize) blockCount eraseUnitSize) then
        return .failed
      reboot

/-- `main` with the content of `jl_isd.bin`.  `app` is not initialised before the first exchange. -/
def main (app : DeviceInitInfo) (fileContent : QByteArray) (fuel : ℕ) : HidM Outcome := do
  let app ← deviceUpdateZoneInit "app_dir_head" 0 app
  let appZoneAddr := app.zoneAddr
  let flashEoffsetSize := app.flashEoffsetSize
  let eraseUnitSize := app.eraseUnitSize
  let fileContent := fileContent.data
  let fileSize := UInt32.ofNat fileContent.length - appZoneAddr
  if eraseUnitSize = 0 then abort .divByZero
  else
    let blockCount := (fileSize + eraseUnitSize - 1) / eraseUnitSize
    let alignedFileSize := blockCount * eraseUnitSize
    let fileContent :=
      if alignedFileSize ≠ fileSize then qAppend fileContent (alignedFileSize - fileSize) 0xFF
      else fileContent
    let fileBuf := fileContent.drop appZoneAddr.toNat
    match getBufferCrcList fileBuf blockCount eraseUnitSize with
    | none => abort .outOfBounds
    | some fileCrcList =>
      updateApp fuel fileBuf fileCrcList flashEoffsetSize eraseUnitSize blockCount

end FwBootloader.Hid
