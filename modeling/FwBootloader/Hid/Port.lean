import FwBootloader.Hid.Main

/-!
## The USB hosts, over what they differ in

The Android `JL_Bootloader` has the procedures of `win-usb_hid`, over another `hid_rx_buf`, without
a report number in `hid_tx_buf` and with the first unit written in one piece.  A `Port` fixes these
differences; `windows` is that of `main.cpp`, whose procedures `Equiv/Port.lean` shows to be the
ones here.
-/

namespace FwBootloader.Hid

open Bytes

/-- What the two USB hosts differ in. -/
structure Port where
  /-- The size of `hid_rx_buf`. -/
  rxSize : ℕ
  /-- What one read puts at the start of `hid_rx_buf`. -/
  stored : List UInt8 → List UInt8
  /-- What stands before the packet in `hid_tx_buf`. -/
  reportNumber : List UInt8
  /-- The file with so many bytes of `0xFF` behind it, where that is defined. -/
  fill : List UInt8 → UInt32 → Option (List UInt8)
  /-- The pieces in which the first unit is written: their offsets and lengths. -/
  firstUnit : UInt32 → List (UInt32 × UInt32)
  rxSize_cases : rxSize = 64 ∨ rxSize = 65
  stored_nil : stored [] = []
  stored_report : ∀ r, r.length = 64 → stored r = r
  fill_cases : ∀ fileContent count, fill fileContent count = none ∨
    fill fileContent count = some (qAppend fileContent count 0xFF)
  firstUnit_le : ∀ eraseUnitSize : UInt32, 32 ≤ eraseUnitSize.toNat →
    ∀ piece ∈ firstUnit eraseUnitSize, piece.1.toNat + piece.2.toNat ≤ eraseUnitSize.toNat

/-- `win-usb_hid`: `hid_read(handle, hid_rx_buf, 65)`, and the head of the first unit last. -/
def windows : Port where
  rxSize := 65
  stored r := r.take 65
  reportNumber := [0]
  fill fileContent count := some (qAppend fileContent count 0xFF)
  firstUnit eraseUnitSize := [(32, eraseUnitSize - 32), (0, 32)]
  rxSize_cases := Or.inr rfl
  stored_nil := rfl
  stored_report _ hr := List.take_of_length_le (Nat.le_trans (Nat.le_of_eq hr) (by decide))
  fill_cases _ _ := Or.inr rfl
  firstUnit_le unit hunit := by
    have h32 : (32 : UInt32).toNat = 32 := rfl
    have hsub : (unit - 32).toNat = unit.toNat - 32 :=
      UInt32.toNat_sub_of_le _ _ (UInt32.le_iff_toNat_le.mpr hunit)
    refine List.forall_mem_cons.mpr ⟨?_, List.forall_mem_singleton.mpr ?_⟩
    · show (32 : UInt32).toNat + (unit - 32).toNat ≤ unit.toNat
      omega
    · show (0 : UInt32).toNat + (32 : UInt32).toNat ≤ unit.toNat
      rw [UInt32.toNat_zero]
      omega

namespace Port

variable (p : Port)

/-! ### Commands -/

/-- `hid_tx_buf` after the command has been laid out. -/
def makeCommand (hidTxBuf : Mem) (opcode : UInt8) (bodys : List (List UInt8)) : Mem :=
  let bodyLen : UInt32 := bodys.foldl (fun n v => n + UInt32.ofNat v.length) 0
  let head := [0xAA, 0x55, (bodyLen + 2).toUInt8, ((bodyLen + 2) >>> 8).toUInt8]
  let data := opcode :: jlSuRspSucc :: bodys.flatten
  -- we encrypt now
  let packet := head ++ xorKey communicationKey data
  let crc := crc16 packet
  hidTxBuf.write 0 (p.reportNumber ++ (packet ++ [crc.toUInt8, (crc >>> 8).toUInt8]))

def makeDeviceInitCmd (hidTxBuf : Mem) (area : String) (mode : UInt8) : Mem :=
  let name := (chars area).take 15
  p.makeCommand hidTxBuf jlSuCmdDeviceInit [name ++ List.replicate (16 - name.length) 0 ++ [mode]]

def makeWriteCmd (hidTxBuf : Mem) (address len : UInt32) (content : List UInt8) : Mem :=
  p.makeCommand hidTxBuf jlSuCmdWrite [le32 address, le32 len, content]

/-- `hid_tx_buf` with a command.  A device check is never sent. -/
def makeCmd (hidTxBuf : Mem) : Cmd → Mem
  | .deviceInit area mode => p.makeDeviceInitCmd hidTxBuf area mode
  | .deviceCheck sdkId => p.makeCommand hidTxBuf jlSuCmdDeviceCheck [le32 sdkId]
  | .erase address type => p.makeCommand hidTxBuf jlSuCmdErase [le32 address, le32 type]
  | .write address len content => p.makeWriteCmd hidTxBuf address len content
  | .flashCrc address len blockSize =>
    p.makeCommand hidTxBuf jlSuCmdFlashCrc [le32 address, le32 len, le32 blockSize]
  | .reboot => p.makeCommand hidTxBuf jlSuCmdReboot []

/-- The 64 bytes that are sent, behind the report number. -/
def report (hidTxBuf : Mem) : List UInt8 :=
  hidTxBuf.bytes p.reportNumber.length 64

/-! ### Replies -/

/-- `timeout` polls at most, the next ones reading `reads`. -/
def readLoop : ℕ → List (List UInt8) → State → State
  | timeout + 1, r :: reads, s =>
    let buf := s.hidRxBuf.write 0 (p.stored r)
    if (p.stored r).length ≥ 64 then
      let buf := buf.write 4 (decodeCommand (buf.bytes 4 60))
      { hidRxBuf := buf, devCmdOps := buf.bytes 0 sizeofCommandDevItem }
    else readLoop timeout reads { s with hidRxBuf := buf }
  | _, _, s => s

def readDeice (reads : List (List UInt8)) (s : State) : State :=
  p.readLoop 3000 reads { s with devCmdOps := List.replicate sizeofCommandDevItem 0xff }

/-- Send a command and read the reply. -/
def exchange (c : Cmd) : HidM Unit := do
  let reads ← send c
  modify (p.readDeice reads)

/-- `cmd.resize(2 + dev_cmd_ops.cmd_len)`, filled from `hid_rx_buf + 4`. -/
def replyBytes : HidM (List UInt8) := do
  let s ← get
  if 4 + (2 + s.cmdLen) > p.rxSize then abort .replyOutOfBounds
  else return s.hidRxBuf.bytes 4 (2 + s.cmdLen)

/-- On an error reply `info` stays as it is. -/
def deviceUpdateZoneInit (name : String) (mode : UInt8) (info : DeviceInitInfo) :
    HidM DeviceInitInfo := do
  p.exchange (.deviceInit name mode)
  let s ← get
  let byte (i : ℕ) : UInt8 := s.devCmdOps.getD i 0
  let word (i : ℕ) : UInt32 := ofLe32 (byte i) (byte (i + 1)) (byte (i + 2)) (byte (i + 3))
  if byte 5 = jlSuRspSucc then return ⟨word 6, word 10, word 14, word 18⟩ else return info

/-- One request of `fetchChipCrcList`. -/
def fetchCrcBatch (blockSize address readCount : UInt32) : HidM (Option (List UInt16)) := do
  p.exchange (.flashCrc address (readCount * blockSize) blockSize)
  let cmd ← p.replyBytes
  match isReplyFlashCrcCmd cmd readCount with
  | .error e => abort e
  | .ok crcList => return crcList

def fetchChipCrcList (address blockCount blockSize : UInt32) : HidM (Option (List UInt16)) :=
  fetchBatches (p.fetchCrcBatch blockSize) blockSize address blockCount

def doEraseFlash (address len : UInt32) : HidM Bool := do
  p.exchange (.erase address (eraseType len))
  let cmd ← p.replyBytes
  match isReplyEraseCmd cmd with
  | none => return false
  | some rspStatus => return rspStatus = jlSuRspSucc

def eraseFlash (fuel : ℕ) (address len : UInt32) : HidM Bool :=
  eraseUnits (abort .outOfFuel) p.doEraseFlash fuel address len

/-- `buffer` is what stands from the pointer on. -/
def doWriteFlash (buffer : List UInt8) (address len : UInt32) : HidM Bool :=
  match readBuf buffer 0 len with
  | none => abort .outOfBounds
  | some content => do
    p.exchange (.write address len content)
    let cmd ← p.replyBytes
    match isReplyWriteCmd cmd with
    | none => return false
    | some rspStatus => return rspStatus = jlSuRspSucc

/-- The erase unit is not used. -/
def writeFlash (buffer : List UInt8) (address len flashEraseUnit : UInt32) : HidM Bool :=
  if _h : len = 0 then return true
  else do
    let writeLen := writeLenOf len
    if ← p.doWriteFlash buffer address writeLen then
      writeFlash (buffer.drop writeLen.toNat) (address + writeLen) (len - writeLen) flashEraseUnit
    else return false
termination_by len.toNat
decreasing_by
  have hpos : len.toNat ≠ 0 := fun h0 => _h (UInt32.toNat_inj.mp h0)
  rw [UInt32.toNat_sub_of_le _ _ (writeLenOf_le len), toNat_writeLenOf]
  omega

def ensureCrcMatch (fileCrcList : List UInt16) (addr blockCount eraseUnitSize : UInt32) :
    HidM Bool := do
  match ← p.fetchChipCrcList addr blockCount eraseUnitSize with
  | none => return false
  | some ubootChipCrcList => return ubootChipCrcList = fileCrcList

/-! ### The update -/

variable {α : Type}

/-- The pieces of the first unit, one behind the other, and what comes after them. -/
def writeUnit (failed : α) (fileBuf : List UInt8) (upgradeAddr eraseUnitSize : UInt32)
    (rest : HidM α) : List (UInt32 × UInt32) → HidM α
  | [] => rest
  | (off, len) :: pieces => do
    if !(← p.writeFlash (fileBuf.drop off.toNat) (upgradeAddr + off) len eraseUnitSize) then
      return failed
    writeUnit failed fileBuf upgradeAddr eraseUnitSize rest pieces

/-- From the reading of the chip's checksums on.  `updateOk` stands for the return behind
`__reboot`. -/
def updateApp (failed updateOk : α) (fuel : ℕ) (fileBuf : List UInt8) (fileCrcList : List UInt16)
    (flashEoffsetSize eraseUnitSize blockCount : UInt32) : HidM α := do
  let reboot : HidM α := do
    let _ ← send .reboot
    return updateOk
  -- read crc in chip
  match ← p.fetchChipCrcList (0 + flashEoffsetSize) blockCount eraseUnitSize with
  | none => reboot
  | some chipCrcList =>
    if fileCrcList = chipCrcList then
      -- same crc, no need to upgrade
      reboot
    else
      let upgradeAddr := 0 + flashEoffsetSize
      if !(← p.eraseFlash fuel upgradeAddr eraseUnitSize) then return failed
      if !(← updateBlocks (p.eraseFlash fuel) p.writeFlash fileBuf fileCrcList chipCrcList
          upgradeAddr eraseUnitSize (blockCount.toNat - 1) 1) then
        return failed
      -- and finally write first unit
      let rest : HidM α := do
        if !(← p.ensureCrcMatch fileCrcList (0 + flashEoffsetSize) blockCount eraseUnitSize) then
          return failed
        reboot
      p.writeUnit failed fileBuf upgradeAddr eraseUnitSize rest (p.firstUnit eraseUnitSize)

/-- From the computation of the file's size on. -/
def appPhase (failed updateOk : α) (fuel : ℕ) (fileContent : List UInt8) (app : DeviceInitInfo) :
    HidM α :=
  let appZoneAddr := app.zoneAddr
  let flashEoffsetSize := app.flashEoffsetSize
  let eraseUnitSize := app.eraseUnitSize
  let fileSize := UInt32.ofNat fileContent.length - appZoneAddr
  if eraseUnitSize = 0 then abort .divByZero
  else
    let blockCount := (fileSize + eraseUnitSize - 1) / eraseUnitSize
    let alignedFileSize := blockCount * eraseUnitSize
    let filled :=
      if alignedFileSize ≠ fileSize then p.fill fileContent (alignedFileSize - fileSize)
      else some fileContent
    match filled with
    | none => abort .outOfBounds
    | some fileContent =>
      let fileBuf := fileContent.drop appZoneAddr.toNat
      match getBufferCrcList fileBuf blockCount eraseUnitSize with
      | none => abort .outOfBounds
      | some fileCrcList =>
        p.updateApp failed updateOk fuel fileBuf fileCrcList flashEoffsetSize eraseUnitSize
          blockCount

/-- The whole program. -/
def main (failed updateOk : α) (app : DeviceInitInfo) (fileContent : QByteArray) (fuel : ℕ) :
    HidM α := do
  let app ← p.deviceUpdateZoneInit "app_dir_head" 0 app
  p.appPhase failed updateOk fuel fileContent.data app

end Port

end FwBootloader.Hid
