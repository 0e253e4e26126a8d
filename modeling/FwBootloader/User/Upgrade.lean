import FwBootloader.Lib.Bytes
import FwBootloader.User.Jlfs

/-!
## The device side of the update protocol: `user.c`

A received chunk is searched for a frame, checked and decrypted in place (`encCmdData`); the opcode
selects a handler (`dispatch`), which reads its parameters through `g_ops`, calls `jlfs`, fills the
reply buffer `dev_g_buf` and sends it (`setRemainAndUpgradeRsp`).  `upgradeLoop` does so for one
chunk after another until the reboot command.

A handler runs in `DevM`: it changes the `Device` and may end in a `Fault`.  Every byte it takes
from the command, every byte it writes into the reply buffer, every value it assigns to the 16-bit
length field and every copy into the transmit buffer is recorded in `Device.log`, so that the safety
statements are about what the handlers themselves do.
-/

namespace FwBootloader.User

open Bytes

/-! ### Protocol constants -/

def syncMark0 : UInt8 := 0xAA
def syncMark1 : UInt8 := 0x55

def jlSuCmdDeviceInit : UInt8 := 0xC0
def jlSuCmdDeviceCheck : UInt8 := 0xC1
def jlSuCmdErase : UInt8 := 0xC2
def jlSuCmdWrite : UInt8 := 0xC3
def jlSuCmdFlashCrc : UInt8 := 0xC4
def jlSuCmdReboot : UInt8 := 0xCA
def jlSuCmdUpdataDualBankCrc : UInt8 := 0xCB

def jlEraseTypePage : UInt32 := 1
def jlEraseTypeSector : UInt32 := 2
def jlEraseTypeBlock : UInt32 := 3

/-- The answer statuses, numbered as the enumeration numbers them. -/
def jlSuCmdSuss : UInt8 := 0
def jlSuCmdSdkIdError : UInt8 := 1
def jlSuCmdWriteError : UInt8 := 2
def jlSuCmdEraseError : UInt8 := 3
def jlSuCmdOtherError : UInt8 := 4

/-! ### Layout of the packed structures

Offsets in `JL_SECTOR_COMMAND_ITEM` and, with a reply's fields, in `JL_SECTOR_COMMAND_DEV_ITEM`. -/

namespace CommandItem

def cmd : ℕ := 4
def deviceCheckSdkId : ℕ := 6
def writeAddress : ℕ := 6
def writeDataLength : ℕ := 10
def writeData : ℕ := 14
def eraseAddress : ℕ := 6
def eraseType : ℕ := 10
def crcListAddress : ℕ := 6
def crcListLen : ℕ := 10
def crcListBlockSize : ℕ := 14
def initFileName : ℕ := 6
def initMode : ℕ := 22
def dualBankInfoCrc : ℕ := 6

end CommandItem

namespace DevItem

def syncdata0 : ℕ := 0
def syncdata1 : ℕ := 1
def cmdLen : ℕ := 2
def cmd : ℕ := 4
def rspStatus : ℕ := 5
def crcListCrc : ℕ := 6
def initUpgradeAddr : ℕ := 6
def initUpgradeLen : ℕ := 10
def initUpgradeEoffset : ℕ := 14
def initFlashAlignsize : ℕ := 18
def deviceCheckVid : ℕ := 6
def deviceCheckPid : ℕ := 10
def deviceCheckSdkId : ℕ := 26

end DevItem

/-! ### State -/

/-- What the handlers do to memory. -/
inductive Access where
  /-- Byte `i` of the receive buffer is taken from the command. -/
  | cmd (i : ℕ)
  /-- Byte `i` of `dev_g_buf` is written. -/
  | buf (i : ℕ)
  /-- The field `cmd_len` of the reply is assigned the value `n`. -/
  | cmdLen (n : ℕ)
  /-- The bytes that the reply's `cmd_len` counts, before they are encrypted. -/
  | rsp (payload : List UInt8)
  /-- `n` bytes are copied into `tx`. -/
  | tx (n : ℕ)
  deriving DecidableEq

/-- What stops a handler. -/
inductive Fault where
  | divByZero
  deriving DecidableEq

/-- The globals of `user.c`, the receive buffer and the memory behind each of them. -/
@[ext] structure Device (σ : Type) where
  /-- The receive buffer, `ut_up_buf` or `recv_data_buf`. -/
  rx : Mem
  /-- `g_ops`, as an offset into the receive buffer. -/
  gOps : ℕ
  devGBuf : Mem
  upgradeFile : JlfsFile
  flashAlignsize : UInt32
  globalBuffer : Mem
  fs : σ
  /-- The frames handed to the transport so far. -/
  sent : List (List UInt8)
  log : List Access

/-- A step of the device. -/
abbrev DevM (σ : Type) : Type → Type := EStateM Fault (Device σ)

variable {σ : Type}

namespace DevM

/-- Record accesses. -/
def record (as : List Access) : DevM σ Unit :=
  modify fun d => { d with log := d.log ++ as }

/-- The `n` bytes of the command from offset `off` of `g_ops` on. -/
def cmdBytes (off n : ℕ) : DevM σ (List UInt8) := do
  let d ← get
  record ((List.range n).map fun k => .cmd (d.gOps + off + k))
  return d.rx.bytes (d.gOps + off) n

def cmd8 (off : ℕ) : DevM σ UInt8 := do
  let b ← cmdBytes off 1
  return b.getD 0 0

def cmd16 (off : ℕ) : DevM σ UInt16 := do
  let b ← cmdBytes off 2
  return ofLe16 (b.getD 0 0) (b.getD 1 0)

def cmd32 (off : ℕ) : DevM σ UInt32 := do
  let b ← cmdBytes off 4
  return ofLe32 (b.getD 0 0) (b.getD 1 0) (b.getD 2 0) (b.getD 3 0)

/-- Store bytes in the reply buffer. -/
def setBytes (off : ℕ) (l : List UInt8) : DevM σ Unit := do
  record ((List.range l.length).map fun k => .buf (off + k))
  modify fun d => { d with devGBuf := d.devGBuf.write off l }

def set8 (off : ℕ) (v : UInt8) : DevM σ Unit :=
  setBytes off [v]

def set16 (off : ℕ) (v : UInt16) : DevM σ Unit :=
  setBytes off (le16 v)

def set32 (off : ℕ) (v : UInt32) : DevM σ Unit :=
  setBytes off (le32 v)

/-- `dev_g_ops->cmd_len = n`; the field keeps the low 16 bits. -/
def setCmdLen (n : ℕ) : DevM σ Unit := do
  record [.cmdLen n]
  set16 DevItem.cmdLen (UInt16.ofNat n)

/-- `dev_g_ops->cmd_len`. -/
def getCmdLen : DevM σ UInt16 := do
  let d ← get
  return ofLe16 (d.devGBuf DevItem.cmdLen) (d.devGBuf (DevItem.cmdLen + 1))

/-- A `jlfs` call on `upgrade_file`. -/
def onUpgradeFile {α : Type} (call : JlfsFile → σ → α × JlfsFile × σ) : DevM σ α := do
  let d ← get
  let r := call d.upgradeFile d.fs
  set { d with upgradeFile := r.2.1, fs := r.2.2 }
  return r.1

end DevM

open DevM

variable (chip : Chip σ)

/-- The globals when `user_check_upgrade` has read the align size and calls `upgrade_loop`. -/
def Device.initial (fs : σ) : Device σ where
  rx _ := 0
  gOps := 0
  devGBuf _ := 0
  upgradeFile := ⟨0, 0, 0, 0⟩
  flashAlignsize := chip.jlfsGetFlashAlignSize fs
  globalBuffer _ := 0
  fs := fs
  sent := []
  log := []

/-- The sample device, its flash erased. -/
def sampleDevice : Device Flash :=
  .initial sampleChip fun _ => 0xFF

/-! ### Receiving -/

def encDecData (buf : List UInt8) : List UInt8 :=
  xorKey chip.communicationKey buf

/-- The search loop: the first of the `n` indices from `i` on where the marker stands. -/
def findMark (buf : Mem) : ℕ → ℕ → Option ℕ
  | 0, _ => none
  | n + 1, i =>
    if buf i = syncMark0 ∧ buf (i + 1) = syncMark1 then some i else findMark buf n (i + 1)

/-- The index of the frame that is returned and the buffer with its body decrypted; `none` for
`NULL`, with the buffer as it was. -/
def encCmdData (buf : Mem) (len : ℕ) : Option (ℕ × Mem) :=
  if len < 2 + 2 + 2 + 2 then none
  else
    match findMark buf (len - 7) 0 with
    | none => none
    | some i =>
      let cmdLen := (ofLe16 (buf (i + 2)) (buf (i + 3))).toNat
      if i + 2 + 2 + cmdLen + 2 > len then none
      else
        let dataCrc := ofLe16 (buf (i + 2 + 2 + cmdLen)) (buf (i + 2 + 2 + cmdLen + 1))
        let checkCrc := chip.chipCrc16 (buf.bytes i (2 + 2 + cmdLen))
        if dataCrc = checkCrc then
          some (i, buf.write (i + 4) (encDecData chip (buf.bytes (i + 4) cmdLen)))
        else none

/-- `uart0_irq` stores the chunk and flags it from four bytes on; `recv_new_data` then looks for a
frame and points `g_ops` at it.  The chunk may have any length: that the serial buffer holds 4128
bytes and the USB buffer 64 is left to the transport. -/
def recvNewData (chunk : List UInt8) : DevM σ Bool := do
  modify fun d => { d with rx := d.rx.write 0 chunk }
  if chunk.length < 4 then return false
  let d ← get
  match encCmdData chip d.rx chunk.length with
  | none => return false
  | some (i, rx) =>
    set { d with rx := rx, gOps := i }
    return true

/-! ### Replying -/

/-- The `len` bytes of the reply buffer go through `tx[64]` to the transport.  Over USB the whole of
`tx` is sent, see `hidTxData`. -/
def upgradeRsp (len : ℕ) : DevM σ Unit := do
  record [.tx len]
  modify fun d => { d with sent := d.sent ++ [d.devGBuf.bytes 0 len] }

/-- The report of a reply over USB: behind the frame stands what `tx` held before. -/
def hidTxData (tx frame : List UInt8) : List UInt8 :=
  frame ++ tx.drop frame.length

def setRemainAndUpgradeRsp (cmd : UInt8) : DevM σ Unit := do
  set8 DevItem.syncdata0 0xAA
  set8 DevItem.syncdata1 0x55
  let cmdLen ← getCmdLen
  let crc16Len : UInt16 := 1 + 1 + 2 + cmdLen
  set8 DevItem.cmd cmd
  let d ← get
  record [.rsp (d.devGBuf.bytes 4 cmdLen.toNat)]
  setBytes 4 (encDecData chip (d.devGBuf.bytes 4 cmdLen.toNat))
  let d ← get
  let crc16Da := chip.chipCrc16 (d.devGBuf.bytes 0 crc16Len.toNat)
  set8 crc16Len.toNat (crc16Da &&& 0xff).toUInt8
  set8 (crc16Len.toNat + 1) (crc16Da >>> 8).toUInt8
  upgradeRsp (crc16Len.toNat + 2)

/-! ### The handlers -/

def jlSuDeviceInit : DevM σ Unit := do
  let mode ← cmd8 CommandItem.initMode
  let err : UInt8 ←
    if mode = 3 then do
      let mode ← cmd8 CommandItem.initMode
      let r ← onUpgradeFile fun file => chip.jlfsGetIdleBankInfo file mode.toUInt32
      pure r.toUInt8
    else do
      let name ← cmdBytes CommandItem.initFileName 16
      let mode ← cmd8 CommandItem.initMode
      onUpgradeFile fun file => chip.jlfsFopenByName file name mode
  if err ≠ 0 then
    setBytes DevItem.initUpgradeAddr (List.replicate 16 0)
    set8 DevItem.rspStatus jlSuCmdOtherError
  else
    let d ← get
    set32 DevItem.initUpgradeAddr d.upgradeFile.addr
    set32 DevItem.initUpgradeLen d.upgradeFile.size
    set32 DevItem.initUpgradeEoffset (chip.jlfsGetFlashEoffsetSize d.fs)
    set32 DevItem.initFlashAlignsize (chip.jlfsGetFlashAlignSize d.fs)
    set8 DevItem.rspStatus jlSuCmdSuss
  setCmdLen (1 + 1 + 4 + 4 + 4 + 4)
  setRemainAndUpgradeRsp chip jlSuCmdDeviceInit

/-- The loop of `jl_su_flash_crc`: `n` more blocks of `l` bytes, the next one with index `i`. -/
def flashCrcLoop (l : UInt32) : ℕ → ℕ → DevM σ Unit
  | 0, _ => pure ()
  | n + 1, i => do
    let data ← onUpgradeFile fun file => chip.jlfsFread file l
    modify fun d => { d with globalBuffer := d.globalBuffer.write 0 data }
    let d ← get
    set16 (DevItem.crcListCrc + 2 * i) (chip.chipCrc16 (d.globalBuffer.bytes 0 l.toNat))
    flashCrcLoop l n (i + 1)

def jlSuFlashCrc : DevM σ Unit := do
  let len ← cmd32 CommandItem.crcListLen
  let blockSize ← cmd32 CommandItem.crcListBlockSize
  if blockSize = 0 then throw .divByZero
  let blockCount := len / blockSize
  let d ← get
  let l := d.flashAlignsize
  let address ← cmd32 CommandItem.crcListAddress
  onUpgradeFile fun file fs => ((), chip.jlfsFseek file address fs)
  flashCrcLoop chip l blockCount.toNat 0
  set8 DevItem.rspStatus jlSuCmdSuss
  setCmdLen (1 + 1 + blockCount.toNat * 2)
  setRemainAndUpgradeRsp chip jlSuCmdFlashCrc

/-- The `switch` of `jl_su_erase`. -/
def eraseTypeLen (type : UInt32) : UInt32 :=
  if type = jlEraseTypePage then 256
  else if type = jlEraseTypeSector then 4096
  else if type = jlEraseTypeBlock then 65536
  else 0

def jlSuErase : DevM σ Unit := do
  let address ← cmd32 CommandItem.eraseAddress
  onUpgradeFile fun file fs => ((), chip.jlfsFseek file address fs)
  let type ← cmd32 CommandItem.eraseType
  let len := eraseTypeLen type
  let r ← onUpgradeFile fun file => chip.jlfsErase file len
  if r = 0 then
    set8 DevItem.rspStatus jlSuCmdEraseError
  else
    set8 DevItem.rspStatus jlSuCmdSuss
  setCmdLen (1 + 1)
  setRemainAndUpgradeRsp chip jlSuCmdErase

def jlSuWriteFlash : DevM σ Unit := do
  let address ← cmd32 CommandItem.writeAddress
  onUpgradeFile fun file fs => ((), chip.jlfsFseek file address fs)
  let dataLength ← cmd32 CommandItem.writeDataLength
  let data ← cmdBytes CommandItem.writeData dataLength.toNat
  let r ← onUpgradeFile fun file => chip.jlfsWrite file data
  if r ≠ dataLength then
    set8 DevItem.rspStatus jlSuCmdWriteError
  else
    set8 DevItem.rspStatus jlSuCmdSuss
  setCmdLen (1 + 1)
  setRemainAndUpgradeRsp chip jlSuCmdWrite

/-- With another `sdk_id` the identity fields of the reply keep what the buffer held. -/
def jlSuDevcieCheck : DevM σ Unit := do
  let sdkId ← cmd32 CommandItem.deviceCheckSdkId
  if sdkId = 0x12345678 then
    let d ← get
    let (pid, vid) := chip.jlfsGetPidVid d.fs
    setBytes DevItem.deviceCheckPid pid.toList
    setBytes DevItem.deviceCheckVid vid.toList
    set8 DevItem.rspStatus jlSuCmdSuss
  else
    set8 DevItem.rspStatus jlSuCmdSdkIdError
  set32 DevItem.deviceCheckSdkId 0x12345678
  setCmdLen (1 + 1 + 4 + 16 + 4)
  setRemainAndUpgradeRsp chip jlSuCmdDeviceCheck

def jlSuUpdataDualBankCrc : DevM σ Unit := do
  let crc ← cmd16 CommandItem.dualBankInfoCrc
  let _ ← onUpgradeFile fun file => chip.jlfsUpdataDualBankInfo file crc
  set8 DevItem.rspStatus jlSuCmdSuss
  setCmdLen (1 + 1)
  setRemainAndUpgradeRsp chip jlSuCmdUpdataDualBankCrc

/-! ### The loop -/

/-- The `switch` of `upgrade_loop`; `true` when the loop is left. -/
def dispatch : DevM σ Bool := do
  let cmd ← cmd8 CommandItem.cmd
  if cmd = jlSuCmdDeviceInit then
    jlSuDeviceInit chip
    return false
  else if cmd = jlSuCmdFlashCrc then
    jlSuFlashCrc chip
    return false
  else if cmd = jlSuCmdWrite then
    jlSuWriteFlash chip
    return false
  else if cmd = jlSuCmdErase then
    jlSuErase chip
    return false
  else if cmd = jlSuCmdDeviceCheck then
    jlSuDevcieCheck chip
    return false
  else if cmd = jlSuCmdUpdataDualBankCrc then
    jlSuUpdataDualBankCrc chip
    return false
  else
    return cmd = jlSuCmdReboot

/-- One turn of `upgrade_loop`, on one received chunk. -/
def upgradeTurn (chunk : List UInt8) : DevM σ Bool := do
  if ← recvNewData chip chunk then dispatch chip else return false

/-- `upgrade_loop` on the chunks it receives, until the reboot command. -/
def upgradeLoop : List (List UInt8) → DevM σ Unit
  | [] => pure ()
  | chunk :: rest => do
    if ← upgradeTurn chip chunk then return () else upgradeLoop rest

end FwBootloader.User
