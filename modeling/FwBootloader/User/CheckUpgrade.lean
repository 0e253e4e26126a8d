import FwBootloader.User.Upgrade

/-!
## Entering the upgrade: `user_check_upgrade`

Before it opens the zone and calls `upgrade_loop`, `user_check_upgrade` looks where the bootloader
runs.  A bootloader at 64K is a copy: the head of the app is erased, so that it does not start
before it has been written anew, and the bootloader is copied back to where it belongs
(`copyUboot`).

`norBoot` is an instance over a NOR array in which files have a place and a size.
-/

namespace FwBootloader.User

open Bytes

/-- What `user_check_upgrade` calls besides the functions of `Chip`. -/
structure Boot (σ : Type) extends Chip σ where
  jlfsGetFlashAppBaseAddr : σ → UInt32
  getUbootOffset : σ → UInt32
  setUbootOffset : UInt32 → σ → σ

variable {σ : Type}

/-- A `jlfs` call on a local file. -/
def DevM.onFile {α : Type} (file : JlfsFile) (call : JlfsFile → σ → α × JlfsFile × σ) :
    DevM σ (α × JlfsFile) := do
  let d ← get
  let r := call file d.fs
  set { d with fs := r.2.2 }
  return (r.1, r.2.1)

open DevM

variable (boot : Boot σ)

/-- The head of the app is erased. -/
def eraseAppHead (flashAppBaseAddr : UInt32) : DevM σ Unit := do
  let d ← get
  let appHead : JlfsFile :=
    { addr := flashAppBaseAddr
      size := d.flashAlignsize
      pos := 0
      res := 0 }
  let _ ← onFile appHead fun file => boot.jlfsErase file appHead.size

/-- The place of the copy is noted and erased. -/
def erasePaste (flashAppBaseAddr flashOffsetSize : UInt32) : DevM σ JlfsFile := do
  let filePaste : JlfsFile :=
    { addr := flashOffsetSize
      size := flashAppBaseAddr
      pos := 0
      res := 0 }
  modify fun d => { d with fs := boot.setUbootOffset flashOffsetSize d.fs }
  let (_, filePaste) ← onFile filePaste fun file fs => ((), boot.jlfsFseek file 0 fs)
  let (_, filePaste) ← onFile filePaste fun file => boot.jlfsErase file filePaste.size
  return filePaste

/-- The loop that copies through the global buffer; `false` when the fuel has not been enough. -/
def copyLoop (l : UInt32) : ℕ → JlfsFile → JlfsFile → DevM σ Bool
  | 0, _, _ => return false
  | fuel + 1, fileCopy, filePaste => do
    let (data, fileCopy) ← onFile fileCopy fun file => boot.jlfsFread file l
    modify fun d => { d with globalBuffer := d.globalBuffer.write 0 data }
    let len := data.length
    if len = 0 then return true
    else
      let d ← get
      let (_, filePaste) ← onFile filePaste fun file =>
        boot.jlfsWrite file (d.globalBuffer.bytes 0 len)
      copyLoop l fuel fileCopy filePaste

/-- The block of `user_check_upgrade` that copies the bootloader back. -/
def copyUboot (fuel : ℕ) (flashAppBaseAddr flashOffsetSize flashUbootOffset : UInt32) :
    DevM σ Bool := do
  let fileCopy : JlfsFile :=
    { addr := flashUbootOffset
      size := flashAppBaseAddr
      pos := 0
      res := 0 }
  eraseAppHead boot flashAppBaseAddr
  let filePaste ← erasePaste boot flashAppBaseAddr flashOffsetSize
  let d ← get
  let l := d.flashAlignsize
  let (_, fileCopy) ← onFile fileCopy fun file fs => ((), boot.jlfsFseek file 0 fs)
  let (_, filePaste) ← onFile filePaste fun file fs => ((), boot.jlfsFseek file 0 fs)
  copyLoop boot l fuel fileCopy filePaste

/-- The string literal `"app_dir_head"`. -/
def appDirHead : List UInt8 :=
  ("app_dir_head".toList.map fun c => UInt8.ofNat c.toNat) ++ [0]

/-- `user_check_upgrade` from the opening of the zone on. -/
def openUpgradeFile (chunks : List (List UInt8)) : DevM σ UInt8 := do
  let err ← onUpgradeFile fun file => boot.jlfsFopenByName file appDirHead 0
  if err ≠ 0 then return 1
  upgradeLoop boot.toChip chunks
  return 0

/-- `user_check_upgrade` on the chunks that `upgrade_loop` receives; `none` when the fuel has not
been enough for the copy. -/
def userCheckUpgrade (fuel : ℕ) (chunks : List (List UInt8)) : DevM σ (Option UInt8) := do
  modify fun d => { d with flashAlignsize := boot.jlfsGetFlashAlignSize d.fs }
  let d ← get
  let flashAppBaseAddr := boot.jlfsGetFlashAppBaseAddr d.fs
  let flashOffsetSize := boot.jlfsGetFlashEoffsetSize d.fs
  let flashUbootOffset := boot.getUbootOffset d.fs
  let copied ←
    if flashUbootOffset = 1024 * 64 then
      copyUboot boot fuel flashAppBaseAddr flashOffsetSize flashUbootOffset
    else pure true
  if copied then some <$> openUpgradeFile boot chunks else return none

/-- A device whose files lie in one NOR array, with the bootloader at 64K. -/
def norBoot (z : Zone) (key : UInt32) (crc : List UInt8 → UInt16) (flashAppBaseAddr : UInt32) :
    Boot Flash where
  toChip :=
    { norChip z key crc with
      jlfsFread := fun file len flash =>
        let n := min len.toNat (file.size.toNat - file.pos.toNat)
        (flash.read (file.addr + file.pos) n, { file with pos := file.pos + UInt32.ofNat n }, flash)
      jlfsErase := fun file len flash => (1, file, flash.erase (file.addr + file.pos) len.toNat)
      jlfsWrite := fun file buf flash =>
        (UInt32.ofNat buf.length, { file with pos := file.pos + UInt32.ofNat buf.length },
          flash.program (file.addr + file.pos) buf) }
  jlfsGetFlashAppBaseAddr _ := flashAppBaseAddr
  getUbootOffset _ := 1024 * 64
  setUbootOffset _ flash := flash

/-- A device with 4K sectors that reserves one, its app at an address. -/
def sampleBoot (flashAppBaseAddr : UInt32) : Boot Flash :=
  norBoot
    { zoneAddr := 0x2000
      upgradeLen := 0x10000
      flashEoffsetSize := 0x1000
      alignSize := 4096
      pid := Vector.replicate 16 0
      vid := Vector.replicate 4 0 }
    0xC0FFEE Crc16.xmodem flashAppBaseAddr

end FwBootloader.User
