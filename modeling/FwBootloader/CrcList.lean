import FwBootloader.Hid.Main
import FwBootloader.Uart.UpdateThread

/-!
## `fetchChipCrcList`, with the caller's array

The functions of `UpdateThread.lean` and `Main.lean` that fill `crcList`, with the memory that it
points to: every reply is copied behind the ones before it.
-/

namespace FwBootloader

open Bytes

/-- The loop of `fetchChipCrcList` with its three cursors: `address`, `blockCount` and `crcList`,
which is an offset in `mem`.  What has been copied when it returns `false` stays. -/
def storeBatches {m : Type → Type} [Monad m]
    (storeBatch : Mem → ℕ → UInt32 → UInt32 → m (Option Mem)) (blockSize : UInt32) (mem : Mem)
    (crcList : ℕ) (address blockCount : UInt32) : m (Bool × Mem) :=
  if _h : blockCount = 0 then return (true, mem)
  else do
    let readCount := readCountOf blockCount
    match ← storeBatch mem crcList address readCount with
    | none => return (false, mem)
    | some mem =>
      storeBatches storeBatch blockSize mem (crcList + 2 * readCount.toNat)
        (address + readCount * blockSize) (blockCount - readCount)
termination_by blockCount.toNat
decreasing_by
  have hpos : blockCount.toNat ≠ 0 := fun h0 => _h (UInt32.toNat_inj.mp h0)
  rw [toNat_sub_readCountOf, toNat_readCountOf]
  omega

namespace Uart.InPlace

/-- The memory with the checksums at `crcList`, or the status stored for `false`. -/
def isReplyFlashCrcCmd (bin : List UInt8) (blockCount : UInt32) (mem : Mem) (crcList : ℕ) :
    Except (Option UInt8) Mem :=
  if UInt32.ofNat bin.length ≠ 1 + 1 + 2 * blockCount then .error none
  else if bin.getD 0 0 ≠ jlSuCmdFlashCrc ∨ bin.getD 1 0 ≠ jlSuRspSucc then
    .error (some (bin.getD 1 0))
  else .ok (mem.write crcList ((bin.drop 2).take (blockCount * 2).toNat))

/-- One request of `fetchChipCrcList`. -/
def fetchCrcBatch (blockSize : UInt32) (mem : Mem) (crcList : ℕ) (address readCount : UInt32) :
    HostM (Option Mem) := do
  match ← Dialog.exchange (.flashCrc address (readCount * blockSize) blockSize) with
  | none => return none
  | some cmd =>
    match isReplyFlashCrcCmd cmd readCount mem crcList with
    | .error _ => return none
    | .ok mem => return some mem

/-- What it returns, and the memory afterwards. -/
def fetchChipCrcList (address blockCount blockSize : UInt32) (crcList : ℕ) (mem : Mem) :
    HostM (Bool × Mem) :=
  storeBatches (fetchCrcBatch blockSize) blockSize mem crcList address blockCount

end Uart.InPlace

namespace Hid.InPlace

/-- The memory with the checksums at `crcList`, or `none` for `false`. -/
def isReplyFlashCrcCmd (bin : List UInt8) (blockCount : UInt32) (mem : Mem) (crcList : ℕ) :
    Except HostFault (Option Mem) :=
  if bin.getD 0 0 ≠ jlSuCmdFlashCrc ∨ bin.getD 1 0 ≠ jlSuRspSucc then .ok none
  else if bin.length < 2 + (blockCount * 2).toNat then .error .replyOutOfBounds
  else .ok (some (mem.write crcList ((bin.drop 2).take (blockCount * 2).toNat)))

/-- One request of `fetchChipCrcList`. -/
def fetchCrcBatch (blockSize : UInt32) (mem : Mem) (crcList : ℕ) (address readCount : UInt32) :
    HidM (Option Mem) := do
  exchange (.flashCrc address (readCount * blockSize) blockSize)
  let cmd ← replyBytes
  match isReplyFlashCrcCmd cmd readCount mem crcList with
  | .error e => abort e
  | .ok mem => return mem

/-- What it returns, and the memory afterwards. -/
def fetchChipCrcList (address blockCount blockSize : UInt32) (crcList : ℕ) (mem : Mem) :
    HidM (Bool × Mem) :=
  storeBatches (fetchCrcBatch blockSize) blockSize mem crcList address blockCount

end Hid.InPlace

end FwBootloader
