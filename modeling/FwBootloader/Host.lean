import FwBootloader.Lib.Dialog
import FwBootloader.Lib.Nor
import Mathlib.Tactic.SplitIfs

/-!
## What the updaters share

Each host program is a `Dialog`: it sends a command and waits for what comes back.  The faults are
what C++ leaves undefined, and the model's own loop bound: a `while` loop that can run forever
counts its turns down from `fuel`.
-/

namespace FwBootloader

/-- Why a host program stops without returning.  `replyOutOfBounds` is a copy out of a reply that
leaves its buffer. -/
inductive HostFault where
  | divByZero
  | outOfBounds
  | replyOutOfBounds
  | outOfFuel
  deriving DecidableEq

/-- A command of the protocol, with its parameters. -/
inductive Cmd where
  | deviceInit (area : String) (mode : UInt8)
  | deviceCheck (sdkId : UInt32)
  | erase (address type : UInt32)
  | write (address len : UInt32) (content : List UInt8)
  | flashCrc (address len blockSize : UInt32)
  | reboot
  deriving DecidableEq

/-- The command erases or programs the flash. -/
def Cmd.Modifies : Cmd → Prop
  | .erase _ _ => True
  | .write _ _ _ => True
  | _ => False

/-- The fields of a successful device init reply. -/
structure DeviceInitInfo where
  zoneAddr : UInt32
  upgradeLen : UInt32
  flashEoffsetSize : UInt32
  eraseUnitSize : UInt32
  deriving DecidableEq

/-- The characters of a C string literal. -/
def chars (s : String) : List UInt8 :=
  s.toList.map fun c => UInt8.ofNat c.toNat

/-- A file's content: `QByteArray::size()` is an `int`. -/
structure QByteArray where
  data : List UInt8
  size_lt : data.length < 2 ^ 31

/-- `size() <= len`, with both sides unsigned. -/
theorem QByteArray.size_le_iff (file : QByteArray) (len : UInt32) :
    UInt32.ofNat file.data.length ≤ len ↔ file.data.length ≤ len.toNat := by
  have hlt := file.size_lt
  rw [UInt32.le_iff_toNat_le, UInt32.toNat_ofNat_of_lt' (show file.data.length < 2 ^ 32 by omega)]

/-- `append(count, ch)`: a count that is negative as an `int` appends nothing. -/
def qAppend (data : List UInt8) (count : UInt32) (ch : UInt8) : List UInt8 :=
  if count < 0x80000000 then data ++ List.replicate count.toNat ch else data

/-- `mid(0, len)`: a length that is negative as an `int` means all of it. -/
def qMid (data : List UInt8) (len : UInt32) : List UInt8 :=
  if len < 0x80000000 then data.take len.toNat else data

/-- The `len` bytes at `off` behind a pointer to `buf`, if they are all inside. -/
def readBuf (buf : List UInt8) (off len : UInt32) : Option (List UInt8) :=
  if off.toNat + len.toNat ≤ buf.length then some ((buf.drop off.toNat).take len.toNat) else none

/-! ### Procedures that all hosts have

Each host has its own copy of these loops, with its own exchange inside. -/

def jlEraseTypePage : UInt32 := 1
def jlEraseTypeSector : UInt32 := 2
def jlEraseTypeBlock : UInt32 := 3

def jlMaxCrcListCount : UInt32 := 16

/-- The `type` that `doEraseFlash` sends. -/
def eraseType (len : UInt32) : UInt32 :=
  if len = 64 * 1024 then jlEraseTypeBlock
  else if len = 4096 then jlEraseTypeSector
  else if len = 256 then jlEraseTypePage
  else 0

/-- How many CRCs the next request asks for. -/
def readCountOf (blockCount : UInt32) : UInt32 :=
  if blockCount > jlMaxCrcListCount then jlMaxCrcListCount else blockCount

theorem toNat_readCountOf (blockCount : UInt32) :
    (readCountOf blockCount).toNat = min blockCount.toNat 16 := by
  unfold readCountOf
  split_ifs with h
  · have h16 : 16 < blockCount.toNat := UInt32.lt_iff_toNat_lt.mp h
    rw [Nat.min_eq_right (by omega)]
    rfl
  · have h16 : ¬ 16 < blockCount.toNat := fun hlt => h (UInt32.lt_iff_toNat_lt.mpr hlt)
    rw [Nat.min_eq_left (by omega)]

theorem readCountOf_le (blockCount : UInt32) : readCountOf blockCount ≤ blockCount := by
  rw [UInt32.le_iff_toNat_le, toNat_readCountOf]
  omega

theorem toNat_readCountOf_le (blockCount : UInt32) : (readCountOf blockCount).toNat ≤ 16 := by
  rw [toNat_readCountOf]
  exact Nat.min_le_right _ _

theorem toNat_sub_readCountOf (blockCount : UInt32) :
    (blockCount - readCountOf blockCount).toNat
      = blockCount.toNat - (readCountOf blockCount).toNat :=
  UInt32.toNat_sub_of_le _ _ (readCountOf_le blockCount)

section Loops

variable {m : Type → Type} [Monad m]

/-- The loop of `fetchChipCrcList`: the filled list, or `none` for `false`. -/
def fetchBatches (fetchBatch : UInt32 → UInt32 → m (Option (List UInt16))) (blockSize : UInt32)
    (address blockCount : UInt32) : m (Option (List UInt16)) :=
  if _h : blockCount = 0 then return some []
  else do
    let readCount := readCountOf blockCount
    match ← fetchBatch address readCount with
    | none => return none
    | some crcs =>
      match ← fetchBatches fetchBatch blockSize (address + readCount * blockSize)
          (blockCount - readCount) with
      | none => return none
      | some rest => return some (crcs ++ rest)
termination_by blockCount.toNat
decreasing_by
  have hpos : blockCount.toNat ≠ 0 := fun h0 => _h (UInt32.toNat_inj.mp h0)
  rw [toNat_sub_readCountOf, toNat_readCountOf]
  omega

/-- The `while (len)` loop of `eraseFlash`; `stuck` stands for not leaving it. -/
def eraseLoop (stuck : m Bool) (doEraseFlash : UInt32 → UInt32 → m Bool) (fuel : ℕ)
    (address len : UInt32) : m Bool :=
  if len = 0 then return true
  else
    match fuel with
    | 0 => stuck
    | fuel + 1 => do
      if ← doEraseFlash address 4096 then
        eraseLoop stuck doEraseFlash fuel (address + 4096) (len - 4096)
      else return false

/-- `eraseFlash`. -/
def eraseUnits (stuck : m Bool) (doEraseFlash : UInt32 → UInt32 → m Bool) (fuel : ℕ)
    (address len : UInt32) : m Bool :=
  if len = 256 then doEraseFlash address len else eraseLoop stuck doEraseFlash fuel address len

/-- The loop over the blocks behind the first: `n` more of them, the next one with index `i`. -/
def updateBlocks (eraseFlash : UInt32 → UInt32 → m Bool)
    (writeFlash : List UInt8 → UInt32 → UInt32 → UInt32 → m Bool) (fileBuf : List UInt8)
    (fileCrcList chipCrcList : List UInt16) (upgradeAddr eraseUnitSize : UInt32) :
    ℕ → UInt32 → m Bool
  | 0, _ => return true
  | n + 1, i => do
    let off := i * eraseUnitSize
    if fileCrcList.getD i.toNat 0 ≠ chipCrcList.getD i.toNat 0 then
      if !(← eraseFlash (upgradeAddr + off) eraseUnitSize) then return false
      if !(← writeFlash (fileBuf.drop off.toNat) (upgradeAddr + off) eraseUnitSize
          eraseUnitSize) then
        return false
    updateBlocks eraseFlash writeFlash fileBuf fileCrcList chipCrcList upgradeAddr eraseUnitSize n
      (i + 1)

end Loops

/-! ### Runs -/

/-- What a run of a host against a device shows: how it ends, the commands, the flash afterwards,
and the flash at every cut point. -/
structure Trace (α : Type) where
  outcome : Except HostFault α
  commands : List Cmd
  flash : Flash
  cuts : List Flash

end FwBootloader
