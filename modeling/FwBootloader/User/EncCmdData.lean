import FwBootloader.Lib.Buffer
import FwBootloader.User.Upgrade

/-!
## `enc_cmd_data`, byte by byte

The same two functions as in `Upgrade.lean`, with their loops, their unsigned counters and every
access to the buffer.
-/

namespace FwBootloader.User.Bytewise

open Bytes BufM

variable {σ : Type} (chip : Chip σ)

/-- The loop of `enc_dec_data` from `i` on, over the `len` bytes behind `buf`. -/
def encDecData (buf : ℕ) (len i keyIdx : UInt32) : BufM Unit :=
  if h : i < len then do
    let b ← read (buf + i.toNat)
    write (buf + i.toNat) (b ^^^ (le32 chip.communicationKey).getD (keyIdx &&& 0x3).toNat 0)
    encDecData buf len (i + 1) (keyIdx + 1)
  else return ()
termination_by len.toNat - i.toNat
decreasing_by
  have hlt := UInt32.lt_iff_toNat_lt.mp h
  have hmax := len.toNat_lt
  have hone : (1 : UInt32).toNat = 1 := UInt32.toNat_one
  rw [UInt32.toNat_add, hone]
  omega

/-- `buf[i] == SYNC_MARK0 && buf[i + 1] == SYNC_MARK1`; the second byte is only read when the first
is right. -/
def isMark (i : UInt32) : BufM Bool := do
  if (← read i.toNat) = syncMark0 then return (← read (i + 1).toNat) = syncMark1
  else return false

/-- What the loop does at a marker. -/
def checkCmd (len i : UInt32) : BufM (Option UInt32) := do
  let cmdLen ← read16 (i.toNat + 2)
  if i + 2 + 2 + cmdLen.toUInt32 + 2 > len then return none
  let dataCrc ← read16 (i.toNat + 2 + 2 + cmdLen.toNat)
  let bytes ← readBytes i.toNat (2 + 2 + cmdLen.toNat)
  let checkCrc := chip.chipCrc16 bytes
  if dataCrc = checkCrc then
    encDecData chip (i.toNat + 4) cmdLen.toUInt32 0 0
    return some i
  else return none

/-- The loop of `enc_cmd_data` from `i` on. -/
def search (len i : UInt32) : BufM (Option UInt32) :=
  if h : i < len - 7 then do
    if ← isMark i then checkCmd chip len i
    else search len (i + 1)
  else return none
termination_by (len - 7).toNat - i.toNat
decreasing_by
  have hlt := UInt32.lt_iff_toNat_lt.mp h
  have hmax := (len - 7).toNat_lt
  have hone : (1 : UInt32).toNat = 1 := UInt32.toNat_one
  rw [UInt32.toNat_add, hone]
  omega

/-- The index of the frame, or `none` for `NULL`. -/
def encCmdData (len : UInt32) : BufM (Option UInt32) :=
  if len < 2 + 2 + 2 + 2 then return none
  else search chip len 0

end FwBootloader.User.Bytewise
