import FwBootloader.Image
import FwBootloader.Lib.Bytes
import FwBootloader.User.Equiv.Handlers

/-!
## The device as a host sees it

`ZoneDevice` is the abstract model of a working device: a flash array, answered command by command,
with no packets, keys, checksums of packets or buffers.  `Fits` are the commands that it models.
-/

namespace FwBootloader

open Bytes User

/-! ### Commands -/

/-- The opcode of a command. -/
def Cmd.opcode : Cmd → UInt8
  | .deviceInit _ _ => jlSuCmdDeviceInit
  | .deviceCheck _ => jlSuCmdDeviceCheck
  | .erase _ _ => jlSuCmdErase
  | .write _ _ _ => jlSuCmdWrite
  | .flashCrc _ _ _ => jlSuCmdFlashCrc
  | .reboot => jlSuCmdReboot

/-- The plaintext of a command's packet: opcode, status and parameters. -/
def Cmd.payload : Cmd → List UInt8
  | .deviceInit area mode =>
    let name := (chars area).take 15
    jlSuCmdDeviceInit :: jlSuCmdSuss :: (name ++ List.replicate (16 - name.length) 0 ++ [mode])
  | .deviceCheck sdkId => jlSuCmdDeviceCheck :: jlSuCmdSuss :: le32 sdkId
  | .erase address type => jlSuCmdErase :: jlSuCmdSuss :: (le32 address ++ le32 type)
  | .write address len content =>
    jlSuCmdWrite :: jlSuCmdSuss :: (le32 address ++ le32 len ++ content)
  | .flashCrc address len blockSize =>
    jlSuCmdFlashCrc :: jlSuCmdSuss :: (le32 address ++ le32 len ++ le32 blockSize)
  | .reboot => [jlSuCmdReboot, jlSuCmdSuss]

/-- The commands that the abstract device models: the device's own `sdk_id`, a write with the data
it announces and no longer than the receive buffer, and lists of checksums that fit a reply. -/
def Fits : Cmd → Prop
  | .deviceCheck sdkId => sdkId = 0x12345678
  | .write _ len content => content.length = len.toNat ∧ len.toNat ≤ 4096
  | .flashCrc _ len blockSize => blockSize ≠ 0 ∧ (len / blockSize).toNat ≤ 16
  | _ => True

theorem length_payload {c : Cmd} (h : Fits c) : 2 ≤ c.payload.length ∧ c.payload.length ≤ 4106 := by
  cases c with
  | deviceInit area mode =>
    simp only [Cmd.payload, List.length_cons, List.length_append, List.length_replicate,
      List.length_take, List.length_nil]
    omega
  | write address len content =>
    obtain ⟨hlen, hmax⟩ := h
    simp only [Cmd.payload, List.length_cons, List.length_append, length_le32, hlen]
    omega
  | deviceCheck sdkId => simp [Cmd.payload]
  | erase address type => simp [Cmd.payload]
  | flashCrc address len blockSize => simp [Cmd.payload]
  | reboot => simp [Cmd.payload]

/-- The command erases or programs the byte at the address. -/
def Cmd.Reaches : Cmd → UInt32 → Prop
  | .erase address type, x => Flash.Within address (eraseTypeLen type).toNat x
  | .write address len _, x => Flash.Within address len.toNat x
  | _, _ => False

/-- The command erases or programs an address from `lo` up to `hi`. -/
def Cmd.Touches (c : Cmd) (lo hi : ℕ) : Prop :=
  ∃ x : UInt32, c.Reaches x ∧ lo ≤ x.toNat ∧ x.toNat < hi

theorem Cmd.Touches.modifies {c : Cmd} {lo hi : ℕ} (h : c.Touches lo hi) : c.Modifies := by
  obtain ⟨x, hx, -⟩ := h
  cases c <;> trivial

/-! ### Answers -/

/-- The checksums of `n` blocks of `l` bytes from `address` on. -/
def blockCrcs (flash : Flash) (address l : UInt32) (n : ℕ) : List UInt16 :=
  (List.range n).map fun k =>
    Crc16.xmodem (flash.read (address + UInt32.ofNat k * l) l.toNat)

@[simp] theorem length_blockCrcs (flash : Flash) (address l : UInt32) (n : ℕ) :
    (blockCrcs flash address l n).length = n := by
  simp [blockCrcs]

theorem getD_blockCrcs (flash : Flash) (address l : UInt32) {n i : ℕ} (hi : i < n) :
    (blockCrcs flash address l n).getD i 0
      = Crc16.xmodem (flash.read (address + UInt32.ofNat i * l) l.toNat) := by
  rw [List.getD_eq_getElem _ _ (by simpa using hi)]
  simp [blockCrcs]

/-- What a zone's device init reply says. -/
def User.Zone.info (z : Zone) : DeviceInitInfo :=
  ⟨z.zoneAddr, z.upgradeLen, z.flashEoffsetSize, z.alignSize⟩

/-- A file for a zone's device. -/
def User.Zone.image (z : Zone) (file : QByteArray) (hzone : z.zoneAddr.toNat < file.data.length)
    (hunit : z.alignSize = 256 ∨ z.alignSize = 4096) : AppImage where
  file := file
  app := z.info
  zone_lt := hzone
  unit_cases := hunit

/-- A device with one zone, and whether it still answers. -/
structure ZoneDevice where
  flash : Flash
  running : Bool

namespace ZoneDevice

variable (z : Zone)

/-- What a command does to the flash. -/
def step (flash : Flash) : Cmd → Flash
  | .erase address type => flash.erase address (eraseTypeLen type).toNat
  | .write address _ content => flash.program address content
  | _ => flash

/-- A byte that a command does not reach is left as it is. -/
theorem step_of_not_reaches (flash : Flash) {c : Cmd} (hc : Fits c) {x : UInt32}
    (hx : ¬ c.Reaches x) : step flash c x = flash x := by
  cases c with
  | erase address type => exact if_neg hx
  | write address len content =>
    rw [Cmd.Reaches, ← hc.1] at hx
    exact if_neg hx
  | deviceInit area mode => rfl
  | deviceCheck sdkId => rfl
  | flashCrc address len blockSize => rfl
  | reboot => rfl

/-- What a command is answered. -/
def answer (flash : Flash) : Cmd → Option Answer
  | .deviceInit _ _ =>
    some (.deviceInit z.zoneAddr z.upgradeLen z.flashEoffsetSize z.alignSize)
  | .deviceCheck _ => some (.deviceCheck z.vid z.pid)
  | .erase _ _ => some (.erase jlSuCmdSuss)
  | .write _ _ _ => some (.write jlSuCmdSuss)
  | .flashCrc address len blockSize =>
    some (.flashCrc (blockCrcs flash address z.alignSize (len / blockSize).toNat))
  | .reboot => none

/-- One exchange.  The host itself puts the empty reply to the reboot command into its queue. -/
def serve (s : ZoneDevice) (c : Cmd) : Option (List UInt8) × ZoneDevice :=
  if c = .reboot then (some [], { s with running := false })
  else if s.running then
    ((answer z s.flash c).map Answer.payload, { s with flash := step s.flash c })
  else (none, s)

end ZoneDevice

/-- The first block and those behind it. -/
theorem blockCrcs_succ (flash : Flash) (address l : UInt32) (n : ℕ) :
    blockCrcs flash address l (n + 1)
      = Crc16.xmodem (flash.read address l.toNat) :: blockCrcs flash (address + l) l n := by
  have hsucc (k : ℕ) : address + UInt32.ofNat (k + 1) * l = address + l + UInt32.ofNat k * l := by
    rw [UInt32.ofNat_add, UInt32.add_mul, UInt32.ofNat_one, UInt32.one_mul,
      UInt32.add_comm (_ * l), UInt32.add_assoc]
  rw [blockCrcs, List.range_succ_eq_map, List.map_cons, List.map_map,
    Bytes.add_ofNat_zero_mul, blockCrcs]
  simp only [Function.comp_def, Nat.succ_eq_add_one, hsucc]

end FwBootloader
