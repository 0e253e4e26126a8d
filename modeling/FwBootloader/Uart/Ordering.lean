import FwBootloader.Lib.Crc16
import FwBootloader.Uart.History
import FwBootloader.ZoneDevice

/-!
## What has to come first

`Ordered` says which commands the updater may send after a history: nothing that modifies the flash
before the device has been accepted and the image is known to reach behind the zone's address,
nothing in the bootloader's area before the backup has been checked, and no reboot before the
application has been checked.
-/

namespace FwBootloader.Uart

/-- The documented 0K and 4K layouts, with pages or sectors as erase units. -/
structure Layout (info : DeviceInitInfo) : Prop where
  unit_cases : info.eraseUnitSize = 256 ∨ info.eraseUnitSize = 4096
  eoffset_dvd : 4096 ∣ info.flashEoffsetSize.toNat
  eoffset_lt : info.flashEoffsetSize.toNat < 65536

variable (a : UbootImage)

/-- The backup at `65536` has been read back and has the checksums of the bootloader, and nothing
has touched it since. -/
def BackupRead (h : List Exchange) : Prop :=
  ∃ h₁ hf h₂, h = h₁ ++ hf ++ h₂ ∧
    Fetched a.app.eraseUnitSize 65536 a.bootCount
      ((a.bootBuffer.blocks 65536).checksums Crc16.xmodem) hf ∧
    ∀ x ∈ h₂, ¬ x.1.Touches 65536 (65536 + 65536)

/-- The backup has been read back in the bootloader's zone, and perhaps the application's zone has
been selected again since. -/
def BackupChecked (h : List Exchange) : Prop :=
  BackupRead a h ∨ ∃ h₁ r h₂, h = h₁ ++ (.deviceInit "app_dir_head" 0, r) :: h₂ ∧ BackupRead a h₁

/-- The last exchanges are a complete reading of the checksums from `flashEoffsetSize` on, and these
are the image's. -/
def AppChecked (a : AppImage) (h : List Exchange) : Prop :=
  ∃ h₁ hf, h = h₁ ++ hf ∧
    Fetched a.app.eraseUnitSize a.app.flashEoffsetSize a.count
      (a.blocks.checksums Crc16.xmodem) hf

/-- The updater may send `c` after `h`. -/
structure Ordered (isUpdateUboot : Bool) (h : List Exchange) (c : Cmd) : Prop where
  started : Started a.app h
  /-- The first erase announces the update, in the application's first unit. -/
  uboot : isUpdateUboot = true → c.Touches a.app.flashEoffsetSize.toNat 65536 →
    (c = .erase a.app.zoneAddr (eraseType a.app.eraseUnitSize) ∧ ∀ x ∈ h, ¬ x.1.Modifies) ∨
      BackupChecked a h
  reboot : c = .reboot → AppChecked a.toAppImage h

end FwBootloader.Uart
