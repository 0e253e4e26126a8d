import FwBootloader.Link.Messages
import FwBootloader.Link.Usb
import FwBootloader.User.Main

/-!
## The life of a device

A device is reset and runs `main`, which leads to the app or to `upgrade_loop`.  There hosts may try
to update its application, any number of times and with any files, over lossy serial links and over
USB.  The reboot command resets it, the app may ask for an upgrade, and the power may go at any
time.

Between two of these steps only the flash and the flags count; a host finds the RAM of the device in
some state or other.
-/

namespace FwBootloader

open Dialog User Uart

/-- The flash has, in every block, the checksum of the file's image. -/
def Verified (z : Zone) (file : QByteArray) (flash : Flash) : Prop :=
  ∃ (hzone : z.zoneAddr.toNat < file.data.length)
    (hunit : z.alignSize = 256 ∨ z.alignSize = 4096),
    (z.image file hzone hunit).blocks.readChecksums flash Crc16.xmodem
      = (z.image file hzone hunit).blocks.checksums Crc16.xmodem

/-- The device is in `upgrade_loop` with the flash, and some RAM. -/
structure Waits (z : Zone) (flash : Flash) (d : Device Flash) : Prop where
  flash : d.fs = flash
  align : d.flashAlignsize = z.alignSize

/-- A host tries to update the application of a device in `upgrade_loop`: the flash that is left,
and whether the device is still in the loop. -/
inductive Session (z : Zone) (key : UInt32) (file : QByteArray) (flash : Flash) :
    Flash → Bool → Prop where
  /-- Over a serial link, to any reachable state. -/
  | uart {t : UpdateThread} {fuel : ℕ} {d : Device Flash} {s : Messages Flash}
      (hfile : t.fileContent = file) (hmode : t.isUpdateUboot = false) (hkey : t.encKey = key)
      (hd : Waits z flash d)
      (hs : Messages.Reachable (norChip z key Crc16.xmodem) t (fuel + 1) d s) :
      Session z key file flash s.device.fs s.running
  /-- Over USB, to any cut point. -/
  | usb {link : UsbLink} {info : DeviceInitInfo} {fuel : ℕ} {d : Device Flash} {hidTxBuf : Mem}
      {u : UsbSystem Flash} (hkey : Hid.communicationKey = key) (hd : Waits z flash d)
      (hu : u ∈ states (UsbSystem.serve (norChip z key Crc16.xmodem) link)
        ((Hid.main info file (fuel + 1)).run .initial) ⟨d, true, hidTxBuf⟩)
      (hrunning : u.running = true) : Session z key file flash u.device.fs true
  /-- Over USB, to the end. -/
  | usbEnd {link : UsbLink} {info : DeviceInitInfo} {fuel : ℕ} {d : Device Flash} {hidTxBuf : Mem}
      {u : UsbSystem Flash} (hkey : Hid.communicationKey = key) (hd : Waits z flash d)
      (hu : u = final (UsbSystem.serve (norChip z key Crc16.xmodem) link)
        ((Hid.main info file (fuel + 1)).run .initial) ⟨d, true, hidTxBuf⟩) :
      Session z key file flash u.device.fs u.running

/-- Where a device is: it has been reset, it waits for commands, or it runs the app, which may have
reported a successful upgrade when it started. -/
inductive Stage where
  | reset
  | upgradeLoop
  | app (told : Bool)

/-- A device, and the files that hosts have tried on it. -/
structure Life where
  stage : Stage
  nvram : Mem
  flash : Flash
  tried : List QByteArray

namespace Life

/-- What can happen next, with a bootloader that is built with or without `USE_UPGRADE_MAGIC`. -/
inductive Step (useUpgradeMagic : Bool) (p : Startup Flash) (z : Zone) (key : UInt32) :
    Life → Life → Prop where
  | enter {s : Life} {fuel : ℕ} {nvram : Mem} {d d' : Device Flash} (hstage : s.stage = .reset)
      (hd : d.fs = s.flash)
      (hmain : User.main p useUpgradeMagic fuel s.nvram d = .ok (some (.upgradeLoop, nvram)) d') :
      Step useUpgradeMagic p z key s { s with
        stage := .upgradeLoop, nvram := nvram, flash := d'.fs }
  | start {s : Life} {fuel : ℕ} {nvram : Mem} {d d' : Device Flash} (hstage : s.stage = .reset)
      (hd : d.fs = s.flash)
      (hmain : User.main p useUpgradeMagic fuel s.nvram d = .ok (some (.app, nvram)) d') :
      Step useUpgradeMagic p z key s { s with
        stage := .app (checkUbootUartUpgrade nvram).1, nvram := (checkUbootUartUpgrade nvram).2,
        flash := d'.fs }
  | session {s : Life} {file : QByteArray} {flash : Flash} (hstage : s.stage = .upgradeLoop)
      (hsession : Session z key file s.flash flash true) :
      Step useUpgradeMagic p z key s { s with flash := flash, tried := s.tried ++ [file] }
  | reboot {s : Life} {file : QByteArray} {flash : Flash} (hstage : s.stage = .upgradeLoop)
      (hsession : Session z key file s.flash flash false) :
      Step useUpgradeMagic p z key s { s with
        stage := .reset, nvram := rebootFlag useUpgradeMagic s.nvram, flash := flash,
        tried := s.tried ++ [file] }
  | request {s : Life} {told : Bool} (hstage : s.stage = .app told) :
      Step useUpgradeMagic p z key s { s with
        stage := .reset, nvram := chipRebootEntryUbootUartUpgradeMode s.nvram }
  | reset {s : Life} {told : Bool} (hstage : s.stage = .app told) :
      Step useUpgradeMagic p z key s { s with stage := .reset }
  /-- The memory of the flags comes up with anything but a report of success. -/
  | powerCut {s : Life} {nvram : Mem} (hnvram : nvram.bytes 0 8 ≠ ubootUartUpgradeSuccMagic) :
      Step useUpgradeMagic p z key s { s with stage := .reset, nvram := nvram }

end Life

/-- A device with a zone that can be opened, whose bootloader runs at its own place.  Mounting does
not write, fails where the app has no head, and if it succeeds the bootloader's library finds
nothing to do. -/
structure Works (p : Startup Flash) (z : Zone) (key : UInt32) : Prop where
  chip : p.toChip = norChip z key Crc16.xmodem
  place : ∀ m, p.getUbootOffset m ≠ 1024 * 64
  mount : ∀ m, (p.jlfsMount m).2 = m
  headless : ∀ m, m.Erased z.flashEoffsetSize 32 → (p.jlfsMount m).1 ≠ 0
  idle : ∀ m, p.jlCheckUpgrade 0 m = m

end FwBootloader
