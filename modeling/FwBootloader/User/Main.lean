import FwBootloader.User.CheckUpgrade

/-!
## From reset to the upgrade or the app: `main.c`

`main` mounts the file system and, if it is built with `USE_UPGRADE_MAGIC`, enters the upgrade when
the app has asked for it or the mount has failed.  The app asks with a flag in `nvram_list`, a
memory that a reset leaves alone; with another flag there the upgrade tells the app of its success.

The app's side of the two flags is that of `doc/uboot升级使用说明v1.1.2.md`.
-/

namespace FwBootloader.User

open Bytes

/-! ### The flags -/

/-- The characters `uboot`, `0x5a` and `st`. -/
def ubootUartUpgradeModeMagic : List UInt8 :=
  [0x75, 0x62, 0x6F, 0x6F, 0x74, 0x5A, 0x73, 0x74]

/-- The characters `uboot`, `0xa5` and `ok`. -/
def ubootUartUpgradeSuccMagic : List UInt8 :=
  [0x75, 0x62, 0x6F, 0x6F, 0x74, 0xA5, 0x6F, 0x6B]

/-- The flag is cleared when it is found. -/
def ubootCheckUpgradeMagic (nvram : Mem) : UInt8 × Mem :=
  if nvram.bytes 0 8 = ubootUartUpgradeModeMagic then (1, nvram.write 0 (List.replicate 8 0))
  else (0, nvram)

def ubootSetUartUpgradeSucc (nvram : Mem) : Mem :=
  nvram.write 0 ubootUartUpgradeSuccMagic

/-- The app, when it starts: whether it reports a successful upgrade. -/
def checkUbootUartUpgrade (nvram : Mem) : Bool × Mem :=
  if nvram.bytes 0 8 = ubootUartUpgradeSuccMagic then (true, nvram.write 0 (List.replicate 8 0))
  else (false, nvram)

/-- The app asks for an upgrade, and resets the chip. -/
def chipRebootEntryUbootUartUpgradeMode (nvram : Mem) : Mem :=
  nvram.write 0 ubootUartUpgradeModeMagic

/-! ### `main` -/

/-- What `main` calls besides. -/
structure Startup (σ : Type) extends Boot σ where
  jlfsMount : σ → UInt8 × σ
  /-- The check for the upgrades that the bootloader's library knows. -/
  jlCheckUpgrade : UInt8 → σ → σ

/-- Where `main` leads: to the loop that waits for commands, or by `sfc_mode_boot` to the app. -/
inductive Booted where
  | upgradeLoop
  | app
  deriving DecidableEq

variable {σ : Type} (p : Startup σ)

/-- `#if(USE_UPGRADE_MAGIC)`: whether `user_check_upgrade` is called, and what is left of the
flag.  `||` looks for the flag first. -/
def upgradeAsked (useUpgradeMagic : Bool) (err : UInt8) (nvram : Mem) : Bool × Mem :=
  if useUpgradeMagic then
    let r := ubootCheckUpgradeMagic nvram
    (decide (r.1 ≠ 0) || decide (err ≠ 0), r.2)
  else (false, nvram)

/-- `main` from `jlfs_mount` on; `none` when the fuel has not been enough for `copyUboot`. -/
def main (useUpgradeMagic : Bool) (fuel : ℕ) (nvram : Mem) : DevM σ (Option (Booted × Mem)) := do
  let d ← get
  let (err, fs) := p.jlfsMount d.fs
  set { d with fs := fs }
  let (asked, nvram) := upgradeAsked useUpgradeMagic err nvram
  let upgrade ← if asked then userCheckUpgrade p.toBoot fuel [] else pure (some 1)
  match upgrade with
  | none => return none
  | some 0 => return some (.upgradeLoop, nvram)
  | some _ =>
    modify fun d => { d with fs := p.jlCheckUpgrade err d.fs }
    return some (.app, nvram)

/-- The case `JL_SU_CMD_REBOOT` of `upgrade_loop` up to `chip_reset`. -/
def rebootFlag (useUpgradeMagic : Bool) (nvram : Mem) : Mem :=
  if useUpgradeMagic then ubootSetUartUpgradeSucc nvram else nvram

end FwBootloader.User
