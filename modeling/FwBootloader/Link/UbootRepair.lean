import FwBootloader.Link.UbootUpdate
import FwBootloader.User.Equiv.Restart

/-!
## The bootloader's update, cut short and repaired

Before the host touches the bootloader it has put the new one behind it, at 64K; a bootloader that
runs there copies itself back in `user_check_upgrade`.  `bootloader_repaired`: wherever the update
is cut short, the bootloader is as it was, but for the unit at the zone's address, or this copy puts
the new one in its place, however often it is interrupted itself.
-/

namespace FwBootloader

open Bytes User Uart Dialog

/-- The three cases, address by address. -/
theorem UbootImage.KeepsCopy.cases {a : UbootImage} {flash m : Flash} (h : a.KeepsCopy flash m) :
    (∀ x, a.app.flashEoffsetSize ≤ x ∧ x < 65536 → m x = flash x) ∨
      (∀ x, a.app.flashEoffsetSize ≤ x ∧ x < 65536 →
        m x = flash.erase a.app.zoneAddr a.unit x) ∨ m.read 65536 a.bootSize = a.bootData := by
  rcases h with h | h | h
  · exact Or.inl fun x hx => h x (a.within_boot_iff.mpr hx)
  · exact Or.inr (Or.inl fun x hx => h x (a.within_boot_iff.mpr hx))
  · exact Or.inr (Or.inr h)

/-- Where the bootloader is at 64K, the copies that follow may be interrupted: the next one that
goes through leaves it in its place and opens the zone. -/
theorem repaired_of_backup {z : Zone} (hunit : z.alignSize = 256 ∨ z.alignSize = 4096)
    {flashAppBaseAddr : UInt32} (hplace : z.flashEoffsetSize.toNat + flashAppBaseAddr.toNat ≤ 65536)
    (hhead : flashAppBaseAddr.toNat + z.alignSize.toNat ≤ 65536) {m : Flash} {new : List UInt8}
    (hbackup : m.read 65536 (65536 - z.flashEoffsetSize.toNat) = new) (key : UInt32)
    {d : Device Flash} (hattempts : Attempts id flashAppBaseAddr z.flashEoffsetSize (1024 * 64)
      z.alignSize m d.fs) (chunks : List (List UInt8)) :
    let boot := norBoot z key Crc16.xmodem flashAppBaseAddr
    ∃ turns d', userCheckUpgrade boot turns chunks d
        = (some <$> openUpgradeFile boot chunks) d' ∧
      d'.fs.read z.flashEoffsetSize flashAppBaseAddr.toNat = new.take flashAppBaseAddr.toNat := by
  intro boot
  have hpos : 0 < z.alignSize.toNat := by
    rcases hunit with h | h <;> rw [h] <;> decide
  obtain ⟨hapartHead, hapartPlace⟩ := (sourceSpared_iff hpos (by omega) (by omega)
    (by omega)).mp (Or.inr ⟨hhead, Or.inl hplace⟩)
  obtain ⟨turns, d', hrun, hread⟩ := userCheckUpgrade_apply
    (actsOnFlash_norBoot z key Crc16.xmodem flashAppBaseAddr) chunks rfl hpos hapartHead hapartPlace
  refine ⟨turns, d', hrun, hread.trans ?_⟩
  have hsource := hattempts.read_source hapartHead hapartPlace
  have htake := Flash.take_read (m := m) 65536
    (show flashAppBaseAddr.toNat ≤ 65536 - z.flashEoffsetSize.toNat by omega)
  rw [← hbackup, htake]
  exact hsource

/-- **The bootloader survives its update.**  The power may fail anywhere in `untilApp` and again
during the copies that follow: as long as the ranges of the layout do not meet the source, the old
bootloader is there, or the next copy that goes through leaves the new one and opens the zone. -/
theorem bootloader_repaired {z : Zone} {t : UpdateThread}
    (hzone : z.zoneAddr.toNat < t.fileContent.data.length)
    (hunit : z.alignSize = 256 ∨ z.alignSize = 4096) (hdvd : 4096 ∣ z.flashEoffsetSize.toNat)
    (hlt : z.flashEoffsetSize.toNat < 65536) (hmode : t.isUpdateUboot = true) (link : Chunking)
    (flash : Flash) {fuel : ℕ} (hfuel : 256 ≤ fuel) {flashAppBaseAddr : UInt32}
    (hplace : z.flashEoffsetSize.toNat + flashAppBaseAddr.toNat ≤ 65536)
    (hhead : flashAppBaseAddr.toNat + z.alignSize.toNat ≤ 65536) :
    let e := z.flashEoffsetSize
    let n := 65536 - e.toNat
    let new := t.fileContent.data.take n ++ List.replicate (n - t.fileContent.data.length) 0xFF
    let boot := norBoot z t.encKey Crc16.xmodem flashAppBaseAddr
    ∀ m ∈ (uartTrace z link t.encKey (untilApp t fuel) flash).cuts,
      (∀ x, e ≤ x ∧ x < 65536 → m x = flash x) ∨
        (∀ x, e ≤ x ∧ x < 65536 → m x = flash.erase z.zoneAddr z.alignSize.toNat x) ∨
        ∀ d : Device Flash, Attempts id flashAppBaseAddr e (1024 * 64) z.alignSize m d.fs →
          ∀ chunks, ∃ turns d', userCheckUpgrade boot turns chunks d
              = (some <$> openUpgradeFile boot chunks) d' ∧
            d'.fs.read e flashAppBaseAddr.toNat = new.take flashAppBaseAddr.toNat := by
  intro e n new boot m hm
  let a : UbootImage :=
    { z.image t.fileContent hzone hunit with eoffset_dvd := hdvd, eoffset_lt := hlt }
  obtain ⟨m₁, hdoes, -, -⟩ := @untilApp_does z a flash fuel hfuel t hmode rfl rfl
  obtain ⟨-, -, hcuts⟩ := uart_of_does z link t.encKey hdoes
  rcases hcuts m hm with rfl | hkeeps
  · exact Or.inl fun _ _ => rfl
  rcases hkeeps.cases with h | h | hbackup
  · exact Or.inl h
  · exact Or.inr (Or.inl h)
  · -- the copy at 64K is complete, and neither erase meets it
    exact Or.inr (Or.inr fun d hattempts chunks =>
      repaired_of_backup hunit hplace hhead hbackup t.encKey hattempts chunks)

/-- The device whose bootloader has two sectors. -/
theorem bootloader_repaired_twoSectors :
    let boot := norBoot twoSectorZone oneByteUpdate.encKey Crc16.xmodem 0x2000
    let run := uartTrace twoSectorZone wholeChunks oneByteUpdate.encKey (untilApp oneByteUpdate 256)
      fun _ => 0xFF
    ∀ m ∈ run.cuts, (∀ x, twoSectorZone.flashEoffsetSize ≤ x ∧ x < 65536 → m x = 0xFF) ∨
      (∀ x, twoSectorZone.flashEoffsetSize ≤ x ∧ x < 65536 →
        m x = Flash.erase (fun _ => 0xFF) twoSectorZone.zoneAddr twoSectorZone.alignSize.toNat x) ∨
      ∀ d : Device Flash, Attempts id 0x2000 twoSectorZone.flashEoffsetSize (1024 * 64)
          twoSectorZone.alignSize m d.fs →
        ∀ chunks, ∃ turns d', userCheckUpgrade boot turns chunks d
            = (some <$> openUpgradeFile boot chunks) d' ∧
          d'.fs.read twoSectorZone.flashEoffsetSize 0x2000
            = (oneByteUpdate.fileContent.data.take 0x2000 ++ List.replicate
                (0x2000 - oneByteUpdate.fileContent.data.length) 0xFF).take 0x2000 :=
  bootloader_repaired (by decide) (Or.inr rfl) ⟨14, rfl⟩ (by decide) rfl wholeChunks (fun _ => 0xFF)
    (by decide) (by decide) (by decide)

end FwBootloader
