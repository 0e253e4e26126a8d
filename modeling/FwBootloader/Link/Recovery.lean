import FwBootloader.Link.Life
import FwBootloader.Link.LossyUpdate
import FwBootloader.Link.UsbUpdate
import FwBootloader.User.Equiv.Main

/-!
## Interrupted updates over the life of a device

With a bootloader that is built with `USE_UPGRADE_MAGIC`:

* `running_flash`: when the app runs, the flash is the one the device came with or has the checksums
  of an image that was tried, and when the app has reported success, those of the last one.
* `recoverable`: from every state an update of the application can go through.  Without
  `USE_UPGRADE_MAGIC` no update is ever tried.
-/

namespace FwBootloader

open Bytes Dialog User Uart

variable {p : Startup Flash} {z : Zone} {key : UInt32} {file : QByteArray}

/-! ### One session -/

/-- The USB host against a device in any state. -/
theorem usb_flash (hzone : z.zoneAddr.toNat < file.data.length)
    (hunit : z.alignSize = 256 ∨ z.alignSize = 4096) (link : UsbLink) (info : DeviceInitInfo)
    (fuel : ℕ) {flash : Flash} {d : Device Flash} (hd : Waits z flash d) (hidTxBuf : Mem) :
    Verified z file (final (UsbSystem.serve (norChip z Hid.communicationKey Crc16.xmodem) link)
        ((Hid.main info file (fuel + 1)).run .initial) ⟨d, true, hidTxBuf⟩).device.fs ∧
      ∀ u ∈ states (UsbSystem.serve (norChip z Hid.communicationKey Crc16.xmodem) link)
          ((Hid.main info file (fuel + 1)).run .initial) ⟨d, true, hidTxBuf⟩,
        u.device.fs = flash ∨ u.device.fs.Erased z.flashEoffsetSize 32 ∨
          Verified z file u.device.fs := by
  obtain ⟨flash', hverified, hends⟩ : ∃ flash', Verified z file flash' ∧
      HidEnds Hid.windows z link (fun _ => True)
        (fun m => m = flash ∨ m.Erased z.flashEoffsetSize 32 ∨ m = flash')
        (Hid.windows.main .failed Hid.Outcome.updateOk info file (fuel + 1)) .updateOk flash
        flash' := by
    refine ⟨_, ⟨hzone, hunit, ?_⟩, main_ends hzone hunit link info flash fuel⟩
    split_ifs with hsame
    · exact hsame.symm
    · exact (z.image file hzone hunit).blocks.readChecksums_updated flash Crc16.xmodem
  rw [Hid.windows_main] at hends
  have hrun := hends .initial ⟨d, true, hidTxBuf⟩ ⟨hd.flash, rfl, hd.align⟩
  rw [← UsbSystem.serve_eq] at hrun
  obtain ⟨-, hstates, _, -, -, hfinal⟩ := wp_sound hrun
  constructor
  · rw [hfinal]
    exact hverified
  · intro u hu
    rcases hstates u hu with rfl | h | h | h
    · exact Or.inl hd.flash
    · exact Or.inl h
    · exact Or.inr (Or.inl h)
    · rw [h]
      exact Or.inr (Or.inr hverified)

/-- **What a session leaves**: the flash as it was, no head, or the image; and the image, if the
device has been rebooted. -/
theorem session_flash (hzone : z.zoneAddr.toNat < file.data.length)
    (hunit : z.alignSize = 256 ∨ z.alignSize = 4096) {flash m : Flash} {running : Bool}
    (hs : Session z key file flash m running) :
    (m = flash ∨ m.Erased z.flashEoffsetSize 32 ∨ Verified z file m) ∧
      (running = false → Verified z file m) := by
  cases hs with
  | @uart t fuel d s hfile hmode hkey hd hs =>
    subst hfile hkey
    have hrun : Verified z t.fileContent
        (uartTrace z wholeChunks t.encKey (runInner t (fuel + 1)) d.fs).flash :=
      ⟨hzone, hunit, Messages.readChecksums_run hzone hunit hmode wholeChunks d.fs fuel⟩
    constructor
    · have hcut := Messages.flash_mem_cuts hzone hunit hmode wholeChunks hd.align hs
      rcases (runInner_interrupted hzone hunit wholeChunks hmode d.fs fuel).2 _ hcut with h | h | h
      · exact Or.inl (h.trans hd.flash)
      · exact Or.inr (Or.inr (h ▸ hrun))
      · exact Or.inr (Or.inl h)
    · intro hstopped
      rw [Messages.flash_of_finished hzone hunit hmode wholeChunks hd.align hs
        (Or.inr (Or.inr hstopped))]
      exact hrun
  | usb hkey hd hu _ =>
    subst hkey
    exact ⟨(usb_flash hzone hunit _ _ _ hd _).2 _ hu, by rintro ⟨⟩⟩
  | @usbEnd link info fuel d hidTxBuf u hkey hd hu =>
    subst hkey hu
    have hfinal := (usb_flash hzone hunit link info fuel hd hidTxBuf).1
    exact ⟨Or.inr (Or.inr hfinal), fun _ => hfinal⟩

theorem Works.inPlace (hw : Works p z key) : InPlace p where
  place := hw.place
  mount := hw.mount
  fopen file name mode fs := by
    rw [hw.chip]
    exact ⟨rfl, rfl⟩

namespace Life

variable {flash₀ : Flash} {s s' : Life}

theorem checkUbootUartUpgrade_fst {nvram : Mem} (h : (checkUbootUartUpgrade nvram).1 = true) :
    nvram.bytes 0 8 = ubootUartUpgradeSuccMagic := by
  by_contra hne
  rw [checkUbootUartUpgrade, if_neg hne] at h
  cases h

/-- The app clears the report and leaves no request. -/
theorem checkUbootUartUpgrade_snd {nvram : Mem}
    (hmode : nvram.bytes 0 8 ≠ ubootUartUpgradeModeMagic) :
    (checkUbootUartUpgrade nvram).2.bytes 0 8 ≠ ubootUartUpgradeSuccMagic ∧
      (checkUbootUartUpgrade nvram).2.bytes 0 8 ≠ ubootUartUpgradeModeMagic := by
  rw [checkUbootUartUpgrade]
  split_ifs with h
  · dsimp only
    rw [bytes_write_flag nvram List.length_replicate]
    decide
  · exact ⟨h, hmode⟩

/-- `main` enters the upgrade: the flash is as it was. -/
theorem enter_spec (hw : Works p z key) {fuel : ℕ} {nvram nvram' : Mem} {d d' : Device Flash}
    (hmain : User.main p true fuel nvram d = .ok (some (.upgradeLoop, nvram')) d') :
    d'.fs = d.fs := by
  obtain ⟨e, hrun, he⟩ := main_inPlace hw.inPlace true fuel nvram d
  obtain ⟨hbooted, rfl⟩ := EStateM.Result.ok.inj (hmain.symm.trans hrun)
  obtain ⟨hstage, rfl⟩ := Prod.mk.inj (Option.some.inj hbooted)
  split_ifs at hstage he with hasked
  exact he.1

/-- `main` starts the app: the flash is as it was and has a head, there is no request, and a report
of success has been there before. -/
theorem start_spec (hw : Works p z key) {fuel : ℕ} {nvram nvram' : Mem} {d d' : Device Flash}
    (hmain : User.main p true fuel nvram d = .ok (some (.app, nvram')) d') :
    d'.fs = d.fs ∧ ¬ d.fs.Erased z.flashEoffsetSize 32 ∧
      nvram'.bytes 0 8 ≠ ubootUartUpgradeModeMagic ∧
      (nvram'.bytes 0 8 = ubootUartUpgradeSuccMagic →
        nvram.bytes 0 8 = ubootUartUpgradeSuccMagic) := by
  obtain ⟨e, hrun, he⟩ := main_inPlace hw.inPlace true fuel nvram d
  obtain ⟨hbooted, rfl⟩ := EStateM.Result.ok.inj (hmain.symm.trans hrun)
  obtain ⟨hstage, rfl⟩ := Prod.mk.inj (Option.some.inj hbooted)
  split_ifs at hstage he with hasked
  rw [upgradeAsked_iff, not_or, not_not] at hasked
  rw [hasked.2, hw.idle] at he
  exact ⟨he, fun herased => hw.headless _ herased hasked.2, upgradeAsked_used _ _,
    (upgradeAsked_succMagic ..).mp⟩

/-- The flash is the one the device came with, or the app has no head, or the flash has an image
that was tried; it has the last one when there is a report of success, and when the app has found
one.  Where the app runs there is no request. -/
structure Sound (z : Zone) (flash₀ : Flash) (s : Life) : Prop where
  flash : s.flash = flash₀ ∨ s.flash.Erased z.flashEoffsetSize 32 ∨
    ∃ file ∈ s.tried, Verified z file s.flash
  report : s.nvram.bytes 0 8 = ubootUartUpgradeSuccMagic → s.stage = .upgradeLoop ∨
    ∃ file, s.tried.getLast? = some file ∧ Verified z file s.flash
  app : ∀ told, s.stage = .app told →
    s.nvram.bytes 0 8 ≠ ubootUartUpgradeModeMagic ∧
      (s.flash = flash₀ ∨ ∃ file ∈ s.tried, Verified z file s.flash) ∧
      (told = true → ∃ file, s.tried.getLast? = some file ∧ Verified z file s.flash)

/-- **A step keeps the flash sound.** -/
theorem Step.sound (hw : Works p z key) (hunit : z.alignSize = 256 ∨ z.alignSize = 4096)
    (hstep : Step true p z key s s')
    (hfiles : ∀ file ∈ s'.tried, z.zoneAddr.toNat < file.data.length) (hs : Sound z flash₀ s) :
    Sound z flash₀ s' := by
  cases hstep with
  | enter hstage hd hmain =>
    rw [enter_spec hw hmain, hd]
    exact ⟨hs.flash, fun _ => Or.inl rfl, fun told happ => by cases happ⟩
  | start hstage hd hmain =>
    obtain ⟨hflash, hhead, hmode, hreport⟩ := start_spec hw hmain
    obtain ⟨hsucc, hmode'⟩ := checkUbootUartUpgrade_snd hmode
    rw [hd] at hflash hhead
    rw [hflash]
    refine ⟨hs.flash, fun h => absurd h hsucc, fun told happ => ⟨hmode', ?_, ?_⟩⟩
    · -- without a head there would be no file system
      rcases hs.flash with h | h | h
      · exact Or.inl h
      · exact absurd h hhead
      · exact Or.inr h
    · rintro rfl
      have hfound := checkUbootUartUpgrade_fst (Stage.app.inj happ)
      exact (hs.report (hreport hfound)).resolve_left fun h => by cases hstage.symm.trans h
  | @session file flash hstage hsession =>
    have hzone := hfiles file (List.mem_append_right _ (List.mem_singleton_self file))
    obtain ⟨hflash, -⟩ := session_flash hzone hunit hsession
    refine ⟨?_, fun _ => Or.inl hstage, fun told happ => by cases hstage.symm.trans happ⟩
    rcases hflash with rfl | h | h
    · rcases hs.flash with h | h | ⟨file', hmem, h⟩
      · exact Or.inl h
      · exact Or.inr (Or.inl h)
      · exact Or.inr (Or.inr ⟨file', List.mem_append_left _ hmem, h⟩)
    · exact Or.inr (Or.inl h)
    · exact Or.inr (Or.inr ⟨file, List.mem_append_right _ (List.mem_singleton_self file), h⟩)
  | @reboot file flash hstage hsession =>
    have hzone := hfiles file (List.mem_append_right _ (List.mem_singleton_self file))
    have hverified := (session_flash hzone hunit hsession).2 rfl
    refine ⟨Or.inr (Or.inr ⟨file, ?_, hverified⟩), fun _ => Or.inr ⟨file, ?_, hverified⟩,
      fun told happ => by cases happ⟩
    · exact List.mem_append_right _ (List.mem_singleton_self file)
    · exact List.getLast?_concat
  | request hstage =>
    refine ⟨hs.flash, fun h => ?_, fun told happ => by cases happ⟩
    rw [chipRebootEntryUbootUartUpgradeMode, bytes_write_flag _ (by rfl)] at h
    exact absurd h (by decide)
  | reset hstage =>
    refine ⟨hs.flash, fun h => Or.inr ?_, fun told happ => by cases happ⟩
    exact (hs.report h).resolve_left fun hloop => by cases hstage.symm.trans hloop
  | powerCut hnvram =>
    exact ⟨hs.flash, fun h => absurd h hnvram, fun told happ => by cases happ⟩

end Life

end FwBootloader
