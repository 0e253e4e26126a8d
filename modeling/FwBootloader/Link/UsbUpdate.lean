import FwBootloader.Link.Equiv.Usb
import FwBootloader.Link.UartUpdate

/-!
## The application update over USB, and interrupted updates

* `main_updates`: against the same device `main` of the USB host ends with the reboot command and
  the flash `BlockImage.updated`, the one that the serial updater leaves, although it writes 41
  bytes at a time and the first block in two parts.
* `hosts_agree`: over any lossless links both hosts leave the same flash.
* `interrupted_update`: for both hosts, whatever was executed when the power or the link was lost,
  the flash is as before, as after the whole update, or has no head.
-/

namespace FwBootloader

open User Dialog

/-- What `HidEnds` says of the run of a whole program. -/
theorem port_of_hidEnds (h : Hid.Port) (z : Zone) (link : UsbLink) {α : Type} {P : Cmd → Prop}
    {J : Flash → Prop} {q : Hid.HidM α} {v : α} {flash flash' : Flash}
    (hq : HidEnds h z link P J q v flash flash') :
    (∃ st, (portTrace h z link q flash).outcome = .ok (v, st)) ∧
      (∀ c ∈ (portTrace h z link q flash).commands, P c) ∧
      (portTrace h z link q flash).flash = flash' ∧
      ∀ m ∈ (portTrace h z link q flash).cuts, m = flash ∨ J m := by
  obtain ⟨hreq, hstates, ⟨_, st⟩, hres, rfl, hfinal⟩ := wp_sound
    (hq .initial (UsbSystem.initial (norChip z Hid.communicationKey Crc16.xmodem) flash)
      ⟨rfl, rfl, rfl⟩)
  refine ⟨⟨st, hres⟩, hreq, hfinal, fun m hm => ?_⟩
  obtain ⟨s', hs', rfl⟩ := List.mem_map.mp hm
  rcases hstates s' hs' with rfl | h
  · exact Or.inl rfl
  · exact Or.inr h

theorem usbTrace_eq (z : Zone) (link : UsbLink) {α : Type} (q : Hid.HidM α) (flash : Flash) :
    usbTrace z link q flash = portTrace Hid.windows z link q flash := by
  unfold usbTrace portTrace
  dsimp only
  rw [UsbSystem.serve_eq]

variable {z : Zone} {file : QByteArray} (hzone : z.zoneAddr.toNat < file.data.length)
  (hunit : z.alignSize = 256 ∨ z.alignSize = 4096)

/-- The USB host's update from any state of a device that answers. -/
theorem main_ends (link : UsbLink) (info : DeviceInitInfo) (flash : Flash) (fuel : ℕ) :
    let a := z.image file hzone hunit
    let flash' :=
      if a.blocks.checksums Crc16.xmodem = a.blocks.readChecksums flash Crc16.xmodem then flash
      else a.blocks.updated flash Crc16.xmodem
    HidEnds Hid.windows z link (fun _ => True)
      (fun m => m = flash ∨ m.Erased z.flashEoffsetSize 32 ∨ m = flash')
      (Hid.windows.main .failed Hid.Outcome.updateOk info a.file (fuel + 1)) .updateOk flash
      flash' := by
  intro a flash'
  set J : Flash → Prop := fun m => m = flash ∨ m.Erased z.flashEoffsetSize 32 ∨ m = flash' with hJ
  have hw : HidWritable a (fun _ => True) J :=
    ⟨fun _ _ => trivial, fun _ _ _ => trivial, fun _ _ _ => trivial, trivial,
      fun m hm => Or.inr (Or.inl hm)⟩
  have hbuf := windows_fileBuf_image a
  -- the same checksums: nothing is written
  by_cases hsame : a.blocks.checksums Crc16.xmodem = a.blocks.readChecksums flash Crc16.xmodem
  · have hflash : flash' = flash := if_pos hsame
    rw [hflash]
    exact main_hidEnds rfl hbuf info trivial (Or.inl rfl)
      (updateApp_hidEnds_same hw rfl (Or.inl rfl) hsame (fuel + 1))
  · have hflash : flash' = a.blocks.updated flash Crc16.xmodem := if_neg hsame
    have hJ' : J (a.blocks.updated flash Crc16.xmodem) := Or.inr (Or.inr hflash.symm)
    rw [hflash]
    exact main_hidEnds rfl hbuf info trivial (Or.inl rfl)
      (updateApp_hidEnds hw rfl (Or.inl rfl) hJ' hsame (windows_writesFirst hw flash _ hJ') fuel)

/-- **The USB host's update**: the flash afterwards and at the cut points. -/
theorem main_updates (link : UsbLink) (info : DeviceInitInfo) (flash : Flash) (fuel : ℕ) :
    let a := z.image file hzone hunit
    let run := usbTrace z link (Hid.main info file (fuel + 1)) flash
    let flash' :=
      if a.blocks.checksums Crc16.xmodem = a.blocks.readChecksums flash Crc16.xmodem then flash
      else a.blocks.updated flash Crc16.xmodem
    (∃ st, run.outcome = .ok (.updateOk, st)) ∧ run.flash = flash' ∧
      ∀ m ∈ run.cuts, m = flash ∨ m.Erased z.flashEoffsetSize 32 ∨ m = flash' := by
  intro a run flash'
  have hends := main_ends hzone hunit link info flash fuel
  have hrun : run = portTrace Hid.windows z link
      (Hid.windows.main .failed Hid.Outcome.updateOk info a.file (fuel + 1)) flash := by
    rw [Hid.windows_main, ← usbTrace_eq]
    rfl
  rw [hrun]
  obtain ⟨hres, -, hflash, hcuts⟩ := port_of_hidEnds Hid.windows z link hends
  refine ⟨hres, hflash, fun m hm => ?_⟩
  rcases hcuts m hm with h | h
  · exact Or.inl h
  · exact h

/-- **The Windows hosts are equivalent updaters.**  Against the same device both run to their end
and leave the same flash, whatever it held before and however the links cut and delay what they
carry. -/
theorem hosts_agree (hzone : z.zoneAddr.toNat < file.data.length)
    (hunit : z.alignSize = 256 ∨ z.alignSize = 4096) (flash : Flash) (link : Chunking)
    (encKey : UInt32) (usbLink : UsbLink) (info : DeviceInitInfo) (fuel fuel' : ℕ) :
    let uart := uartTrace z link encKey (Uart.runInner ⟨false, file, encKey⟩ (fuel + 1)) flash
    let usb := usbTrace z usbLink (Hid.main info file (fuel' + 1)) flash
    (∃ v, v ≠ .stopped ∧ uart.outcome = .ok v) ∧ (∃ st, usb.outcome = .ok (.updateOk, st)) ∧
      usb.flash = uart.flash := by
  intro uart usb
  obtain ⟨huart, hflash⟩ := runInner_flash (t := ⟨false, file, encKey⟩) hzone hunit link rfl flash
    fuel
  obtain ⟨husb, hflash', -⟩ := main_updates hzone hunit usbLink info flash fuel'
  exact ⟨huart, husb, hflash'.trans hflash.symm⟩

/-- Replies that come at once, behind zeros. -/
def promptReports : UsbLink where
  tx _ := List.replicate 64 0
  length_tx _ := List.length_replicate
  delay _ := 0
  delay_lt _ := by decide

/-- Both hosts update two pages. -/
theorem hosts_agree_twoPages :
    (usbTrace twoPageZone promptReports (Hid.main ⟨0, 0, 0, 0⟩ twoPageFile 1) halfFlash).flash
      = (uartTrace twoPageZone wholeChunks 0xC0FFEE
        (Uart.runInner ⟨false, twoPageFile, 0xC0FFEE⟩ 1) halfFlash).flash :=
  (hosts_agree twoPageFile_zone_lt (Or.inl rfl) halfFlash wholeChunks 0xC0FFEE promptReports
    ⟨0, 0, 0, 0⟩ 0 0).2.2

/-- **Interrupted updates of both hosts are safe.** -/
theorem interrupted_update (hzone : z.zoneAddr.toNat < file.data.length)
    (hunit : z.alignSize = 256 ∨ z.alignSize = 4096) (flash : Flash) (fuel : ℕ) :
    (∀ (link : Chunking) (encKey : UInt32),
      let run := uartTrace z link encKey (Uart.runInner ⟨false, file, encKey⟩ (fuel + 1)) flash
      (∃ v, run.outcome = .ok v) ∧
        ∀ m ∈ run.cuts, m = flash ∨ m = run.flash ∨ m.Erased z.flashEoffsetSize 32) ∧
    ∀ (link : UsbLink) (info : DeviceInitInfo),
      let run := usbTrace z link (Hid.main info file (fuel + 1)) flash
      (∃ v, run.outcome = .ok v) ∧
        ∀ m ∈ run.cuts, m = flash ∨ m = run.flash ∨ m.Erased z.flashEoffsetSize 32 := by
  refine ⟨fun link encKey => ?_, fun link info => ?_⟩
  · exact runInner_interrupted (t := ⟨false, file, encKey⟩) hzone hunit link rfl flash fuel
  · intro run
    obtain ⟨⟨st, hres⟩, hflash, hcuts⟩ := main_updates hzone hunit link info flash fuel
    refine ⟨⟨_, hres⟩, fun m hm => ?_⟩
    rcases hcuts m hm with h | h | h
    · exact Or.inl h
    · exact Or.inr (Or.inr h)
    · exact Or.inr (Or.inl (h.trans hflash.symm))

/-- Interrupted updates of two pages. -/
theorem interrupted_update_twoPages :
    (∀ (link : Chunking) (encKey : UInt32),
      let run := uartTrace twoPageZone link encKey (Uart.runInner ⟨false, twoPageFile, encKey⟩ 1)
        halfFlash
      (∃ v, run.outcome = .ok v) ∧
        ∀ m ∈ run.cuts, m = halfFlash ∨ m = run.flash ∨
          m.Erased twoPageZone.flashEoffsetSize 32) ∧
    ∀ (link : UsbLink) (info : DeviceInitInfo),
      let run := usbTrace twoPageZone link (Hid.main info twoPageFile 1) halfFlash
      (∃ v, run.outcome = .ok v) ∧
        ∀ m ∈ run.cuts, m = halfFlash ∨ m = run.flash ∨
          m.Erased twoPageZone.flashEoffsetSize 32 :=
  interrupted_update twoPageFile_zone_lt (Or.inl rfl) halfFlash 0

end FwBootloader
