import FwBootloader.Link.Equiv.Uart
import FwBootloader.Link.Equiv.UpdateThread

/-!
## The application update over a serial link, end to end

The host's `runInner` and the device's `upgrade_loop`, byte for byte, over a lossless link with
equal keys and a NOR flash.

* `runInner_updates`: the run ends with the reboot command; with equal checksums it changes nothing,
  otherwise it writes block 0 and the blocks whose checksums differ and nothing else.
* `runInner_image_or_collision`: afterwards a block is the image's or has kept its content, which
  then has the same CRC-16; `collision_survives` is a run where the latter happens.
* `runInner_interrupted`: at every cut point the flash is as before, as after the whole run, or the
  head of block 0 is erased.
-/

namespace FwBootloader

open Bytes User Uart Dialog

/-- What is known of a run against the abstract device holds for the device itself. -/
theorem uart_of_rebooted (z : Zone) (link : Chunking) (key : UInt32) {α : Type} {P : Cmd → Prop}
    {J : Flash → Prop} (hP : ∀ c, P c → Fits c) {p : HostM α} {v : α} {flash flash' : Flash}
    (h : Rebooted z P J p v flash flash') :
    (uartTrace z link key p flash).outcome = .ok v ∧
      (∃ l, (uartTrace z link key p flash).commands = l ++ [.reboot] ∧ ∀ c ∈ l, P c) ∧
      (uartTrace z link key p flash).flash = flash' ∧
      ∀ m ∈ (uartTrace z link key p flash).cuts, m = flash ∨ J m := by
  obtain ⟨-, hstates, _, hresult, rfl, hfinal⟩ := wp_sound h.run
  obtain ⟨l, hl, hlP⟩ := h.requests
  have hfits : ∀ c ∈ requests (ZoneDevice.serve z) p ⟨flash, true⟩, Fits c := by
    intro c hc
    rw [hl] at hc
    rcases List.mem_append.mp hc with hc | hc
    · exact hP c (hlP c hc)
    · rw [List.mem_singleton.mp hc]
      trivial
  obtain ⟨hreq, hres, hfin, hall⟩ :=
    run_of_simulates (simulates_serve z key link) (related_initial z key flash) hfits
  refine ⟨hres.trans hresult, ⟨l, hreq.trans hl, hlP⟩, ?_, fun m hm => ?_⟩
  · rw [uartTrace, hfin.flash, hfinal]
  · obtain ⟨s', hs', rfl⟩ := List.mem_map.mp hm
    obtain ⟨t, ht, hrel⟩ := hall s' hs'
    rw [hrel.flash]
    rcases hstates t ht with rfl | hJ
    · exact Or.inl rfl
    · exact Or.inr hJ

/-! ### A device with one page -/

/-- A device with one page. -/
def onePageZone : Zone where
  zoneAddr := 0
  upgradeLen := 256
  flashEoffsetSize := 0
  alignSize := 256
  pid := Vector.replicate 16 0
  vid := Vector.replicate 4 0

/-- An update to a page of zeros. -/
def zeroUpdate : UpdateThread where
  isUpdateUboot := false
  fileContent := ⟨List.replicate 256 0, by rw [List.length_replicate]; decide⟩
  encKey := 0xC0FFEE

/-- A page that starts with the generator polynomial has the CRC-16 of a page of zeros. -/
def collidingFlash : Flash := fun x =>
  ([0x01, 0x10, 0x21] : List UInt8).getD x.toNat 0

/-- A link that delivers every packet in one chunk. -/
def wholeChunks : Chunking where
  cut _ l := [l]
  flatten_cut _ l := List.append_nil l

theorem zeroUpdate_zone_lt :
    onePageZone.zoneAddr.toNat < zeroUpdate.fileContent.data.length := by
  rw [zeroUpdate, List.length_replicate]
  decide

/-- The image is the page of zeros. -/
theorem zeroUpdate_image :
    let a := onePageZone.image zeroUpdate.fileContent zeroUpdate_zone_lt (Or.inl rfl)
    a.count = 1 ∧ a.unit = 256 ∧ a.block 0 = List.replicate 256 0 := by
  intro a
  have hunit : a.unit = 256 := rfl
  have hfile : a.file.data = List.replicate 256 0 := rfl
  have hzone : a.app.zoneAddr.toNat = 0 := rfl
  have hsize : a.size = 256 := by
    rw [AppImage.size, hfile, hzone, List.length_replicate]
  have hcount : a.count = 1 := by
    rw [AppImage.count, hsize, hunit]
  refine ⟨hcount, hunit, ?_⟩
  rw [AppImage.block_eq, AppImage.data, hcount, hunit, hsize, hfile, hzone, Nat.zero_mul,
    List.drop_zero, List.drop_zero, Nat.one_mul, Nat.sub_self, List.replicate_zero,
    List.append_nil]
  exact List.take_of_length_le (by rw [List.length_replicate])

theorem read_collidingFlash :
    collidingFlash.read 0 256 = [0x01, 0x10, 0x21] ++ List.replicate 253 0 := by
  apply List.ext_getElem
  · rw [Flash.length_read, List.length_append, List.length_replicate]
    rfl
  · intro i hi _
    rw [Flash.length_read] at hi
    have haddr : (0 + UInt32.ofNat i).toNat = i := by
      rw [UInt32.zero_add]
      exact UInt32.toNat_ofNat_of_lt' (show i < 2 ^ 32 by omega)
    rw [Flash.getElem_read, collidingFlash, haddr, List.getElem_append]
    split_ifs with h
    · exact List.getD_eq_getElem _ _ h
    · rw [List.getElem_replicate]
      exact List.getD_eq_default _ _ (not_lt.mp h)

/-! ### A device with two pages -/

/-- A device with two pages. -/
def twoPageZone : Zone :=
  { onePageZone with upgradeLen := 512 }

/-- The first page ends with bytes that an erased flash has. -/
def firstPage : List UInt8 :=
  List.replicate 32 1 ++ List.replicate 224 0xFF

theorem length_firstPage : firstPage.length = 256 := by
  rw [firstPage, List.length_append, List.length_replicate, List.length_replicate]

theorem length_firstPage_append : (firstPage ++ List.replicate 256 (2 : UInt8)).length = 512 := by
  rw [List.length_append, length_firstPage, List.length_replicate]

/-- A file of two pages. -/
def twoPageFile : QByteArray :=
  ⟨firstPage ++ List.replicate 256 2, by rw [length_firstPage_append]; decide⟩

/-- An update to these pages. -/
def twoPageUpdate : UpdateThread where
  isUpdateUboot := false
  fileContent := twoPageFile
  encKey := 0xC0FFEE

/-- The second page is programmed already, the first is erased. -/
def halfFlash : Flash := fun x =>
  if x.toNat < 256 then 0xFF else 2

theorem twoPageFile_length : twoPageFile.data.length = 512 :=
  length_firstPage_append

theorem twoPageFile_zone_lt : twoPageZone.zoneAddr.toNat < twoPageFile.data.length := by
  rw [twoPageFile_length]
  decide

/-- The image of the file. -/
def twoPageImage : AppImage :=
  twoPageZone.image twoPageFile twoPageFile_zone_lt (Or.inl rfl)

theorem twoPageImage_spec :
    twoPageImage.count = 2 ∧ twoPageImage.unit = 256 ∧ twoPageImage.block 0 = firstPage ∧
      twoPageImage.block 1 = List.replicate 256 2 := by
  have hunit : twoPageImage.unit = 256 := rfl
  have hfile : twoPageImage.file = twoPageFile := rfl
  have hzone : twoPageImage.app.zoneAddr.toNat = 0 := rfl
  have hsize : twoPageImage.size = 512 := by
    rw [AppImage.size, hfile, hzone, twoPageFile_length]
  have hcount : twoPageImage.count = 2 := by
    rw [AppImage.count, hsize, hunit]
  have hdata : twoPageImage.data = firstPage ++ List.replicate 256 2 := by
    rw [AppImage.data, hcount, hunit, hsize, hfile, hzone, List.drop_zero, Nat.sub_self,
      List.replicate_zero, List.append_nil]
    rfl
  refine ⟨hcount, hunit, ?_, ?_⟩
  · rw [AppImage.block_eq, hdata, hunit, Nat.zero_mul, List.drop_zero,
      List.take_left' length_firstPage]
  · rw [AppImage.block_eq, hdata, hunit, Nat.one_mul, List.drop_left' length_firstPage,
      List.take_of_length_le (by rw [List.length_replicate])]

theorem read_halfFlash :
    halfFlash.read 0 256 = List.replicate 256 0xFF ∧
      halfFlash.read 256 256 = List.replicate 256 2 := by
  constructor
  · refine List.eq_replicate_iff.mpr ⟨Flash.length_read .., fun b hb => ?_⟩
    obtain ⟨i, hi, rfl⟩ := List.mem_map.mp hb
    have hlt := List.mem_range.mp hi
    rw [halfFlash, UInt32.zero_add, UInt32.toNat_ofNat_of_lt' (show i < 2 ^ 32 by omega),
      if_pos hlt]
  · refine List.eq_replicate_iff.mpr ⟨Flash.length_read .., fun b hb => ?_⟩
    obtain ⟨i, hi, rfl⟩ := List.mem_map.mp hb
    have hlt := List.mem_range.mp hi
    have haddr : (256 + UInt32.ofNat i).toNat = 256 + i := by
      rw [UInt32.toNat_add, UInt32.toNat_ofNat_of_lt' (show i < 2 ^ 32 by omega)]
      exact Nat.mod_eq_of_lt (show 256 + i < 2 ^ 32 by omega)
    rw [halfFlash, haddr, if_neg (by omega)]

/-- Over an erased first page the checksum of block 0 is another one. -/
theorem twoPageImage_differs {flash : Flash} (h : flash.read 0 256 = List.replicate 256 0xFF) :
    twoPageImage.blocks.Differs flash Crc16.xmodem 0 := by
  obtain ⟨-, hunit, hblock, -⟩ := twoPageImage_spec
  have haddr : twoPageImage.blocks.addr 0 = 0 := twoPageImage.blocks.addr_zero
  rw [BlockImage.Differs, haddr, AppImage.blocks_block, AppImage.blocks_size, hblock, hunit, h,
    ← Uart.crc16_eq, ← Uart.crc16_eq]
  decide +kernel

/-! ### The two cases -/

section Update

variable {z : Zone} {t : UpdateThread} (hzone : z.zoneAddr.toNat < t.fileContent.data.length)
  (hunit : z.alignSize = 256 ∨ z.alignSize = 4096)

/-- The checksums are equal from the start. -/
theorem runInner_rebooted_same (hmode : t.isUpdateUboot = false) {flash : Flash}
    (hsame : (z.image t.fileContent hzone hunit).blocks.checksums Crc16.xmodem
      = (z.image t.fileContent hzone hunit).blocks.readChecksums flash Crc16.xmodem) (fuel : ℕ) :
    Rebooted z (fun c => Fits c ∧ ¬ c.Modifies) (· = flash) (runInner t fuel) .sameCrc flash
      flash := by
  set a := z.image t.fileContent hzone hunit with ha
  refine runInner_rebooted hmode ?_ ?_ ?_ hzone ?_
  · exact ⟨trivial, id⟩
  · exact ⟨rfl, id⟩
  · rfl
  have happ := appPhase_eq a fuel
  rw [show t.fileContent = a.file from rfl, show z.info = a.app from rfl, happ]
  refine updateApp_rebooted_same (J := (· = flash)) ?_ ?_ rfl hsame fuel
  · rfl
  · exact fun _ _ h => ⟨⟨a.eraseUnitSize_ne, h⟩, id⟩

/-- They are not: from the first erase on block 0 is erased, until it is written. -/
theorem runInner_rebooted_updated (hmode : t.isUpdateUboot = false) {flash : Flash}
    (hdiff : (z.image t.fileContent hzone hunit).blocks.checksums Crc16.xmodem
      ≠ (z.image t.fileContent hzone hunit).blocks.readChecksums flash Crc16.xmodem) (fuel : ℕ) :
    let a := z.image t.fileContent hzone hunit
    Rebooted z Fits
      (fun m => m = flash ∨ m.Erased z.flashEoffsetSize a.unit ∨
        m = a.blocks.updated flash Crc16.xmodem)
      (runInner t (fuel + 1)) .updateOk flash (a.blocks.updated flash Crc16.xmodem) := by
  intro a
  refine runInner_rebooted hmode ?_ ?_ ?_ hzone ?_
  · exact trivial
  · exact rfl
  · exact Or.inl rfl
  have happ := appPhase_eq a (fuel + 1)
  rw [show t.fileContent = a.file from rfl, show z.info = a.app from rfl, happ]
  refine updateApp_rebooted rfl (fun _ _ h => ⟨a.eraseUnitSize_ne, h⟩) ⟨?_, ?_, ?_⟩ (Or.inl rfl)
    (Or.inr (Or.inr rfl)) hdiff fuel
  · exact fun _ _ => trivial
  · exact fun i hi _ => ⟨a.length_block hi, eraseUnitSize_le a⟩
  · exact fun m hm => Or.inr (Or.inl hm)

/-- The flash that the update leaves, as the abstract update gives it. -/
theorem runInner_flash (link : Chunking) (hmode : t.isUpdateUboot = false) (flash : Flash)
    (fuel : ℕ) :
    let a := z.image t.fileContent hzone hunit
    let run := uartTrace z link t.encKey (runInner t (fuel + 1)) flash
    (∃ v, v ≠ .stopped ∧ run.outcome = .ok v) ∧
      run.flash =
        if a.blocks.checksums Crc16.xmodem = a.blocks.readChecksums flash Crc16.xmodem then flash
        else a.blocks.updated flash Crc16.xmodem := by
  intro a run
  split_ifs with hsame
  · obtain ⟨hres, -, hflash, -⟩ := uart_of_rebooted z link t.encKey (fun _ h => h.1)
      (runInner_rebooted_same hzone hunit hmode hsame (fuel + 1))
    exact ⟨⟨.sameCrc, by rintro ⟨⟩, hres⟩, hflash⟩
  · obtain ⟨hres, -, hflash, -⟩ := uart_of_rebooted z link t.encKey (fun _ h => h)
      (runInner_rebooted_updated hzone hunit hmode hsame fuel)
    exact ⟨⟨.updateOk, by rintro ⟨⟩, hres⟩, hflash⟩

/-- **The application update, end to end.**  It ends with the reboot command.  With all checksums
equal it changes nothing; otherwise block 0 and the blocks whose checksums differed are the image's,
and every other byte is as before. -/
theorem runInner_updates (link : Chunking) (hmode : t.isUpdateUboot = false) (flash : Flash)
    (fuel : ℕ) :
    let a := z.image t.fileContent hzone hunit
    let run := uartTrace z link t.encKey (runInner t (fuel + 1)) flash
    let differs (i : ℕ) :=
      Crc16.xmodem (a.block i) ≠ Crc16.xmodem (flash.read (a.blocks.addr i) a.unit)
    (∃ v, v ≠ .stopped ∧ run.outcome = .ok v) ∧
      (∃ l, run.commands = l ++ [.reboot] ∧
        ((∀ i < a.count, ¬ differs i) → ∀ c ∈ l, ¬ c.Modifies)) ∧
      ((∀ i < a.count, ¬ differs i) → run.flash = flash) ∧
      (¬ (∀ i < a.count, ¬ differs i) →
        (∀ i < a.count, i = 0 ∨ differs i →
          run.flash.read (a.blocks.addr i) a.unit = a.block i) ∧
        (∀ i < a.count, i ≠ 0 → ¬ differs i →
          run.flash.read (a.blocks.addr i) a.unit = flash.read (a.blocks.addr i) a.unit) ∧
        ∀ x, ¬ Flash.Within z.flashEoffsetSize (a.count * a.unit) x →
          run.flash x = flash x) := by
  intro a run differs
  have hiff := a.blocks.checksums_eq_iff flash Crc16.xmodem
  -- without a difference the device is rebooted as it is
  by_cases hsame : ∀ i < a.count, ¬ differs i
  · obtain ⟨hres, ⟨l, hl, hlP⟩, hflash, -⟩ := uart_of_rebooted z link t.encKey (fun _ h => h.1)
      (runInner_rebooted_same hzone hunit hmode (hiff.mpr hsame) (fuel + 1))
    exact ⟨⟨.sameCrc, (by rintro ⟨⟩), hres⟩, ⟨l, hl, fun _ c hc => (hlP c hc).2⟩, fun _ => hflash,
      fun hdiff => absurd hsame hdiff⟩
  · obtain ⟨hres, ⟨l, hl, -⟩, hflash, -⟩ := uart_of_rebooted z link t.encKey (fun _ h => h)
      (runInner_rebooted_updated hzone hunit hmode (fun h => hsame (hiff.mp h)) fuel)
    refine ⟨⟨.updateOk, (by rintro ⟨⟩), hres⟩, ⟨l, hl, fun h => absurd h hsame⟩,
      fun h => absurd h hsame,
      fun _ => ⟨?_, ?_, ?_⟩⟩
    · intro i hi h
      rw [show run.flash = _ from hflash]
      exact a.blocks.read_updated_of_mem flash Crc16.xmodem hi h
    · intro i hi h0 h
      rw [show run.flash = _ from hflash]
      exact a.blocks.read_updated_of_not_mem flash Crc16.xmodem hi h0 h
    · intro x hx
      rw [show run.flash = _ from hflash]
      exact a.blocks.updated_of_outside flash Crc16.xmodem fun h => hx (a.blocks.covers_iff.mp h)

/-- Of two pages the first is written, and the second, which is the image's already, is left
alone. -/
theorem runInner_updates_twoPages :
    let run := uartTrace twoPageZone wholeChunks twoPageUpdate.encKey (runInner twoPageUpdate 1)
      halfFlash
    (∃ v, v ≠ .stopped ∧ run.outcome = .ok v) ∧ (∃ l, run.commands = l ++ [.reboot]) ∧
      run.flash.read 0 256 = firstPage ∧ run.flash.read 256 256 = List.replicate 256 2 := by
  intro run
  obtain ⟨hcount, hunit, hblock, hblock'⟩ := twoPageImage_spec
  obtain ⟨hread, hread'⟩ := read_halfFlash
  obtain ⟨hres, ⟨l, hl, -⟩, -, hupdated⟩ := runInner_updates (t := twoPageUpdate)
    twoPageFile_zone_lt (Or.inl rfl) wholeChunks rfl halfFlash 0
  have hdiff : ¬ ∀ i < twoPageImage.count, ¬ twoPageImage.blocks.Differs halfFlash Crc16.xmodem i :=
    fun h => h 0 twoPageImage.count_pos (twoPageImage_differs hread)
  obtain ⟨hwritten, hkept, -⟩ := hupdated hdiff
  refine ⟨hres, ⟨l, hl⟩, ?_, ?_⟩
  · have h0 := hwritten 0 twoPageImage.count_pos (Or.inl rfl)
    exact h0.trans hblock
  · have h1 := hkept 1 (hcount.symm ▸ Nat.one_lt_two) one_ne_zero (not_not.mpr ?_)
    · exact h1.trans hread'
    · exact congrArg Crc16.xmodem (hblock'.trans hread'.symm)

/-- **Against a full rewrite**: after the reboot command a block is the image's, or it has kept its
content and that has the same CRC-16. -/
theorem runInner_image_or_collision (link : Chunking) (hmode : t.isUpdateUboot = false)
    (flash : Flash) (fuel : ℕ) :
    let a := z.image t.fileContent hzone hunit
    let run := uartTrace z link t.encKey (runInner t (fuel + 1)) flash
    run.commands.getLast? = some .reboot ∧
      ∀ i < a.count, run.flash.read (a.blocks.addr i) a.unit = a.block i ∨
        run.flash.read (a.blocks.addr i) a.unit = flash.read (a.blocks.addr i) a.unit ∧
          Crc16.xmodem (flash.read (a.blocks.addr i) a.unit) = Crc16.xmodem (a.block i) := by
  intro a run
  by_cases hsame : a.blocks.checksums Crc16.xmodem = a.blocks.readChecksums flash Crc16.xmodem
  · obtain ⟨-, ⟨l, hl, -⟩, hflash, -⟩ := uart_of_rebooted z link t.encKey (fun _ h => h.1)
      (runInner_rebooted_same hzone hunit hmode hsame (fuel + 1))
    refine ⟨by rw [show run.commands = _ from hl, List.getLast?_concat], fun i hi => Or.inr ?_⟩
    have hcrc := (a.blocks.checksums_eq_iff flash Crc16.xmodem).mp hsame i hi
    rw [show run.flash = flash from hflash]
    exact ⟨rfl, (not_not.mp hcrc).symm⟩
  · obtain ⟨-, ⟨l, hl, -⟩, hflash, -⟩ := uart_of_rebooted z link t.encKey (fun _ h => h)
      (runInner_rebooted_updated hzone hunit hmode hsame fuel)
    refine ⟨by rw [show run.commands = _ from hl, List.getLast?_concat], fun i hi => ?_⟩
    rw [show run.flash = _ from hflash]
    by_cases h : i = 0 ∨ a.blocks.Differs flash Crc16.xmodem i
    · exact Or.inl (a.blocks.read_updated_of_mem flash Crc16.xmodem hi h)
    · rw [not_or] at h
      exact Or.inr ⟨a.blocks.read_updated_of_not_mem flash Crc16.xmodem hi h.1 h.2,
        (not_not.mp h.2).symm⟩

/-! ### A collision -/

/-- Nothing is written: the run ends with the reboot command and the page is not the image's. -/
theorem collision_survives :
    let a := onePageZone.image zeroUpdate.fileContent zeroUpdate_zone_lt (Or.inl rfl)
    let run := uartTrace onePageZone wholeChunks zeroUpdate.encKey (runInner zeroUpdate 1)
      collidingFlash
    run.commands.getLast? = some .reboot ∧
      run.flash.read (a.blocks.addr 0) a.unit ≠ a.block 0 := by
  intro a run
  obtain ⟨hcount, hunit, hblock⟩ := zeroUpdate_image
  have haddr : a.blocks.addr 0 = 0 := a.blocks.addr_zero
  have hsame : a.blocks.checksums Crc16.xmodem
      = a.blocks.readChecksums collidingFlash Crc16.xmodem := by
    refine (a.blocks.checksums_eq_iff collidingFlash Crc16.xmodem).mpr fun i hi => not_not.mpr ?_
    obtain rfl : i = 0 := Nat.lt_one_iff.mp (hi.trans_eq hcount)
    show Crc16.xmodem (a.block 0) = Crc16.xmodem (collidingFlash.read (a.blocks.addr 0) a.unit)
    rw [hblock, haddr, hunit, read_collidingFlash, Crc16.xmodem_zeros (by decide +kernel)]
    exact Crc16.xmodem_zeros (l := []) rfl 256
  obtain ⟨-, ⟨l, hl, -⟩, hflash, -⟩ := uart_of_rebooted onePageZone wholeChunks zeroUpdate.encKey
    (fun _ h => h.1) (runInner_rebooted_same zeroUpdate_zone_lt (Or.inl rfl) rfl hsame 1)
  refine ⟨by rw [show run.commands = _ from hl, List.getLast?_concat], ?_⟩
  rw [show run.flash = collidingFlash from hflash, haddr, hunit, hblock, read_collidingFlash]
  exact fun h => absurd (List.cons.inj h).1 (by decide)

/-- The page of the same run keeps its content, which has the CRC-16 of the image. -/
theorem runInner_image_or_collision_zero :
    let a := onePageZone.image zeroUpdate.fileContent zeroUpdate_zone_lt (Or.inl rfl)
    let run := uartTrace onePageZone wholeChunks zeroUpdate.encKey (runInner zeroUpdate 1)
      collidingFlash
    run.commands.getLast? = some .reboot ∧
      ∀ i < a.count, run.flash.read (a.blocks.addr i) a.unit = a.block i ∨
        run.flash.read (a.blocks.addr i) a.unit = collidingFlash.read (a.blocks.addr i) a.unit ∧
          Crc16.xmodem (collidingFlash.read (a.blocks.addr i) a.unit)
            = Crc16.xmodem (a.block i) :=
  runInner_image_or_collision zeroUpdate_zone_lt (Or.inl rfl) wholeChunks rfl collidingFlash 0

/-- At every cut point of the update the flash is as before, as after it, or has the head of block 0
erased. -/
theorem runInner_interrupted (hzone : z.zoneAddr.toNat < t.fileContent.data.length)
    (hunit : z.alignSize = 256 ∨ z.alignSize = 4096) (link : Chunking)
    (hmode : t.isUpdateUboot = false) (flash : Flash) (fuel : ℕ) :
    let run := uartTrace z link t.encKey (runInner t (fuel + 1)) flash
    (∃ v, run.outcome = .ok v) ∧
      ∀ m ∈ run.cuts, m = flash ∨ m = run.flash ∨ m.Erased z.flashEoffsetSize 32 := by
  intro run
  set a := z.image t.fileContent hzone hunit with ha
  by_cases hsame : a.blocks.checksums Crc16.xmodem = a.blocks.readChecksums flash Crc16.xmodem
  · obtain ⟨hres, -, -, hall⟩ := uart_of_rebooted z link t.encKey (fun _ h => h.1)
      (runInner_rebooted_same hzone hunit hmode hsame (fuel + 1))
    exact ⟨⟨_, hres⟩, fun m hm => Or.inl (or_self_iff.mp (hall m hm))⟩
  · obtain ⟨hres, -, hflash, hall⟩ := uart_of_rebooted z link t.encKey (fun _ h => h)
      (runInner_rebooted_updated hzone hunit hmode hsame fuel)
    refine ⟨⟨_, hres⟩, fun m hm => ?_⟩
    rcases hall m hm with h | h | h | h
    · exact Or.inl h
    · exact Or.inl h
    · exact Or.inr (Or.inr (h.mono a.unit_ge))
    · exact Or.inr (Or.inl (h.trans hflash.symm))

end Update

end FwBootloader
