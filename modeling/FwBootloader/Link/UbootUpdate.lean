import FwBootloader.Link.UartUpdate
import FwBootloader.Uart.Equiv.History

/-!
## The bootloader's update over a serial link

In bootloader mode `runInner` replaces the bootloader itself, in `[flashEoffsetSize, 65536)`, by way
of a backup behind it.

* `runInner_eq_bind`: `untilApp` is `runInner` up to the end of `if (m_isUpdateUboot)`.
* `untilApp_keeps_copy`: at every cut point of it the bootloader is as it was, but for the unit at
  the zone's address that is erased first, or the backup is complete; at the end both are.
-/

namespace FwBootloader

open Bytes User Uart Dialog

/-! ### Up to the application's update -/

/-- `runInner` up to the end of `if (m_isUpdateUboot)`; `none` for `return`. -/
def Uart.untilApp (t : UpdateThread) (fuel : ℕ) : HostM (Option DeviceInitInfo) := do
  match ← deviceUpdateZoneInit "app_dir_head" 0 with
  | none => return none
  | some app =>
    match ← exchange (.deviceCheck 0x12345678) with
    | none => return none
    | some cmd =>
      match isReplyDeviceCheckCmd cmd (List.replicate 4 0) (List.replicate 16 0) with
      | .error _ => return none
      | .ok _ =>
        let fileContent := t.fileContent.data
        if UInt32.ofNat fileContent.length ≤ app.zoneAddr then return none
        if t.isUpdateUboot then
          if !(← ubootPhase fuel fileContent app) then return none
        return some app

/-- The rest of `runInner`. -/
def Uart.fromApp (t : UpdateThread) (fuel : ℕ) : Option DeviceInitInfo → HostM Outcome
  | none => return .stopped
  | some app => appPhase fuel t.fileContent.data app

theorem Uart.runInner_eq_bind (t : UpdateThread) (fuel : ℕ) :
    runInner t fuel = untilApp t fuel >>= fromApp t fuel := by
  unfold runInner untilApp
  rw [Dialog.bind_assoc]
  refine congrArg (deviceUpdateZoneInit _ _ >>= ·) (funext fun info => ?_)
  rcases info with _ | app
  · rfl
  dsimp only
  rw [Dialog.bind_assoc]
  refine congrArg (exchange _ >>= ·) (funext fun reply => ?_)
  rcases reply with _ | cmd
  · rfl
  dsimp only
  rcases isReplyDeviceCheckCmd cmd (List.replicate 4 0) (List.replicate 16 0) with e | checked
  · rfl
  dsimp only
  split_ifs
  · rfl
  · rw [Dialog.bind_assoc]
    refine congrArg (ubootPhase fuel _ app >>= ·) (funext fun ok => ?_)
    cases ok
    · rfl
    · rfl
  · rfl

/-! ### The device itself -/

/-- What is known of a procedure against the abstract device holds for the device itself. -/
theorem uart_of_does (z : Zone) (link : Chunking) (key : UInt32) {α : Type} {J : Flash → Prop}
    {p : HostM α} {v : α} {flash flash' : Flash} (h : Does z Fits J p v flash flash') :
    (uartTrace z link key p flash).outcome = .ok v ∧ (uartTrace z link key p flash).flash = flash' ∧
      ∀ m ∈ (uartTrace z link key p flash).cuts, m = flash ∨ J m := by
  obtain ⟨hfits, hstates, _, hresult, rfl, hfinal⟩ := wp_sound h
  obtain ⟨-, hres, hfin, hall⟩ :=
    run_of_simulates (simulates_serve z key link) (related_initial z key flash) hfits
  refine ⟨hres.trans hresult, ?_, fun m hm => ?_⟩
  · rw [uartTrace, hfin.flash, hfinal]
  · obtain ⟨s', hs', rfl⟩ := List.mem_map.mp hm
    obtain ⟨t, ht, hrel⟩ := hall s' hs'
    rw [hrel.flash]
    rcases hstates t ht with rfl | hJ
    · exact Or.inl rfl
    · exact Or.inr hJ

/-! ### The two areas -/

/-- Where the flash holds a buffer, the device computes the buffer's checksums. -/
theorem blockCrcs_of_read (b : UnitBuffer) {m : Flash} {base : UInt32}
    (h : m.read base b.data.length = b.data) :
    blockCrcs m base b.unit b.count = (b.blocks base).checksums Crc16.xmodem := by
  refine List.map_congr_left fun i hi => ?_
  have hend := b.block_end (List.mem_range.mp hi)
  have hoff : UInt32.ofNat i * b.unit = UInt32.ofNat (i * b.unit.toNat) := by
    rw [UInt32.ofNat_mul, UInt32.ofNat_toNat]
  rw [hoff, ← m.read_piece base (show i * b.unit.toNat + b.unit.toNat ≤ b.data.length by
    rw [b.length_data]; exact hend), h]
  rfl

namespace UbootImage

variable (a : UbootImage)

/-- The bootloader's area is `[flashEoffsetSize, 65536)`. -/
theorem within_boot_iff {x : UInt32} :
    Flash.Within a.app.flashEoffsetSize a.bootSize x ↔ a.app.flashEoffsetSize ≤ x ∧ x < 65536 := by
  have hsize := a.eoffset_add_bootSize
  have hlt := a.eoffset_lt
  have hxlt := x.toNat_lt
  rw [Flash.Within, UInt32.toNat_sub, UInt32.le_iff_toNat_le, UInt32.lt_iff_toNat_lt,
    show (65536 : UInt32).toNat = 65536 from rfl]
  omega

/-- The backup is behind it. -/
theorem boot_apart_backup : Flash.Apart a.app.flashEoffsetSize a.bootSize 65536 a.bootSize := by
  have hle := a.bootSize_le
  have hsize := a.eoffset_add_bootSize
  have hbackup : a.app.flashEoffsetSize + UInt32.ofNat a.bootSize = 65536 := by
    apply UInt32.toNat_inj.mp
    rw [UInt32.toNat_add, UInt32.toNat_ofNat_of_lt' (show _ < 2 ^ 32 by omega), hsize]
    rfl
  have hapart := @Flash.apart_of_le a.app.flashEoffsetSize 0 a.bootSize a.bootSize a.bootSize
    (by omega) (by omega)
  rwa [hbackup, show a.app.flashEoffsetSize + UInt32.ofNat 0 = a.app.flashEoffsetSize from
    UInt32.add_zero _] at hapart

/-- The bootloader is as it was, or as it was with the unit at the zone's address erased, or the
backup is complete. -/
def KeepsCopy (flash m : Flash) : Prop :=
  (∀ x, Flash.Within a.app.flashEoffsetSize a.bootSize x → m x = flash x) ∨
    (∀ x, Flash.Within a.app.flashEoffsetSize a.bootSize x →
      m x = flash.erase a.app.zoneAddr a.unit x) ∨
    m.read 65536 a.bootSize = a.bootData

variable {a} {flash m : Flash}

/-- While only the backup changes. -/
theorem keepsCopy_of_boot
    (h : ∀ x, ¬ Flash.Within 65536 a.bootSize x → m x = flash.erase a.app.zoneAddr a.unit x) :
    a.KeepsCopy flash m :=
  Or.inr (Or.inl fun x hx => h x (a.boot_apart_backup x hx))

theorem read_backup {m' : Flash} (hm : m.read 65536 a.bootSize = a.bootData)
    (h : ∀ x, ¬ Flash.Within a.app.flashEoffsetSize a.bootSize x → m' x = m x) :
    m'.read 65536 a.bootSize = a.bootData := by
  have hle := a.bootSize_le
  rw [← hm]
  exact Flash.read_congr (by omega) fun x hx => h x (a.boot_apart_backup.symm x hx)

/-- While only the bootloader changes and the backup is complete. -/
theorem keepsCopy_of_backup {m' : Flash} (hm : m.read 65536 a.bootSize = a.bootData)
    (h : ∀ x, ¬ Flash.Within a.app.flashEoffsetSize a.bootSize x → m' x = m x) :
    a.KeepsCopy flash m' :=
  Or.inr (Or.inr (read_backup hm h))

/-- An area is a whole number of sectors. -/
theorem bootSize_sectors (a : UbootImage) :
    a.bootSize / 4096 * 4096 = a.bootSize ∧ a.bootSize / 4096 ≤ 256 := by
  have hle := a.bootSize_le
  refine ⟨Nat.div_mul_cancel a.bootSize_dvd, ?_⟩
  omega

theorem bootCount_le (a : UbootImage) : a.bootCount ≤ 256 := by
  have hmul := a.bootCount_mul
  have hle := a.bootSize_le
  rcases a.unit_eq with h | h <;> rw [h] at hmul <;> omega

end UbootImage

/-! ### The phase -/

section

variable {z : Zone} {a : UbootImage} {flash m : Flash}

/-- A complete area passes the check. -/
theorem ensureArea_does {J : Flash → Prop} (halign : z.alignSize = a.app.eraseUnitSize)
    {address : UInt32} (hm : m.read address a.bootSize = a.bootData) (hJ : J m) :
    Does z Fits J (ensureCrcMatch ((a.bootBuffer.blocks 65536).checksums Crc16.xmodem) address
      (UInt32.ofNat a.bootCount) a.app.eraseUnitSize) true m m := by
  refine ensureCrcMatch_does halign a.eraseUnitSize_ne (fun _ _ h => ⟨a.eraseUnitSize_ne, h⟩) hJ
    (eraseUnitSize_fits a.toAppImage _) ?_
  have hread : m.read address a.bootBuffer.data.length = a.bootBuffer.data := by
    rw [show a.bootBuffer.data.length = a.bootSize from a.length_bootData]
    exact hm
  rw [show (UInt32.ofNat a.bootCount).toNat = a.bootCount from a.bootBuffer.toNat_count]
  exact blockCrcs_of_read a.bootBuffer hread

variable {fuel : ℕ} (hfuel : 256 ≤ fuel)
include hfuel

/-- An area is erased sector by sector. -/
theorem eraseArea_does {J : Flash → Prop} (address : UInt32) {len : UInt32}
    (hlen : len.toNat = a.bootSize) (hJ : ∀ k ≤ a.bootSize, J (m.erase address k)) :
    Does z Fits J (eraseFlash fuel address len) true m (m.erase address a.bootSize) := by
  have hsectors := a.bootSize_sectors
  have hpos := a.bootSize_pos
  have hne : len ≠ 256 := by
    rintro rfl
    rw [show (256 : UInt32).toNat = 256 from rfl] at hlen
    omega
  unfold eraseFlash eraseUnits
  rw [if_neg hne]
  have hloop := @eraseLoop_does z Fits J (a.bootSize / 4096) m fuel (by omega) address len
    (hlen.trans hsectors.1.symm) (fun _ _ => trivial) fun k _ hk => hJ _ (by omega)
  rwa [hsectors.1] at hloop

/-- A program of whole units. -/
theorem writeArea_does {J : Flash → Prop} {buffer content : List UInt8} {address len : UInt32}
    {n : ℕ} (hn : n ≤ a.bootCount) (hlen : len.toNat = n * a.unit)
    (hbuf : readBuf buffer 0 len = some content)
    (hJ : ∀ k, J (m.program address (content.take k))) :
    Does z Fits J (writeFlash fuel buffer address len a.app.eraseUnitSize) true m
      (m.program address content) := by
  have hcount := a.bootCount_le
  exact writeFlash_units_does (by omega) a.eraseUnitSize_ne hlen hbuf
    (fun _ _ hc => ⟨hc, eraseUnitSize_le a.toAppImage⟩) fun k _ _ => hJ _

/-- The first block and the check of the bootloader. -/
theorem finishUboot_does (halign : z.alignSize = a.app.eraseUnitSize) {m' : Flash}
    (hm' : m.program a.app.flashEoffsetSize (a.bootBuffer.block 0) = m')
    (hread : m'.read a.app.flashEoffsetSize a.bootSize = a.bootData)
    (hkeep : a.KeepsCopy flash m') :
    Does z Fits (a.KeepsCopy flash)
      (finishUboot fuel a.bootData ((a.bootBuffer.blocks 65536).checksums Crc16.xmodem)
        a.app.flashEoffsetSize a.app.eraseUnitSize (UInt32.ofNat a.bootCount)) true m m' := by
  obtain ⟨fuel, rfl⟩ := Nat.exists_eq_add_of_le' (show 1 ≤ fuel by omega)
  have hbuf : readBuf a.bootData 0 a.app.eraseUnitSize = some (a.bootBuffer.block 0) := by
    have h := a.bootBuffer.readBuf_drop a.bootCount_pos
    rwa [show UInt32.ofNat 0 = 0 from rfl, UInt32.zero_mul, UInt32.toNat_zero, List.drop_zero] at h
  have hfirst : Does z Fits (a.KeepsCopy flash)
      (writeFlash (fuel + 1) a.bootData a.app.flashEoffsetSize a.app.eraseUnitSize
        a.app.eraseUnitSize) true m m' := by
    rw [← hm']
    exact writeFlash_does fuel a.eraseUnitSize_ne hbuf
      ⟨a.bootBuffer.length_block a.bootCount_pos, eraseUnitSize_le a.toAppImage⟩
      (by rw [hm']; exact hkeep)
  unfold finishUboot
  rw [UInt32.zero_add]
  refine hfirst.bind ?_
  refine (ensureArea_does halign hread hkeep).bind ?_
  refine (deviceUpdateZoneInit_does "app_dir_head" 0 trivial hkeep).bind ?_
  exact does_pure ..

/-- With a complete backup the bootloader is replaced. -/
theorem updateUboot_does (halign : z.alignSize = a.app.eraseUnitSize) {abs64kLen : UInt32}
    (habs : abs64kLen.toNat = a.bootSize) (hm : m.read 65536 a.bootSize = a.bootData) :
    ∃ m', Does z Fits (a.KeepsCopy flash)
        (updateUboot fuel a.bootData ((a.bootBuffer.blocks 65536).checksums Crc16.xmodem)
          a.app.flashEoffsetSize abs64kLen a.app.eraseUnitSize
          (UInt32.ofNat a.bootCount)) true m m' ∧
      m'.read a.app.flashEoffsetSize a.bootSize = a.bootData ∧
      m'.read 65536 a.bootSize = a.bootData := by
  set e := a.app.flashEoffsetSize with he
  set erased := m.erase e a.bootSize with herased
  have hle := a.bootSize_le
  have hdata := a.length_bootData
  have htail := a.unit_add_tail
  have hunit := a.toNat_eraseUnitSize
  have hone : (1 * a.app.eraseUnitSize).toNat = a.unit := by rw [UInt32.one_mul]; rfl
  have hblock : a.bootBuffer.block 0 = a.bootData.take a.unit := by
    show (a.bootData.drop (0 * a.unit)).take a.unit = _
    rw [Nat.zero_mul, List.drop_zero]
  have hkeep {m' : Flash} (h : ∀ x, ¬ Flash.Within e a.bootSize x → m' x = m x) :
      a.KeepsCopy flash m' := UbootImage.keepsCopy_of_backup hm h
  have hoffset : e + UInt32.ofNat a.unit = 1 * a.app.eraseUnitSize + e := by
    rw [← hunit, UInt32.ofNat_toNat, UInt32.one_mul, UInt32.add_comm]
  -- whatever is programmed behind the first block
  have hprogram (l : List UInt8) (hl : a.unit + l.length ≤ a.bootSize) (x : UInt32)
      (hx : ¬ Flash.Within e a.bootSize x) :
      erased.program (1 * a.app.eraseUnitSize + e) l x = m x := by
    rw [← hoffset, Flash.program_of_not_within _ fun h => hx (h.widen hl (by omega))]
    exact Flash.erase_of_not_within m hx
  set rest := a.bootData.drop a.unit with hrest
  have hrestlen : rest.length = a.bootSize - a.unit := by
    rw [List.length_drop, hdata]
  have hwhole : (erased.program (1 * a.app.eraseUnitSize + e) rest).program e
      (a.bootBuffer.block 0) = m.store e a.bootData := by
    have htake : (a.bootData.take a.unit).length = a.unit := by
      rw [List.length_take]
      omega
    have happend := @Flash.program_append erased e (a.bootData.take a.unit) rest (by omega)
    rw [htake, hoffset, List.take_append_drop] at happend
    rw [hblock, Flash.program_comm, happend]
    exact Flash.program_erase m e hdata
  have hread : (m.store e a.bootData).read e a.bootSize = a.bootData := by
    have h := @Flash.read_store m e a.bootData (by omega)
    rwa [hdata] at h
  have hstore (x : UInt32) (hx : ¬ Flash.Within e a.bootSize x) : m.store e a.bootData x = m x :=
    Flash.store_of_not_within m (by rwa [hdata])
  refine ⟨m.store e a.bootData, ?_, hread, UbootImage.read_backup hm hstore⟩
  have hfinish := @finishUboot_does z a flash (erased.program (1 * a.app.eraseUnitSize + e) rest)
    fuel hfuel halign _ hwhole hread (hkeep hstore)
  unfold updateUboot
  rw [UInt32.zero_add]
  refine (eraseArea_does hfuel e habs fun k hk => hkeep fun x hx =>
    Flash.erase_of_not_within m fun h => hx (h.mono hk)).bind ?_
  rw [hone]
  have hlen : ((UInt32.ofNat a.bootCount - 1) * a.app.eraseUnitSize).toNat
      = (a.bootCount - 1) * a.unit := by
    have hmul : (a.bootCount - 1) * a.unit = a.bootCount * a.unit - a.unit := by
      rw [Nat.sub_mul, Nat.one_mul]
    rw [hmul, a.bootCount_mul, ← htail, Nat.add_sub_cancel_left]
  by_cases hcount : UInt32.ofNat a.bootCount > 1
  · have hbuf : readBuf rest 0 ((UInt32.ofNat a.bootCount - 1) * a.app.eraseUnitSize)
        = some rest := by
      rw [readBuf, UInt32.toNat_zero, if_pos (by omega), List.drop_zero,
        List.take_of_length_le (by omega)]
    have hwrite : Does z Fits (a.KeepsCopy flash) (writeFlash fuel rest
        (1 * a.app.eraseUnitSize + e) ((UInt32.ofNat a.bootCount - 1) * a.app.eraseUnitSize)
        a.app.eraseUnitSize) true erased (erased.program (1 * a.app.eraseUnitSize + e) rest) :=
      writeArea_does hfuel (Nat.sub_le ..) hlen hbuf fun k => hkeep (hprogram _ (by
        rw [List.length_take]
        omega))
    rw [if_pos hcount]
    exact hwrite.bind hfinish
  · -- there is only one unit
    have hone' : a.bootCount ≤ 1 := by
      have htoNat : (UInt32.ofNat a.bootCount).toNat = a.bootCount := a.bootBuffer.toNat_count
      rw [gt_iff_lt, UInt32.lt_iff_toNat_lt, htoNat] at hcount
      exact not_lt.mp hcount
    have hnil : rest = [] := by
      refine List.eq_nil_of_length_eq_zero ?_
      rw [hlen, Nat.sub_eq_zero_of_le hone', Nat.zero_mul] at htail
      omega
    rw [hnil, Flash.program_nil] at hfinish
    rw [if_neg hcount]
    exact hfinish

/-- **The bootloader phase**: the backup first, then the bootloader. -/
theorem ubootPhase_does (halign : z.alignSize = a.app.eraseUnitSize) :
    ∃ m', Does z Fits (a.KeepsCopy flash) (ubootPhase fuel a.file.data a.app) true flash m' ∧
      m'.read a.app.flashEoffsetSize a.bootSize = a.bootData ∧
      m'.read 65536 a.bootSize = a.bootData := by
  set erased := flash.erase a.app.zoneAddr a.unit with herased
  have hle := a.bootSize_le
  have hdata := a.length_bootData
  have hkeep {m : Flash} (h : ∀ x, ¬ Flash.Within 65536 a.bootSize x → m x = erased x) :
      a.KeepsCopy flash m := UbootImage.keepsCopy_of_boot h
  -- the copy is what the update then relies on
  have hstored : (erased.store 65536 a.bootData).read 65536 a.bootSize = a.bootData := by
    have h := @Flash.read_store erased 65536 a.bootData (by omega)
    rwa [hdata] at h
  have hprogram (l : List UInt8) (hl : l.length ≤ a.bootSize) (x : UInt32)
      (hx : ¬ Flash.Within 65536 a.bootSize x) :
      (erased.erase 65536 a.bootSize).program 65536 l x = erased x := by
    rw [Flash.program_of_not_within _ fun h => hx (h.mono hl)]
    exact Flash.erase_of_not_within erased hx
  have hwhole : (erased.erase 65536 a.bootSize).program 65536 a.bootData
      = erased.store 65536 a.bootData := Flash.program_erase erased 65536 hdata
  have hkept : a.KeepsCopy flash (erased.store 65536 a.bootData) := by
    rw [← hwhole]
    exact hkeep (hprogram _ hdata.le)
  have habs := a.toNat_abs64kLen
  have hcount := a.bootCount_eq
  have hcrcs := getBufferCrcList_boot a
  have hbuf := a.bootData_eq
  unfold ubootPhase
  dsimp only
  rw [hbuf, hcount]
  generalize (65536 : UInt32) - a.app.flashEoffsetSize = abs64kLen at habs ⊢
  obtain ⟨m', hdoes, hread, hbackup⟩ :=
    @updateUboot_does z a flash _ fuel hfuel halign _ habs hstored
  refine ⟨m', ?_, hread, hbackup⟩
  -- the notice is erased, then the copy is written and checked
  have hfirst : Does z Fits (a.KeepsCopy flash)
      (eraseFlash fuel a.app.zoneAddr a.app.eraseUnitSize) true flash erased := by
    obtain ⟨fuel, rfl⟩ := Nat.exists_eq_add_of_le' (show 1 ≤ fuel by omega)
    exact eraseFlash_does fuel _ a.unit_cases (fun _ => trivial) (hkeep fun _ _ => rfl)
  have hread65536 : readBuf a.bootData 0 abs64kLen = some a.bootData := by
    rw [readBuf, UInt32.toNat_zero, habs, if_pos (by omega), List.drop_zero,
      List.take_of_length_le hdata.le]
  have hwrite : Does z Fits (a.KeepsCopy flash)
      (writeFlash fuel a.bootData 65536 abs64kLen a.app.eraseUnitSize) true
      (erased.erase 65536 a.bootSize) (erased.store 65536 a.bootData) := by
    rw [← hwhole]
    exact writeArea_does hfuel le_rfl (habs.trans a.bootCount_mul.symm) hread65536 fun k =>
      hkeep (hprogram _ (by rw [List.length_take]; omega))
  refine (deviceUpdateZoneInit_does "uboot_zone" 0 trivial (Or.inl fun _ _ => rfl)).bind ?_
  refine hfirst.bind ?_
  refine (eraseArea_does hfuel 65536 habs fun k hk => hkeep fun x hx =>
    Flash.erase_of_not_within erased fun h => hx (h.mono hk)).bind ?_
  rw [if_neg a.eraseUnitSize_ne]
  refine hwrite.bind ?_
  rw [hcrcs]
  refine (ensureArea_does halign hstored hkept).bind ?_
  exact hdoes

/-- The phase within `runInner`. -/
theorem untilApp_does {t : UpdateThread} (hmode : t.isUpdateUboot = true)
    (hfile : a.file = t.fileContent)
    (happ : a.app = z.info) :
    ∃ m', Does z Fits (a.KeepsCopy flash) (untilApp t fuel) (some z.info) flash m' ∧
      m'.read a.app.flashEoffsetSize a.bootSize = a.bootData ∧
      m'.read 65536 a.bootSize = a.bootData := by
  have halign : z.alignSize = a.app.eraseUnitSize := by rw [happ]; rfl
  obtain ⟨m', hphase, hread, hbackup⟩ := @ubootPhase_does z a flash fuel hfuel halign
  have hstart : a.KeepsCopy flash flash := Or.inl fun _ _ => rfl
  have hsize : ¬ UInt32.ofNat t.fileContent.data.length ≤ z.info.zoneAddr := by
    rw [t.fileContent.size_le_iff, ← hfile, ← happ]
    exact not_le.mpr a.zone_lt
  rw [hfile, happ] at hphase
  refine ⟨m', ?_, hread, hbackup⟩
  refine (deviceUpdateZoneInit_does "app_dir_head" 0 trivial hstart).bind ?_
  refine (does_exchange (z := z) (P := Fits) (c := .deviceCheck 0x12345678) (by rintro ⟨⟩) rfl
    hstart).bind ?_
  dsimp only [ZoneDevice.answer, Option.map_some]
  rw [isReplyDeviceCheckCmd_payload]
  dsimp only
  rw [if_neg hsize, hmode, if_pos rfl]
  exact hphase.bind (does_pure ..)

end

/-- **The bootloader's update keeps a good copy.**  `untilApp` is `runInner` up to the end of the
phase.  At each of its cut points `[flashEoffsetSize, 65536)` is as before, but for the unit at the
zone's address that may have been erased, or the backup is complete; at the end both hold the new
bootloader. -/
theorem untilApp_keeps_copy {z : Zone} {t : UpdateThread}
    (hzone : z.zoneAddr.toNat < t.fileContent.data.length)
    (hunit : z.alignSize = 256 ∨ z.alignSize = 4096) (hdvd : 4096 ∣ z.flashEoffsetSize.toNat)
    (hlt : z.flashEoffsetSize.toNat < 65536) (hmode : t.isUpdateUboot = true) (link : Chunking)
    (flash : Flash) {fuel : ℕ} (hfuel : 256 ≤ fuel) :
    let e := z.flashEoffsetSize
    let n := 65536 - e.toNat
    let boot := t.fileContent.data.take n ++ List.replicate (n - t.fileContent.data.length) 0xFF
    let run := uartTrace z link t.encKey (untilApp t fuel) flash
    runInner t fuel = untilApp t fuel >>= fromApp t fuel ∧ run.outcome = .ok (some z.info) ∧
      (∀ m ∈ run.cuts, (∀ x, e ≤ x ∧ x < 65536 → m x = flash x) ∨
        (∀ x, e ≤ x ∧ x < 65536 → m x = flash.erase z.zoneAddr z.alignSize.toNat x) ∨
        m.read 65536 n = boot) ∧
      run.flash.read e n = boot ∧ run.flash.read 65536 n = boot := by
  intro e n boot run
  let a : UbootImage :=
    { z.image t.fileContent hzone hunit with eoffset_dvd := hdvd, eoffset_lt := hlt }
  -- the phase on the abstract device, read on the serial line
  obtain ⟨m', hdoes, hread, hbackup⟩ := @untilApp_does z a flash fuel hfuel t hmode rfl rfl
  obtain ⟨hres, hflash, hcuts⟩ := uart_of_does z link t.encKey hdoes
  have hboot (x : UInt32) : Flash.Within e n x ↔ e ≤ x ∧ x < 65536 := a.within_boot_iff
  refine ⟨runInner_eq_bind t fuel, hres, fun m hm => ?_, ?_, ?_⟩
  · rcases hcuts m hm with rfl | h | h | h
    · exact Or.inl fun _ _ => rfl
    · exact Or.inl fun x hx => h x ((hboot x).mpr hx)
    · exact Or.inr (Or.inl fun x hx => h x ((hboot x).mpr hx))
    · exact Or.inr (Or.inr h)
  · rw [show run.flash = m' from hflash]
    exact hread
  · rw [show run.flash = m' from hflash]
    exact hbackup

/-- A device whose bootloader has two sectors. -/
def twoSectorZone : Zone where
  zoneAddr := 0
  upgradeLen := 0x10000
  flashEoffsetSize := 0xE000
  alignSize := 0x1000
  pid := Vector.replicate 16 0
  vid := Vector.replicate 4 0

/-- The bootloader of two sectors is the backup. -/
theorem untilApp_keeps_copy_twoSectors :
    let n := 65536 - twoSectorZone.flashEoffsetSize.toNat
    let run := uartTrace twoSectorZone wholeChunks oneByteUpdate.encKey (untilApp oneByteUpdate 256)
      fun _ => 0xFF
    run.flash.read twoSectorZone.flashEoffsetSize n = run.flash.read 65536 n := by
  intro n run
  obtain ⟨-, -, -, hread, hbackup⟩ := @untilApp_keeps_copy twoSectorZone oneByteUpdate (by decide)
    (Or.inr rfl) ⟨14, rfl⟩ (by decide) rfl wholeChunks (fun _ => 0xFF) 256 (by decide)
  exact hread.trans hbackup.symm

end FwBootloader
