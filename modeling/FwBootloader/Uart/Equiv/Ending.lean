import FwBootloader.Equiv.Writes
import FwBootloader.Uart.Equiv.History
import FwBootloader.Uart.Equiv.Image
import FwBootloader.Uart.Ordering

/-!
## The updater comes to an end

`runInner_ends`: on a device with a layout that the updater can handle, a run that writes the
bootloader or does not ends with an outcome within `mostExchanges`, whatever is replied.  No loop
goes on for ever, nothing behind the end of the file's buffer is read, and nothing is divided by
zero.
-/

namespace FwBootloader.Uart

open Dialog

/-! ### Erasing, writing and asking -/

theorem doEraseFlash_ends (address len : UInt32) : EndsWithin (doEraseFlash address len) 1 := by
  rw [doEraseFlash_eq]
  exact ⟨Nat.one_pos, fun _ => trivial⟩

/-- Sectors take an exchange each. -/
theorem eraseFlash_ends {n fuel : ℕ} (hfuel : n ≤ fuel) (address : UInt32) {len : UInt32}
    (hlen : len.toNat = n * 4096) : EndsWithin (eraseFlash fuel address len) n := by
  have hne : len ≠ 256 := by
    rintro rfl
    have h256 : (256 : UInt32).toNat = 256 := rfl
    omega
  rw [eraseFlash, eraseUnits, if_neg hne]
  clear hne
  induction n generalizing fuel address len with
  | zero =>
    obtain rfl : len = 0 := UInt32.toNat_inj.mp (by rw [hlen, Nat.zero_mul]; rfl)
    cases fuel <;> exact trivial
  | succ n ih =>
    obtain ⟨fuel, rfl⟩ : ∃ k, fuel = k + 1 := ⟨fuel - 1, by omega⟩
    have hne : len ≠ 0 := by
      rintro rfl
      rw [UInt32.toNat_zero] at hlen
      omega
    have hrest : (len - 4096).toNat = n * 4096 := by
      have hle : (4096 : UInt32) ≤ len := by
        rw [UInt32.le_iff_toNat_le, hlen, show (4096 : UInt32).toNat = 4096 from rfl]
        omega
      rw [UInt32.toNat_sub_of_le _ _ hle, hlen, show (4096 : UInt32).toNat = 4096 from rfl]
      omega
    rw [eraseLoop, if_neg hne, Nat.add_comm]
    refine (doEraseFlash_ends address 4096).bind fun b => ?_
    cases b with
    | false => exact trivial
    | true => exact ih (by omega) _ hrest

theorem eraseFlash_unit_ends {fuel : ℕ} (hfuel : 1 ≤ fuel) (address : UInt32) {unit : UInt32}
    (hunit : unit = 256 ∨ unit = 4096) : EndsWithin (eraseFlash fuel address unit) 1 := by
  rcases hunit with rfl | rfl
  · exact doEraseFlash_ends address 256
  · exact eraseFlash_ends hfuel address rfl

/-- Pieces take an exchange each, and all of them are in the buffer. -/
theorem writeFlash_ends {n fuel : ℕ} (hfuel : n ≤ fuel) {buffer : List UInt8}
    (address : UInt32) {len unit : UInt32} (hlen : len.toNat ≤ n * unit.toNat)
    (hbuffer : len.toNat ≤ buffer.length) :
    EndsWithin (writeFlash fuel buffer address len unit) n := by
  induction n generalizing fuel buffer address len with
  | zero =>
    obtain rfl : len = 0 := UInt32.toNat_inj.mp (by rw [UInt32.toNat_zero]; omega)
    cases fuel <;> exact trivial
  | succ n ih =>
    obtain ⟨fuel, rfl⟩ : ∃ k, fuel = k + 1 := ⟨fuel - 1, by omega⟩
    by_cases h0 : len = 0
    · rw [writeFlash, if_pos h0]
      exact trivial
    have hpiece := toNat_writeLenOf unit len
    have hsub : (len - writeLenOf unit len).toNat = len.toNat - (writeLenOf unit len).toNat :=
      UInt32.toNat_sub_of_le _ _ (writeLenOf_le unit len)
    have hsucc : (n + 1) * unit.toNat = n * unit.toNat + unit.toNat := Nat.succ_mul ..
    have hlong : (writeLenOf unit len).toNat ≤ buffer.length := by omega
    have hread := readBuf_zero_iff.mpr ⟨hlong, rfl⟩
    rw [writeFlash_succ h0, doWriteFlash_eq hread, Nat.add_comm]
    refine EndsWithin.bind ⟨Nat.one_pos, fun _ => trivial⟩ fun b => ?_
    cases b with
    | false => exact trivial
    | true => exact ih (by omega) _ (by omega) (by rw [List.length_drop]; omega)

/-- How many requests a list of checksums takes. -/
def batches (n : ℕ) : ℕ :=
  (n + 15) / 16

/-- What the reply to a request for checksums is taken for. -/
theorem fetchCrcBatch_eq (unit address n : UInt32) :
    fetchCrcBatch unit address n = exchange (.flashCrc address (n * unit) unit) >>= fun r =>
      pure (r.bind fun cmd => (isReplyFlashCrcCmd cmd n).toOption) := by
  refine congrArg (exchange _ >>= ·) (funext fun r => ?_)
  rcases r with _ | cmd
  · rfl
  · dsimp only [Option.bind_some]
    rcases isReplyFlashCrcCmd cmd n with e | crcs <;> rfl

theorem fetchChipCrcList_ends (address n unit : UInt32) :
    EndsWithin (fetchChipCrcList address n unit) (batches n.toNat) := by
  rw [fetchChipCrcList]
  induction address, n using fetchBatches.induct unit with
  | case1 address =>
    rw [fetchBatches, dif_pos rfl]
    exact trivial
  | case2 address n hn readCount ih =>
    have hpos := Bytes.toNat_pos_of_ne_zero hn
    have hsub : (n - readCount).toNat = n.toNat - readCount.toNat := toNat_sub_readCountOf n
    have hcount : readCount.toNat = min n.toNat 16 := toNat_readCountOf n
    have hbatch : EndsWithin (fetchCrcBatch unit address readCount) 1 := by
      rw [fetchCrcBatch_eq]
      exact ⟨Nat.one_pos, fun _ => trivial⟩
    have hnum : 1 + batches (n - readCount).toNat = batches n.toNat := by
      rw [batches, batches, hsub, hcount]
      omega
    rw [fetchBatches, dif_neg hn, ← hnum]
    refine hbatch.bind ?_
    rintro (_ | crcs)
    · exact trivial
    · refine ih.bind (n := 0) ?_
      rintro (_ | rest) <;> exact trivial

theorem ensureCrcMatch_ends (fileCrcList : List UInt16) (address n unit : UInt32) :
    EndsWithin (ensureCrcMatch fileCrcList address n unit) (batches n.toNat) := by
  refine (fetchChipCrcList_ends address n unit).bind (n := 0) ?_
  rintro (_ | crcs) <;> exact trivial

/-! ### The application -/

/-- Each unit behind the first takes an erase and a write at most. -/
theorem updateBlocks_ends {fuel : ℕ} (hfuel : 1 ≤ fuel) (b : UnitBuffer)
    (fileCrcList chipCrcList : List UInt16) (upgradeAddr : UInt32) (n k : ℕ)
    (hk : k + n ≤ b.count) :
    EndsWithin (updateBlocks (eraseFlash fuel) (writeFlash fuel) b.data fileCrcList chipCrcList
      upgradeAddr b.unit n (UInt32.ofNat k)) (2 * n) := by
  induction n generalizing k with
  | zero => exact trivial
  | succ n ih =>
    have hnext : UInt32.ofNat k + 1 = UInt32.ofNat (k + 1) := (UInt32.ofNat_add k 1).symm
    have hrest := ih (k + 1) (by omega)
    have hend := b.block_end (show k < b.count by omega)
    have hwrite : EndsWithin (writeFlash fuel (b.data.drop (UInt32.ofNat k * b.unit).toNat)
        (upgradeAddr + UInt32.ofNat k * b.unit) b.unit b.unit) 1 := by
      refine writeFlash_ends hfuel _ (by omega) ?_
      rw [b.toNat_offset (by omega), List.length_drop, b.length_data]
      omega
    rw [updateBlocks, hnext]
    split_ifs
    · rw [show 2 * (n + 1) = 1 + (1 + 2 * n) by omega]
      refine (eraseFlash_unit_ends hfuel _ b.unit_cases).bind fun x => ?_
      cases x with
      | false => exact trivial
      | true =>
        refine hwrite.bind fun y => ?_
        cases y with
        | false => exact trivial
        | true => exact hrest
    · exact hrest.mono (by omega)

/-- The checksums twice, the erases and writes of all units, and the reboot. -/
theorem updateApp_ends {fuel : ℕ} (hfuel : 1 ≤ fuel) (a : AppImage) (fileCrcList : List UInt16) :
    EndsWithin (updateApp fuel a.data fileCrcList a.app.flashEoffsetSize a.app.eraseUnitSize
      (UInt32.ofNat a.count)) (2 * batches a.count + 2 * a.count + 1) := by
  have hreboot (v : Outcome) :
      EndsWithin (exchange .reboot >>= fun _ => (pure v : HostM Outcome)) 1 :=
    ⟨Nat.one_pos, fun _ => trivial⟩
  have hcount := a.count_pos
  have hblocks := updateBlocks_ends hfuel a.buffer fileCrcList
  have hfirst (address : UInt32) : EndsWithin (writeFlash fuel
      (a.data.drop (0 * a.app.eraseUnitSize).toNat) address a.app.eraseUnitSize
      a.app.eraseUnitSize) 1 := by
    have hend := a.block_end hcount
    refine writeFlash_ends hfuel _ (by omega) ?_
    rw [UInt32.zero_mul, UInt32.toNat_zero, List.drop_zero, a.length_data, a.toNat_eraseUnitSize]
    omega
  have hfetch (address : UInt32) := fetchChipCrcList_ends address (UInt32.ofNat a.count)
    a.app.eraseUnitSize
  have hensure (address : UInt32) := ensureCrcMatch_ends fileCrcList address
    (UInt32.ofNat a.count) a.app.eraseUnitSize
  rw [a.toNat_count] at hfetch hensure
  have hsum : 2 * batches a.count + 2 * a.count + 1
      = batches a.count + (1 + (2 * (a.count - 1) + (1 + (batches a.count + 1)))) := by omega
  simp only [updateApp]
  rw [a.toNat_count, hsum]
  refine (hfetch _).bind ?_
  rintro (_ | chipCrcList)
  · exact trivial
  dsimp only
  split_ifs with hsame
  · exact (hreboot .sameCrc).mono (by omega)
  refine (eraseFlash_unit_ends hfuel _ a.unit_cases).bind ?_
  rintro (_ | _)
  · exact trivial
  refine (hblocks chipCrcList _ (a.count - 1) 1 (show 1 + (a.count - 1) ≤ a.count by omega)).bind ?_
  rintro (_ | _)
  · exact trivial
  refine (hfirst _).bind ?_
  rintro (_ | _)
  · exact trivial
  refine (hensure _).bind ?_
  rintro (_ | _)
  · exact trivial
  exact hreboot .updateOk

/-! ### The bootloader -/

/-- What the reply to a device init command is taken for. -/
theorem deviceUpdateZoneInit_eq (name : String) (type : UInt8) :
    deviceUpdateZoneInit name type = exchange (.deviceInit name type) >>= fun r =>
      pure (r.bind fun cmd => (isReplyDeviceInitCmd cmd).toOption) := by
  refine congrArg (exchange _ >>= ·) (funext fun r => ?_)
  rcases r with _ | cmd
  · rfl
  · dsimp only [Option.bind_some]
    rcases isReplyDeviceInitCmd cmd with e | info <;> rfl

theorem deviceUpdateZoneInit_ends (name : String) (type : UInt8) :
    EndsWithin (deviceUpdateZoneInit name type) 1 := by
  rw [deviceUpdateZoneInit_eq]
  exact ⟨Nat.one_pos, fun _ => trivial⟩

section Uboot

variable (a : UbootImage) {fuel : ℕ} (hfuel : 256 ≤ fuel)

theorem bootCount_le : a.bootCount ≤ 256 := by
  have hmul := a.bootCount_mul
  have hle := a.bootSize_le
  rcases a.unit_eq with hu | hu <;> rw [hu] at hmul <;> omega

theorem bootBatches_le : batches (UInt32.ofNat a.bootCount).toNat ≤ 16 := by
  have htoNat : (UInt32.ofNat a.bootCount).toNat = a.bootCount := a.bootBuffer.toNat_count
  have hle := bootCount_le a
  rw [htoNat, batches]
  omega

include hfuel

/-- The bootloader's area is erased in sectors. -/
theorem eraseBoot_ends (address : UInt32) {abs64kLen : UInt32}
    (hlen : abs64kLen.toNat = a.bootSize) : EndsWithin (eraseFlash fuel address abs64kLen) 16 := by
  have hle := a.bootSize_le
  obtain ⟨n, hn⟩ := a.bootSize_dvd
  exact (@eraseFlash_ends n fuel (by omega) address abs64kLen (by omega)).mono (by omega)

/-- Pieces of the bootloader. -/
theorem writeBoot_ends {buffer : List UInt8} (address : UInt32) {len : UInt32}
    (hlen : len.toNat ≤ a.bootSize) (hbuffer : len.toNat ≤ buffer.length) :
    EndsWithin (writeFlash fuel buffer address len a.app.eraseUnitSize) 256 := by
  have hmul := a.bootCount_mul
  have hle := bootCount_le a
  have hbound : a.bootCount * a.unit ≤ 256 * a.unit := Nat.mul_le_mul_right _ hle
  exact writeFlash_ends hfuel address (by rw [a.toNat_eraseUnitSize]; omega) hbuffer

theorem finishUboot_ends (crcs : List UInt16) :
    EndsWithin (finishUboot fuel a.bootData crcs a.app.flashEoffsetSize a.app.eraseUnitSize
      (UInt32.ofNat a.bootCount)) (1 + (16 + 1)) := by
  have hunit := a.bootBuffer.block_end a.bootCount_pos
  have hwrite (address : UInt32) : EndsWithin (writeFlash fuel a.bootData address
      a.app.eraseUnitSize a.app.eraseUnitSize) 1 := by
    refine writeFlash_ends (by omega) address (by omega) ?_
    rw [a.length_bootData, ← a.bootCount_mul]
    exact (Nat.le_add_left _ _).trans hunit
  rw [finishUboot]
  refine (hwrite _).bind ?_
  rintro (_ | _)
  · exact trivial
  refine ((ensureCrcMatch_ends crcs _ _ _).mono (bootBatches_le a)).bind ?_
  rintro (_ | _)
  · exact trivial
  refine (deviceUpdateZoneInit_ends _ _).bind (n := 0) ?_
  rintro (_ | info) <;> exact trivial

theorem updateUboot_ends (crcs : List UInt16) {abs64kLen : UInt32}
    (hlen : abs64kLen.toNat = a.bootSize) :
    EndsWithin (updateUboot fuel a.bootData crcs a.app.flashEoffsetSize abs64kLen
      a.app.eraseUnitSize (UInt32.ofNat a.bootCount)) (16 + (256 + 18)) := by
  rw [updateUboot]
  refine (eraseBoot_ends a hfuel _ hlen).bind ?_
  rintro (_ | _)
  · exact trivial
  simp only [Bool.not_true, Bool.false_eq_true, if_false]
  split_ifs
  · have htail := a.unit_add_tail
    refine EndsWithin.bind (writeBoot_ends a hfuel _ (by omega) ?_) fun _ => ?_
    · rw [UInt32.one_mul, List.length_drop, a.length_bootData, a.toNat_eraseUnitSize]
      omega
    · exact finishUboot_ends a hfuel crcs
  · exact (finishUboot_ends a hfuel crcs).mono (by omega)

theorem ubootPhase_ends :
    EndsWithin (ubootPhase fuel a.file.data a.app) (1 + (1 + (16 + (256 + (16 + 290))))) := by
  have hlen := a.toNat_abs64kLen
  simp only [ubootPhase]
  rw [a.bootData_eq, a.bootCount_eq, getBufferCrcList_boot]
  generalize 65536 - a.app.flashEoffsetSize = abs64kLen at hlen ⊢
  refine (deviceUpdateZoneInit_ends _ _).bind ?_
  rintro (_ | info)
  · exact trivial
  refine (eraseFlash_unit_ends (by omega) _ a.unit_cases).bind ?_
  rintro (_ | _)
  · exact trivial
  refine (eraseBoot_ends a hfuel _ hlen).bind ?_
  rintro (_ | _)
  · exact trivial
  simp only [Bool.not_true, Bool.false_eq_true, if_false]
  rw [if_neg a.eraseUnitSize_ne]
  refine EndsWithin.bind (writeBoot_ends a hfuel _ (by omega) (by rw [a.length_bootData]; omega)) ?_
  rintro (_ | _)
  · exact trivial
  refine ((ensureCrcMatch_ends _ _ _ _).mono (bootBatches_le a)).bind ?_
  rintro (_ | _)
  · exact trivial
  exact updateUboot_ends a hfuel _ hlen

end Uboot

/-! ### The whole run -/

/-- A layout that the updater can handle: pages or sectors as erase units, and for a bootloader a
documented one. -/
structure Supported (isUpdateUboot : Bool) (info : DeviceInitInfo) : Prop where
  unit_cases : info.eraseUnitSize = 256 ∨ info.eraseUnitSize = 4096
  layout : isUpdateUboot = true → Layout info

/-- The most exchanges of a run: the introduction, the bootloader, and for the application the
checksums, erases and writes of as many pages as the file has. -/
def mostExchanges (t : UpdateThread) : ℕ :=
  let pages := (t.fileContent.data.length + 255) / 256
  2 + (if t.isUpdateUboot then 580 else 0) + (2 * batches pages + 2 * pages + 1)

theorem count_le_pages (a : AppImage) : a.count ≤ (a.file.data.length + 255) / 256 := by
  obtain ⟨-, hlt⟩ := a.size_le
  have hsize : a.size ≤ a.file.data.length := Nat.sub_le ..
  rcases a.unit_eq with hu | hu <;> rw [hu] at hlt <;> omega

theorem appPhase_ends {fuel : ℕ} (hfuel : 1 ≤ fuel) (a : AppImage) :
    let pages := (a.file.data.length + 255) / 256
    EndsWithin (appPhase fuel a.file.data a.app) (2 * batches pages + 2 * pages + 1) := by
  intro pages
  have hle : a.count ≤ pages := count_le_pages a
  have hbatches : batches a.count ≤ batches pages := Nat.div_le_div_right (by omega)
  rw [appPhase_eq]
  exact (updateApp_ends hfuel a _).mono (by omega)

/-- Behind an accepted layout the run ends. -/
theorem phases_end {t : UpdateThread} {fuel : ℕ} (hfuel : 256 ≤ fuel) {app : DeviceInitInfo}
    (hsupported : Supported t.isUpdateUboot app)
    (hzone : app.zoneAddr.toNat < t.fileContent.data.length) :
    let pages := (t.fileContent.data.length + 255) / 256
    EndsWithin (if t.isUpdateUboot = true then do
        if !(← ubootPhase fuel t.fileContent.data app) then return .stopped
        appPhase fuel t.fileContent.data app
      else appPhase fuel t.fileContent.data app)
      ((if t.isUpdateUboot then 580 else 0) + (2 * batches pages + 2 * pages + 1)) := by
  intro pages
  let a : AppImage := ⟨t.fileContent, app, hzone, hsupported.unit_cases⟩
  have happ : EndsWithin (appPhase fuel t.fileContent.data app)
      (2 * batches pages + 2 * pages + 1) := appPhase_ends (by omega) a
  split_ifs with huboot
  · have hlayout := hsupported.layout huboot
    let b : UbootImage :=
      { a with eoffset_dvd := hlayout.eoffset_dvd, eoffset_lt := hlayout.eoffset_lt }
    refine EndsWithin.bind (ubootPhase_ends b hfuel) ?_
    rintro (_ | _)
    · exact trivial
    · exact happ
  · exact happ.mono (by omega)

/-- **The updater comes to an end.**  On a device with a layout that it can handle, a run ends with
an outcome after at most `mostExchanges` replies, whatever they are and whether they come or not. -/
theorem runInner_ends (t : UpdateThread) {fuel : ℕ} (hfuel : 256 ≤ fuel)
    (replies : ℕ → Option (List UInt8))
    (hsupported : ∀ reply info, replies 0 = some reply → isReplyDeviceInitCmd reply = .ok info →
      Supported t.isUpdateUboot info) :
    ∃ n ≤ mostExchanges t, ∃ v,
      Returns (runInner t fuel) ((List.range n).map replies) v := by
  have hmost : mostExchanges t = 1 + (1 + (mostExchanges t - 2)) := by
    rw [mostExchanges]
    omega
  have hinit : Returns (deviceUpdateZoneInit "app_dir_head" 0) ((List.range 1).map replies)
      ((replies 0).bind fun cmd => (isReplyDeviceInitCmd cmd).toOption) := by
    rw [deviceUpdateZoneInit_eq]
    rfl
  rw [hmost]
  simp only [runInner]
  refine hinit.bind_ends ?_
  rcases hreply : replies 0 with _ | reply
  · exact trivial
  dsimp only [Option.bind_some]
  rcases hinfo : isReplyDeviceInitCmd reply with e | info
  · exact trivial
  have hlayout := hsupported reply info hreply hinfo
  have hcheck : EndsWithin (exchange (.deviceCheck 0x12345678) : HostM _) 1 :=
    ⟨Nat.one_pos, fun _ => trivial⟩
  refine hcheck.bind ?_
  rintro (_ | cmd)
  · exact trivial
  dsimp only
  rcases isReplyDeviceCheckCmd cmd (List.replicate 4 0) (List.replicate 16 0) with e | checked
  · exact trivial
  dsimp only
  by_cases hzone : UInt32.ofNat t.fileContent.data.length ≤ info.zoneAddr
  · rw [if_pos hzone]
    exact trivial
  rw [if_neg hzone]
  refine (phases_end hfuel hlayout ?_).mono ?_
  · exact not_le.mp fun h => hzone ((t.fileContent.size_le_iff _).mpr h)
  · rw [mostExchanges]
    omega

/-- An update of the bootloader, to a device that stops answering in the middle. -/
theorem runInner_ends_oneByteUpdate :
    ∃ n ≤ mostExchanges oneByteUpdate, ∃ v,
      Returns (runInner oneByteUpdate 256)
        ((List.range n).map fun i => initReplies.getD i none) v := by
  refine runInner_ends oneByteUpdate (le_refl 256) _ fun reply info hreply hinfo => ?_
  obtain rfl : initReply = reply := Option.some.inj hreply
  obtain rfl : ⟨0, 0x10000, 0x1000, 0x1000⟩ = info := Except.ok.inj hinfo
  exact ⟨Or.inr rfl, fun _ => ⟨Or.inr rfl, by decide, by decide⟩⟩

end FwBootloader.Uart
