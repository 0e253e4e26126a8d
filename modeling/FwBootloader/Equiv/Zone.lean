import FwBootloader.Android.Equiv.JlBootloader
import FwBootloader.Hid.Equiv.Image
import FwBootloader.Uart.Equiv.History
import FwBootloader.Uart.Equiv.Image
import FwBootloader.ZoneDevice

/-!
## Where an update may erase and write

`update_stays_inside`: whatever is replied, every erase and every write of the application's update
stays inside the image, filled up to whole units, from `flashEoffsetSize` on.  The length of the
zone, `upgradeLen`, is not looked at by any host.
-/

namespace FwBootloader

open Dialog

/-- The command erases and programs nothing outside the `len` bytes from `base` on. -/
def Cmd.StaysIn (base : UInt32) (len : ℕ) (c : Cmd) : Prop :=
  ∀ x, c.Reaches x → Flash.Within base len x

/-- The length of the image behind the zone's address, rounded up to whole units. -/
def roundedSize (file : QByteArray) (app : DeviceInitInfo) : ℕ :=
  (file.data.length - app.zoneAddr.toNat + app.eraseUnitSize.toNat - 1) / app.eraseUnitSize.toNat
    * app.eraseUnitSize.toNat

theorem staysIn_of_not_modifies {base : UInt32} {len : ℕ} {c : Cmd} (hc : ¬ c.Modifies) :
    c.StaysIn base len := by
  intro x hx
  cases c with
  | erase address type => exact absurd trivial hc
  | write address len content => exact absurd trivial hc
  | _ => exact hx.elim

theorem staysIn_write {base off n : UInt32} {len : ℕ} (content : List UInt8)
    (hoff : off.toNat + n.toNat ≤ len) (hlen : len ≤ 2 ^ 32) :
    Cmd.StaysIn base len (.write (base + off) n content) := by
  intro x hx
  have hbase : base + off = base + UInt32.ofNat off.toNat := by rw [UInt32.ofNat_toNat]
  have hx' : Flash.Within (base + off) n.toNat x := hx
  rw [hbase] at hx'
  exact hx'.widen hoff hlen

namespace AppImage

variable (a : AppImage)

/-- The commands that stay inside the image. -/
def Stays : Cmd → Prop :=
  Cmd.StaysIn a.app.flashEoffsetSize (a.count * a.unit)

theorem fits : a.count * a.unit ≤ 2 ^ 32 := by
  have h := a.count_mul_unit_lt
  omega

theorem toNat_offset {i : ℕ} (hi : i < a.count) :
    (UInt32.ofNat i * a.app.eraseUnitSize).toNat = i * a.unit :=
  a.buffer.toNat_offset hi.le

theorem staysIn_erase {i : ℕ} (hi : i < a.count) :
    Cmd.StaysIn a.app.flashEoffsetSize (a.count * a.unit)
      (.erase (a.app.flashEoffsetSize + UInt32.ofNat i * a.app.eraseUnitSize)
        (eraseType a.app.eraseUnitSize)) := by
  have htype : (User.eraseTypeLen (eraseType a.app.eraseUnitSize)).toNat = a.unit := by
    rw [unit]
    rcases a.unit_cases with h | h <;> rw [h] <;> rfl
  intro x hx
  have hx' : Flash.Within _ _ x := hx
  rw [htype, a.offset_eq] at hx'
  exact hx'.widen (a.block_end hi) a.fits

theorem staysIn_write {i : ℕ} (hi : i < a.count) {off n : UInt32} (content : List UInt8)
    (hoff : off.toNat + n.toNat ≤ a.unit) :
    Cmd.StaysIn a.app.flashEoffsetSize (a.count * a.unit)
      (.write (a.app.flashEoffsetSize + UInt32.ofNat i * a.app.eraseUnitSize + off) n
        content) := by
  have hend := a.block_end hi
  have hmul := a.toNat_offset hi
  have hlt := a.count_mul_unit_lt
  rw [UInt32.add_assoc]
  refine FwBootloader.staysIn_write content ?_ a.fits
  rw [UInt32.toNat_add, hmul, Nat.mod_eq_of_lt (by omega)]
  omega

end AppImage

/-! ### The serial updater -/

namespace Uart

variable (a : AppImage)

theorem eraseFlash_stays (fuel : ℕ) {i : ℕ} (hi : i < a.count) :
    Stops a.Stays (eraseFlash fuel
      (a.app.flashEoffsetSize + UInt32.ofNat i * a.app.eraseUnitSize) a.app.eraseUnitSize) :=
  (stopSteps a.Stays).eraseUnits_unit_ok (Stops.abort _) fuel a.unit_cases
    (doEraseFlash_stops (a.staysIn_erase hi))

theorem writeFlash_stays (fuel : ℕ) (buffer : List UInt8) {i : ℕ} (hi : i < a.count) :
    Stops a.Stays (writeFlash fuel buffer
      (a.app.flashEoffsetSize + UInt32.ofNat i * a.app.eraseUnitSize) a.app.eraseUnitSize
      a.app.eraseUnitSize) :=
  writeFlash_stops fuel fun _ _ content hoff => a.staysIn_write hi content hoff

theorem updateApp_stays (fuel : ℕ) (fileCrcList : List UInt16) {h : List Exchange} :
    safe (fun _ c => a.Stays c) (fun _ _ => True)
      (updateApp fuel a.data fileCrcList a.app.flashEoffsetSize a.app.eraseUnitSize
        (UInt32.ofNat a.count)) (fun _ _ => True) h := by
  have hcrc (address len : UInt32) (_ : (len / a.app.eraseUnitSize).toNat ≤ 16) :
      a.Stays (.flashCrc address len a.app.eraseUnitSize) := staysIn_of_not_modifies not_false
  have hreboot : a.Stays .reboot := staysIn_of_not_modifies not_false
  have hfit : (UInt32.ofNat a.count).toNat * a.app.eraseUnitSize.toNat < 2 ^ 32 := by
    rw [a.toNat_count]
    exact a.buffer.count_mul_lt
  have herase := eraseFlash_stays a fuel a.count_pos
  have hblocks (chipCrcList : List UInt16) := (stopSteps a.Stays).updateBlocks_ok a.data
    fileCrcList chipCrcList a.app.flashEoffsetSize a.app.eraseUnitSize (a.count - 1) 1
    fun i _ hi => ⟨eraseFlash_stays a fuel (by omega), writeFlash_stays a fuel _ (by omega)⟩
  have hfirst := writeFlash_stays a fuel (a.data.drop (0 * a.app.eraseUnitSize).toNat) a.count_pos
  rw [Bytes.add_ofNat_zero_mul] at herase
  have hsame : UInt32.ofNat 0 * a.app.eraseUnitSize = 0 * a.app.eraseUnitSize := rfl
  rw [hsame] at hfirst
  -- the update, step by step; every step may also fail
  simp only [updateApp, UInt32.zero_add, a.toNat_count]
  refine (fetchChipCrcList_steady hcrc a.eraseUnitSize_ne hfit).bind (fun _ _ _ hc => hc) ?_
  rintro t₁ (_ | chipCrcList) - -
  · exact trivial
  dsimp only
  split_ifs
  · exact ⟨hreboot, fun _ => trivial⟩
  refine herase.bind (fun _ _ _ hc => hc) ?_
  rintro t₂ (_ | _) - -
  · exact trivial
  refine Steady.bind (hblocks chipCrcList) (fun _ _ _ hc => hc) ?_
  rintro t₃ (_ | _) - -
  · exact trivial
  refine hfirst.bind (fun _ _ _ hc => hc) ?_
  rintro t₄ (_ | _) - -
  · exact trivial
  refine (ensureCrcMatch_steady hcrc a.eraseUnitSize_ne hfit).bind (fun _ _ _ hc => hc) ?_
  rintro t₅ (_ | _) - -
  · exact trivial
  exact ⟨hreboot, fun _ => trivial⟩

end Uart

/-! ### The USB hosts -/

namespace Hid

variable (p : Port)

/-- The procedures that modify the flash stay inside the image. -/
theorem updating_stays (a : AppImage) (fuel : ℕ) (fileCrcList : List UInt16) :
    Updating p (fun c => c.Modifies ∧ a.Stays c) fuel a.data fileCrcList a.app.flashEoffsetSize
      a.app.eraseUnitSize (UInt32.ofNat a.count) := by
  have herase {i : ℕ} (hi : i < a.count) :
      Sends (fun c => c.Modifies ∧ a.Stays c) (p.eraseFlash fuel
        (a.app.flashEoffsetSize + UInt32.ofNat i * a.app.eraseUnitSize) a.app.eraseUnitSize) := by
    refine (sendSteps _).eraseUnits_unit_ok (sends_abort _) fuel a.unit_cases ?_
    rw [p.doEraseFlash_eq]
    exact sends_attempt ⟨trivial, a.staysIn_erase hi⟩
  have hwrite {i : ℕ} (hi : i < a.count) (buffer : List UInt8) :
      Sends (fun c => c.Modifies ∧ a.Stays c) (p.writeFlash buffer
        (a.app.flashEoffsetSize + UInt32.ofNat i * a.app.eraseUnitSize) a.app.eraseUnitSize
        a.app.eraseUnitSize) :=
    writeFlash_sends p _ fun _ _ content hoff => ⟨trivial, a.staysIn_write hi content hoff⟩
  refine ⟨fun c hc => hc.1, ?_, fun chipCrcList => ?_, fun piece hpiece => ?_⟩
  · have h := herase a.count_pos
    rwa [Bytes.add_ofNat_zero_mul] at h
  · rw [a.toNat_count]
    exact (sendSteps _).updateBlocks_ok a.data fileCrcList chipCrcList a.app.flashEoffsetSize
      a.app.eraseUnitSize (a.count - 1) 1
      fun i _ hi => ⟨herase (by omega), hwrite (by omega) _⟩
  · have hle := p.firstUnit_le a.app.eraseUnitSize a.unit_ge piece hpiece
    refine writeFlash_sends p _ fun off n content hoff => ⟨trivial, ?_⟩
    have hadd : (piece.1 + off).toNat = piece.1.toNat + off.toNat := by
      have hlt := a.app.eraseUnitSize.toNat_lt
      rw [UInt32.toNat_add, Nat.mod_eq_of_lt (by omega)]
    have hunit := a.toNat_eraseUnitSize
    have h := @AppImage.staysIn_write a 0 a.count_pos (piece.1 + off) n content (by omega)
    rwa [Bytes.add_ofNat_zero_mul, ← UInt32.add_assoc] at h

/-- Whatever is replied, the update stays inside the image. -/
theorem appPhase_stays {α : Type} (failed updateOk : α) (fuel : ℕ) (file : QByteArray)
    (app : DeviceInitInfo) (hunit : app.eraseUnitSize = 256 ∨ app.eraseUnitSize = 4096)
    {h : List Exchange} :
    HidSafe (fun _ c => c.StaysIn app.flashEoffsetSize (roundedSize file app)) (fun _ _ => True)
      (p.appPhase failed updateOk fuel file.data app) (fun _ _ => True) h := by
  have hcrc (address len : UInt32) :
      Cmd.StaysIn app.flashEoffsetSize (roundedSize file app)
        (.flashCrc address len app.eraseUnitSize) :=
    staysIn_of_not_modifies not_false
  have hreboot : Cmd.StaysIn app.flashEoffsetSize (roundedSize file app) .reboot :=
    staysIn_of_not_modifies not_false
  refine appPhase_safe (fun _ _ => trivial) fun buf crcs hunit0 hbuf hcrcs => ?_
  rcases Nat.lt_or_ge app.zoneAddr.toNat file.data.length with hzone | hle
  · let a : AppImage := { file := file, app := app, zone_lt := hzone, unit_cases := hunit }
    have hcount : Port.blockCount file.data app = UInt32.ofNat a.count := blockCount_image a
    obtain rfl : buf = a.data := fileBuf_image p a hbuf
    rw [hcount]
    exact updateApp_safe (updating_stays p a fuel crcs) hunit0 (fun _ _ _ hc => hc.2)
      (fun _ _ _ _ => hcrc _ _) (fun _ _ _ _ _ => hreboot) (fun _ _ _ _ => hreboot)
      (fun _ _ _ => trivial) (fun _ _ => trivial) fun _ _ _ => trivial
  · -- nothing is erased or written
    have hcount := blockCount_eq_zero p file.size_lt hle hunit0 hbuf hcrcs
    rw [hcount] at hcrcs ⊢
    obtain rfl : [] = crcs := Option.some.inj hcrcs
    have hzero : p.updateApp failed updateOk fuel buf [] app.flashEoffsetSize app.eraseUnitSize 0
        = (send .reboot >>= fun _ => pure updateOk) := by
      unfold Port.updateApp Port.fetchChipCrcList
      rw [fetchBatches, dif_pos rfl]
      rfl
    rw [hzero]
    exact hidSafe_send hreboot fun _ => hidSafe_pure trivial

end Hid

/-! ### All hosts -/

/-- An address that an update may erase or program: one of the image, which the zone holds if it is
long enough. -/
def InsideImage (file : QByteArray) (app : DeviceInitInfo) (x : UInt32) : Prop :=
  Flash.Within app.flashEoffsetSize (roundedSize file app) x ∧
    (roundedSize file app ≤ app.upgradeLen.toNat →
      app.flashEoffsetSize.toNat + app.upgradeLen.toNat ≤ 2 ^ 32 →
      x.toNat < app.flashEoffsetSize.toNat + app.upgradeLen.toNat)

theorem insideImage_of_staysIn {file : QByteArray} {app : DeviceInitInfo} {c : Cmd}
    (hc : c.StaysIn app.flashEoffsetSize (roundedSize file app)) {x : UInt32} (hx : c.Reaches x) :
    InsideImage file app x := by
  refine ⟨hc x hx, fun hfit hend => ?_⟩
  have hwithin := hc x hx
  have hzero : app.flashEoffsetSize = app.flashEoffsetSize + UInt32.ofNat 0 :=
    (UInt32.add_zero _).symm
  rw [hzero] at hwithin
  have hbounds := hwithin.bounds (l := app.upgradeLen.toNat) (by omega) hend
  exact hbounds.2

/-- In application mode, and behind the bootloader phase in bootloader mode. -/
def Uart.ReachesAppPhase (t : Uart.UpdateThread) (fuel : ℕ) (app : DeviceInitInfo)
    (rs : List (Option (List UInt8))) : Prop :=
  (t.isUpdateUboot = false ∧ rs = []) ∨
    (t.isUpdateUboot = true ∧ Returns (Uart.ubootPhase fuel t.fileContent.data app) rs true)

theorem Uart.appPhase_stays (a : AppImage) (fuel : ℕ) {rs : List (Option (List UInt8))} {c : Cmd}
    (hc : pending (Uart.appPhase fuel a.file.data a.app) rs = some c) : a.Stays c := by
  rw [Uart.appPhase_eq] at hc
  exact safe_sound (h := []) (Uart.updateApp_stays a fuel _) hc

theorem Uart.runInner_stays {t : Uart.UpdateThread} {fuel : ℕ} {app : DeviceInitInfo}
    (hunit : app.eraseUnitSize = 256 ∨ app.eraseUnitSize = 4096) {reply : List UInt8}
    {reply' : Option (List UInt8)} {rs₁ rs : List (Option (List UInt8))} {c : Cmd}
    (hreply : Uart.isReplyDeviceInitCmd reply = .ok app)
    (hphase : Uart.ReachesAppPhase t fuel app rs₁)
    (hc : pending (Uart.runInner t fuel) (some reply :: reply' :: (rs₁ ++ rs)) = some c) :
    c.StaysIn app.flashEoffsetSize (roundedSize t.fileContent app) := by
  unfold Uart.runInner Uart.deviceUpdateZoneInit at hc
  simp only [exchange, ask_bind, done_bind, pending, hreply, pure_def] at hc
  rcases reply' with _ | cmd
  · cases hc
  dsimp only at hc
  rcases hcheck : Uart.isReplyDeviceCheckCmd cmd (List.replicate 4 0) (List.replicate 16 0) with
    e | checked
  · rw [hcheck] at hc
    cases hc
  rw [hcheck] at hc
  dsimp only at hc
  split_ifs at hc with hsize hmode
  · cases hc
  -- the application phase, after the bootloader phase or without it
  all_goals
    rw [t.fileContent.size_le_iff] at hsize
    let a : AppImage :=
      { file := t.fileContent, app := app, zone_lt := not_le.mp hsize, unit_cases := hunit }
  · rcases hphase with ⟨hno, -⟩ | ⟨-, hboot⟩
    · rw [hno] at hmode
      cases hmode
    · rw [hboot.pending_bind] at hc
      exact Uart.appPhase_stays a fuel hc
  · rcases hphase with ⟨-, rfl⟩ | ⟨hyes, -⟩
    · exact Uart.appPhase_stays a fuel hc
    · exact absurd hyes hmode

theorem Hid.main_stays {p : Hid.Port} {α : Type} {failed updateOk : α} {fuel : ℕ}
    {file : QByteArray} {app info : DeviceInitInfo}
    (hunit : app.eraseUnitSize = 256 ∨ app.eraseUnitSize = 4096) {s : Hid.State}
    {reads : List (List UInt8)} {rs : List (List (List UInt8))} {c : Cmd}
    (hinfo : p.initInfo info reads = app)
    (hc : pending ((p.main failed updateOk info file fuel).run s) (reads :: rs) = some c) :
    c.StaysIn app.flashEoffsetSize (roundedSize file app) := by
  rw [Hid.main_run] at hc
  subst hinfo
  exact safe_sound (Hid.appPhase_stays p failed updateOk fuel file _ hunit (h := []) _) hc

/-- **Updates stay inside the image.**  Whatever is replied behind a device init reply with pages or
sectors, every address that a host erases or programs in the application's update is one of the
image, filled up to whole units. -/
theorem update_stays_inside (file : QByteArray) {app : DeviceInitInfo}
    (hunit : app.eraseUnitSize = 256 ∨ app.eraseUnitSize = 4096) (fuel : ℕ) {c : Cmd} {x : UInt32}
    (hx : c.Reaches x) :
    (∀ isUpdateUboot encKey reply reply' rs₁ rs,
      Uart.isReplyDeviceInitCmd reply = .ok app →
      Uart.ReachesAppPhase ⟨isUpdateUboot, file, encKey⟩ fuel app rs₁ →
      pending (Uart.runInner ⟨isUpdateUboot, file, encKey⟩ fuel)
        (some reply :: reply' :: (rs₁ ++ rs)) = some c →
      InsideImage file app x) ∧
    (∀ info s reads rs, Hid.windows.initInfo info reads = app →
      pending ((Hid.main info file fuel).run s) (reads :: rs) = some c → InsideImage file app x) ∧
    ∀ s reads rs, Android.port.initInfo ⟨0, 0, 0, 0⟩ reads = app →
      pending ((Android.startUpgrading file fuel).run s) (reads :: rs) = some c →
      InsideImage file app x := by
  refine ⟨fun isUpdateUboot encKey reply reply' rs₁ rs hreply hphase hc => ?_,
    fun info s reads rs hinfo hc => ?_, fun s reads rs hinfo hc => ?_⟩
  · exact insideImage_of_staysIn (Uart.runInner_stays hunit hreply hphase hc) hx
  · rw [← Hid.windows_main] at hc
    exact insideImage_of_staysIn (Hid.main_stays hunit hinfo hc) hx
  · rw [Android.startUpgrading_eq] at hc
    exact insideImage_of_staysIn (Hid.main_stays hunit hinfo hc) hx

/-! ### A zone of one page -/

/-- A zone of one page at the start of the flash. -/
def onePage : DeviceInitInfo :=
  ⟨0, 0x100, 0, 0x100⟩

/-- The first two replies of its device. -/
def onePageInit : List UInt8 :=
  [0xC0, 0, 0, 0, 0, 0, 0, 1, 0, 0, 0, 0, 0, 0, 0, 1, 0, 0]

def onePageCheck : List UInt8 :=
  0xC1 :: 0 :: List.replicate 24 0

/-- A file of zeros that needs two pages. -/
def twoPages : QByteArray :=
  ⟨List.replicate 257 0, by rw [List.length_replicate]; decide⟩

/-- Both pages are announced to be different. -/
def twoPagesReplies : List (Option (List UInt8)) :=
  [some [0xC4, 0, 1, 0, 1, 0], some [0xC2, 0]]

/-- The second page is erased behind the zone. -/
theorem twoPages_overrun :
    pending (Uart.runInner ⟨false, twoPages, 0⟩ 1)
        (some onePageInit :: some onePageCheck :: ([] ++ twoPagesReplies)) = some (.erase 0x100 1) ∧
      (Cmd.erase 0x100 1).Reaches 0x100 ∧
      ¬ (0x100 : UInt32).toNat < onePage.flashEoffsetSize.toNat + onePage.upgradeLen.toNat := by
  have hwithin : Flash.Within 0x100 (User.eraseTypeLen 1).toNat 0x100 := by decide +kernel
  exact ⟨by decide +kernel, hwithin, by decide⟩

/-- The same erase is one of the image. -/
theorem update_stays_inside_twoPages : InsideImage twoPages onePage 0x100 := by
  have hwithin : Flash.Within 0x100 (User.eraseTypeLen 1).toNat 0x100 := by decide +kernel
  exact (@update_stays_inside twoPages onePage (Or.inl rfl) 1 (.erase 0x100 1) 0x100
    hwithin).1 false 0 onePageInit (some onePageCheck) [] twoPagesReplies
    (by decide +kernel) (Or.inl ⟨rfl, rfl⟩) (by decide +kernel)

end FwBootloader
