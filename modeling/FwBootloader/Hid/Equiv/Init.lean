import FwBootloader.Android.Equiv.JlBootloader
import FwBootloader.Hid.Equiv.Image

/-!
## What the USB hosts do with the init reply

`proceeds_iff`: exactly when a host goes on from the init exchange without a fault and without a
command that it should not send.  Neither host checks that an init reply has come, nor the values in
it; the serial updater checks both.
-/

namespace FwBootloader.Hid

open Bytes Framing Dialog

section Prepared

variable {fileContent : List UInt8} {app : DeviceInitInfo} (hlen : fileContent.length < 2 ^ 31)
  (hzone : app.zoneAddr.toNat ≤ fileContent.length) (hunit : app.eraseUnitSize ≠ 0)

/-- The padding that rounds a size up to whole units. -/
def padding (size unit : ℕ) : ℕ :=
  (size + unit - 1) / unit * unit - size

include hlen hzone hunit

/-- `append` takes the count as an `int`. -/
theorem windows_prepared_iff :
    Prepared windows fileContent app ↔
      2 ^ 32 < fileContent.length - app.zoneAddr.toNat + app.eraseUnitSize.toNat ∨
        padding (fileContent.length - app.zoneAddr.toNat) app.eraseUnitSize.toNat < 2 ^ 31 := by
  have hsize := toNat_fileSize hlen hzone
  have hbuf : windows.fileBuf fileContent app
      = some ((if Port.blockCount fileContent app * app.eraseUnitSize
            ≠ Port.fileSize fileContent app then
          qAppend fileContent (Port.blockCount fileContent app * app.eraseUnitSize
            - Port.fileSize fileContent app) 0xFF
        else fileContent).drop app.zoneAddr.toNat) := by
    unfold Port.fileBuf
    dsimp only
    split_ifs
    · rfl
    · rfl
  rcases Nat.lt_or_ge (2 ^ 32) (fileContent.length - app.zoneAddr.toNat + app.eraseUnitSize.toNat)
    with hwrap | hfit
  · -- no unit is left
    refine iff_of_true ?_ (Or.inl hwrap)
    rcases blockCount_cases fileContent hunit with ⟨-, hcount⟩ | ⟨hfit, -⟩
    · refine ⟨_, [], hbuf, ?_⟩
      rw [hcount]
      rfl
    · rw [hsize] at hfit
      omega
  obtain ⟨haligned, hle, hlt, hmul⟩ := toNat_aligned hlen hzone hunit hfit
  unfold padding
  set size := fileContent.length - app.zoneAddr.toNat with hsizedef
  set aligned := (size + app.eraseUnitSize.toNat - 1) / app.eraseUnitSize.toNat
    * app.eraseUnitSize.toNat with haligneddef
  have hdiff : (Port.blockCount fileContent app * app.eraseUnitSize
      - Port.fileSize fileContent app).toNat = aligned - size := by
    rw [UInt32.toNat_sub_of_le _ _ (by rw [UInt32.le_iff_toNat_le, haligned, hsize]; exact hle),
      haligned, hsize]
  have hne : Port.blockCount fileContent app * app.eraseUnitSize ≠ Port.fileSize fileContent app ↔
      aligned ≠ size := by
    rw [← haligned, ← hsize]
    exact not_congr UInt32.toNat_inj.symm
  have hsmall : Port.blockCount fileContent app * app.eraseUnitSize
      - Port.fileSize fileContent app < 0x80000000 ↔ aligned - size < 2 ^ 31 := by
    rw [UInt32.lt_iff_toNat_lt, hdiff]
    exact Iff.rfl
  rw [or_iff_right (by omega)]
  constructor
  · rintro ⟨buf, crcs, hsome, hcrcs⟩
    by_contra hbig
    rw [hbuf, if_pos (hne.mpr (by omega)), qAppend, if_neg (mt hsmall.mp hbig)] at hsome
    obtain rfl := Option.some.inj hsome
    have hpos : 0 < (Port.blockCount fileContent app).toNat := by
      by_contra h0
      rw [Nat.eq_zero_of_not_pos h0, Nat.zero_mul] at hmul
      omega
    -- the last block
    have hlast := block_le_of_crcs hcrcs (Nat.sub_lt hpos Nat.one_pos)
    have hcount := (Port.blockCount fileContent app).toNat_lt
    have hsub : ((Port.blockCount fileContent app).toNat - 1) * app.eraseUnitSize.toNat
        = aligned - app.eraseUnitSize.toNat := by
      rw [Nat.sub_mul, Nat.one_mul, hmul]
    have hunitle : app.eraseUnitSize.toNat ≤ aligned := by
      rw [← hmul]
      exact Nat.le_mul_of_pos_left _ hpos
    rw [UInt32.toNat_mul, UInt32.toNat_ofNat_of_lt' (show _ < 2 ^ 32 by omega), hsub,
      Nat.mod_eq_of_lt (by omega), List.length_drop] at hlast
    omega
  · intro hpad
    obtain ⟨crcs, hcrcs⟩ := @crcs_of_aligned_le fileContent app hlen hzone hunit
      ((if Port.blockCount fileContent app * app.eraseUnitSize
            ≠ Port.fileSize fileContent app then
          qAppend fileContent (Port.blockCount fileContent app * app.eraseUnitSize
            - Port.fileSize fileContent app) 0xFF
        else fileContent).drop app.zoneAddr.toNat) hfit (by
      rw [haligned, List.length_drop]
      split_ifs with h
      · rw [qAppend, if_pos (hsmall.mpr hpad), List.length_append, List.length_replicate, hdiff]
        omega
      · have heq : aligned = size := by
          by_contra hno
          exact h (hne.mpr hno)
        omega)
    exact ⟨_, crcs, hbuf, hcrcs⟩

/-- `fill_n` does not extend the vector. -/
theorem android_prepared_iff :
    Prepared Android.port fileContent app ↔
      app.eraseUnitSize.toNat ∣ fileContent.length - app.zoneAddr.toNat := by
  have hsize := toNat_fileSize hlen hzone
  have hpos : 0 < app.eraseUnitSize.toNat := Bytes.toNat_pos_of_ne_zero hunit
  have hbuf : Android.port.fileBuf fileContent app
      = if Port.blockCount fileContent app * app.eraseUnitSize ≠ Port.fileSize fileContent app then
          none
        else some (fileContent.drop app.zoneAddr.toNat) := by
    unfold Port.fileBuf
    dsimp only
    split_ifs
    · rfl
    · rfl
  constructor
  · rintro ⟨buf, crcs, hsome, -⟩
    rw [hbuf] at hsome
    split_ifs at hsome with heq
    have hnat := congrArg UInt32.toNat (not_not.mp heq)
    rw [hsize] at hnat
    -- the sum that rounds up may wrap; then no block is left
    rcases blockCount_cases fileContent hunit with ⟨-, hcount⟩ | ⟨hfit, -⟩
    · rw [hcount, UInt32.zero_mul] at hnat
      rw [← hnat]
      exact dvd_zero _
    · rw [hsize] at hfit
      obtain ⟨haligned, -⟩ := toNat_aligned hlen hzone hunit hfit
      rw [← hnat, haligned]
      exact Nat.dvd_mul_left _ _
  · rintro ⟨q, hq⟩
    -- a whole number of units does not need rounding up, so nothing wraps
    have hfit : fileContent.length - app.zoneAddr.toNat + app.eraseUnitSize.toNat ≤ 2 ^ 32 := by
      have hlt := app.eraseUnitSize.toNat_lt
      rcases Nat.eq_zero_or_pos q with rfl | hqpos
      · rw [hq, Nat.mul_zero]
        omega
      · have hle := Nat.le_mul_of_pos_right app.eraseUnitSize.toNat hqpos
        omega
    obtain ⟨haligned, -⟩ := toNat_aligned hlen hzone hunit hfit
    have hdiv : (fileContent.length - app.zoneAddr.toNat + app.eraseUnitSize.toNat - 1)
        / app.eraseUnitSize.toNat = q := by
      rw [hq, Nat.mul_comm, Nat.add_sub_assoc hpos, Nat.add_comm, Nat.add_mul_div_right _ _ hpos,
        Nat.div_eq_of_lt (Nat.sub_lt hpos Nat.one_pos), Nat.zero_add]
    rw [hdiv, Nat.mul_comm, ← hq] at haligned
    have heq : Port.blockCount fileContent app * app.eraseUnitSize
        = Port.fileSize fileContent app := by
      apply UInt32.toNat_inj.mp
      rw [haligned, hsize]
    obtain ⟨crcs, hcrcs⟩ := @crcs_of_aligned_le fileContent app hlen hzone hunit
      (fileContent.drop app.zoneAddr.toNat) hfit (by rw [haligned, List.length_drop])
    refine ⟨_, crcs, ?_, hcrcs⟩
    rw [hbuf, if_neg (not_not.mpr heq)]

end Prepared

/-! ### What follows the init exchange -/

variable (p : Port) {α β : Type}

/-- A report that no request is answered with. -/
def blankReport : List UInt8 :=
  List.replicate 64 0

theorem received_blankReport : p.received [blankReport] = some blankReport := by
  have hlen : blankReport.length = 64 := List.length_replicate
  unfold Port.received Port.firstReport
  rw [p.stored_report _ hlen, if_pos (Nat.le_of_eq hlen.symm), List.take_of_length_le
    (Nat.le_of_eq hlen)]

variable {p}

theorem returns_seq {q : HidM α} {f : α → HidM β} {a : α} {s s' : State} {r : β × State}
    {rs rs' : List (List (List UInt8))} (hq : Returns (q.run s) rs (a, s'))
    (hf : Returns ((f a).run s') rs' r) : Returns ((q >>= f).run s) (rs ++ rs') r :=
  Returns.bind hq rs' hf

theorem pending_seq {q : HidM α} {f : α → HidM β} {a : α} {s s' : State}
    {rs : List (List (List UInt8))} (hq : Returns (q.run s) rs (a, s'))
    (rs' : List (List (List UInt8))) :
    pending ((q >>= f).run s) (rs ++ rs') = pending ((f a).run s') rs' :=
  hq.pending_bind _ rs'

/-- The first request for checksums, and what a report that is no list of checksums leads to. -/
theorem fetchChipCrcList_blankReport {address n unit : UInt32} (hn : n ≠ 0) (s : State) :
    pending ((p.fetchChipCrcList address n unit).run s) []
        = some (.flashCrc address (readCountOf n * unit) unit) ∧
      ∃ s', Returns ((p.fetchChipCrcList address n unit).run s) [[blankReport]] (none, s') := by
  have hrec := received_blankReport p
  unfold Port.fetchChipCrcList
  rw [fetchBatches, dif_neg hn]
  refine ⟨rfl, p.readDeice [blankReport] s, ?_⟩
  have h16 := toNat_readCountOf_le n
  have hfirst : Returns ((p.fetchCrcBatch unit address (readCountOf n)).run s) [[blankReport]]
      (none, p.readDeice [blankReport] s) := by
    unfold Port.fetchCrcBatch
    rw [Port.returns_iff]
    rcases p.reply_of_received hrec s with ⟨hlt, -⟩ | ⟨-, bin, hbin, hlen, htake⟩
    · rw [show Format.declared blankReport = 0 from rfl] at hlt
      rcases p.rxSize_cases with h | h <;> omega
    refine ⟨bin, hbin, ?_⟩
    have hno : ¬ Matches jlSuCmdFlashCrc blankReport := by
      rintro ⟨hopcode, -⟩
      revert hopcode
      decide +kernel
    rcases isReplyFlashCrcCmd_cases h16 hlen (by omega) htake with
      ⟨-, hcrc⟩ | ⟨hm, -⟩ | ⟨hm, -⟩
    · rw [hcrc]
      exact rfl
    · exact absurd hm hno
    · exact absurd hm hno
  exact returns_seq hfirst (show Returns _ [] _ from rfl)

/-- Whatever the chip holds, there are replies that lead to the reboot command. -/
theorem updateApp_reaches_reboot {failed updateOk : α} {fuel : ℕ} {buf : List UInt8}
    {crcs : List UInt16} {flashEoffsetSize unit n : UInt32}
    (hcrcs : getBufferCrcList buf n unit = some crcs) (s : State) :
    let q := (p.updateApp failed updateOk fuel buf crcs flashEoffsetSize unit n).run s
    pending q [] ≠ none ∧ ∃ rs, pending q rs = some .reboot := by
  intro q
  by_cases hn : n = 0
  · subst hn
    obtain rfl := Option.some.inj hcrcs
    have hreboot : pending q [] = some .reboot := by
      unfold q Port.updateApp Port.fetchChipCrcList
      rw [fetchBatches, dif_pos rfl]
      rfl
    exact ⟨by rw [hreboot]; rintro ⟨⟩, [], hreboot⟩
  · obtain ⟨hfirst, s', hfetch⟩ := @fetchChipCrcList_blankReport p (0 + flashEoffsetSize) n
      unit hn s
    refine ⟨?_, [[blankReport]], ?_⟩
    · have hpending : pending q [] = some _ := pending_bind_left hfirst _
      rw [hpending]
      rintro ⟨⟩
    · unfold q Port.updateApp
      exact (pending_seq hfetch []).trans rfl

/-- The host goes on from the init exchange if the image is defined. -/
theorem main_goes_on_iff (failed updateOk : α) (info : DeviceInitInfo) (file : QByteArray)
    (fuel : ℕ) (reads : List (List UInt8)) (s : State) :
    pending ((p.main failed updateOk info file fuel).run s) [reads] ≠ none ↔
      (p.initInfo info reads).eraseUnitSize ≠ 0 ∧
        Prepared p file.data (p.initInfo info reads) := by
  have hpending : pending ((p.main failed updateOk info file fuel).run s) [reads]
      = pending ((p.appPhase failed updateOk fuel file.data (p.initInfo info reads)).run
          (p.readDeice reads s)) [] := by
    rw [main_run]
    rfl
  rw [hpending, appPhase_eq]
  constructor
  · intro hdefined
    by_cases hunit : (p.initInfo info reads).eraseUnitSize = 0
    · rw [if_pos hunit] at hdefined
      exact absurd rfl hdefined
    rw [if_neg hunit] at hdefined
    rcases hbuf : p.fileBuf file.data (p.initInfo info reads) with _ | buf
    · rw [hbuf] at hdefined
      exact absurd rfl hdefined
    rw [hbuf, Option.elim_some] at hdefined
    rcases hcrcs : getBufferCrcList buf (Port.blockCount file.data (p.initInfo info reads))
      (p.initInfo info reads).eraseUnitSize with _ | crcs
    · rw [hcrcs] at hdefined
      exact absurd rfl hdefined
    exact ⟨hunit, buf, crcs, hbuf, hcrcs⟩
  · rintro ⟨hunit, buf, crcs, hbuf, hcrcs⟩
    rw [if_neg hunit, hbuf, Option.elim_some, hcrcs, Option.elim_some]
    exact (updateApp_reaches_reboot hcrcs _).1

/-! ### What the init reply has to be -/

/-- After the init exchange, in which `reads` are read, a host goes on as it should: its next
command comes without a division by zero and without a checksum outside the image, the size of the
file is no wrapped difference, and only after an init reply with status 0 does a command follow that
modifies the flash or reboots the device. -/
structure Proceeds (p : Port) (info : DeviceInitInfo) (fileContent : List UInt8) (q : HidM α)
    (reads : List (List UInt8)) (s : State) : Prop where
  defined : pending (q.run s) [reads] ≠ none
  no_wrap : ((Port.fileSize fileContent (p.initInfo info reads)).toNat : ℤ)
    = fileContent.length - (p.initInfo info reads).zoneAddr.toNat
  received : ∀ rs c, pending (q.run s) (reads :: rs) = some c → c.Modifies ∨ c = .reboot →
    p.InitReceived reads

/-- An init reply with status 0 is received, its unit is not zero, the zone's address is inside the
file, and what is behind it `Fits` into the unit. -/
def Usable (p : Port) (Fits : ℕ → ℕ → Prop) (fileContent : List UInt8)
    (reads : List (List UInt8)) : Prop :=
  ∃ report, p.received reads = some report ∧ Matches jlSuCmdDeviceInit report ∧
    (Port.initFields report).eraseUnitSize ≠ 0 ∧
    (Port.initFields report).zoneAddr.toNat ≤ fileContent.length ∧
    Fits (fileContent.length - (Port.initFields report).zoneAddr.toNat)
      (Port.initFields report).eraseUnitSize.toNat

theorem main_proceeds_iff {failed updateOk : α} {Fits : ℕ → ℕ → Prop} (info : DeviceInitInfo)
    (file : QByteArray) (fuel : ℕ) (reads : List (List UInt8)) (s : State)
    (hfits : ∀ app : DeviceInitInfo, app.zoneAddr.toNat ≤ file.data.length →
      app.eraseUnitSize ≠ 0 → (Prepared p file.data app ↔
        Fits (file.data.length - app.zoneAddr.toNat) app.eraseUnitSize.toNat)) :
    Proceeds p info file.data (p.main failed updateOk info file fuel) reads s ↔
      Usable p Fits file.data reads := by
  have hlen := file.size_lt
  have hinfo {report : List UInt8} (hrec : p.received reads = some report)
      (hm : Matches jlSuCmdDeviceInit report) : p.initInfo info reads = Port.initFields report := by
    unfold Port.initInfo
    rw [hrec, Option.elim_some, if_pos hm.2]
  have hpending (rs : List (List (List UInt8))) :
      pending ((p.main failed updateOk info file fuel).run s) (reads :: rs)
        = pending ((p.appPhase failed updateOk fuel file.data (p.initInfo info reads)).run
            (p.readDeice reads s)) rs := by
    rw [main_run]
    rfl
  constructor
  · rintro ⟨hdefined, hwrap, hreceived⟩
    have hprepared := (main_goes_on_iff failed updateOk info file fuel reads s).mp hdefined
    obtain ⟨hunit, buf, crcs, hbuf, hcrcs⟩ := hprepared
    have hzone : (p.initInfo info reads).zoneAddr.toNat ≤ file.data.length := by omega
    -- there are replies with which the device is rebooted
    obtain ⟨-, rs, hreboot⟩ := @updateApp_reaches_reboot p α failed updateOk fuel buf crcs
      (p.initInfo info reads).flashEoffsetSize _ _ hcrcs (p.readDeice reads s)
    obtain ⟨report, hrec, hm⟩ := hreceived rs .reboot (by
      rw [hpending, appPhase_eq, if_neg hunit, hbuf, Option.elim_some, hcrcs, Option.elim_some]
      exact hreboot) (Or.inr rfl)
    have hfit := (hfits _ hzone hunit).mp ⟨buf, crcs, hbuf, hcrcs⟩
    rw [hinfo hrec hm] at hunit hzone hfit
    exact ⟨report, hrec, hm, hunit, hzone, hfit⟩
  · rintro ⟨report, hrec, hm, hunit, hzone, hfit⟩
    have hprepared := (hfits _ hzone hunit).mpr hfit
    rw [← hinfo hrec hm] at hunit hprepared
    constructor
    · exact (main_goes_on_iff failed updateOk info file fuel reads s).mpr ⟨hunit, hprepared⟩
    · rw [hinfo hrec hm, toNat_fileSize hlen hzone]
      omega
    · exact fun _ _ _ _ => ⟨report, hrec, hm⟩

/-- **The USB hosts go on without a fault** exactly after an init reply with status 0 and a layout
that suits the file: the serial host's checks, which they leave out, and the bounds of `append` on
Windows and of `fill_n` on Android. -/
theorem proceeds_iff (file : QByteArray) (fuel : ℕ) (reads : List (List UInt8)) (s : State) :
    (∀ info, Proceeds windows info file.data (main info file fuel) reads s ↔
      Usable windows (fun size unit => 2 ^ 32 < size + unit ∨ padding size unit < 2 ^ 31)
        file.data reads) ∧
    (Proceeds Android.port ⟨0, 0, 0, 0⟩ file.data (Android.startUpgrading file fuel) reads s ↔
      Usable Android.port (fun size unit => unit ∣ size) file.data reads) := by
  constructor
  · intro info
    rw [← windows_main]
    exact main_proceeds_iff info file fuel reads s fun _ => windows_prepared_iff file.size_lt
  · rw [Android.startUpgrading_eq]
    exact main_proceeds_iff _ file fuel reads s fun _ => android_prepared_iff file.size_lt

/-- A file of one byte. -/
def oneByteFile : QByteArray :=
  ⟨[0], Nat.le_of_ble_eq_true rfl⟩

def State.zero : State :=
  ⟨fun _ => 0, []⟩

/-- A payload as the device reports it, with zeros behind the packet. -/
def reportOf (payload : List UInt8) : List UInt8 :=
  let frame := xmodemPacket.encode (Bytes.xorKey communicationKey payload)
  frame ++ List.replicate (64 - frame.length) 0

/-- The reply of a device with pages and no offset. -/
def pagesReport : List UInt8 :=
  reportOf (jlSuCmdDeviceInit :: jlSuRspSucc ::
    (Bytes.le32 0 ++ Bytes.le32 0x100 ++ Bytes.le32 0 ++ Bytes.le32 0x100))

/-- Without a reply the unit is still zero. -/
theorem silence_divides :
    (∃ k, (Android.startUpgrading oneByteFile 1).run .zero = .ask (.deviceInit "app_dir_head" 0) k ∧
        k [] = .abort .divByZero) ∧
      ¬ Proceeds Android.port ⟨0, 0, 0, 0⟩ oneByteFile.data
        (Android.startUpgrading oneByteFile 1) []
        .zero := by
  constructor
  · rw [Android.startUpgrading_eq, main_run]
    exact ⟨_, rfl, rfl⟩
  · rintro ⟨hdefined, -, -⟩
    exact hdefined (by decide +kernel)

end FwBootloader.Hid
