import FwBootloader.Hid.Equiv.Init

/-!
## The image that `startUpgrading` prepares

`fill_n` writes its `0xFF` bytes behind the end of the vector and the vector stays as long as it is,
so `prepares_iff`: the buffer is the padded image exactly when there is nothing to pad.
-/

namespace FwBootloader.Android

open Bytes Dialog Hid

/-- The file from the zone's address on, followed by `0xFF` up to the next multiple of the erase
unit. -/
def paddedImage (fileContent : List UInt8) (app : DeviceInitInfo) : List UInt8 :=
  fileContent.drop app.zoneAddr.toNat ++ List.replicate
    (padding (fileContent.length - app.zoneAddr.toNat) app.eraseUnitSize.toNat) 0xFF

/-- The checksums of the first `n` units of a buffer. -/
def unitCrcs (buf : List UInt8) (unit n : ℕ) : List UInt16 :=
  (List.range n).map fun i => crc16 ((buf.drop (i * unit)).take unit)

/-- What `startUpgrading` does after the init exchange, in which `reads` are read, is to update from
the padded image: its units are all the bytes that are read, and the checksums are theirs. -/
def Prepares (file : QByteArray) (fuel : ℕ) (reads : List (List UInt8)) (s : State) : Prop :=
  let app := port.initInfo ⟨0, 0, 0, 0⟩ reads
  let image := paddedImage file.data app
  ∃ k s' blockCount, (startUpgrading file fuel).run s = .ask (.deviceInit "app_dir_head" 0) k ∧
    blockCount.toNat * app.eraseUnitSize.toNat = image.length ∧
    k reads = (updateApp fuel image (unitCrcs image app.eraseUnitSize.toNat blockCount.toNat)
      app.flashEoffsetSize app.eraseUnitSize blockCount).run s'

/-- The list of checksums, where it is defined. -/
theorem getBufferCrcList_eq_unitCrcs {buf : List UInt8} {n unit : UInt32} {crcs : List UInt16}
    (hlt : n.toNat * unit.toNat < 2 ^ 32) (hcrcs : Hid.getBufferCrcList buf n unit = some crcs) :
    crcs = unitCrcs buf unit.toNat n.toNat := by
  have hall (l : List ℕ) (hl : ∀ i ∈ l, i < n.toNat) :
      l.mapM (fun offset => (readBuf buf (UInt32.ofNat offset * unit) unit).map Hid.crc16)
        = some (l.map fun i => crc16 ((buf.drop (i * unit.toNat)).take unit.toNat)) := by
    induction l with
    | nil => rfl
    | cons i l ih =>
      obtain ⟨hi, hl⟩ := List.forall_mem_cons.mp hl
      have hmul := Nat.mul_le_mul_right unit.toNat hi.le
      have hi32 : i < 2 ^ 32 := lt_trans hi n.toNat_lt
      have hoff : (UInt32.ofNat i * unit).toNat = i * unit.toNat := by
        rw [UInt32.toNat_mul, UInt32.toNat_ofNat_of_lt' hi32]
        exact Nat.mod_eq_of_lt (by omega)
      have hle := block_le_of_crcs hcrcs hi
      have hread : readBuf buf (UInt32.ofNat i * unit) unit
          = some ((buf.drop (i * unit.toNat)).take unit.toNat) := by
        rw [readBuf, if_pos hle, hoff]
      rw [List.mapM_cons, hread, ih hl]
      rfl
  exact Option.some.inj (hcrcs.symm.trans (hall _ fun i hi => List.mem_range.mp hi))

theorem length_paddedImage (fileContent : List UInt8) (app : DeviceInitInfo) :
    (paddedImage fileContent app).length = fileContent.length - app.zoneAddr.toNat
      + padding (fileContent.length - app.zoneAddr.toNat) app.eraseUnitSize.toNat := by
  rw [paddedImage, List.length_append, List.length_drop, List.length_replicate]

/-- What is prepared is not empty, so a request for checksums follows. -/
theorem Prepares.pending_ne_none {file : QByteArray} {fuel : ℕ} {reads : List (List UInt8)}
    {s : State} (h : Prepares file fuel reads s)
    (hzone : (port.initInfo ⟨0, 0, 0, 0⟩ reads).zoneAddr.toNat < file.data.length) :
    pending ((startUpgrading file fuel).run s) [reads] ≠ none := by
  obtain ⟨k, s', blockCount, hrun, hcount, hrest⟩ := h
  have hpos : blockCount ≠ 0 := by
    rintro rfl
    rw [UInt32.toNat_zero, Nat.zero_mul, length_paddedImage] at hcount
    omega
  obtain ⟨hfirst, -⟩ := @fetchChipCrcList_blankReport port
    (0 + (port.initInfo ⟨0, 0, 0, 0⟩ reads).flashEoffsetSize) blockCount
    (port.initInfo ⟨0, 0, 0, 0⟩ reads).eraseUnitSize hpos s'
  rw [hrun]
  show pending (k reads) [] ≠ none
  rw [hrest]
  intro hnone
  cases hnone.symm.trans (pending_bind_left hfirst _)

/-- **The padded image is prepared** exactly when the file ends with a whole unit, so that nothing
is padded. -/
theorem prepares_iff (file : QByteArray) (fuel : ℕ) (reads : List (List UInt8)) (s : State)
    (hunit : 0 < (port.initInfo ⟨0, 0, 0, 0⟩ reads).eraseUnitSize.toNat)
    (hzone : (port.initInfo ⟨0, 0, 0, 0⟩ reads).zoneAddr.toNat < file.data.length) :
    Prepares file fuel reads s ↔
      (port.initInfo ⟨0, 0, 0, 0⟩ reads).eraseUnitSize.toNat ∣
        file.data.length - (port.initInfo ⟨0, 0, 0, 0⟩ reads).zoneAddr.toNat := by
  set app := port.initInfo ⟨0, 0, 0, 0⟩ reads with happ
  have hne : app.eraseUnitSize ≠ 0 := by
    intro h
    rw [h] at hunit
    exact absurd hunit (by decide)
  -- what is defined is what is prepared: a `fill_n` behind the end is not
  rw [← android_prepared_iff file.size_lt hzone.le hne]
  constructor
  · intro hprep
    have hdefined := hprep.pending_ne_none hzone
    rw [startUpgrading_eq] at hdefined
    exact ((main_goes_on_iff (-1) 0 ⟨0, 0, 0, 0⟩ file fuel reads s).mp hdefined).2
  · intro hprep
    have hdvd := (android_prepared_iff file.size_lt hzone.le hne).mp hprep
    obtain ⟨buf, crcs, hbuf, hcrcs⟩ := hprep
    have hlt := file.size_lt
    have hle := Nat.le_of_dvd (by omega) hdvd
    obtain ⟨haligned, -, -, hmul⟩ := toNat_aligned file.size_lt hzone.le hne (by omega)
    -- nothing is filled in
    have hfull : (Port.blockCount file.data app).toNat * app.eraseUnitSize.toNat
          = file.data.length - app.zoneAddr.toNat ∧
        buf = file.data.drop app.zoneAddr.toNat := by
      unfold Port.fileBuf at hbuf
      dsimp only at hbuf
      split_ifs at hbuf with heq
      · cases hbuf
      · refine ⟨?_, (Option.some.inj hbuf).symm⟩
        have hnat := congrArg UInt32.toNat (not_not.mp heq)
        rw [haligned, toNat_fileSize file.size_lt hzone.le] at hnat
        rw [hmul, hnat]
    obtain ⟨hfull, rfl⟩ := hfull
    have hpad : padding (file.data.length - app.zoneAddr.toNat) app.eraseUnitSize.toNat = 0 := by
      rw [padding, ← hmul, hfull, Nat.sub_self]
    have himage : paddedImage file.data app = file.data.drop app.zoneAddr.toNat := by
      rw [paddedImage, hpad, List.replicate_zero, List.append_nil]
    unfold Prepares
    rw [startUpgrading_eq, main_run]
    refine ⟨_, port.readDeice reads s, Port.blockCount file.data app, rfl, ?_, ?_⟩
    · rw [← happ, length_paddedImage, hpad, hfull, Nat.add_zero]
    · rw [← happ, appPhase_eq, if_neg hne, hbuf, Option.elim_some, hcrcs, Option.elim_some,
        himage, getBufferCrcList_eq_unitCrcs (by omega) hcrcs]
      rfl

/-- A file of two pages. -/
def twoPagesFile : QByteArray :=
  ⟨List.replicate 512 0, by rw [List.length_replicate]; decide⟩

/-- For a device with pages a file of two is prepared. -/
theorem prepares_iff_pages : Prepares twoPagesFile 1 [pagesReport] .zero :=
  (prepares_iff twoPagesFile 1 [pagesReport] .zero (by decide +kernel) (by decide +kernel)).mpr
    (by decide +kernel)

/-- A file of one byte is not. -/
theorem oneByte_not_prepared :
    0 < (port.initInfo ⟨0, 0, 0, 0⟩ [pagesReport]).eraseUnitSize.toNat ∧
      (port.initInfo ⟨0, 0, 0, 0⟩ [pagesReport]).zoneAddr.toNat < oneByteFile.data.length ∧
      ¬ Prepares oneByteFile 1 [pagesReport] .zero := by
  have hzone : (port.initInfo ⟨0, 0, 0, 0⟩ [pagesReport]).zoneAddr.toNat
      < oneByteFile.data.length := by
    decide +kernel
  refine ⟨by decide +kernel, hzone, fun h => h.pending_ne_none hzone ?_⟩
  decide +kernel

end FwBootloader.Android
