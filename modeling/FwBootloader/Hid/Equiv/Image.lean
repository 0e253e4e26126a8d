import FwBootloader.Hid.Equiv.History
import FwBootloader.Image

/-!
## The image in the USB hosts

For a file that reaches behind the zone's address the prepared buffer is the `AppImage`
(`blockCount_image`, `fileBuf_image`).  For any other file the size wraps, and the list of checksums
is either outside the buffer or empty (`blockCount_eq_zero`).
-/

namespace FwBootloader.Hid

variable (p : Port)

theorem blockCount_image (a : AppImage) :
    Port.blockCount a.file.data a.app = UInt32.ofNat a.count := by
  unfold Port.blockCount Port.fileSize
  rw [a.fileSize_eq, a.blockCount_eq]

/-- Where the file can be filled up it is the image. -/
theorem fileBuf_image (a : AppImage) {buf : List UInt8}
    (hbuf : p.fileBuf a.file.data a.app = some buf) : buf = a.data := by
  have hdata := a.padded_eq
  unfold Port.fileBuf at hbuf
  rw [blockCount_image, Port.fileSize, a.fileSize_eq] at hbuf
  dsimp only at hbuf
  split_ifs at hbuf hdata with h
  · rcases p.fill_cases a.file.data
      (UInt32.ofNat a.count * a.app.eraseUnitSize - UInt32.ofNat a.size) with hfill | hfill
    · rw [hfill] at hbuf
      cases hbuf
    · rw [hfill] at hbuf
      exact (Option.some.inj hbuf).symm.trans hdata
  · exact (Option.some.inj hbuf).symm.trans hdata

/-- Where the list of checksums is defined every block is inside the buffer. -/
theorem block_le_of_crcs {buf : List UInt8} {n unit : UInt32} {crcs : List UInt16}
    (hcrcs : getBufferCrcList buf n unit = some crcs) {i : ℕ} (hi : i < n.toNat) :
    (UInt32.ofNat i * unit).toNat + unit.toNat ≤ buf.length := by
  have hall (l : List ℕ) (crcs : List UInt16)
      (hl : l.mapM (fun offset => (readBuf buf (UInt32.ofNat offset * unit) unit).map crc16)
        = some crcs) : ∀ i ∈ l, (UInt32.ofNat i * unit).toNat + unit.toNat ≤ buf.length := by
    induction l generalizing crcs with
    | nil => exact fun _ hi => absurd hi List.not_mem_nil
    | cons j l ih =>
      rw [List.mapM_cons] at hl
      rcases hread : readBuf buf (UInt32.ofNat j * unit) unit with _ | content
      · rw [hread] at hl
        cases hl
      rcases hrest : l.mapM (fun offset =>
        (readBuf buf (UInt32.ofNat offset * unit) unit).map crc16) with _ | rest
      · rw [hread, hrest] at hl
        cases hl
      refine List.forall_mem_cons.mpr ⟨?_, ih rest hrest⟩
      unfold readBuf at hread
      split_ifs at hread with h
      exact h
  exact hall _ crcs hcrcs i (List.mem_range.mpr hi)

/-- Where every block is inside the buffer the list of checksums is defined. -/
theorem crcs_of_block_le {buf : List UInt8} {n unit : UInt32}
    (hle : ∀ i < n.toNat, (UInt32.ofNat i * unit).toNat + unit.toNat ≤ buf.length) :
    ∃ crcs, getBufferCrcList buf n unit = some crcs := by
  have hall (l : List ℕ) (hl : ∀ i ∈ l, (UInt32.ofNat i * unit).toNat + unit.toNat ≤ buf.length) :
      ∃ crcs, l.mapM (fun offset => (readBuf buf (UInt32.ofNat offset * unit) unit).map crc16)
        = some crcs := by
    induction l with
    | nil => exact ⟨[], rfl⟩
    | cons j l ih =>
      obtain ⟨hj, hl⟩ := List.forall_mem_cons.mp hl
      obtain ⟨crcs, hcrcs⟩ := ih hl
      have hread : readBuf buf (UInt32.ofNat j * unit) unit
          = some ((buf.drop (UInt32.ofNat j * unit).toNat).take unit.toNat) := if_pos hj
      refine ⟨crc16 ((buf.drop (UInt32.ofNat j * unit).toNat).take unit.toNat) :: crcs, ?_⟩
      rw [List.mapM_cons, hread, hcrcs]
      rfl
  exact hall _ fun i hi => hle i (List.mem_range.mp hi)

/-- The number of units, in natural numbers: none if the sum wraps. -/
theorem blockCount_cases (fileContent : List UInt8) {app : DeviceInitInfo}
    (hunit : app.eraseUnitSize ≠ 0) :
    let size := (Port.fileSize fileContent app).toNat
    let unit := app.eraseUnitSize.toNat
    (2 ^ 32 < size + unit ∧ Port.blockCount fileContent app = 0) ∨
      (size + unit ≤ 2 ^ 32 ∧
        (Port.blockCount fileContent app).toNat = (size + unit - 1) / unit) := by
  intro size unit
  have hpos : 0 < unit := Bytes.toNat_pos_of_ne_zero hunit
  have hsize : size < 2 ^ 32 := (Port.fileSize fileContent app).toNat_lt
  have hlt : unit < 2 ^ 32 := app.eraseUnitSize.toNat_lt
  have hone : (1 : UInt32).toNat = 1 := UInt32.toNat_one
  have hsum : (Port.fileSize fileContent app + app.eraseUnitSize - 1).toNat
      = (2 ^ 32 - 1 + (size + unit) % 2 ^ 32) % 2 ^ 32 := by
    rw [UInt32.toNat_sub, hone, UInt32.toNat_add]
  unfold Port.blockCount
  rcases Nat.lt_or_ge (2 ^ 32) (size + unit) with hwrap | hfit
  · refine Or.inl ⟨hwrap, UInt32.toNat_inj.mp ?_⟩
    rw [UInt32.toNat_div, hsum]
    exact Nat.div_eq_of_lt (by omega)
  · refine Or.inr ⟨hfit, ?_⟩
    rw [UInt32.toNat_div, hsum]
    congr 1
    omega

/-- A file that does not reach behind the zone's address has no unit. -/
theorem blockCount_eq_zero {fileContent : List UInt8} {app : DeviceInitInfo} {buf : List UInt8}
    {crcs : List UInt16} (hlen : fileContent.length < 2 ^ 31)
    (hle : fileContent.length ≤ app.zoneAddr.toNat)
    (hunit : app.eraseUnitSize ≠ 0) (hbuf : p.fileBuf fileContent app = some buf)
    (hcrcs : getBufferCrcList buf (Port.blockCount fileContent app) app.eraseUnitSize
      = some crcs) :
    Port.blockCount fileContent app = 0 := by
  by_contra hcount
  have hpos : 0 < app.eraseUnitSize.toNat := Bytes.toNat_pos_of_ne_zero hunit
  have hcountpos : 0 < (Port.blockCount fileContent app).toNat := Bytes.toNat_pos_of_ne_zero hcount
  have hzone := app.zoneAddr.toNat_lt
  have hfirst := block_le_of_crcs hcrcs hcountpos
  rw [show UInt32.ofNat 0 = 0 from rfl, UInt32.zero_mul, UInt32.toNat_zero,
    Nat.zero_add] at hfirst
  have hsize : (Port.fileSize fileContent app).toNat
      = (2 ^ 32 - app.zoneAddr.toNat + fileContent.length) % 2 ^ 32 := by
    unfold Port.fileSize
    rw [UInt32.toNat_sub, UInt32.toNat_ofNat_of_lt' (show _ < 2 ^ 32 by omega)]
  rcases blockCount_cases fileContent hunit with ⟨-, hzero⟩ | ⟨hfit, hdiv⟩
  · exact hcount hzero
  set size := (Port.fileSize fileContent app).toNat with hsizedef
  set unit := app.eraseUnitSize.toNat with hunitdef
  set count := (Port.blockCount fileContent app).toNat with hcountdef
  have hmul := Nat.div_add_mod (size + unit - 1) unit
  have hmod := Nat.mod_lt (size + unit - 1) hpos
  rw [← hdiv, Nat.mul_comm unit count] at hmul
  have hlt : count * unit < 2 ^ 32 := by omega
  have haligned : (Port.blockCount fileContent app * app.eraseUnitSize).toNat = count * unit := by
    rw [UInt32.toNat_mul]
    exact Nat.mod_eq_of_lt hlt
  have hdiff : (Port.blockCount fileContent app * app.eraseUnitSize
      - Port.fileSize fileContent app).toNat = count * unit - size := by
    rw [UInt32.toNat_sub_of_le _ _ (by rw [UInt32.le_iff_toNat_le, haligned]; omega), haligned]
  have hsizepos : 0 < size := by
    by_contra h0
    have h1 : size + unit - 1 < unit := by omega
    rw [Nat.div_eq_of_lt h1] at hdiv
    omega
  -- the filling is shorter than a unit, and so is what is behind the zone's address
  have hbuflen : buf.length ≤ fileContent.length + (count * unit - size) - app.zoneAddr.toNat := by
    unfold Port.fileBuf at hbuf
    dsimp only at hbuf
    split_ifs at hbuf
    · rcases p.fill_cases fileContent (Port.blockCount fileContent app * app.eraseUnitSize
        - Port.fileSize fileContent app) with hfill | hfill
      · rw [hfill] at hbuf
        cases hbuf
      · rw [hfill] at hbuf
        obtain rfl := Option.some.inj hbuf
        have happend : (qAppend fileContent (Port.blockCount fileContent app * app.eraseUnitSize
            - Port.fileSize fileContent app) 0xFF).length
            ≤ fileContent.length + (count * unit - size) := by
          unfold qAppend
          split_ifs
          · rw [List.length_append, List.length_replicate, hdiff]
          · omega
        rw [List.length_drop]
        omega
    · obtain rfl := Option.some.inj hbuf
      rw [List.length_drop]
      omega
  omega

/-! ### What can be prepared -/

section

variable {fileContent : List UInt8} {app : DeviceInitInfo} (hlen : fileContent.length < 2 ^ 31)
  (hzone : app.zoneAddr.toNat ≤ fileContent.length) (hunit : app.eraseUnitSize ≠ 0)

include hlen hzone

theorem toNat_fileSize :
    (Port.fileSize fileContent app).toNat = fileContent.length - app.zoneAddr.toNat := by
  have hofNat : (UInt32.ofNat fileContent.length).toNat = fileContent.length :=
    UInt32.toNat_ofNat_of_lt' (show _ < 2 ^ 32 by omega)
  unfold Port.fileSize
  rw [UInt32.toNat_sub_of_le _ _ (by rw [UInt32.le_iff_toNat_le, hofNat]; exact hzone), hofNat]

include hunit

/-- The rounded size, where rounding does not wrap. -/
theorem toNat_aligned
    (hfit : fileContent.length - app.zoneAddr.toNat + app.eraseUnitSize.toNat ≤ 2 ^ 32) :
    let size := fileContent.length - app.zoneAddr.toNat
    let aligned := (size + app.eraseUnitSize.toNat - 1) / app.eraseUnitSize.toNat
      * app.eraseUnitSize.toNat
    (Port.blockCount fileContent app * app.eraseUnitSize).toNat = aligned ∧ size ≤ aligned ∧
      aligned < size + app.eraseUnitSize.toNat ∧
      (Port.blockCount fileContent app).toNat * app.eraseUnitSize.toNat = aligned := by
  intro size aligned
  have hpos : 0 < app.eraseUnitSize.toNat := Bytes.toNat_pos_of_ne_zero hunit
  have hsize := toNat_fileSize hlen hzone
  have hdivmod := Nat.div_add_mod (size + app.eraseUnitSize.toNat - 1) app.eraseUnitSize.toNat
  have hmod := Nat.mod_lt (size + app.eraseUnitSize.toNat - 1) hpos
  rw [Nat.mul_comm] at hdivmod
  have haligned : aligned + (size + app.eraseUnitSize.toNat - 1) % app.eraseUnitSize.toNat
      = size + app.eraseUnitSize.toNat - 1 := hdivmod
  rcases blockCount_cases fileContent hunit with ⟨hwrap, -⟩ | ⟨-, hcount⟩
  · rw [hsize] at hwrap
    omega
  · rw [hsize] at hcount
    have hmul : (Port.blockCount fileContent app).toNat * app.eraseUnitSize.toNat = aligned := by
      rw [hcount]
    refine ⟨?_, by omega, by omega, hmul⟩
    rw [UInt32.toNat_mul, hmul]
    exact Nat.mod_eq_of_lt (by omega)

/-- Blocks of a buffer that is long enough. -/
theorem crcs_of_aligned_le {buf : List UInt8}
    (hfit : fileContent.length - app.zoneAddr.toNat + app.eraseUnitSize.toNat ≤ 2 ^ 32)
    (hbuf : (Port.blockCount fileContent app * app.eraseUnitSize).toNat ≤ buf.length) :
    ∃ crcs, getBufferCrcList buf (Port.blockCount fileContent app) app.eraseUnitSize
      = some crcs := by
  obtain ⟨haligned, -, hlt, hmul⟩ := toNat_aligned hlen hzone hunit hfit
  rw [haligned, ← hmul] at hbuf
  rw [← hmul] at hlt
  refine crcs_of_block_le fun i hi => ?_
  have hend := Nat.mul_le_mul_right app.eraseUnitSize.toNat (Nat.succ_le_of_lt hi)
  rw [Nat.succ_mul] at hend
  have hi32 : i < 2 ^ 32 :=
    lt_trans hi (Port.blockCount fileContent app).toNat_lt
  rw [UInt32.toNat_mul, UInt32.toNat_ofNat_of_lt' hi32, Nat.mod_eq_of_lt (by omega)]
  omega

end

end FwBootloader.Hid
