import FwBootloader.Host
import FwBootloader.Lib.BlockUpdate
import Mathlib.Tactic.NormNum

/-!
## The image that a host writes

A `UnitBuffer` is a buffer of whole erase units: the hosts read every block inside it
(`readBuf_data`), write every block from inside it (`readBuf_drop`) and compute the checksums of its
`blocks` (`checksums_eq`).

An `AppImage` is a file with the device's init reply that it is written for: the file reaches behind
the zone's address and the device erases pages or sectors.  Its `data` is the file from the zone's
address on, filled with `0xFF` up to a whole number of units, and `blocks` lays it out in the flash.
Both Windows hosts compute the same 32-bit quantities for it (`fileSize_eq`, `blockCount_eq`,
`padded_eq`).

A `UbootImage` also has the offset of a 0K or 4K layout.  Its `bootData` is what the bootloader's
area `[flashEoffsetSize, 65536)` gets: the first bytes of the file, filled with `0xFF`.
-/

namespace FwBootloader

/-! ### Whole units -/

/-- A buffer of whole erase units. -/
structure UnitBuffer where
  unit : UInt32
  data : List UInt8
  count : ℕ
  unit_cases : unit = 256 ∨ unit = 4096
  length_data : data.length = count * unit.toNat
  count_pos : 0 < count
  length_lt : data.length < 2 ^ 32

namespace UnitBuffer

variable (b : UnitBuffer)

/-- The bytes of block `i`. -/
def block (i : ℕ) : List UInt8 :=
  (b.data.drop (i * b.unit.toNat)).take b.unit.toNat

theorem unit_eq : b.unit.toNat = 256 ∨ b.unit.toNat = 4096 := by
  rcases b.unit_cases with h | h
  · exact Or.inl (congrArg UInt32.toNat h)
  · exact Or.inr (congrArg UInt32.toNat h)

theorem unit_ne : b.unit ≠ 0 := by
  rcases b.unit_cases with h | h <;> rw [h] <;> decide

theorem count_mul_lt : b.count * b.unit.toNat < 2 ^ 32 := by
  rw [← b.length_data]
  exact b.length_lt

/-- A block ends inside the buffer. -/
theorem block_end {i : ℕ} (hi : i < b.count) :
    i * b.unit.toNat + b.unit.toNat ≤ b.count * b.unit.toNat := by
  have h := Nat.mul_le_mul_right b.unit.toNat (Nat.succ_le_of_lt hi)
  rwa [Nat.succ_mul] at h

theorem length_block {i : ℕ} (hi : i < b.count) : (b.block i).length = b.unit.toNat := by
  have h := b.block_end hi
  rw [block, List.length_take, List.length_drop, length_data]
  omega

/-- The buffer in the flash, from `base` on. -/
def blocks (base : UInt32) : BlockImage where
  base := base
  size := b.unit.toNat
  count := b.count
  block := b.block
  length_block _ := b.length_block
  count_pos := b.count_pos
  fits := b.count_mul_lt.le

/-- The number of blocks is a 32-bit number. -/
theorem toNat_count : (UInt32.ofNat b.count).toNat = b.count := by
  have h := b.count_mul_lt
  apply UInt32.toNat_ofNat_of_lt'
  show b.count < 2 ^ 32
  rcases b.unit_eq with hu | hu <;> rw [hu] at h <;> omega

/-- `i * eraseUnitSize` does not wrap for the blocks of a buffer. -/
theorem toNat_offset {i : ℕ} (hi : i ≤ b.count) :
    (UInt32.ofNat i * b.unit).toNat = i * b.unit.toNat := by
  have h := b.count_mul_lt
  have hmul := Nat.mul_le_mul_right b.unit.toNat hi
  have hofNat : UInt32.ofNat i * b.unit = UInt32.ofNat (i * b.unit.toNat) := by
    rw [UInt32.ofNat_mul, UInt32.ofNat_toNat]
  rw [hofNat]
  exact UInt32.toNat_ofNat_of_lt' (show _ < 2 ^ 32 by omega)

/-- Block `i` is read whole. -/
theorem readBuf_data {i : ℕ} (hi : i < b.count) :
    readBuf b.data (UInt32.ofNat i * b.unit) b.unit = some (b.block i) := by
  have hend := b.block_end hi
  rw [readBuf, toNat_offset _ hi.le, if_pos (by rw [length_data]; exact hend)]
  rfl

/-- The pointer to block `i`. -/
theorem readBuf_drop {i : ℕ} (hi : i < b.count) :
    readBuf (b.data.drop (UInt32.ofNat i * b.unit).toNat) 0 b.unit = some (b.block i) := by
  have hend := b.block_end hi
  have hzero : (0 : UInt32).toNat = 0 := UInt32.toNat_zero
  rw [readBuf, toNat_offset _ hi.le, hzero,
    if_pos (by rw [List.length_drop, length_data]; omega)]
  rfl

/-- The checksums of all blocks, as the hosts compute them. -/
theorem checksums_eq {κ : Type} (crc : List UInt8 → κ) (base : UInt32) :
    (List.range (UInt32.ofNat b.count).toNat).mapM (fun offset =>
        (readBuf b.data (UInt32.ofNat offset * b.unit) b.unit).map crc)
      = some ((b.blocks base).checksums crc) := by
  have hall (l : List ℕ) (hl : ∀ i ∈ l, i < b.count) :
      l.mapM (fun offset => (readBuf b.data (UInt32.ofNat offset * b.unit) b.unit).map crc)
        = some (l.map fun i => crc (b.block i)) := by
    induction l with
    | nil => rfl
    | cons i l ih =>
      obtain ⟨hi, hl⟩ := List.forall_mem_cons.mp hl
      rw [List.mapM_cons, b.readBuf_data hi, ih hl]
      rfl
  rw [toNat_count]
  exact hall _ fun i hi => List.mem_range.mp hi

theorem checksums_getD {i : ℕ} (hi : i < b.count) (crc : List UInt8 → UInt16) (base : UInt32) :
    ((b.blocks base).checksums crc).getD i 0 = crc (b.block i) := by
  have hlen : i < ((b.blocks base).checksums crc).length := by
    rw [BlockImage.checksums, List.length_map, List.length_range]
    exact hi
  rw [List.getD_eq_getElem _ _ hlen]
  simp only [BlockImage.checksums, List.getElem_map, List.getElem_range]
  rfl

theorem readChecksums_getD {i : ℕ} (hi : i < b.count) (m : Flash) (crc : List UInt8 → UInt16)
    (base : UInt32) :
    ((b.blocks base).readChecksums m crc).getD i 0
      = crc (m.read ((b.blocks base).addr i) b.unit.toNat) := by
  have hlen : i < ((b.blocks base).readChecksums m crc).length := by
    rw [BlockImage.readChecksums, List.length_map, List.length_range]
    exact hi
  rw [List.getD_eq_getElem _ _ hlen]
  simp only [BlockImage.readChecksums, List.getElem_map, List.getElem_range]
  rfl

end UnitBuffer

/-! ### The application's image -/

/-- A file and the init reply of the device that it is written to. -/
structure AppImage where
  file : QByteArray
  app : DeviceInitInfo
  zone_lt : app.zoneAddr.toNat < file.data.length
  unit_cases : app.eraseUnitSize = 256 ∨ app.eraseUnitSize = 4096

namespace AppImage

variable (a : AppImage)

/-- The erase unit, as a number. -/
def unit : ℕ :=
  a.app.eraseUnitSize.toNat

/-- The number of bytes behind the zone's address. -/
def size : ℕ :=
  a.file.data.length - a.app.zoneAddr.toNat

/-- The number of units that they need. -/
def count : ℕ :=
  (a.size + a.unit - 1) / a.unit

/-- The bytes behind the zone's address, filled up with `0xFF`. -/
def data : List UInt8 :=
  a.file.data.drop a.app.zoneAddr.toNat ++ List.replicate (a.count * a.unit - a.size) 0xFF

theorem unit_eq : a.unit = 256 ∨ a.unit = 4096 := by
  rcases a.unit_cases with h | h
  · exact Or.inl (congrArg UInt32.toNat h)
  · exact Or.inr (congrArg UInt32.toNat h)

theorem unit_pos : 0 < a.unit := by
  rcases a.unit_eq with h | h <;> omega

theorem unit_ge : 32 ≤ a.unit := by
  rcases a.unit_eq with h | h <;> omega

theorem eraseUnitSize_ne : a.app.eraseUnitSize ≠ 0 := by
  rcases a.unit_cases with h | h <;> rw [h] <;> decide

theorem size_pos : 0 < a.size :=
  Nat.sub_pos_of_lt a.zone_lt

theorem size_lt : a.size < 2 ^ 31 :=
  lt_of_le_of_lt (Nat.sub_le ..) a.file.size_lt

/-- The units hold the bytes, and the last one is needed. -/
theorem size_le : a.size ≤ a.count * a.unit ∧ a.count * a.unit < a.size + a.unit := by
  have hpos := a.unit_pos
  have hdiv := Nat.div_add_mod (a.size + a.unit - 1) a.unit
  have hmod := Nat.mod_lt (a.size + a.unit - 1) hpos
  rw [Nat.mul_comm, ← count] at hdiv
  omega

theorem count_pos : 0 < a.count := by
  have h := a.size_le
  have hsize := a.size_pos
  rcases Nat.eq_zero_or_pos a.count with h0 | hpos
  · rw [h0, Nat.zero_mul] at h
    omega
  · exact hpos

/-- The padded image ends far below `2 ^ 32`. -/
theorem count_mul_unit_lt : a.count * a.unit < 2 ^ 31 + 4096 := by
  have h := a.size_le
  have hsize := a.size_lt
  rcases a.unit_eq with hu | hu <;> omega

theorem count_lt : a.count < 2 ^ 31 := by
  have h := a.count_mul_unit_lt
  rcases a.unit_eq with hu | hu <;> rw [hu] at h <;> omega

theorem length_data : a.data.length = a.count * a.unit := by
  have h := a.size_le
  rw [data, List.length_append, List.length_drop, List.length_replicate, ← size]
  omega

/-- The image as a buffer. -/
def buffer : UnitBuffer where
  unit := a.app.eraseUnitSize
  data := a.data
  count := a.count
  unit_cases := a.unit_cases
  length_data := a.length_data
  count_pos := a.count_pos
  length_lt := by
    have h := a.count_mul_unit_lt
    rw [a.length_data]
    omega

/-- The bytes of block `i`. -/
def block (i : ℕ) : List UInt8 :=
  a.buffer.block i

/-- The image in the flash, from `flashEoffsetSize` on. -/
def blocks : BlockImage :=
  a.buffer.blocks a.app.flashEoffsetSize

@[simp] theorem toNat_eraseUnitSize : a.app.eraseUnitSize.toNat = a.unit := rfl

@[simp] theorem blocks_base : a.blocks.base = a.app.flashEoffsetSize := rfl

@[simp] theorem blocks_size : a.blocks.size = a.unit := rfl

@[simp] theorem blocks_block (i : ℕ) : a.blocks.block i = a.block i := rfl

/-- The first step: block 0 is erased. -/
theorem emptied_nil (m : Flash) :
    a.blocks.emptied m [] = m.erase a.app.flashEoffsetSize a.app.eraseUnitSize.toNat :=
  a.blocks.emptied_nil m

theorem block_eq (i : ℕ) : a.block i = (a.data.drop (i * a.unit)).take a.unit := rfl

theorem block_end {i : ℕ} (hi : i < a.count) : i * a.unit + a.unit ≤ a.count * a.unit :=
  a.buffer.block_end hi

theorem length_block {i : ℕ} (hi : i < a.count) : (a.block i).length = a.unit :=
  a.buffer.length_block hi

theorem checksums_getD {i : ℕ} (hi : i < a.count) (crc : List UInt8 → UInt16) :
    (a.blocks.checksums crc).getD i 0 = crc (a.block i) :=
  a.buffer.checksums_getD hi crc _

theorem readChecksums_getD {i : ℕ} (hi : i < a.count) (m : Flash) (crc : List UInt8 → UInt16) :
    (a.blocks.readChecksums m crc).getD i 0 = crc (m.read (a.blocks.addr i) a.unit) :=
  a.buffer.readChecksums_getD hi m crc _

/-! ### The hosts' arithmetic -/

theorem toNat_count : (UInt32.ofNat a.count).toNat = a.count :=
  a.buffer.toNat_count

/-- `fileContent.size() - appZoneAddr`. -/
theorem fileSize_eq :
    UInt32.ofNat a.file.data.length - a.app.zoneAddr = UInt32.ofNat a.size := by
  have hlt := a.file.size_lt
  have hzone := a.zone_lt
  have hlen : (UInt32.ofNat a.file.data.length).toNat = a.file.data.length :=
    UInt32.toNat_ofNat_of_lt' (show _ < 2 ^ 32 by omega)
  apply UInt32.toNat_inj.mp
  rw [UInt32.toNat_sub_of_le _ _ (by rw [UInt32.le_iff_toNat_le, hlen]; omega), hlen,
    UInt32.toNat_ofNat_of_lt' (show a.size < 2 ^ 32 from lt_trans a.size_lt (by norm_num)), size]

/-- `(fileSize + eraseUnitSize - 1) / eraseUnitSize`. -/
theorem blockCount_eq :
    (UInt32.ofNat a.size + a.app.eraseUnitSize - 1) / a.app.eraseUnitSize
      = UInt32.ofNat a.count := by
  have hsize := a.size_lt
  have hpos := a.size_pos
  have hsum : (UInt32.ofNat a.size + a.app.eraseUnitSize).toNat = a.size + a.unit := by
    rw [UInt32.toNat_add, UInt32.toNat_ofNat_of_lt' (show a.size < 2 ^ 32 by omega),
      toNat_eraseUnitSize]
    rcases a.unit_eq with hu | hu <;> rw [hu] <;> omega
  have hone : (1 : UInt32) ≤ UInt32.ofNat a.size + a.app.eraseUnitSize := by
    rw [UInt32.le_iff_toNat_le, hsum]
    exact Nat.le_trans hpos (Nat.le_add_right ..)
  apply UInt32.toNat_inj.mp
  rw [UInt32.toNat_div, UInt32.toNat_sub_of_le _ _ hone, hsum, toNat_count]
  rfl

/-- The offset of block `i`. -/
theorem offset_eq {i : ℕ} : UInt32.ofNat i * a.app.eraseUnitSize = UInt32.ofNat (i * a.unit) := by
  rw [UInt32.ofNat_mul, unit, UInt32.ofNat_toNat]

/-- `if (alignedFileSize != fileSize) fileContent.append(alignedFileSize - fileSize, '\xFF')`, from
the zone's address on. -/
theorem padded_eq :
    (if UInt32.ofNat a.count * a.app.eraseUnitSize ≠ UInt32.ofNat a.size then
        qAppend a.file.data
          (UInt32.ofNat a.count * a.app.eraseUnitSize - UInt32.ofNat a.size) 0xFF
      else a.file.data).drop a.app.zoneAddr.toNat = a.data := by
  have hlt := a.size_lt
  have hzone := a.zone_lt
  obtain ⟨hle, hlt'⟩ := a.size_le
  have haligned : (UInt32.ofNat a.count * a.app.eraseUnitSize).toNat = a.count * a.unit :=
    a.buffer.toNat_offset (le_refl a.count)
  have hsize : (UInt32.ofNat a.size).toNat = a.size :=
    UInt32.toNat_ofNat_of_lt' (show _ < 2 ^ 32 by omega)
  have hdiff : (UInt32.ofNat a.count * a.app.eraseUnitSize - UInt32.ofNat a.size).toNat
      = a.count * a.unit - a.size := by
    rw [UInt32.toNat_sub_of_le _ _ (by rw [UInt32.le_iff_toNat_le, haligned, hsize]; exact hle),
      haligned, hsize]
  split_ifs with h
  · have hsmall : UInt32.ofNat a.count * a.app.eraseUnitSize - UInt32.ofNat a.size
        < 0x80000000 := by
      rw [UInt32.lt_iff_toNat_lt, hdiff]
      show _ < 2147483648
      rcases a.unit_eq with hu | hu <;> omega
    rw [qAppend, if_pos hsmall, hdiff, List.drop_append_of_le_length (by omega)]
    rfl
  · have heq : a.count * a.unit = a.size := by
      rw [← haligned, ← hsize, not_not.mp h]
    rw [data, heq, Nat.sub_self]
    exact (List.append_nil _).symm

/-- The pointer to block `i`. -/
theorem readBuf_drop {i : ℕ} (hi : i < a.count) :
    readBuf (a.data.drop (UInt32.ofNat i * a.app.eraseUnitSize).toNat) 0 a.app.eraseUnitSize
      = some (a.block i) :=
  a.buffer.readBuf_drop hi

/-- The checksums of all blocks, as the hosts compute them. -/
theorem checksums_eq {κ : Type} (crc : List UInt8 → κ) :
    (List.range (UInt32.ofNat a.count).toNat).mapM (fun offset =>
        (readBuf a.data (UInt32.ofNat offset * a.app.eraseUnitSize) a.app.eraseUnitSize).map crc)
      = some (a.blocks.checksums crc) :=
  a.buffer.checksums_eq crc _

end AppImage

/-! ### The bootloader's image -/

/-- A file for a device whose bootloader ends at `65536` and starts at a multiple of 4K. -/
structure UbootImage extends AppImage where
  eoffset_dvd : 4096 ∣ app.flashEoffsetSize.toNat
  eoffset_lt : app.flashEoffsetSize.toNat < 65536

namespace UbootImage

variable (a : UbootImage)

/-- The length of the bootloader's area. -/
def bootSize : ℕ :=
  65536 - a.app.flashEoffsetSize.toNat

/-- The number of units in it. -/
def bootCount : ℕ :=
  a.bootSize / a.unit

/-- The first bytes of the file, filled up with `0xFF`. -/
def bootData : List UInt8 :=
  a.file.data.take a.bootSize ++ List.replicate (a.bootSize - a.file.data.length) 0xFF

theorem bootSize_pos : 0 < a.bootSize :=
  Nat.sub_pos_of_lt a.eoffset_lt

theorem bootSize_le : a.bootSize ≤ 65536 :=
  Nat.sub_le ..

theorem bootSize_dvd : 4096 ∣ a.bootSize :=
  Nat.dvd_sub (by norm_num) a.eoffset_dvd

theorem eoffset_add_bootSize : a.app.flashEoffsetSize.toNat + a.bootSize = 65536 :=
  Nat.add_sub_cancel' a.eoffset_lt.le

/-- The area is a whole number of units. -/
theorem bootCount_mul : a.bootCount * a.unit = a.bootSize := by
  refine Nat.div_mul_cancel (Nat.dvd_trans ?_ a.bootSize_dvd)
  rcases a.unit_eq with h | h
  · rw [h]
    norm_num
  · rw [h]

theorem bootCount_pos : 0 < a.bootCount := by
  have h := a.bootCount_mul
  have hpos := a.bootSize_pos
  rcases Nat.eq_zero_or_pos a.bootCount with h0 | hcount
  · rw [h0, Nat.zero_mul] at h
    omega
  · exact hcount

theorem length_bootData : a.bootData.length = a.bootSize := by
  rw [bootData, List.length_append, List.length_take, List.length_replicate]
  omega

/-- The bootloader as a buffer. -/
def bootBuffer : UnitBuffer where
  unit := a.app.eraseUnitSize
  data := a.bootData
  count := a.bootCount
  unit_cases := a.unit_cases
  length_data := a.length_bootData.trans a.bootCount_mul.symm
  count_pos := a.bootCount_pos
  length_lt := by
    have h := a.bootSize_le
    rw [a.length_bootData]
    omega

/-- `backupUbootAddr - flashEoffsetSize`. -/
theorem toNat_abs64kLen : (65536 - a.app.flashEoffsetSize).toNat = a.bootSize :=
  UInt32.toNat_sub_of_le _ _ (UInt32.le_iff_toNat_le.mpr a.eoffset_lt.le)

/-- `abs64kLen / eraseUnitSize`. -/
theorem bootCount_eq :
    (65536 - a.app.flashEoffsetSize) / a.app.eraseUnitSize = UInt32.ofNat a.bootCount := by
  apply UInt32.toNat_inj.mp
  rw [UInt32.toNat_div, toNat_abs64kLen]
  exact a.bootBuffer.toNat_count.symm

/-- The first unit and the `(ubootBlockCount - 1) * eraseUnitSize` bytes behind it. -/
theorem unit_add_tail :
    a.unit + ((UInt32.ofNat a.bootCount - 1) * a.app.eraseUnitSize).toNat = a.bootSize := by
  have hpos := a.bootCount_pos
  have hsub : UInt32.ofNat a.bootCount - 1 = UInt32.ofNat (a.bootCount - 1) := by
    rw [UInt32.ofNat_sub hpos]
    rfl
  have htail : (UInt32.ofNat (a.bootCount - 1) * a.app.eraseUnitSize).toNat
      = (a.bootCount - 1) * a.unit := a.bootBuffer.toNat_offset (Nat.sub_le ..)
  rw [hsub, htail, ← a.bootCount_mul, Nat.add_comm, ← Nat.succ_mul]
  exact congrArg (· * a.unit) (Nat.sub_add_cancel hpos)

/-- `m_fileContent->mid(0, abs64kLen)`, filled up. -/
theorem bootData_eq :
    (if UInt32.ofNat (qMid a.file.data (65536 - a.app.flashEoffsetSize)).length
          < 65536 - a.app.flashEoffsetSize then
        qAppend (qMid a.file.data (65536 - a.app.flashEoffsetSize))
          (65536 - a.app.flashEoffsetSize
            - UInt32.ofNat (qMid a.file.data (65536 - a.app.flashEoffsetSize)).length) 0xFF
      else qMid a.file.data (65536 - a.app.flashEoffsetSize)) = a.bootData := by
  have habs := a.toNat_abs64kLen
  have hle := a.bootSize_le
  have hmid : qMid a.file.data (65536 - a.app.flashEoffsetSize) = a.file.data.take a.bootSize := by
    rw [qMid, if_pos (UInt32.lt_iff_toNat_lt.mpr (by rw [habs]; show _ < 2147483648; omega)), habs]
  have hlen : (UInt32.ofNat (a.file.data.take a.bootSize).length).toNat
      = min a.bootSize a.file.data.length := by
    rw [List.length_take]
    exact UInt32.toNat_ofNat_of_lt' (show _ < 2 ^ 32 by omega)
  rw [hmid]
  -- a file that ends early is filled up
  split_ifs with h
  · rw [UInt32.lt_iff_toNat_lt, hlen, habs] at h
    have hcount : (65536 - a.app.flashEoffsetSize
        - UInt32.ofNat (a.file.data.take a.bootSize).length).toNat
        = a.bootSize - a.file.data.length := by
      rw [UInt32.toNat_sub_of_le _ _ (by rw [UInt32.le_iff_toNat_le, hlen, habs]; omega), hlen,
        habs]
      omega
    rw [qAppend, if_pos (UInt32.lt_iff_toNat_lt.mpr (by rw [hcount]; show _ < 2147483648; omega)),
      hcount, bootData]
  · rw [UInt32.lt_iff_toNat_lt, hlen, habs] at h
    rw [bootData, Nat.sub_eq_zero_of_le (by omega)]
    exact (List.append_nil _).symm

end UbootImage

end FwBootloader
