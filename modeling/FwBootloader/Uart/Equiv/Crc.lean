import FwBootloader.Lib.Crc16
import FwBootloader.Uart.Crc
import Mathlib.Tactic.IntervalCases

/-!
## The serial host's checksums are CRC-16/XMODEM

`crc16_eq` and `chipCrc16_eq`: both table-driven loops compute `Crc16.xmodem`.  The tables hold the
remainders of their indices (`crc16tab_getD`, `crcTa_getD`); a step is then the library's lookup
form of one byte.
-/

namespace FwBootloader.Uart

open Crc16

/-- Entry `i` of the table is the remainder of the byte `i`. -/
theorem crc16tab_getD (i : ℕ) (h : i < 256) :
    crc16tab.getD i 0 = shifts 0x1021 8 (UInt16.ofNat i <<< 8) := by
  have htable : crc16tab
      = (List.range 256).map fun i => shifts 0x1021 8 (UInt16.ofNat i <<< 8) := by
    decide +kernel
  rw [htable, List.getD_eq_getElem _ _ (by simpa using h)]
  simp

/-- Entry `i` of the small table is the remainder of the nibble `i`. -/
theorem crcTa_getD (i : ℕ) (h : i < 16) :
    crcTa.getD i 0 = shifts 0x1021 4 (UInt16.ofNat i <<< 12) := by
  have htable : crcTa
      = (List.range 16).map fun i => shifts 0x1021 4 (UInt16.ofNat i <<< 12) := by
    decide +kernel
  rw [htable, List.getD_eq_getElem _ _ (by simpa using h)]
  simp

/-! ### The byte-wise loop -/

/-- Widening the signed character changes nothing: the mask keeps its low byte only. -/
theorem crc16_index (crc : UInt16) (b : UInt8) :
    ((crc.toUInt32 >>> 8) ^^^ b.toInt8.toInt32.toUInt32) &&& (0x00FF : UInt32)
      = ((crc >>> 8) ^^^ b.toUInt16).toUInt32 := by
  have hsext : b.toInt8.toInt32.toUInt32.toBitVec = b.toBitVec.signExtend 32 := rfl
  apply UInt32.toBitVec_inj.mp
  rw [UInt32.toBitVec_and, UInt32.toBitVec_xor, hsext]
  ext i hi
  simp [BitVec.getElem_signExtend]
  interval_cases i <;> simp

/-- The step's 32-bit arithmetic keeps the low 16 bits. -/
theorem toUInt16_shiftLeft_xor (crc w : UInt16) :
    ((crc.toUInt32 <<< 8) ^^^ w.toUInt32).toUInt16 = (crc <<< 8) ^^^ w := by
  apply UInt16.toBitVec_inj.mp
  ext i hi
  simp

/-- The top byte of a remainder, with a byte entering, is a byte. -/
theorem toNat_top_xor_lt (crc : UInt16) (b : UInt8) :
    ((crc >>> 8) ^^^ b.toUInt16).toNat < 256 := by
  have hc := crc.toNat_lt
  have hb := b.toNat_lt
  rw [UInt16.toNat_xor]
  apply Nat.xor_lt_two_pow (n := 8)
  · rw [UInt16.toNat_shiftRight, Nat.shiftRight_eq_div_pow]
    simp only [UInt16.reduceToNat, Nat.reduceMod, Nat.reducePow]
    omega
  · rw [UInt8.toNat_toUInt16]
    exact hb

theorem crc16Step_eq (crc : UInt16) (b : UInt8) : crc16Step crc b = byte 0x1021 crc b := by
  rw [byte_eq_lookup]
  simp only [crc16Step]
  rw [crc16_index, UInt16.toNat_toUInt32, crc16tab_getD _ (toNat_top_xor_lt crc b),
    toUInt16_shiftLeft_xor, UInt16.ofNat_toNat]

/-- **`crc16` of `utils.cpp` is CRC-16/XMODEM.** -/
theorem crc16_eq (buf : List UInt8) : crc16 buf = xmodem buf := by
  have hstep : crc16Step = byte 0x1021 := funext fun c => funext (crc16Step_eq c)
  rw [crc16, hstep, xmodem, remainder]

/-! ### The nibble-wise loop -/

theorem chipCrc16Nibble_eq (crc : UInt16) {x : UInt8} (hx : x.toNat < 16) :
    chipCrc16Nibble crc x = shifts 0x1021 4 (crc ^^^ (x.toUInt16 <<< 12)) := by
  have hc := crc.toNat_lt
  have hda : (crc >>> 12).toUInt8.toNat = (crc >>> 12).toNat := by
    rw [UInt16.toNat_toUInt8, UInt16.toNat_shiftRight, Nat.shiftRight_eq_div_pow]
    simp only [UInt16.reduceToNat, Nat.reduceMod, Nat.reducePow]
    omega
  have hlt : (crc >>> 12).toNat < 2 ^ 4 := by
    rw [UInt16.toNat_shiftRight, Nat.shiftRight_eq_div_pow]
    simp only [UInt16.reduceToNat, Nat.reduceMod, Nat.reducePow]
    omega
  have hidx : ((crc >>> 12).toUInt8 ^^^ x).toNat = ((crc >>> 12) ^^^ x.toUInt16).toNat := by
    rw [UInt8.toNat_xor, hda, UInt16.toNat_xor, UInt8.toNat_toUInt16]
  have hidxlt : ((crc >>> 12) ^^^ x.toUInt16).toNat < 16 := by
    rw [UInt16.toNat_xor, UInt8.toNat_toUInt16]
    exact Nat.xor_lt_two_pow (n := 4) hlt hx
  refine Eq.trans ?_ (@shifts_lookup 0x1021 4 12 rfl (by decide) (by decide) crc x.toUInt16).symm
  simp only [chipCrc16Nibble]
  rw [hidx, crcTa_getD _ hidxlt, UInt16.ofNat_toNat]
  rfl

theorem chipCrc16Step_eq (crc : UInt16) (b : UInt8) :
    chipCrc16Step crc b = byte 0x1021 crc b := by
  have hb := b.toNat_lt
  have hhigh : (b / 16).toNat < 16 := by
    rw [UInt8.toNat_div]
    simp only [UInt8.reduceToNat]
    omega
  have hlow : (b &&& 0x0f).toNat < 16 := by
    rw [UInt8.toNat_and]
    exact Nat.and_lt_two_pow (n := 4) _ (by decide)
  rw [byte_eq_nibbles, chipCrc16Step, chipCrc16Nibble_eq _ hhigh, chipCrc16Nibble_eq _ hlow]

/-- **`chip_crc16` of `updatethread.cpp` is CRC-16/XMODEM.** -/
theorem chipCrc16_eq (bytes : List UInt8) : chipCrc16 bytes = xmodem bytes := by
  have hstep : chipCrc16Step = byte 0x1021 := funext fun c => funext (chipCrc16Step_eq c)
  rw [chipCrc16, hstep, xmodem, remainder]

end FwBootloader.Uart
