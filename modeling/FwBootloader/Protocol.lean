import FwBootloader.Lib.Bytes
import FwBootloader.Lib.Crc16
import FwBootloader.Lib.Framing

/-!
## The packet format of the update protocol

A packet is `AA 55`, the length of its body as a little-endian word, the encrypted body (opcode,
answer status, parameters), and the CRC of everything before it.  Both directions use it.
`layout_eq`: the hosts lay out this packet.
-/

namespace FwBootloader

open Bytes Framing

/-- The packet format over a checksum function. -/
def packet (crc : List UInt8 → UInt16) : Framing.Format where
  m0 := 0xAA
  m1 := 0x55
  crc := crc
  markers_ne := by decide

/-- The packet format as the protocol document gives it, with CRC-CCITT (XModem). -/
def xmodemPacket : Framing.Format :=
  packet Crc16.xmodem

/-- Adding up the piece lengths gives the length of the whole body. -/
theorem foldl_bodyLen (bodys : List (List UInt8)) (n : ℕ) :
    bodys.foldl (fun n v => n + UInt32.ofNat v.length) (UInt32.ofNat n)
      = UInt32.ofNat (n + bodys.flatten.length) := by
  induction bodys generalizing n with
  | nil => rfl
  | cons v bodys ih =>
    rw [List.foldl_cons, ← UInt32.ofNat_add, ih, List.flatten_cons, List.length_append,
      Nat.add_assoc]

/-- The length bytes of `makeCommand` are the little-endian length. -/
theorem lengthBytes_eq (n : ℕ) :
    [(UInt32.ofNat n + 2).toUInt8, ((UInt32.ofNat n + 2) >>> 8).toUInt8]
      = le16 (UInt16.ofNat (n + 2)) := by
  have hlow : (UInt32.ofNat n + 2).toUInt8 = (UInt16.ofNat (n + 2)).toUInt8 := by
    apply UInt8.toNat_inj.mp
    simp only [UInt32.toNat_toUInt8, UInt32.toNat_add, UInt32.toNat_ofNat', UInt16.toNat_toUInt8,
      UInt16.toNat_ofNat', UInt32.reduceToNat]
    omega
  have hhigh : ((UInt32.ofNat n + 2) >>> 8).toUInt8 = (UInt16.ofNat (n + 2) >>> 8).toUInt8 := by
    apply UInt8.toNat_inj.mp
    simp only [UInt32.toNat_toUInt8, UInt32.toNat_shiftRight, UInt32.toNat_add,
      UInt32.toNat_ofNat', UInt16.toNat_toUInt8, UInt16.toNat_shiftRight, UInt16.toNat_ofNat',
      Nat.shiftRight_eq_div_pow, UInt32.reduceToNat, UInt16.reduceToNat, Nat.reduceMod,
      Nat.reducePow]
    omega
  rw [hlow, hhigh, le16]

/-- **The hosts' layout of a command is the packet of the encrypted opcode, status and body.** -/
theorem layout_eq (key : UInt32) (opcode status : UInt8) (bodys : List (List UInt8)) :
    let bodyLen : UInt32 := bodys.foldl (fun n v => n + UInt32.ofNat v.length) 0
    let p := [0xAA, 0x55, (bodyLen + 2).toUInt8, ((bodyLen + 2) >>> 8).toUInt8]
      ++ xorKey key (opcode :: status :: bodys.flatten)
    p ++ le16 (Crc16.xmodem p)
      = xmodemPacket.encode (xorKey key (opcode :: status :: bodys.flatten)) := by
  intro bodyLen p
  have hlen : bodyLen = UInt32.ofNat bodys.flatten.length := by
    have h := foldl_bodyLen bodys 0
    rwa [Nat.zero_add] at h
  have hhead : [0xAA, 0x55, (bodyLen + 2).toUInt8, ((bodyLen + 2) >>> 8).toUInt8]
      = xmodemPacket.header (xorKey key (opcode :: status :: bodys.flatten)).length := by
    rw [hlen, length_xorKey, List.length_cons, List.length_cons, Format.header, ← lengthBytes_eq]
    rfl
  have hp : p = xmodemPacket.header (xorKey key (opcode :: status :: bodys.flatten)).length
      ++ xorKey key (opcode :: status :: bodys.flatten) := by
    rw [← hhead]
  have hcrc (l : List UInt8) : xmodemPacket.crc l = Crc16.xmodem l := rfl
  rw [hp, Format.encode, hcrc]

end FwBootloader
