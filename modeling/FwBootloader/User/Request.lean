import FwBootloader.Lib.Server
import FwBootloader.User.Equiv.Handlers

/-!
## The language of requests

What the device's commands mean, without packets, buffers and offsets.  A `Request` is read from the
plaintext of a packet by `Request.decode`; `Request.run` says what it does to `jlfs` and what it is
answered, and `Request.session` runs one request after another up to the reboot request.
-/

namespace FwBootloader.User

open Bytes

/-- What a command asks for. -/
inductive Request where
  | deviceInit (fileName : List UInt8) (mode : UInt8)
  | deviceCheck (sdkId : UInt32)
  | erase (address type : UInt32)
  | write (address : UInt32) (data : List UInt8)
  | flashCrc (address len blockSize : UInt32)
  | updataDualBankCrc (crc : UInt16)
  | reboot
  /-- An opcode that the loop has no case for. -/
  | unknown (opcode : UInt8)
  deriving DecidableEq

namespace Request

/-! ### Reading and writing requests -/

/-- The opcodes that the loop has a case for. -/
def known : List UInt8 :=
  [jlSuCmdDeviceInit, jlSuCmdFlashCrc, jlSuCmdWrite, jlSuCmdErase, jlSuCmdDeviceCheck,
    jlSuCmdUpdataDualBankCrc, jlSuCmdReboot]

def opcode : Request → UInt8
  | deviceInit _ _ => jlSuCmdDeviceInit
  | deviceCheck _ => jlSuCmdDeviceCheck
  | erase _ _ => jlSuCmdErase
  | write _ _ => jlSuCmdWrite
  | flashCrc _ _ _ => jlSuCmdFlashCrc
  | updataDualBankCrc _ => jlSuCmdUpdataDualBankCrc
  | reboot => jlSuCmdReboot
  | unknown opcode => opcode

/-- The parameters, which stand behind the opcode and the status byte. -/
def params : Request → List UInt8
  | deviceInit fileName mode => fileName ++ [mode]
  | deviceCheck sdkId => le32 sdkId
  | erase address type => le32 address ++ le32 type
  | write address data => le32 address ++ le32 (UInt32.ofNat data.length) ++ data
  | flashCrc address len blockSize => le32 address ++ le32 len ++ le32 blockSize
  | updataDualBankCrc crc => le16 crc
  | reboot => []
  | unknown _ => []

/-- The fields have the sizes that the packet gives them. -/
def Fits : Request → Prop
  | deviceInit fileName _ => fileName.length = 16
  | write _ data => data.length < 2 ^ 32
  | unknown opcode => opcode ∉ known
  | _ => True

/-- A byte, a word and a double word of a plaintext. -/
def byteAt (p : List UInt8) (i : ℕ) : UInt8 :=
  p.getD i 0

def wordAt (p : List UInt8) (i : ℕ) : UInt16 :=
  ofLe16 (byteAt p i) (byteAt p (i + 1))

def dwordAt (p : List UInt8) (i : ℕ) : UInt32 :=
  ofLe32 (byteAt p i) (byteAt p (i + 1)) (byteAt p (i + 2)) (byteAt p (i + 3))

/-- How many bytes of a plaintext its request needs. -/
def lenOf (p : List UInt8) : ℕ :=
  if byteAt p 0 = jlSuCmdDeviceInit then 19
  else if byteAt p 0 = jlSuCmdFlashCrc then 14
  else if byteAt p 0 = jlSuCmdWrite then 10 + (dwordAt p 6).toNat
  else if byteAt p 0 = jlSuCmdErase then 10
  else if byteAt p 0 = jlSuCmdDeviceCheck then 6
  else if byteAt p 0 = jlSuCmdUpdataDualBankCrc then 4
  else 1

/-- The request at the start of a plaintext that has that many bytes. -/
def ofBytes (p : List UInt8) : Request :=
  if byteAt p 0 = jlSuCmdDeviceInit then deviceInit ((p.drop 2).take 16) (byteAt p 18)
  else if byteAt p 0 = jlSuCmdFlashCrc then flashCrc (dwordAt p 2) (dwordAt p 6) (dwordAt p 10)
  else if byteAt p 0 = jlSuCmdWrite then
    write (dwordAt p 2) ((p.drop 10).take (dwordAt p 6).toNat)
  else if byteAt p 0 = jlSuCmdErase then erase (dwordAt p 2) (dwordAt p 6)
  else if byteAt p 0 = jlSuCmdDeviceCheck then deviceCheck (dwordAt p 2)
  else if byteAt p 0 = jlSuCmdUpdataDualBankCrc then updataDualBankCrc (wordAt p 2)
  else if byteAt p 0 = jlSuCmdReboot then reboot
  else unknown (byteAt p 0)

def decode (p : List UInt8) : Option Request :=
  if lenOf p ≤ p.length then some (ofBytes p) else none

/-- The request that ends a session. -/
def isReboot (r : Request) : Bool :=
  decide (r = reboot)

/-! ### Running requests -/

section Run

variable {σ : Type} (chip : Chip σ)

/-- The checksums of `n` blocks of `l` bytes, read one behind the other. -/
def checksums (l : UInt32) : ℕ → JlfsFile × σ → List UInt16 × JlfsFile × σ
  | 0, s => ([], s)
  | n + 1, s =>
    let r := chip.jlfsFread s.1 l s.2
    let rest := checksums l n r.2
    (chip.chipCrc16 r.1 :: rest.1, rest.2)

/-- What a request is answered and what it leaves of `upgrade_file` and `jlfs`.  `l` is the align
size that was read before the loop.  The identity is that of a check for the device itself. -/
def run (l : UInt32) : Request → JlfsFile × σ → Option Answer × JlfsFile × σ
  | deviceInit fileName mode, s =>
    let r : UInt8 × JlfsFile × σ :=
      if mode = 3 then
        let r := chip.jlfsGetIdleBankInfo s.1 mode.toUInt32 s.2
        (r.1.toUInt8, r.2)
      else chip.jlfsFopenByName s.1 fileName mode s.2
    (some (if r.1 ≠ 0 then .deviceInitError
      else .deviceInit r.2.1.addr r.2.1.size (chip.jlfsGetFlashEoffsetSize r.2.2)
        (chip.jlfsGetFlashAlignSize r.2.2)), r.2)
  | deviceCheck _, s =>
    (some (.deviceCheck (chip.jlfsGetPidVid s.2).2 (chip.jlfsGetPidVid s.2).1), s)
  | erase address type, s =>
    let s := chip.jlfsFseek s.1 address s.2
    let r := chip.jlfsErase s.1 (eraseTypeLen type) s.2
    (some (.erase (if r.1 = 0 then jlSuCmdEraseError else jlSuCmdSuss)), r.2)
  | write address data, s =>
    let s := chip.jlfsFseek s.1 address s.2
    let r := chip.jlfsWrite s.1 data s.2
    (some (.write (if r.1 ≠ UInt32.ofNat data.length then jlSuCmdWriteError else jlSuCmdSuss)), r.2)
  | flashCrc address len blockSize, s =>
    let s := chip.jlfsFseek s.1 address s.2
    let r := checksums chip l (len / blockSize).toNat s
    (some (.flashCrc r.1), r.2)
  | updataDualBankCrc crc, s => (some .dualBank, (chip.jlfsUpdataDualBankInfo s.1 crc s.2).2)
  | reboot, s => (none, s)
  | unknown _, s => (none, s)

/-- The answers to a sequence of requests, up to the reboot request, and what it leaves. -/
def session (l : UInt32) : List Request → JlfsFile × σ → List Answer × JlfsFile × σ :=
  Server.session (run chip l) isReboot

end Run

/-- The request is one that the device can answer in its 64 bytes, for its own product. -/
def Proper : Request → Prop
  | deviceCheck sdkId => sdkId = 0x12345678
  | flashCrc _ len blockSize => blockSize ≠ 0 ∧ (len / blockSize).toNat ≤ 28
  | _ => True

instance : (r : Request) → Decidable r.Proper
  | deviceCheck sdkId => inferInstanceAs (Decidable (sdkId = 0x12345678))
  | flashCrc _ len blockSize =>
    inferInstanceAs (Decidable (blockSize ≠ 0 ∧ (len / blockSize).toNat ≤ 28))
  | deviceInit _ _ => .isTrue trivial
  | erase _ _ => .isTrue trivial
  | write _ _ => .isTrue trivial
  | updataDualBankCrc _ => .isTrue trivial
  | reboot => .isTrue trivial
  | unknown _ => .isTrue trivial

end Request

/-! ### Chunks -/

variable {σ : Type} (chip : Chip σ)

/-- The plaintext of the packet for which a chunk is accepted. -/
def opened (chunk : List UInt8) : Option (List UInt8) :=
  (encCmdData chip (Mem.write (fun _ => 0) 0 chunk) chunk.length).map fun r =>
    r.2.bytes (r.1 + 4) (ofLe16 (r.2 (r.1 + 2)) (r.2 (r.1 + 3))).toNat

/-- The request that a chunk carries. -/
def requestOf (chunk : List UInt8) : Option Request :=
  (opened chip chunk).bind Request.decode

end FwBootloader.User
