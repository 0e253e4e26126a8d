import FwBootloader.Link.Equiv.Device
import FwBootloader.Uart.Equiv.Command

/-!
## Commands under another key

The CRC of a packet is taken over the encrypted bytes and does not depend on the key, so a device
with another key accepts every command packet and decrypts it with the wrong key: each byte is off
by a byte of `hostKey ^ communication_key` (`rx_decrypting`).

* `upgradeTurn_decrypting`: the device then runs the command that this gives.
* `wrongKey_iff`: it erases and writes nothing exactly when that command is `Harmless`;
  `wrongKey_erases` is a pair of keys under which an erase hits another address.
-/

namespace FwBootloader

open Bytes User Framing

variable {σ : Type} (chip : Chip σ)

/-! ### Counting what `jlfs` executes -/

/-- `calls` counts the erases and the writes of at least one byte that `jlfs` has executed.  What
`jlfs_updata_dual_bank_info` does to the flash is left open. -/
structure Records (calls : σ → ℕ) : Prop where
  jlfsFopenByName : ∀ file name mode fs,
    calls (chip.jlfsFopenByName file name mode fs).2.2 = calls fs
  jlfsGetIdleBankInfo : ∀ file mode fs, calls (chip.jlfsGetIdleBankInfo file mode fs).2.2 = calls fs
  jlfsFseek : ∀ file offset fs, calls (chip.jlfsFseek file offset fs).2 = calls fs
  jlfsFread : ∀ file len fs, calls (chip.jlfsFread file len fs).2.2 = calls fs
  jlfsErase : ∀ file len fs,
    calls (chip.jlfsErase file len fs).2.2 = calls fs + if len = 0 then 0 else 1
  jlfsWrite : ∀ file buf fs,
    calls (chip.jlfsWrite file buf fs).2.2 = calls fs + if buf = [] then 0 else 1

/-- The current command is no erase of a known type, no write of at least one byte, and no update of
the dual bank info in which `jlfs` erases or writes. -/
structure Harmless (calls : σ → ℕ) (d : Device σ) : Prop where
  erase : d.opcode = jlSuCmdErase → eraseTypeLen (d.cmd32 CommandItem.eraseType) = 0
  write : d.opcode = jlSuCmdWrite → d.cmd32 CommandItem.writeDataLength = 0
  dualBank : d.opcode = jlSuCmdUpdataDualBankCrc →
    calls (dualBankCall chip d).2.2 = calls d.fs

section Records

variable {chip} {calls : σ → ℕ}

/-- Every other command is harmless. -/
theorem harmless_of_other {d : Device σ} (herase : d.opcode ≠ jlSuCmdErase)
    (hwrite : d.opcode ≠ jlSuCmdWrite) (hdual : d.opcode ≠ jlSuCmdUpdataDualBankCrc) :
    Harmless chip calls d :=
  ⟨fun h => absurd h herase, fun h => absurd h hwrite, fun h => absurd h hdual⟩

/-- What a handled command leaves of the file system. -/
theorem fs_dispatch {d : Device σ} (hfits : CrcReplyFits d) :
    ((dispatch chip).after d).fs = (effectOf chip d).2 := by
  cases ha : answerOf chip d with
  | none =>
    rw [after_of_ok (dispatch_unanswered chip ha)]
    unfold answerOf at ha
    unfold effectOf
    split_ifs at ha ⊢
    rfl
  | some a =>
    obtain ⟨d', hrun, hd'⟩ := dispatch_answered chip hfits ha
    rw [after_of_ok hrun, hd'.fs]

variable (hrec : Records chip calls)
include hrec

theorem Records.readCrcs (l : UInt32) (n : ℕ) (file : JlfsFile) (fs : σ) (buf : Mem) :
    calls (readCrcs chip l n file fs buf).2.2.1 = calls fs := by
  induction n generalizing file fs buf with
  | zero => rfl
  | succ n ih =>
    rw [User.readCrcs]
    dsimp only
    rw [ih, hrec.jlfsFread]

theorem Records.eraseCall (d : Device σ) :
    calls (eraseCall chip d).2.2 = calls d.fs ↔
      eraseTypeLen (d.cmd32 CommandItem.eraseType) = 0 := by
  unfold User.eraseCall
  rw [hrec.jlfsErase, hrec.jlfsFseek]
  split_ifs with h
  · exact iff_of_true rfl h
  · exact iff_of_false (Nat.succ_ne_self _) h

theorem Records.writeCall (d : Device σ) :
    calls (writeCall chip d).2.2 = calls d.fs ↔ d.cmd32 CommandItem.writeDataLength = 0 := by
  have hnil : d.rx.bytes (d.gOps + CommandItem.writeData)
      (d.cmd32 CommandItem.writeDataLength).toNat = [] ↔
        d.cmd32 CommandItem.writeDataLength = 0 := by
    rw [← List.length_eq_zero_iff, Mem.length_bytes, ← UInt32.toNat_inj]
    rfl
  unfold User.writeCall
  rw [hrec.jlfsWrite, hrec.jlfsFseek]
  split_ifs with h
  · exact iff_of_true rfl (hnil.mp h)
  · exact iff_of_false (Nat.succ_ne_self _) fun h0 => h (hnil.mpr h0)

/-- Which handlers erase or write. -/
theorem Records.effectOf (d : Device σ) :
    calls (effectOf chip d).2 = calls d.fs ↔ Harmless chip calls d := by
  unfold User.effectOf
  split_ifs with h1 h2 h3 h4 h5 h6
  · refine iff_of_true ?_ (harmless_of_other (h1 ▸ by decide) (h1 ▸ by decide) (h1 ▸ by decide))
    unfold initCall
    split_ifs
    · exact hrec.jlfsGetIdleBankInfo ..
    · exact hrec.jlfsFopenByName ..
  · refine iff_of_true ?_ (harmless_of_other (h2 ▸ by decide) (h2 ▸ by decide) (h2 ▸ by decide))
    exact (hrec.readCrcs ..).trans (hrec.jlfsFseek ..)
  · rw [hrec.writeCall]
    constructor
    · exact fun h => ⟨fun hop => absurd (h3.symm.trans hop) (by decide), fun _ => h,
        fun hop => absurd (h3.symm.trans hop) (by decide)⟩
    · exact fun h => h.write h3
  · rw [hrec.eraseCall]
    constructor
    · exact fun h => ⟨fun _ => h, fun hop => absurd hop h3,
        fun hop => absurd (h4.symm.trans hop) (by decide)⟩
    · exact fun h => h.erase h4
  · exact iff_of_true rfl (harmless_of_other h4 h3 (h5 ▸ by decide))
  · constructor
    · exact fun h => ⟨fun hop => absurd hop h4, fun hop => absurd hop h3, fun _ => h⟩
    · exact fun h => h.dualBank h6
  · exact iff_of_true rfl (harmless_of_other h4 h3 h6)

/-- **A command erases or writes** exactly when it is not harmless. -/
theorem Records.dispatch (d : Device σ) :
    calls ((dispatch chip).after d).fs = calls d.fs ↔ Harmless chip calls d := by
  by_cases hfits : CrcReplyFits d
  · rw [fs_dispatch hfits, hrec.effectOf]
  · -- a flash CRC command whose block size is zero or whose reply is too long
    obtain ⟨hop, -⟩ := Classical.not_imp.mp hfits
    refine iff_of_true ?_
      (harmless_of_other (hop ▸ by decide) (hop ▸ by decide) (hop ▸ by decide))
    by_cases hb : d.cmd32 CommandItem.crcListBlockSize = 0
    · rw [DevM.after, dispatch_divByZero chip hop hb]
      rfl
    · have hcrcs : calls ((d.taken CommandItem.cmd 1).crcsStored chip).fs = calls d.fs :=
        (hrec.readCrcs ..).trans (hrec.jlfsFseek ..)
      rw [DevM.after, dispatch_flashCrc chip hop hb]
      exact hcrcs

end Records

/-! ### Decrypting with another key -/

/-- The device with the packet of a command under `hostKey` in its receive buffer, decrypted with
the device's own key. -/
def decrypting (hostKey : UInt32) (c : Cmd) (trailing : List UInt8) (d : Device σ) : Device σ :=
  d.loaded (d.rx.write 0 (Uart.makeCmd hostKey c ++ trailing))
    (xorKey chip.communicationKey (xorKey hostKey c.payload))

/-- A byte of the plaintext is off by the bytes of both keys at its index. -/
theorem rx_decrypting (hostKey : UInt32) (c : Cmd) (trailing : List UInt8) (d : Device σ) {i : ℕ}
    (hi : i < c.payload.length) :
    (decrypting chip hostKey c trailing d).rx (4 + i)
      = c.payload.getD i 0 ^^^ (le32 hostKey).getD (i % 4) 0
        ^^^ (le32 chip.communicationKey).getD (i % 4) 0 := by
  have hlen : i < (xorKey chip.communicationKey (xorKey hostKey c.payload)).length := by
    rwa [length_xorKey, length_xorKey]
  show Mem.write _ 4 _ (4 + i) = _
  rw [Mem.write_of_inside _ hlen, List.getD_eq_getElem _ _ hi]
  simp only [xorKey, List.getElem_mapIdx]

variable {chip} in
/-- **A command packet is accepted under any key**, and run as what it is decrypted to. -/
theorem upgradeTurn_decrypting (hcrc : chip.chipCrc16 = Crc16.xmodem) (hostKey : UInt32) (c : Cmd)
    {trailing : List UInt8} (hfits : (Uart.makeCmd hostKey c ++ trailing).length ≤ 4128)
    (d : Device σ) :
    upgradeTurn chip (Uart.makeCmd hostKey c ++ trailing) d
      = dispatch chip (decrypting chip hostKey c trailing d) := by
  set payload := xorKey chip.communicationKey (xorKey hostKey c.payload) with hpayload
  have hframe : Uart.makeCmd hostKey c = replyFrame chip payload := by
    rw [Uart.makeCmd_eq, replyFrame, hpayload, xorKey_xorKey, hcrc, xmodemPacket]
  have hlen : payload.length = c.payload.length := by rw [hpayload, length_xorKey, length_xorKey]
  have h2 : 2 ≤ c.payload.length := by
    cases c <;> simp only [Cmd.payload, List.length_cons] <;> omega
  rw [List.length_append, Uart.makeCmd_eq, Format.length_encode, length_xorKey] at hfits
  rw [decrypting, hframe]
  exact upgradeTurn_replyFrame chip payload (by omega) (by omega) trailing d

/-- **A wrong key keeps a command that the receive buffer can hold from modifying the flash**
exactly when what it is decrypted to is harmless. -/
theorem wrongKey_iff {chip : Chip σ} {calls : σ → ℕ} (hrec : Records chip calls)
    (hcrc : chip.chipCrc16 = Crc16.xmodem) (hostKey : UInt32) (c : Cmd) (trailing : List UInt8)
    (hfits : (Uart.makeCmd hostKey c ++ trailing).length ≤ 4128) (d : Device σ) :
    calls ((upgradeTurn chip (Uart.makeCmd hostKey c ++ trailing)).after d).fs = calls d.fs ↔
      Harmless chip calls (decrypting chip hostKey c trailing d) := by
  have hafter : (upgradeTurn chip (Uart.makeCmd hostKey c ++ trailing)).after d
      = (dispatch chip).after (decrypting chip hostKey c trailing d) := by
    rw [DevM.after, upgradeTurn_decrypting hcrc hostKey c hfits d]
    rfl
  rw [hafter]
  exact hrec.dispatch _

/-! ### Two pairs of keys -/

/-- A chip that also counts. -/
def counting (chip : Chip σ) : Chip (σ × ℕ) where
  communicationKey := chip.communicationKey
  chipCrc16 := chip.chipCrc16
  jlfsGetFlashAlignSize s := chip.jlfsGetFlashAlignSize s.1
  jlfsGetFlashEoffsetSize s := chip.jlfsGetFlashEoffsetSize s.1
  jlfsFopenByName file name mode s :=
    let r := chip.jlfsFopenByName file name mode s.1
    (r.1, r.2.1, r.2.2, s.2)
  jlfsGetIdleBankInfo file mode s :=
    let r := chip.jlfsGetIdleBankInfo file mode s.1
    (r.1, r.2.1, r.2.2, s.2)
  jlfsFseek file offset s :=
    let r := chip.jlfsFseek file offset s.1
    (r.1, r.2, s.2)
  jlfsFread file len s :=
    let r := chip.jlfsFread file len s.1
    (r.1, r.2.1, r.2.2, s.2)
  jlfsErase file len s :=
    let r := chip.jlfsErase file len s.1
    (r.1, r.2.1, r.2.2, s.2 + if len = 0 then 0 else 1)
  jlfsWrite file buf s :=
    let r := chip.jlfsWrite file buf s.1
    (r.1, r.2.1, r.2.2, s.2 + if buf = [] then 0 else 1)
  jlfsGetPidVid s := chip.jlfsGetPidVid s.1
  jlfsUpdataDualBankInfo file crc s :=
    let r := chip.jlfsUpdataDualBankInfo file crc s.1
    (r.1, r.2.1, r.2.2, s.2)

theorem records_counting : Records (counting chip) Prod.snd :=
  ⟨fun _ _ _ _ => rfl, fun _ _ _ => rfl, fun _ _ _ => rfl, fun _ _ _ => rfl, fun _ _ _ => rfl,
    fun _ _ _ => rfl⟩

/-- The sample device with a programmed flash, counting. -/
def countingDevice : Device (Flash × ℕ) :=
  .initial (counting sampleChip) (fun _ => 0, 0)

/-- Under a host key that differs in one bit a request for checksums is decrypted to an erase of no
known type. -/
theorem wrongKey_iff_flashCrc :
    ((upgradeTurn (counting sampleChip)
        (Uart.makeCmd 0xC0FFE8 (.flashCrc 0x1000 0x1000 0x1000) ++ [])).after countingDevice).fs.2
      = countingDevice.fs.2 := by
  refine (wrongKey_iff (records_counting sampleChip) rfl 0xC0FFE8
    (.flashCrc 0x1000 0x1000 0x1000) [] (by decide +kernel) countingDevice).mpr ⟨?_, ?_, ?_⟩
  · decide +kernel
  · decide +kernel
  · exact fun _ => rfl

/-- Under one that differs in two bits an erase of the sector at `0x1000` erases the 256 bytes from
`0x1003` on. -/
theorem wrongKey_erases :
    (0xC3FFEE : UInt32) ≠ (counting sampleChip).communicationKey ∧
      ((upgradeTurn (counting sampleChip) (Uart.makeCmd 0xC3FFEE (.erase 0x1000 2))).after
        countingDevice).fs.2 ≠ countingDevice.fs.2 ∧
      ((upgradeTurn (counting sampleChip) (Uart.makeCmd 0xC3FFEE (.erase 0x1000 2))).after
        countingDevice).fs.1 = Flash.erase (fun _ => 0) 0x1003 256 := by
  refine ⟨by decide, by decide +kernel, ?_⟩
  set d := decrypting (counting sampleChip) 0xC3FFEE (.erase 0x1000 2) [] countingDevice with hd
  have hop : d.opcode = jlSuCmdErase := by decide +kernel
  have haddr : d.cmd32 CommandItem.eraseAddress = 0x1003 := by decide +kernel
  have htype : d.cmd32 CommandItem.eraseType = 1 := by decide +kernel
  have hturn := @upgradeTurn_decrypting _ (counting sampleChip) rfl 0xC3FFEE (.erase 0x1000 2) []
    (by decide +kernel) countingDevice
  have hfs : ((upgradeTurn (counting sampleChip) (Uart.makeCmd 0xC3FFEE (.erase 0x1000 2))).after
      countingDevice).fs = ((dispatch (counting sampleChip)).after d).fs := by
    rw [List.append_nil] at hturn
    rw [DevM.after, hturn]
    rfl
  rw [hfs, fs_dispatch fun h => absurd (hop.symm.trans h) (by decide), effectOf, hop]
  rw [if_neg (by decide), if_neg (by decide), if_neg (by decide), if_pos rfl, eraseCall, haddr,
    htype]
  rfl

end FwBootloader
