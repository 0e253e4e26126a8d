import FwBootloader.Uart.History
import FwBootloader.User.Equiv.Loop
import FwBootloader.ZoneDevice

/-!
## The device's loop on a command packet

`upgradeTurn_payload`: a turn of `upgrade_loop` on the packet of a command that `Fits`, whatever
stands behind it in the receive buffer, does to the flash what the `ZoneDevice` does and sends the
answer's packet.  `readCrcs_eq`: over a file layer that reads at the file's position, the checksums
are those of consecutive blocks.
-/

namespace FwBootloader

open Bytes User Framing

variable (z : Zone) (key : UInt32)

/-! ### The packet of any command -/

section Packet

variable {σ : Type}

theorem opcode_loaded (c : Cmd) (d : Device σ) (buf : Mem) :
    (d.loaded buf c.payload).opcode = Cmd.opcode c := by
  cases c with
  | deviceInit area mode => exact cmd8_loaded d buf [] _ _ rfl rfl
  | deviceCheck sdkId => exact cmd8_loaded d buf [] _ _ rfl rfl
  | erase address type => exact cmd8_loaded d buf [] _ _ rfl rfl
  | write address len content => exact cmd8_loaded d buf [] _ _ rfl rfl
  | flashCrc address len blockSize => exact cmd8_loaded d buf [] _ _ rfl rfl
  | reboot => exact cmd8_loaded d buf [] _ _ rfl rfl

/-- The parameters of a flash CRC command. -/
theorem crcParams_loaded (d : Device σ) (buf : Mem) (address len blockSize : UInt32) :
    let d₁ := d.loaded buf (Cmd.flashCrc address len blockSize).payload
    d₁.cmd32 CommandItem.crcListAddress = address ∧ d₁.cmd32 CommandItem.crcListLen = len ∧
      d₁.cmd32 CommandItem.crcListBlockSize = blockSize := by
  refine ⟨?_, ?_, ?_⟩
  · exact cmd32_loaded d buf [_, _] (le32 len ++ le32 blockSize) address
      (by rw [List.append_assoc]; rfl) rfl
  · exact cmd32_loaded d buf (_ :: _ :: le32 address) (le32 blockSize) len rfl rfl
  · exact cmd32_loaded d buf (_ :: _ :: (le32 address ++ le32 len)) [] blockSize
      (List.append_nil _).symm rfl

/-- An intact packet whose length field is zero has a byte of the header's checksum where the body
starts. -/
theorem head_of_declared_zero {b : UInt8} {q : List UInt8}
    (hzero : Format.declared (xmodemPacket.encode (b :: q)) = 0)
    (hintact : xmodemPacket.Intact (xmodemPacket.encode (b :: q))) : b = 0xE3 := by
  obtain ⟨c, hc⟩ : ∃ c, (xmodemPacket.encode (b :: q)).getD 5 0 = c := ⟨_, rfl⟩
  have hlen : UInt16.ofNat (b :: q).length = 0 := by
    apply UInt16.toNat_inj.mp
    rw [← ofLe16_le16 (UInt16.ofNat (b :: q).length)]
    exact hzero
  have hhead : (xmodemPacket.encode (b :: q)).take 4 = [0xAA, 0x55, 0, 0] := by
    show xmodemPacket.header (b :: q).length = _
    rw [Format.header, hlen]
    rfl
  have hval : Crc16.xmodem [0xAA, 0x55, 0, 0] = 0x37E3 := by decide +kernel
  have hfour : (xmodemPacket.encode (b :: q)).getD 4 0 = b := rfl
  have hcrc (l : List UInt8) : xmodemPacket.crc l = Crc16.xmodem l := rfl
  have hcheck : ofLe16 b c = 0x37E3 := by
    rw [Format.Intact, hzero, Nat.add_zero, Nat.add_zero, hc, hfour, hhead, hcrc, hval] at hintact
    exact hintact
  have hnat : (ofLe16 b c).toNat = 0x37E3 := congrArg UInt16.toNat hcheck
  rw [toNat_ofLe16] at hnat
  have hlt := b.toNat_lt
  exact UInt8.toNat_inj.mp (by rw [show (0xE3 : UInt8).toNat = 0xE3 from rfl]; omega)

/-- **A laid out packet is accepted when the part that its length field delimits is intact**, and
its first byte is decrypted for the opcode; without a body for the device that is a byte of the
checksum. -/
theorem accepted_of_intact {chip : Chip σ} (hcrc : chip.chipCrc16 = Crc16.xmodem) {b : UInt8}
    {q : List UInt8} (hq : q ≠ []) (hintact : xmodemPacket.Intact (xmodemPacket.encode (b :: q)))
    (trailing : List UInt8) (d : Device σ) :
    ∃ e, accepted chip (xmodemPacket.encode (b :: q) ++ trailing) d = some e ∧ e.fs = d.fs ∧
      e.opcode = if Format.declared (xmodemPacket.encode (b :: q)) = 0 then 0xE3
        else b ^^^ chip.communicationKey.toUInt8 := by
  have hpos := List.length_pos_iff.mpr hq
  have hsome := encCmdData_delimited chip (b :: q) (by rw [List.length_cons]; omega) trailing d.rx
  rw [show packet chip.chipCrc16 = xmodemPacket by rw [hcrc, xmodemPacket]] at hsome
  dsimp only at hsome
  rw [accepted, hsome, if_pos hintact]
  set frame := xmodemPacket.encode (b :: q) with hframe
  set stream := d.rx.write 0 (frame ++ trailing) with hstream
  refine ⟨_, rfl, rfl, ?_⟩
  show Mem.write _ 4 _ 4 = _
  rcases hdecl : Format.declared frame with _ | n
  · -- the opcode is not decrypted
    have hfour : stream 4 = b :=
      @Mem.write_of_inside d.rx 0 4 (frame ++ trailing) (by
        rw [List.length_append, hframe, Format.length_encode]
        omega)
    rw [if_pos rfl, ← head_of_declared_zero hdecl hintact, ← hfour]
    rfl
  · rw [if_neg (Nat.succ_ne_zero n), List.take_succ_cons, encDecData]
    obtain ⟨l, hl, -⟩ := xorKey_cons chip.communicationKey b (q.take n)
    rw [hl]
    exact @Mem.write_of_inside _ 4 0 _ (by simp)

/-- Otherwise it is rejected. -/
theorem accepted_of_broken {chip : Chip σ} (hcrc : chip.chipCrc16 = Crc16.xmodem) {b : UInt8}
    {q : List UInt8} (hq : q ≠ [])
    (hbroken : ¬ xmodemPacket.Intact (xmodemPacket.encode (b :: q))) (trailing : List UInt8)
    (d : Device σ) : accepted chip (xmodemPacket.encode (b :: q) ++ trailing) d = none := by
  have hpos := List.length_pos_iff.mpr hq
  have hnone := encCmdData_delimited chip (b :: q) (by rw [List.length_cons]; omega) trailing d.rx
  rw [show packet chip.chipCrc16 = xmodemPacket by rw [hcrc, xmodemPacket]] at hnone
  dsimp only at hnone
  rw [accepted, hnone, if_neg hbroken]
  rfl

/-- Whatever its length field says, an accepted packet is taken for the command that its plaintext
starts with, or for none that the loop knows. -/
theorem opcode_of_accepted {chip : Chip σ} (hcrc : chip.chipCrc16 = Crc16.xmodem) {b : UInt8}
    {p : List UInt8} (hp : p ≠ []) {d d₁ : Device σ}
    (h : accepted chip (replyFrame chip (b :: p)) d = some d₁) :
    d₁.opcode = b ∨ d₁.opcode = 0xE3 := by
  obtain ⟨q, hcons, hlen⟩ := xorKey_cons chip.communicationKey b p
  have hq : q ≠ [] := List.length_pos_iff.mp (hlen ▸ List.length_pos_iff.mpr hp)
  have hframe : replyFrame chip (b :: p)
      = xmodemPacket.encode ((b ^^^ chip.communicationKey.toUInt8) :: q) ++ [] := by
    rw [List.append_nil, replyFrame, hcons, hcrc, xmodemPacket]
  rw [hframe] at h
  by_cases hintact : xmodemPacket.Intact
      (xmodemPacket.encode ((b ^^^ chip.communicationKey.toUInt8) :: q))
  · obtain ⟨e, he, -, hop⟩ := accepted_of_intact hcrc hq hintact [] d
    obtain rfl := Option.some.inj (he.symm.trans h)
    split_ifs at hop
    · exact .inr hop
    · left
      rw [hop, UInt8.xor_assoc, UInt8.xor_self, UInt8.xor_zero]
  · cases (accepted_of_broken hcrc hq hintact [] d).symm.trans h

/-- A command that can be answered is answered with a reply that fits its length field. -/
theorem crcReplyFits_of_accepted {chip : Chip σ} (hcrc : chip.chipCrc16 = Crc16.xmodem) {c : Cmd}
    (hfits : Uart.ReplyFits c) {d d₁ : Device σ}
    (h : accepted chip (replyFrame chip c.payload) d = some d₁) :
    CrcReplyFits d₁ ∧ (d₁.opcode = jlSuCmdFlashCrc → flashCrcCount d₁ ≤ 16) := by
  have hother (hop : d₁.opcode ≠ jlSuCmdFlashCrc) :
      CrcReplyFits d₁ ∧ (d₁.opcode = jlSuCmdFlashCrc → flashCrcCount d₁ ≤ 16) :=
    ⟨fun heq => absurd heq hop, fun heq => absurd heq hop⟩
  -- every other command is taken for itself, or for none the device knows
  have hshort {b : UInt8} {p : List UInt8} (hc : c.payload = b :: p) (hp : p ≠ [])
      (hb : b ≠ jlSuCmdFlashCrc) : d₁.opcode ≠ jlSuCmdFlashCrc := by
    rw [hc] at h
    rcases opcode_of_accepted hcrc hp h with hop | hop
    · rwa [hop]
    · rw [hop]
      decide
  cases c with
  | flashCrc address len blockSize =>
    set payload := (Cmd.flashCrc address len blockSize).payload with hpayload
    obtain ⟨hsome, -⟩ := encCmdData_frame chip payload (by simp [hpayload, Cmd.payload])
      (by simp [hpayload, Cmd.payload]) d.rx
    have hd₁ : d₁ = d.loaded (d.rx.write 0 (replyFrame chip payload)) payload := by
      rw [accepted, replyFrame, hsome] at h
      exact (Option.some.inj h).symm
    obtain ⟨-, hlen, hsize⟩ := crcParams_loaded d (d.rx.write 0 (replyFrame chip payload)) address
      len blockSize
    rw [← hpayload, ← hd₁] at hlen hsize
    obtain ⟨hzero, hcount⟩ := hfits
    have hle : flashCrcCount d₁ ≤ 16 := by
      rw [flashCrcCount, hlen, hsize]
      exact hcount
    exact ⟨fun _ => ⟨by rwa [hsize], by omega⟩, fun _ => hle⟩
  | deviceInit area mode => exact hother (hshort rfl (by rintro ⟨⟩) (by decide))
  | deviceCheck sdkId => exact hother (hshort rfl (by rintro ⟨⟩) (by decide))
  | erase address type => exact hother (hshort rfl (by rintro ⟨⟩) (by decide))
  | write address len content => exact hother (hshort rfl (by rintro ⟨⟩) (by decide))
  | reboot => exact hother (hshort rfl (by rintro ⟨⟩) (by decide))

end Packet

/-! ### On a device with a NOR flash -/

/-- `jlfs_fread` reads at the file's position and advances it, and `jlfs_fseek` sets it, on the
flash that `view` finds in the state of `jlfs`. -/
structure ReadsFlash (chip : Chip σ) (view : σ → Flash) : Prop where
  seek : ∀ file offset fs, (chip.jlfsFseek file offset fs).1.pos = offset ∧
    view (chip.jlfsFseek file offset fs).2 = view fs
  read : ∀ file len fs, (chip.jlfsFread file len fs).1 = (view fs).read file.pos len.toNat ∧
    (chip.jlfsFread file len fs).2.1.pos = file.pos + len ∧
    view (chip.jlfsFread file len fs).2.2 = view fs

theorem readsFlash_norChip (crc : List UInt8 → UInt16) : ReadsFlash (norChip z key crc) id :=
  ⟨fun _ _ _ => ⟨rfl, rfl⟩, fun _ _ _ => ⟨rfl, rfl, rfl⟩⟩

/-- Such a device reads every block whole. -/
theorem readCrcs_eq {chip : Chip σ} {view : σ → Flash} (hread : ReadsFlash chip view)
    (hcrc : chip.chipCrc16 = Crc16.xmodem) (l : UInt32) (n : ℕ) (file : JlfsFile) (fs : σ)
    (buf : Mem) :
    (readCrcs chip l n file fs buf).1 = blockCrcs (view fs) file.pos l n ∧
      view (readCrcs chip l n file fs buf).2.2.1 = view fs := by
  induction n generalizing file fs buf with
  | zero => exact ⟨rfl, rfl⟩
  | succ n ih =>
    obtain ⟨hdata, hpos, hview⟩ := hread.read file l fs
    set data := (chip.jlfsFread file l fs).1
    obtain ⟨ih1, ih2⟩ := ih (chip.jlfsFread file l fs).2.1 (chip.jlfsFread file l fs).2.2
      (buf.write 0 data)
    rw [hview] at ih1 ih2
    have hblock : (buf.write 0 data).bytes 0 l.toNat = data := by
      have h := Mem.bytes_write_self buf 0 data
      rwa [hdata, Flash.length_read, ← hdata] at h
    refine ⟨?_, ih2⟩
    rw [blockCrcs_succ, ← hdata, ← hpos, ← ih1, readCrcs, hcrc]
    dsimp only
    rw [hblock]

/-- The command's answer and its effect on the flash are those of the abstract device. -/
theorem answerOf_loaded {c : Cmd} (hfits : Fits c) (d : Device Flash) (buf : Mem)
    (halign : d.flashAlignsize = z.alignSize) :
    answerOf (norChip z key Crc16.xmodem) (d.loaded buf c.payload) = ZoneDevice.answer z d.fs c ∧
      (effectOf (norChip z key Crc16.xmodem) (d.loaded buf c.payload)).2
        = ZoneDevice.step d.fs c := by
  set chip := norChip z key Crc16.xmodem with hchip
  have hop := opcode_loaded c d buf
  unfold answerOf effectOf
  rw [hop]
  cases c with
  | deviceInit area mode =>
    set d₁ := d.loaded buf (Cmd.deviceInit area mode).payload with hd₁
    -- either call gives the zone's file
    have hcall : initCall chip d₁ = (0, ⟨z.zoneAddr, z.upgradeLen, 0, 0⟩, d.fs) := by
      unfold initCall
      split_ifs <;> rfl
    have hinit : (Cmd.deviceInit area mode).opcode = jlSuCmdDeviceInit := rfl
    rw [if_pos hinit, if_pos hinit, initAnswer, hcall]
    exact ⟨rfl, rfl⟩
  | deviceCheck sdkId =>
    set d₁ := d.loaded buf (Cmd.deviceCheck sdkId).payload with hd₁
    have hsdk : d₁.cmd32 CommandItem.deviceCheckSdkId = sdkId :=
      cmd32_loaded d buf [_, _] [] sdkId (List.append_nil _).symm rfl
    show some (deviceCheckAnswer chip d₁) = _ ∧ d.fs = _
    rw [deviceCheckAnswer, if_pos (hsdk.trans hfits)]
    exact ⟨rfl, rfl⟩
  | erase address type =>
    set d₁ := d.loaded buf (Cmd.erase address type).payload with hd₁
    have haddr : d₁.cmd32 CommandItem.eraseAddress = address :=
      cmd32_loaded d buf [_, _] (le32 type) address rfl rfl
    have htype : d₁.cmd32 CommandItem.eraseType = type :=
      cmd32_loaded d buf (_ :: _ :: le32 address) [] type (List.append_nil _).symm rfl
    show some (eraseAnswer chip d₁) = _ ∧ (eraseCall chip d₁).2.2 = _
    have hcall : eraseCall chip d₁ = (1, { d.upgradeFile with pos := address },
        Flash.erase d.fs address (eraseTypeLen type).toNat) := by
      rw [eraseCall, haddr, htype]
      rfl
    rw [eraseAnswer, hcall]
    exact ⟨rfl, rfl⟩
  | write address len content =>
    set d₁ := d.loaded buf (Cmd.write address len content).payload with hd₁
    have haddr : d₁.cmd32 CommandItem.writeAddress = address :=
      cmd32_loaded d buf [_, _] (le32 len ++ content) address (by rw [List.append_assoc]; rfl) rfl
    have hlen : d₁.cmd32 CommandItem.writeDataLength = len :=
      cmd32_loaded d buf (_ :: _ :: le32 address) content len rfl rfl
    have hdata : d₁.rx.bytes (d₁.gOps + CommandItem.writeData) len.toNat = content :=
      bytes_loaded d buf (_ :: _ :: (le32 address ++ le32 len)) content [] (List.append_nil _).symm
        rfl hfits.1
    -- the whole length is reported as written
    have hcount : UInt32.ofNat content.length = len := by rw [hfits.1, UInt32.ofNat_toNat]
    have hcall : writeCall chip d₁ = (len, { d.upgradeFile with pos := address + len },
        Flash.program d.fs address content) := by
      rw [writeCall, haddr, hlen, hdata, ← hcount]
      rfl
    show some (writeAnswer chip d₁) = _ ∧ (writeCall chip d₁).2.2 = _
    rw [writeAnswer, hcall, hlen]
    exact ⟨congrArg (fun st => some (Answer.write st)) (if_neg (not_not.mpr rfl)), rfl⟩
  | flashCrc address len blockSize =>
    set d₁ := d.loaded buf (Cmd.flashCrc address len blockSize).payload with hd₁
    obtain ⟨haddr, hlen, hsize⟩ := crcParams_loaded d buf address len blockSize
    have hcall : flashCrcCall chip d₁ = readCrcs chip z.alignSize (len / blockSize).toNat
        { d.upgradeFile with pos := address } d.fs d.globalBuffer := by
      rw [flashCrcCall, flashCrcCount, haddr, hlen, hsize, ← halign]
      rfl
    obtain ⟨hcrcs, hflash⟩ := readCrcs_eq (readsFlash_norChip z key Crc16.xmodem) rfl z.alignSize
      (len / blockSize).toNat { d.upgradeFile with pos := address } d.fs d.globalBuffer
    show some (Answer.flashCrc (flashCrcCall chip d₁).1) = _ ∧ (flashCrcCall chip d₁).2.2.1 = _
    rw [hcall, hcrcs]
    exact ⟨rfl, hflash⟩
  | reboot => exact ⟨rfl, rfl⟩

/-- The answers to commands that fit have at most 16 checksums. -/
theorem length_of_answer {flash : Flash} {c : Cmd} (hfits : Fits c) {crcs : List UInt16}
    (h : ZoneDevice.answer z flash c = some (.flashCrc crcs)) : crcs.length ≤ 16 := by
  cases c with
  | flashCrc address len blockSize =>
    obtain rfl := Answer.flashCrc.inj (Option.some.inj h)
    rw [length_blockCrcs]
    exact hfits.2
  | _ => simp [ZoneDevice.answer] at h

/-- A request for checksums is one that fits. -/
theorem crcCount_loaded {σ : Type} {c : Cmd} (hfits : Fits c) (d : Device σ) (buf : Mem)
    (hop : (d.loaded buf c.payload).opcode = jlSuCmdFlashCrc) :
    (d.loaded buf c.payload).cmd32 CommandItem.crcListBlockSize ≠ 0 ∧
      flashCrcCount (d.loaded buf c.payload) ≤ 16 := by
  rw [opcode_loaded c d buf] at hop
  cases c with
  | flashCrc address len blockSize =>
    obtain ⟨-, hlen, hsize⟩ := crcParams_loaded d buf address len blockSize
    rw [flashCrcCount, hlen, hsize]
    exact hfits
  | _ => exact absurd hop (by simp only [Cmd.opcode]; decide)

/-- **A turn of the loop on a command packet is a step of the abstract device.** -/
theorem upgradeTurn_payload {c : Cmd} (hfits : Fits c) (trailing : List UInt8)
    {d : Device Flash} (halign : d.flashAlignsize = z.alignSize) :
    let chip := norChip z key Crc16.xmodem
    ∃ d', upgradeTurn chip (replyFrame chip c.payload ++ trailing) d
        = .ok (decide (c = .reboot)) d' ∧
      d'.sent = d.sent ++ (ZoneDevice.answer z d.fs c).toList.map
        (fun a => replyFrame chip a.payload) ∧
      d'.fs = ZoneDevice.step d.fs c ∧ d'.flashAlignsize = z.alignSize := by
  intro chip
  obtain ⟨h2, hlt⟩ := length_payload hfits
  set buf := d.rx.write 0 (replyFrame chip c.payload ++ trailing) with hbuf
  have hturn : upgradeTurn chip (replyFrame chip c.payload ++ trailing) d
      = dispatch chip (d.loaded buf c.payload) :=
    upgradeTurn_replyFrame chip c.payload h2 (by omega) trailing d
  rw [hturn]
  obtain ⟨hans, heff⟩ := answerOf_loaded z key hfits d buf halign
  have hop : (d.loaded buf c.payload).opcode = c.opcode := opcode_loaded c d buf
  cases ha : ZoneDevice.answer z d.fs c with
  | none =>
    have hc : c = .reboot := by cases c <;> simp [ZoneDevice.answer] at ha; rfl
    subst hc
    exact ⟨_, dispatch_unanswered chip (hans.trans ha), (List.append_nil _).symm, rfl, halign⟩
  | some a =>
    have hc : c ≠ .reboot := by rintro rfl; cases ha
    have hcrc : CrcReplyFits (d.loaded buf c.payload) := by
      intro hcrcOp
      obtain ⟨hzero, hcount⟩ := crcCount_loaded hfits d buf hcrcOp
      exact ⟨hzero, by omega⟩
    obtain ⟨d', hrun, hd'⟩ := dispatch_answered chip hcrc (hans.trans ha)
    refine ⟨d', by rw [hrun, decide_eq_false hc], hd'.sent, hd'.fs.trans heff,
      hd'.flashAlignsize.trans halign⟩

end FwBootloader
