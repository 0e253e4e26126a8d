import FwBootloader.User.Equiv.Handlers
import FwBootloader.User.Equiv.Receive

/-!
## One turn of the device's loop

`dispatch_answered`: what the command in the receive buffer is answered (`answerOf`), which of its
bytes are taken (`takesOf`) and what `jlfs` is left with (`effectOf`), for every command but those
flash CRC commands whose reply does not fit its length field.
-/

namespace FwBootloader.User

open Bytes DevM

variable {σ : Type} (chip : Chip σ)

/-- The opcode of the current command. -/
def Device.opcode (d : Device σ) : UInt8 :=
  d.cmd8 CommandItem.cmd

/-- The answer to the current command, if it is one that is answered. -/
def answerOf (d : Device σ) : Option Answer :=
  if d.opcode = jlSuCmdDeviceInit then some (initAnswer chip d)
  else if d.opcode = jlSuCmdFlashCrc then some (.flashCrc (flashCrcCall chip d).1)
  else if d.opcode = jlSuCmdWrite then some (writeAnswer chip d)
  else if d.opcode = jlSuCmdErase then some (eraseAnswer chip d)
  else if d.opcode = jlSuCmdDeviceCheck then some (deviceCheckAnswer chip d)
  else if d.opcode = jlSuCmdUpdataDualBankCrc then some .dualBank
  else none

/-- An answer repeats the opcode of its command. -/
theorem opcode_of_answerOf {d : Device σ} {a : Answer} (h : answerOf chip d = some a) :
    a.opcode = d.opcode := by
  have hinit : (initAnswer chip d).opcode = jlSuCmdDeviceInit := by
    rw [initAnswer]
    split_ifs <;> rfl
  have hcheck : (deviceCheckAnswer chip d).opcode = jlSuCmdDeviceCheck := by
    rw [deviceCheckAnswer]
    split_ifs <;> rfl
  unfold answerOf at h
  split_ifs at h with h1 h2 h3 h4 h5 h6
  · rw [← Option.some.inj h, hinit, h1]
  · rw [← Option.some.inj h, h2]; rfl
  · rw [← Option.some.inj h, h3]; rfl
  · rw [← Option.some.inj h, h4]; rfl
  · rw [← Option.some.inj h, hcheck, h5]
  · rw [← Option.some.inj h, h6]; rfl

/-- A list of checksums has as many as its command asks for. -/
theorem length_of_answerOf {d : Device σ} {crcs : List UInt16}
    (h : answerOf chip d = some (.flashCrc crcs)) :
    d.opcode = jlSuCmdFlashCrc ∧ crcs.length = flashCrcCount d := by
  have hop : d.opcode = jlSuCmdFlashCrc := (opcode_of_answerOf chip h).symm
  refine ⟨hop, ?_⟩
  rw [answerOf, hop, if_neg (by decide), if_pos rfl] at h
  rw [← (Answer.flashCrc.inj (Option.some.inj h) : (flashCrcCall chip d).1 = crcs)]
  exact length_readCrcs ..

/-- The parameter bytes that the handler of the current command takes. -/
def takesOf (d : Device σ) : List Access :=
  if d.opcode = jlSuCmdDeviceInit then initTakes d
  else if d.opcode = jlSuCmdFlashCrc then flashCrcTakes d
  else if d.opcode = jlSuCmdWrite then
    cmdAccesses (d.gOps + CommandItem.writeAddress) 4
      ++ cmdAccesses (d.gOps + CommandItem.writeDataLength) 4
      ++ cmdAccesses (d.gOps + CommandItem.writeData)
          (d.cmd32 CommandItem.writeDataLength).toNat
  else if d.opcode = jlSuCmdErase then
    cmdAccesses (d.gOps + CommandItem.eraseAddress) 4
      ++ cmdAccesses (d.gOps + CommandItem.eraseType) 4
  else if d.opcode = jlSuCmdDeviceCheck then
    cmdAccesses (d.gOps + CommandItem.deviceCheckSdkId) 4
  else if d.opcode = jlSuCmdUpdataDualBankCrc then
    cmdAccesses (d.gOps + CommandItem.dualBankInfoCrc) 2
  else []

/-- What the handler of the current command leaves of `upgrade_file` and the file system. -/
def effectOf (d : Device σ) : JlfsFile × σ :=
  if d.opcode = jlSuCmdDeviceInit then (initCall chip d).2
  else if d.opcode = jlSuCmdFlashCrc then ((flashCrcCall chip d).2.1, (flashCrcCall chip d).2.2.1)
  else if d.opcode = jlSuCmdWrite then (writeCall chip d).2
  else if d.opcode = jlSuCmdErase then (eraseCall chip d).2
  else if d.opcode = jlSuCmdDeviceCheck then (d.upgradeFile, d.fs)
  else if d.opcode = jlSuCmdUpdataDualBankCrc then (dualBankCall chip d).2
  else (d.upgradeFile, d.fs)

/-- The reply of a flash CRC command has a length that its field can hold. -/
def CrcReplyFits (d : Device σ) : Prop :=
  d.opcode = jlSuCmdFlashCrc →
    d.cmd32 CommandItem.crcListBlockSize ≠ 0 ∧ flashCrcCount d < 2 ^ 15 - 3

/-- The current command is answered, with the opcode read first. -/
theorem dispatch_answered {d : Device σ} (h : CrcReplyFits d) {a : Answer}
    (ha : answerOf chip d = some a) :
    ∃ d', dispatch chip d = .ok false d' ∧
      Answered chip (d.taken CommandItem.cmd 1) (effectOf chip d) (takesOf d) a d' := by
  have hret {x : DevM σ Unit} {d₁ : Device σ} {r : JlfsFile × σ} {takes : List Access}
      (hx : ∃ d', x d₁ = .ok () d' ∧ Answered chip d₁ r takes a d') :
      ∃ d', ((do x; return false) : DevM σ Bool) d₁ = .ok false d' ∧
        Answered chip d₁ r takes a d' := by
    obtain ⟨d', hx, had⟩ := hx
    exact ⟨d', bind_ok hx, had⟩
  have hop : d.cmd8 CommandItem.cmd = d.opcode := rfl
  rw [dispatch, bind_ok (cmd8_apply ..), hop]
  unfold answerOf at ha
  unfold takesOf effectOf
  split_ifs at ha ⊢ with h1 h2 h3 h4 h5 h6
  · obtain rfl := Option.some.inj ha
    exact hret (jlSuDeviceInit_answered chip (d.taken CommandItem.cmd 1))
  · obtain rfl := Option.some.inj ha
    obtain ⟨hb, hfits⟩ := h h2
    exact hret (jlSuFlashCrc_answered chip (d.taken CommandItem.cmd 1) hb hfits)
  · obtain rfl := Option.some.inj ha
    exact hret (jlSuWriteFlash_answered chip (d.taken CommandItem.cmd 1))
  · obtain rfl := Option.some.inj ha
    exact hret (jlSuErase_answered chip (d.taken CommandItem.cmd 1))
  · obtain rfl := Option.some.inj ha
    exact hret (jlSuDevcieCheck_answered chip (d.taken CommandItem.cmd 1))
  · obtain rfl := Option.some.inj ha
    exact hret (jlSuUpdataDualBankCrc_answered chip (d.taken CommandItem.cmd 1))

/-- A command that is not answered only has its opcode read; the reboot command ends the loop. -/
theorem dispatch_unanswered {d : Device σ} (ha : answerOf chip d = none) :
    dispatch chip d = .ok (decide (d.opcode = jlSuCmdReboot)) (d.taken CommandItem.cmd 1) := by
  have hop : d.cmd8 CommandItem.cmd = d.opcode := rfl
  rw [dispatch, bind_ok (cmd8_apply ..), hop]
  unfold answerOf at ha
  split_ifs at ha ⊢
  rfl

/-- A flash CRC command with block size zero stops the device, whatever its length. -/
theorem dispatch_divByZero {d : Device σ} (hop : d.opcode = jlSuCmdFlashCrc)
    (hb : d.cmd32 CommandItem.crcListBlockSize = 0) :
    dispatch chip d = .error .divByZero (((d.taken CommandItem.cmd 1).taken
      CommandItem.crcListLen 4).taken CommandItem.crcListBlockSize 4) := by
  have hop' : d.cmd8 CommandItem.cmd = jlSuCmdFlashCrc := hop
  have hb' : (d.taken CommandItem.cmd 1).cmd32 CommandItem.crcListBlockSize = 0 := hb
  rw [dispatch, bind_ok (cmd8_apply ..), hop', if_neg (by decide), if_pos rfl, bind_apply,
    jlSuFlashCrc_divByZero chip _ hb']

/-- A flash CRC command whose reply may not fit: the checksums are stored, then the reply ends. -/
theorem dispatch_flashCrc {d : Device σ} (hop : d.opcode = jlSuCmdFlashCrc)
    (hb : d.cmd32 CommandItem.crcListBlockSize ≠ 0) :
    dispatch chip d = (finish chip jlSuCmdFlashCrc (1 + 1 + flashCrcCount d * 2) >>= fun _ =>
      pure false) ((d.taken CommandItem.cmd 1).crcsStored chip) := by
  have hop' : d.cmd8 CommandItem.cmd = jlSuCmdFlashCrc := hop
  have hb' : (d.taken CommandItem.cmd 1).cmd32 CommandItem.crcListBlockSize ≠ 0 := hb
  rw [dispatch, bind_ok (cmd8_apply ..), hop', if_neg (by decide), if_pos rfl, bind_apply,
    jlSuFlashCrc_eq chip _ hb', bind_apply]
  rfl

/-! ### A received chunk -/

/-- An accepted chunk is dispatched with its packet decrypted. -/
theorem upgradeTurn_accepted {d : Device σ} {chunk : List UInt8} {i : ℕ} {rx : Mem}
    (h : encCmdData chip (d.rx.write 0 chunk) chunk.length = some (i, rx)) :
    upgradeTurn chip chunk d = dispatch chip { d with rx := rx, gOps := i } := by
  obtain ⟨hlen, -⟩ := encCmdData_some chip h
  have hrecv : recvNewData chip chunk d = .ok true { d with rx := rx, gOps := i } := by
    rw [recvNewData]
    show (if chunk.length < 4 then pure false else _ : DevM σ Bool) _ = _
    rw [if_neg (by omega), bind_ok (get_apply ..)]
    dsimp only
    rw [h]
    rfl
  rw [upgradeTurn, bind_ok hrecv]
  rfl

/-- A chunk that is not accepted only stays in the receive buffer. -/
theorem upgradeTurn_rejected {d : Device σ} {chunk : List UInt8}
    (h : encCmdData chip (d.rx.write 0 chunk) chunk.length = none) :
    upgradeTurn chip chunk d = .ok false { d with rx := d.rx.write 0 chunk } := by
  have hrecv : recvNewData chip chunk d = .ok false { d with rx := d.rx.write 0 chunk } := by
    rw [recvNewData]
    show (if chunk.length < 4 then pure false else _ : DevM σ Bool) _ = _
    split_ifs
    · rfl
    · rw [bind_ok (get_apply ..)]
      dsimp only
      rw [h]
      rfl
  rw [upgradeTurn, bind_ok hrecv]
  rfl

/-! ### The parameters of a received packet -/

/-- The device with a command's plaintext in the receive buffer. -/
def Device.loaded (d : Device σ) (buf : Mem) (payload : List UInt8) : Device σ :=
  { d with rx := buf.write 4 payload, gOps := 0 }

section Loaded

variable (d : Device σ) (buf : Mem)

/-- A part of the plaintext stands where it belongs. -/
theorem bytes_loaded {payload : List UInt8} (pre l post : List UInt8)
    (h : payload = pre ++ l ++ post) {off n : ℕ} (hoff : 4 + pre.length = off) (hn : l.length = n) :
    (d.loaded buf payload).rx.bytes ((d.loaded buf payload).gOps + off) n = l := by
  subst h hoff hn
  have h := @Mem.bytes_write_inside buf 4 pre.length l.length (pre ++ l ++ post) (by simp)
  rw [List.append_assoc, List.drop_left, List.take_left, ← List.append_assoc] at h
  rw [show (d.loaded buf (pre ++ l ++ post)).gOps = 0 from rfl, Nat.zero_add]
  exact h

theorem cmd8_loaded {payload : List UInt8} (pre post : List UInt8) (b : UInt8)
    (h : payload = pre ++ [b] ++ post) {off : ℕ} (hoff : 4 + pre.length = off) :
    (d.loaded buf payload).cmd8 off = b :=
  (List.cons.inj (bytes_loaded d buf pre [b] post h hoff rfl)).1

theorem cmd32_loaded {payload : List UInt8} (pre post : List UInt8) (w : UInt32)
    (h : payload = pre ++ le32 w ++ post) {off : ℕ} (hoff : 4 + pre.length = off) :
    (d.loaded buf payload).cmd32 off = w := by
  have hbytes : [(d.loaded buf payload).rx ((d.loaded buf payload).gOps + off),
      (d.loaded buf payload).rx ((d.loaded buf payload).gOps + off + 1),
      (d.loaded buf payload).rx ((d.loaded buf payload).gOps + off + 2),
      (d.loaded buf payload).rx ((d.loaded buf payload).gOps + off + 3)] = le32 w :=
    bytes_loaded d buf pre (le32 w) post h hoff rfl
  simp only [le32, List.cons.injEq, and_true] at hbytes
  obtain ⟨h0, h1, h2, h3⟩ := hbytes
  rw [Device.cmd32, h0, h1, h2, h3, ofLe32_le32]

end Loaded

/-- A chunk that starts with a packet is dispatched with its plaintext in the receive buffer. -/
theorem upgradeTurn_replyFrame (payload : List UInt8) (h2 : 2 ≤ payload.length)
    (hlt : payload.length < 2 ^ 16) (trailing : List UInt8) (d : Device σ) :
    upgradeTurn chip (replyFrame chip payload ++ trailing) d
      = dispatch chip
          (d.loaded (d.rx.write 0 (replyFrame chip payload ++ trailing)) payload) :=
  upgradeTurn_accepted chip (encCmdData_packet chip [] (by decide) payload h2 hlt trailing d.rx).1

end FwBootloader.User
