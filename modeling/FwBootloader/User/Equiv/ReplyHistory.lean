import FwBootloader.User.Equiv.Loop
import FwBootloader.User.Equiv.Safety

/-!
## Replies and what was sent before

All handlers fill the one `dev_g_buf`, which is encrypted in place when it is sent, and every block
whose checksum is asked for is read into the one global buffer.

* `encCmdData_congr`: whether a chunk is accepted does not depend on what the receive buffer held.
* `answerOf_eq`: two devices in the same `jlfs` state give the same answer to the same well-formed
  command, unless it is a device check with another `sdk_id` or asks for checksums.
* `flashCrcCall_eq`: a checksum is taken over the bytes that were read and, when these are fewer
  than asked for, over what the global buffer held behind them.
* `replies_eq_iff`: these two are the only commands whose reply can depend on the commands before
  them, and the second only where a read gives less than was asked for
  (`sameLeftovers_of_readsWhole`).  A device check with another `sdk_id` always does so, since its
  first answer changes the bytes that its second one repeats; `check_repeats_reply` is a run in
  which it repeats the bytes of another reply.
-/

namespace FwBootloader.User

open Bytes

variable {σ : Type} (chip : Chip σ)

/-! ### Receiving the same chunk -/

theorem findMark_congr {b₁ b₂ : Mem} {n i : ℕ} (h : ∀ k < i + n + 1, b₁ k = b₂ k) :
    findMark b₁ n i = findMark b₂ n i := by
  induction n generalizing i with
  | zero => rfl
  | succ n ih =>
    rw [findMark, findMark, h i (by omega), h (i + 1) (by omega)]
    split_ifs
    · rfl
    · exact ih fun k hk => h k (by omega)

/-- **A chunk is accepted or not whatever stands behind it**, and then decrypted to the same
bytes. -/
theorem encCmdData_congr {b₁ b₂ : Mem} {len : ℕ} (h : ∀ k < len, b₁ k = b₂ k) {i : ℕ} {rx₁ : Mem}
    (hacc : encCmdData chip b₁ len = some (i, rx₁)) :
    ∃ rx₂, encCmdData chip b₂ len = some (i, rx₂) ∧ ∀ k < len, rx₁ k = rx₂ k := by
  obtain ⟨h8, -, hend, hcrc, rfl⟩ := encCmdData_some chip hacc
  have hn : cmdLenAt b₁ i = cmdLenAt b₂ i := by
    rw [cmdLenAt, cmdLenAt, h (i + 2) (by omega), h (i + 3) (by omega)]
  set n := cmdLenAt b₁ i with hcmdLen
  -- the marker, the length and the checksum are among the received bytes
  have hfind : findMark b₂ (len - 7) 0 = some i := by
    rw [← @findMark_congr b₁ b₂ (len - 7) 0 fun k hk => h k (by omega)]
    unfold encCmdData at hacc
    split_ifs at hacc
    split at hacc
    · cases hacc
    · next j hj =>
      dsimp only at hacc
      split_ifs at hacc
      obtain ⟨rfl, -⟩ := Prod.mk.inj (Option.some.inj hacc)
      exact hj
  have hhead : b₂.bytes i (4 + n) = b₁.bytes i (4 + n) :=
    Mem.bytes_congr fun k _ hk => (h k (by omega)).symm
  have hbody : b₂.bytes (i + 4) n = b₁.bytes (i + 4) n :=
    Mem.bytes_congr fun k _ hk => (h k (by omega)).symm
  refine ⟨b₂.write (i + 4) (encDecData chip (b₂.bytes (i + 4) n)), ?_, fun k hk => ?_⟩
  · unfold encCmdData
    rw [if_neg (by omega), hfind]
    dsimp only
    rw [show (ofLe16 (b₂ (i + 2)) (b₂ (i + 3))).toNat = n from hn.symm, if_neg (by omega),
      if_pos]
    rw [show i + 2 + 2 + n = i + 4 + n by omega, show 2 + 2 + n = 4 + n by omega, hhead, ← hcrc,
      h (i + 4 + n) (by omega), h (i + 4 + n + 1) (by omega)]
  · rw [hbody]
    by_cases hin : i + 4 ≤ k ∧ k < i + 4 + n
    · have hlen : (encDecData chip (b₁.bytes (i + 4) n)).length = n := by
        rw [encDecData, length_xorKey, Mem.length_bytes]
      obtain ⟨j, rfl⟩ := Nat.exists_eq_add_of_le hin.1
      rw [Mem.write_of_inside b₁ (by omega), Mem.write_of_inside b₂ (by omega)]
    · have hout : k < i + 4 ∨ i + 4 + (encDecData chip (b₁.bytes (i + 4) n)).length ≤ k := by
        rw [encDecData, length_xorKey, Mem.length_bytes]
        omega
      rw [Mem.write_of_outside b₁ hout, Mem.write_of_outside b₂ hout, h k hk]

/-! ### The same command -/

/-- `jlfs` is in the same state, and has reported the same align size before the loop. -/
structure SameJlfs (d₁ d₂ : Device σ) : Prop where
  upgradeFile : d₁.upgradeFile = d₂.upgradeFile
  fs : d₁.fs = d₂.fs
  flashAlignsize : d₁.flashAlignsize = d₂.flashAlignsize

/-- The bodies of the accepted commands have the same first `n` bytes. -/
def SameBody (n : ℕ) (d₁ d₂ : Device σ) : Prop :=
  ∀ k < n, d₁.rx (d₁.gOps + 4 + k) = d₂.rx (d₂.gOps + 4 + k)

/-- `jlfs_fread` reads as many bytes as it is asked for. -/
def ReadsWhole : Prop :=
  ∀ file len fs, (chip.jlfsFread file len fs).1.length = len.toNat

/-- The length field of the accepted command. -/
def Device.bodyLen (d : Device σ) : ℕ :=
  cmdLenAt d.rx d.gOps

/-- The accepted command is one of the protocol, with all its parameters, and its reply fits. -/
structure WellFormed (d : Device σ) : Prop where
  known : d.opcode ∈ [jlSuCmdDeviceInit, jlSuCmdDeviceCheck, jlSuCmdErase, jlSuCmdWrite,
    jlSuCmdFlashCrc, jlSuCmdReboot, jlSuCmdUpdataDualBankCrc]
  whole : neededLen d ≤ d.bodyLen
  crcs : d.opcode = jlSuCmdFlashCrc →
    d.cmd32 CommandItem.crcListBlockSize ≠ 0 ∧ flashCrcCount d ≤ 28

/-- The accepted command is a device check for another product. -/
def ForeignCheck (d : Device σ) : Prop :=
  d.opcode = jlSuCmdDeviceCheck ∧ d.cmd32 CommandItem.deviceCheckSdkId ≠ 0x12345678

section SameBody

variable {chip} {n : ℕ} {d₁ d₂ : Device σ}

theorem SameBody.bytes (h : SameBody n d₁ d₂) (off l : ℕ) (hoff : 4 ≤ off) (hl : off + l ≤ 4 + n) :
    d₁.rx.bytes (d₁.gOps + off) l = d₂.rx.bytes (d₂.gOps + off) l := by
  apply List.ext_getElem
  · rw [Mem.length_bytes, Mem.length_bytes]
  · intro k hk _
    rw [Mem.length_bytes] at hk
    have hbyte := h (off - 4 + k) (by omega)
    rw [Mem.getElem_bytes, Mem.getElem_bytes]
    rwa [show d₁.gOps + 4 + (off - 4 + k) = d₁.gOps + off + k by omega,
      show d₂.gOps + 4 + (off - 4 + k) = d₂.gOps + off + k by omega] at hbyte

theorem SameBody.cmd8 (h : SameBody n d₁ d₂) (off : ℕ) (hoff : 4 ≤ off) (hl : off < 4 + n) :
    d₁.cmd8 off = d₂.cmd8 off := by
  have hbyte := h (off - 4) (by omega)
  rw [Device.cmd8, Device.cmd8]
  rwa [show d₁.gOps + 4 + (off - 4) = d₁.gOps + off by omega,
    show d₂.gOps + 4 + (off - 4) = d₂.gOps + off by omega] at hbyte

theorem SameBody.cmd32 (h : SameBody n d₁ d₂) (off : ℕ) (hoff : 4 ≤ off) (hl : off + 4 ≤ 4 + n) :
    d₁.cmd32 off = d₂.cmd32 off := by
  have hbyte (k : ℕ) (hk : k < 4) : d₁.rx (d₁.gOps + off + k) = d₂.rx (d₂.gOps + off + k) := by
    have := h.cmd8 (off + k) (by omega) (by omega)
    rwa [Device.cmd8, Device.cmd8, ← Nat.add_assoc, ← Nat.add_assoc] at this
  have h0 := hbyte 0 (by omega)
  rw [Nat.add_zero, Nat.add_zero] at h0
  rw [Device.cmd32, Device.cmd32, h0, hbyte 1 (by omega), hbyte 2 (by omega), hbyte 3 (by omega)]

/-- Every command has an opcode. -/
theorem SameBody.opcode (h : SameBody n d₁ d₂) (hw : neededLen d₁ ≤ n) : d₁.opcode = d₂.opcode := by
  have hpos : 1 ≤ n := by
    refine le_trans ?_ hw
    unfold neededLen
    split_ifs <;> omega
  exact h.cmd8 _ (by decide) (by rw [CommandItem.cmd]; omega)

/-- **The same command is answered the same**, unless it is a check for another product or asks for
checksums. -/
theorem answerOf_eq (hjlfs : SameJlfs d₁ d₂) (hw : neededLen d₁ ≤ n) (h : SameBody n d₁ d₂)
    (hforeign : ¬ ForeignCheck d₁) (hcrc : d₁.opcode ≠ jlSuCmdFlashCrc) :
    answerOf chip d₁ = answerOf chip d₂ := by
  obtain ⟨hfile, hfs, -⟩ := hjlfs
  have hop := h.opcode hw
  unfold neededLen at hw
  unfold answerOf
  rw [← hop]
  -- one bullet for each handler: its parameters are among the bytes that agree
  split_ifs at hw ⊢ with h1 h3 h4 h5 h6
  · have hmode : d₁.cmd8 CommandItem.initMode = d₂.cmd8 CommandItem.initMode :=
      h.cmd8 _ (by decide) (by rw [CommandItem.initMode]; omega)
    have hname := h.bytes CommandItem.initFileName 16 (by decide)
      (by rw [CommandItem.initFileName]; omega)
    have hcall : initCall chip d₁ = initCall chip d₂ := by
      rw [initCall, initCall, hmode, hname, hfile, hfs]
    rw [initAnswer, initAnswer, hcall]
  · have haddr : d₁.cmd32 CommandItem.writeAddress = d₂.cmd32 CommandItem.writeAddress :=
      h.cmd32 _ (by decide) (by rw [CommandItem.writeAddress]; omega)
    have hlen : d₁.cmd32 CommandItem.writeDataLength = d₂.cmd32 CommandItem.writeDataLength :=
      h.cmd32 _ (by decide) (by rw [CommandItem.writeDataLength]; omega)
    have hdata := h.bytes CommandItem.writeData
      (d₁.cmd32 CommandItem.writeDataLength).toNat (by decide)
      (by rw [CommandItem.writeData]; omega)
    have hcall : writeCall chip d₁ = writeCall chip d₂ := by
      rw [writeCall, writeCall, hdata, haddr, hlen, hfile, hfs]
    rw [writeAnswer, writeAnswer, hcall, hlen]
  · have haddr : d₁.cmd32 CommandItem.eraseAddress = d₂.cmd32 CommandItem.eraseAddress :=
      h.cmd32 _ (by decide) (by rw [CommandItem.eraseAddress]; omega)
    have htype : d₁.cmd32 CommandItem.eraseType = d₂.cmd32 CommandItem.eraseType :=
      h.cmd32 _ (by decide) (by rw [CommandItem.eraseType]; omega)
    have hcall : eraseCall chip d₁ = eraseCall chip d₂ := by
      rw [eraseCall, eraseCall, haddr, htype, hfile, hfs]
    rw [eraseAnswer, eraseAnswer, hcall]
  · have hsdk : d₁.cmd32 CommandItem.deviceCheckSdkId = d₂.cmd32 CommandItem.deviceCheckSdkId :=
      h.cmd32 _ (by decide) (by rw [CommandItem.deviceCheckSdkId]; omega)
    have hown : d₁.cmd32 CommandItem.deviceCheckSdkId = 0x12345678 := by
      by_contra hne
      exact hforeign ⟨h5, hne⟩
    rw [deviceCheckAnswer, deviceCheckAnswer, ← hsdk, if_pos hown, if_pos hown, hfs]
  · rfl
  · rfl

end SameBody

/-! ### The global buffer -/

/-- What the reads of `n` blocks of `l` bytes have put at the front of the global buffer by the time
of each block's checksum, when `front` stands there before. -/
def blocksRead (l : UInt32) : ℕ → JlfsFile → σ → List UInt8 → List (List UInt8)
  | 0, _, _, _ => []
  | n + 1, file, fs, front =>
    let r := chip.jlfsFread file l fs
    let front := r.1 ++ front.drop r.1.length
    front.take l.toNat :: blocksRead l n r.2.1 r.2.2 front

/-- The bytes that a checksum over `l` bytes covers, when only `c` has been read. -/
def covered (l : UInt32) (buf : Mem) (c : List UInt8) : List UInt8 :=
  c ++ buf.bytes c.length (l.toNat - c.length)

/-- A checksum covers the bytes that were read and what the buffer held behind them. -/
theorem readCrcs_covered (l : UInt32) (n : ℕ) (file : JlfsFile) (fs : σ) (buf : Mem)
    (front : List UInt8) :
    (readCrcs chip l n file fs (buf.write 0 front)).1
      = (blocksRead chip l n file fs front).map fun c => chip.chipCrc16 (covered l buf c) := by
  induction n generalizing file fs front with
  | zero => rfl
  | succ n ih =>
    set r := chip.jlfsFread file l fs with hr
    have hfront : (buf.write 0 front).write 0 r.1
        = buf.write 0 (r.1 ++ front.drop r.1.length) := Mem.write_over buf 0 front r.1
    rw [readCrcs, blocksRead, ← hr]
    dsimp only
    rw [hfront, ih, List.map_cons, Mem.bytes_write_front, Nat.zero_add]
    rfl

/-- The blocks that the accepted command asks checksums of. -/
def Device.crcBlocks (e : Device σ) : List (List UInt8) :=
  let file := chip.jlfsFseek e.upgradeFile (e.cmd32 CommandItem.crcListAddress) e.fs
  blocksRead chip e.flashAlignsize (flashCrcCount e) file.1 file.2 []

theorem flashCrcCall_eq (e : Device σ) :
    (flashCrcCall chip e).1 = (e.crcBlocks chip).map fun c =>
      chip.chipCrc16 (covered e.flashAlignsize e.globalBuffer c) := by
  have h := readCrcs_covered chip e.flashAlignsize (flashCrcCount e)
    (chip.jlfsFseek e.upgradeFile (e.cmd32 CommandItem.crcListAddress) e.fs).1
    (chip.jlfsFseek e.upgradeFile (e.cmd32 CommandItem.crcListAddress) e.fs).2 e.globalBuffer []
  rwa [Mem.write_nil] at h

/-- Whole reads leave nothing of the global buffer in a block. -/
theorem length_of_mem_blocksRead (hread : ReadsWhole chip) (l : UInt32) (n : ℕ) (file : JlfsFile)
    (fs : σ) (front : List UInt8) {c : List UInt8} (h : c ∈ blocksRead chip l n file fs front) :
    c.length = l.toNat := by
  induction n generalizing file fs front with
  | zero => cases h
  | succ n ih =>
    rw [blocksRead] at h
    rcases List.mem_cons.mp h with rfl | h
    · rw [List.length_take, List.length_append, hread]
      omega
    · exact ih _ _ _ h

/-- The same command asks for the same blocks. -/
theorem crcBlocks_congr {n : ℕ} {d₁ d₂ : Device σ} (hjlfs : SameJlfs d₁ d₂)
    (hw : neededLen d₁ ≤ n) (h : SameBody n d₁ d₂) (hop : d₁.opcode = jlSuCmdFlashCrc) :
    d₁.crcBlocks chip = d₂.crcBlocks chip := by
  obtain ⟨hfile, hfs, halign⟩ := hjlfs
  rw [neededLen, hop, if_neg (by decide), if_pos rfl] at hw
  have hlen : d₁.cmd32 CommandItem.crcListLen = d₂.cmd32 CommandItem.crcListLen :=
    h.cmd32 _ (by decide) (by rw [CommandItem.crcListLen]; omega)
  have hsize : d₁.cmd32 CommandItem.crcListBlockSize = d₂.cmd32 CommandItem.crcListBlockSize :=
    h.cmd32 _ (by decide) (by rw [CommandItem.crcListBlockSize]; omega)
  have haddr : d₁.cmd32 CommandItem.crcListAddress = d₂.cmd32 CommandItem.crcListAddress :=
    h.cmd32 _ (by decide) (by rw [CommandItem.crcListAddress]; omega)
  rw [Device.crcBlocks, Device.crcBlocks, flashCrcCount, flashCrcCount, hlen, hsize, haddr, hfile,
    hfs, halign]

/-- The buffers of `d₁` and `d₂` agree in what the answer to the accepted command takes from
them. -/
structure SameLeftovers (e d₁ d₂ : Device σ) : Prop where
  /-- A check for another product is answered with the bytes 6 to 25 of `dev_g_buf`. -/
  identity : ForeignCheck e → d₁.devGBuf.bytes 6 20 = d₂.devGBuf.bytes 6 20
  /-- A block that was not read whole has the same checksum over both global buffers. -/
  blocks : e.opcode = jlSuCmdFlashCrc → ∀ c ∈ e.crcBlocks chip, c.length < e.flashAlignsize.toNat →
    chip.chipCrc16 (covered e.flashAlignsize d₁.globalBuffer c)
      = chip.chipCrc16 (covered e.flashAlignsize d₂.globalBuffer c)

/-- A file layer that reads whole blocks leaves nothing to agree in but the check for another
product. -/
theorem sameLeftovers_of_readsWhole (hread : ReadsWhole chip) {e d₁ d₂ : Device σ}
    (h : ForeignCheck e → d₁.devGBuf.bytes 6 20 = d₂.devGBuf.bytes 6 20) :
    SameLeftovers chip e d₁ d₂ := by
  refine ⟨h, fun _ c hc hlt => ?_⟩
  rw [length_of_mem_blocksRead chip hread _ _ _ _ _ hc] at hlt
  exact absurd hlt (Nat.lt_irrefl _)

/-! ### The frames of a turn -/

/-- The frames that a turn of the loop sends. -/
def repliesTo (chunk : List UInt8) (d : Device σ) : List (List UInt8) :=
  ((upgradeTurn chip chunk).after d).sent.drop d.sent.length

/-- A well-formed command is answered with its one frame. -/
theorem repliesTo_eq {d e : Device σ} {chunk : List UInt8} (hacc : accepted chip chunk d = some e)
    (hw : WellFormed e) :
    repliesTo chip chunk d = (answerOf chip e).toList.map fun a => replyFrame chip a.payload := by
  have hfits : ∀ e', accepted chip chunk d = some e' → CrcReplyFits e' := by
    intro e' he' hop
    obtain rfl := Option.some.inj (hacc.symm.trans he')
    obtain ⟨hb, hcount⟩ := hw.crcs hop
    exact ⟨hb, by omega⟩
  obtain ⟨stop, d', as, hrun, hsent, -⟩ := upgradeTurn_spec chip hfits
  have hans : turnAnswer chip chunk d = answerOf chip e := by rw [turnAnswer, hacc]; rfl
  rw [repliesTo, after_of_ok hrun, hsent, hans, List.drop_left]

/-- The other device accepts the same command. -/
theorem accepted_congr {d₁ d₂ e₁ : Device σ} {chunk : List UInt8}
    (hacc : accepted chip chunk d₁ = some e₁) (hw : WellFormed e₁) (hjlfs : SameJlfs d₁ d₂) :
    ∃ e₂, accepted chip chunk d₂ = some e₂ ∧ SameJlfs e₁ e₂ ∧ SameBody (neededLen e₁) e₁ e₂ ∧
      e₂.bodyLen = e₁.bodyLen := by
  obtain ⟨⟨i, rx₁⟩, henc, he⟩ := Option.map_eq_some_iff.mp hacc
  dsimp only at he
  subst he
  have hsame : ∀ k < chunk.length, d₁.rx.write 0 chunk k = d₂.rx.write 0 chunk k := by
    intro k hk
    have hin₁ := @Mem.write_of_inside d₁.rx 0 k chunk hk
    have hin₂ := @Mem.write_of_inside d₂.rx 0 k chunk hk
    rw [Nat.zero_add] at hin₁ hin₂
    rw [hin₁, hin₂]
  obtain ⟨rx₂, henc₂, hrx⟩ := encCmdData_congr chip hsame henc
  obtain ⟨h8, -, hend, -, hrx₁⟩ := encCmdData_some chip henc
  -- the length field is in front of the decrypted bytes
  have hout (k : ℕ) (hk : k < i + 4) : rx₁ k = d₁.rx.write 0 chunk k := by
    rw [hrx₁]
    exact Mem.write_of_outside _ (Or.inl hk)
  have hlen : cmdLenAt rx₁ i = cmdLenAt (d₁.rx.write 0 chunk) i := by
    rw [cmdLenAt, cmdLenAt, hout (i + 2) (by omega), hout (i + 3) (by omega)]
  have hwhole : neededLen (⟨rx₁, i, d₁.devGBuf, d₁.upgradeFile, d₁.flashAlignsize,
      d₁.globalBuffer, d₁.fs, d₁.sent, d₁.log⟩ : Device σ) ≤ cmdLenAt rx₁ i := hw.whole
  refine ⟨{ d₂ with rx := rx₂, gOps := i }, by rw [accepted, henc₂]; rfl,
    ⟨hjlfs.upgradeFile, hjlfs.fs, hjlfs.flashAlignsize⟩, fun k hk => hrx _ ?_, ?_⟩
  · dsimp only
    omega
  · show cmdLenAt rx₂ i = cmdLenAt rx₁ i
    rw [cmdLenAt, cmdLenAt, hrx (i + 2) (by omega), hrx (i + 3) (by omega)]

/-- Accepting a command leaves both buffers as they are. -/
theorem buffers_of_accepted {d e : Device σ} {chunk : List UInt8}
    (hacc : accepted chip chunk d = some e) :
    e.devGBuf = d.devGBuf ∧ e.globalBuffer = d.globalBuffer := by
  obtain ⟨r, -, rfl⟩ := Option.map_eq_some_iff.mp hacc
  exact ⟨rfl, rfl⟩

/-- Being well-formed is a matter of the body and its length. -/
theorem WellFormed.congr {e₁ e₂ : Device σ} (hw : WellFormed e₁)
    (h : SameBody (neededLen e₁) e₁ e₂) (hlen : e₂.bodyLen = e₁.bodyLen) : WellFormed e₂ := by
  have hop := h.opcode le_rfl
  set n := neededLen e₁ with hn
  have hneed : neededLen e₂ = n := by
    rw [hn] at h ⊢
    unfold neededLen at h ⊢
    rw [← hop]
    split_ifs at h ⊢
    · rfl
    · rfl
    · rw [h.cmd32 _ (by decide) (by rw [CommandItem.writeDataLength]; omega)]
    · rfl
    · rfl
    · rfl
    · rfl
  refine ⟨hop ▸ hw.known, by rw [hneed, hlen]; exact hw.whole, fun hcrc => ?_⟩
  have hcrc' : e₁.opcode = jlSuCmdFlashCrc := hop.trans hcrc
  have h14 : n = 14 := by
    rw [hn, neededLen, hcrc', if_neg (by decide), if_pos rfl]
  obtain ⟨hb, hcount⟩ := hw.crcs hcrc'
  have hsize := h.cmd32 CommandItem.crcListBlockSize (by decide)
    (by rw [CommandItem.crcListBlockSize]; omega)
  have hlen := h.cmd32 CommandItem.crcListLen (by decide) (by rw [CommandItem.crcListLen]; omega)
  rw [flashCrcCount, ← hsize, ← hlen]
  exact ⟨hb, hcount⟩

/-- What a check for another product is answered. -/
theorem answerOf_foreignCheck {e : Device σ} (h : ForeignCheck e) :
    answerOf chip e
      = some (.deviceCheckError (Vector.ofFn fun k : Fin 20 => e.devGBuf (6 + k))) := by
  rw [answerOf, h.1, if_neg (by decide), if_neg (by decide), if_neg (by decide),
    if_neg (by decide), if_pos rfl, deviceCheckAnswer, if_neg h.2]

/-- What a list of checksums is answered. -/
theorem answerOf_flashCrc {e : Device σ} (h : e.opcode = jlSuCmdFlashCrc) :
    answerOf chip e = some (.flashCrc (flashCrcCall chip e).1) := by
  rw [answerOf, h, if_neg (by decide), if_pos rfl]

/-- The same check. -/
theorem ForeignCheck.congr {e₁ e₂ : Device σ} (h : ForeignCheck e₁)
    (hbody : SameBody (neededLen e₁) e₁ e₂) : ForeignCheck e₂ := by
  have h6 : neededLen e₁ = 6 := by
    rw [neededLen, h.1, if_neg (by decide), if_neg (by decide), if_neg (by decide),
      if_neg (by decide), if_pos rfl]
  have hsdk := hbody.cmd32 CommandItem.deviceCheckSdkId (by decide) (by rw [h6]; decide)
  exact ⟨hbody.opcode le_rfl ▸ h.1, hsdk ▸ h.2⟩

/-- Where the bytes stand in the payload of such an answer. -/
theorem getD_deviceCheckError_payload (v : Vector UInt8 20) {k : ℕ} (hk : k < 20) :
    (Answer.deviceCheckError v).payload.getD (2 + k) 0 = v[k] := by
  have hin : k < v.toList.length := by rwa [Vector.length_toList]
  rw [Answer.payload, Answer.body, Nat.add_comm 2 k, List.getD_cons_succ, List.getD_cons_succ,
    List.getD_append _ _ _ _ hin, List.getD_eq_getElem _ _ hin, Vector.getElem_toList]

/-- The payload of such an answer determines the bytes. -/
theorem deviceCheckError_payload_inj {u v : Vector UInt8 20} :
    (Answer.deviceCheckError u).payload = (Answer.deviceCheckError v).payload ↔ u = v := by
  constructor
  · intro h
    have htail : u.toList ++ le32 0x12345678 = v.toList ++ le32 0x12345678 :=
      (List.cons.inj (List.cons.inj h).2).2
    exact Vector.toList_inj.mp (List.append_cancel_right htail)
  · rintro rfl
    rfl

/-- Another device gives the same answer to a check for another product when its reply buffer holds
the same bytes. -/
theorem foreignCheck_frames_eq_iff {e₁ e₂ : Device σ} (h₁ : ForeignCheck e₁)
    (h₂ : ForeignCheck e₂) :
    ((answerOf chip e₁).toList.map fun a => replyFrame chip a.payload)
        = ((answerOf chip e₂).toList.map fun a => replyFrame chip a.payload) ↔
      e₁.devGBuf.bytes 6 20 = e₂.devGBuf.bytes 6 20 := by
  have hstale (m : Mem) : (Vector.ofFn fun k : Fin 20 => m (6 + k)).toList = m.bytes 6 20 := by
    apply List.ext_getElem
    · rw [Vector.length_toList, Mem.length_bytes]
    · intro i _ _
      simp
  rw [answerOf_foreignCheck chip h₁, answerOf_foreignCheck chip h₂, ← hstale e₁.devGBuf,
    ← hstale e₂.devGBuf, Vector.toList_inj]
  constructor
  · intro h
    exact deviceCheckError_payload_inj.mp (replyFrame_inj chip (List.cons.inj h).1)
  · intro h
    rw [h]

/-- Two lists of checksums are answered alike when they are the same. -/
theorem flashCrc_frames_eq_iff {e₁ e₂ : Device σ} (h₁ : e₁.opcode = jlSuCmdFlashCrc)
    (h₂ : e₂.opcode = jlSuCmdFlashCrc) :
    ((answerOf chip e₁).toList.map fun a => replyFrame chip a.payload)
        = ((answerOf chip e₂).toList.map fun a => replyFrame chip a.payload) ↔
      (flashCrcCall chip e₁).1 = (flashCrcCall chip e₂).1 := by
  rw [answerOf_flashCrc chip h₁, answerOf_flashCrc chip h₂]
  constructor
  · intro h
    have hpayload := replyFrame_inj chip (List.cons.inj h).1
    have hbytes : le16s (flashCrcCall chip e₁).1 = le16s (flashCrcCall chip e₂).1 :=
      (List.cons.inj (List.cons.inj hpayload).2).2
    rw [← ofLe16s_le16s (flashCrcCall chip e₁).1, hbytes, ofLe16s_le16s]
  · intro h
    rw [h]

/-- The lists of checksums are the same when every block that was not read whole has the same. -/
theorem flashCrcCall_eq_iff {e₁ e₂ : Device σ} (hblocks : e₁.crcBlocks chip = e₂.crcBlocks chip)
    (halign : e₁.flashAlignsize = e₂.flashAlignsize) :
    (flashCrcCall chip e₁).1 = (flashCrcCall chip e₂).1 ↔
      ∀ c ∈ e₁.crcBlocks chip, c.length < e₁.flashAlignsize.toNat →
        chip.chipCrc16 (covered e₁.flashAlignsize e₁.globalBuffer c)
          = chip.chipCrc16 (covered e₁.flashAlignsize e₂.globalBuffer c) := by
  rw [flashCrcCall_eq, flashCrcCall_eq, ← hblocks, ← halign, List.map_inj_left]
  refine forall₂_congr fun c _ => ⟨fun h _ => h, fun h => ?_⟩
  by_cases hlt : c.length < e₁.flashAlignsize.toNat
  · exact h hlt
  · -- a block that was read whole
    rw [covered, covered, Nat.sub_eq_zero_of_le (by omega), Mem.bytes_zero, Mem.bytes_zero]

/-! ### Two checks for another product -/

/-- The reply of a handler stays in the buffer as it was encrypted. -/
theorem encrypted_of_answered {d d' : Device σ} {r : JlfsFile × σ} {takes : List Access}
    {a : Answer} (h : Answered chip d r takes a d') :
    d'.devGBuf.bytes 4 a.payload.length = xorKey chip.communicationKey a.payload := by
  have hlen := length_replyFrame chip a.payload
  rw [← body_replyFrame, ← h.devGBuf, Mem.drop_bytes _ _ (by omega), Mem.take_bytes _ _ (by omega),
    Nat.zero_add]

/-- A device check leaves `jlfs` as it is, and its encrypted reply in the buffer. -/
theorem upgradeTurn_check {d e : Device σ} {chunk : List UInt8}
    (hacc : accepted chip chunk d = some e) (hop : e.opcode = jlSuCmdDeviceCheck) :
    ∃ d', upgradeTurn chip chunk d = .ok false d' ∧ SameJlfs d d' ∧
      d'.devGBuf.bytes 4 (deviceCheckAnswer chip e).payload.length
        = xorKey chip.communicationKey (deviceCheckAnswer chip e).payload := by
  have hne : jlSuCmdDeviceCheck ≠ jlSuCmdFlashCrc := by decide
  have heffect : effectOf chip e = (e.upgradeFile, e.fs) := by
    rw [effectOf, hop, if_neg (by decide), if_neg (by decide), if_neg (by decide),
      if_neg (by decide), if_pos rfl]
  have hans : answerOf chip e = some (deviceCheckAnswer chip e) := by
    rw [answerOf, hop, if_neg (by decide), if_neg (by decide), if_neg (by decide),
      if_neg (by decide), if_pos rfl]
  obtain ⟨d', hrun, hd'⟩ :=
    dispatch_answered chip (fun hcrc => absurd (hop.symm.trans hcrc) hne) hans
  obtain ⟨⟨i, rx⟩, henc, rfl⟩ := Option.map_eq_some_iff.mp hacc
  rw [heffect] at hd'
  exact ⟨d', (upgradeTurn_accepted chip henc).trans hrun,
    ⟨hd'.upgradeFile.symm, hd'.fs.symm, hd'.flashAlignsize.symm⟩, encrypted_of_answered chip hd'⟩

/-- A check for another product is answered, and the next one is answered otherwise: in between the
bytes that it repeats have been encrypted. -/
theorem foreignCheck_changes (hkey : chip.communicationKey ≠ 0) {d e : Device σ}
    {chunk : List UInt8} (hacc : accepted chip chunk d = some e) (h : ForeignCheck e) :
    ∃ d', upgradeTurn chip chunk d = .ok false d' ∧ SameJlfs d d' ∧
      d.devGBuf.bytes 6 20 ≠ d'.devGBuf.bytes 6 20 := by
  have hanswer : deviceCheckAnswer chip e
      = .deviceCheckError (Vector.ofFn fun k : Fin 20 => e.devGBuf (6 + k)) := if_neg h.2
  obtain ⟨d', hrun, hsame, hbuf⟩ := upgradeTurn_check chip hacc h.1
  rw [hanswer, (buffers_of_accepted chip hacc).1] at hbuf
  set stale := Vector.ofFn fun k : Fin 20 => d.devGBuf (6 + k) with hstale
  have hlen : (Answer.deviceCheckError stale).payload.length = 26 := by
    simp [Answer.payload, Answer.body]
  refine ⟨d', hrun, hsame, fun heq => hkey ?_⟩
  -- a key that leaves four of the bytes as they were is zero
  refine @eq_zero_of_xorKey _ (Answer.deviceCheckError stale).payload 2 (by omega) fun k hk => ?_
  have hk20 : k < 20 := by omega
  calc (xorKey chip.communicationKey (Answer.deviceCheckError stale).payload).getD (2 + k) 0
      = d'.devGBuf (6 + k) := by
        rw [← hbuf, hlen, Mem.getD_bytes _ _ (by omega), show 4 + (2 + k) = 6 + k by omega]
    _ = d.devGBuf (6 + k) := by
        rw [← Mem.getD_bytes d'.devGBuf 6 hk20, ← heq, Mem.getD_bytes _ _ hk20]
    _ = (Answer.deviceCheckError stale).payload.getD (2 + k) 0 := by
        rw [getD_deviceCheckError_payload stale hk20, hstale, Vector.getElem_ofFn]

/-- **Replies do not depend on the commands before them**, unless the command is a device check for
another product or a block that it wants the checksum of is not read whole.  The reply to such a
check repeats what the bytes 6 to 25 of `dev_g_buf` hold, and changes them; the checksum of such a
block covers what the global buffer holds. -/
theorem replies_eq_iff {d₁ d₂ e₁ : Device σ} {chunk : List UInt8}
    (hacc : accepted chip chunk d₁ = some e₁) (hw : WellFormed e₁) (hjlfs : SameJlfs d₁ d₂) :
    (repliesTo chip chunk d₁ = repliesTo chip chunk d₂ ↔ SameLeftovers chip e₁ d₁ d₂) ∧
      (ForeignCheck e₁ → chip.communicationKey ≠ 0 →
        ∃ d', upgradeTurn chip chunk d₁ = .ok false d' ∧ SameJlfs d₁ d' ∧
          repliesTo chip chunk d₁ ≠ repliesTo chip chunk d') := by
  have hiff {d : Device σ} (hjlfs : SameJlfs d₁ d) :
      repliesTo chip chunk d₁ = repliesTo chip chunk d ↔ SameLeftovers chip e₁ d₁ d := by
    obtain ⟨e, hacc', hjlfs', hbody, hlen⟩ := accepted_congr chip hacc hw hjlfs
    rw [repliesTo_eq chip hacc hw, repliesTo_eq chip hacc' (hw.congr hbody hlen)]
    have hop := hbody.opcode le_rfl
    obtain ⟨hreply₁, hglobal₁⟩ := buffers_of_accepted chip hacc
    obtain ⟨hreply, hglobal⟩ := buffers_of_accepted chip hacc'
    by_cases hforeign : ForeignCheck e₁
    · rw [foreignCheck_frames_eq_iff chip hforeign (hforeign.congr hbody), hreply₁, hreply]
      exact ⟨fun h => ⟨fun _ => h, fun hcrc => absurd (hforeign.1.symm.trans hcrc) (by decide)⟩,
        fun h => h.identity hforeign⟩
    · by_cases hcrc : e₁.opcode = jlSuCmdFlashCrc
      · rw [flashCrc_frames_eq_iff chip hcrc (hop.symm.trans hcrc),
          flashCrcCall_eq_iff chip (crcBlocks_congr chip hjlfs' le_rfl hbody hcrc)
            hjlfs'.flashAlignsize, hglobal₁, hglobal]
        exact ⟨fun h => ⟨fun hf => absurd hf hforeign, fun _ => h⟩, fun h => h.blocks hcrc⟩
      · rw [answerOf_eq hjlfs' le_rfl hbody hforeign hcrc]
        exact iff_of_true rfl ⟨fun hf => absurd hf hforeign, fun hf => absurd hf hcrc⟩
  refine ⟨hiff hjlfs, fun hforeign hkey => ?_⟩
  obtain ⟨d', hrun, hsame, hne⟩ := foreignCheck_changes chip hkey hacc hforeign
  exact ⟨d', hrun, hsame, fun heq => hne (((hiff hsame).mp heq).identity hforeign)⟩

/-! ### Two runs -/

/-- The check that the hosts send. -/
def sampleCheck : List UInt8 := [0xC1, 0] ++ le32 0x12345678

/-- A check for another product. -/
def foreignCheck : List UInt8 := [0xC1, 0, 0, 0, 0, 0]

theorem accepted_sample (payload : List UInt8) (h2 : 2 ≤ payload.length)
    (hlt : payload.length < 2 ^ 16) :
    accepted sampleChip (samplePacket payload) sampleDevice = some (sampleAccepted payload) := by
  rw [accepted]
  exact congrArg (Option.map _) (sampleAccepted_spec payload h2 hlt).1

theorem wellFormed_foreignCheck : WellFormed (sampleAccepted foreignCheck) where
  known := List.mem_cons_of_mem _ List.mem_cons_self
  whole := by decide +kernel
  crcs := by decide

/-- The sample device behind it. -/
def checkedDevice : Device Flash :=
  (upgradeLoop sampleChip [samplePacket sampleCheck]).after sampleDevice

/-- The run that answers the hosts' check. -/
theorem upgradeLoop_sampleCheck :
    upgradeLoop sampleChip [samplePacket sampleCheck] sampleDevice
        = .ok () checkedDevice ∧
      SameJlfs sampleDevice checkedDevice := by
  obtain ⟨d, hrun, hsame, -⟩ := upgradeTurn_check sampleChip
    (accepted_sample sampleCheck (by decide) (by decide)) (by decide)
  have hloop : upgradeLoop sampleChip [samplePacket sampleCheck] sampleDevice = .ok () d := by
    rw [upgradeLoop, bind_ok hrun]
    rfl
  rw [checkedDevice, after_of_ok hloop]
  exact ⟨hloop, hsame⟩

/-- A fresh device and one that has answered the hosts' check are in the same `jlfs` state and
answer the check for another product differently: the second sends bytes of its first reply
again. -/
theorem check_repeats_reply :
    upgradeLoop sampleChip [samplePacket sampleCheck] sampleDevice = .ok () checkedDevice ∧
      SameJlfs sampleDevice checkedDevice ∧
      accepted sampleChip (samplePacket foreignCheck) sampleDevice
        = some (sampleAccepted foreignCheck) ∧
      WellFormed (sampleAccepted foreignCheck) ∧
      repliesTo sampleChip (samplePacket foreignCheck) sampleDevice
        ≠ repliesTo sampleChip (samplePacket foreignCheck) checkedDevice := by
  obtain ⟨hrun, hsame⟩ := upgradeLoop_sampleCheck
  exact ⟨hrun, hsame, accepted_sample foreignCheck (by decide) (by decide),
    wellFormed_foreignCheck, by decide +kernel⟩

/-- The fresh device answers the check for another product otherwise when it comes again. -/
theorem replies_eq_iff_foreignCheck :
    (repliesTo sampleChip (samplePacket foreignCheck) sampleDevice
          = repliesTo sampleChip (samplePacket foreignCheck) checkedDevice ↔
        SameLeftovers sampleChip (sampleAccepted foreignCheck) sampleDevice checkedDevice) ∧
      ∃ d', upgradeTurn sampleChip (samplePacket foreignCheck) sampleDevice = .ok false d' ∧
        SameJlfs sampleDevice d' ∧
        repliesTo sampleChip (samplePacket foreignCheck) sampleDevice
          ≠ repliesTo sampleChip (samplePacket foreignCheck) d' := by
  obtain ⟨hiff, hchanges⟩ := replies_eq_iff sampleChip
    (accepted_sample foreignCheck (by decide) (by decide)) wellFormed_foreignCheck
    upgradeLoop_sampleCheck.2
  exact ⟨hiff, hchanges ⟨by decide, by decide⟩ (by decide)⟩

end FwBootloader.User
