import FwBootloader.User.Equiv.Run

/-!
## The device's handlers, run to their end

One equation a handler (`jlSuErase_apply` and its like): which bytes of the command it takes, which
calls of `jlfs` it makes, and the `Answer` it sends.
-/

namespace FwBootloader.User

open Bytes DevM

variable {σ : Type} (chip : Chip σ)

/-- What a reply says. -/
inductive Answer where
  | deviceInit (upgradeAddr upgradeLen eoffset alignsize : UInt32)
  | deviceInitError
  | flashCrc (crcs : List UInt16)
  | write (status : UInt8)
  | erase (status : UInt8)
  | deviceCheck (vid : Vector UInt8 4) (pid : Vector UInt8 16)
  /-- The `sdk_id` is not the device's; in place of the identity stand bytes of older replies. -/
  | deviceCheckError (stale : Vector UInt8 20)
  | dualBank

/-- The opcode of the command that is answered. -/
def Answer.opcode : Answer → UInt8
  | .deviceInit .. => jlSuCmdDeviceInit
  | .deviceInitError => jlSuCmdDeviceInit
  | .flashCrc _ => jlSuCmdFlashCrc
  | .write _ => jlSuCmdWrite
  | .erase _ => jlSuCmdErase
  | .deviceCheck .. => jlSuCmdDeviceCheck
  | .deviceCheckError _ => jlSuCmdDeviceCheck
  | .dualBank => jlSuCmdUpdataDualBankCrc

/-- Status and parameters of a reply. -/
def Answer.body : Answer → List UInt8
  | .deviceInit upgradeAddr upgradeLen eoffset alignsize =>
    jlSuCmdSuss :: (le32 upgradeAddr ++ le32 upgradeLen ++ le32 eoffset ++ le32 alignsize)
  | .deviceInitError => jlSuCmdOtherError :: List.replicate 16 0
  | .flashCrc crcs => jlSuCmdSuss :: le16s crcs
  | .write status => [status]
  | .erase status => [status]
  | .deviceCheck vid pid => jlSuCmdSuss :: (vid.toList ++ pid.toList ++ le32 0x12345678)
  | .deviceCheckError stale => jlSuCmdSdkIdError :: (stale.toList ++ le32 0x12345678)
  | .dualBank => [jlSuCmdSuss]

/-- A reply before it is encrypted. -/
def Answer.payload (a : Answer) : List UInt8 :=
  a.opcode :: a.body

/-- Every answer but a long list of checksums is short. -/
theorem length_payload_le {a : Answer} (h : ∀ crcs, a = .flashCrc crcs → crcs.length ≤ 28) :
    a.payload.length ≤ 58 := by
  cases a with
  | flashCrc crcs =>
    have hlen := h crcs rfl
    simp only [Answer.payload, Answer.body, List.length_cons, length_le16s]
    omega
  | deviceCheck vid pid => simp [Answer.payload, Answer.body]
  | deviceCheckError stale => simp [Answer.payload, Answer.body]
  | deviceInitError => simp [Answer.payload, Answer.body]
  | deviceInit => simp [Answer.payload, Answer.body]
  | write => simp [Answer.payload, Answer.body]
  | erase => simp [Answer.payload, Answer.body]
  | dualBank => simp [Answer.payload, Answer.body]

/-- From `d` to `d'` a handler has made the accesses `takes` to the command, left `upgrade_file` and
the file system as `r` says, written the reply buffer inside the answer `a`, and sent it; its packet
stays in the buffer. -/
structure Answered (d : Device σ) (r : JlfsFile × σ) (takes : List Access) (a : Answer)
    (d' : Device σ) : Prop where
  rx : d'.rx = d.rx
  gOps : d'.gOps = d.gOps
  flashAlignsize : d'.flashAlignsize = d.flashAlignsize
  upgradeFile : d'.upgradeFile = r.1
  fs : d'.fs = r.2
  devGBuf : d'.devGBuf.bytes 0 (replyFrame chip a.payload).length = replyFrame chip a.payload
  sent : d'.sent = d.sent ++ [replyFrame chip a.payload]
  log : ∃ stores, d'.log = d.log ++ (takes ++ stores ++ finishAccesses a.payload) ∧
    ∀ x ∈ stores, ∃ i < 4 + a.payload.length, x = .buf i

/-- The end of a handler, when status and parameters stand in the reply buffer. -/
theorem finish_answered {d d₀ : Device σ} {takes : List Access} (a : Answer)
    (stores : List Access) {n : ℕ} (hrx : d₀.rx = d.rx) (hgOps : d₀.gOps = d.gOps)
    (halign : d₀.flashAlignsize = d.flashAlignsize)
    (hsent : d₀.sent = d.sent) (hlog : d₀.log = d.log ++ (takes ++ stores))
    (hstores : ∀ x ∈ stores, ∃ i < 4 + a.payload.length, x = .buf i)
    (hbuf : d₀.devGBuf.bytes 5 a.body.length = a.body) (hn : a.body.length + 1 = n)
    (hlt : n < 2 ^ 16 - 4) :
    ∃ d', (setCmdLen n >>= fun _ => setRemainAndUpgradeRsp chip a.opcode : DevM σ Unit) d₀
        = .ok () d' ∧ Answered chip d (d₀.upgradeFile, d₀.fs) takes a d' := by
  refine ⟨_, finish_apply chip a.opcode hlt d₀ hbuf hn, hrx, hgOps, halign, rfl, rfl,
    Mem.bytes_write_self .., ?_, stores, ?_, hstores⟩
  · rw [Device.finished_sent, hsent]
    rfl
  · rw [Device.finished_log, hlog, List.append_assoc]
    rfl

/-- The stores of a list of bytes inside an answer. -/
theorem mem_bufAccesses {off n : ℕ} {x : Access} (h : x ∈ bufAccesses off n) {m : ℕ}
    (hle : off + n ≤ m) : ∃ i < m, x = .buf i := by
  obtain ⟨k, hk, rfl⟩ := List.mem_map.mp h
  exact ⟨off + k, by have := List.mem_range.mp hk; omega, rfl⟩

/-- The end of a handler that answers with a status only. -/
theorem status_answered {d d₀ : Device σ} {takes : List Access} (a : Answer) {st : UInt8}
    (hbody : a.body = [st]) (hrx : d₀.rx = d.rx) (hgOps : d₀.gOps = d.gOps)
    (halign : d₀.flashAlignsize = d.flashAlignsize) (hsent : d₀.sent = d.sent)
    (hlog : d₀.log = d.log ++ takes) :
    ∃ d', (set8 DevItem.rspStatus st >>= fun _ => setCmdLen (1 + 1) >>= fun _ =>
        setRemainAndUpgradeRsp chip a.opcode : DevM σ Unit) d₀ = .ok () d' ∧
      Answered chip d (d₀.upgradeFile, d₀.fs) takes a d' := by
  have hlen : a.payload.length = 2 := by rw [Answer.payload, hbody]; rfl
  rw [bind_ok (set8_apply ..)]
  refine finish_answered chip a (bufAccesses 5 1) hrx hgOps halign hsent ?_
    (fun x hx => mem_bufAccesses hx (by rw [hlen])) ?_ (by rw [hbody]; rfl) (by decide)
  · rw [Device.stored_log, hlog, List.append_assoc]
    rfl
  · rw [hbody]
    exact Mem.bytes_write_self _ 5 [st]

/-! ### Erase, write and the dual-bank checksum -/

/-- The call of `jlfs_erase` that an erase command makes. -/
def eraseCall (d : Device σ) : UInt32 × JlfsFile × σ :=
  let file := chip.jlfsFseek d.upgradeFile (d.cmd32 CommandItem.eraseAddress) d.fs
  chip.jlfsErase file.1 (eraseTypeLen (d.cmd32 CommandItem.eraseType)) file.2

def eraseAnswer (d : Device σ) : Answer :=
  .erase (if (eraseCall chip d).1 = 0 then jlSuCmdEraseError else jlSuCmdSuss)

theorem jlSuErase_answered (d : Device σ) :
    ∃ d', jlSuErase chip d = .ok () d' ∧ Answered chip d (eraseCall chip d).2
      (cmdAccesses (d.gOps + CommandItem.eraseAddress) 4
        ++ cmdAccesses (d.gOps + CommandItem.eraseType) 4)
      (eraseAnswer chip d) d' := by
  simp only [jlSuErase, bind_apply, cmd32_apply, onUpgradeFile_apply]
  split_ifs with h
  · have ha : eraseAnswer chip d = .erase jlSuCmdEraseError :=
      congrArg Answer.erase (if_pos h)
    rw [ha]
    exact status_answered chip (.erase jlSuCmdEraseError) rfl rfl rfl rfl rfl (by simp)
  · have ha : eraseAnswer chip d = .erase jlSuCmdSuss :=
      congrArg Answer.erase (if_neg h)
    rw [ha]
    exact status_answered chip (.erase jlSuCmdSuss) rfl rfl rfl rfl rfl (by simp)

/-- The call of `jlfs_write` that a write command makes. -/
def writeCall (d : Device σ) : UInt32 × JlfsFile × σ :=
  let file := chip.jlfsFseek d.upgradeFile (d.cmd32 CommandItem.writeAddress) d.fs
  chip.jlfsWrite file.1 (d.rx.bytes (d.gOps + CommandItem.writeData)
    (d.cmd32 CommandItem.writeDataLength).toNat) file.2

def writeAnswer (d : Device σ) : Answer :=
  .write (if (writeCall chip d).1 ≠ d.cmd32 CommandItem.writeDataLength then jlSuCmdWriteError
    else jlSuCmdSuss)

theorem jlSuWriteFlash_answered (d : Device σ) :
    ∃ d', jlSuWriteFlash chip d = .ok () d' ∧ Answered chip d (writeCall chip d).2
      (cmdAccesses (d.gOps + CommandItem.writeAddress) 4
        ++ cmdAccesses (d.gOps + CommandItem.writeDataLength) 4
        ++ cmdAccesses (d.gOps + CommandItem.writeData)
            (d.cmd32 CommandItem.writeDataLength).toNat)
      (writeAnswer chip d) d' := by
  simp only [jlSuWriteFlash, bind_apply, cmd32_apply, cmdBytes_apply, onUpgradeFile_apply]
  split_ifs with h
  · have ha : writeAnswer chip d = .write jlSuCmdWriteError :=
      congrArg Answer.write (if_pos h)
    rw [ha]
    exact status_answered chip (.write jlSuCmdWriteError) rfl rfl rfl rfl rfl (by simp)
  · have ha : writeAnswer chip d = .write jlSuCmdSuss :=
      congrArg Answer.write (if_neg h)
    rw [ha]
    exact status_answered chip (.write jlSuCmdSuss) rfl rfl rfl rfl rfl (by simp)

/-- The call of `jlfs_updata_dual_bank_info` that its command makes. -/
def dualBankCall (d : Device σ) : UInt32 × JlfsFile × σ :=
  chip.jlfsUpdataDualBankInfo d.upgradeFile (d.cmd16 CommandItem.dualBankInfoCrc) d.fs

theorem jlSuUpdataDualBankCrc_answered (d : Device σ) :
    ∃ d', jlSuUpdataDualBankCrc chip d = .ok () d' ∧ Answered chip d (dualBankCall chip d).2
      (cmdAccesses (d.gOps + CommandItem.dualBankInfoCrc) 2) .dualBank d' := by
  simp only [jlSuUpdataDualBankCrc, bind_apply, cmd16_apply, onUpgradeFile_apply]
  exact status_answered chip .dualBank rfl rfl rfl rfl rfl (by simp)

/-! ### Device check -/

def deviceCheckAnswer (d : Device σ) : Answer :=
  if d.cmd32 CommandItem.deviceCheckSdkId = 0x12345678 then
    .deviceCheck (chip.jlfsGetPidVid d.fs).2 (chip.jlfsGetPidVid d.fs).1
  else .deviceCheckError (Vector.ofFn fun k : Fin 20 => d.devGBuf (6 + k))

/-- The end of the device check, when the identity stands in the reply buffer. -/
theorem deviceCheck_finish {d d₁ : Device σ} {takes stores : List Access} (a : Answer) (st : UInt8)
    (l tail : List UInt8) (hbody : a.body = [st] ++ l ++ tail) (hl : l.length = 20)
    (htail : tail.length = 4) (hrx : d₁.rx = d.rx) (hgOps : d₁.gOps = d.gOps)
    (halign : d₁.flashAlignsize = d.flashAlignsize) (hsent : d₁.sent = d.sent)
    (hlog : d₁.log = d.log ++ (takes ++ stores)) (hstores : ∀ x ∈ stores, ∃ i < 30, x = .buf i)
    (hbuf : d₁.devGBuf.bytes 6 20 = l) :
    ∃ d', (set8 DevItem.rspStatus st >>= fun _ => setBytes DevItem.deviceCheckSdkId tail >>=
        fun _ => setCmdLen (1 + 1 + 4 + 16 + 4) >>= fun _ =>
        setRemainAndUpgradeRsp chip a.opcode : DevM σ Unit) d₁ = .ok () d' ∧
      Answered chip d (d₁.upgradeFile, d₁.fs) takes a d' := by
  have hlen : a.body.length = 25 := by simp [hbody, hl, htail]
  have hplen : a.payload.length = 26 := by rw [Answer.payload, List.length_cons, hlen]
  rw [bind_ok (set8_apply ..), bind_ok (setBytes_apply ..)]
  refine finish_answered chip a (stores ++ bufAccesses 5 1 ++ bufAccesses 26 4) hrx hgOps halign
    hsent ?_ ?_ ?_ (by rw [hlen]) (by decide)
  · simp only [Device.stored_log, hlog, List.append_assoc, htail]
    rfl
  · intro x hx
    rw [hplen]
    rcases List.mem_append.mp hx with hx | hx
    · rcases List.mem_append.mp hx with hx | hx
      · exact hstores x hx
      · exact mem_bufAccesses hx (by decide)
    · exact mem_bufAccesses hx (by decide)
  · have hstatus : ((d₁.devGBuf.write 5 [st]).write 26 tail).bytes 5 1 = [st] := by
      rw [Mem.bytes_write_of_disjoint _ (Or.inl (by decide))]
      exact Mem.bytes_write_self _ 5 [st]
    have hid : ((d₁.devGBuf.write 5 [st]).write 26 tail).bytes 6 20 = l := by
      rw [Mem.bytes_write_of_disjoint _ (Or.inl (by decide)),
        Mem.bytes_write_of_disjoint _ (Or.inr (by simp)), hbuf]
    have hsdk : ((d₁.devGBuf.write 5 [st]).write 26 tail).bytes 26 4 = tail := by
      rw [← htail, Mem.bytes_write_self]
    rw [hlen, hbody, show 25 = 1 + 20 + 4 from rfl, ← hstatus, ← hid, ← hsdk]
    exact (Mem.bytes_add _ 5 (1 + 20) 4).trans (congrArg (· ++ _) (Mem.bytes_add _ 5 1 20))

/-- With another `sdk_id` the identity fields of the reply are not written. -/
theorem jlSuDevcieCheck_answered (d : Device σ) :
    ∃ d', jlSuDevcieCheck chip d = .ok () d' ∧ Answered chip d (d.upgradeFile, d.fs)
      (cmdAccesses (d.gOps + CommandItem.deviceCheckSdkId) 4) (deviceCheckAnswer chip d) d' := by
  simp only [jlSuDevcieCheck, bind_apply, cmd32_apply]
  set takes := cmdAccesses (d.gOps + CommandItem.deviceCheckSdkId) 4 with htakes
  split_ifs with h
  · set pid := (chip.jlfsGetPidVid d.fs).1 with hpid
    set vid := (chip.jlfsGetPidVid d.fs).2 with hvid
    have ha : deviceCheckAnswer chip d = .deviceCheck vid pid := if_pos h
    have hbody : (Answer.deviceCheck vid pid).body
        = [jlSuCmdSuss] ++ (vid.toList ++ pid.toList) ++ le32 0x12345678 := by
      simp [Answer.body]
    have hlog : d.log ++ takes ++ bufAccesses 10 pid.toList.length
          ++ bufAccesses 6 vid.toList.length
        = d.log ++ (takes ++ (bufAccesses 10 16 ++ bufAccesses 6 4)) := by
      simp only [Vector.length_toList, List.append_assoc]
    -- `pid` is stored first, and `vid` in front of it
    have hbuf : ((d.devGBuf.write 10 pid.toList).write 6 vid.toList).bytes 6 20
        = vid.toList ++ pid.toList := by
      have hlen : (vid.toList ++ pid.toList).length = 20 := by simp
      rw [Mem.write_prepend _ _ _ (by rw [Vector.length_toList]), ← hlen, Mem.bytes_write_self]
    rw [ha, bind_ok (get_apply ..), bind_ok (setBytes_apply ..), bind_ok (setBytes_apply ..)]
    exact deviceCheck_finish chip (.deviceCheck vid pid) jlSuCmdSuss (vid.toList ++ pid.toList)
      (le32 0x12345678) hbody (by simp) (length_le32 _) rfl rfl rfl rfl hlog
      (fun x hx => (List.mem_append.mp hx).elim (mem_bufAccesses · (by decide))
        (mem_bufAccesses · (by decide))) hbuf
  · -- the identity of another product: the buffer keeps what it held
    set stale := Vector.ofFn fun k : Fin 20 => d.devGBuf (6 + k) with hstale
    have ha : deviceCheckAnswer chip d = .deviceCheckError stale := if_neg h
    have hbody : (Answer.deviceCheckError stale).body
        = [jlSuCmdSdkIdError] ++ stale.toList ++ le32 0x12345678 := by
      simp [Answer.body]
    have hbuf : d.devGBuf.bytes 6 20 = stale.toList := by
      apply List.ext_getElem (by simp)
      intro i _ _
      simp [hstale]
    rw [ha]
    exact deviceCheck_finish chip (.deviceCheckError stale) jlSuCmdSdkIdError stale.toList
      (le32 0x12345678) hbody (by simp) (length_le32 _) rfl rfl rfl rfl
      (congrArg (d.log ++ ·) (List.append_nil _).symm) (fun x hx => absurd hx (by simp)) hbuf

/-! ### Device init -/

/-- The call with which an init command selects its zone. -/
def initCall (d : Device σ) : UInt8 × JlfsFile × σ :=
  if d.cmd8 CommandItem.initMode = 3 then
    let r := chip.jlfsGetIdleBankInfo d.upgradeFile (d.cmd8 CommandItem.initMode).toUInt32 d.fs
    (r.1.toUInt8, r.2)
  else
    chip.jlfsFopenByName d.upgradeFile (d.rx.bytes (d.gOps + CommandItem.initFileName) 16)
      (d.cmd8 CommandItem.initMode) d.fs

def initAnswer (d : Device σ) : Answer :=
  let r := initCall chip d
  if r.1 ≠ 0 then .deviceInitError
  else .deviceInit r.2.1.addr r.2.1.size (chip.jlfsGetFlashEoffsetSize r.2.2)
    (chip.jlfsGetFlashAlignSize r.2.2)

/-- The bytes that an init command takes; the file name only when it opens by name. -/
def initTakes (d : Device σ) : List Access :=
  cmdAccesses (d.gOps + CommandItem.initMode) 1
    ++ (if d.cmd8 CommandItem.initMode = 3 then []
      else cmdAccesses (d.gOps + CommandItem.initFileName) 16)
    ++ cmdAccesses (d.gOps + CommandItem.initMode) 1

/-- `jl_su_device_init` behind the call that selects the zone. -/
def initReply (err : UInt8) : DevM σ Unit := do
  if err ≠ 0 then
    setBytes DevItem.initUpgradeAddr (List.replicate 16 0)
    set8 DevItem.rspStatus jlSuCmdOtherError
  else
    let d ← get
    set32 DevItem.initUpgradeAddr d.upgradeFile.addr
    set32 DevItem.initUpgradeLen d.upgradeFile.size
    set32 DevItem.initUpgradeEoffset (chip.jlfsGetFlashEoffsetSize d.fs)
    set32 DevItem.initFlashAlignsize (chip.jlfsGetFlashAlignSize d.fs)
    set8 DevItem.rspStatus jlSuCmdSuss
  setCmdLen (1 + 1 + 4 + 4 + 4 + 4)
  setRemainAndUpgradeRsp chip jlSuCmdDeviceInit

theorem initReply_answered {d d₁ : Device σ} {takes : List Access} (err : UInt8)
    (hrx : d₁.rx = d.rx) (hgOps : d₁.gOps = d.gOps) (halign : d₁.flashAlignsize = d.flashAlignsize)
    (hsent : d₁.sent = d.sent) (hlog : d₁.log = d.log ++ takes) :
    ∃ d', initReply chip err d₁ = .ok () d' ∧
      Answered chip d (d₁.upgradeFile, d₁.fs) takes
        (if err ≠ 0 then .deviceInitError
          else .deviceInit d₁.upgradeFile.addr d₁.upgradeFile.size
            (chip.jlfsGetFlashEoffsetSize d₁.fs) (chip.jlfsGetFlashAlignSize d₁.fs)) d' := by
  rw [initReply]
  split_ifs with h
  · rw [bind_ok (setBytes_apply ..), bind_ok (set8_apply ..)]
    refine finish_answered chip .deviceInitError (bufAccesses 6 16 ++ bufAccesses 5 1) hrx hgOps
      halign hsent ?_ ?_ ?_ rfl (by decide)
    · simp only [Device.stored_log, hlog, List.append_assoc, List.length_replicate]
      rfl
    · intro x hx
      exact (List.mem_append.mp hx).elim (mem_bufAccesses · (by decide))
        (mem_bufAccesses · (by decide))
    · -- the zeros are stored first, and the status in front of them
      have hbuf := Mem.write_prepend d₁.devGBuf [jlSuCmdOtherError] (List.replicate 16 0)
        (show 5 + 1 = 6 from rfl)
      rw [Device.stored_devGBuf, Device.stored_devGBuf]
      exact (congrArg (·.bytes 5 17) hbuf).trans (Mem.bytes_write_self _ 5 _)
  · rw [bind_ok (get_apply ..), bind_ok (set32_apply ..), bind_ok (set32_apply ..),
      bind_ok (set32_apply ..), bind_ok (set32_apply ..), bind_ok (set8_apply ..)]
    refine finish_answered chip (.deviceInit _ _ _ _)
      (bufAccesses 6 4 ++ bufAccesses 10 4 ++ bufAccesses 14 4 ++ bufAccesses 18 4
        ++ bufAccesses 5 1) hrx hgOps halign hsent ?_ ?_ ?_ rfl (by decide)
    · simp only [Device.stored_log, hlog, List.append_assoc, length_le32]
      rfl
    · intro x hx
      show ∃ i < 4 + 18, x = .buf i
      simp only [List.mem_append] at hx
      rcases hx with (((hx | hx) | hx) | hx) | hx <;> exact mem_bufAccesses hx (by decide)
    · simp only [Device.stored_devGBuf]
      set a := le32 d₁.upgradeFile.addr
      set b := le32 d₁.upgradeFile.size
      set c := le32 (chip.jlfsGetFlashEoffsetSize d₁.fs)
      set e := le32 (chip.jlfsGetFlashAlignSize d₁.fs)
      -- the four fields are stored one behind the other
      have hbuf :
          ((((d₁.devGBuf.write 6 a).write 10 b).write 14 c).write 18 e).write 5 [jlSuCmdSuss]
            = d₁.devGBuf.write 5 ([jlSuCmdSuss] ++ (a ++ b ++ c ++ e)) := by
        have hab : (d₁.devGBuf.write 6 a).write 10 b = d₁.devGBuf.write 6 (a ++ b) :=
          Mem.write_append _ _ _ rfl
        have hc : (d₁.devGBuf.write 6 (a ++ b)).write 14 c = d₁.devGBuf.write 6 (a ++ b ++ c) :=
          Mem.write_append _ _ _ rfl
        have he : (d₁.devGBuf.write 6 (a ++ b ++ c)).write 18 e
            = d₁.devGBuf.write 6 (a ++ b ++ c ++ e) := Mem.write_append _ _ _ rfl
        rw [hab, hc, he]
        exact Mem.write_prepend _ _ _ rfl
      exact (congrArg (·.bytes 5 17) hbuf).trans (Mem.bytes_write_self _ 5 _)

theorem jlSuDeviceInit_answered (d : Device σ) :
    ∃ d', jlSuDeviceInit chip d = .ok () d' ∧
      Answered chip d (initCall chip d).2 (initTakes d) (initAnswer chip d) d' := by
  rw [jlSuDeviceInit, bind_ok (cmd8_apply ..)]
  by_cases h : d.cmd8 CommandItem.initMode = 3
  · have hcall : initCall chip d = ((chip.jlfsGetIdleBankInfo d.upgradeFile
        (d.cmd8 CommandItem.initMode).toUInt32 d.fs).1.toUInt8, (chip.jlfsGetIdleBankInfo
        d.upgradeFile (d.cmd8 CommandItem.initMode).toUInt32 d.fs).2) := if_pos h
    rw [if_pos h, bind_ok (cmd8_apply ..), bind_ok (onUpgradeFile_apply ..), initAnswer, hcall]
    refine initReply_answered chip _ rfl rfl rfl rfl ?_
    simp [initTakes, h]
  · have hcall : initCall chip d = chip.jlfsFopenByName d.upgradeFile
        (d.rx.bytes (d.gOps + CommandItem.initFileName) 16) (d.cmd8 CommandItem.initMode) d.fs :=
      if_neg h
    rw [if_neg h, bind_ok (cmdBytes_apply ..), bind_ok (cmd8_apply ..),
      bind_ok (onUpgradeFile_apply ..), initAnswer, hcall]
    refine initReply_answered chip _ rfl rfl rfl rfl ?_
    simp [initTakes, h]

/-! ### Flash checksums -/

/-- The checksums of `n` blocks of `l` bytes, read one behind the other, and what the reads
leave. -/
def readCrcs (l : UInt32) : ℕ → JlfsFile → σ → Mem → List UInt16 × JlfsFile × σ × Mem
  | 0, file, fs, buf => ([], file, fs, buf)
  | n + 1, file, fs, buf =>
    let r := chip.jlfsFread file l fs
    let buf := buf.write 0 r.1
    let rest := readCrcs l n r.2.1 r.2.2 buf
    (chip.chipCrc16 (buf.bytes 0 l.toNat) :: rest.1, rest.2)

theorem length_readCrcs (l : UInt32) (n : ℕ) (file : JlfsFile) (fs : σ) (buf : Mem) :
    (readCrcs chip l n file fs buf).1.length = n := by
  induction n generalizing file fs buf with
  | zero => rfl
  | succ n ih => rw [readCrcs, List.length_cons, ih]

theorem bufAccesses_add (off a b : ℕ) :
    bufAccesses off (a + b) = bufAccesses off a ++ bufAccesses (off + a) b := by
  rw [bufAccesses, List.range_add, List.map_append, List.map_map]
  simp only [bufAccesses, Function.comp_def, Nat.add_assoc]

/-- The loop stores the checksums one behind the other. -/
theorem flashCrcLoop_apply (l : UInt32) (n i : ℕ) (d : Device σ) :
    let r := readCrcs chip l n d.upgradeFile d.fs d.globalBuffer
    flashCrcLoop chip l n i d = .ok ()
      { d with
        devGBuf := d.devGBuf.write (DevItem.crcListCrc + 2 * i) (le16s r.1)
        upgradeFile := r.2.1
        fs := r.2.2.1
        globalBuffer := r.2.2.2
        log := d.log ++ bufAccesses (DevItem.crcListCrc + 2 * i) (2 * n) } := by
  intro r
  induction n generalizing i d with
  | zero =>
    show EStateM.Result.ok () d = _
    refine congrArg (EStateM.Result.ok ()) ?_
    have hw : d.devGBuf.write (DevItem.crcListCrc + 2 * i) (le16s []) = d.devGBuf :=
      Mem.write_nil ..
    have hl : d.log ++ bufAccesses (DevItem.crcListCrc + 2 * i) (2 * 0) = d.log :=
      List.append_nil _
    exact Device.ext rfl rfl hw.symm rfl rfl rfl rfl rfl hl.symm
  | succ n ih =>
    set read := chip.jlfsFread d.upgradeFile l d.fs with hread
    set d₁ := (d.called read).buffered read.1 with hd₁
    set crc := chip.chipCrc16 (d₁.globalBuffer.bytes 0 l.toNat) with hcrc
    have hstep : flashCrcLoop chip l (n + 1) i d
        = flashCrcLoop chip l n (i + 1) (d₁.stored (DevItem.crcListCrc + 2 * i) (le16 crc)) := by
      rw [flashCrcLoop, bind_ok (onUpgradeFile_apply ..), bind_ok (modify_buffered ..),
        bind_ok (get_apply ..), bind_ok (set16_apply ..)]
    have hbuf (m : Mem) (rest : List UInt16) :
        (m.write (DevItem.crcListCrc + 2 * i) (le16 crc)).write
            (DevItem.crcListCrc + 2 * (i + 1)) (le16s rest)
          = m.write (DevItem.crcListCrc + 2 * i) (le16s (crc :: rest)) :=
      Mem.write_append m _ _ rfl
    have hlog : d.log ++ bufAccesses (DevItem.crcListCrc + 2 * i) 2
          ++ bufAccesses (DevItem.crcListCrc + 2 * (i + 1)) (2 * n)
        = d.log ++ bufAccesses (DevItem.crcListCrc + 2 * i) (2 * (n + 1)) := by
      rw [show 2 * (n + 1) = 2 + 2 * n by omega, bufAccesses_add, List.append_assoc]
      rfl
    rw [hstep, ih]
    exact congrArg (EStateM.Result.ok ())
      (Device.ext rfl rfl (hbuf _ _) rfl rfl rfl rfl rfl hlog)

/-- The block count of a flash CRC command. -/
def flashCrcCount (d : Device σ) : ℕ :=
  (d.cmd32 CommandItem.crcListLen / d.cmd32 CommandItem.crcListBlockSize).toNat

/-- The checksums that a flash CRC command asks for, and what reading them leaves. -/
def flashCrcCall (d : Device σ) : List UInt16 × JlfsFile × σ × Mem :=
  let file := chip.jlfsFseek d.upgradeFile (d.cmd32 CommandItem.crcListAddress) d.fs
  readCrcs chip d.flashAlignsize (flashCrcCount d) file.1 file.2 d.globalBuffer

/-- The parameters of a flash CRC command, in the order in which they are taken. -/
def flashCrcTakes (d : Device σ) : List Access :=
  cmdAccesses (d.gOps + CommandItem.crcListLen) 4
    ++ cmdAccesses (d.gOps + CommandItem.crcListBlockSize) 4
    ++ cmdAccesses (d.gOps + CommandItem.crcListAddress) 4

/-- A flash CRC command with block size zero stops the device. -/
theorem jlSuFlashCrc_divByZero (d : Device σ) (h : d.cmd32 CommandItem.crcListBlockSize = 0) :
    jlSuFlashCrc chip d = .error .divByZero ((d.taken CommandItem.crcListLen 4).taken
      CommandItem.crcListBlockSize 4) := by
  have h' : (d.taken CommandItem.crcListLen 4).cmd32 CommandItem.crcListBlockSize = 0 := h
  rw [jlSuFlashCrc, bind_ok (cmd32_apply ..), bind_ok (cmd32_apply ..), if_pos h']
  rfl

/-- The device when the checksums stand in the reply. -/
def Device.crcsStored (d : Device σ) : Device σ :=
  { d with
    devGBuf := (d.devGBuf.write 6 (le16s (flashCrcCall chip d).1)).write 5 [jlSuCmdSuss]
    upgradeFile := (flashCrcCall chip d).2.1
    fs := (flashCrcCall chip d).2.2.1
    globalBuffer := (flashCrcCall chip d).2.2.2
    log := d.log ++ (flashCrcTakes d ++ (bufAccesses 6 (2 * flashCrcCount d) ++ bufAccesses 5 1)) }

theorem jlSuFlashCrc_eq (d : Device σ) (h : d.cmd32 CommandItem.crcListBlockSize ≠ 0) :
    jlSuFlashCrc chip d
      = finish chip jlSuCmdFlashCrc (1 + 1 + flashCrcCount d * 2) (d.crcsStored chip) := by
  have h' : (d.taken CommandItem.crcListLen 4).cmd32 CommandItem.crcListBlockSize ≠ 0 := h
  rw [jlSuFlashCrc, bind_ok (cmd32_apply ..), bind_ok (cmd32_apply ..), if_neg h']
  beta_reduce
  rw [bind_ok (get_apply ..), bind_ok (cmd32_apply ..), bind_ok (onUpgradeFile_apply ..),
    bind_ok (flashCrcLoop_apply ..), bind_ok (set8_apply ..)]
  refine congrArg (finish chip jlSuCmdFlashCrc (1 + 1 + flashCrcCount d * 2)) ?_
  refine Device.ext rfl rfl rfl rfl rfl rfl rfl rfl ?_
  simp [Device.crcsStored, flashCrcTakes]
  rfl

theorem jlSuFlashCrc_answered (d : Device σ) (h : d.cmd32 CommandItem.crcListBlockSize ≠ 0)
    (hfits : flashCrcCount d < 2 ^ 15 - 3) :
    ∃ d', jlSuFlashCrc chip d = .ok () d' ∧
      Answered chip d ((flashCrcCall chip d).2.1, (flashCrcCall chip d).2.2.1) (flashCrcTakes d)
        (.flashCrc (flashCrcCall chip d).1) d' := by
  rw [jlSuFlashCrc_eq chip d h]
  have hlen : (flashCrcCall chip d).1.length = flashCrcCount d := length_readCrcs ..
  have hbody : (Answer.flashCrc (flashCrcCall chip d).1).body.length = 2 * flashCrcCount d + 1 := by
    rw [Answer.body, List.length_cons, length_le16s, hlen]
  refine finish_answered chip (.flashCrc (flashCrcCall chip d).1)
    (bufAccesses 6 (2 * flashCrcCount d) ++ bufAccesses 5 1) rfl rfl rfl rfl rfl ?_ ?_
    (by rw [hbody]; omega) (by omega)
  · intro x hx
    rw [Answer.payload, List.length_cons, hbody]
    exact (List.mem_append.mp hx).elim (mem_bufAccesses · (by omega))
      (mem_bufAccesses · (by omega))
  · have hg : (d.crcsStored chip).devGBuf
        = d.devGBuf.write 5 (Answer.flashCrc (flashCrcCall chip d).1).body :=
      Mem.write_prepend _ [jlSuCmdSuss] _ rfl
    rw [hg, Mem.bytes_write_self]

end FwBootloader.User
