import FwBootloader.User.Equiv.Dispatch

/-!
## Which memory the device's handlers touch

* `taken_within_iff`: the bytes that are taken from an accepted command lie inside its checked body
  exactly when the body is as long as the opcode's parameters need (`neededLen`); for a write these
  include as many data bytes as its own length field says.
* `replySafe_iff`: a reply is built without a division by zero, inside the 64 bytes of `dev_g_buf`
  and of `tx`, and with an untruncated `cmd_len`, exactly when the command is not a flash CRC
  command or asks for at most 28 blocks of a size that is not zero.

Neither bound is checked by the code: `emptyWrite` and `longFlashCrc` are commands, accepted by
`enc_cmd_data`, that break them.
-/

namespace FwBootloader.User

open Bytes DevM

variable {σ α : Type} (chip : Chip σ)

/-- The accesses of a run from `d`. -/
def DevM.accesses (x : DevM σ α) (d : Device σ) : List Access :=
  match x { d with log := [] } with
  | .ok _ d' => d'.log
  | .error _ d' => d'.log

theorem accesses_of_ok {x : DevM σ α} {d d' : Device σ} {a : α}
    (h : x { d with log := [] } = .ok a d') : x.accesses d = d'.log := by
  rw [DevM.accesses, h]

/-! ### Steps that cannot fault -/

/-- The step ends without a fault and only adds accesses in `P` to the log. -/
def OnlyLogs (P : Access → Prop) (x : DevM σ α) : Prop :=
  ∀ d, ∃ a d' as, x d = .ok a d' ∧ d'.log = d.log ++ as ∧ ∀ b ∈ as, P b

theorem OnlyLogs.bind {P : Access → Prop} {β : Type} {x : DevM σ α} {f : α → DevM σ β}
    (hx : OnlyLogs P x) (hf : ∀ a, OnlyLogs P (f a)) : OnlyLogs P (x >>= f) := by
  intro d
  obtain ⟨a, d₁, as, hrun, hlog, has⟩ := hx d
  obtain ⟨b, d₂, bs, hrun', hlog', hbs⟩ := hf a d₁
  refine ⟨b, d₂, as ++ bs, by rw [bind_ok hrun, hrun'], by rw [hlog', hlog, List.append_assoc], ?_⟩
  intro c hc
  exact (List.mem_append.mp hc).elim (has c) (hbs c)

theorem onlyLogs_get {P : Access → Prop} : OnlyLogs P (get : DevM σ (Device σ)) :=
  fun d => ⟨d, d, [], rfl, (List.append_nil _).symm, by simp⟩

theorem onlyLogs_pure {P : Access → Prop} (a : α) : OnlyLogs P (pure a : DevM σ α) :=
  fun d => ⟨a, d, [], rfl, (List.append_nil _).symm, by simp⟩

theorem onlyLogs_record {P : Access → Prop} {as : List Access} (h : ∀ a ∈ as, P a) :
    OnlyLogs P (record as : DevM σ Unit) :=
  fun _ => ⟨(), _, as, rfl, rfl, h⟩

theorem onlyLogs_setBytes {P : Access → Prop} (hP : ∀ i, P (.buf i)) (off : ℕ) (l : List UInt8) :
    OnlyLogs P (setBytes off l : DevM σ Unit) :=
  fun _ => ⟨(), _, bufAccesses off l.length, rfl, rfl, forall_bufAccesses.mpr fun _ _ => hP _⟩

/-- However long the reply is, the end of a handler takes no byte of the command. -/
theorem onlyLogs_finish (cmd : UInt8) (n : ℕ) :
    OnlyLogs (fun a => ∀ k, a ≠ .cmd k) (finish chip cmd n) := by
  have hset (off : ℕ) (l : List UInt8) :
      OnlyLogs (fun a => ∀ k, a ≠ .cmd k) (setBytes off l : DevM σ Unit) :=
    onlyLogs_setBytes (fun _ _ => by rintro ⟨⟩) off l
  have hrecord (a : Access) (h : ∀ k, a ≠ .cmd k) :
      OnlyLogs (fun a => ∀ k, a ≠ .cmd k) (record [a] : DevM σ Unit) :=
    onlyLogs_record fun b hb => List.mem_singleton.mp hb ▸ h
  have hsend (len : ℕ) : OnlyLogs (fun a => ∀ k, a ≠ .cmd k) (upgradeRsp len : DevM σ Unit) :=
    fun _ => ⟨(), _, [.tx len], upgradeRsp_apply .., rfl, by simp⟩
  have hlen : OnlyLogs (fun a => ∀ k, a ≠ .cmd k) (getCmdLen : DevM σ UInt16) :=
    onlyLogs_get.bind fun _ => onlyLogs_pure _
  have hassign : OnlyLogs (fun a => ∀ k, a ≠ .cmd k) (setCmdLen n : DevM σ Unit) :=
    (hrecord (.cmdLen n) fun _ => by rintro ⟨⟩).bind fun _ => hset _ _
  exact hassign.bind fun _ => (hset _ _).bind fun _ => (hset _ _).bind fun _ =>
    hlen.bind fun len => (hset _ _).bind fun _ => onlyLogs_get.bind fun d =>
    (hrecord (.rsp (d.devGBuf.bytes 4 len.toNat)) fun _ => by rintro ⟨⟩).bind fun _ =>
    (hset _ _).bind fun _ => onlyLogs_get.bind fun _ => (hset _ _).bind fun _ =>
    (hset _ _).bind fun _ => hsend _

/-! ### Command bytes -/

/-- The command bytes among the accesses have indices from `lo` to `hi - 1`. -/
def Within (lo hi : ℕ) (as : List Access) : Prop :=
  ∀ k, .cmd k ∈ as → lo ≤ k ∧ k < hi

theorem within_append {lo hi : ℕ} {as bs : List Access} :
    Within lo hi (as ++ bs) ↔ Within lo hi as ∧ Within lo hi bs := by
  simp only [Within, List.mem_append]
  constructor
  · intro h
    exact ⟨fun k hk => h k (Or.inl hk), fun k hk => h k (Or.inr hk)⟩
  · rintro ⟨ha, hb⟩ k (hk | hk)
    · exact ha k hk
    · exact hb k hk

theorem within_cmdAccesses {lo hi off n : ℕ} :
    Within lo hi (cmdAccesses off n) ↔ n = 0 ∨ lo ≤ off ∧ off + n ≤ hi := by
  simp only [Within, cmdAccesses, List.mem_map, List.mem_range, Access.cmd.injEq]
  constructor
  · intro h
    rcases Nat.eq_zero_or_pos n with hn | hn
    · exact Or.inl hn
    · have h0 := h off ⟨0, hn, rfl⟩
      have h1 := h (off + (n - 1)) ⟨n - 1, by omega, rfl⟩
      omega
  · rintro h k ⟨j, hj, rfl⟩
    omega

theorem within_of_forall_notMem {lo hi : ℕ} {as : List Access} (h : ∀ k, .cmd k ∉ as) :
    Within lo hi as :=
  fun k hk => absurd hk (h k)

theorem cmd_notMem_bufAccesses (off n k : ℕ) : Access.cmd k ∉ bufAccesses off n := by
  simp [bufAccesses]

theorem cmd_notMem_finishAccesses (p : List UInt8) (k : ℕ) :
    Access.cmd k ∉ finishAccesses p := by
  simp [finishAccesses, cmd_notMem_bufAccesses]

/-- How many bytes from the opcode on the handler of the current command reads. -/
def neededLen (d : Device σ) : ℕ :=
  if d.opcode = jlSuCmdDeviceInit then 19
  else if d.opcode = jlSuCmdFlashCrc then 14
  else if d.opcode = jlSuCmdWrite then 10 + (d.cmd32 CommandItem.writeDataLength).toNat
  else if d.opcode = jlSuCmdErase then 10
  else if d.opcode = jlSuCmdDeviceCheck then 6
  else if d.opcode = jlSuCmdUpdataDualBankCrc then 4
  else 1

theorem within_nil {lo hi : ℕ} : Within lo hi [] :=
  fun _ h => absurd h List.not_mem_nil

/-- The mode is the last parameter of an init command, whether or not the name is read. -/
theorem within_initTakes_iff (d : Device σ) (n : ℕ) :
    Within (d.gOps + 4) (d.gOps + 4 + n) (initTakes d) ↔ 19 ≤ n := by
  unfold initTakes
  split_ifs
  · rw [within_append, within_append, within_cmdAccesses, CommandItem.initMode]
    simp only [within_nil, and_true]
    omega
  · rw [within_append, within_append, within_cmdAccesses, within_cmdAccesses,
      CommandItem.initMode, CommandItem.initFileName]
    omega

/-- The bytes that an answered command takes are the first `neededLen` from the opcode on. -/
theorem within_takesOf_iff (d : Device σ) (n : ℕ) :
    Within (d.gOps + 4) (d.gOps + 4 + n) (cmdAccesses (d.gOps + CommandItem.cmd) 1 ++ takesOf d)
      ↔ neededLen d ≤ n := by
  rw [within_append, within_cmdAccesses, CommandItem.cmd]
  unfold takesOf neededLen
  split_ifs
  · rw [within_initTakes_iff]
    omega
  · simp only [flashCrcTakes, within_append, within_cmdAccesses, CommandItem.crcListLen,
      CommandItem.crcListBlockSize, CommandItem.crcListAddress]
    omega
  · simp only [within_append, within_cmdAccesses, CommandItem.writeAddress,
      CommandItem.writeDataLength, CommandItem.writeData]
    omega
  · simp only [within_append, within_cmdAccesses, CommandItem.eraseAddress, CommandItem.eraseType]
    omega
  · simp only [within_cmdAccesses, CommandItem.deviceCheckSdkId]
    omega
  · simp only [within_cmdAccesses, CommandItem.dualBankInfoCrc]
    omega
  · simp only [within_nil, and_true, false_or]
    omega

/-- What the run of a command takes from it, whether it is answered or stops the device. -/
theorem within_dispatch_iff (d : Device σ) (n : ℕ) :
    Within (d.gOps + 4) (d.gOps + 4 + n) ((dispatch chip).accesses d) ↔ neededLen d ≤ n := by
  set d₀ : Device σ := { d with log := [] } with hd₀
  have hread : (d₀.taken CommandItem.cmd 1).log = cmdAccesses (d.gOps + CommandItem.cmd) 1 :=
    List.nil_append _
  by_cases hfits : CrcReplyFits d₀
  · rw [← within_takesOf_iff]
    cases ha : answerOf chip d₀ with
    | none =>
      have htakes : takesOf d₀ = [] := by
        unfold answerOf at ha
        unfold takesOf
        split_ifs at ha ⊢
        rfl
      have htakes' : takesOf d = [] := htakes
      rw [accesses_of_ok (dispatch_unanswered chip ha), hread, htakes', List.append_nil]
    | some a =>
      obtain ⟨d', hrun, hans⟩ := dispatch_answered chip hfits ha
      obtain ⟨stores, hlog, hstores⟩ := hans.log
      -- storing the reply takes nothing from the command
      have hst : ∀ k, Access.cmd k ∉ stores := by
        intro k hk
        obtain ⟨i, -, hi⟩ := hstores _ hk
        cases hi
      have htakes : takesOf d₀ = takesOf d := rfl
      rw [accesses_of_ok hrun, hlog, hread, htakes, within_append, within_append, within_append,
        within_append]
      simp only [within_of_forall_notMem hst,
        within_of_forall_notMem (cmd_notMem_finishAccesses a.payload), and_true]
  · -- a flash CRC command: the block size is the last of the bytes it takes
    obtain ⟨hop, hbad⟩ := Classical.not_imp.mp hfits
    have hneed : neededLen d = 14 := by
      have hop' : d.opcode = jlSuCmdFlashCrc := hop
      rw [neededLen, hop', if_neg (by decide), if_pos rfl]
    rw [hneed]
    by_cases hb : d₀.cmd32 CommandItem.crcListBlockSize = 0
    · have hlog : (dispatch chip).accesses d = cmdAccesses (d.gOps + 4) 1
          ++ cmdAccesses (d.gOps + 10) 4 ++ cmdAccesses (d.gOps + 14) 4 := by
        rw [DevM.accesses, dispatch_divByZero chip hop hb]
        rfl
      rw [hlog]
      simp only [within_append, within_cmdAccesses]
      omega
    · obtain ⟨a, d', as, hrun, hlog, has⟩ := ((onlyLogs_finish chip jlSuCmdFlashCrc
        (1 + 1 + flashCrcCount d₀ * 2)).bind fun _ => onlyLogs_pure false)
        ((d₀.taken CommandItem.cmd 1).crcsStored chip)
      have hlog' : (dispatch chip).accesses d = cmdAccesses (d.gOps + 4) 1 ++
          (flashCrcTakes d ++ (bufAccesses 6 (2 * flashCrcCount d) ++ bufAccesses 5 1)) ++ as := by
        rw [accesses_of_ok ((dispatch_flashCrc chip hop hb).trans hrun), hlog]
        rfl
      have hnone : ∀ k, Access.cmd k ∉ as := fun k hk => has _ hk k rfl
      rw [hlog', flashCrcTakes, CommandItem.crcListLen, CommandItem.crcListBlockSize,
        CommandItem.crcListAddress]
      simp only [within_append, within_cmdAccesses, within_of_forall_notMem hnone,
        within_of_forall_notMem (cmd_notMem_bufAccesses _ _), and_true]
      omega

/-- A turn of the loop on an accepted chunk runs the decrypted command. -/
theorem accesses_upgradeTurn {d : Device σ} {chunk : List UInt8} {i : ℕ} {rx : Mem}
    (h : encCmdData chip (d.rx.write 0 chunk) chunk.length = some (i, rx)) :
    (upgradeTurn chip chunk).accesses d
      = (dispatch chip).accesses { d with rx := rx, gOps := i } := by
  have hturn := @upgradeTurn_accepted σ chip { d with log := [] } chunk i rx h
  rw [DevM.accesses, hturn]
  rfl

/-- **The command bytes that a turn takes lie in the checked body of the accepted packet exactly
when the body is as long as the command needs.** -/
theorem taken_within_iff (d : Device σ) (chunk : List UInt8) {i : ℕ} {rx : Mem}
    (h : encCmdData chip (d.rx.write 0 chunk) chunk.length = some (i, rx)) :
    (∀ k, .cmd k ∈ (upgradeTurn chip chunk).accesses d →
        i + 4 ≤ k ∧ k < i + 4 + cmdLenAt (d.rx.write 0 chunk) i) ↔
      neededLen { d with rx := rx, gOps := i } ≤ cmdLenAt (d.rx.write 0 chunk) i := by
  rw [accesses_upgradeTurn chip h]
  exact within_dispatch_iff chip { d with rx := rx, gOps := i } _

/-- The packet of a command's plaintext, as the sample device's host sends it. -/
def samplePacket (payload : List UInt8) : List UInt8 :=
  (packet sampleChip.chipCrc16).encode (xorKey sampleChip.communicationKey payload)

/-- The receive buffer of the sample device with that packet. -/
def sampleReceived (payload : List UInt8) : Mem :=
  sampleDevice.rx.write 0 (samplePacket payload)

/-- The sample device once it has accepted that packet. -/
def sampleAccepted (payload : List UInt8) : Device Flash :=
  { sampleDevice with rx := (sampleReceived payload).write 4 payload, gOps := 0 }

theorem sampleAccepted_spec (payload : List UInt8) (h2 : 2 ≤ payload.length)
    (hlt : payload.length < 2 ^ 16) :
    encCmdData sampleChip (sampleReceived payload) (samplePacket payload).length
        = some (0, (sampleAccepted payload).rx) ∧
      cmdLenAt (sampleReceived payload) 0 = payload.length :=
  encCmdData_frame sampleChip payload h2 hlt _

/-- An erase command for the sector at `0x1000`. -/
def sampleErase : List UInt8 := [0xC2, 0, 0, 0x10, 0, 0, 2, 0, 0, 0]

/-- A write command for `0x1000` that claims one byte of data and has none. -/
def emptyWrite : List UInt8 := [0xC3, 0, 0, 0x10, 0, 0, 1, 0, 0, 0]

theorem taken_within_sampleErase :
    (∀ k, .cmd k ∈ (upgradeTurn sampleChip (samplePacket sampleErase)).accesses sampleDevice →
        0 + 4 ≤ k ∧ k < 0 + 4 + cmdLenAt (sampleReceived sampleErase) 0) ↔
      neededLen (sampleAccepted sampleErase) ≤ cmdLenAt (sampleReceived sampleErase) 0 :=
  taken_within_iff sampleChip sampleDevice _ (sampleAccepted_spec _ (by decide) (by decide)).1

/-- The byte is taken from behind the body of the packet. -/
theorem emptyWrite_takes_behind_packet :
    encCmdData sampleChip (sampleReceived emptyWrite) (samplePacket emptyWrite).length
        = some (0, (sampleAccepted emptyWrite).rx) ∧
      cmdLenAt (sampleReceived emptyWrite) 0 = 10 ∧
      ¬ ∀ k, .cmd k ∈ (upgradeTurn sampleChip (samplePacket emptyWrite)).accesses sampleDevice →
          0 + 4 ≤ k ∧ k < 0 + 4 + 10 := by
  obtain ⟨hacc, hlen⟩ := sampleAccepted_spec emptyWrite (by decide) (by decide)
  refine ⟨hacc, hlen, fun h => ?_⟩
  have hturn := accesses_upgradeTurn sampleChip (d := sampleDevice) hacc
  rw [hturn] at h
  have hneed := (within_dispatch_iff sampleChip (sampleAccepted emptyWrite) 10).mp h
  exact absurd hneed (by decide)

/-! ### The reply -/

/-- The access is inside `dev_g_buf[64]` or `tx[64]`, or assigns a length that fits its field. -/
def Access.InBounds : Access → Prop
  | .buf i => i < 64
  | .cmdLen n => n < 65536
  | .tx n => n ≤ 64
  | .cmd _ => True
  | .rsp _ => True

/-- The run ends without a fault and stays inside the reply's buffers. -/
def ReplySafe (x : DevM σ α) (d : Device σ) : Prop :=
  (∃ a d', x d = .ok a d') ∧ ∀ b ∈ x.accesses d, b.InBounds

theorem inBounds_bufAccesses {off n : ℕ} (h : off + n ≤ 64) :
    ∀ b ∈ bufAccesses off n, b.InBounds := by
  rw [forall_bufAccesses]
  intro k hk
  show off + k < 64
  omega

theorem inBounds_cmdAccesses (off n : ℕ) : ∀ b ∈ cmdAccesses off n, b.InBounds := by
  rw [forall_cmdAccesses]
  exact fun _ _ => trivial

theorem inBounds_takesOf (d : Device σ) : ∀ b ∈ takesOf d, b.InBounds := by
  have happend {as bs : List Access} (ha : ∀ b ∈ as, b.InBounds) (hb : ∀ b ∈ bs, b.InBounds) :
      ∀ b ∈ as ++ bs, b.InBounds := List.forall_mem_append.mpr ⟨ha, hb⟩
  have hcmd := inBounds_cmdAccesses
  unfold takesOf
  split_ifs
  · unfold initTakes
    split_ifs
    · exact happend (happend (hcmd _ _) (by simp)) (hcmd _ _)
    · exact happend (happend (hcmd _ _) (hcmd _ _)) (hcmd _ _)
  · exact happend (happend (hcmd _ _) (hcmd _ _)) (hcmd _ _)
  · exact happend (happend (hcmd _ _) (hcmd _ _)) (hcmd _ _)
  · exact happend (hcmd _ _) (hcmd _ _)
  · exact hcmd _ _
  · exact hcmd _ _
  · simp

/-- The end of a handler stays inside the reply buffer when the packet has at most 64 bytes. -/
theorem inBounds_finishAccesses {p : List UInt8} (h : p.length ≤ 58) :
    ∀ b ∈ finishAccesses p, b.InBounds := by
  have hlen : (Access.cmdLen p.length).InBounds := show p.length < 65536 by omega
  have hrsp : (Access.rsp p).InBounds := trivial
  have htx : (Access.tx (4 + p.length + 2)).InBounds := show 4 + p.length + 2 ≤ 64 by omega
  have hbuf {off n : ℕ} (h : off + n ≤ 64) := inBounds_bufAccesses h
  simp only [finishAccesses, List.forall_mem_append, List.forall_mem_cons]
  exact ⟨⟨⟨⟨⟨⟨⟨⟨hlen, hbuf (by omega)⟩, hbuf (by omega)⟩, hbuf (by omega)⟩, hbuf (by omega)⟩,
    hrsp, hbuf (by omega)⟩, hbuf (by omega)⟩, hbuf (by omega)⟩, htx, by simp⟩

/-- When the reply to the current command fits. -/
def ReplyFits (d : Device σ) : Prop :=
  d.opcode ≠ jlSuCmdFlashCrc ∨ d.cmd32 CommandItem.crcListBlockSize ≠ 0 ∧ flashCrcCount d ≤ 28

/-- What such a command adds to the log is inside the reply's buffers. -/
theorem dispatch_inBounds {d : Device σ} (h : ReplyFits d) :
    ∃ stop d' as, dispatch chip d = .ok stop d' ∧ d'.log = d.log ++ as ∧
      ∀ b ∈ as, b.InBounds := by
  have hfits : CrcReplyFits d := by
    intro hop
    rcases h with h | ⟨hb, hcount⟩
    · exact absurd hop h
    · exact ⟨hb, by omega⟩
  have hread := inBounds_cmdAccesses (d.gOps + CommandItem.cmd) 1
  cases ha : answerOf chip d with
  | none => exact ⟨_, _, _, dispatch_unanswered chip ha, rfl, hread⟩
  | some a =>
    obtain ⟨d', hrun, hans⟩ := dispatch_answered chip hfits ha
    obtain ⟨stores, hlog, hstores⟩ := hans.log
    -- 28 checksums are the most that `tx` holds
    have hlen : a.payload.length ≤ 58 := by
      apply length_payload_le
      rintro crcs rfl
      obtain ⟨hop, hcrcs⟩ := length_of_answerOf chip ha
      rw [hcrcs]
      exact (h.resolve_left fun hne => hne hop).2
    -- the stores lie in the payload
    have hin : ∀ b ∈ stores, b.InBounds := by
      intro b hb
      obtain ⟨i, hi, rfl⟩ := hstores b hb
      show i < 64
      omega
    refine ⟨_, d', _, hrun, hlog.trans (List.append_assoc ..), ?_⟩
    simp only [List.forall_mem_append]
    exact ⟨hread, ⟨inBounds_takesOf _, hin⟩, inBounds_finishAccesses hlen⟩

theorem replySafe_dispatch_of_fits {d : Device σ} (h : ReplyFits d) :
    ReplySafe (dispatch chip) d := by
  have hempty : ReplyFits { d with log := [] } := h
  obtain ⟨stop, d', -, hrun, -⟩ := dispatch_inBounds chip h
  obtain ⟨stop₁, d₁, as, hrun₁, hlog, has⟩ := dispatch_inBounds chip hempty
  refine ⟨⟨stop, d', hrun⟩, ?_⟩
  rw [accesses_of_ok hrun₁, hlog]
  exact has

/-- More than 28 blocks overrun the reply buffer. -/
theorem not_replySafe_of_count {d : Device σ} (hop : d.opcode = jlSuCmdFlashCrc)
    (hb : d.cmd32 CommandItem.crcListBlockSize ≠ 0) (hcount : 28 < flashCrcCount d) :
    ¬ ReplySafe (dispatch chip) d := by
  rintro ⟨-, hin⟩
  set d₀ : Device σ := { d with log := [] } with hd₀
  by_cases hfits : flashCrcCount d < 2 ^ 15 - 3
  · -- the reply fits its length field, but not `tx`
    have ha : answerOf chip d₀ = some (.flashCrc (flashCrcCall chip d₀).1) := by
      rw [answerOf, show d₀.opcode = jlSuCmdFlashCrc from hop, if_neg (by decide), if_pos rfl]
    obtain ⟨d', hrun, hans⟩ := dispatch_answered chip (d := d₀) (fun _ => ⟨hb, hfits⟩) ha
    obtain ⟨stores, hlog, -⟩ := hans.log
    set p := (Answer.flashCrc (flashCrcCall chip d₀).1).payload with hp
    have hlen : p.length = 2 + 2 * flashCrcCount d := by
      have hcrcs : (flashCrcCall chip d₀).1.length = flashCrcCount d := length_readCrcs ..
      simp only [hp, Answer.payload, Answer.body, List.length_cons, length_le16s, hcrcs]
      omega
    have htx : Access.tx (4 + p.length + 2) ∈ d'.log := by
      rw [hlog]
      simp [finishAccesses]
    rw [accesses_of_ok hrun] at hin
    have hle : 4 + p.length + 2 ≤ 64 := hin _ htx
    omega
  · -- the list itself is written past the buffer's end
    obtain ⟨a, d', as, hrun, hlog, -⟩ := ((onlyLogs_finish chip jlSuCmdFlashCrc
      (1 + 1 + flashCrcCount d₀ * 2)).bind fun _ => onlyLogs_pure false)
      ((d₀.taken CommandItem.cmd 1).crcsStored chip)
    have hmem : Access.buf (6 + 58) ∈ d'.log := by
      have hbuf : Access.buf (6 + 58) ∈ bufAccesses 6 (2 * flashCrcCount d) :=
        List.mem_map.mpr ⟨58, List.mem_range.mpr (by omega), rfl⟩
      rw [hlog]
      refine List.mem_append_left _ (List.mem_append_right _ (List.mem_append_right _ ?_))
      exact List.mem_append_left _ hbuf
    rw [accesses_of_ok ((dispatch_flashCrc chip (d := d₀) hop hb).trans hrun)] at hin
    exact absurd (hin _ hmem) (show ¬ 6 + 58 < 64 by decide)

theorem replySafe_dispatch_iff (d : Device σ) : ReplySafe (dispatch chip) d ↔ ReplyFits d := by
  constructor
  · intro hsafe
    by_contra hfits
    obtain ⟨hop, hbad⟩ := not_or.mp hfits
    by_cases hb : d.cmd32 CommandItem.crcListBlockSize = 0
    · obtain ⟨b, d', hrun⟩ := hsafe.1
      rw [dispatch_divByZero chip (not_not.mp hop) hb] at hrun
      cases hrun
    · refine not_replySafe_of_count chip (not_not.mp hop) hb ?_ hsafe
      by_contra hle
      exact hbad ⟨hb, not_lt.mp hle⟩
  · exact replySafe_dispatch_of_fits chip

theorem replySafe_upgradeTurn {d : Device σ} {chunk : List UInt8} {i : ℕ} {rx : Mem}
    (h : encCmdData chip (d.rx.write 0 chunk) chunk.length = some (i, rx)) :
    ReplySafe (upgradeTurn chip chunk) d
      ↔ ReplySafe (dispatch chip) { d with rx := rx, gOps := i } := by
  rw [ReplySafe, ReplySafe, accesses_upgradeTurn chip h, upgradeTurn_accepted chip h]

/-- **A turn on an accepted packet builds its reply safely exactly when the packet is not a flash
CRC command, or asks for at most 28 blocks of a size that is not zero.** -/
theorem replySafe_iff (d : Device σ) (chunk : List UInt8) {i : ℕ} {rx : Mem}
    (h : encCmdData chip (d.rx.write 0 chunk) chunk.length = some (i, rx)) :
    ReplySafe (upgradeTurn chip chunk) d ↔ ReplyFits { d with rx := rx, gOps := i } :=
  (replySafe_upgradeTurn chip h).trans (replySafe_dispatch_iff chip _)

/-- A flash CRC command for 29 blocks of 4096 bytes. -/
def longFlashCrc : List UInt8 := [0xC4, 0, 0, 0x10, 0, 0, 0, 0xD0, 1, 0, 0, 0x10, 0, 0]

theorem replySafe_sampleErase :
    ReplySafe (upgradeTurn sampleChip (samplePacket sampleErase)) sampleDevice
      ↔ ReplyFits (sampleAccepted sampleErase) :=
  replySafe_iff sampleChip sampleDevice _ (sampleAccepted_spec _ (by decide) (by decide)).1

/-- The checksum of the reply is stored behind the end of `dev_g_buf`. -/
theorem longFlashCrc_not_replySafe :
    encCmdData sampleChip (sampleReceived longFlashCrc) (samplePacket longFlashCrc).length
        = some (0, (sampleAccepted longFlashCrc).rx) ∧
      ¬ ReplySafe (upgradeTurn sampleChip (samplePacket longFlashCrc)) sampleDevice := by
  obtain ⟨hacc, -⟩ := sampleAccepted_spec longFlashCrc (by decide) (by decide)
  refine ⟨hacc, ?_⟩
  rw [replySafe_upgradeTurn sampleChip (d := sampleDevice) hacc]
  exact not_replySafe_of_count sampleChip (d := sampleAccepted longFlashCrc) (by decide)
    (by decide) (by decide)

end FwBootloader.User
