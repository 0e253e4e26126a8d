import FwBootloader.Protocol
import FwBootloader.User.Upgrade
import Mathlib.Tactic.Simps.Basic

/-!
## Running the device's handlers

Each primitive of `DevM` turns into a function on the `Device` (`noted`, `taken`, `stored`,
`called`, `finished`), so that a handler's run is a composition of them.  `finished_sent` says what
the end of every handler sends: the packet of the encrypted opcode, status and parameters.
-/

namespace FwBootloader.User

open Bytes DevM

variable {σ α β : Type} (chip : Chip σ)

/-! ### Accesses -/

/-- The accesses to the bytes `off`, …, `off + n - 1` of the receive buffer. -/
def cmdAccesses (off n : ℕ) : List Access :=
  (List.range n).map fun k => .cmd (off + k)

/-- The accesses to the bytes `off`, …, `off + n - 1` of the reply buffer. -/
def bufAccesses (off n : ℕ) : List Access :=
  (List.range n).map fun k => .buf (off + k)

/-- A bound on a range of command bytes, and nothing else. -/
theorem forall_cmdAccesses {P : Access → Prop} {off n : ℕ} :
    (∀ a ∈ cmdAccesses off n, P a) ↔ ∀ k < n, P (.cmd (off + k)) := by
  simp [cmdAccesses]

theorem forall_bufAccesses {P : Access → Prop} {off n : ℕ} :
    (∀ a ∈ bufAccesses off n, P a) ↔ ∀ k < n, P (.buf (off + k)) := by
  simp [bufAccesses]

/-! ### The effects of the primitives -/

namespace Device

variable (d : Device σ)

/-- The byte of the command at an offset. -/
def cmd8 (off : ℕ) : UInt8 :=
  d.rx (d.gOps + off)

/-- The 16-bit parameter at an offset. -/
def cmd16 (off : ℕ) : UInt16 :=
  ofLe16 (d.rx (d.gOps + off)) (d.rx (d.gOps + off + 1))

/-- The 32-bit parameter at an offset. -/
def cmd32 (off : ℕ) : UInt32 :=
  ofLe32 (d.rx (d.gOps + off)) (d.rx (d.gOps + off + 1)) (d.rx (d.gOps + off + 2))
    (d.rx (d.gOps + off + 3))

/-- Accesses are recorded. -/
@[simps -fullyApplied] def noted (as : List Access) : Device σ :=
  { d with log := d.log ++ as }

/-- Command bytes are taken. -/
@[simps -fullyApplied] def taken (off n : ℕ) : Device σ :=
  { d with log := d.log ++ cmdAccesses (d.gOps + off) n }

/-- Reply bytes are stored. -/
@[simps -fullyApplied] def stored (off : ℕ) (l : List UInt8) : Device σ :=
  { d with
    devGBuf := d.devGBuf.write off l
    log := d.log ++ bufAccesses off l.length }

/-- A `jlfs` call has given `r`. -/
@[simps -fullyApplied] def called (r : α × JlfsFile × σ) : Device σ :=
  { d with upgradeFile := r.2.1, fs := r.2.2 }

/-- The first `len` bytes of the reply buffer have been sent. -/
@[simps -fullyApplied] def transmitted (len : ℕ) : Device σ :=
  { d with
    sent := d.sent ++ [d.devGBuf.bytes 0 len]
    log := d.log ++ [.tx len] }

/-- A block has been read into the global buffer. -/
@[simps -fullyApplied] def buffered (data : List UInt8) : Device σ :=
  { d with globalBuffer := d.globalBuffer.write 0 data }

/-! The command stays readable. -/

@[simp] theorem cmd8_taken (off n k : ℕ) : (d.taken off n).cmd8 k = d.cmd8 k := rfl

@[simp] theorem cmd32_taken (off n k : ℕ) : (d.taken off n).cmd32 k = d.cmd32 k := rfl

@[simp] theorem cmd8_called (r : α × JlfsFile × σ) (k : ℕ) : (d.called r).cmd8 k = d.cmd8 k := rfl

@[simp] theorem cmd32_called (r : α × JlfsFile × σ) (k : ℕ) :
    (d.called r).cmd32 k = d.cmd32 k := rfl

end Device

theorem bind_apply (x : DevM σ α) (f : α → DevM σ β) (d : Device σ) :
    (x >>= f) d = match x d with
      | .ok a d' => f a d'
      | .error e d' => .error e d' := by
  show EStateM.bind x f d = _
  unfold EStateM.bind
  cases x d <;> rfl

theorem bind_ok {x : DevM σ α} {f : α → DevM σ β} {d d' : Device σ} {a : α} (h : x d = .ok a d') :
    (x >>= f) d = f a d' := by
  rw [bind_apply, h]

/-- The device when a step is over, whether or not it ended in a fault. -/
def DevM.after (x : DevM σ α) (d : Device σ) : Device σ :=
  match x d with
  | .ok _ d' => d'
  | .error _ d' => d'

theorem after_of_ok {x : DevM σ α} {d d' : Device σ} {a : α} (h : x d = .ok a d') :
    x.after d = d' := by
  rw [DevM.after, h]

theorem pure_apply (a : α) (d : Device σ) : (pure a : DevM σ α) d = .ok a d := rfl

theorem get_apply (d : Device σ) : (get : DevM σ (Device σ)) d = .ok d d := rfl

theorem record_apply (as : List Access) (d : Device σ) : record as d = .ok () (d.noted as) := rfl

theorem cmdBytes_apply (off n : ℕ) (d : Device σ) :
    cmdBytes off n d = .ok (d.rx.bytes (d.gOps + off) n) (d.taken off n) := rfl

theorem cmd8_apply (off : ℕ) (d : Device σ) : cmd8 off d = .ok (d.cmd8 off) (d.taken off 1) := rfl

theorem cmd16_apply (off : ℕ) (d : Device σ) :
    cmd16 off d = .ok (d.cmd16 off) (d.taken off 2) := rfl

theorem cmd32_apply (off : ℕ) (d : Device σ) :
    cmd32 off d = .ok (d.cmd32 off) (d.taken off 4) := rfl

theorem setBytes_apply (off : ℕ) (l : List UInt8) (d : Device σ) :
    setBytes off l d = .ok () (d.stored off l) := rfl

theorem set8_apply (off : ℕ) (v : UInt8) (d : Device σ) :
    set8 off v d = .ok () (d.stored off [v]) := rfl

theorem set16_apply (off : ℕ) (v : UInt16) (d : Device σ) :
    set16 off v d = .ok () (d.stored off (le16 v)) := rfl

theorem set32_apply (off : ℕ) (v : UInt32) (d : Device σ) :
    set32 off v d = .ok () (d.stored off (le32 v)) := rfl

theorem onUpgradeFile_apply (call : JlfsFile → σ → α × JlfsFile × σ) (d : Device σ) :
    onUpgradeFile call d
      = .ok (call d.upgradeFile d.fs).1 (d.called (call d.upgradeFile d.fs)) := rfl

theorem modify_buffered (data : List UInt8) (d : Device σ) :
    (modify fun d => { d with globalBuffer := d.globalBuffer.write 0 data } : DevM σ PUnit) d
      = .ok () (d.buffered data) := rfl

theorem upgradeRsp_apply (len : ℕ) (d : Device σ) :
    upgradeRsp len d = .ok () (d.transmitted len) := rfl

/-! ### The end of a handler -/

/-- The packet of a reply. -/
def replyFrame (payload : List UInt8) : List UInt8 :=
  (packet chip.chipCrc16).encode (xorKey chip.communicationKey payload)

theorem length_replyFrame (payload : List UInt8) :
    (replyFrame chip payload).length = 6 + payload.length := by
  rw [replyFrame, Framing.Format.length_encode, length_xorKey]

/-- The encrypted payload stands behind marker and length. -/
theorem body_replyFrame (payload : List UInt8) :
    ((replyFrame chip payload).drop 4).take payload.length
      = xorKey chip.communicationKey payload := by
  have h := (packet chip.chipCrc16).payload_encode (xorKey chip.communicationKey payload) []
  rwa [List.append_nil, length_xorKey] at h

/-- A frame determines its payload. -/
theorem replyFrame_inj {p q : List UInt8} (h : replyFrame chip p = replyFrame chip q) : p = q := by
  have hlen : p.length = q.length := by
    have hl := congrArg List.length h
    rw [length_replyFrame, length_replyFrame] at hl
    omega
  have hx : xorKey chip.communicationKey p = xorKey chip.communicationKey q := by
    rw [← body_replyFrame chip p, ← body_replyFrame chip q, h, hlen]
  rw [← xorKey_xorKey chip.communicationKey p, hx, xorKey_xorKey]

/-- `cmd_len` is assigned and the reply is completed and sent. -/
def finish (cmd : UInt8) (n : ℕ) : DevM σ Unit := do
  setCmdLen n
  setRemainAndUpgradeRsp chip cmd

/-- The accesses of `finish`, with the payload `p`. -/
def finishAccesses (p : List UInt8) : List Access :=
  .cmdLen p.length :: bufAccesses 2 2 ++ bufAccesses 0 1 ++ bufAccesses 1 1 ++ bufAccesses 4 1
    ++ .rsp p :: bufAccesses 4 p.length ++ bufAccesses (4 + p.length) 1
    ++ bufAccesses (4 + p.length + 1) 1 ++ [.tx (4 + p.length + 2)]

/-- The reply with the payload `p` has been sent. -/
@[simps -fullyApplied] def Device.finished (d : Device σ) (p : List UInt8) : Device σ :=
  { d with
    devGBuf := d.devGBuf.write 0 (replyFrame chip p)
    sent := d.sent ++ [replyFrame chip p]
    log := d.log ++ finishAccesses p }

/-- **What every handler sends at its end**: the packet of the encrypted opcode, status and
parameters, as they stand in the reply buffer.  Besides the buffer and the log nothing changes. -/
theorem finish_apply (cmd : UInt8) {n : ℕ} (hlt : n < 2 ^ 16 - 4) (d : Device σ) {l : List UInt8}
    (hl : d.devGBuf.bytes 5 l.length = l) (hn : l.length + 1 = n) :
    finish chip cmd n d = .ok () (d.finished chip (cmd :: l)) := by
  subst hn
  set p := cmd :: l with hp
  have hplen : p.length = l.length + 1 := rfl
  set head := (packet chip.chipCrc16).header p.length with hhead
  simp only [finish, setCmdLen, setRemainAndUpgradeRsp, getCmdLen, bind_apply,
    upgradeRsp_apply, record_apply, set16_apply, set8_apply, setBytes_apply, get_apply, pure_apply]
  rw [← hplen]
  -- the header is in place
  set d₁ := (((d.noted [.cmdLen p.length]).stored DevItem.cmdLen
    (le16 (UInt16.ofNat p.length))).stored DevItem.syncdata0 [0xAA]).stored DevItem.syncdata1 [0x55]
    with hd₁
  have hg₁ : d₁.devGBuf = d.devGBuf.write 0 head := by
    calc d₁.devGBuf
        = ((d.devGBuf.write 2 (le16 (UInt16.ofNat p.length))).write 0 [0xAA]).write 1 [0x55] := rfl
      _ = (d.devGBuf.write 2 (le16 (UInt16.ofNat p.length))).write 0 [0xAA, 0x55] :=
          Mem.write_append _ [0xAA] [0x55] rfl
      _ = d.devGBuf.write 0 head := Mem.write_prepend _ [0xAA, 0x55] _ rfl
  have hcmdLen : ofLe16 (d₁.devGBuf DevItem.cmdLen) (d₁.devGBuf (DevItem.cmdLen + 1))
      = UInt16.ofNat p.length := by
    rw [hg₁]
    exact ofLe16_le16 _
  have hlen : (UInt16.ofNat p.length).toNat = p.length :=
    UInt16.toNat_ofNat_of_lt' (show _ < 2 ^ 16 by omega)
  have hcrcLen : (1 + 1 + 2 + UInt16.ofNat p.length).toNat = 4 + p.length := by
    rw [UInt16.toNat_add, hlen]
    exact Nat.mod_eq_of_lt (show 4 + p.length < 2 ^ 16 by omega)
  rw [hcmdLen, hlen, hcrcLen]
  -- the payload is complete
  set d₂ := d₁.stored DevItem.cmd [cmd] with hd₂
  have hg₂ : d₂.devGBuf = (d.devGBuf.write 0 head).write 4 [cmd] := by
    rw [← hg₁]
    rfl
  have hpayload : d₂.devGBuf.bytes 4 p.length = p := by
    have hout : d₂.devGBuf.bytes 5 l.length = l := by
      rw [hg₂, Mem.bytes_write_of_disjoint _ (Or.inr (by simp)),
        Mem.bytes_write_of_disjoint _ (Or.inr (by simp [hhead])), hl]
    rw [hplen, Mem.bytes_succ, hout]
    rfl
  rw [hpayload]
  -- the payload is encrypted
  set d₃ := (d₂.noted [.rsp p]).stored 4 (encDecData chip p) with hd₃
  have hg₃ : d₃.devGBuf = d.devGBuf.write 0 (head ++ encDecData chip p) := by
    calc d₃.devGBuf = (d₂.devGBuf).write 4 (encDecData chip p) := rfl
      _ = (d.devGBuf.write 0 head).write 4 (encDecData chip p) := by
          rw [hg₂, Mem.write_write _ _ (by simp [encDecData, hplen])]
      _ = d.devGBuf.write 0 (head ++ encDecData chip p) := Mem.write_append _ _ _ rfl
  have hbodyLen : (head ++ encDecData chip p).length = 4 + p.length := by
    simp [hhead, encDecData]
  have hbody : d₃.devGBuf.bytes 0 (4 + p.length) = head ++ encDecData chip p := by
    rw [hg₃, ← hbodyLen, Mem.bytes_write_self]
  rw [hbody]
  -- the checksum is appended
  set crc := chip.chipCrc16 (head ++ encDecData chip p) with hcrc
  have hlow : (crc &&& 0xff).toUInt8 = crc.toUInt8 := by
    rw [UInt16.toUInt8_and]
    exact UInt8.and_neg_one
  have hframe : head ++ encDecData chip p ++ ([crc.toUInt8] ++ [(crc >>> 8).toUInt8])
      = replyFrame chip p := by
    rw [replyFrame, Framing.Format.encode, length_xorKey]
    rfl
  set d₅ := (d₃.stored (4 + p.length) [crc.toUInt8]).stored (4 + p.length + 1)
    [(crc >>> 8).toUInt8] with hd₅
  have hg₅ : d₅.devGBuf = d.devGBuf.write 0 (replyFrame chip p) := by
    have h₄ : (d.devGBuf.write 0 (head ++ encDecData chip p)).write (4 + p.length) [crc.toUInt8]
        = d.devGBuf.write 0 (head ++ encDecData chip p ++ [crc.toUInt8]) :=
      Mem.write_append _ _ _ (by omega)
    calc d₅.devGBuf
        = (d₃.devGBuf.write (4 + p.length) [crc.toUInt8]).write (4 + p.length + 1)
            [(crc >>> 8).toUInt8] := rfl
      _ = d.devGBuf.write 0
            (head ++ encDecData chip p ++ [crc.toUInt8] ++ [(crc >>> 8).toUInt8]) := by
          rw [hg₃, h₄]
          exact Mem.write_append _ _ _ (by rw [List.length_append, hbodyLen, Nat.zero_add]; rfl)
      _ = d.devGBuf.write 0 (replyFrame chip p) := by rw [List.append_assoc _ [_], hframe]
  have hsent : d₅.devGBuf.bytes 0 (4 + p.length + 2) = replyFrame chip p := by
    have hframeLen : 4 + p.length + 2 = (replyFrame chip p).length := by
      rw [length_replyFrame]
      omega
    rw [hg₅, hframeLen, Mem.bytes_write_self]
  have hlog : d₅.log ++ [Access.tx (4 + p.length + 2)] = d.log ++ finishAccesses p := by
    have hencLen : (encDecData chip p).length = p.length := length_xorKey ..
    simp only [hd₅, hd₃, hd₂, hd₁, Device.stored, Device.noted, finishAccesses, hencLen,
      List.append_assoc, List.cons_append, List.nil_append]
    rfl
  rw [hlow, hd₅.symm]
  refine congrArg (EStateM.Result.ok ()) (Device.ext ?_ ?_ ?_ ?_ ?_ ?_ ?_ ?_ ?_)
  case refine_3 => exact hg₅
  case refine_8 =>
    rw [Device.transmitted_sent, hsent, Device.finished_sent]
    simp [hd₅, hd₃, hd₂, hd₁]
  case refine_9 => exact hlog
  all_goals simp [hd₅, hd₃, hd₂, hd₁]

end FwBootloader.User
