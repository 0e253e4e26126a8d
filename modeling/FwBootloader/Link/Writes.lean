import FwBootloader.Equiv.Writes
import FwBootloader.Hid.Equiv.Acknowledgement
import FwBootloader.Hid.Equiv.Main
import FwBootloader.Link.Equiv.Device
import FwBootloader.Uart.Equiv.Command
import FwBootloader.Uart.Equiv.History

/-!
## What the device makes of the write commands

`TakesWrite`: the device takes what it has received for a write of some bytes at an address,
whatever it has received before.

* `Uart.receivable_iff`: the serial host cuts its buffer into erase units, so its packets fit the
  device's receive buffer only while a piece has at most 4112 bytes.
* `Hid.writes_faithful`: the reports of `win-usb_hid` are always taken, piece after piece.
-/

namespace FwBootloader

open Bytes Framing Dialog User

variable {σ : Type} {chip : Chip σ}

/-- The device takes the chunk for a write of `data` at `address`, with all of it behind the
parameters in the packet's body. -/
def TakesWrite (chip : Chip σ) (chunk : List UInt8) (address : UInt32) (data : List UInt8) : Prop :=
  ∀ d : Device σ, ∃ e, accepted chip chunk d = some e ∧ e.opcode = User.jlSuCmdWrite ∧
    e.cmd32 CommandItem.writeAddress = address ∧
    (e.cmd32 CommandItem.writeDataLength).toNat = data.length ∧
    CommandItem.writeData + data.length ≤ 4 + cmdLenAt e.rx e.gOps ∧
    e.rx.bytes (e.gOps + CommandItem.writeData) data.length = data

/-- The packet of a write, and what stands behind it, is taken for that write. -/
theorem takesWrite_of_packet (hcrc : chip.chipCrc16 = Crc16.xmodem) (address : UInt32)
    {len : UInt32} {content : List UInt8} (hlen : content.length = len.toNat)
    (hlt : 10 + content.length < 2 ^ 16) (trailing : List UInt8) :
    TakesWrite chip (xmodemPacket.encode (xorKey chip.communicationKey
      (Cmd.write address len content).payload) ++ trailing) address content := by
  intro d
  set payload := (Cmd.write address len content).payload with hpayload
  have hplen : payload.length = 10 + content.length := by
    simp only [hpayload, Cmd.payload, List.length_cons, List.length_append, length_le32]
    omega
  obtain ⟨hsome, hcmdLen⟩ := encCmdData_packet chip [] (by decide) payload (by omega) (by omega)
    trailing d.rx
  rw [show packet chip.chipCrc16 = xmodemPacket by rw [hcrc, xmodemPacket], List.nil_append] at *
  set buf := d.rx.write 0 (xmodemPacket.encode (xorKey chip.communicationKey payload) ++ trailing)
  -- the parameters, from their places in the payload
  refine ⟨d.loaded buf payload, by rw [accepted, hsome]; rfl, opcode_loaded _ d buf, ?_, ?_, ?_, ?_⟩
  · exact cmd32_loaded d buf [_, _] (le32 len ++ content) address
      (by rw [List.append_assoc]; rfl) rfl
  · have hfield : (d.loaded buf payload).cmd32 CommandItem.writeDataLength = len :=
      cmd32_loaded d buf (_ :: _ :: le32 address) content len rfl rfl
    rw [hfield, hlen]
  · -- the length field is in front of the decrypted bytes
    have hout (k : ℕ) (hk : k < 4) : buf.write 4 payload (0 + k) = buf (0 + k) :=
      Mem.write_of_outside _ (Or.inl (by omega))
    have hsame : cmdLenAt (d.loaded buf payload).rx (d.loaded buf payload).gOps
        = cmdLenAt buf 0 := by
      show cmdLenAt (buf.write 4 payload) 0 = cmdLenAt buf 0
      rw [cmdLenAt, cmdLenAt, hout 2 (by omega), hout 3 (by omega)]
    rw [hsame, show cmdLenAt buf 0 = payload.length from hcmdLen, hplen, CommandItem.writeData]
    omega
  · exact bytes_loaded d buf (_ :: _ :: (le32 address ++ le32 len)) content []
      (List.append_nil _).symm rfl rfl

/-! ### The serial host -/

namespace Uart

/-- The frame fits the UART's receive buffer, its length field is exact, and the device takes it for
the write. -/
structure Receivable (chip : Chip σ) (frame : List UInt8) (address : UInt32) (data : List UInt8) :
    Prop where
  fits : frame.length ≤ 4128
  exact : Format.declared frame + 6 = frame.length
  taken : TakesWrite chip frame address data

theorem length_makeWriteCmd (encKey address len : UInt32) (content : List UInt8) :
    (makeCmd encKey (.write address len content)).length = 16 + content.length := by
  rw [makeCmd_eq, Format.length_encode, length_xorKey]
  simp only [Cmd.payload, List.length_cons, List.length_append, length_le32]
  omega

theorem receivable_of_short (hcrc : chip.chipCrc16 = Crc16.xmodem) (address len : UInt32)
    {content : List UInt8} (hlen : content.length = len.toNat) (hshort : len.toNat ≤ 4112) :
    Receivable chip (makeCmd chip.communicationKey (.write address len content)) address
      content := by
  have hframe := length_makeWriteCmd chip.communicationKey address len content
  have hplen : (xorKey chip.communicationKey (Cmd.write address len content).payload).length
      = 10 + content.length := by
    rw [makeCmd_eq, Format.length_encode] at hframe
    omega
  refine ⟨by omega, ?_, ?_⟩
  · rw [hframe, makeCmd_eq, Format.declared_encode _ (by omega), hplen]
    omega
  · have h := takesWrite_of_packet hcrc address hlen (by omega) []
    rwa [List.append_nil, ← makeCmd_eq] at h

theorem cuts_writeLenOf {unit : UInt32} (hunit : unit ≠ 0) : Cuts (writeLenOf unit) := by
  intro len hlen
  have hunitpos := Bytes.toNat_pos_of_ne_zero hunit
  have hlenpos := Bytes.toNat_pos_of_ne_zero hlen
  rw [toNat_writeLenOf]
  omega

theorem writeFlash_eq (fuel : ℕ) (buffer : List UInt8) (address len unit : UInt32) :
    writeFlash fuel buffer address len unit
      = writeLoop (.abort .outOfFuel) doWriteFlash (writeLenOf unit) fuel buffer address len := by
  induction fuel generalizing buffer address len with
  | zero => rfl
  | succ fuel ih =>
    rw [writeLoop]
    by_cases h0 : len = 0
    · rw [writeFlash, if_pos h0, if_pos h0]
    · rw [writeFlash_succ h0, if_neg h0, ih]

variable {τ : Type} (srv : τ → Cmd → Option (List UInt8) × τ)

theorem sendsWrites : (runs srv).SendsWrites doWriteFlash where
  short buffer address len t hbuf := by
    rw [doWriteFlash, hbuf]
    exact ⟨_, rfl⟩
  sent buffer address len content t hbuf := by
    rw [doWriteFlash_eq hbuf]
    exact ⟨_, rfl⟩

theorem run_outOfFuel (s : τ) : ∃ e, (runs srv).run (.abort .outOfFuel) s = (.error e, []) :=
  ⟨_, rfl⟩

/-- Every write that has its bytes succeeds. -/
def WritesSucceed (srv : τ → Cmd → Option (List UInt8) × τ) : Prop :=
  ∀ buffer address len s, len.toNat ≤ buffer.length →
    result srv (doWriteFlash buffer address len) s = .ok true

/-- Whoever answers, `writeFlash` ends; what it has sent are receivable frames, which tile the range
from its start on, and all of it if it returns `true`, as it does if all writes succeed. -/
def WritesReceivable (chip : Chip σ) (buffer : List UInt8) (address len unit : UInt32) : Prop :=
  ∀ (τ : Type) (srv : τ → Cmd → Option (List UInt8) × τ) (s : τ), ∃ fuel b ps k,
    result srv (writeFlash fuel buffer address len unit) s = .ok b ∧
    List.Forall₂ (fun c p => Receivable chip (makeCmd chip.communicationKey c) p.1 p.2)
      (requests srv (writeFlash fuel buffer address len unit) s) ps ∧
    Tiles address (buffer.take k) ps ∧ k ≤ len.toNat ∧ (b = true → k = len.toNat) ∧
    (WritesSucceed srv → b = true)

theorem writesReceivable_of_short (hcrc : chip.chipCrc16 = Crc16.xmodem) {buffer : List UInt8}
    {address len unit : UInt32} (hunit : unit ≠ 0) (hbuffer : len.toNat ≤ buffer.length)
    (hshort : min len.toNat unit.toNat ≤ 4112) :
    WritesReceivable chip buffer address len unit := by
  intro τ srv s
  have hcuts := cuts_writeLenOf hunit
  have hmost (l : UInt32) (hl : l.toNat ≤ len.toNat) : (writeLenOf unit l).toNat ≤ 4112 := by
    rw [toNat_writeLenOf]
    omega
  -- as many turns as bytes are enough
  obtain ⟨b, s', hres, hb⟩ := @Runs.writeLoop_ends HostM _ τ (runs srv) (.abort .outOfFuel)
    doWriteFlash (fun b => WritesSucceed srv → b = true) (fun _ => rfl)
    (fun buffer address len content t hbuf => by
      have hlong := (readBuf_zero_iff.mp hbuf).1
      refine ⟨_, _, by rw [doWriteFlash_eq hbuf]; rfl, fun hsrv => ?_⟩
      have h := hsrv buffer address len t hlong
      rw [doWriteFlash_eq hbuf] at h
      exact Except.ok.inj h)
    (writeLenOf unit) hcuts len.toNat buffer address len le_rfl hbuffer s
  obtain ⟨ps, k, hk, -, htiles, hframes, htrue⟩ := Runs.writeLoop_tiles (sendsWrites srv)
    (run_outOfFuel srv) hcuts len.toNat buffer address len hmost
    (fun c p => Receivable chip (makeCmd chip.communicationKey c) p.1 p.2)
    (fun address len content hlen _ hle => receivable_of_short hcrc address len hlen hle) s
  rw [← writeFlash_eq] at hres hframes htrue
  obtain ⟨hdone, -⟩ := runs_iff.mp ⟨s', Prod.ext hres rfl⟩
  refine ⟨len.toNat, b, ps, k, hdone, hframes, htiles, hk, ?_, hb⟩
  rintro rfl
  exact htrue s' hres

/-- A device that reports success. -/
def writeSuccess : Unit → Cmd → Option (List UInt8) × Unit :=
  fun s _ => (some [0xC3, 0], s)

theorem writeSuccess_writes : WritesSucceed writeSuccess := by
  intro buffer address len s hlen
  rw [doWriteFlash_eq (readBuf_zero_iff.mpr ⟨hlen, rfl⟩)]
  rfl

/-- The first frame has the longest piece. -/
theorem short_of_receivable {buffer : List UInt8} {address len unit : UInt32} (hunit : unit ≠ 0)
    (h : WritesReceivable chip buffer address len unit) :
    len.toNat ≤ buffer.length ∧ min len.toNat unit.toNat ≤ 4112 := by
  obtain ⟨fuel, b, ps, k, hres, hframes, -, -, -, hsuccess⟩ := h Unit writeSuccess ()
  obtain rfl := hsuccess writeSuccess_writes
  -- all bytes have been read
  obtain ⟨-, k', -, hk', -, -, htrue⟩ := Runs.writeLoop_tiles (sendsWrites writeSuccess)
    (run_outOfFuel writeSuccess) (cuts_writeLenOf hunit) fuel buffer address len
    (fun l _ => Nat.le_of_lt (writeLenOf unit l).toNat_lt) (fun _ _ => True)
    (fun _ _ _ _ _ _ => trivial) ()
  rw [← writeFlash_eq] at htrue
  obtain ⟨s', hrun⟩ := runs_iff.mpr ⟨hres, rfl⟩
  have hall := htrue s' (congrArg Prod.fst hrun)
  have hbuffer : len.toNat ≤ buffer.length := by omega
  refine ⟨hbuffer, ?_⟩
  by_cases h0 : len = 0
  · rw [h0, UInt32.toNat_zero]
    omega
  rcases fuel with _ | fuel
  · rw [writeFlash, if_neg h0] at hres
    cases hres
  · -- the first frame has as many bytes as the loop ever sends
    have hbuf : readBuf buffer 0 (writeLenOf unit len)
        = some (buffer.take (writeLenOf unit len).toNat) :=
      readBuf_zero_iff.mpr ⟨by rw [toNat_writeLenOf]; omega, rfl⟩
    rw [writeFlash_eq, writeLoop, if_neg h0, doWriteFlash_eq hbuf] at hframes
    obtain ⟨first, _, hfirst, -, -⟩ := List.forall₂_cons_left_iff.mp hframes
    have hfits := hfirst.fits
    rw [length_makeWriteCmd, List.length_take, toNat_writeLenOf] at hfits
    omega

/-- **The frames of `writeFlash` are receivable** exactly when a piece has at most 4112 bytes. -/
theorem receivable_iff (hcrc : chip.chipCrc16 = Crc16.xmodem) (buffer : List UInt8)
    (address len : UInt32) {unit : UInt32} (hunit : unit ≠ 0) :
    WritesReceivable chip buffer address len unit ↔
      len.toNat ≤ buffer.length ∧ min len.toNat unit.toNat ≤ 4112 := by
  constructor
  · intro h
    exact short_of_receivable hunit h
  · rintro ⟨hbuffer, hshort⟩
    exact writesReceivable_of_short hcrc hunit hbuffer hshort

/-- Two pages for a device with pages. -/
theorem receivable_iff_pages :
    WritesReceivable sampleChip (List.replicate 512 0) 0x1000 512 256 ↔
      (512 : UInt32).toNat ≤ (List.replicate 512 (0 : UInt8)).length ∧
        min (512 : UInt32).toNat (256 : UInt32).toNat ≤ 4112 :=
  receivable_iff rfl (List.replicate 512 0) 0x1000 512 (by decide)

/-- One block for a device that reports blocks of 64K as its erase unit. -/
theorem block_not_receivable :
    ¬ WritesReceivable sampleChip (List.replicate 65536 0) 0 65536 65536 := by
  intro h
  obtain ⟨-, hshort⟩ := short_of_receivable (by decide) h
  exact absurd hshort (by decide)

end Uart

/-! ### The USB host -/

namespace Hid

/-- The report has 64 bytes, and the device takes it for the write of between 1 and 41 bytes. -/
structure Faithful (chip : Chip σ) (report : List UInt8) (address : UInt32) (data : List UInt8) :
    Prop where
  length : report.length = 64
  pos : 1 ≤ data.length
  le : data.length ≤ 41
  taken : TakesWrite chip report address data

theorem cuts_writeLenOf : Cuts writeLenOf := by
  intro len hlen
  have hpos : 0 < len.toNat := Bytes.toNat_pos_of_ne_zero hlen
  rw [toNat_writeLenOf]
  omega

variable {τ : Type} (srv : τ → Cmd → List (List UInt8) × τ)

theorem run_outOfFuel (t : State × τ) : ∃ e, (runs srv).run (abort .outOfFuel) t = (.error e, []) :=
  ⟨_, rfl⟩

namespace Port

variable (p : Port)

/-- Whatever `hid_tx_buf` held, the report of a write is faithful. -/
theorem faithful_report (hcrc : chip.chipCrc16 = Crc16.xmodem)
    (hkey : chip.communicationKey = communicationKey) (hidTxBuf : Mem) (address len : UInt32)
    {content : List UInt8} (hlen : content.length = len.toNat) (hpos : 0 < len.toNat)
    (hle : len.toNat ≤ 41) :
    Faithful chip (p.report (p.makeCmd hidTxBuf (.write address len content))) address content := by
  obtain ⟨trailing, hreport⟩ := report_makeCmd p hidTxBuf
    (show (Cmd.write address len content).payload.length ≤ 58 by
      simp only [Cmd.payload, List.length_cons, List.length_append, length_le32]
      omega)
  refine ⟨Mem.length_bytes .., by omega, by omega, ?_⟩
  rw [hreport, ← hkey]
  exact takesWrite_of_packet hcrc address hlen (by omega) trailing

/-- The loop's turns are counted by the length. -/
theorem writeFlash_eq (fuel : ℕ) (buffer : List UInt8) (address len unit : UInt32)
    (hfuel : len.toNat ≤ fuel) :
    p.writeFlash buffer address len unit
      = writeLoop (abort .outOfFuel) p.doWriteFlash writeLenOf fuel buffer address len := by
  induction fuel generalizing buffer address len with
  | zero =>
    obtain rfl : len = 0 := UInt32.toNat_inj.mp (Nat.le_zero.mp hfuel)
    rw [writeFlash, dif_pos rfl]
    unfold writeLoop
    rw [if_pos rfl]
  | succ fuel ih =>
    rw [writeFlash, writeLoop]
    by_cases h0 : len = 0
    · rw [dif_pos h0, if_pos h0]
    · have hsub := cuts_writeLenOf.toNat_sub h0
      have hpos := (cuts_writeLenOf len h0).1
      rw [dif_neg h0, if_neg h0]
      dsimp only
      rw [ih (buffer.drop (writeLenOf len).toNat) (address + writeLenOf len)
        (len - writeLenOf len) (by omega)]

theorem sendsWrites : (runs srv).SendsWrites p.doWriteFlash where
  short buffer address len t hbuf := by
    rw [doWriteFlash, hbuf]
    exact ⟨_, rfl⟩
  sent buffer address len content t hbuf := by
    rw [p.doWriteFlash_eq hbuf]
    refine ⟨_, Prod.ext rfl ?_⟩
    exact p.requests_attempt srv jlSuCmdWrite _ t.1 t.2

/-- Every write that has its bytes succeeds, whatever the buffers hold. -/
def WritesSucceed : Prop :=
  ∀ buffer address len st s, len.toNat ≤ buffer.length →
    ∃ st', result srv ((p.doWriteFlash buffer address len).run st) s = .ok (true, st')

theorem writeFlash_faithful (hcrc : chip.chipCrc16 = Crc16.xmodem)
    (hkey : chip.communicationKey = communicationKey) (buffer : List UInt8)
    (address len unit : UInt32) (st : State) (s : τ) :
    ∃ ps k, k ≤ len.toNat ∧ k ≤ buffer.length ∧ Tiles address (buffer.take k) ps ∧
      List.Forall₂
        (fun c piece => ∀ hidTxBuf,
          Faithful chip (p.report (p.makeCmd hidTxBuf c)) piece.1 piece.2)
        (requests srv ((p.writeFlash buffer address len unit).run st) s) ps ∧
      (∀ st', result srv ((p.writeFlash buffer address len unit).run st) s = .ok (true, st') →
        k = len.toNat) ∧
      (len.toNat ≤ buffer.length → p.WritesSucceed srv →
        ∃ st', result srv ((p.writeFlash buffer address len unit).run st) s = .ok (true, st')) := by
  have hmost (l : UInt32) (_ : l.toNat ≤ len.toNat) : (writeLenOf l).toNat ≤ 41 := by
    rw [toNat_writeLenOf]
    omega
  -- the erase unit plays no part: 41 bytes at most
  obtain ⟨ps, k, hk, hk', htiles, hreports, htrue⟩ := Runs.writeLoop_tiles (p.sendsWrites srv)
    (run_outOfFuel srv) cuts_writeLenOf len.toNat buffer address len hmost
    (fun c piece => ∀ hidTxBuf, Faithful chip (p.report (p.makeCmd hidTxBuf c)) piece.1 piece.2)
    (fun address len content hlen hpos hle hidTxBuf =>
      p.faithful_report hcrc hkey hidTxBuf address len hlen hpos hle) (st, s)
  rw [← p.writeFlash_eq len.toNat buffer address len unit le_rfl] at hreports htrue
  refine ⟨ps, k, hk, hk', htiles, hreports, fun st' hres => ?_, fun hbuffer hsrv => ?_⟩
  · obtain ⟨t', hrun⟩ := runs_iff.mpr ⟨⟨st', hres⟩, rfl⟩
    exact htrue t' (congrArg Prod.fst hrun)
  · obtain ⟨b, ⟨st', s'⟩, hres, rfl⟩ := @Runs.writeLoop_ends HidM _ (State × τ) (runs srv)
      (abort .outOfFuel) p.doWriteFlash (· = true) rfl
      (fun buffer address len content t hbuf => by
        obtain ⟨st', hst'⟩ := hsrv buffer address len t.1 t.2 (readBuf_zero_iff.mp hbuf).1
        obtain ⟨t', ht'⟩ := runs_iff.mpr ⟨⟨st', hst'⟩, rfl⟩
        exact ⟨true, t', congrArg Prod.fst ht', rfl⟩)
      writeLenOf cuts_writeLenOf len.toNat buffer address len le_rfl hbuffer (st, s)
    rw [← p.writeFlash_eq len.toNat buffer address len unit le_rfl] at hres
    obtain ⟨hdone, -⟩ := runs_iff.mp ⟨(st', s'), Prod.ext hres rfl⟩
    exact hdone

end Port

/-- Whoever answers, the reports that `writeFlash` sends are faithful, whatever `hid_tx_buf` held,
and tile the range from its start on: all of it if `writeFlash` returns `true`, as it does if the
buffer is long enough and all writes succeed. -/
def WritesFaithful (chip : Chip σ) (buffer : List UInt8) (address len unit : UInt32) : Prop :=
  ∀ (τ : Type) (srv : τ → Cmd → List (List UInt8) × τ) (st : State) (s : τ), ∃ ps k,
    k ≤ len.toNat ∧ k ≤ buffer.length ∧ Tiles address (buffer.take k) ps ∧
    List.Forall₂
      (fun c piece => ∀ hidTxBuf, Faithful chip (report (makeCmd hidTxBuf c)) piece.1 piece.2)
      (requests srv ((writeFlash buffer address len unit).run st) s) ps ∧
    (∀ st', result srv ((writeFlash buffer address len unit).run st) s = .ok (true, st') →
      k = len.toNat) ∧
    (len.toNat ≤ buffer.length → windows.WritesSucceed srv →
      ∃ st', result srv ((writeFlash buffer address len unit).run st) s = .ok (true, st'))

/-- **The writes of `win-usb_hid` are faithful.** -/
theorem writes_faithful (hcrc : chip.chipCrc16 = Crc16.xmodem)
    (hkey : chip.communicationKey = communicationKey) (buffer : List UInt8)
    (address len unit : UInt32) : WritesFaithful chip buffer address len unit := by
  intro τ srv st s
  have h := windows.writeFlash_faithful srv hcrc hkey buffer address len unit st s
  simp only [windows_writeFlash, windows_makeCmd, windows_report] at h
  exact h

/-- Two pieces for a device with the host's key. -/
theorem writes_faithful_two :
    WritesFaithful { sampleChip with communicationKey := communicationKey }
      (List.replicate 64 0x5A) 0x2000 64 256 :=
  writes_faithful rfl rfl (List.replicate 64 0x5A) 0x2000 64 256

end Hid

end FwBootloader
