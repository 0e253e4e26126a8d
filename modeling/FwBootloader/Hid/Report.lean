import FwBootloader.Hid.Port
import FwBootloader.Protocol

/-!
## What a USB host can know from a report

`Port.received` is the report that an exchange takes, if one comes in time.  `Acknowledges` says
that it is a packet, as the serial host's parser takes it, with a given opcode and without an error,
and `Port.SoundVerdict` that a procedure's verdict on an exchange rests on such a report.
-/

namespace FwBootloader.Hid

open Bytes Framing Dialog

/-- The first report of 64 bytes that is read within `timeout` polls. -/
def Port.firstReport (p : Port) : ℕ → List (List UInt8) → Option (List UInt8)
  | timeout + 1, r :: reads =>
    if (p.stored r).length ≥ 64 then some ((p.stored r).take 64)
    else p.firstReport timeout reads
  | _, _ => none

/-- The report that an exchange receives within its 3000 polls. -/
def Port.received (p : Port) (reads : List (List UInt8)) : Option (List UInt8) :=
  p.firstReport 3000 reads

/-- A report with all that follows the length field decrypted. -/
def decoded (report : List UInt8) : List UInt8 :=
  report.take 4 ++ decodeCommand (report.drop 4)

/-- The report starts with a packet: marker, a length inside the report, and a matching CRC.  The
packet has the opcode, reports no error, and `rest` follows. -/
structure Acknowledges (opcode : UInt8) (report rest : List UInt8) : Prop where
  length : report.length = 64
  marked : xmodemPacket.Marked report
  inside : 6 + Format.declared report ≤ 64
  intact : xmodemPacket.Intact report
  payload : decodeCommand ((report.drop 4).take (Format.declared report))
    = opcode :: jlSuRspSucc :: rest

/-- The parser of a byte stream delivers this packet first. -/
theorem Acknowledges.scan {opcode : UInt8} {report rest : List UInt8}
    (h : Acknowledges opcode report rest) :
    ∃ more, xmodemPacket.scan report
      = xorKey communicationKey (opcode :: jlSuRspSucc :: rest) :: more := by
  have hlen := h.length
  have hinside := h.inside
  refine ⟨xmodemPacket.scan (report.drop (6 + Format.declared report)), ?_⟩
  rw [xmodemPacket.scan_of_intact (by omega) h.marked (by omega) h.intact, ← h.payload,
    decodeCommand, xorKey_xorKey]

/-- What a procedure says about its one exchange, in which `reads` are read: a verdict other than
`failed` only when the report received is a packet with the opcode, without an error, from whose
`rest` the verdict follows, and `failed` when no report is received. -/
def Port.SoundVerdict {α : Type} (p : Port) (opcode : UInt8) (failed : α)
    (follows : List UInt8 → α → Prop) (q : HidM α) (reads : List (List UInt8)) (s : State) : Prop :=
  ∃ v s', Returns (q.run s) [reads] (v, s') ∧
    (v ≠ failed → ∃ report rest, p.received reads = some report ∧
      Acknowledges opcode report rest ∧ follows rest v) ∧
    (p.received reads = none → v = failed)

/-- The verdict is the `count` checksums that follow the status. -/
def HasCrcs (count : UInt32) (rest : List UInt8) (v : Option (List UInt16)) : Prop :=
  rest.length = 2 * count.toNat ∧ v = some (ofLe16s rest)

/-- What the host looks at: the opcode and the status. -/
def Matches (opcode : UInt8) (report : List UInt8) : Prop :=
  (decoded report).getD 4 0 = opcode ∧ (decoded report).getD 5 0 = jlSuRspSucc

instance (opcode : UInt8) (report : List UInt8) : Decidable (Matches opcode report) :=
  inferInstanceAs (Decidable (_ ∧ _))

/-- A report is received in time, the length in it keeps the copy inside `hid_rx_buf`, and if it has
the opcode and no error it is a packet of a length in `len`. -/
def Port.Reliable (p : Port) (opcode : UInt8) (len : ℕ → Prop) (reads : List (List UInt8)) :
    Prop :=
  ∃ report, p.received reads = some report ∧ 6 + Format.declared report ≤ p.rxSize ∧
    (Matches opcode report → xmodemPacket.Marked report ∧ 6 + Format.declared report ≤ 64 ∧
      xmodemPacket.Intact report ∧ len (Format.declared report))

/-- A report is received in time, and the length in it keeps the copy inside `hid_rx_buf`. -/
def Port.CopyInside (p : Port) (reads : List (List UInt8)) : Prop :=
  ∃ report, p.received reads = some report ∧ 6 + Format.declared report ≤ p.rxSize

/-- If the report has the opcode and no error, `count` checksums stand behind its status. -/
def Port.HoldsCrcs (p : Port) (count : UInt32) (reads : List (List UInt8)) : Prop :=
  ∀ report, p.received reads = some report → Matches jlSuCmdFlashCrc report →
    (count * 2).toNat ≤ Format.declared report

instance (p : Port) (reads : List (List UInt8)) : Decidable (p.CopyInside reads) :=
  inferInstanceAs (Decidable (∃ report, report ∈ p.received reads ∧ _))

instance (p : Port) (count : UInt32) (reads : List (List UInt8)) :
    Decidable (p.HoldsCrcs count reads) :=
  inferInstanceAs (Decidable (∀ report, report ∈ p.received reads → _))

end FwBootloader.Hid
