import FwBootloader.Hid.Report

/-!
## What a run of a USB host has seen

The history of a run is the list of its completed exchanges.  `Port.Fetched` says that some
exchanges are a complete reading of the chip's checksums, `Port.Refused` that a reply to a request
for checksums is one that `fetchChipCrcList` returns `false` for, and `Port.Verified` that the last
exchanges have read the image's checksums from the chip.  `Port.Answered` is what the replies have
to be for a reboot to be `Port.RebootsVerified`.
-/

namespace FwBootloader.Hid

open Bytes Dialog

/-- A command and what was read after it. -/
abbrev Exchange : Type := Cmd × List (List UInt8)

namespace Port

variable (p : Port)

/-! ### The device init command -/

/-- The fields of a device init reply. -/
def initFields (report : List UInt8) : DeviceInitInfo :=
  let byte (i : ℕ) : UInt8 := (decoded report).getD i 0
  let word (i : ℕ) : UInt32 := ofLe32 (byte i) (byte (i + 1)) (byte (i + 2)) (byte (i + 3))
  ⟨word 6, word 10, word 14, word 18⟩

/-- What the init exchange leaves in `info`: the fields of a report with status 0. -/
def initInfo (info : DeviceInitInfo) (reads : List (List UInt8)) : DeviceInitInfo :=
  (p.received reads).elim info fun report =>
    if (decoded report).getD 5 0 = jlSuRspSucc then initFields report else info

/-- The init reply has been received, with status 0. -/
def InitReceived (reads : List (List UInt8)) : Prop :=
  ∃ report, p.received reads = some report ∧ Matches jlSuCmdDeviceInit report

/-! ### The image -/

/-- `fileSize`. -/
def fileSize (fileContent : List UInt8) (app : DeviceInitInfo) : UInt32 :=
  UInt32.ofNat fileContent.length - app.zoneAddr

/-- `blockCount`. -/
def blockCount (fileContent : List UInt8) (app : DeviceInitInfo) : UInt32 :=
  (fileSize fileContent app + app.eraseUnitSize - 1) / app.eraseUnitSize

/-- `fileBuf`, where filling the file up is defined. -/
def fileBuf (fileContent : List UInt8) (app : DeviceInitInfo) : Option (List UInt8) :=
  let fileSize := fileSize fileContent app
  let alignedFileSize := blockCount fileContent app * app.eraseUnitSize
  (if alignedFileSize ≠ fileSize then p.fill fileContent (alignedFileSize - fileSize)
    else some fileContent).map (·.drop app.zoneAddr.toNat)

/-- `fileCrcList`, where no block reaches outside the image. -/
def fileCrcList (fileContent : List UInt8) (app : DeviceInitInfo) : Option (List UInt16) :=
  (p.fileBuf fileContent app).bind fun buf =>
    getBufferCrcList buf (blockCount fileContent app) app.eraseUnitSize

end Port

/-- The buffer and the checksums of the file are defined. -/
def Prepared (p : Port) (fileContent : List UInt8) (app : DeviceInitInfo) : Prop :=
  ∃ buf crcs, p.fileBuf fileContent app = some buf ∧
    getBufferCrcList buf (Port.blockCount fileContent app) app.eraseUnitSize = some crcs

namespace Port

variable (p : Port)

/-! ### The chip's checksums -/

/-- A reply to a request for checksums that has another opcode or reports an error. -/
def Refused : Exchange → Prop
  | (.flashCrc _ _ _, reads) =>
    ∃ report, p.received reads = some report ∧ ¬ Matches jlSuCmdFlashCrc report
  | _ => False

instance : DecidablePred p.Refused
  | (.flashCrc _ _ _, reads) =>
    inferInstanceAs (Decidable (∃ report, report ∈ p.received reads ∧ _))
  | (.deviceInit _ _, _) | (.deviceCheck _, _) | (.erase _ _, _) | (.write _ _ _, _)
  | (.reboot, _) => isFalse not_false

/-- A request of the first list of checksums, before which nothing is modified, is refused. -/
def FirstRefused (h : List Exchange) : Prop :=
  ∃ h₁ x h₂, h = h₁ ++ x :: h₂ ∧ (∀ y ∈ h₁, ¬ y.1.Modifies) ∧ p.Refused x

/-- The copies that the host makes of a reply stay inside their buffers.  A request for checksums
asks for one a block; of the replies to the init and the reboot command nothing is copied. -/
def Copied : Exchange → Prop
  | (.flashCrc _ len blockSize, reads) => p.CopyInside reads ∧ p.HoldsCrcs (len / blockSize) reads
  | (.erase _ _, reads) => p.CopyInside reads
  | (.write _ _ _, reads) => p.CopyInside reads
  | _ => True

instance : DecidablePred p.Copied
  | (.flashCrc _ _ _, _) => inferInstanceAs (Decidable (_ ∧ _))
  | (.erase _ _, reads) | (.write _ _ _, reads) => inferInstanceAs (Decidable (p.CopyInside reads))
  | (.deviceInit _ _, _) | (.deviceCheck _, _) | (.reboot, _) => isTrue trivial

/-- With the init reply's layout the image is defined, all copies of the replies stay inside their
buffers, and none to a request of the first list is refused. -/
structure Answered (info : DeviceInitInfo) (fileContent : List UInt8) (h : List Exchange) :
    Prop where
  prepared : ∀ reads t, h = (.deviceInit "app_dir_head" 0, reads) :: t →
    (p.initInfo info reads).eraseUnitSize ≠ 0 ∧ Prepared p fileContent (p.initInfo info reads)
  copied : ∀ x ∈ h, p.Copied x
  accepted : ¬ p.FirstRefused h

/-- The exchanges are a complete reading of the checksums of `count` units from `address` on: each
request asks for the next `n` of them, and its reply is accepted and has them behind its status. -/
inductive Fetched (unit : UInt32) : UInt32 → ℕ → List UInt16 → List Exchange → Prop where
  | nil (address : UInt32) : Fetched unit address 0 [] []
  | batch {address n : UInt32} {count : ℕ} {reads : List (List UInt8)} {report : List UInt8}
      {rest : List UInt16} {t : List Exchange} (hreceived : p.received reads = some report)
      (hmatches : Matches jlSuCmdFlashCrc report)
      (hrest : Fetched unit (address + n * unit) count rest t) :
      Fetched unit address (n.toNat + count)
        (ofLe16s (((decoded report).drop 6).take (2 * n.toNat)) ++ rest)
        ((.flashCrc address (n * unit) unit, reads) :: t)

/-- The last exchanges are a complete reading of the chip's checksums, and these are the image's. -/
def Verified (info : DeviceInitInfo) (fileContent : List UInt8) (h : List Exchange) : Prop :=
  ∃ reads h₁ hf crcs, h = (.deviceInit "app_dir_head" 0, reads) :: (h₁ ++ hf) ∧
    p.fileCrcList fileContent (p.initInfo info reads) = some crcs ∧
    p.Fetched (p.initInfo info reads).eraseUnitSize (p.initInfo info reads).flashEoffsetSize
      (blockCount fileContent (p.initInfo info reads)).toNat crcs hf

/-- The host goes on from the init exchange, no copy out of a reply leaves its buffer, and wherever
the reboot command is sent the image's checksums have been read from the chip. -/
structure RebootsVerified {α : Type} (info : DeviceInitInfo) (fileContent : List UInt8)
    (q : Dialog Cmd (List (List UInt8)) HostFault α) (rs : List (List (List UInt8))) : Prop where
  prepared : ∀ reads, [reads] <+: rs → pending q [reads] ≠ none
  copied : ∀ rs', rs' <+: rs → fault q rs' ≠ some .replyOutOfBounds
  verified : ∀ rs', rs' <+: rs → pending q rs' = some .reboot →
    p.Verified info fileContent (exchanges q rs')

end Port

end FwBootloader.Hid
