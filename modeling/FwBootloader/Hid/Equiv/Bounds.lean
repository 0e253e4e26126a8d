import FwBootloader.Hid.Equiv.Acknowledgement

/-!
## Where the copies out of a report stay

After an exchange a USB host copies `2 + cmd_len` bytes from `hid_rx_buf + 4` into a buffer of that
size, and `isReplyFlashCrcCmd` copies the checksums from there.  `cmd_len` is a field of the report,
or `0xFFFF` when none has come, and nothing compares it with the sizes.

`copies_inside_iff`: the copies stay inside exactly when a report is received whose length field
keeps them there.
-/

namespace FwBootloader.Hid

open Bytes Framing Dialog

/-- A procedure of one exchange, in which `reads` are read, ends with a verdict: it has copied
nothing from outside its buffers. -/
def Completes {α : Type} (q : HidM α) (reads : List (List UInt8)) (s : State) : Prop :=
  ∃ r, Returns (q.run s) [reads] r

namespace Port

variable (p : Port)

/-- What the reply checks get, if the copy stays inside. -/
theorem copyInside_iff (reads : List (List UInt8)) (s : State) :
    p.CopyInside reads ↔ ∃ bin, p.reply reads s = some bin := by
  rcases hrec : p.received reads with _ | report
  · rw [p.reply_of_not_received hrec]
    constructor
    · rintro ⟨report, hrep, -⟩
      cases hrec.symm.trans hrep
    · rintro ⟨bin, ⟨⟩⟩
  · rcases p.reply_of_received hrec s with ⟨hlt, hnone⟩ | ⟨hfit, bin, hbin, -⟩
    · rw [hnone]
      constructor
      · rintro ⟨_, hrep, hle⟩
        obtain rfl := Option.some.inj (hrec.symm.trans hrep)
        omega
      · rintro ⟨bin, ⟨⟩⟩
    · exact iff_of_true ⟨report, hrec, hfit⟩ ⟨bin, hbin⟩

theorem attempt_completes_iff (opcode : UInt8) (c : Cmd) (reads : List (List UInt8)) (s : State) :
    Completes (p.attempt opcode c) reads s ↔ p.CopyInside reads := by
  rw [p.copyInside_iff reads s]
  unfold Completes attempt
  simp only [returns_iff]
  constructor
  · rintro ⟨r, bin, hbin, -⟩
    exact ⟨bin, hbin⟩
  · rintro ⟨bin, hbin⟩
    exact ⟨_, bin, hbin, rfl⟩

theorem doEraseFlash_completes_iff (address len : UInt32) (reads : List (List UInt8)) (s : State) :
    Completes (p.doEraseFlash address len) reads s ↔ p.CopyInside reads := by
  rw [doEraseFlash_eq]
  exact p.attempt_completes_iff _ _ reads s

theorem doWriteFlash_completes_iff (buffer : List UInt8) (address len : UInt32)
    (reads : List (List UInt8)) (s : State) :
    Completes (p.doWriteFlash buffer address len) reads s ↔
      len.toNat ≤ buffer.length ∧ p.CopyInside reads := by
  have hzero : (0 : UInt32).toNat = 0 := UInt32.toNat_zero
  rcases Nat.lt_or_ge buffer.length len.toNat with hlt | hge
  · have hbuf : readBuf buffer 0 len = none := if_neg (by omega)
    refine iff_of_false ?_ fun h => by omega
    rintro ⟨r, hrun⟩
    unfold doWriteFlash at hrun
    rw [hbuf] at hrun
    exact hrun.elim
  · have hbuf : readBuf buffer 0 len = some ((buffer.drop 0).take len.toNat) :=
      if_pos (by omega)
    rw [p.doWriteFlash_eq hbuf, attempt_completes_iff, and_iff_right hge]

/-- The check of a list of checksums copies from outside `bin` only when it is taken for one. -/
theorem isReplyFlashCrcCmd_ok_iff {bin report : List UInt8} {n : ℕ} (count : UInt32)
    (hlen : bin.length = n) (hn : 2 ≤ n)
    (hbin : bin.take 60 = ((decoded report).drop 4).take n) :
    (∃ crcs, isReplyFlashCrcCmd bin count = .ok crcs) ↔
      (Matches jlSuCmdFlashCrc report → 2 + (count * 2).toNat ≤ n) := by
  unfold isReplyFlashCrcCmd
  rw [getD_of_take hbin (by omega : 0 < n) (by omega), getD_of_take hbin (by omega : 1 < n)
    (by omega), hlen]
  split_ifs with hop hshort
  · refine iff_of_true ⟨none, rfl⟩ fun hm => ?_
    rcases hop with h | h
    · exact absurd hm.1 h
    · exact absurd hm.2 h
  · rw [not_or, not_not, not_not] at hop
    refine iff_of_false ?_ fun h => ?_
    · rintro ⟨crcs, ⟨⟩⟩
    · have hle := h ⟨hop.1, hop.2⟩
      omega
  · exact iff_of_true ⟨_, rfl⟩ fun _ => by omega

theorem fetchCrcBatch_completes_iff (blockSize address count : UInt32)
    (reads : List (List UInt8)) (s : State) :
    Completes (p.fetchCrcBatch blockSize address count) reads s ↔
      p.CopyInside reads ∧ p.HoldsCrcs count reads := by
  unfold Completes fetchCrcBatch
  simp only [returns_iff]
  -- no report: `cmd_len` is `0xFFFF`
  rcases hrec : p.received reads with _ | report
  · rw [p.reply_of_not_received hrec]
    refine iff_of_false ?_ ?_
    · rintro ⟨r, bin, ⟨⟩, -⟩
    · rintro ⟨⟨report, hrep, -⟩, -⟩
      cases hrec.symm.trans hrep
  have hcrcs : p.HoldsCrcs count reads ↔
      (Matches jlSuCmdFlashCrc report →
        2 + (count * 2).toNat ≤ 2 + Format.declared report) := by
    unfold HoldsCrcs
    rw [hrec]
    constructor
    · intro h hm
      have hle := h report rfl hm
      omega
    · rintro h _ hrep hm
      obtain rfl := Option.some.inj hrep
      have hle := h hm
      omega
  -- the first copy leaves the buffer, or the second one decides
  rcases p.reply_of_received hrec s with ⟨hlt, hnone⟩ | ⟨hfit, bin, hbin, hlen, htake⟩
  · rw [hnone]
    refine iff_of_false ?_ ?_
    · rintro ⟨r, bin, ⟨⟩, -⟩
    · rintro ⟨⟨_, hrep, hle⟩, -⟩
      obtain rfl := Option.some.inj (hrec.symm.trans hrep)
      omega
  · have hinside : p.CopyInside reads := ⟨report, hrec, hfit⟩
    rw [and_iff_right hinside, hcrcs,
      ← isReplyFlashCrcCmd_ok_iff count hlen (by omega) htake, hbin]
    constructor
    · rintro ⟨r, _, hbin', hrun⟩
      obtain rfl := Option.some.inj hbin'
      rcases hcheck : isReplyFlashCrcCmd bin count with e | crcs
      · rw [hcheck] at hrun
        exact hrun.elim
      · exact ⟨crcs, rfl⟩
    · rintro ⟨crcs, hcheck⟩
      refine ⟨(crcs, p.readDeice reads s), bin, rfl, ?_⟩
      rw [hcheck]
      exact rfl

end Port

/-- **The copies out of a report stay inside their buffers** exactly when the length in the report
keeps them there. -/
theorem copies_inside_iff (reads : List (List UInt8)) (s : State) :
    (∀ address len, Completes (doEraseFlash address len) reads s ↔ windows.CopyInside reads) ∧
    (∀ buffer address len, Completes (doWriteFlash buffer address len) reads s ↔
      len.toNat ≤ buffer.length ∧ windows.CopyInside reads) ∧
    (∀ blockSize address readCount,
      Completes (fetchCrcBatch blockSize address readCount) reads s ↔
        windows.CopyInside reads ∧ windows.HoldsCrcs readCount reads) ∧
    (∀ address len,
      Completes (Android.doEraseFlash address len) reads s ↔ Android.port.CopyInside reads) ∧
    (∀ buffer address len, Completes (Android.doWriteFlash buffer address len) reads s ↔
      len.toNat ≤ buffer.length ∧ Android.port.CopyInside reads) ∧
    ∀ blockSize address readCount,
      Completes (Android.fetchCrcBatch blockSize address readCount) reads s ↔
        Android.port.CopyInside reads ∧ Android.port.HoldsCrcs readCount reads := by
  refine ⟨fun address len => ?_, fun buffer address len => ?_,
    fun blockSize address readCount => ?_, fun address len => ?_, fun buffer address len => ?_,
    fun blockSize address readCount => ?_⟩
  · rw [← windows_doEraseFlash]
    exact windows.doEraseFlash_completes_iff address len reads s
  · rw [← windows_doWriteFlash]
    exact windows.doWriteFlash_completes_iff buffer address len reads s
  · rw [← windows_fetchCrcBatch]
    exact windows.fetchCrcBatch_completes_iff blockSize address readCount reads s
  · exact Android.port.doEraseFlash_completes_iff address len reads s
  · exact Android.port.doWriteFlash_completes_iff buffer address len reads s
  · exact Android.port.fetchCrcBatch_completes_iff blockSize address readCount reads s

/-- A report with opcode `C4` and no error whose length field counts these two bytes only. -/
def shortCrcReport : List UInt8 :=
  [0xAA, 0x55, 2, 0, 0x8A, 0x61] ++ List.replicate 58 0

/-- Without a report the first copy leaves `hid_rx_buf`, and with such a report the second one
leaves the temporary buffer. -/
theorem copies_leave :
    ¬ Completes (doEraseFlash 0x1000 4096) [] ⟨fun _ => 0, []⟩ ∧
      ¬ Completes (Android.fetchCrcBatch 4096 0x1000 16) [shortCrcReport] ⟨fun _ => 0, []⟩ := by
  constructor
  · rw [← windows_doEraseFlash, Port.doEraseFlash_completes_iff]
    rintro ⟨report, ⟨⟩, -⟩
  · show ¬ Completes (Android.port.fetchCrcBatch 4096 0x1000 16) _ _
    rw [Port.fetchCrcBatch_completes_iff]
    rintro ⟨-, hcrcs⟩
    exact absurd (hcrcs shortCrcReport rfl ⟨rfl, rfl⟩) (by decide)

end FwBootloader.Hid
