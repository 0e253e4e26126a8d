import FwBootloader.Android.JlBootloader
import FwBootloader.Hid.Equiv.Port
import FwBootloader.Hid.Equiv.Report

/-!
## When a USB host's verdict can be relied on

`acknowledged_iff`: the verdict of an erase, a write or a request for checksums rests on a packet
received in that exchange if and only if the reads are `Port.Reliable`.  Neither host looks at the
marker or the CRC of a report, and neither handles that none has come.
-/

namespace FwBootloader.Hid

open Bytes Framing Dialog

/-! ### The reply checks -/

/-- The bytes that the checks look at are those of the report. -/
theorem getD_of_take {bin report : List UInt8} {n i : ℕ}
    (hbin : bin.take 60 = ((decoded report).drop 4).take n) (hi : i < n) (hi60 : i < 60) :
    bin.getD i 0 = (decoded report).getD (4 + i) 0 := by
  have htake : (bin.take 60).getD i 0 = (((decoded report).drop 4).take n).getD i 0 := by
    rw [hbin]
  simp only [List.getD_eq_getElem?_getD, List.getElem?_take, List.getElem?_drop, if_pos hi,
    if_pos hi60] at htake ⊢
  exact htake

/-- The payload of a packet, from the decrypted report. -/
theorem payload_eq (report : List UInt8) (n : ℕ) (hlen : report.length = 64) :
    decodeCommand ((report.drop 4).take n) = ((decoded report).drop 4).take n := by
  have htake : (report.take 4).length = 4 := by
    rw [List.length_take]
    omega
  have hdrop : (decoded report).drop 4 = decodeCommand (report.drop 4) := by
    unfold decoded
    rw [List.drop_left' htake]
  rw [hdrop]
  apply List.ext_getElem
  · simp [decodeCommand]
  · intro i _ _
    simp [decodeCommand, xorKey]

/-- What has the opcode and no error has a payload that starts with them. -/
theorem exists_rest {opcode : UInt8} {report : List UInt8} {n : ℕ} (hlen : report.length = 64)
    (hm : Matches opcode report) (hn : 2 ≤ n) :
    decodeCommand ((report.drop 4).take n)
      = opcode :: jlSuRspSucc :: ((decoded report).drop 6).take (n - 2) := by
  obtain ⟨k, rfl⟩ := Nat.exists_eq_add_of_le hn
  have hdec := (length_decoded report).trans hlen
  have h4 : (decoded report)[4] = opcode := by
    have h := hm.1
    rwa [List.getD_eq_getElem _ _ (by omega)] at h
  have h5 : (decoded report)[5] = jlSuRspSucc := by
    have h := hm.2
    rwa [List.getD_eq_getElem _ _ (by omega)] at h
  rw [payload_eq report _ hlen, List.drop_eq_getElem_cons (by omega), List.drop_eq_getElem_cons
    (by omega : 4 + 1 < _), h4, h5, show 2 + k = k + 1 + 1 by omega, List.take_succ_cons,
    List.take_succ_cons]
  rfl

/-- The verdict, from the report. -/
theorem isReplyStatus_iff {opcode : UInt8} {bin report : List UInt8} {n : ℕ} (hn : 2 ≤ n)
    (hbin : bin.take 60 = ((decoded report).drop 4).take n) :
    isReplyStatus opcode bin = some jlSuRspSucc ↔ Matches opcode report := by
  unfold isReplyStatus Matches
  rw [getD_of_take hbin (by omega : 0 < n) (by omega), getD_of_take hbin (by omega : 1 < n)
    (by omega)]
  split_ifs with h
  · constructor
    · rintro ⟨⟩
    · intro hm
      exact absurd hm.1 h
  · rw [not_not] at h
    constructor
    · intro hs
      exact ⟨h, Option.some.inj hs⟩
    · intro hm
      rw [hm.2]

/-- What `fetchCrcBatch` makes of a reply. -/
theorem isReplyFlashCrcCmd_cases {bin report : List UInt8} {n : ℕ} {count : UInt32}
    (hcount : count.toNat ≤ 16) (hlen : bin.length = n) (hn : 2 ≤ n)
    (hbin : bin.take 60 = ((decoded report).drop 4).take n) :
    (¬ Matches jlSuCmdFlashCrc report ∧ isReplyFlashCrcCmd bin count = .ok none) ∨
      (Matches jlSuCmdFlashCrc report ∧ n < 2 + 2 * count.toNat ∧
        isReplyFlashCrcCmd bin count = .error .replyOutOfBounds) ∨
      (Matches jlSuCmdFlashCrc report ∧ 2 + 2 * count.toNat ≤ n ∧
        isReplyFlashCrcCmd bin count
          = .ok (some (ofLe16s (((decoded report).drop 6).take (2 * count.toNat))))) := by
  have hmul : (count * 2).toNat = 2 * count.toNat := by
    have h2 : (2 : UInt32).toNat = 2 := rfl
    rw [UInt32.toNat_mul, h2]
    omega
  unfold isReplyFlashCrcCmd Matches
  rw [getD_of_take hbin (by omega : 0 < n) (by omega), getD_of_take hbin (by omega : 1 < n)
    (by omega), hmul, hlen]
  by_cases hm : (decoded report).getD 4 0 = jlSuCmdFlashCrc ∧
      (decoded report).getD 5 0 = jlSuRspSucc
  · refine Or.inr ?_
    have hno : ¬ ((decoded report).getD (4 + 0) 0 ≠ jlSuCmdFlashCrc ∨
        (decoded report).getD (4 + 1) 0 ≠ jlSuRspSucc) :=
      not_or.mpr ⟨not_not.mpr hm.1, not_not.mpr hm.2⟩
    rw [if_neg hno]
    rcases Nat.lt_or_ge n (2 + 2 * count.toNat) with hlt | hge
    · exact Or.inl ⟨hm, hlt, if_pos hlt⟩
    · refine Or.inr ⟨hm, hge, ?_⟩
      have hdrop : (bin.drop 2).take (2 * count.toNat)
          = ((decoded report).drop 6).take (2 * count.toNat) := by
        have h := congrArg (fun l : List UInt8 => (l.drop 2).take (2 * count.toNat)) hbin
        simp only [List.drop_take, List.take_take, List.drop_drop] at h
        rwa [Nat.min_eq_left (by omega), Nat.min_eq_left (by omega)] at h
      rw [if_neg (by omega), hdrop]
  · refine Or.inl ⟨hm, if_pos ?_⟩
    rcases not_and_or.mp hm with h | h
    · exact Or.inl h
    · exact Or.inr h

namespace Port

variable (p : Port)

/-! ### Erasing and writing -/

/-- Send a command and say whether the reply has its opcode and no error. -/
def attempt (opcode : UInt8) (c : Cmd) : HidM Bool := do
  p.exchange c
  let cmd ← p.replyBytes
  return isReplyStatus opcode cmd = some jlSuRspSucc

theorem doEraseFlash_eq (address len : UInt32) :
    p.doEraseFlash address len = p.attempt jlSuCmdErase (.erase address (eraseType len)) := by
  refine congrArg (p.exchange _ >>= ·) (funext fun _ => ?_)
  refine congrArg (p.replyBytes >>= ·) (funext fun cmd => ?_)
  dsimp only [isReplyEraseCmd]
  rcases isReplyStatus jlSuCmdErase cmd with _ | rspStatus
  · rfl
  · simp

theorem doWriteFlash_eq {buffer content : List UInt8} {len : UInt32}
    (hbuf : readBuf buffer 0 len = some content) (address : UInt32) :
    p.doWriteFlash buffer address len
      = p.attempt jlSuCmdWrite (.write address len content) := by
  unfold doWriteFlash
  rw [hbuf]
  refine congrArg (p.exchange _ >>= ·) (funext fun _ => ?_)
  refine congrArg (p.replyBytes >>= ·) (funext fun cmd => ?_)
  dsimp only [isReplyWriteCmd]
  rcases isReplyStatus jlSuCmdWrite cmd with _ | rspStatus
  · rfl
  · simp

/-- However it ends, it sends its command and nothing else. -/
theorem requests_attempt {σ : Type} (srv : σ → Cmd → List (List UInt8) × σ) (opcode : UInt8)
    (c : Cmd) (st : State) (s : σ) : requests srv ((p.attempt opcode c).run st) s = [c] := by
  unfold attempt
  rw [query_run, requests]
  rcases p.reply (srv s c).1 st with _ | bin
  · rfl
  · rfl

variable {α : Type}

/-- A run of one exchange. -/
theorem returns_iff (c : Cmd) (g : List UInt8 → HidM α) (reads : List (List UInt8)) (s : State)
    (r : α × State) :
    Returns ((p.exchange c >>= fun _ => p.replyBytes >>= g).run s) [reads] r ↔
      ∃ bin, p.reply reads s = some bin ∧ Returns ((g bin).run (p.readDeice reads s)) [] r := by
  rw [query_run]
  show Returns ((p.reply reads s).elim _ _) [] r ↔ _
  rcases p.reply reads s with _ | bin
  · constructor
    · exact False.elim
    · rintro ⟨bin, ⟨⟩, _⟩
  · constructor
    · exact fun h => ⟨bin, rfl, h⟩
    · rintro ⟨_, ⟨⟩, h⟩
      exact h

theorem attempt_sound_iff (opcode : UInt8) (c : Cmd) (reads : List (List UInt8)) (s : State) :
    p.SoundVerdict opcode false (fun _ _ => True) (p.attempt opcode c) reads s ↔
      p.Reliable opcode (2 ≤ ·) reads := by
  unfold SoundVerdict Reliable attempt
  simp only [returns_iff]
  constructor
  · rintro ⟨v, s', ⟨bin, hreply, hv⟩, hsucc, -⟩
    obtain ⟨rfl, rfl⟩ : v = decide (isReplyStatus opcode bin = some jlSuRspSucc) ∧ s' = _ :=
      Prod.mk.inj hv
    -- a verdict, so a report has been received, and the copy of its reply stays inside
    rcases hrec : p.received reads with _ | report
    · rw [p.reply_of_not_received hrec] at hreply
      cases hreply
    · rcases p.reply_of_received hrec s with ⟨-, hnone⟩ | ⟨hfit, bin', hbin', -, htake⟩
      · rw [hnone] at hreply
        cases hreply
      · obtain rfl : bin' = bin := Option.some.inj (hbin'.symm.trans hreply)
        refine ⟨report, rfl, hfit, fun hm => ?_⟩
        have htrue : decide (isReplyStatus opcode bin' = some jlSuRspSucc) ≠ false := by
          rw [decide_eq_true ((isReplyStatus_iff (by omega) htake).mpr hm)]
          decide
        obtain ⟨_, rest, hrep, hack, -⟩ := hsucc htrue
        obtain rfl := Option.some.inj (hrec.symm.trans hrep)
        refine ⟨hack.marked, hack.inside, hack.intact, ?_⟩
        have hlen := congrArg List.length hack.payload
        rw [decodeCommand, length_xorKey, List.length_take] at hlen
        simp only [List.length_cons] at hlen
        omega
  · rintro ⟨report, hrec, hfit, hmatch⟩
    rcases p.reply_of_received hrec s with ⟨hlt, -⟩ | ⟨-, bin, hbin, -, htake⟩
    · exact absurd hfit (by omega)
    · refine ⟨_, _, ⟨bin, hbin, rfl⟩, fun hv => ?_, fun hnone => ?_⟩
      · -- success rests on the opcode and the status; the rest is what `Reliable` adds
        have hm := (isReplyStatus_iff (by omega) htake).mp (by simpa using hv)
        obtain ⟨hmarked, hinside, hintact, h2⟩ := hmatch hm
        have hlen := p.length_received hrec
        exact ⟨report, _, hrec, ⟨hlen, hmarked, hinside, hintact, exists_rest hlen hm h2⟩, trivial⟩
      · rw [hrec] at hnone
        cases hnone

/-! ### Checksums -/

theorem fetchCrcBatch_sound_iff (blockSize address : UInt32) {count : UInt32}
    (hcount : count.toNat ≤ 16) (reads : List (List UInt8)) (s : State) :
    p.SoundVerdict jlSuCmdFlashCrc none (HasCrcs count) (p.fetchCrcBatch blockSize address count)
        reads s ↔
      p.Reliable jlSuCmdFlashCrc (· = 2 + 2 * count.toNat) reads := by
  unfold SoundVerdict Reliable fetchCrcBatch
  simp only [returns_iff]
  constructor
  · rintro ⟨v, s', ⟨bin, hreply, hv⟩, hsucc, -⟩
    rcases hrec : p.received reads with _ | report
    · rw [p.reply_of_not_received hrec] at hreply
      cases hreply
    rcases p.reply_of_received hrec s with ⟨-, hnone⟩ | ⟨hfit, bin', hbin', hlen, htake⟩
    · rw [hnone] at hreply
      cases hreply
    obtain rfl : bin' = bin := Option.some.inj (hbin'.symm.trans hreply)
    refine ⟨report, rfl, hfit, fun hm => ?_⟩
    rcases isReplyFlashCrcCmd_cases hcount hlen (by omega) htake with
      ⟨hno, -⟩ | ⟨-, -, hcrc⟩ | ⟨-, -, hcrc⟩
    · exact absurd hm hno
    · rw [hcrc] at hv
      exact hv.elim
    · rw [hcrc] at hv
      obtain ⟨rfl, rfl⟩ := Prod.mk.inj hv
      obtain ⟨_, rest, hrep, hack, hrest, -⟩ := hsucc (by rintro ⟨⟩)
      obtain rfl := Option.some.inj (hrec.symm.trans hrep)
      refine ⟨hack.marked, hack.inside, hack.intact, ?_⟩
      have hpay := congrArg List.length hack.payload
      have hreport := hack.length
      have hinside := hack.inside
      rw [decodeCommand, length_xorKey, List.length_take, List.length_drop] at hpay
      simp only [List.length_cons] at hpay
      omega
  · rintro ⟨report, hrec, hfit, hmatch⟩
    rcases p.reply_of_received hrec s with ⟨hlt, -⟩ | ⟨-, bin, hbin, hlen, htake⟩
    · exact absurd hfit (by omega)
    have hnotnone {v : Option (List UInt16)} (h : p.received reads = none) : v = none := by
      rw [hrec] at h
      cases h
    rcases isReplyFlashCrcCmd_cases hcount hlen (by omega) htake with
      ⟨-, hcrc⟩ | ⟨hm, hlt, -⟩ | ⟨hm, -, hcrc⟩
    · refine ⟨none, p.readDeice reads s, ⟨bin, hbin, ?_⟩, fun h => absurd rfl h, hnotnone⟩
      rw [hcrc]
      exact rfl
    · have hdeclared := (hmatch hm).2.2.2
      omega
    · refine ⟨some (ofLe16s (((decoded report).drop 6).take (2 * count.toNat))),
        p.readDeice reads s,
        ⟨bin, hbin, ?_⟩, fun _ => ?_, hnotnone⟩
      · rw [hcrc]
        exact rfl
      · obtain ⟨hmarked, hinside, hintact, hdeclared⟩ := hmatch hm
        have hreport := p.length_received hrec
        have hpay := exists_rest hreport hm (by omega : 2 ≤ Format.declared report)
        rw [hdeclared, Nat.add_sub_cancel_left] at hpay
        refine ⟨report, _, hrec, ⟨hreport, hmarked, hinside, hintact, ?_⟩, ?_, rfl⟩
        · rw [hdeclared]
          exact hpay
        · have hdec := (length_decoded report).trans hreport
          rw [List.length_take, List.length_drop]
          omega

/-! ### Both hosts -/

theorem doEraseFlash_sound_iff (address len : UInt32) (reads : List (List UInt8)) (s : State) :
    p.SoundVerdict jlSuCmdErase false (fun _ _ => True) (p.doEraseFlash address len) reads s ↔
      p.Reliable jlSuCmdErase (2 ≤ ·) reads := by
  rw [doEraseFlash_eq]
  exact p.attempt_sound_iff _ _ reads s

/-- Without the bytes to be written nothing is sent. -/
theorem doWriteFlash_sound_iff (buffer : List UInt8) (address len : UInt32)
    (reads : List (List UInt8)) (s : State) :
    p.SoundVerdict jlSuCmdWrite false (fun _ _ => True) (p.doWriteFlash buffer address len) reads
        s ↔
      len.toNat ≤ buffer.length ∧ p.Reliable jlSuCmdWrite (2 ≤ ·) reads := by
  have hzero : (0 : UInt32).toNat = 0 := UInt32.toNat_zero
  rcases Nat.lt_or_ge buffer.length len.toNat with hlt | hge
  · have hbuf : readBuf buffer 0 len = none := if_neg (by omega)
    constructor
    · rintro ⟨v, s', hrun, -⟩
      unfold doWriteFlash at hrun
      rw [hbuf] at hrun
      exact hrun.elim
    · rintro ⟨hle, -⟩
      omega
  · have hbuf : readBuf buffer 0 len = some ((buffer.drop 0).take len.toNat) :=
      if_pos (by omega)
    rw [p.doWriteFlash_eq hbuf, attempt_sound_iff, and_iff_right hge]

end Port

/-- **The verdicts of the USB hosts** rest on packets received in their own exchanges exactly when
the reads are reliable. -/
theorem acknowledged_iff (reads : List (List UInt8)) (s : State) :
    (∀ address len,
      windows.SoundVerdict jlSuCmdErase false (fun _ _ => True) (doEraseFlash address len) reads s ↔
        windows.Reliable jlSuCmdErase (2 ≤ ·) reads) ∧
    (∀ buffer address len,
      windows.SoundVerdict jlSuCmdWrite false (fun _ _ => True) (doWriteFlash buffer address len)
          reads s ↔
        len.toNat ≤ buffer.length ∧ windows.Reliable jlSuCmdWrite (2 ≤ ·) reads) ∧
    (∀ blockSize address blockCount,
      windows.SoundVerdict jlSuCmdFlashCrc none (HasCrcs (readCountOf blockCount))
          (fetchCrcBatch blockSize address (readCountOf blockCount)) reads s ↔
        windows.Reliable jlSuCmdFlashCrc (· = 2 + 2 * (readCountOf blockCount).toNat) reads) ∧
    (∀ address len,
      Android.port.SoundVerdict jlSuCmdErase false (fun _ _ => True)
          (Android.doEraseFlash address len) reads s ↔
        Android.port.Reliable jlSuCmdErase (2 ≤ ·) reads) ∧
    (∀ buffer address len,
      Android.port.SoundVerdict jlSuCmdWrite false (fun _ _ => True)
          (Android.doWriteFlash buffer address len) reads s ↔
        len.toNat ≤ buffer.length ∧ Android.port.Reliable jlSuCmdWrite (2 ≤ ·) reads) ∧
    ∀ blockSize address blockCount,
      Android.port.SoundVerdict jlSuCmdFlashCrc none (HasCrcs (readCountOf blockCount))
          (Android.fetchCrcBatch blockSize address (readCountOf blockCount)) reads s ↔
        Android.port.Reliable jlSuCmdFlashCrc (· = 2 + 2 * (readCountOf blockCount).toNat)
          reads := by
  have hcount (blockCount : UInt32) : (readCountOf blockCount).toNat ≤ 16 := by
    rw [toNat_readCountOf]
    omega
  refine ⟨fun address len => ?_, fun buffer address len => ?_,
    fun blockSize address blockCount => ?_, fun address len => ?_, fun buffer address len => ?_,
    fun blockSize address blockCount => ?_⟩
  · rw [← windows_doEraseFlash]
    exact windows.doEraseFlash_sound_iff address len reads s
  · rw [← windows_doWriteFlash]
    exact windows.doWriteFlash_sound_iff buffer address len reads s
  · rw [← windows_fetchCrcBatch]
    exact windows.fetchCrcBatch_sound_iff blockSize address (hcount _) reads s
  · exact Android.port.doEraseFlash_sound_iff address len reads s
  · exact Android.port.doWriteFlash_sound_iff buffer address len reads s
  · exact Android.port.fetchCrcBatch_sound_iff blockSize address (hcount _) reads s

/-- An erase reply in a report whose CRC is zero. -/
def forgedReport : List UInt8 :=
  [0xAA, 0x55, 2, 0, 0x8C, 0x61] ++ List.replicate 58 0

/-- `doEraseFlash` takes it as a success. -/
theorem forgedReport_accepted :
    (∃ s', Returns ((doEraseFlash 0x1000 4096).run ⟨fun _ => 0, []⟩) [[forgedReport]] (true, s')) ∧
      windows.received [forgedReport] = some forgedReport ∧
      ¬ ∃ rest, Acknowledges jlSuCmdErase forgedReport rest := by
  have hrec : windows.received [forgedReport] = some forgedReport := rfl
  refine ⟨?_, hrec, ?_⟩
  · rw [← windows_doEraseFlash, Port.doEraseFlash_eq]
    unfold Port.attempt
    rcases windows.reply_of_received hrec ⟨fun _ => 0, []⟩ with ⟨hlt, -⟩ | ⟨-, bin, hbin, -, htake⟩
    · exact absurd hlt (by decide)
    · refine ⟨windows.readDeice [forgedReport] ⟨fun _ => 0, []⟩,
        (windows.returns_iff _ _ _ _ _).mpr ⟨bin, hbin, ?_⟩⟩
      have hsucc := (isReplyStatus_iff (by decide) htake).mpr
        (show Matches jlSuCmdErase forgedReport from ⟨rfl, rfl⟩)
      rw [hsucc]
      exact rfl
  · rintro ⟨rest, hack⟩
    exact absurd hack.intact (by decide +kernel)

end FwBootloader.Hid
