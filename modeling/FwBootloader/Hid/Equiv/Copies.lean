import FwBootloader.Hid.Equiv.Bounds
import FwBootloader.Hid.Equiv.History

/-!
## A run of a USB host up to the first copy that leaves its buffer

`Copies q` says that `q` stops with `replyOutOfBounds` directly behind the first exchange that is
not `Port.Copied`, and never otherwise.  All procedures of the hosts have it (`main_copies`).
-/

namespace FwBootloader.Hid

open Bytes Framing Dialog

variable (p : Port) {α β : Type}

/-- While the procedure runs all exchanges have been copied, and of a fault the last exchange is the
reason if and only if a copy has left its buffer. -/
def Copies (q : HidM α) : Prop :=
  HidSafe (fun t _ => ∀ x ∈ t, p.Copied x)
    (fun t e => e = .replyOutOfBounds ↔ ∃ x ∈ t, ¬ p.Copied x) q
    (fun t _ => ∀ x ∈ t, p.Copied x) []

variable {p}

theorem copies_pure (a : α) : Copies p (pure a) :=
  hidSafe_pure fun _ hx => absurd hx List.not_mem_nil

/-- Any other fault has another reason. -/
theorem copies_abort {e : HostFault} (he : e ≠ .replyOutOfBounds) :
    Copies p (abort e : HidM α) := by
  refine hidSafe_abort (iff_of_false he ?_) _
  rintro ⟨x, hx, -⟩
  exact List.not_mem_nil hx

theorem Copies.seq {q : HidM α} {f : α → HidM β} (hq : Copies p q) (hf : ∀ a, Copies p (f a)) :
    Copies p (q >>= f) := by
  refine HidSafe.bind (hq.frame (fun _ _ ht => ht) (fun _ _ he => he) fun t a ht => ?_)
  refine (hf a).frame (fun t' c ht' => ?_) (fun t' e he => ?_) fun t' b ht' => ?_
  · exact List.forall_mem_append.mpr ⟨ht, ht'⟩
  · rw [he]
    constructor
    · rintro ⟨x, hx, hno⟩
      exact ⟨x, List.mem_append_right t hx, hno⟩
    · rintro ⟨x, hx, hno⟩
      rcases List.mem_append.mp hx with hx | hx
      · exact absurd (ht x hx) hno
      · exact ⟨x, hx, hno⟩
  · exact List.forall_mem_append.mpr ⟨ht, ht'⟩

/-- One exchange, of whose reply `bin` is copied. -/
theorem copies_query {c : Cmd} {g : List UInt8 → HidM α}
    (hnone : ∀ reads s, p.reply reads s = none → ¬ p.Copied (c, reads))
    (hg : ∀ reads s bin, p.reply reads s = some bin →
      (p.Copied (c, reads) ∧ ∃ a, g bin = pure a) ∨
        (¬ p.Copied (c, reads) ∧ g bin = abort .replyOutOfBounds)) :
    Copies p (p.exchange c >>= fun _ => p.replyBytes >>= g) := by
  have hbad {reads : List (List UInt8)} (hno : ¬ p.Copied (c, reads)) :
      HostFault.replyOutOfBounds = .replyOutOfBounds ↔
        ∃ x ∈ [((c, reads) : Exchange)], ¬ p.Copied x :=
    iff_of_true rfl ⟨_, List.mem_singleton_self _, hno⟩
  refine hidSafe_query (fun _ hx => absurd hx List.not_mem_nil)
    (fun reads s hreply => hbad (hnone reads s hreply)) fun reads s bin hreply => ?_
  rcases hg reads s bin hreply with ⟨hcopied, a, ha⟩ | ⟨hno, ha⟩
  · rw [ha]
    exact hidSafe_pure (List.forall_mem_singleton.mpr hcopied)
  · rw [ha]
    exact hidSafe_abort (hbad hno) _

/-! ### Erasing and writing -/

theorem attempt_copies {opcode : UInt8} {c : Cmd}
    (hc : ∀ reads, p.Copied (c, reads) ↔ p.CopyInside reads) : Copies p (p.attempt opcode c) := by
  refine copies_query (fun reads s hreply => ?_) fun reads s bin hreply => ?_
  · rw [hc, p.copyInside_iff reads s, hreply]
    rintro ⟨bin, ⟨⟩⟩
  · exact Or.inl ⟨(hc reads).mpr ((p.copyInside_iff reads s).mpr ⟨bin, hreply⟩), _, rfl⟩

variable (p) in
theorem doEraseFlash_copies (address len : UInt32) : Copies p (p.doEraseFlash address len) := by
  rw [p.doEraseFlash_eq]
  exact attempt_copies fun _ => Iff.rfl

variable (p) in
/-- The loops, step by step. -/
def copySteps : Steps HidM where
  Ok := Copies p
  pure_true := copies_pure true
  seq := by
    intro q r f hq hr htrue hfalse
    refine hq.seq fun b => ?_
    cases b
    · rw [hfalse]
      exact copies_pure false
    · rw [htrue]
      exact hr

variable (p) in
theorem eraseFlash_copies (fuel : ℕ) (address len : UInt32) :
    Copies p (p.eraseFlash fuel address len) :=
  (copySteps p).eraseUnits_ok (copies_abort (by rintro ⟨⟩)) fuel
    (fun _ => doEraseFlash_copies p _ _) fun _ _ => doEraseFlash_copies p _ _

theorem doWriteFlash_copies (buffer : List UInt8) (address len : UInt32) :
    Copies p (p.doWriteFlash buffer address len) := by
  rcases hbuf : readBuf buffer 0 len with _ | content
  · unfold Port.doWriteFlash
    rw [hbuf]
    exact copies_abort (by rintro ⟨⟩)
  · rw [p.doWriteFlash_eq hbuf]
    exact attempt_copies fun _ => Iff.rfl

theorem writeFlash_copies (buffer : List UInt8) (address len unit : UInt32) :
    Copies p (p.writeFlash buffer address len unit) := by
  induction buffer, address, len using Hid.writeFlash.induct with
  | case1 buffer address =>
    rw [Port.writeFlash, dif_pos rfl]
    exact copies_pure true
  | case2 buffer address len hlen writeLen =>
    rename_i ih
    rw [Port.writeFlash, dif_neg hlen]
    refine (doWriteFlash_copies buffer address writeLen).seq fun b => ?_
    split_ifs
    · exact ih
    · exact copies_pure false

theorem writeUnit_copies {failed : α} {fileBuf : List UInt8} {upgradeAddr unit : UInt32}
    {rest : HidM α} (hrest : Copies p rest) (pieces : List (UInt32 × UInt32)) :
    Copies p (p.writeUnit failed fileBuf upgradeAddr unit rest pieces) := by
  induction pieces with
  | nil => exact hrest
  | cons piece pieces ih =>
    unfold Port.writeUnit
    refine (writeFlash_copies _ _ _ _).seq fun b => ?_
    cases b
    · exact copies_pure failed
    · exact ih

/-! ### Asking -/

theorem fetchCrcBatch_copies {unit address count : UInt32} (hcount : count.toNat ≤ 16)
    (hasked : count * unit / unit = count) : Copies p (p.fetchCrcBatch unit address count) := by
  have hcopied (reads : List (List UInt8)) :
      p.Copied (.flashCrc address (count * unit) unit, reads) ↔
        p.CopyInside reads ∧ p.HoldsCrcs count reads := by
    show p.CopyInside reads ∧ p.HoldsCrcs (count * unit / unit) reads ↔ _
    rw [hasked]
  refine copies_query (fun reads s hreply => ?_) fun reads s bin hreply => ?_
  · rw [hcopied, p.copyInside_iff reads s, hreply]
    rintro ⟨⟨bin, ⟨⟩⟩, -⟩
  rw [hcopied]
  rcases hrec : p.received reads with _ | report
  · rw [p.reply_of_not_received hrec] at hreply
    cases hreply
  rcases p.reply_of_received hrec s with ⟨-, hnone⟩ | ⟨-, bin', hbin', hlen, htake⟩
  · rw [hnone] at hreply
    cases hreply
  obtain rfl : bin' = bin := Option.some.inj (hbin'.symm.trans hreply)
  have hinside : p.CopyInside reads := (p.copyInside_iff reads s).mpr ⟨bin', hreply⟩
  have hmul : (count * 2).toNat = 2 * count.toNat := by
    have h2 : (2 : UInt32).toNat = 2 := rfl
    rw [UInt32.toNat_mul, h2]
    omega
  have hholds (h : Matches jlSuCmdFlashCrc report →
      2 + 2 * count.toNat ≤ 2 + Format.declared report) : p.HoldsCrcs count reads := by
    intro _ hrep hm
    obtain rfl := Option.some.inj (hrec.symm.trans hrep)
    have hle := h hm
    omega
  rcases isReplyFlashCrcCmd_cases hcount hlen (by omega) htake with
    ⟨hno, hcrc⟩ | ⟨hm, hlt, hcrc⟩ | ⟨hm, hle, hcrc⟩
  · exact Or.inl ⟨⟨hinside, hholds fun hm => absurd hm hno⟩, none, by rw [hcrc]⟩
  · refine Or.inr ⟨?_, by rw [hcrc]⟩
    rintro ⟨-, hcrcs⟩
    have hle := hcrcs report hrec hm
    omega
  · exact Or.inl ⟨⟨hinside, hholds fun _ => hle⟩, _, by rw [hcrc]⟩

/-- The length of a request for checksums does not wrap. -/
theorem fetchChipCrcList_copies {unit n : UInt32} (hunit : unit ≠ 0)
    (hfit : n.toNat * unit.toNat < 2 ^ 32) (address : UInt32) :
    Copies p (p.fetchChipCrcList address n unit) := by
  unfold Port.fetchChipCrcList
  induction address, n using fetchBatches.induct unit with
  | case1 address =>
    rw [fetchBatches, dif_pos rfl]
    exact copies_pure _
  | case2 address n hn readCount ih =>
    have hle := UInt32.le_iff_toNat_le.mp (readCountOf_le n)
    have hsub : (n - readCount).toNat = n.toNat - readCount.toNat := toNat_sub_readCountOf n
    have hpos : 0 < unit.toNat := Bytes.toNat_pos_of_ne_zero hunit
    have hasked : readCount * unit / unit = readCount := by
      have hmul := Nat.mul_le_mul_right unit.toNat hle
      apply UInt32.toNat_inj.mp
      rw [UInt32.toNat_div, UInt32.toNat_mul, Nat.mod_eq_of_lt (Nat.lt_of_le_of_lt hmul hfit),
        Nat.mul_div_cancel _ hpos]
    rw [fetchBatches, dif_neg hn]
    refine (fetchCrcBatch_copies (toNat_readCountOf_le n) hasked).seq fun r => ?_
    rcases r with _ | crcs
    · exact copies_pure none
    · have hrest := Nat.mul_le_mul_right unit.toNat (Nat.sub_le n.toNat readCount.toNat)
      refine (ih (by rw [hsub]; exact Nat.lt_of_le_of_lt hrest hfit)).seq fun r => ?_
      rcases r with _ | rest
      · exact copies_pure none
      · exact copies_pure _

/-! ### The update -/

theorem updateApp_copies (failed updateOk : α) (fuel : ℕ) (fileBuf : List UInt8)
    (fileCrcList : List UInt16) (flashEoffsetSize : UInt32) {unit n : UInt32} (hunit : unit ≠ 0)
    (hfit : n.toNat * unit.toNat < 2 ^ 32) :
    Copies p (p.updateApp failed updateOk fuel fileBuf fileCrcList flashEoffsetSize unit n) := by
  have hreboot : Copies p (send .reboot >>= fun _ => (pure updateOk : HidM α)) :=
    hidSafe_send (fun _ hx => absurd hx List.not_mem_nil)
      fun _ => hidSafe_pure (List.forall_mem_singleton.mpr trivial)
  have hfetch := @fetchChipCrcList_copies p unit n hunit hfit
  unfold Port.updateApp
  refine (hfetch _).seq fun r => ?_
  rcases r with _ | chipCrcList
  · exact hreboot
  dsimp only
  split_ifs
  · exact hreboot
  refine (eraseFlash_copies p fuel _ _).seq fun b => ?_
  cases b
  · exact copies_pure failed
  have hblocks : Copies p (updateBlocks (p.eraseFlash fuel) p.writeFlash fileBuf fileCrcList
      chipCrcList (0 + flashEoffsetSize) unit (n.toNat - 1) 1) :=
    (copySteps p).updateBlocks_ok fileBuf fileCrcList chipCrcList _ unit (n.toNat - 1) 1
      fun _ _ _ => ⟨eraseFlash_copies p fuel _ _, writeFlash_copies _ _ _ _⟩
  refine hblocks.seq fun b => ?_
  cases b
  · exact copies_pure failed
  refine writeUnit_copies ?_ _
  rw [ensureCrcMatch_eq]
  refine ((hfetch _).seq fun r => copies_pure _).seq fun b => ?_
  cases b
  · exact copies_pure failed
  · exact hreboot

theorem appPhase_copies (failed updateOk : α) (fuel : ℕ) (fileContent : List UInt8)
    (app : DeviceInitInfo) : Copies p (p.appPhase failed updateOk fuel fileContent app) := by
  refine appPhase_safe (fun e he => iff_of_false he ?_) fun buf crcs hunit _ _ => ?_
  · rintro ⟨x, hx, -⟩
    exact List.not_mem_nil hx
  · refine updateApp_copies failed updateOk fuel buf crcs _ hunit ?_
    unfold Port.blockCount
    rw [UInt32.toNat_div]
    exact Nat.lt_of_le_of_lt (Nat.div_mul_le_self _ _) (UInt32.toNat_lt _)

theorem main_copies (failed updateOk : α) (info : DeviceInitInfo) (fileContent : QByteArray)
    (fuel : ℕ) : Copies p (p.main failed updateOk info fileContent fuel) := by
  have hinit : Copies p (p.deviceUpdateZoneInit "app_dir_head" 0 info) := by
    intro s
    rw [deviceUpdateZoneInit_run]
    exact ⟨fun _ hx => absurd hx List.not_mem_nil,
      fun _ => List.forall_mem_singleton.mpr trivial⟩
  exact hinit.seq fun app => appPhase_copies failed updateOk fuel fileContent.data app

end FwBootloader.Hid
