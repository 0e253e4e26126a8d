import FwBootloader.Uart.Equiv.PhySerialThread
import FwBootloader.User.Equiv.EncCmdData

/-!
## Short corruptions of a packet

What the checksum makes of a change of two neighbouring bytes behind a packet's length field.

* `corrupt_matches_iff`: the checksum field still matches exactly when the last byte of the body has
  changed by `89` and the low byte of the field by `A1` (`Compensated`).  The checksum takes its
  bytes most significant bit first, but its field is little-endian; the end of the body is therefore
  no neighbour of the part of the field behind it, and what is in general a burst of sixteen bits is
  one of twenty-four there.
* `encCmdData_corrupt_iff` and `scan_broken_packet` say what the two scanners do then, and
  `burst_iff` puts them together.
-/

namespace FwBootloader

open Bytes Framing User Uart

/-- Two neighbouring bytes are changed. -/
def corrupt (buf : Mem) (j : ℕ) (e₀ e₁ : UInt8) : Mem :=
  buf.write j [buf j ^^^ e₀, buf (j + 1) ^^^ e₁]

/-- The change of the last byte in front of `n` and of the byte behind it that keeps the checksum
field at `n` right. -/
def Compensated (n j : ℕ) (e₀ e₁ : UInt8) : Prop :=
  j + 1 = n ∧ e₀ = 0x89 ∧ e₁ = 0xA1

instance (n j : ℕ) (e₀ e₁ : UInt8) : Decidable (Compensated n j e₀ e₁) :=
  inferInstanceAs (Decidable (_ ∧ _))

section Change

variable (buf : Mem) (j : ℕ) (e₀ e₁ : UInt8)

theorem corrupt_of_outside {i : ℕ} (h : i < j ∨ j + 2 ≤ i) : corrupt buf j e₀ e₁ i = buf i :=
  Mem.write_of_outside buf h

theorem corrupt_first : corrupt buf j e₀ e₁ j = buf j ^^^ e₀ :=
  @Mem.write_of_inside buf j 0 [buf j ^^^ e₀, buf (j + 1) ^^^ e₁] Nat.zero_lt_two

theorem corrupt_second : corrupt buf j e₀ e₁ (j + 1) = buf (j + 1) ^^^ e₁ :=
  @Mem.write_of_inside buf j 1 [buf j ^^^ e₀, buf (j + 1) ^^^ e₁] Nat.one_lt_two

theorem bytes_corrupt_of_outside {i n : ℕ} (h : i + n ≤ j ∨ j + 2 ≤ i) :
    (corrupt buf j e₀ e₁).bytes i n = buf.bytes i n :=
  Mem.bytes_write_of_disjoint buf h

/-- A change inside a range, as a change of the list of its bytes. -/
theorem bytes_corrupt_inside (i k d : ℕ) (hj : i + k = j) :
    (corrupt buf j e₀ e₁).bytes i (k + (d + 2))
        = buf.bytes i k ++ (buf j ^^^ e₀) :: (buf (j + 1) ^^^ e₁) :: buf.bytes (j + 2) d ∧
      buf.bytes i (k + (d + 2)) = buf.bytes i k ++ buf j :: buf (j + 1) :: buf.bytes (j + 2) d := by
  constructor
  · rw [Mem.bytes_add, hj, Mem.bytes_succ, Mem.bytes_succ, corrupt_first, corrupt_second,
      bytes_corrupt_of_outside buf j e₀ e₁ (Or.inl (by omega)),
      bytes_corrupt_of_outside buf j e₀ e₁ (Or.inr (by omega))]
  · rw [Mem.bytes_add, hj, Mem.bytes_succ, Mem.bytes_succ]

/-- A change of the last byte of a range. -/
theorem bytes_corrupt_last (i k : ℕ) (hj : i + k = j) :
    (corrupt buf j e₀ e₁).bytes i (k + 1) = buf.bytes i k ++ [buf j ^^^ e₀] ∧
      buf.bytes i (k + 1) = buf.bytes i k ++ [buf j] := by
  constructor
  · rw [Mem.bytes_add, hj, Mem.bytes_succ, Mem.bytes_zero, corrupt_first,
      bytes_corrupt_of_outside buf j e₀ e₁ (Or.inl (by omega))]
  · rw [Mem.bytes_add, hj, Mem.bytes_succ, Mem.bytes_zero]

end Change

/-! ### The checksum field -/

/-- The `n` bytes from `i` on have their checksum behind them. -/
def CrcMatches (buf : Mem) (i n : ℕ) : Prop :=
  ofLe16 (buf (i + n)) (buf (i + n + 1)) = Crc16.xmodem (buf.bytes i n)

/-- **One change of two neighbouring bytes keeps the checksum right.** -/
theorem corrupt_matches_iff {buf : Mem} {i n j : ℕ} {e₀ e₁ : UInt8} (h : CrcMatches buf i n)
    (hij : i ≤ j) (hjn : j ≤ i + n) (he : e₀ ≠ 0 ∨ e₁ ≠ 0) :
    CrcMatches (corrupt buf j e₀ e₁) i n ↔ Compensated (i + n) j e₀ e₁ := by
  obtain ⟨k, rfl⟩ := Nat.exists_eq_add_of_le hij
  have hzero : ¬ (e₀ = 0 ∧ e₁ = 0) := by
    rintro ⟨h0, h1⟩
    rcases he with h | h
    · exact h h0
    · exact h h1
  rw [CrcMatches] at h ⊢
  -- in front of the field, across its edge, or the field itself
  obtain ⟨d, rfl⟩ | rfl | rfl : (∃ d, n = k + (d + 2)) ∨ n = k + 1 ∨ n = k := by
    rcases Nat.lt_or_ge n (k + 2) with hlt | hge
    · omega
    · exact Or.inl ⟨n - k - 2, by omega⟩
  · obtain ⟨hnew, hold⟩ := bytes_corrupt_inside buf (i + k) e₀ e₁ i k d rfl
    rw [corrupt_of_outside _ _ _ _ (Or.inr (by omega)),
      corrupt_of_outside _ _ _ _ (Or.inr (by omega)), h, hnew, hold]
    refine iff_of_false (fun hsame => hzero ?_) fun hcomp => ?_
    · exact (Crc16.xmodem_burst_iff _ _ _ _ e₀ e₁).mp hsame.symm
    · have hedge := hcomp.1
      omega
  · obtain ⟨hnew, hold⟩ := bytes_corrupt_last buf (i + k) e₀ e₁ i k rfl
    have hfield : corrupt buf (i + k) e₀ e₁ (i + (k + 1)) = buf (i + (k + 1)) ^^^ e₁ :=
      corrupt_second buf (i + k) e₀ e₁
    rw [hfield, corrupt_of_outside _ _ _ _ (Or.inr (by omega)), ofLe16_xor_left, h, hnew, hold,
      Crc16.xmodem_concat_xor, UInt16.xor_right_inj, eq_comm, Crc16.byte_eq_toUInt16_iff]
    constructor
    · rintro (hno | hyes)
      · exact absurd hno hzero
      · exact ⟨rfl, hyes⟩
    · intro hcomp
      exact Or.inr hcomp.2
  · rw [corrupt_first, corrupt_second, bytes_corrupt_of_outside _ _ _ _ (Or.inl le_rfl), ← h,
      ofLe16_inj]
    refine iff_of_false (fun hsame => hzero ?_) fun hcomp => ?_
    · constructor
      · exact (UInt8.xor_right_inj _).mp (hsame.1.trans UInt8.xor_zero.symm)
      · exact (UInt8.xor_right_inj _).mp (hsame.2.trans UInt8.xor_zero.symm)
    · have hedge := hcomp.1
      omega

/-! ### `enc_cmd_data` -/

variable {σ : Type} {chip : Chip σ}

/-- The marker and the length field are in front of the change. -/
theorem cmdLenAt_corrupt {buf : Mem} {i j : ℕ} {e₀ e₁ : UInt8} (hj : i + 4 ≤ j) :
    cmdLenAt (corrupt buf j e₀ e₁) i = cmdLenAt buf i := by
  rw [cmdLenAt, corrupt_of_outside _ _ _ _ (Or.inl (by omega)),
    corrupt_of_outside _ _ _ _ (Or.inl (by omega)), cmdLenAt]

theorem markAt_corrupt_iff {buf : Mem} {k j : ℕ} {e₀ e₁ : UInt8} (hk : k + 1 < j) :
    MarkAt (corrupt buf j e₀ e₁) k ↔ MarkAt buf k := by
  rw [MarkAt, corrupt_of_outside _ _ _ _ (Or.inl (by omega)),
    corrupt_of_outside _ _ _ _ (Or.inl (by omega)), MarkAt]

/-- A corrupted packet is found where it was, and its checksum matches when the corruption is
compensated. -/
theorem corrupt_accepts (hcrc : chip.chipCrc16 = Crc16.xmodem) {buf : Mem} {len i j : ℕ}
    {e₀ e₁ : UInt8} (h : Accepts chip buf len i) (he : e₀ ≠ 0 ∨ e₁ ≠ 0) (hj : i + 4 ≤ j)
    (hj' : j + 2 ≤ i + 6 + cmdLenAt buf i) :
    let buf' := corrupt buf j e₀ e₁
    (MarkAt buf' i ∧ ∀ k < i, ¬ MarkAt buf' k) ∧ cmdLenAt buf' i = cmdLenAt buf i ∧
      (CrcMatches buf' i (4 + cmdLenAt buf i) ↔
        Compensated (i + 4 + cmdLenAt buf i) j e₀ e₁) := by
  intro buf'
  have hmatch : CrcMatches buf i (4 + cmdLenAt buf i) := by
    rw [CrcMatches, ← hcrc, ← Nat.add_assoc]
    exact h.crc
  refine ⟨⟨(markAt_corrupt_iff (by omega)).mpr h.mark, fun k hk hm => ?_⟩, cmdLenAt_corrupt hj, ?_⟩
  · exact h.first k hk ((markAt_corrupt_iff (by omega)).mp hm)
  · rw [Nat.add_assoc i]
    exact corrupt_matches_iff hmatch (by omega) (by omega) he

/-- **`enc_cmd_data` rejects every corruption but the compensated one.** -/
theorem encCmdData_corrupt_iff (hcrc : chip.chipCrc16 = Crc16.xmodem) {buf : Mem} {len i j : ℕ}
    {e₀ e₁ : UInt8} (h : Accepts chip buf len i) (he : e₀ ≠ 0 ∨ e₁ ≠ 0) (hj : i + 4 ≤ j)
    (hj' : j + 2 ≤ i + 6 + cmdLenAt buf i) :
    encCmdData chip (corrupt buf j e₀ e₁) len = none ↔
      ¬ Compensated (i + 4 + cmdLenAt buf i) j e₀ e₁ := by
  obtain ⟨⟨hmark, hfirst⟩, hlen, hiff⟩ := corrupt_accepts hcrc h he hj hj'
  set buf' := corrupt buf j e₀ e₁
  rw [← hiff]
  constructor
  · intro hnone hmatch'
    have hacc : Accepts chip buf' len i := by
      refine ⟨h.eight_le, h.le_sub, hmark, hfirst, by rw [hlen]; exact h.inside, ?_⟩
      rw [hlen, hcrc, Nat.add_assoc]
      exact hmatch'
    have hsome := (encCmdData_eq_some_iff chip).mpr ⟨hacc, rfl⟩
    rw [hnone] at hsome
    cases hsome
  · intro hbroken
    by_contra hsome
    obtain ⟨⟨k, rx⟩, hk⟩ := Option.ne_none_iff_exists'.mp hsome
    have hacc := ((encCmdData_eq_some_iff chip).mp hk).1
    -- what is accepted begins at the first marker
    obtain rfl : k = i := by
      rcases Nat.lt_trichotomy k i with hlt | heq | hgt
      · exact absurd hacc.mark (hfirst k hlt)
      · exact heq
      · exact absurd hmark (hacc.first i hgt)
    have hcrc' := hacc.crc
    rw [hlen, hcrc, Nat.add_assoc] at hcrc'
    exact hbroken hcrc'

/-! ### `on_readReady` -/

/-- A packet behind noise without a marker, as the scanner reads it. -/
theorem scan_of_firstMark {buf : Mem} {i : ℕ} (hmark : MarkAt buf i)
    (hfirst : ∀ k < i, ¬ MarkAt buf k) (post : List UInt8) :
    let n := cmdLenAt buf i
    let stream := buf.bytes 0 (i + (6 + n)) ++ post
    (¬ CrcMatches buf i (4 + n) →
        xmodemPacket.scan stream = xmodemPacket.scan (stream.drop (i + 2))) ∧
      (0 < n → CrcMatches buf i (4 + n) →
        xmodemPacket.scan stream = buf.bytes (i + 4) n :: xmodemPacket.scan post) := by
  intro n stream
  have hdrop {k : ℕ} (hk : k ≤ i + (6 + n)) :
      stream.drop k = buf.bytes k (i + (6 + n) - k) ++ post := by
    rw [List.drop_append_of_le_length (by rw [Mem.length_bytes]; exact hk), Mem.drop_bytes _ _ hk,
      Nat.zero_add]
  have hmarked {k m : ℕ} (hm : 2 ≤ m) :
      xmodemPacket.Marked (buf.bytes k m ++ post) ↔ MarkAt buf k := by
    rw [xmodemPacket.marked_append post (by rw [Mem.length_bytes]; exact hm), Format.Marked,
      Mem.getD_bytes _ _ (by omega), Mem.getD_bytes _ _ (by omega), Nat.add_zero]
    exact Iff.rfl
  -- the noise is passed over
  have hskip : xmodemPacket.scan stream = xmodemPacket.scan (stream.drop i) := by
    apply xmodemPacket.scan_drop_of_unmarked
    intro k hk hm
    rw [hdrop (by omega), hmarked (by omega)] at hm
    exact hfirst k hk hm
  set frame := buf.bytes i (6 + n) with hframe
  have hlen : frame.length = 6 + n := Mem.length_bytes ..
  have hrest : stream.drop i = frame ++ post := by
    rw [hdrop (by omega), Nat.add_sub_cancel_left]
  have hm : xmodemPacket.Marked (frame ++ post) := (hmarked (by omega)).mpr hmark
  have hdecl' : Format.declared frame = n := by
    rw [Format.declared, hframe, Mem.getD_bytes _ _ (by omega), Mem.getD_bytes _ _ (by omega)]
    rfl
  have hdecl : Format.declared (frame ++ post) = n := by
    rw [Format.declared_append post (by omega), hdecl']
  have hintact : xmodemPacket.Intact (frame ++ post) ↔ CrcMatches buf i (4 + n) := by
    rw [xmodemPacket.intact_append post (by omega), Format.Intact, hdecl', hframe,
      Mem.getD_bytes _ _ (by omega), Mem.getD_bytes _ _ (by omega), Mem.take_bytes _ _ (by omega),
      CrcMatches, show i + (5 + n) = i + (4 + n) + 1 by omega]
    exact Iff.rfl
  have hlong : (frame ++ post).length = 6 + n + post.length := by rw [List.length_append, hlen]
  constructor
  · intro hbroken
    rw [hskip, ← List.drop_drop, hrest]
    -- an empty packet at the end of the stream is not looked at
    by_cases hshort : (frame ++ post).length ≤ 6
    · rw [xmodemPacket.scan_of_short hshort, xmodemPacket.scan_of_short]
      rw [List.length_drop]
      omega
    · apply xmodemPacket.scan_of_broken (by omega) hm (by omega)
      rwa [hintact]
  · intro hpos hmatch
    rw [hskip, hrest, xmodemPacket.scan_of_intact (by omega) hm (by omega) (hintact.mpr hmatch),
      hdecl, List.drop_append_of_le_length (by omega), List.take_append_of_le_length
        (by rw [List.length_drop]; omega), ← hlen, List.drop_left, hframe,
      Mem.drop_bytes _ _ (by omega), Mem.take_bytes _ _ (by omega)]

/-- The scanner passes over a packet whose checksum does not match by its marker, and finds no
payload of that length behind it. -/
theorem scan_broken_packet {buf : Mem} {i : ℕ} (hmark : MarkAt buf i)
    (hfirst : ∀ k < i, ¬ MarkAt buf k) (hbroken : ¬ CrcMatches buf i (4 + cmdLenAt buf i)) :
    (∀ post, xmodemPacket.scan (buf.bytes 0 (i + (6 + cmdLenAt buf i)) ++ post)
        = xmodemPacket.scan (buf.bytes (i + 2) (4 + cmdLenAt buf i) ++ post)) ∧
      buf.bytes (i + 4) (cmdLenAt buf i)
        ∉ xmodemPacket.scan (buf.bytes 0 (i + (6 + cmdLenAt buf i))) := by
  have hall (post : List UInt8) :
      xmodemPacket.scan (buf.bytes 0 (i + (6 + cmdLenAt buf i)) ++ post)
        = xmodemPacket.scan (buf.bytes (i + 2) (4 + cmdLenAt buf i) ++ post) := by
    rw [(scan_of_firstMark hmark hfirst post).1 hbroken,
      List.drop_append_of_le_length (by rw [Mem.length_bytes]; omega),
      Mem.drop_bytes _ _ (by omega), Nat.zero_add,
      show i + (6 + cmdLenAt buf i) - (i + 2) = 4 + cmdLenAt buf i by omega]
  refine ⟨hall, fun hmem => ?_⟩
  have halone := hall []
  rw [List.append_nil, List.append_nil] at halone
  rw [halone] at hmem
  have hlen := xmodemPacket.length_of_mem_scan hmem
  rw [Mem.length_bytes, Mem.length_bytes] at hlen
  omega

/-- **A change of two neighbouring bytes** behind the length field of a packet that
`enc_cmd_data` accepts is found by both scanners, but for the compensated one, which neither
finds. -/
theorem burst_iff (hcrc : chip.chipCrc16 = Crc16.xmodem) {buf rx : Mem} {len i j : ℕ}
    {e₀ e₁ : UInt8} (h : encCmdData chip buf len = some (i, rx)) (he : e₀ ≠ 0 ∨ e₁ ≠ 0)
    (hj : i + 4 ≤ j) (hj' : j + 2 ≤ i + 6 + cmdLenAt buf i) :
    let buf' := corrupt buf j e₀ e₁
    let payload' := buf'.bytes (i + 4) (cmdLenAt buf i)
    let frame' := buf'.bytes 0 (i + (6 + cmdLenAt buf i))
    let compensated := Compensated (i + 4 + cmdLenAt buf i) j e₀ e₁
    (encCmdData chip buf' len = none ↔ ¬ compensated) ∧
      (∀ queue chunks, chunks.flatten = frame' →
        ∃ ps : List (List UInt8),
          (receive ⟨[], queue⟩ chunks).rawRemoteCmdQueue = ps.reverse ++ queue ∧
            (payload' ∈ ps ↔ compensated)) ∧
      (¬ compensated → ∀ queue chunks post, chunks.flatten = frame' ++ post →
        (receive ⟨[], queue⟩ chunks).rawRemoteCmdQueue
          = (xmodemPacket.scan (buf'.bytes (i + 2) (4 + cmdLenAt buf i) ++ post)).reverse
            ++ queue) := by
  intro buf' payload' frame' compensated
  have hacc := ((encCmdData_eq_some_iff chip).mp h).1
  obtain ⟨⟨hmark, hfirst⟩, hlen, hcomp⟩ := corrupt_accepts hcrc hacc he hj hj'
  have hiff : CrcMatches buf' i (4 + cmdLenAt buf' i) ↔ compensated := by
    rw [hlen]
    exact hcomp
  refine ⟨encCmdData_corrupt_iff hcrc hacc he hj hj', fun queue chunks hchunks => ?_,
    fun hnot queue chunks post hchunks => ?_⟩
  · refine ⟨xmodemPacket.scan frame', ?_, ?_⟩
    · rw [receive_queue_of_empty, hchunks]
    · constructor
      · intro hmem
        by_contra hnot
        have hnone := (scan_broken_packet hmark hfirst fun hm => hnot (hiff.mp hm)).2
        rw [hlen] at hnone
        exact hnone hmem
      · intro hcomp
        -- the change reaches back into the payload, which is therefore not empty
        have hedge := hcomp.1
        have hscan := (scan_of_firstMark hmark hfirst []).2 (by rw [hlen]; omega) (hiff.mpr hcomp)
        rw [List.append_nil, hlen] at hscan
        rw [hscan]
        exact List.mem_cons_self ..
  · have hscan := (scan_broken_packet hmark hfirst fun hm => hnot (hiff.mp hm)).1 post
    rw [hlen] at hscan
    rw [receive_queue_of_empty, hchunks, hscan]

/-- The packet of two bytes, as it is received. -/
def twoBytes : Mem :=
  Mem.write (fun _ => 0) 0 (xmodemPacket.encode [0xCA, 0])

theorem accepts_twoBytes : ∃ rx, encCmdData sampleChip twoBytes 8 = some (0, rx) := by
  refine ⟨_, @encCmdData_encode Flash sampleChip twoBytes 8 0 [0xCA, 0] ?_ ?_ ?_ ?_ ?_⟩
  · exact fun k hk => absurd hk (Nat.not_lt_zero k)
  · exact Mem.bytes_write_self _ 0 (xmodemPacket.encode [0xCA, 0])
  · decide
  · decide
  · decide

theorem cmdLenAt_twoBytes : cmdLenAt twoBytes 0 = 2 := by
  decide +kernel

theorem burst_iff_twoBytes :
    let buf' := corrupt twoBytes 5 0x89 0xA0
    let payload' := buf'.bytes (0 + 4) (cmdLenAt twoBytes 0)
    let frame' := buf'.bytes 0 (0 + (6 + cmdLenAt twoBytes 0))
    let compensated := Compensated (0 + 4 + cmdLenAt twoBytes 0) 5 0x89 0xA0
    (encCmdData sampleChip buf' 8 = none ↔ ¬ compensated) ∧
      (∀ queue chunks, chunks.flatten = frame' →
        ∃ ps : List (List UInt8),
          (receive ⟨[], queue⟩ chunks).rawRemoteCmdQueue = ps.reverse ++ queue ∧
            (payload' ∈ ps ↔ compensated)) ∧
      (¬ compensated → ∀ queue chunks post, chunks.flatten = frame' ++ post →
        (receive ⟨[], queue⟩ chunks).rawRemoteCmdQueue
          = (xmodemPacket.scan (buf'.bytes (0 + 2) (4 + cmdLenAt twoBytes 0) ++ post)).reverse
            ++ queue) := by
  obtain ⟨rx, hrx⟩ := accepts_twoBytes
  refine burst_iff rfl hrx (Or.inl (by decide)) (by decide) ?_
  rw [cmdLenAt_twoBytes]
  decide

/-- A change of the last payload byte and of the first byte behind it that nobody finds. -/
theorem burst_unseen :
    let buf' := corrupt twoBytes 5 0x89 0xA1
    (∃ rx, encCmdData sampleChip twoBytes 8 = some (0, rx)) ∧ cmdLenAt twoBytes 0 = 2 ∧
      encCmdData sampleChip buf' 8 ≠ none ∧
      (receive ⟨[], []⟩ [buf'.bytes 0 8]).rawRemoteCmdQueue = [[0xCA, 0x89]] := by
  intro buf'
  obtain ⟨rx, hrx⟩ := accepts_twoBytes
  have hacc := ((encCmdData_eq_some_iff sampleChip).mp hrx).1
  have hiff := @encCmdData_corrupt_iff Flash sampleChip rfl twoBytes 8 0 5 0x89 0xA1 hacc
    (Or.inl (by decide)) (by decide) (by rw [cmdLenAt_twoBytes]; decide)
  have hcomp : Compensated (0 + 4 + cmdLenAt twoBytes 0) 5 0x89 0xA1 := by
    rw [cmdLenAt_twoBytes]
    decide
  refine ⟨⟨rx, hrx⟩, cmdLenAt_twoBytes, fun hnone => hiff.mp hnone hcomp, ?_⟩
  have hlen : cmdLenAt buf' 0 = 2 := by decide +kernel
  have hmatch : CrcMatches buf' 0 (4 + 2) := by
    rw [CrcMatches]
    decide +kernel
  have hscan := (@scan_of_firstMark buf' 0 ⟨by decide +kernel, by decide +kernel⟩
    (fun k hk => absurd hk (Nat.not_lt_zero k)) []).2 (by rw [hlen]; decide) (by rwa [hlen])
  rw [List.append_nil, hlen, xmodemPacket.scan_nil] at hscan
  have hpayload : buf'.bytes (0 + 4) 2 = [0xCA, 0x89] := by decide +kernel
  rw [receive_queue_of_empty, List.flatten_singleton, List.append_nil]
  rw [hpayload] at hscan
  rw [hscan, List.reverse_singleton]

end FwBootloader
