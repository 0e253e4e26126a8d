import FwBootloader.Uart.Equiv.PhySerialThread
import FwBootloader.User.Equiv.EncCmdData

/-!
## A packet behind noise

What the two scanners make of a packet behind bytes in which no complete packet begins.
`enc_cmd_data` gives up at the first marker it does not like, so it finds the packet only behind
noise without a marker.  `on_readReady` passes over a marker whose checksum does not match, but
waits for as many bytes as the marker announces.  `behindNoise_iff` says both.
-/

namespace FwBootloader

open Bytes Framing User Uart

variable {σ : Type} {chip : Chip σ}

/-- The bytes of a stream that has been received. -/
theorem write_drop {stream : List UInt8} (buf : Mem) {i k : ℕ} (h : i + k < stream.length) :
    buf.write 0 stream (i + k) = (stream.drop i).getD k 0 := by
  have hget := @Mem.write_of_inside buf 0 (i + k) stream h
  rw [Nat.zero_add] at hget
  rw [hget, List.getD_eq_getElem?_getD, List.getElem?_drop, List.getElem?_eq_getElem h,
    Option.getD_some]

theorem markAt_iff {stream : List UInt8} (buf : Mem) {i : ℕ} (h : i + 1 < stream.length) :
    MarkAt (buf.write 0 stream) i ↔ xmodemPacket.Marked (stream.drop i) := by
  rw [MarkAt, Format.Marked, ← @write_drop stream buf i 0 (by omega), ← write_drop buf h]
  exact Iff.rfl

theorem cmdLenAt_eq {stream : List UInt8} (buf : Mem) {i : ℕ} (h : i + 3 < stream.length) :
    cmdLenAt (buf.write 0 stream) i = Format.declared (stream.drop i) := by
  rw [cmdLenAt, Format.declared, write_drop buf (by omega), write_drop buf h]

/-- What `enc_cmd_data` accepts begins a packet of the stream. -/
theorem intact_of_accepts (hcrc : chip.chipCrc16 = Crc16.xmodem) {stream : List UInt8} {buf : Mem}
    {i : ℕ} (h : Accepts chip (buf.write 0 stream) stream.length i) :
    xmodemPacket.Marked (stream.drop i) ∧
      6 + Format.declared (stream.drop i) ≤ (stream.drop i).length ∧
      xmodemPacket.Intact (stream.drop i) := by
  have h8 := h.eight_le
  have hle := h.le_sub
  have hlen := @cmdLenAt_eq stream buf i (by omega)
  have hinside := h.inside
  have hmatch := h.crc
  rw [hlen] at hinside hmatch
  refine ⟨(markAt_iff buf (by omega)).mp h.mark, by rw [List.length_drop]; omega, ?_⟩
  have hbytes := @Mem.bytes_write_inside buf 0 i (4 + Format.declared (stream.drop i)) stream
    (by omega)
  rw [Nat.zero_add] at hbytes
  rw [hcrc, hbytes, Nat.add_assoc i 4, Nat.add_assoc i, write_drop buf (by omega),
    write_drop buf (by omega),
    show 4 + Format.declared (stream.drop i) + 1 = 5 + Format.declared (stream.drop i) by omega]
    at hmatch
  exact hmatch

/-- **`enc_cmd_data`** returns the packet exactly when no marker begins in the noise. -/
theorem encCmdData_noise_iff (hcrc : chip.chipCrc16 = Crc16.xmodem) {noise q : List UInt8}
    (h2 : 2 ≤ q.length) (hlt : q.length < 2 ^ 16) (buf : Mem) :
    let stream := noise ++ xmodemPacket.encode q
    (∃ rx, encCmdData chip (buf.write 0 stream) stream.length = some (noise.length, rx)) ↔
      ∀ i < noise.length, ¬ xmodemPacket.Marked (stream.drop i) := by
  intro stream
  have hlen : stream.length = noise.length + (6 + q.length) := by
    rw [List.length_append, Format.length_encode]
  constructor
  · rintro ⟨rx, hrx⟩ i hi hm
    exact ((encCmdData_eq_some_iff chip).mp hrx).1.first i hi ((markAt_iff buf (by omega)).mpr hm)
  · intro hnone
    refine ⟨_, encCmdData_encode chip (fun k hk hm => ?_) ?_ h2 hlt (by omega)⟩
    · exact hnone k hk ((markAt_iff buf (by omega)).mp hm)
    · have hbytes := @Mem.bytes_write_inside buf 0 noise.length (6 + q.length) stream (by omega)
      rw [Nat.zero_add, List.drop_left, List.take_of_length_le
        (by rw [Format.length_encode])] at hbytes
      rw [hbytes, hcrc, xmodemPacket]

/-- With a marker in the noise it returns `NULL`. -/
theorem encCmdData_noise_none (hcrc : chip.chipCrc16 = Crc16.xmodem) {noise q : List UInt8}
    (hquiet : xmodemPacket.Quiet (noise ++ xmodemPacket.encode q) noise.length) (buf : Mem) {i : ℕ}
    (hi : i < noise.length)
    (hm : xmodemPacket.Marked ((noise ++ xmodemPacket.encode q).drop i)) :
    encCmdData chip (buf.write 0 (noise ++ xmodemPacket.encode q))
      (noise ++ xmodemPacket.encode q).length = none := by
  by_contra hsome
  obtain ⟨⟨j, rx⟩, hj⟩ := Option.ne_none_iff_exists'.mp hsome
  have hacc := ((encCmdData_eq_some_iff chip).mp hj).1
  have hlen : (noise ++ xmodemPacket.encode q).length = noise.length + (6 + q.length) := by
    rw [List.length_append, Format.length_encode]
  -- the packet that is returned begins at the marker or before it
  have hle : j ≤ i := by
    by_contra hlt
    exact hacc.first i (by omega) ((markAt_iff buf (by omega)).mpr hm)
  obtain ⟨hmark, hfit, hintact⟩ := intact_of_accepts hcrc hacc
  exact hquiet j (by omega) hmark hfit hintact

/-- **What the scanners find behind noise** in which no complete packet begins. -/
theorem behindNoise_iff (hcrc : chip.chipCrc16 = Crc16.xmodem) {noise q : List UInt8}
    (h2 : 2 ≤ q.length) (hlt : q.length < 2 ^ 16)
    (hquiet : xmodemPacket.Quiet (noise ++ xmodemPacket.encode q) noise.length) :
    let stream := noise ++ xmodemPacket.encode q
    (stream.length ≤ 4128 → ∀ buf : Mem,
      ((∃ rx, encCmdData chip (buf.write 0 stream) stream.length = some (noise.length, rx)) ↔
        ∀ i < noise.length, ¬ xmodemPacket.Marked (stream.drop i)) ∧
      ((∃ i < noise.length, xmodemPacket.Marked (stream.drop i)) →
        encCmdData chip (buf.write 0 stream) stream.length = none)) ∧
    ∀ chunks : List (List UInt8), chunks.flatten = stream →
      (q ∈ (receive ⟨[], []⟩ chunks).rawRemoteCmdQueue ↔
        xmodemPacket.Settled stream noise.length) := by
  intro stream
  refine ⟨fun _ buf => ⟨encCmdData_noise_iff hcrc h2 hlt buf, ?_⟩, fun chunks hchunks => ?_⟩
  · rintro ⟨i, hi, hm⟩
    exact encCmdData_noise_none hcrc hquiet buf hi hm
  · -- the order of delivery does not matter: there is one packet at most
    have hne : q ≠ [] := by
      rintro rfl
      exact absurd h2 (by decide)
    obtain ⟨hsettled, hwaits⟩ := xmodemPacket.scan_noise hne hlt hquiet
    -- the chunks are read as the one stream they are
    have hqueue := (received_eq_scan chunks).1
    rw [hchunks] at hqueue
    rw [← List.mem_reverse, hqueue]
    constructor
    · intro hmem
      by_contra hnot
      rw [hwaits hnot] at hmem
      exact absurd hmem List.not_mem_nil
    · intro hs
      rw [hsettled hs]
      exact List.mem_singleton_self q

/-- A marker and the largest length. -/
def longMarker : List UInt8 :=
  [0xAA, 0x55, 0xFF, 0xFF]

/-- A marker with a length of 2, whose checksum does not match. -/
def brokenMarker : List UInt8 :=
  [0xAA, 0x55, 2, 0]

theorem quiet_longMarker :
    xmodemPacket.Quiet (longMarker ++ xmodemPacket.encode [0xCA, 0]) longMarker.length := by
  intro i hi
  have hi' : i < 4 := hi
  interval_cases i
  · exact fun _ hfit => absurd hfit (by decide)
  · exact fun hm => absurd hm (by decide)
  · exact fun hm => absurd hm (by decide)
  · exact fun hm => absurd hm (by decide)

theorem quiet_brokenMarker :
    xmodemPacket.Quiet (brokenMarker ++ xmodemPacket.encode [0xCA, 0]) brokenMarker.length := by
  intro i hi
  have hi' : i < 4 := hi
  interval_cases i
  · exact fun _ _ => by decide +kernel
  · exact fun hm => absurd hm (by decide)
  · exact fun hm => absurd hm (by decide)
  · exact fun hm => absurd hm (by decide)

theorem behindNoise_iff_broken :
    let stream := brokenMarker ++ xmodemPacket.encode [0xCA, 0]
    (stream.length ≤ 4128 → ∀ buf : Mem,
      ((∃ rx, encCmdData sampleChip (buf.write 0 stream) stream.length
          = some (brokenMarker.length, rx)) ↔
        ∀ i < brokenMarker.length, ¬ xmodemPacket.Marked (stream.drop i)) ∧
      ((∃ i < brokenMarker.length, xmodemPacket.Marked (stream.drop i)) →
        encCmdData sampleChip (buf.write 0 stream) stream.length = none)) ∧
    ∀ chunks : List (List UInt8), chunks.flatten = stream →
      ([0xCA, 0] ∈ (receive ⟨[], []⟩ chunks).rawRemoteCmdQueue ↔
        xmodemPacket.Settled stream brokenMarker.length) :=
  behindNoise_iff rfl (by decide) (by decide) quiet_brokenMarker

/-- Behind a marker with a large length neither scanner finds the packet. -/
theorem longMarker_masks :
    let stream := longMarker ++ xmodemPacket.encode [0xCA, 0]
    xmodemPacket.Quiet stream longMarker.length ∧
      encCmdData sampleChip (Mem.write (fun _ => 0) 0 stream) stream.length = none ∧
      (receive ⟨[], []⟩ [stream]).rawRemoteCmdQueue = [] := by
  intro stream
  refine ⟨quiet_longMarker, ?_, ?_⟩
  · exact encCmdData_noise_none rfl quiet_longMarker _ (Nat.succ_pos 3) ⟨rfl, rfl⟩
  · have hnot : ¬ xmodemPacket.Settled stream longMarker.length := fun h =>
      absurd (h 0 (Nat.succ_pos 3) ⟨rfl, rfl⟩) (by decide)
    have hscan :=
      (xmodemPacket.scan_noise (List.cons_ne_nil _ _) (by decide) quiet_longMarker).2 hnot
    rw [← List.reverse_eq_nil_iff, (received_eq_scan [stream]).1, List.flatten_singleton, hscan]

end FwBootloader
