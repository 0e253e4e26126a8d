import FwBootloader.Protocol
import FwBootloader.User.Upgrade

/-!
## What `enc_cmd_data` accepts

* `encCmdData_some`: an accepted buffer holds, at the returned index, a marker, a length field that
  keeps the packet inside the received bytes, and a matching checksum; the buffer is then changed by
  decrypting the packet's body and nowhere else.
* `encCmdData_encode`: a packet with no marker before it is accepted, whatever stands behind it;
  `encCmdData_packet` says so of a packet behind noise, `encCmdData_frame` of a packet alone.
-/

namespace FwBootloader.User

open Bytes Framing

variable {σ : Type} (chip : Chip σ)

/-- The marker stands at index `i`. -/
def MarkAt (buf : Mem) (i : ℕ) : Prop :=
  buf i = syncMark0 ∧ buf (i + 1) = syncMark1

/-- The length field of the packet at index `i`. -/
def cmdLenAt (buf : Mem) (i : ℕ) : ℕ :=
  (ofLe16 (buf (i + 2)) (buf (i + 3))).toNat

/-! ### The search loop -/

theorem findMark_some {buf : Mem} {n i j : ℕ} (h : findMark buf n i = some j) :
    i ≤ j ∧ j < i + n ∧ MarkAt buf j := by
  induction n generalizing i with
  | zero => simp [findMark] at h
  | succ n ih =>
    rw [findMark] at h
    split_ifs at h with hm
    · obtain rfl := Option.some.inj h
      exact ⟨le_rfl, by omega, hm⟩
    · obtain ⟨h1, h2, h3⟩ := ih h
      exact ⟨by omega, by omega, h3⟩

/-- The loop stops at the first marker. -/
theorem findMark_eq {buf : Mem} {n i j : ℕ} (hij : i ≤ j) (hj : j < i + n) (hm : MarkAt buf j)
    (hfirst : ∀ k, i ≤ k → k < j → ¬ MarkAt buf k) : findMark buf n i = some j := by
  induction n generalizing i with
  | zero => omega
  | succ n ih =>
    rw [findMark]
    by_cases h : i = j
    · subst h
      exact if_pos hm
    · have hi : ¬ (buf i = syncMark0 ∧ buf (i + 1) = syncMark1) := hfirst i le_rfl (by omega)
      rw [if_neg hi]
      exact ih (by omega) (by omega) fun k hk => hfirst k (by omega)

/-! ### `enc_cmd_data` -/

/-- What acceptance says about the buffer. -/
theorem encCmdData_some {buf rx : Mem} {len i : ℕ} (h : encCmdData chip buf len = some (i, rx)) :
    i + 8 ≤ len ∧ MarkAt buf i ∧ i + 6 + cmdLenAt buf i ≤ len ∧
      ofLe16 (buf (i + 4 + cmdLenAt buf i)) (buf (i + 4 + cmdLenAt buf i + 1))
        = chip.chipCrc16 (buf.bytes i (4 + cmdLenAt buf i)) ∧
      rx = buf.write (i + 4) (encDecData chip (buf.bytes (i + 4) (cmdLenAt buf i))) := by
  unfold encCmdData at h
  split_ifs at h with h8
  split at h
  · cases h
  · next j hj =>
    obtain ⟨-, hlt, hm⟩ := findMark_some hj
    dsimp only at h
    split_ifs at h with hlong hcrc
    obtain ⟨rfl, rfl⟩ := Prod.mk.inj (Option.some.inj h)
    refine ⟨by omega, hm, ?_, hcrc, rfl⟩
    have hle := not_lt.mp hlong
    rw [cmdLenAt]
    omega

/-- **A packet is accepted**, when no marker stands before it and it was received completely. -/
theorem encCmdData_encode {buf : Mem} {len i : ℕ} {p : List UInt8}
    (hfirst : ∀ k < i, ¬ MarkAt buf k)
    (hbuf : buf.bytes i (6 + p.length) = (packet chip.chipCrc16).encode p)
    (hp : 2 ≤ p.length) (hlt : p.length < 2 ^ 16) (hlen : i + (6 + p.length) ≤ len) :
    encCmdData chip buf len = some (i, buf.write (i + 4) (encDecData chip p)) := by
  set f := packet chip.chipCrc16
  have hget (k : ℕ) (hk : k < 6 + p.length) : buf (i + k) = (f.encode p).getD k 0 := by
    rw [← hbuf, List.getD_eq_getElem _ _ (by simpa using hk), Mem.getElem_bytes]
  have hm : MarkAt buf i := ⟨hget 0 (by omega), hget 1 (by omega)⟩
  have hL : cmdLenAt buf i = p.length := by
    rw [← f.declared_encode hlt, cmdLenAt, hget 2 (by omega), hget 3 (by omega)]
    rfl
  have hhead : buf.bytes i (4 + p.length) = (f.encode p).take (4 + p.length) := by
    rw [← hbuf, Mem.take_bytes _ _ (by omega)]
  have hbody : buf.bytes (i + 4) p.length = p := by
    have h := f.payload_encode p []
    rwa [List.append_nil, ← hbuf, Mem.drop_bytes _ _ (by omega), Mem.take_bytes _ _ (by omega)] at h
  have hcrc : ofLe16 (buf (i + 4 + p.length)) (buf (i + 4 + p.length + 1))
      = chip.chipCrc16 (buf.bytes i (4 + p.length)) := by
    have h := f.intact_encode hlt
    rw [Format.Intact, f.declared_encode hlt, ← hhead, ← hget _ (by omega),
      ← hget _ (by omega)] at h
    rw [Nat.add_assoc i 4, Nat.add_assoc i, show 4 + p.length + 1 = 5 + p.length by omega]
    exact h
  unfold encCmdData
  rw [if_neg (by omega), findMark_eq (Nat.zero_le i) (by omega) hm fun k _ hk => hfirst k hk]
  dsimp only
  rw [show (ofLe16 (buf (i + 2)) (buf (i + 3))).toNat = p.length from hL,
    if_neg (by omega), if_pos hcrc, hbody]

/-- A laid out packet at the start of the buffer is accepted exactly when the part that its length
field delimits is intact.  That part is not the whole packet when the field cannot hold the body's
length. -/
theorem encCmdData_delimited (q : List UInt8) (h2 : 2 ≤ q.length) (trailing : List UInt8)
    (buf : Mem) :
    let frame := (packet chip.chipCrc16).encode q
    let stream := frame ++ trailing
    encCmdData chip (buf.write 0 stream) stream.length
      = if (packet chip.chipCrc16).Intact frame then
          some (0, (buf.write 0 stream).write 4 (encDecData chip (q.take (Format.declared frame))))
        else none := by
  intro frame stream
  set f := packet chip.chipCrc16
  have hframe : frame.length = 6 + q.length := f.length_encode q
  have hstream : stream.length = frame.length + trailing.length := List.length_append
  have hget (k : ℕ) (hk : k < 6 + q.length) : buf.write 0 stream k = frame.getD k 0 := by
    have h := @Mem.write_of_inside buf 0 k stream (by omega)
    rw [Nat.zero_add] at h
    rw [h, ← List.getD_eq_getElem _ 0, List.getD_append _ _ _ _ (by omega)]
  have hm : MarkAt (buf.write 0 stream) 0 := ⟨hget 0 (by omega), hget 1 (by omega)⟩
  -- the length field may count fewer bytes than the body has
  have hdecl : (ofLe16 (buf.write 0 stream 2) (buf.write 0 stream 3)).toNat
      = Format.declared frame := by
    rw [hget 2 (by omega), hget 3 (by omega)]
    rfl
  have hle : Format.declared frame ≤ q.length := by
    have h : Format.declared frame = (UInt16.ofNat q.length).toNat := by
      rw [← ofLe16_le16 (UInt16.ofNat q.length)]
      rfl
    rw [h, UInt16.toNat_ofNat']
    exact Nat.mod_le _ _
  have hhead : (buf.write 0 stream).bytes 0 (4 + Format.declared frame)
      = frame.take (4 + Format.declared frame) := by
    have h := @Mem.bytes_write_inside buf 0 0 (4 + Format.declared frame) stream (by omega)
    rwa [Nat.zero_add, List.drop_zero, List.take_append_of_le_length (by omega)] at h
  have hbody : (buf.write 0 stream).bytes 4 (Format.declared frame)
      = q.take (Format.declared frame) := by
    have h := @Mem.bytes_write_inside buf 0 4 (Format.declared frame) stream (by omega)
    rw [Nat.zero_add] at h
    rw [h, ← f.payload_encode q trailing, List.take_take, Nat.min_eq_left hle]
  -- the marker at the start is the one that is found
  unfold encCmdData
  rw [if_neg (by omega), findMark_eq (le_refl 0) (by omega) hm fun k _ hk => absurd hk (by omega)]
  simp only [Nat.zero_add, hdecl]
  rw [if_neg (by omega), hhead, hbody, hget _ (by omega), hget _ (by omega),
    show 2 + 2 + Format.declared frame + 1 = 5 + Format.declared frame by omega]
  rfl

/-! ### Packets behind noise -/

/-- Bytes without an adjacent marker hold none at any index, also not one that the packet behind
them completes: the packet starts with the marker's first byte, not its second. -/
theorem not_markAt_of_noise {noise : List UInt8} (h : ¬ [0xAA, 0x55] <:+: noise)
    (rest : List UInt8) (hrest : rest.head? = some 0xAA) (buf : Mem) :
    ∀ k < noise.length, ¬ MarkAt (buf.write 0 (noise ++ rest)) k := by
  intro k hk hm
  have hpos : 0 < rest.length := by
    cases rest with
    | nil => simp at hrest
    | cons b rest => simp
  have hlen : (noise ++ rest).length = noise.length + rest.length := List.length_append
  have hget (i : ℕ) (hi : i < (noise ++ rest).length) :
      buf.write 0 (noise ++ rest) i = (noise ++ rest)[i] := by
    have h := @Mem.write_of_inside buf 0 i _ hi
    rwa [Nat.zero_add] at h
  have h0 : (noise ++ rest)[k] = 0xAA := by
    rw [← hget k (by omega)]
    exact hm.1
  have h1 : (noise ++ rest)[k + 1] = 0x55 := by
    rw [← hget (k + 1) (by omega)]
    exact hm.2
  by_cases hlast : k + 1 < noise.length
  · -- both bytes are noise
    rw [List.getElem_append_left hk] at h0
    rw [List.getElem_append_left hlast] at h1
    apply h
    refine ⟨noise.take k, noise.drop (k + 2), ?_⟩
    conv_rhs => rw [← List.take_append_drop k noise, List.drop_eq_getElem_cons hk,
      List.drop_eq_getElem_cons hlast, h0, h1]
    simp
  · -- the second byte is the packet's first
    have hzero : rest[0] = 0xAA := by
      cases rest with
      | nil => simp at hpos
      | cons b rest => simpa using hrest
    rw [List.getElem_append_right (by omega)] at h1
    simp only [show k + 1 - noise.length = 0 by omega, hzero] at h1
    exact absurd h1 (by decide)

/-- A received packet is accepted behind noise without a marker, and decrypted in place. -/
theorem encCmdData_packet (noise : List UInt8) (hnoise : ¬ [0xAA, 0x55] <:+: noise)
    (payload : List UInt8) (h2 : 2 ≤ payload.length) (hlt : payload.length < 2 ^ 16)
    (trailing : List UInt8) (buf : Mem) :
    let frame := (packet chip.chipCrc16).encode (xorKey chip.communicationKey payload)
    let stream := noise ++ frame ++ trailing
    encCmdData chip (buf.write 0 stream) stream.length
        = some (noise.length, (buf.write 0 stream).write (noise.length + 4) payload) ∧
      cmdLenAt (buf.write 0 stream) noise.length = payload.length := by
  intro frame stream
  have hframe : frame.length = 6 + payload.length := by
    rw [Framing.Format.length_encode, length_xorKey]
  have hstream : stream.length = noise.length + frame.length + trailing.length := by
    rw [List.length_append, List.length_append]
  -- the frame stands behind the noise, which has no marker
  have hat : (buf.write 0 stream).bytes noise.length frame.length = frame := by
    have h := @Mem.bytes_write_inside buf 0 noise.length frame.length stream (by omega)
    have hs : stream = noise ++ (frame ++ trailing) := List.append_assoc ..
    rwa [Nat.zero_add, hs, List.drop_left, List.take_left, ← hs] at h
  have hfirst : ∀ k < noise.length, ¬ MarkAt (buf.write 0 stream) k := by
    have h := not_markAt_of_noise hnoise (frame ++ trailing) rfl buf
    rwa [← List.append_assoc] at h
  have hlenAt : cmdLenAt (buf.write 0 stream) noise.length = payload.length := by
    have hdecl := (packet chip.chipCrc16).declared_encode
      (p := xorKey chip.communicationKey payload) (by rwa [length_xorKey])
    have hget (k : ℕ) (hk : k < frame.length) :
        buf.write 0 stream (noise.length + k) = frame.getD k 0 := by
      have hb := Mem.getElem_bytes (buf.write 0 stream) noise.length frame.length k
        (by simpa using hk)
      rw [← hb, List.getD_eq_getElem _ _ hk]
      simp only [hat]
    rw [length_xorKey] at hdecl
    rw [← hdecl, cmdLenAt, hget 2 (by omega), hget 3 (by omega)]
    rfl
  have hle : noise.length + (6 + (xorKey chip.communicationKey payload).length)
      ≤ stream.length := by
    rw [length_xorKey]
    omega
  rw [encCmdData_encode chip hfirst (by rwa [length_xorKey, ← hframe]) (by rwa [length_xorKey])
    (by rwa [length_xorKey]) hle, encDecData, xorKey_xorKey]
  exact ⟨rfl, hlenAt⟩

/-- The same for a chunk that is one packet. -/
theorem encCmdData_frame (payload : List UInt8) (h2 : 2 ≤ payload.length)
    (hlt : payload.length < 2 ^ 16) (buf : Mem) :
    let frame := (packet chip.chipCrc16).encode (xorKey chip.communicationKey payload)
    encCmdData chip (buf.write 0 frame) frame.length
        = some (0, (buf.write 0 frame).write 4 payload) ∧
      cmdLenAt (buf.write 0 frame) 0 = payload.length := by
  intro frame
  have h := encCmdData_packet chip [] (by decide) payload h2 hlt [] buf
  dsimp only at h
  rw [List.nil_append, List.append_nil] at h
  exact h

end FwBootloader.User
