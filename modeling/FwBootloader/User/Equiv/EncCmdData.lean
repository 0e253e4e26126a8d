import FwBootloader.User.EncCmdData
import FwBootloader.User.Equiv.Receive

/-!
## `enc_cmd_data` is its specification

* `Accepts` is the specification: the first marker is followed by a length that keeps the packet
  inside the buffer and by the right checksum; `Decrypted` is what happens to the buffer then.
* `encCmdData_eq_some_iff`: the function of `Upgrade.lean` accepts exactly that.
* `ends_encCmdData`: the code byte by byte computes that function and touches nothing behind the
  received bytes; `encCmdData_exact` puts both together.
-/

namespace FwBootloader.User

open Bytes BufM

variable {σ : Type} (chip : Chip σ)

/-- A packet is accepted at index `i` of a buffer with `len` received bytes. -/
structure Accepts (buf : Mem) (len i : ℕ) : Prop where
  eight_le : 8 ≤ len
  le_sub : i ≤ len - 8
  mark : MarkAt buf i
  first : ∀ k < i, ¬ MarkAt buf k
  inside : i + 6 + cmdLenAt buf i ≤ len
  crc : ofLe16 (buf (i + 4 + cmdLenAt buf i)) (buf (i + 4 + cmdLenAt buf i + 1))
    = chip.chipCrc16 (buf.bytes i (4 + cmdLenAt buf i))

/-- The `n` bytes from `off` on are changed by the repeated key, from its first byte on, and nothing
else is. -/
def Decrypted (buf : Mem) (off n : ℕ) (buf' : Mem) : Prop :=
  (∀ k < n, buf' (off + k) = buf (off + k) ^^^ (le32 chip.communicationKey).getD (k % 4) 0) ∧
    ∀ j, j < off ∨ off + n ≤ j → buf' j = buf j

theorem decrypted_write (buf : Mem) (off n : ℕ) :
    Decrypted chip buf off n (buf.write off (encDecData chip (buf.bytes off n))) := by
  have hlen : (encDecData chip (buf.bytes off n)).length = n := by
    rw [encDecData, length_xorKey, Mem.length_bytes]
  constructor
  · intro k hk
    rw [Mem.write_of_inside _ (by rw [hlen]; exact hk)]
    simp [encDecData, xorKey]
  · intro j hj
    exact Mem.write_of_outside _ (by rw [hlen]; exact hj)

/-- Two memories that come from decrypting the same bytes are the same. -/
theorem Decrypted.unique {buf m m' : Mem} {off n : ℕ} (h : Decrypted chip buf off n m)
    (h' : Decrypted chip buf off n m') : m = m' := by
  funext j
  by_cases hj : j < off ∨ off + n ≤ j
  · rw [h.2 j hj, h'.2 j hj]
  · obtain ⟨k, rfl⟩ : ∃ k, j = off + k := Nat.exists_eq_add_of_le (by omega)
    rw [h.1 k (by omega), h'.1 k (by omega)]

/-! ### The specification -/

/-- There is no marker before the one that is found. -/
theorem findMark_first {buf : Mem} {n i j : ℕ} (h : findMark buf n i = some j) :
    ∀ k, i ≤ k → k < j → ¬ MarkAt buf k := by
  induction n generalizing i with
  | zero => cases h
  | succ n ih =>
    rw [findMark] at h
    split_ifs at h with hm
    · obtain rfl := Option.some.inj h
      intro k hik hkj
      omega
    · intro k hik hkj
      rcases Nat.eq_or_lt_of_le hik with rfl | hlt
      · exact hm
      · exact ih h k hlt hkj

/-- **What is accepted**, and what becomes of the buffer. -/
theorem encCmdData_eq_some_iff {buf rx : Mem} {len i : ℕ} :
    encCmdData chip buf len = some (i, rx) ↔
      Accepts chip buf len i ∧
        rx = buf.write (i + 4) (encDecData chip (buf.bytes (i + 4) (cmdLenAt buf i))) := by
  constructor
  · intro h
    obtain ⟨h8, hm, hinside, hcrc, rfl⟩ := encCmdData_some chip h
    refine ⟨⟨by omega, by omega, hm, ?_, hinside, hcrc⟩, rfl⟩
    unfold encCmdData at h
    split_ifs at h
    split at h
    · cases h
    · next j hj =>
      dsimp only at h
      split_ifs at h
      obtain ⟨rfl, -⟩ := Prod.mk.inj (Option.some.inj h)
      exact fun k hk => findMark_first hj k (Nat.zero_le k) hk
  · rintro ⟨h, rfl⟩
    have h8 := h.eight_le
    have hle := h.le_sub
    have hinside := h.inside
    have hcrc := h.crc
    have hfind : findMark buf (len - 7) 0 = some i :=
      findMark_eq (Nat.zero_le i) (by omega) h.mark fun k _ hk => h.first k hk
    rw [cmdLenAt] at hinside hcrc
    unfold encCmdData
    rw [if_neg (by omega), hfind]
    dsimp only
    rw [if_neg (by omega), if_pos hcrc, cmdLenAt]

/-! ### The code -/

namespace Bytewise

/-- The loop of `enc_dec_data` from byte `k` on. -/
theorem ends_encDecData_from {n buf k : ℕ} {len i : UInt32} (hn : buf + len.toNat ≤ n)
    (hi : i.toNat = k) (hk : k ≤ len.toNat) (m : Mem) :
    Ends n (encDecData chip buf len i i) m () fun j =>
      if buf + k ≤ j ∧ j < buf + len.toNat then
        m j ^^^ (le32 chip.communicationKey).getD ((j - buf) % 4) 0
      else m j := by
  induction hd : len.toNat - k generalizing k i m with
  | zero =>
    have hge : ¬ i < len := by
      rw [UInt32.lt_iff_toNat_lt]
      omega
    have hsame : (fun j => if buf + k ≤ j ∧ j < buf + len.toNat then
        m j ^^^ (le32 chip.communicationKey).getD ((j - buf) % 4) 0 else m j) = m := by
      funext j
      exact if_neg (by omega)
    rw [encDecData, dif_neg hge, hsame]
    exact Ends.pure () m
  | succ d ih =>
    have hlt : i < len := UInt32.lt_iff_toNat_lt.mpr (by omega)
    have hmax := len.toNat_lt
    have hnext : (i + 1).toNat = k + 1 := by
      rw [UInt32.toNat_add, UInt32.toNat_one]
      omega
    have hkey : (i &&& 0x3).toNat = k % 4 := by
      rw [UInt32.toNat_and, show (0x3 : UInt32).toNat = 2 ^ 2 - 1 from rfl,
        Nat.and_two_pow_sub_one_eq_mod, hi]
    have hin : buf + k < n := by omega
    rw [encDecData, dif_pos hlt, hkey, hi]
    refine (ends_read hin m).bind ((ends_write hin _ m).bind ?_)
    have hrest := ih hnext (by omega)
      (m.write (buf + k) [m (buf + k) ^^^ (le32 chip.communicationKey).getD (k % 4) 0]) (by omega)
    refine (congrArg (Ends n _ _ ()) (funext fun j => ?_)).mp hrest
    -- in front of the byte, the byte itself, behind it
    rcases Nat.lt_trichotomy j (buf + k) with hj | rfl | hj
    · rw [if_neg (by omega), if_neg (by omega), Mem.write_of_outside _ (Or.inl hj)]
    · rw [if_neg (by omega), if_pos (by omega), Nat.add_sub_cancel_left]
      exact @Mem.write_of_inside m (buf + k) 0 [_] Nat.zero_lt_one
    · have hout : m.write (buf + k) [m (buf + k) ^^^ (le32 chip.communicationKey).getD (k % 4) 0] j
          = m j := Mem.write_of_outside _ (Or.inr hj)
      rw [hout]
      exact if_congr (by omega) rfl rfl

theorem ends_encDecData {n buf : ℕ} {len : UInt32} (hn : buf + len.toNat ≤ n) (m : Mem) :
    Ends n (encDecData chip buf len 0 0) m ()
      (m.write buf (User.encDecData chip (m.bytes buf len.toNat))) := by
  have hends := ends_encDecData_from chip hn UInt32.toNat_zero
    (Nat.zero_le _) m
  have hdec : Decrypted chip m buf len.toNat fun j =>
      if buf + 0 ≤ j ∧ j < buf + len.toNat then
        m j ^^^ (le32 chip.communicationKey).getD ((j - buf) % 4) 0
      else m j := by
    constructor
    · intro k hk
      dsimp only
      rw [if_pos (by omega), Nat.add_sub_cancel_left]
    · intro j hj
      exact if_neg (by omega)
  rw [← hdec.unique chip (decrypted_write chip m buf len.toNat)]
  exact hends

theorem ends_isMark {n : ℕ} {i : UInt32} (hn : n < 2 ^ 32) (hi : i.toNat + 1 < n) (m : Mem) :
    ∃ b : Bool, Ends n (isMark i) m b m ∧ (b = true ↔ MarkAt m i.toNat) := by
  have hnext : (i + 1).toNat = i.toNat + 1 := by
    rw [UInt32.toNat_add, UInt32.toNat_one]
    omega
  by_cases hfirst : m i.toNat = syncMark0
  · refine ⟨decide (m (i.toNat + 1) = syncMark1), ?_, ?_⟩
    · refine (ends_read (by omega) m).bind ?_
      rw [if_pos hfirst, hnext]
      exact (ends_read hi m).bind (Ends.pure _ m)
    · rw [decide_eq_true_iff]
      exact ⟨fun h => ⟨hfirst, h⟩, fun h => h.2⟩
  · refine ⟨false, ?_, ?_⟩
    · refine (ends_read (by omega) m).bind ?_
      rw [if_neg hfirst]
      exact Ends.pure _ m
    · exact iff_of_false Bool.false_ne_true fun h => hfirst h.1

/-- The part of `User.encCmdData` behind the search. -/
theorem ends_checkCmd {len i : UInt32} (hlen : len.toNat ≤ 4128) (hi : i.toNat + 8 ≤ len.toNat)
    {m : Mem} (hmark : MarkAt m i.toNat) (hfirst : ∀ k < i.toNat, ¬ MarkAt m k) :
    (∃ rx, Ends len.toNat (checkCmd chip len i) m (some i) rx ∧
      User.encCmdData chip m len.toNat = some (i.toNat, rx)) ∨
    (Ends len.toNat (checkCmd chip len i) m none m ∧ User.encCmdData chip m len.toNat = none) := by
  set cmdLen := ofLe16 (m (i.toNat + 2)) (m (i.toNat + 3)) with hcmdLen
  have hmax := cmdLen.toNat_lt
  have htwo : (2 : UInt32).toNat = 2 := rfl
  -- `i` is below 2¹³, so the sum does not wrap
  have hsum : (i + 2 + 2 + cmdLen.toUInt32 + 2).toNat = i.toNat + 6 + cmdLen.toNat := by
    rw [UInt32.toNat_add, UInt32.toNat_add, UInt32.toNat_add, UInt32.toNat_add, htwo,
      UInt16.toNat_toUInt32]
    omega
  have hfind : findMark m (len.toNat - 7) 0 = some i.toNat :=
    findMark_eq (Nat.zero_le _) (by omega) hmark fun k _ hk => hfirst k hk
  have hhead : Ends len.toNat (read16 (i.toNat + 2)) m cmdLen m := ends_read16 (by omega) m
  -- the length is too large
  by_cases hlong : i + 2 + 2 + cmdLen.toUInt32 + 2 > len
  · have hlong' : i.toNat + 2 + 2 + cmdLen.toNat + 2 > len.toNat := by
      have h := UInt32.lt_iff_toNat_lt.mp hlong
      omega
    refine Or.inr ⟨hhead.bind ?_, ?_⟩
    · rw [if_pos hlong]
      exact Ends.pure none m
    · unfold User.encCmdData
      rw [if_neg (by omega), hfind]
      dsimp only
      rw [← hcmdLen, if_pos hlong']
  have hinside : i.toNat + 6 + cmdLen.toNat ≤ len.toNat := by
    have h := UInt32.le_iff_toNat_le.mp (UInt32.not_lt.mp hlong)
    omega
  have hdata : Ends len.toNat (read16 (i.toNat + 2 + 2 + cmdLen.toNat)) m _ m :=
    ends_read16 (by omega) m
  have hbytes : Ends len.toNat (readBytes i.toNat (2 + 2 + cmdLen.toNat)) m _ m :=
    ends_readBytes (by omega) m
  -- the checksum is in the buffer, and so are the bytes it is taken over
  by_cases hcrc : ofLe16 (m (i.toNat + 2 + 2 + cmdLen.toNat))
      (m (i.toNat + 2 + 2 + cmdLen.toNat + 1))
        = chip.chipCrc16 (m.bytes i.toNat (2 + 2 + cmdLen.toNat))
  · refine Or.inl ⟨m.write (i.toNat + 4) (User.encDecData chip (m.bytes (i.toNat + 4)
      cmdLen.toNat)), hhead.bind ?_, ?_⟩
    · rw [if_neg hlong]
      refine hdata.bind (hbytes.bind ?_)
      rw [if_pos hcrc]
      have hdec := @ends_encDecData _ chip len.toNat (i.toNat + 4) cmdLen.toUInt32
        (by rw [UInt16.toNat_toUInt32]; omega) m
      rw [UInt16.toNat_toUInt32] at hdec
      exact hdec.bind (Ends.pure _ _)
    · unfold User.encCmdData
      rw [if_neg (by omega), hfind]
      dsimp only
      rw [← hcmdLen, if_neg (by omega), if_pos hcrc]
  · refine Or.inr ⟨hhead.bind ?_, ?_⟩
    · rw [if_neg hlong]
      refine hdata.bind (hbytes.bind ?_)
      rw [if_neg hcrc]
      exact Ends.pure none m
    · unfold User.encCmdData
      rw [if_neg (by omega), hfind]
      dsimp only
      rw [← hcmdLen, if_neg (by omega), if_neg hcrc]

/-- The loop from `i` on, with no marker before `i`. -/
theorem ends_search {len i : UInt32} (hlen : len.toNat ≤ 4128) (h8 : 8 ≤ len.toNat)
    (hi : i.toNat ≤ len.toNat - 7) {m : Mem} (hfirst : ∀ k < i.toNat, ¬ MarkAt m k) :
    (∃ j rx, Ends len.toNat (search chip len i) m (some j) rx ∧
      User.encCmdData chip m len.toNat = some (j.toNat, rx)) ∨
    (Ends len.toNat (search chip len i) m none m ∧ User.encCmdData chip m len.toNat = none) := by
  have hseven : (len - 7).toNat = len.toNat - 7 :=
    UInt32.toNat_sub_of_le _ _ (UInt32.le_iff_toNat_le.mpr (by
      rw [show (7 : UInt32).toNat = 7 from rfl]
      omega))
  induction hd : len.toNat - 7 - i.toNat generalizing i with
  | zero =>
    -- the last position has been looked at
    have hge : ¬ i < len - 7 := by
      rw [UInt32.lt_iff_toNat_lt]
      omega
    have hnone : findMark m (len.toNat - 7) 0 = none := by
      by_contra hsome
      obtain ⟨j, hj⟩ := Option.ne_none_iff_exists'.mp hsome
      obtain ⟨-, hlt, hm⟩ := findMark_some hj
      exact hfirst j (by omega) hm
    refine Or.inr ⟨?_, ?_⟩
    · rw [search, dif_neg hge]
      exact Ends.pure none m
    · unfold User.encCmdData
      rw [if_neg (by omega), hnone]
  | succ d ih =>
    have hlt : i < len - 7 := UInt32.lt_iff_toNat_lt.mpr (by omega)
    obtain ⟨b, hisMark, hb⟩ := @ends_isMark len.toNat i (by omega) (by omega) m
    have hstep {r : Option UInt32} {rx : Mem}
        (h : Ends len.toNat (if b then checkCmd chip len i else search chip len (i + 1)) m r rx) :
        Ends len.toNat (search chip len i) m r rx := by
      rw [search, dif_pos hlt]
      exact hisMark.bind h
    -- the first marker decides
    by_cases hm : MarkAt m i.toNat
    · rw [if_pos (hb.mpr hm)] at hstep
      rcases ends_checkCmd chip hlen (by omega) hm hfirst with ⟨rx, hends, heq⟩ | ⟨hends, heq⟩
      · exact Or.inl ⟨i, rx, hstep hends, heq⟩
      · exact Or.inr ⟨hstep hends, heq⟩
    · rw [if_neg fun h => hm (hb.mp h)] at hstep
      have hnext : (i + 1).toNat = i.toNat + 1 := by
        rw [UInt32.toNat_add, UInt32.toNat_one]
        omega
      have hfirst' : ∀ k < (i + 1).toNat, ¬ MarkAt m k := by
        intro k hk
        rcases Nat.lt_or_ge k i.toNat with hlt' | hge
        · exact hfirst k hlt'
        · rwa [show k = i.toNat by omega]
      rcases ih (by omega) hfirst' (by omega) with ⟨j, rx, hends, heq⟩ | ⟨hends, heq⟩
      · exact Or.inl ⟨j, rx, hstep hends, heq⟩
      · exact Or.inr ⟨hstep hends, heq⟩

/-- **The code computes `User.encCmdData`**, and touches only the received bytes. -/
theorem ends_encCmdData {len : UInt32} (hlen : len.toNat ≤ 4128) (m : Mem) :
    (∃ j rx, Ends len.toNat (encCmdData chip len) m (some j) rx ∧
      User.encCmdData chip m len.toNat = some (j.toNat, rx)) ∨
    (Ends len.toNat (encCmdData chip len) m none m ∧ User.encCmdData chip m len.toNat = none) := by
  have height : (2 + 2 + 2 + 2 : UInt32).toNat = 8 := rfl
  by_cases h8 : len < 2 + 2 + 2 + 2
  · refine Or.inr ⟨?_, ?_⟩
    · rw [encCmdData, if_pos h8]
      exact Ends.pure none m
    · have h := UInt32.lt_iff_toNat_lt.mp h8
      unfold User.encCmdData
      rw [if_pos (by omega)]
  · have h := UInt32.le_iff_toNat_le.mp (UInt32.not_lt.mp h8)
    rw [encCmdData, if_neg h8]
    exact ends_search chip hlen (by omega) (Nat.zero_le _) fun k hk => absurd hk (Nat.not_lt_zero k)

end Bytewise

/-- **`enc_cmd_data` is exactly its specification.** -/
theorem encCmdData_exact (buf : Mem) {len : UInt32} (hlen : len.toNat ≤ 4128) :
    let s := (Bytewise.encCmdData chip len).run ⟨buf, []⟩
    (∀ k ∈ s.2.touched, k < len.toNat) ∧
      (∀ i, s.1.map UInt32.toNat = some i ↔ Accepts chip buf len.toNat i) ∧
      (∀ i, s.1.map UInt32.toNat = some i →
        Decrypted chip buf (i + 4) (cmdLenAt buf i) s.2.mem) ∧
      (s.1 = none → s.2.mem = buf) := by
  intro s
  rcases Bytewise.ends_encCmdData chip hlen buf with ⟨j, rx, hends, heq⟩ | ⟨hends, heq⟩
  · obtain ⟨t, hrun, ht⟩ := hends []
    have hs : s = (some j, ⟨rx, t⟩) := hrun
    obtain ⟨hacc, hrx⟩ := (encCmdData_eq_some_iff chip).mp heq
    rw [hs]
    refine ⟨ht, fun i => ?_, fun i hi => ?_, fun h => absurd h (Option.some_ne_none j)⟩
    · constructor
      · intro hi
        obtain rfl := Option.some.inj hi
        exact hacc
      · intro hi
        have hsame := heq.symm.trans ((encCmdData_eq_some_iff chip).mpr ⟨hi, rfl⟩)
        exact congrArg some (Prod.mk.inj (Option.some.inj hsame)).1
    · obtain rfl := Option.some.inj hi
      rw [hrx]
      exact decrypted_write chip buf _ _
  · obtain ⟨t, hrun, ht⟩ := hends []
    have hs : s = (none, ⟨buf, t⟩) := hrun
    rw [hs]
    refine ⟨ht, fun i => ?_, fun i hi => ?_, fun _ => rfl⟩
    · refine iff_of_false (fun h => by cases h) fun hi => ?_
      cases heq.symm.trans ((encCmdData_eq_some_iff chip).mpr ⟨hi, rfl⟩)
    · cases hi

/-- A reboot command behind one byte of noise. -/
def noisyReboot : Mem :=
  Mem.write (fun _ => 0) 1 [0xAA, 0x55, 2, 0, 0xCA ^^^ 0xEE, 0 ^^^ 0xFF, 0xF5, 0x68]

theorem accepts_noisyReboot : Accepts sampleChip noisyReboot 9 1 where
  eight_le := by decide
  le_sub := by decide
  mark := ⟨rfl, rfl⟩
  first := by
    intro k hk hmark
    obtain rfl : k = 0 := Nat.lt_one_iff.mp hk
    exact absurd hmark.1 (by decide)
  inside := by decide
  crc := by decide +kernel

theorem encCmdData_exact_noisyReboot :
    let s := (Bytewise.encCmdData sampleChip 9).run ⟨noisyReboot, []⟩
    (∀ k ∈ s.2.touched, k < 9) ∧ s.1.map UInt32.toNat = some 1 ∧ s.2.mem 5 = 0xCA ∧
      s.2.mem 6 = 0 := by
  intro s
  obtain ⟨htouched, haccepts, hdecrypted, -⟩ := @encCmdData_exact _ sampleChip noisyReboot 9
    (by decide)
  have hsome : s.1.map UInt32.toNat = some 1 := (haccepts 1).mpr accepts_noisyReboot
  obtain ⟨hbytes, -⟩ := hdecrypted 1 hsome
  refine ⟨htouched, hsome, ?_, ?_⟩
  · exact (hbytes 0 (by decide)).trans (by decide)
  · exact (hbytes 1 (by decide)).trans (by decide)

end FwBootloader.User
