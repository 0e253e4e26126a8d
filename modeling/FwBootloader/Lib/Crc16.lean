import Mathlib.Data.List.Basic
import Mathlib.Data.Nat.Bitwise
import Mathlib.Tactic.IntervalCases
import Mathlib.Tactic.Ring

/-!
## Bit-serial 16-bit CRCs and their table-driven forms

A non-reflected 16-bit CRC with generator `poly`: a byte enters at the top of the remainder, which
is then shifted out bit by bit (`shift`, `shifts`, `byte`, `remainder`).

* `shift_xor`, `shifts_xor`: shifting is linear in exclusive or.
* `shifts_split`: the part of a remainder that no shift pushes out only moves up, so `w` shifts
  are one lookup of the top `w` bits and one move (`shifts_lookup`).
* `shift_ne_zero`: with an odd generator a remainder is never lost, so one byte among zeros shows,
  and so does a change of two neighbouring bytes (`xmodem_burst_iff`).
* `remainder_append`: a remainder is carried across a cut of the input.

`xmodem` is the instance with generator `0x1021`, initial value `0` and no final exclusive or.
-/

namespace Crc16

/-- One shift of the remainder: the bit that leaves at the top feeds the generator back. -/
def shift (poly c : UInt16) : UInt16 :=
  if c &&& 0x8000 = 0 then c <<< 1 else (c <<< 1) ^^^ poly

/-- `n` shifts of the remainder. -/
def shifts (poly : UInt16) : ℕ → UInt16 → UInt16
  | 0, c => c
  | n + 1, c => shifts poly n (shift poly c)

/-- The remainder after one more byte, most significant bit first. -/
def byte (poly c : UInt16) (b : UInt8) : UInt16 :=
  shifts poly 8 (c ^^^ (b.toUInt16 <<< 8))

/-- The remainder of `bytes`, from the initial value `c`. -/
def remainder (poly c : UInt16) (bytes : List UInt8) : UInt16 :=
  bytes.foldl (byte poly) c

/-- CRC-16/XMODEM: generator `x^16 + x^12 + x^5 + 1`, initial value `0`. -/
def xmodem (bytes : List UInt8) : UInt16 :=
  remainder 0x1021 0 bytes

variable (poly : UInt16)

theorem remainder_append (c : UInt16) (l m : List UInt8) :
    remainder poly c (l ++ m) = remainder poly (remainder poly c l) m :=
  List.foldl_append

theorem remainder_cons (c : UInt16) (b : UInt8) (l : List UInt8) :
    remainder poly c (b :: l) = remainder poly (byte poly c b) l :=
  List.foldl_cons ..

theorem remainder_nil (c : UInt16) : remainder poly c [] = c := rfl

/-- Zeros keep a remainder of zero. -/
theorem xmodem_zeros {l : List UInt8} (h : xmodem l = 0) (n : ℕ) :
    xmodem (l ++ List.replicate n 0) = 0 := by
  rw [xmodem, remainder_append, ← xmodem, h]
  induction n with
  | zero => rfl
  | succ n ih =>
    rw [List.replicate_succ]
    exact ih

/-! ### Linearity -/

/-- Masking the top bit leaves either nothing or that bit. -/
theorem and_top (c : UInt16) : c &&& 0x8000 = 0 ∨ c &&& 0x8000 = 0x8000 := by
  have hbit : (c.toBitVec &&& 0x8000#16) = 0#16 ∨ (c.toBitVec &&& 0x8000#16) = 0x8000#16 := by
    rw [show (0x8000#16) = BitVec.twoPow 16 15 by decide, BitVec.and_twoPow]
    cases c.toBitVec.getLsbD 15 <;> simp
  rcases hbit with h | h
  · exact Or.inl (UInt16.toBitVec_inj.mp h)
  · exact Or.inr (UInt16.toBitVec_inj.mp h)

/-- **Shifting is linear.** -/
theorem shift_xor (a b : UInt16) : shift poly (a ^^^ b) = shift poly a ^^^ shift poly b := by
  have hand : (a ^^^ b) &&& 0x8000 = (a &&& 0x8000) ^^^ (b &&& 0x8000) := by
    apply UInt16.toBitVec_inj.mp
    ext i
    simp only [UInt16.toBitVec_and, UInt16.toBitVec_xor, BitVec.getElem_and, BitVec.getElem_xor,
      Bool.and_xor_distrib_right]
  unfold shift
  rw [hand, UInt16.shiftLeft_xor]
  rcases and_top a with ha | ha <;> rcases and_top b with hb | hb <;> rw [ha, hb]
  · simp
  · simp [UInt16.xor_assoc]
  · simp only [UInt16.xor_zero, if_true, if_neg (show (0x8000 : UInt16) ≠ 0 by decide)]
    rw [UInt16.xor_assoc, UInt16.xor_assoc, UInt16.xor_comm poly]
  · simp only [UInt16.xor_self, if_true, if_neg (show (0x8000 : UInt16) ≠ 0 by decide)]
    rw [UInt16.xor_comm (b <<< 1) poly, ← UInt16.xor_assoc, UInt16.xor_assoc (a <<< 1) poly poly,
      UInt16.xor_self, UInt16.xor_zero]

theorem shifts_xor (n : ℕ) (a b : UInt16) :
    shifts poly n (a ^^^ b) = shifts poly n a ^^^ shifts poly n b := by
  induction n generalizing a b with
  | zero => rfl
  | succ n ih => simp only [shifts, shift_xor, ih]

theorem shifts_add (m n : ℕ) (c : UInt16) :
    shifts poly (m + n) c = shifts poly n (shifts poly m c) := by
  induction m generalizing c with
  | zero => rw [Nat.zero_add, shifts]
  | succ m ih => rw [Nat.succ_add, shifts, ih, shifts]

/-- A remainder below `2 ^ 15` is only doubled by a shift. -/
theorem toNat_shift_of_lt {c : UInt16} (h : c.toNat < 2 ^ 15) :
    (shift poly c).toNat = 2 * c.toNat := by
  have htop : c &&& 0x8000 = 0 := by
    apply UInt16.toNat_inj.mp
    rw [UInt16.toNat_and, show (0x8000 : UInt16).toNat = 2 ^ 15 from rfl, Nat.and_two_pow,
      Nat.testBit_lt_two_pow h]
    rfl
  unfold shift
  rw [if_pos htop, UInt16.toNat_shiftLeft, Nat.shiftLeft_eq]
  simp only [UInt16.reduceToNat, Nat.reduceMod, Nat.reducePow]
  omega

/-- Shifts that push nothing out only move the remainder up. -/
theorem toNat_shifts_of_lt (n : ℕ) {c : UInt16} (h : c.toNat * 2 ^ n < 2 ^ 16) :
    (shifts poly n c).toNat = c.toNat * 2 ^ n := by
  induction n generalizing c with
  | zero => simp [shifts]
  | succ n ih =>
    have hpos : 1 ≤ 2 ^ n := Nat.one_le_two_pow
    have hdouble : c.toNat * 2 ^ (n + 1) = 2 * c.toNat * 2 ^ n := by ring
    have hlt : c.toNat < 2 ^ 15 := by
      have := Nat.mul_le_mul_left (2 * c.toNat) hpos
      omega
    have hc := toNat_shift_of_lt poly hlt
    rw [shifts, ih (by rw [hc]; omega), hc, hdouble]

/-! ### Single bytes -/

/-- With an odd generator a remainder other than zero is never lost. -/
theorem shift_ne_zero (hpoly : poly &&& 1 = 1) {c : UInt16} (hc : c ≠ 0) : shift poly c ≠ 0 := by
  have heven : (c <<< 1) &&& 1 = 0 := by
    apply UInt16.toNat_inj.mp
    rw [UInt16.toNat_and, show (1 : UInt16).toNat = 2 ^ 1 - 1 from rfl,
      Nat.and_two_pow_sub_one_eq_mod, UInt16.toNat_shiftLeft, Nat.shiftLeft_eq,
      show (1 : UInt16).toNat % 16 = 1 from rfl]
    show c.toNat * 2 ^ 1 % 2 ^ 16 % 2 ^ 1 = 0
    omega
  unfold shift
  split_ifs with htop
  · -- the bit that leaves is zero, so the others would all have to be
    intro h0
    apply hc
    have hlt := c.toNat_lt
    have hdouble : c.toNat * 2 % 2 ^ 16 = 0 := by
      have h := congrArg UInt16.toNat h0
      rwa [UInt16.toNat_shiftLeft, Nat.shiftLeft_eq, show (1 : UInt16).toNat % 16 = 1 from rfl] at h
    have hbit : c.toNat.testBit 15 = false := by
      have h := congrArg UInt16.toNat htop
      rw [UInt16.toNat_and, show (0x8000 : UInt16).toNat = 2 ^ 15 from rfl, Nat.and_two_pow] at h
      cases hb : c.toNat.testBit 15
      · rfl
      · rw [hb] at h
        cases h
    rw [Nat.testBit_eq_decide_div_mod_eq] at hbit
    have hdiv := of_decide_eq_false hbit
    apply UInt16.toNat_inj.mp
    show c.toNat = 0
    omega
  · -- the generator's lowest bit stays
    intro h0
    rw [UInt16.xor_eq_zero_iff] at h0
    rw [h0, hpoly] at heven
    exact absurd heven (by decide)

theorem shifts_ne_zero (hpoly : poly &&& 1 = 1) (n : ℕ) {c : UInt16} (hc : c ≠ 0) :
    shifts poly n c ≠ 0 := by
  induction n generalizing c with
  | zero => exact hc
  | succ n ih => exact ih (shift_ne_zero poly hpoly hc)

/-- One byte other than zero, among zeros, is never missed. -/
theorem xmodem_single_ne_zero (m n : ℕ) :
    xmodem (List.replicate m 0 ++ 1 :: List.replicate n 0) ≠ 0 := by
  have hzeros := xmodem_zeros (l := []) rfl m
  rw [List.nil_append, xmodem] at hzeros
  rw [xmodem, remainder_append, hzeros]
  show remainder 0x1021 (byte 0x1021 0 1) (List.replicate n 0) ≠ 0
  have hfirst : byte 0x1021 0 1 ≠ 0 := by decide
  generalize byte 0x1021 0 1 = c at hfirst
  induction n generalizing c with
  | zero => exact hfirst
  | succ n ih =>
    refine ih (byte 0x1021 c 0) ?_
    have hsame : c ^^^ ((0 : UInt8).toUInt16 <<< 8) = c := by simp
    rw [byte, hsame]
    exact shifts_ne_zero _ (by decide) 8 hfirst

/-! ### Short bursts

An odd generator loses no remainder, so a change of at most sixteen neighbouring bits shows. -/

/-- Bytes and remainders mix linearly. -/
theorem byte_xor (c d : UInt16) (x y : UInt8) :
    byte poly (c ^^^ d) (x ^^^ y) = byte poly c x ^^^ byte poly d y := by
  have hmix : c ^^^ d ^^^ ((x ^^^ y).toUInt16 <<< 8)
      = c ^^^ (x.toUInt16 <<< 8) ^^^ (d ^^^ (y.toUInt16 <<< 8)) := by
    rw [UInt8.toUInt16_xor, UInt16.shiftLeft_xor]
    ac_rfl
  rw [byte, byte, byte, hmix, shifts_xor]

theorem shifts_inj (hpoly : poly &&& 1 = 1) (n : ℕ) {c d : UInt16} :
    shifts poly n c = shifts poly n d ↔ c = d := by
  constructor
  · intro h
    by_contra hne
    have hdiff : c ^^^ d ≠ 0 := fun h0 => hne (UInt16.xor_eq_zero_iff.mp h0)
    have hsame := shifts_xor poly n c d
    rw [h, UInt16.xor_self] at hsame
    exact shifts_ne_zero poly hpoly n hdiff hsame
  · intro h
    rw [h]

/-- Different remainders stay different, whatever follows. -/
theorem remainder_inj (hpoly : poly &&& 1 = 1) (l : List UInt8) {c d : UInt16} :
    remainder poly c l = remainder poly d l ↔ c = d := by
  induction l generalizing c d with
  | nil => exact Iff.rfl
  | cons b l ih =>
    rw [remainder_cons, remainder_cons, ih, byte, byte, shifts_inj poly hpoly, UInt16.xor_left_inj]

/-- Two bytes leave a remainder of zero only when they are zero. -/
theorem byte_byte_eq_zero_iff (hpoly : poly &&& 1 = 1) (e₀ e₁ : UInt8) :
    byte poly (byte poly 0 e₀) e₁ = 0 ↔ e₀ = 0 ∧ e₁ = 0 := by
  have h0 := e₀.toNat_lt
  have h1 := e₁.toNat_lt
  have hhigh : (e₀.toUInt16 <<< 8).toNat = e₀.toNat * 2 ^ 8 := by
    rw [UInt16.toNat_shiftLeft, Nat.shiftLeft_eq, UInt8.toNat_toUInt16]
    simp only [UInt16.reduceToNat, Nat.reduceMod, Nat.reducePow]
    omega
  -- the second byte enters where eight shifts would have carried it
  have hlow : e₁.toUInt16 <<< 8 = shifts poly 8 e₁.toUInt16 := by
    apply UInt16.toNat_inj.mp
    rw [toNat_shifts_of_lt poly 8 (by rw [UInt8.toNat_toUInt16]; omega), UInt16.toNat_shiftLeft,
      Nat.shiftLeft_eq, UInt8.toNat_toUInt16]
    simp only [UInt16.reduceToNat, Nat.reduceMod, Nat.reducePow]
    omega
  have hword : byte poly (byte poly 0 e₀) e₁
      = shifts poly 8 (shifts poly 8 ((e₀.toUInt16 <<< 8) ^^^ e₁.toUInt16)) := by
    rw [byte, byte, hlow, UInt16.zero_xor, ← shifts_xor]
  have hzero (n : ℕ) : shifts poly n 0 = 0 := by
    induction n with
    | zero => rfl
    | succ n ih => exact ih
  constructor
  · intro h
    rw [hword, ← hzero 8, shifts_inj poly hpoly, ← hzero 8, shifts_inj poly hpoly,
      UInt16.xor_eq_zero_iff] at h
    have heq := congrArg UInt16.toNat h
    rw [hhigh, UInt8.toNat_toUInt16] at heq
    constructor
    · apply UInt8.toNat_inj.mp
      show e₀.toNat = 0
      omega
    · apply UInt8.toNat_inj.mp
      show e₁.toNat = 0
      omega
  · rintro ⟨rfl, rfl⟩
    rw [hword, show ((0 : UInt8).toUInt16 <<< 8) ^^^ (0 : UInt8).toUInt16 = 0 by decide, hzero,
      hzero]

/-- **A change of two neighbouring bytes shows in the remainder.** -/
theorem xmodem_burst_iff (l m : List UInt8) (x y e₀ e₁ : UInt8) :
    xmodem (l ++ (x ^^^ e₀) :: (y ^^^ e₁) :: m) = xmodem (l ++ x :: y :: m) ↔ e₀ = 0 ∧ e₁ = 0 := by
  have hodd : (0x1021 : UInt16) &&& 1 = 1 := by decide
  rw [xmodem, xmodem, remainder_append, remainder_append]
  set c := remainder 0x1021 0 l
  have hfirst := byte_xor 0x1021 c 0 x e₀
  rw [UInt16.xor_zero] at hfirst
  rw [remainder_cons, remainder_cons, remainder_cons, remainder_cons, remainder_inj _ hodd, hfirst,
    byte_xor, ← byte_byte_eq_zero_iff _ hodd e₀ e₁]
  constructor
  · intro h
    exact (UInt16.xor_right_inj _).mp (h.trans (UInt16.xor_zero).symm)
  · intro h
    rw [h, UInt16.xor_zero]

/-- A change of the last byte, as a change of the remainder. -/
theorem xmodem_concat_xor (l : List UInt8) (x e : UInt8) :
    xmodem (l ++ [x ^^^ e]) = xmodem (l ++ [x]) ^^^ byte 0x1021 0 e := by
  rw [xmodem, xmodem, remainder_append, remainder_append]
  have hmix := byte_xor 0x1021 (remainder 0x1021 0 l) 0 x e
  rw [UInt16.xor_zero] at hmix
  rw [remainder_cons, remainder_cons, remainder_nil, remainder_nil, hmix]

/-- There is one byte whose remainder has a high byte of zero. -/
theorem byte_eq_toUInt16_iff (e₀ e₁ : UInt8) :
    byte 0x1021 0 e₀ = e₁.toUInt16 ↔ e₀ = 0 ∧ e₁ = 0 ∨ e₀ = 0x89 ∧ e₁ = 0xA1 := by
  have hall : ∀ i : Fin 256, (byte 0x1021 0 (UInt8.ofNat i)).toNat < 256 →
      i.val = 0 ∨ i.val = 0x89 := by
    decide +kernel
  constructor
  · intro h
    have hlt : (byte 0x1021 0 e₀).toNat < 256 := by
      rw [h, UInt8.toNat_toUInt16]
      exact e₁.toNat_lt
    have hcases := hall ⟨e₀.toNat, e₀.toNat_lt⟩
    rw [UInt8.ofNat_toNat] at hcases
    rcases hcases hlt with h0 | h0
    · obtain rfl : e₀ = 0 := UInt8.toNat_inj.mp h0
      rw [show byte 0x1021 0 0 = (0 : UInt8).toUInt16 by decide, UInt8.toUInt16_inj] at h
      exact Or.inl ⟨rfl, h.symm⟩
    · obtain rfl : e₀ = 0x89 := UInt8.toNat_inj.mp h0
      rw [show byte 0x1021 0 0x89 = (0xA1 : UInt8).toUInt16 by decide, UInt8.toUInt16_inj] at h
      exact Or.inr ⟨rfl, h.symm⟩
  · rintro (⟨rfl, rfl⟩ | ⟨rfl, rfl⟩) <;> decide

/-! ### Tables -/

/-- The low part of a remainder moves up, the high part is shifted on its own. -/
theorem shifts_split (w : ℕ) {c hi lo up : UInt16} (hc : c = hi ^^^ lo)
    (hlo : lo.toNat * 2 ^ w < 2 ^ 16) (hup : up.toNat = lo.toNat * 2 ^ w) :
    shifts poly w c = shifts poly w hi ^^^ up := by
  have hmove : shifts poly w lo = up :=
    UInt16.toNat_inj.mp (by rw [toNat_shifts_of_lt poly w hlo, hup])
  rw [hc, shifts_xor, hmove]

/-- Moving a word down and up again loses its low `k` bits. -/
theorem toNat_xor_shifted (c : UInt16) {k : ℕ} (hk : k < 16) :
    (c ^^^ ((c >>> UInt16.ofNat k) <<< UInt16.ofNat k)).toNat = c.toNat % 2 ^ k := by
  have hmod : (UInt16.ofNat k).toNat % 16 = k := by
    rw [UInt16.toNat_ofNat_of_lt' (show k < 2 ^ 16 by omega), Nat.mod_eq_of_lt hk]
  apply Nat.eq_of_testBit_eq
  intro i
  rw [UInt16.toNat_xor, UInt16.toNat_shiftLeft, UInt16.toNat_shiftRight, hmod, Nat.testBit_xor,
    Nat.testBit_mod_two_pow, Nat.testBit_mod_two_pow, Nat.testBit_shiftLeft,
    Nat.testBit_shiftRight]
  rcases Nat.lt_or_ge i k with hi | hi
  · simp [Nat.not_le.mpr hi, hi]
  · rw [Nat.add_sub_cancel' hi]
    rcases Nat.lt_or_ge i 16 with h16 | h16
    · simp [hi, h16, Nat.not_lt.mpr hi]
    · have hbit : c.toNat.testBit i = false :=
        Nat.testBit_lt_two_pow (c.toNat_lt.trans_le (Nat.pow_le_pow_right (by decide) h16))
      simp [hbit]

/-- `w` shifts of `c` with `w` bits entering at the top: one lookup of the top `w` bits. -/
theorem shifts_lookup {w k : ℕ} (hwk : w + k = 16) (hw : 0 < w) (hk : 0 < k) (c b : UInt16) :
    shifts poly w (c ^^^ (b <<< UInt16.ofNat k)) = (c <<< UInt16.ofNat w)
      ^^^ shifts poly w (((c >>> UInt16.ofNat k) ^^^ b) <<< UInt16.ofNat k) := by
  set top := (c >>> UInt16.ofNat k) <<< UInt16.ofNat k with htop
  have hlow : (c ^^^ top).toNat = c.toNat % 2 ^ k := toNat_xor_shifted c (by omega)
  have hsplit : c ^^^ (b <<< UInt16.ofNat k)
      = (((c >>> UInt16.ofNat k) ^^^ b) <<< UInt16.ofNat k) ^^^ (c ^^^ top) := by
    rw [UInt16.shiftLeft_xor, ← htop, UInt16.xor_comm c top, ← UInt16.xor_assoc,
      UInt16.xor_comm top, UInt16.xor_assoc _ top top, UInt16.xor_self, UInt16.xor_zero,
      UInt16.xor_comm]
  have hpow : 2 ^ k * 2 ^ w = 2 ^ 16 := by rw [← Nat.pow_add, Nat.add_comm k w, hwk]
  have hup : (c <<< UInt16.ofNat w).toNat = (c ^^^ top).toNat * 2 ^ w := by
    have hmod : (UInt16.ofNat w).toNat % 16 = w := by
      rw [UInt16.toNat_ofNat_of_lt' (show w < 2 ^ 16 by omega), Nat.mod_eq_of_lt (by omega)]
    rw [hlow, UInt16.toNat_shiftLeft, hmod, Nat.shiftLeft_eq, ← hpow, Nat.mul_mod_mul_right]
  have hlt : (c ^^^ top).toNat * 2 ^ w < 2 ^ 16 := by
    rw [hlow, ← hpow]
    exact Nat.mul_lt_mul_of_pos_right (Nat.mod_lt _ (Nat.two_pow_pos k)) (Nat.two_pow_pos w)
  rw [shifts_split poly w hsplit hlt hup, UInt16.xor_comm]

/-- **A byte at a time**: the table's word for the top byte, and the remainder moved up. -/
theorem byte_eq_lookup (c : UInt16) (b : UInt8) :
    byte poly c b = (c <<< 8) ^^^ shifts poly 8 (((c >>> 8) ^^^ b.toUInt16) <<< 8) :=
  @shifts_lookup poly 8 8 rfl (by decide) (by decide) c b.toUInt16

/-- **A nibble at a time**: a byte is its high nibble's four shifts and its low nibble's four. -/
theorem byte_eq_nibbles (c : UInt16) (b : UInt8) :
    byte poly c b =
      shifts poly 4 (shifts poly 4 (c ^^^ ((b / 16).toUInt16 <<< 12))
        ^^^ ((b &&& 0x0f).toUInt16 <<< 12)) := by
  set hi := (b / 16).toUInt16
  set lo := (b &&& 0x0f).toUInt16 with hlo
  have hlolt : lo.toNat < 2 ^ 4 := by
    rw [hlo, UInt8.toNat_toUInt16, UInt8.toNat_and]
    exact Nat.and_lt_two_pow _ (by decide)
  have hval (k : UInt16) (n : ℕ) (hk : k.toNat % 16 = n) (hn : n ≤ 12) :
      (lo <<< k).toNat = lo.toNat * 2 ^ n := by
    rw [UInt16.toNat_shiftLeft, hk, Nat.shiftLeft_eq]
    apply Nat.mod_eq_of_lt
    calc lo.toNat * 2 ^ n ≤ lo.toNat * 2 ^ 12 :=
          Nat.mul_le_mul_left _ (Nat.pow_le_pow_right (by decide) hn)
      _ < 2 ^ 16 := by omega
  -- the byte, as its two halves in their places
  have hb : b.toUInt16 <<< 8 = (hi <<< 12) ^^^ (lo <<< 8) := by
    have hdiv : b / (16 : UInt8) = b >>> (4 : UInt8) := by
      apply UInt8.toNat_inj.mp
      rw [UInt8.toNat_div, UInt8.toNat_shiftRight, Nat.shiftRight_eq_div_pow]
      rfl
    apply UInt16.toBitVec_inj.mp
    ext i hi16
    simp only [hi, hlo, hdiv]
    simp
    interval_cases i <;> simp
  have h8 := hval 8 8 rfl (by decide)
  have h12 := hval 12 12 rfl le_rfl
  -- the low half is below the bits that four shifts look at
  have hmove : shifts poly 4 (c ^^^ (hi <<< 12) ^^^ (lo <<< 8))
      = shifts poly 4 (c ^^^ (hi <<< 12)) ^^^ (lo <<< 12) :=
    shifts_split poly 4 rfl (by omega) (by omega)
  rw [byte, hb, ← UInt16.xor_assoc, shifts_add poly 4 4, hmove]

end Crc16
