import Mathlib.Data.List.Basic
import Mathlib.Data.List.GetD
import Mathlib.Tactic.IntervalCases

/-!
## Little-endian words, repeating-key exclusive or, and byte memories

* `le16`, `le32` lay a word out with its low byte first, `ofLe16`, `ofLe32` read it back
  (`ofLe16_le16`, `ofLe32_le32`); `le16s`, `ofLe16s` do so for a list of words.
* `xorKey` is exclusive or with a 32-bit key whose bytes repeat; it is its own inverse
  (`xorKey_xorKey`).
* A `Mem` is a memory of bytes, addressed from the start of an object on and total, so that an
  access behind the object has a value as well; `Mem.bytes` reads a range and `Mem.write` writes
  one.
-/

namespace Bytes

/-! ### Words -/

/-- The two bytes of a 16-bit word, low byte first. -/
def le16 (v : UInt16) : List UInt8 :=
  [v.toUInt8, (v >>> 8).toUInt8]

/-- The four bytes of a 32-bit word, low byte first. -/
def le32 (v : UInt32) : List UInt8 :=
  [v.toUInt8, (v >>> 8).toUInt8, (v >>> 16).toUInt8, (v >>> 24).toUInt8]

/-- The 16-bit word with low byte `a` and high byte `b`. -/
def ofLe16 (a b : UInt8) : UInt16 :=
  a.toUInt16 ||| (b.toUInt16 <<< 8)

/-- The 32-bit word with the bytes `a b c d`, low byte first. -/
def ofLe32 (a b c d : UInt8) : UInt32 :=
  a.toUInt32 ||| (b.toUInt32 <<< 8) ||| (c.toUInt32 <<< 16) ||| (d.toUInt32 <<< 24)

@[simp] theorem length_le16 (v : UInt16) : (le16 v).length = 2 := rfl

@[simp] theorem length_le32 (v : UInt32) : (le32 v).length = 4 := rfl

theorem toNat_pos_of_ne_zero {v : UInt32} (hv : v ≠ 0) : 0 < v.toNat :=
  Nat.pos_of_ne_zero fun h => hv (UInt32.toNat_inj.mp h)

/-- A product that does not wrap can be divided again. -/
theorem mul_div_of_lt {n v : UInt32} (hv : v ≠ 0) (hlt : n.toNat * v.toNat < 2 ^ 32) :
    n * v / v = n := by
  apply UInt32.toNat_inj.mp
  rw [UInt32.toNat_div, UInt32.toNat_mul, Nat.mod_eq_of_lt hlt,
    Nat.mul_div_cancel _ (toNat_pos_of_ne_zero hv)]

theorem add_ofNat_zero_mul (v w : UInt32) : v + UInt32.ofNat 0 * w = v := by
  rw [show UInt32.ofNat 0 = 0 from rfl, UInt32.zero_mul, UInt32.add_zero]

/-- The value of a 16-bit word in terms of its bytes. -/
theorem toNat_ofLe16 (a b : UInt8) : (ofLe16 a b).toNat = a.toNat + 256 * b.toNat := by
  have ha := a.toNat_lt
  have hb := b.toNat_lt
  have hor := Nat.two_pow_add_eq_or_of_lt (i := 8) ha b.toNat
  simp only [ofLe16, UInt16.toNat_or, UInt16.toNat_shiftLeft, UInt8.toNat_toUInt16,
    Nat.shiftLeft_eq, UInt16.reduceToNat, Nat.reduceMod, Nat.reducePow] at hor ⊢
  rw [Nat.mod_eq_of_lt (by omega), Nat.or_comm, Nat.mul_comm, ← hor]
  omega

/-- The value of a 32-bit word in terms of its bytes. -/
theorem toNat_ofLe32 (a b c d : UInt8) :
    (ofLe32 a b c d).toNat =
      a.toNat + 2 ^ 8 * b.toNat + 2 ^ 16 * c.toNat + 2 ^ 24 * d.toNat := by
  have ha := a.toNat_lt
  have hb := b.toNat_lt
  have hc := c.toNat_lt
  have hd := d.toNat_lt
  have h1 := Nat.two_pow_add_eq_or_of_lt (i := 8) ha b.toNat
  have h2 := Nat.two_pow_add_eq_or_of_lt (i := 16)
    (show a.toNat + 2 ^ 8 * b.toNat < 2 ^ 16 by omega) c.toNat
  have h3 := Nat.two_pow_add_eq_or_of_lt (i := 24)
    (show a.toNat + 2 ^ 8 * b.toNat + 2 ^ 16 * c.toNat < 2 ^ 24 by omega) d.toNat
  have e1 : a.toNat ||| 2 ^ 8 * b.toNat = a.toNat + 2 ^ 8 * b.toNat := by
    rw [Nat.or_comm, ← h1]; omega
  have e2 : (a.toNat + 2 ^ 8 * b.toNat) ||| 2 ^ 16 * c.toNat
      = a.toNat + 2 ^ 8 * b.toNat + 2 ^ 16 * c.toNat := by
    rw [Nat.or_comm, ← h2]; omega
  have e3 : (a.toNat + 2 ^ 8 * b.toNat + 2 ^ 16 * c.toNat) ||| 2 ^ 24 * d.toNat
      = a.toNat + 2 ^ 8 * b.toNat + 2 ^ 16 * c.toNat + 2 ^ 24 * d.toNat := by
    rw [Nat.or_comm, ← h3]; omega
  have hshift (x : UInt8) (k : UInt32) (n : ℕ) (hk : k.toNat % 32 = n) (hn : n ≤ 24) :
      (x.toUInt32 <<< k).toNat = 2 ^ n * x.toNat := by
    rw [UInt32.toNat_shiftLeft, hk, Nat.shiftLeft_eq, UInt8.toNat_toUInt32, Nat.mul_comm]
    apply Nat.mod_eq_of_lt
    calc 2 ^ n * x.toNat ≤ 2 ^ 24 * x.toNat :=
          Nat.mul_le_mul_right _ (Nat.pow_le_pow_right (by decide) hn)
      _ < 2 ^ 32 := by have := x.toNat_lt; omega
  rw [ofLe32, UInt32.toNat_or, UInt32.toNat_or, UInt32.toNat_or, hshift b 8 8 rfl (by decide),
    hshift c 16 16 rfl (by decide), hshift d 24 24 rfl le_rfl, UInt8.toNat_toUInt32, e1, e2, e3]

theorem ofLe16_le16 (v : UInt16) : ofLe16 v.toUInt8 (v >>> 8).toUInt8 = v := by
  have hv := v.toNat_lt
  apply UInt16.toNat_inj.mp
  simp only [toNat_ofLe16, UInt16.toNat_toUInt8, UInt16.toNat_shiftRight,
    Nat.shiftRight_eq_div_pow, UInt16.reduceToNat, Nat.reduceMod, Nat.reducePow]
  omega

theorem le16_ofLe16 (a b : UInt8) : le16 (ofLe16 a b) = [a, b] := by
  have ha := a.toNat_lt
  have hb := b.toNat_lt
  have hlow : (ofLe16 a b).toUInt8 = a := by
    apply UInt8.toNat_inj.mp
    rw [UInt16.toNat_toUInt8, toNat_ofLe16]
    omega
  have hhigh : (ofLe16 a b >>> 8).toUInt8 = b := by
    apply UInt8.toNat_inj.mp
    simp only [UInt16.toNat_toUInt8, UInt16.toNat_shiftRight, toNat_ofLe16,
      Nat.shiftRight_eq_div_pow, UInt16.reduceToNat, Nat.reduceMod, Nat.reducePow]
    omega
  rw [le16, hlow, hhigh]

theorem ofLe16_inj {a b c d : UInt8} : ofLe16 a b = ofLe16 c d ↔ a = c ∧ b = d := by
  constructor
  · intro h
    have hbytes := congrArg le16 h
    rw [le16_ofLe16, le16_ofLe16] at hbytes
    obtain ⟨hac, hbd⟩ := List.cons_eq_cons.mp hbytes
    exact ⟨hac, (List.cons_eq_cons.mp hbd).1⟩
  · rintro ⟨rfl, rfl⟩
    rfl

/-- A change of the low byte is a change of the word. -/
theorem ofLe16_xor_left (a b e : UInt8) : ofLe16 (a ^^^ e) b = ofLe16 a b ^^^ e.toUInt16 := by
  apply UInt16.toBitVec_inj.mp
  ext i hi
  simp [ofLe16]
  interval_cases i <;> simp

theorem ofLe32_le32 (v : UInt32) :
    ofLe32 v.toUInt8 (v >>> 8).toUInt8 (v >>> 16).toUInt8 (v >>> 24).toUInt8 = v := by
  have hv := v.toNat_lt
  apply UInt32.toNat_inj.mp
  simp only [toNat_ofLe32, UInt32.toNat_toUInt8, UInt32.toNat_shiftRight,
    Nat.shiftRight_eq_div_pow, UInt32.reduceToNat, Nat.reduceMod, Nat.reducePow]
  omega

theorem le32_ofLe32 (a b c d : UInt8) : le32 (ofLe32 a b c d) = [a, b, c, d] := by
  have ha := a.toNat_lt
  have hb := b.toNat_lt
  have hc := c.toNat_lt
  have hd := d.toNat_lt
  have h0 : (ofLe32 a b c d).toUInt8 = a := by
    apply UInt8.toNat_inj.mp
    rw [UInt32.toNat_toUInt8, toNat_ofLe32]
    omega
  have hshift (k : UInt32) (n : ℕ) (e : UInt8) (hk : k.toNat % 32 = n)
      (he : (ofLe32 a b c d).toNat / 2 ^ n % 2 ^ 8 = e.toNat) :
      (ofLe32 a b c d >>> k).toUInt8 = e := by
    apply UInt8.toNat_inj.mp
    rw [UInt32.toNat_toUInt8, UInt32.toNat_shiftRight, hk, Nat.shiftRight_eq_div_pow, he]
  have h1 := hshift 8 8 b rfl (by rw [toNat_ofLe32]; omega)
  have h2 := hshift 16 16 c rfl (by rw [toNat_ofLe32]; omega)
  have h3 := hshift 24 24 d rfl (by rw [toNat_ofLe32]; omega)
  rw [le32, h0, h1, h2, h3]

/-- The bytes of a list of 16-bit words. -/
def le16s (vs : List UInt16) : List UInt8 :=
  vs.flatMap le16

/-- The 16-bit words of a list of bytes, read in pairs; an odd last byte is not read. -/
def ofLe16s : List UInt8 → List UInt16
  | a :: b :: rest => ofLe16 a b :: ofLe16s rest
  | _ => []

@[simp] theorem length_le16s (vs : List UInt16) : (le16s vs).length = 2 * vs.length := by
  induction vs with
  | nil => rfl
  | cons v vs ih =>
    rw [le16s, List.flatMap_cons, List.length_append, ← le16s, ih, length_le16, List.length_cons]
    omega

theorem le16s_append (vs ws : List UInt16) : le16s (vs ++ ws) = le16s vs ++ le16s ws :=
  List.flatMap_append

@[simp] theorem ofLe16s_le16s (vs : List UInt16) : ofLe16s (le16s vs) = vs := by
  induction vs with
  | nil => rfl
  | cons v vs ih =>
    rw [le16s, List.flatMap_cons, ← le16s]
    simp only [le16, List.cons_append, List.nil_append, ofLe16s, ofLe16_le16, ih]

/-- Word `i` stands at the bytes `2 * i` and `2 * i + 1`. -/
theorem getD_le16s (vs : List UInt16) {i : ℕ} (hi : i < vs.length) :
    ofLe16 ((le16s vs).getD (2 * i) 0) ((le16s vs).getD (2 * i + 1) 0) = vs.getD i 0 := by
  induction vs generalizing i with
  | nil => exact absurd hi (Nat.not_lt_zero i)
  | cons v vs ih =>
    rw [le16s, List.flatMap_cons, ← le16s]
    cases i with
    | zero => exact ofLe16_le16 v
    | succ i => exact ih (Nat.lt_of_succ_lt_succ hi)

theorem le16s_ofLe16s : ∀ {n : ℕ} {l : List UInt8}, l.length = 2 * n → le16s (ofLe16s l) = l
  | 0, [], _ => rfl
  | n + 1, a :: b :: rest, h => by
    have hrest : rest.length = 2 * n := by
      simp only [List.length_cons] at h
      omega
    rw [ofLe16s, le16s, List.flatMap_cons, ← le16s, le16s_ofLe16s hrest, le16_ofLe16]
    rfl

/-! ### Exclusive or with a repeating key -/

/-- Exclusive or of every byte with the byte of `key` at its index modulo four. -/
def xorKey (key : UInt32) (l : List UInt8) : List UInt8 :=
  l.mapIdx fun i b => b ^^^ (le32 key).getD (i % 4) 0

@[simp] theorem length_xorKey (key : UInt32) (l : List UInt8) :
    (xorKey key l).length = l.length :=
  List.length_mapIdx

theorem getD_xorKey (key : UInt32) {l : List UInt8} {i : ℕ} (hi : i < l.length) :
    (xorKey key l).getD i 0 = l.getD i 0 ^^^ (le32 key).getD (i % 4) 0 := by
  rw [List.getD_eq_getElem _ _ ((length_xorKey key l).symm ▸ hi), List.getD_eq_getElem _ _ hi]
  exact List.getElem_mapIdx

/-- The first byte is changed by the lowest byte of the key. -/
theorem xorKey_cons (key : UInt32) (b : UInt8) (l : List UInt8) :
    ∃ l', xorKey key (b :: l) = (b ^^^ key.toUInt8) :: l' ∧ l'.length = l.length := by
  rw [xorKey, List.mapIdx_cons]
  exact ⟨_, rfl, List.length_mapIdx⟩

/-- Applying the key twice gives the bytes back. -/
@[simp] theorem xorKey_xorKey (key : UInt32) (l : List UInt8) : xorKey key (xorKey key l) = l := by
  apply List.ext_getElem (by simp)
  intro i _ _
  simp only [xorKey, List.getElem_mapIdx]
  rw [UInt8.xor_assoc, UInt8.xor_self, UInt8.xor_zero]

/-- A key that leaves four bytes in a row as they are is zero. -/
theorem eq_zero_of_xorKey {key : UInt32} {l : List UInt8} {i : ℕ} (hi : i + 4 ≤ l.length)
    (h : ∀ k < 4, (xorKey key l).getD (i + k) 0 = l.getD (i + k) 0) : key = 0 := by
  have hbyte (r : ℕ) (hr : r < 4) : (le32 key).getD r 0 = 0 := by
    -- one of the four bytes is changed by the byte `r` of the key
    obtain ⟨k, hk, hmod⟩ : ∃ k < 4, (i + k) % 4 = r := ⟨(r + 4 - i % 4) % 4, by omega, by omega⟩
    have hfix := h k hk
    rw [getD_xorKey key (by omega), hmod] at hfix
    exact (UInt8.xor_right_inj _).mp (hfix.trans UInt8.xor_zero.symm)
  have h0 : key.toUInt8 = 0 := hbyte 0 (by decide)
  have h1 : (key >>> 8).toUInt8 = 0 := hbyte 1 (by decide)
  have h2 : (key >>> 16).toUInt8 = 0 := hbyte 2 (by decide)
  have h3 : (key >>> 24).toUInt8 = 0 := hbyte 3 (by decide)
  rw [← ofLe32_le32 key, h0, h1, h2, h3]
  rfl

end Bytes

/-- A memory of bytes, addressed from the start of an object on. -/
abbrev Mem : Type := ℕ → UInt8

namespace Mem

/-- The `n` bytes from `off` on. -/
def bytes (m : Mem) (off n : ℕ) : List UInt8 :=
  (List.range n).map fun k => m (off + k)

/-- The memory with the bytes `l` from `off` on. -/
def write (m : Mem) (off : ℕ) (l : List UInt8) : Mem := fun i =>
  if off ≤ i ∧ i < off + l.length then l.getD (i - off) 0 else m i

@[simp] theorem length_bytes (m : Mem) (off n : ℕ) : (m.bytes off n).length = n := by
  simp [bytes]

@[simp] theorem getElem_bytes (m : Mem) (off n i : ℕ) (h : i < (m.bytes off n).length) :
    (m.bytes off n)[i] = m (off + i) := by
  simp [bytes]

theorem getD_bytes (m : Mem) (off : ℕ) {n i : ℕ} (h : i < n) :
    (m.bytes off n).getD i 0 = m (off + i) := by
  have hin : i < (m.bytes off n).length := by rwa [length_bytes]
  rw [List.getD_eq_getElem _ _ hin, getElem_bytes]

theorem bytes_zero (m : Mem) (off : ℕ) : m.bytes off 0 = [] := rfl

theorem bytes_succ (m : Mem) (off n : ℕ) :
    m.bytes off (n + 1) = m off :: m.bytes (off + 1) n := by
  apply List.ext_getElem (by simp)
  intro i _ _
  cases i with
  | zero => simp
  | succ i => simp; congr 1; omega

/-- A range is the ranges on both sides of a cut. -/
theorem bytes_add (m : Mem) (off a b : ℕ) :
    m.bytes off (a + b) = m.bytes off a ++ m.bytes (off + a) b := by
  induction a generalizing off with
  | zero => simp [bytes_zero]
  | succ a ih =>
    rw [Nat.succ_add, bytes_succ, bytes_succ, ih, List.cons_append,
      show off + 1 + a = off + (a + 1) by omega]

theorem take_bytes (m : Mem) (off : ℕ) {k n : ℕ} (h : k ≤ n) :
    (m.bytes off n).take k = m.bytes off k := by
  obtain ⟨d, rfl⟩ := Nat.exists_eq_add_of_le h
  rw [bytes_add, List.take_left' (length_bytes ..)]

theorem drop_bytes (m : Mem) (off : ℕ) {k n : ℕ} (h : k ≤ n) :
    (m.bytes off n).drop k = m.bytes (off + k) (n - k) := by
  obtain ⟨d, rfl⟩ := Nat.exists_eq_add_of_le h
  rw [bytes_add, List.drop_left' (length_bytes ..), Nat.add_sub_cancel_left]

/-- Memories that agree on a range have the same bytes there. -/
theorem bytes_congr {m m' : Mem} {off n : ℕ} (h : ∀ i, off ≤ i → i < off + n → m i = m' i) :
    m.bytes off n = m'.bytes off n := by
  apply List.ext_getElem (by simp)
  intro i hi _
  rw [length_bytes] at hi
  rw [getElem_bytes, getElem_bytes]
  exact h (off + i) (by omega) (by omega)

theorem write_of_outside (m : Mem) {off i : ℕ} {l : List UInt8}
    (h : i < off ∨ off + l.length ≤ i) : m.write off l i = m i := by
  rw [write, if_neg (by omega)]

theorem write_of_inside (m : Mem) {off i : ℕ} {l : List UInt8} (h : i < l.length) :
    m.write off l (off + i) = l[i] := by
  rw [write, if_pos (by omega), Nat.add_sub_cancel_left, List.getD_eq_getElem _ _ h]

/-- Reading back what was written. -/
@[simp] theorem bytes_write_self (m : Mem) (off : ℕ) (l : List UInt8) :
    (m.write off l).bytes off l.length = l := by
  apply List.ext_getElem (by simp)
  intro i _ h
  rw [getElem_bytes, write_of_inside m h]

@[simp] theorem write_nil (m : Mem) (off : ℕ) : m.write off [] = m := by
  funext i
  rw [write, if_neg (by rw [List.length_nil]; omega)]

/-- A write hides a shorter one at the same place. -/
theorem write_write (m : Mem) (off : ℕ) {a b : List UInt8} (h : a.length ≤ b.length) :
    (m.write off a).write off b = m.write off b := by
  funext i
  by_cases hb : off ≤ i ∧ i < off + b.length
  · rw [write, if_pos hb, write, if_pos hb]
  · rw [write, if_neg hb, write, if_neg (by omega), write, if_neg hb]

/-- A write leaves what an earlier one at the same place stored behind it. -/
theorem write_over (m : Mem) (off : ℕ) (a b : List UInt8) :
    (m.write off a).write off b = m.write off (b ++ a.drop b.length) := by
  funext i
  simp only [write, List.length_append, List.length_drop]
  by_cases hb : off ≤ i ∧ i < off + b.length
  · rw [if_pos hb, if_pos (by omega), List.getD_append _ _ _ _ (by omega)]
  · rw [if_neg hb]
    by_cases ha : off ≤ i ∧ i < off + a.length
    · rw [if_pos ha, if_pos (by omega), List.getD_append_right _ _ _ _ (by omega)]
      have hk : b.length + (i - off - b.length) = i - off := by omega
      rw [List.getD_eq_getElem?_getD, List.getD_eq_getElem?_getD, List.getElem?_drop, hk]
    · rw [if_neg ha, if_neg (by omega)]

/-- Writes that do not meet can change places. -/
theorem write_comm (m : Mem) {o₁ o₂ : ℕ} {a b : List UInt8}
    (h : o₁ + a.length ≤ o₂ ∨ o₂ + b.length ≤ o₁) :
    (m.write o₁ a).write o₂ b = (m.write o₂ b).write o₁ a := by
  funext i
  by_cases ha : o₁ ≤ i ∧ i < o₁ + a.length
  · rw [write_of_outside _ (by omega), write, if_pos ha, write, if_pos ha]
  · rw [write, write, if_neg ha, write, if_neg ha, write]

/-- A write behind a write is one write. -/
theorem write_append (m : Mem) {off o : ℕ} (a b : List UInt8) (h : off + a.length = o) :
    (m.write off a).write o b = m.write off (a ++ b) := by
  subst h
  funext i
  simp only [write, List.length_append]
  by_cases hb : off + a.length ≤ i ∧ i < off + a.length + b.length
  · rw [if_pos hb, if_pos (by omega), List.getD_append_right _ _ _ _ (by omega), Nat.sub_sub]
  · rw [if_neg hb]
    by_cases ha : off ≤ i ∧ i < off + a.length
    · rw [if_pos ha, if_pos (by omega), List.getD_append _ _ _ _ (by omega)]
    · rw [if_neg ha, if_neg (by omega)]

/-- A write in front of a write is one write. -/
theorem write_prepend (m : Mem) {off o : ℕ} (a b : List UInt8) (h : off + a.length = o) :
    (m.write o b).write off a = m.write off (a ++ b) := by
  rw [write_comm m (Or.inr (by omega)), write_append m a b h]

/-- A write does not change a range it does not meet. -/
theorem bytes_write_of_disjoint (m : Mem) {off o n : ℕ} {l : List UInt8}
    (h : o + n ≤ off ∨ off + l.length ≤ o) : (m.write off l).bytes o n = m.bytes o n :=
  bytes_congr fun i h1 h2 => write_of_outside m (by omega)

/-- A range inside a write is the matching part of what was written. -/
theorem bytes_write_inside (m : Mem) {off k n : ℕ} {l : List UInt8} (h : k + n ≤ l.length) :
    (m.write off l).bytes (off + k) n = (l.drop k).take n := by
  apply List.ext_getElem
  · simp; omega
  intro i h1 h2
  rw [length_bytes] at h1
  rw [getElem_bytes, List.getElem_take, List.getElem_drop, Nat.add_assoc,
    write_of_inside m (show k + i < l.length by omega)]

/-- A range from the start of a write on runs on behind it. -/
theorem bytes_write_front (m : Mem) (off n : ℕ) (l : List UInt8) :
    (m.write off l).bytes off n
      = l.take n ++ m.bytes (off + (l.take n).length) (n - (l.take n).length) := by
  have hn : n = (l.take n).length + (n - (l.take n).length) := by
    rw [List.length_take]
    omega
  conv_lhs => rw [hn, bytes_add]
  congr 1
  · have h := @bytes_write_inside m off 0 (l.take n).length l (by simp)
    rw [Nat.add_zero, List.drop_zero] at h
    rw [h, List.length_take]
    simp
  · refine bytes_congr fun i h1 h2 => write_of_outside m ?_
    rw [List.length_take] at h1 h2
    omega

end Mem
