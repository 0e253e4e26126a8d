import Mathlib.Algebra.Group.Nat.Defs
import Mathlib.Data.List.Basic
import Mathlib.Data.List.GetD
import Mathlib.Tactic.SplitIfs

/-!
## NOR flash

A `Flash` is an array of bytes indexed by 32-bit addresses, and the addresses of a range wrap as the
address arithmetic does.  Erasing a range sets its bytes to `0xFF`; programming clears bits, so it
leaves the bitwise and of what was there and what is written.  `program_erase` is the reason for
erasing first: over an erased range programming stores the bytes.  `program_append` joins pieces
that are programmed one behind the other.  No operation touches a byte outside its range;
`apart_iff` says when two ranges have none in common.
-/

/-- A flash array, indexed by a 32-bit address. -/
abbrev Flash : Type := UInt32 → UInt8

namespace Flash

/-- The address is one of the `n` from `a` on. -/
def Within (a : UInt32) (n : ℕ) (x : UInt32) : Prop :=
  (x - a).toNat < n

instance (a : UInt32) (n : ℕ) (x : UInt32) : Decidable (Within a n x) :=
  inferInstanceAs (Decidable (_ < _))

/-- The `n` bytes from `a` on. -/
def read (m : Flash) (a : UInt32) (n : ℕ) : List UInt8 :=
  (List.range n).map fun k => m (a + UInt32.ofNat k)

/-- The flash with the bytes `l` from `a` on. -/
def store (m : Flash) (a : UInt32) (l : List UInt8) : Flash := fun x =>
  if Within a l.length x then l.getD (x - a).toNat 0 else m x

/-- The `n` bytes from `a` on become `0xFF`. -/
def erase (m : Flash) (a : UInt32) (n : ℕ) : Flash := fun x =>
  if Within a n x then 0xFF else m x

/-- The bytes from `a` on become their bitwise and with `l`. -/
def program (m : Flash) (a : UInt32) (l : List UInt8) : Flash := fun x =>
  if Within a l.length x then m x &&& l.getD (x - a).toNat 0 else m x

/-- The `n` bytes from `a` on are all `0xFF`. -/
def Erased (m : Flash) (a : UInt32) (n : ℕ) : Prop :=
  ∀ x, Within a n x → m x = 0xFF

/-- No address is in both ranges. -/
def Apart (a : UInt32) (n : ℕ) (b : UInt32) (k : ℕ) : Prop :=
  ∀ x, Within a n x → ¬ Within b k x

theorem Within.mono {a : UInt32} {n k : ℕ} {x : UInt32} (h : Within a n x) (hnk : n ≤ k) :
    Within a k x :=
  Nat.lt_of_lt_of_le h hnk

theorem Apart.symm {a b : UInt32} {n k : ℕ} (h : Apart a n b k) : Apart b k a n :=
  fun x hb ha => h x ha hb

/-! ### Ranges -/

theorem toNat_ofNat_add_sub {k : ℕ} (a : UInt32) (h : k < 2 ^ 32) :
    (a + UInt32.ofNat k - a).toNat = k := by
  rw [UInt32.add_comm, UInt32.add_sub_cancel]
  exact UInt32.toNat_ofNat_of_lt' h

theorem within_add {a : UInt32} {n k : ℕ} (hk : k < n) (h : k < 2 ^ 32) :
    Within a n (a + UInt32.ofNat k) := by
  rw [Within, toNat_ofNat_add_sub a h]
  exact hk

/-- An address in a range is the start plus an offset. -/
theorem Within.eq_add {a x : UInt32} : x = a + UInt32.ofNat (x - a).toNat := by
  rw [UInt32.ofNat_toNat, UInt32.add_comm, UInt32.sub_add_cancel]

/-- An address in a piece of a range that does not wrap. -/
theorem Within.bounds {a x : UInt32} {i n l : ℕ} (h : Within (a + UInt32.ofNat i) n x)
    (hi : i + n ≤ l) (hl : a.toNat + l ≤ 2 ^ 32) : a.toNat ≤ x.toNat ∧ x.toNat < a.toNat + l := by
  have hn : 0 < n := Nat.lt_of_le_of_lt (Nat.zero_le _) h
  have hi' : (UInt32.ofNat i).toNat = i := UInt32.toNat_ofNat_of_lt' (show i < 2 ^ 32 by omega)
  have hxlt := x.toNat_lt
  rw [Within, UInt32.toNat_sub, UInt32.toNat_add, hi'] at h
  omega

/-- An address in a piece of a range is in the range, which may wrap. -/
theorem Within.widen {a x : UInt32} {i n l : ℕ} (h : Within (a + UInt32.ofNat i) n x)
    (hi : i + n ≤ l) (hl : l ≤ 2 ^ 32) : Within a l x := by
  have hn : 0 < n := Nat.lt_of_le_of_lt (Nat.zero_le _) h
  have hi' : (UInt32.ofNat i).toNat = i := UInt32.toNat_ofNat_of_lt' (show i < 2 ^ 32 by omega)
  have hxlt := x.toNat_lt
  have halt := a.toNat_lt
  rw [Within, UInt32.toNat_sub, UInt32.toNat_add, hi'] at h
  rw [Within, UInt32.toNat_sub]
  omega

/-- Two ranges at offsets `i` and `j` from `a` are apart when `j` is behind the first and both end
within the address space. -/
theorem apart_of_le (a : UInt32) {i n j k : ℕ} (h : i + n ≤ j) (hj : j + k ≤ 2 ^ 32) :
    Apart (a + UInt32.ofNat i) n (a + UInt32.ofNat j) k := by
  intro x hx hx'
  rcases Nat.eq_zero_or_pos k with rfl | hk
  · exact absurd hx' (Nat.not_lt_zero _)
  rcases Nat.eq_zero_or_pos n with rfl | hn
  · exact absurd hx (Nat.not_lt_zero _)
  have hi : (UInt32.ofNat i).toNat = i := UInt32.toNat_ofNat_of_lt' (show i < 2 ^ 32 by omega)
  have hjn : (UInt32.ofNat j).toNat = j := UInt32.toNat_ofNat_of_lt' (show j < 2 ^ 32 by omega)
  have hxlt := x.toNat_lt
  have halt := a.toNat_lt
  rw [Within, UInt32.toNat_sub, UInt32.toNat_add, hi] at hx
  rw [Within, UInt32.toNat_sub, UInt32.toNat_add, hjn] at hx'
  omega

/-- The addresses of a range that does not wrap. -/
theorem within_iff {a x : UInt32} {n : ℕ} (h : a.toNat + n ≤ 2 ^ 32) :
    Within a n x ↔ a.toNat ≤ x.toNat ∧ x.toNat < a.toNat + n := by
  have hxlt := x.toNat_lt
  have halt := a.toNat_lt
  rw [Within, UInt32.toNat_sub]
  omega

/-- Ranges that do not wrap are apart when one ends before the other starts. -/
theorem apart_iff {a b : UInt32} {n k : ℕ} (ha : a.toNat + n ≤ 2 ^ 32) (hb : b.toNat + k ≤ 2 ^ 32)
    (hn : 0 < n) (hk : 0 < k) :
    Apart a n b k ↔ a.toNat + n ≤ b.toNat ∨ b.toNat + k ≤ a.toNat := by
  constructor
  · intro h
    by_contra hmeet
    rw [not_or] at hmeet
    -- the later start is in both
    rcases Nat.le_total a.toNat b.toNat with hle | hle
    · exact h b ((within_iff ha).mpr (by omega)) ((within_iff hb).mpr (by omega))
    · exact h a ((within_iff ha).mpr (by omega)) ((within_iff hb).mpr (by omega))
  · intro h x hx hx'
    rw [within_iff ha] at hx
    rw [within_iff hb] at hx'
    omega

@[simp] theorem length_read (m : Flash) (a : UInt32) (n : ℕ) : (m.read a n).length = n := by
  simp [read]

@[simp] theorem getElem_read (m : Flash) (a : UInt32) (n i : ℕ) (h : i < (m.read a n).length) :
    (m.read a n)[i] = m (a + UInt32.ofNat i) := by
  simp [read]

/-- Flashes that agree on a range have the same bytes there. -/
theorem read_congr {m m' : Flash} {a : UInt32} {n : ℕ} (hn : n ≤ 2 ^ 32)
    (h : ∀ x, Within a n x → m x = m' x) : m.read a n = m'.read a n := by
  apply List.ext_getElem (by simp)
  intro i hi _
  rw [length_read] at hi
  rw [getElem_read, getElem_read]
  exact h _ (within_add hi (by omega))

/-- Flashes with the same bytes in a range agree on it. -/
theorem eq_of_read_eq {m m' : Flash} {a x : UInt32} {n : ℕ} (h : m.read a n = m'.read a n)
    (hx : Within a n x) : m x = m' x := by
  have hget (f : Flash) : (f.read a n).getD (x - a).toNat 0 = f x := by
    have hlen : (x - a).toNat < (f.read a n).length := by
      rw [length_read]
      exact hx
    rw [List.getD_eq_getElem _ _ hlen, getElem_read, ← Within.eq_add]
  rw [← hget m, h, hget]

/-! ### One operation -/

variable (m : Flash)

theorem store_of_not_within {a x : UInt32} {l : List UInt8} (h : ¬ Within a l.length x) :
    m.store a l x = m x :=
  if_neg h

theorem erase_of_not_within {a x : UInt32} {n : ℕ} (h : ¬ Within a n x) : m.erase a n x = m x :=
  if_neg h

theorem program_of_not_within {a x : UInt32} {l : List UInt8} (h : ¬ Within a l.length x) :
    m.program a l x = m x :=
  if_neg h

theorem erased_erase (a : UInt32) (n : ℕ) : Erased (m.erase a n) a n :=
  fun _ hx => if_pos hx

theorem read_store {a : UInt32} {l : List UInt8} (h : l.length ≤ 2 ^ 32) :
    (m.store a l).read a l.length = l := by
  apply List.ext_getElem (by simp)
  intro i _ hi
  rw [getElem_read, store, if_pos (within_add hi (by omega)), toNat_ofNat_add_sub a (by omega),
    List.getD_eq_getElem _ _ hi]

/-- A range that has been copied reads like its source. -/
theorem read_store_read (a b : UInt32) {n : ℕ} (hn : n ≤ 2 ^ 32) :
    (m.store a (m.read b n)).read a n = m.read b n := by
  have hlen := length_read m b n
  have h := @read_store m a (m.read b n) (by omega)
  rwa [hlen] at h

theorem read_store_of_apart {a b : UInt32} {l : List UInt8} {n : ℕ} (hn : n ≤ 2 ^ 32)
    (h : Apart b n a l.length) : (m.store a l).read b n = m.read b n :=
  read_congr hn fun x hx => store_of_not_within m (h x hx)

theorem read_erase_of_apart {a b : UInt32} {n k : ℕ} (hn : n ≤ 2 ^ 32) (h : Apart b n a k) :
    (m.erase a k).read b n = m.read b n :=
  read_congr hn fun x hx => erase_of_not_within m (h x hx)

theorem read_program_of_apart {a b : UInt32} {l : List UInt8} {n : ℕ} (hn : n ≤ 2 ^ 32)
    (h : Apart b n a l.length) : (m.program a l).read b n = m.read b n :=
  read_congr hn fun x hx => program_of_not_within m (h x hx)

/-- What still has zeros in a range has been erased apart from it. -/
theorem apart_of_read_erase {m : Flash} {a b : UInt32} {n k : ℕ}
    (h : (m.erase b k).read a n = Flash.read (fun _ => 0) a n) : Apart a n b k := by
  intro x hx hb
  have hzero := eq_of_read_eq h hx
  rw [erase, if_pos hb] at hzero
  cases hzero

/-- An erased range stays so when another one is erased. -/
theorem Erased.erase {m : Flash} {a : UInt32} {n : ℕ} (h : Erased m a n) (b : UInt32) (k : ℕ) :
    Erased (m.erase b k) a n := by
  intro x hx
  by_cases hb : Within b k x
  · exact if_pos hb
  · rw [erase_of_not_within m hb, h x hx]

/-- An erased range stays so when bytes apart from it are programmed. -/
theorem Erased.program {m : Flash} {a b : UInt32} {n : ℕ} {l : List UInt8} (h : Erased m a n)
    (hab : Apart a n b l.length) : Erased (m.program b l) a n := by
  intro x hx
  rw [program_of_not_within m (hab x hx), h x hx]

theorem Erased.mono {m : Flash} {a : UInt32} {n k : ℕ} (h : Erased m a n) (hk : k ≤ n) :
    Erased m a k :=
  fun x hx => h x (hx.mono hk)

theorem take_read (a : UInt32) {k n : ℕ} (hk : k ≤ n) : (m.read a n).take k = m.read a k := by
  rw [read, ← List.map_take, List.take_range, Nat.min_eq_left hk]
  rfl

/-- Two ranges one behind the other are read as one. -/
theorem read_add (a : UInt32) (i j : ℕ) :
    m.read a (i + j) = m.read a i ++ m.read (a + UInt32.ofNat i) j := by
  have hadd (k : ℕ) : a + UInt32.ofNat (i + k) = a + UInt32.ofNat i + UInt32.ofNat k := by
    rw [UInt32.ofNat_add, UInt32.add_assoc]
  unfold read
  rw [List.range_add, List.map_append, List.map_map]
  simp only [Function.comp_def, hadd]

/-- A piece of a range. -/
theorem read_piece (a : UInt32) {i j n : ℕ} (h : i + j ≤ n) :
    ((m.read a n).drop i).take j = m.read (a + UInt32.ofNat i) j := by
  have hn : n = i + (n - i) := by omega
  rw [hn, read_add, List.drop_left' (length_read ..), take_read _ _ (by omega)]

theorem erased_iff_read {a : UInt32} {n : ℕ} (hn : n ≤ 2 ^ 32) :
    Erased m a n ↔ ∀ b ∈ m.read a n, b = 0xFF := by
  constructor
  · intro h b hb
    obtain ⟨k, hk, rfl⟩ := List.mem_map.mp hb
    have hk := List.mem_range.mp hk
    exact h _ (within_add hk (by omega))
  · intro h x hx
    refine h _ (List.mem_map.mpr ⟨(x - a).toNat, List.mem_range.mpr hx, ?_⟩)
    rw [← Within.eq_add]

/-- Storing what is there changes nothing. -/
theorem store_of_read_eq {a : UInt32} {l : List UInt8} (h : m.read a l.length = l) :
    m.store a l = m := by
  funext x
  by_cases hx : Within a l.length x
  · have hx' : (x - a).toNat < (m.read a l.length).length := by
      rw [length_read]
      exact hx
    have hget : l.getD (x - a).toNat 0 = (m.read a l.length).getD (x - a).toNat 0 := by rw [h]
    rw [store, if_pos hx, hget, List.getD_eq_getElem _ _ hx', getElem_read, ← Within.eq_add]
  · exact store_of_not_within m hx

/-- Programming `0xFF` changes nothing. -/
theorem program_blank (a : UInt32) (n : ℕ) : m.program a (List.replicate n 0xFF) = m := by
  funext x
  by_cases hx : Within a (List.replicate n (0xFF : UInt8)).length x
  · have hx' : (x - a).toNat < (List.replicate n (0xFF : UInt8)).length := hx
    rw [program, if_pos hx, List.getD_eq_getElem _ _ hx', List.getElem_replicate]
    exact UInt8.and_neg_one
  · exact program_of_not_within m hx

/-! ### Two operations -/

/-- Programming an erased range stores the bytes, whatever was there. -/
theorem program_erase (a : UInt32) {l : List UInt8} {n : ℕ} (h : l.length = n) :
    (m.erase a n).program a l = m.store a l := by
  subst h
  funext x
  by_cases hx : Within a l.length x
  · rw [program, if_pos hx, erase, if_pos hx, store, if_pos hx]
    exact UInt8.neg_one_and
  · rw [program, if_neg hx, erase, if_neg hx, store, if_neg hx]

/-- Two pieces programmed one behind the other are programmed as one. -/
theorem program_append (a : UInt32) {l₁ l₂ : List UInt8} (h : l₁.length + l₂.length ≤ 2 ^ 32) :
    (m.program a l₁).program (a + UInt32.ofNat l₁.length) l₂ = m.program a (l₁ ++ l₂) := by
  rcases Nat.eq_zero_or_pos l₂.length with h₂ | h₂
  · obtain rfl := List.eq_nil_of_length_eq_zero h₂
    funext x
    rw [program_of_not_within _ (Nat.not_lt_zero _), List.append_nil]
  have hlen : (UInt32.ofNat l₁.length).toNat = l₁.length :=
    UInt32.toNat_ofNat_of_lt' (show l₁.length < 2 ^ 32 by omega)
  funext x
  have hlt := (x - a).toNat_lt
  have hxlt := x.toNat_lt
  have halt := a.toNat_lt
  have hoff : (x - (a + UInt32.ofNat l₁.length)).toNat
      = (2 ^ 32 - l₁.length + (x - a).toNat) % 2 ^ 32 := by
    rw [UInt32.toNat_sub, UInt32.toNat_add, hlen, UInt32.toNat_sub]
    omega
  have happ : (l₁ ++ l₂).length = l₁.length + l₂.length := List.length_append
  by_cases hx₁ : Within a l₁.length x
  · -- the first piece
    have hx₁' : (x - a).toNat < l₁.length := hx₁
    have hnot : ¬ Within (a + UInt32.ofNat l₁.length) l₂.length x := by
      rw [Within, hoff]
      omega
    have hx : Within a (l₁ ++ l₂).length x := hx₁.mono (by omega)
    rw [program_of_not_within _ hnot, program, if_pos hx₁, program, if_pos hx,
      List.getD_append _ _ _ _ hx₁']
  · have hx₁' : ¬ (x - a).toNat < l₁.length := hx₁
    have hback : (x - (a + UInt32.ofNat l₁.length)).toNat = (x - a).toNat - l₁.length := by
      rw [hoff]
      omega
    by_cases hx₂ : Within (a + UInt32.ofNat l₁.length) l₂.length x
    · have hx : Within a (l₁ ++ l₂).length x := by
        rw [Within, hback] at hx₂
        rw [Within, happ]
        omega
      rw [program, if_pos hx₂, program_of_not_within _ hx₁, program, if_pos hx, hback,
        List.getD_append_right _ _ _ _ (by omega)]
    · have hx : ¬ Within a (l₁ ++ l₂).length x := by
        rw [Within, hback] at hx₂
        rw [Within, happ]
        omega
      rw [program_of_not_within _ hx₂, program_of_not_within _ hx₁, program_of_not_within _ hx]

theorem erase_zero (a : UInt32) : m.erase a 0 = m :=
  funext fun _ => erase_of_not_within m (Nat.not_lt_zero _)

theorem program_nil (a : UInt32) : m.program a [] = m :=
  funext fun _ => program_of_not_within m (Nat.not_lt_zero _)

/-- Two ranges erased one behind the other are erased as one. -/
theorem erase_append (a : UInt32) {i j : ℕ} (h : i + j ≤ 2 ^ 32) :
    (m.erase a i).erase (a + UInt32.ofNat i) j = m.erase a (i + j) := by
  funext x
  by_cases hj : Within (a + UInt32.ofNat i) j x
  · rw [erase, if_pos hj, erase, if_pos (hj.widen (Nat.le_refl _) h)]
  rw [erase_of_not_within _ hj]
  by_cases hi : Within a i x
  · rw [erase, if_pos hi, erase, if_pos (hi.mono (Nat.le_add_right i j))]
  have hij : ¬ Within a (i + j) x := by
    intro hx
    have hlt := (x - a).toNat_lt
    have hxlt := x.toNat_lt
    have halt := a.toNat_lt
    have hi' : (UInt32.ofNat i).toNat = i := by
      rw [Within] at hi hx
      exact UInt32.toNat_ofNat_of_lt' (show i < 2 ^ 32 by omega)
    rw [Within, UInt32.toNat_sub] at hi hx
    rw [Within, UInt32.toNat_sub, UInt32.toNat_add, hi'] at hj
    omega
  rw [erase_of_not_within _ hi, erase_of_not_within _ hij]

/-- Programming twice is the same in either order. -/
theorem program_comm (a b : UInt32) (l₁ l₂ : List UInt8) :
    (m.program a l₁).program b l₂ = (m.program b l₂).program a l₁ := by
  funext x
  simp only [program]
  split_ifs
  · rw [UInt8.and_assoc, UInt8.and_assoc, UInt8.and_comm (l₁.getD _ _)]
  · rfl
  · rfl
  · rfl

/-- Operations on ranges that are apart commute. -/
theorem store_erase_comm {a b : UInt32} {l : List UInt8} {n : ℕ} (h : Apart a l.length b n) :
    (m.erase b n).store a l = (m.store a l).erase b n := by
  funext x
  by_cases hx : Within a l.length x
  · rw [store, if_pos hx, erase_of_not_within _ (h x hx), store, if_pos hx]
  · rw [store_of_not_within _ hx]
    by_cases hb : Within b n x
    · rw [erase, if_pos hb, erase, if_pos hb]
    · rw [erase_of_not_within _ hb, erase_of_not_within _ hb, store_of_not_within _ hx]

end Flash
