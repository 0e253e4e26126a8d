import FwBootloader.Lib.Nor

/-!
## Updating an image block by block

A `BlockImage` is an image cut into blocks of one size that lie one behind another in the flash.
The update replaces the blocks whose checksum differs from what the flash has, for an arbitrary
checksum: block 0 is erased before anything else is touched (`emptied`), each outdated block is
erased and programmed (`program_emptied`), and block 0 is programmed last (`program_emptied_zero`),
which gives `updated`.

Where block 0 is programmed in pieces, from its head on, `cut` is the flash in between
(`program_emptied_take`): `cut_eq_updated_iff`, `cut_eq_iff` and `cut_erased_iff` say when it cannot
be told from the flash after the update, before it, or with no head.

`updated` has the image's block where it was rewritten (`read_updated_of_mem`) and the old content
elsewhere (`read_updated_of_not_mem`, `updated_of_outside`), and its checksums are those of the
image (`readChecksums_updated`), whether or not equal checksums mean equal blocks.
-/

open Flash

/-- An image in blocks, laid out from `base` on within the address space. -/
structure BlockImage where
  base : UInt32
  size : ℕ
  count : ℕ
  block : ℕ → List UInt8
  length_block : ∀ i < count, (block i).length = size
  count_pos : 0 < count
  fits : count * size ≤ 2 ^ 32

namespace BlockImage

variable (im : BlockImage)

/-- Where block `i` lies. -/
def addr (i : ℕ) : UInt32 :=
  im.base + UInt32.ofNat (i * im.size)

/-- The flash after the blocks in `l` have been replaced. -/
def rewrite (m : Flash) (l : List ℕ) : Flash :=
  l.foldl (fun m i => m.store (im.addr i) (im.block i)) m

/-- The flash after block 0 has been erased and the blocks in `l` have been replaced. -/
def emptied (m : Flash) (l : List ℕ) : Flash :=
  (im.rewrite m l).erase (im.addr 0) im.size

/-- The address is in one of the blocks. -/
def Covers (x : UInt32) : Prop :=
  ∃ i < im.count, Within (im.addr i) im.size x

@[simp] theorem addr_zero : im.addr 0 = im.base := by
  rw [addr, Nat.zero_mul]
  exact UInt32.add_zero im.base

theorem size_le : im.size ≤ 2 ^ 32 :=
  Nat.le_trans (Nat.le_mul_of_pos_left _ im.count_pos) im.fits

/-- Different blocks are apart. -/
theorem apart {i j : ℕ} (hi : i < im.count) (hj : j < im.count) (hij : i ≠ j) :
    Apart (im.addr i) im.size (im.addr j) im.size := by
  have hend {k : ℕ} (hk : k < im.count) : k * im.size + im.size ≤ 2 ^ 32 := by
    have h := Nat.mul_le_mul_right im.size (Nat.succ_le_of_lt hk)
    rw [Nat.succ_mul] at h
    exact Nat.le_trans h im.fits
  have hle {k l : ℕ} (hkl : k < l) : k * im.size + im.size ≤ l * im.size := by
    have h := Nat.mul_le_mul_right im.size (Nat.succ_le_of_lt hkl)
    rwa [Nat.succ_mul] at h
  rcases Nat.lt_or_gt_of_ne hij with h | h
  · exact apart_of_le im.base (hle h) (hend hj)
  · exact (apart_of_le im.base (hle h) (hend hi)).symm

/-- The blocks cover the image's range. -/
theorem covers_iff {x : UInt32} : im.Covers x ↔ Within im.base (im.count * im.size) x := by
  have hfits := im.fits
  have hbound {i : ℕ} (hi : i < im.count) : i * im.size + im.size ≤ im.count * im.size := by
    have h := Nat.mul_le_mul_right im.size (Nat.succ_le_of_lt hi)
    rwa [Nat.succ_mul] at h
  have hxlt := x.toNat_lt
  have hblt := im.base.toNat_lt
  constructor
  · rintro ⟨i, hi, hx⟩
    have h := hbound hi
    have hpos : 0 < im.size := Nat.lt_of_le_of_lt (Nat.zero_le _) hx
    have hoff : (UInt32.ofNat (i * im.size)).toNat = i * im.size :=
      UInt32.toNat_ofNat_of_lt' (show _ < 2 ^ 32 by omega)
    rw [addr, Within, UInt32.toNat_sub, UInt32.toNat_add, hoff] at hx
    rw [Within, UInt32.toNat_sub]
    omega
  · intro hx
    have hpos : 0 < im.size := by
      rcases Nat.eq_zero_or_pos im.size with h0 | hpos
      · rw [h0, Nat.mul_zero] at hx
        exact absurd hx (Nat.not_lt_zero _)
      · exact hpos
    -- the block is the quotient of the offset
    have hi : (x - im.base).toNat / im.size < im.count :=
      (Nat.div_lt_iff_lt_mul hpos).mpr hx
    have hmod := Nat.mod_lt (x - im.base).toNat hpos
    have hdiv := Nat.div_add_mod (x - im.base).toNat im.size
    rw [Nat.mul_comm] at hdiv
    have h := hbound hi
    refine ⟨_, hi, ?_⟩
    have hoff : (UInt32.ofNat ((x - im.base).toNat / im.size * im.size)).toNat
        = (x - im.base).toNat / im.size * im.size :=
      UInt32.toNat_ofNat_of_lt' (show _ < 2 ^ 32 by omega)
    rw [UInt32.toNat_sub] at hdiv hmod h hoff
    rw [addr, Within, UInt32.toNat_sub, UInt32.toNat_add, UInt32.toNat_sub, hoff]
    omega

/-! ### Rewriting -/

variable (m : Flash)

theorem rewrite_append (l₁ l₂ : List ℕ) :
    im.rewrite m (l₁ ++ l₂) = im.rewrite (im.rewrite m l₁) l₂ :=
  List.foldl_append

theorem rewrite_concat (l : List ℕ) (i : ℕ) :
    im.rewrite m (l ++ [i]) = (im.rewrite m l).store (im.addr i) (im.block i) :=
  im.rewrite_append m l [i]

/-- A byte that no block covers is left alone. -/
theorem rewrite_of_outside {l : List ℕ} (hl : ∀ i ∈ l, i < im.count) {x : UInt32}
    (hx : ¬ im.Covers x) : im.rewrite m l x = m x := by
  induction l generalizing m with
  | nil => rfl
  | cons i l ih =>
    obtain ⟨hi, hl⟩ := List.forall_mem_cons.mp hl
    have hout : ¬ Within (im.addr i) (im.block i).length x := by
      rw [im.length_block i hi]
      exact fun h => hx ⟨i, hi, h⟩
    exact (ih _ hl).trans (store_of_not_within m hout)

/-- A block that is not rewritten keeps its bytes. -/
theorem read_rewrite_of_not_mem {l : List ℕ} (hl : ∀ i ∈ l, i < im.count) {i : ℕ}
    (hi : i < im.count) (hil : i ∉ l) :
    (im.rewrite m l).read (im.addr i) im.size = m.read (im.addr i) im.size := by
  induction l generalizing m with
  | nil => rfl
  | cons j l ih =>
    obtain ⟨hj, hl⟩ := List.forall_mem_cons.mp hl
    obtain ⟨hij, hil⟩ := List.ne_and_not_mem_of_not_mem_cons hil
    have hapart : Apart (im.addr i) im.size (im.addr j) (im.block j).length := by
      rw [im.length_block j hj]
      exact im.apart hi hj hij
    exact (ih _ hl hil).trans (read_store_of_apart m im.size_le hapart)

/-- A block that is rewritten has the image's bytes. -/
theorem read_rewrite_of_mem {l : List ℕ} (hl : ∀ i ∈ l, i < im.count) {i : ℕ} (hil : i ∈ l) :
    (im.rewrite m l).read (im.addr i) im.size = im.block i := by
  have hi := hl i hil
  induction l generalizing m with
  | nil => exact absurd hil List.not_mem_nil
  | cons j l ih =>
    by_cases hmem : i ∈ l
    · exact ih _ (List.forall_mem_cons.mp hl).2 hmem
    · obtain rfl : i = j := (List.mem_cons.mp hil).resolve_right hmem
      have hread := read_store m (a := im.addr i) (l := im.block i)
        (by rw [im.length_block i hi]; exact im.size_le)
      rw [im.length_block i hi] at hread
      exact (im.read_rewrite_of_not_mem _ (List.forall_mem_cons.mp hl).2 hi hmem).trans hread

/-! ### With block 0 erased -/

theorem erased_emptied (l : List ℕ) : Erased (im.emptied m l) im.base im.size := by
  rw [← im.addr_zero]
  exact erased_erase _ _ _

/-- Erasing block 0 is the first step. -/
theorem emptied_nil : im.emptied m [] = m.erase im.base im.size := by
  rw [emptied, addr_zero]
  rfl

/-- Erasing and programming another block keeps block 0 erased. -/
theorem program_emptied (l : List ℕ) {i : ℕ} (hi : i < im.count) (h0 : i ≠ 0) :
    ((im.emptied m l).erase (im.addr i) im.size).program (im.addr i) (im.block i)
      = im.emptied m (l ++ [i]) := by
  have hlen := im.length_block i hi
  have hapart : Apart (im.addr i) (im.block i).length (im.addr 0) im.size := by
    rw [hlen]
    exact im.apart hi im.count_pos h0
  rw [program_erase _ _ hlen, emptied, store_erase_comm _ hapart, emptied, rewrite_concat]

/-- Programming block 0 is the last step. -/
theorem program_emptied_zero (l : List ℕ) :
    (im.emptied m l).program im.base (im.block 0) = im.rewrite m (l ++ [0]) := by
  rw [emptied, addr_zero, program_erase _ _ (im.length_block 0 im.count_pos), rewrite_concat,
    addr_zero]

/-! ### The differential update -/

section Checksum

variable {κ : Type} (crc : List UInt8 → κ)

/-- The image's checksums. -/
def checksums : List κ :=
  (List.range im.count).map fun i => crc (im.block i)

/-- The checksums of what the flash has in place of the blocks. -/
def readChecksums : List κ :=
  (List.range im.count).map fun i => crc (m.read (im.addr i) im.size)

/-- The checksum of the flash differs from the image's at block `i`. -/
def Differs (i : ℕ) : Prop :=
  crc (im.block i) ≠ crc (m.read (im.addr i) im.size)

theorem checksums_eq_iff :
    im.checksums crc = im.readChecksums m crc ↔ ∀ i < im.count, ¬ im.Differs m crc i := by
  rw [checksums, readChecksums, List.map_inj_left]
  exact forall_congr' fun i => imp_congr List.mem_range not_not.symm

variable [DecidableEq κ]

instance (i : ℕ) : Decidable (im.Differs m crc i) :=
  inferInstanceAs (Decidable (_ ≠ _))

/-- The blocks from 1 to `k` that have to be replaced. -/
def outdated (k : ℕ) : List ℕ :=
  (List.range' 1 k).filter fun i => im.Differs m crc i

/-- The flash after the update. -/
def updated : Flash :=
  im.rewrite m (im.outdated m crc (im.count - 1) ++ [0])

theorem mem_outdated {k i : ℕ} :
    i ∈ im.outdated m crc k ↔ (1 ≤ i ∧ i ≤ k) ∧ im.Differs m crc i := by
  rw [outdated, List.mem_filter, List.mem_range'_1, decide_eq_true_eq]
  exact and_congr_left fun _ => by omega

theorem outdated_succ_of_differs {k : ℕ} (h : im.Differs m crc (k + 1)) :
    im.outdated m crc (k + 1) = im.outdated m crc k ++ [k + 1] := by
  rw [outdated, List.range'_concat, List.filter_append, Nat.one_mul, Nat.add_comm 1 k,
    List.filter_singleton, decide_eq_true h]
  rfl

theorem outdated_succ_of_not_differs {k : ℕ} (h : ¬ im.Differs m crc (k + 1)) :
    im.outdated m crc (k + 1) = im.outdated m crc k := by
  rw [outdated, List.range'_concat, List.filter_append, Nat.one_mul, Nat.add_comm 1 k,
    List.filter_singleton, decide_eq_false h]
  exact List.append_nil _

/-- The blocks that the update replaces. -/
theorem mem_replaced {i : ℕ} :
    i ∈ im.outdated m crc (im.count - 1) ++ [0] ↔
      i = 0 ∨ (i < im.count ∧ im.Differs m crc i ∧ i ≠ 0) := by
  have hpos := im.count_pos
  rw [List.mem_append, List.mem_singleton, mem_outdated]
  constructor
  · rintro (⟨hi, hd⟩ | rfl)
    · exact Or.inr ⟨by omega, hd, by omega⟩
    · exact Or.inl rfl
  · rintro (rfl | ⟨hi, hd, h0⟩)
    · exact Or.inr rfl
    · exact Or.inl ⟨by omega, hd⟩

theorem replaced_lt : ∀ i ∈ im.outdated m crc (im.count - 1) ++ [0], i < im.count := by
  intro i hi
  rcases (im.mem_replaced m crc).mp hi with rfl | h
  · exact im.count_pos
  · exact h.1

/-- Block 0 and every block whose checksum differed have the image's bytes. -/
theorem read_updated_of_mem {i : ℕ} (hi : i < im.count) (h : i = 0 ∨ im.Differs m crc i) :
    (im.updated m crc).read (im.addr i) im.size = im.block i := by
  refine im.read_rewrite_of_mem m (im.replaced_lt m crc) ((im.mem_replaced m crc).mpr ?_)
  by_cases h0 : i = 0
  · exact Or.inl h0
  · exact Or.inr ⟨hi, h.resolve_left h0, h0⟩

/-- Every other block keeps its bytes. -/
theorem read_updated_of_not_mem {i : ℕ} (hi : i < im.count) (h0 : i ≠ 0)
    (h : ¬ im.Differs m crc i) :
    (im.updated m crc).read (im.addr i) im.size = m.read (im.addr i) im.size := by
  refine im.read_rewrite_of_not_mem m (im.replaced_lt m crc) hi fun hmem => ?_
  rcases (im.mem_replaced m crc).mp hmem with rfl | ⟨-, hd, -⟩
  · exact h0 rfl
  · exact h hd

theorem updated_of_outside {x : UInt32} (hx : ¬ im.Covers x) : im.updated m crc x = m x :=
  im.rewrite_of_outside m (im.replaced_lt m crc) hx

/-- **The update leaves the image's checksums.** -/
theorem readChecksums_updated : im.readChecksums (im.updated m crc) crc = im.checksums crc := by
  refine List.map_congr_left fun i hi => ?_
  have hi := List.mem_range.mp hi
  by_cases h : i = 0 ∨ im.Differs m crc i
  · rw [im.read_updated_of_mem m crc hi h]
  · rw [not_or] at h
    rw [im.read_updated_of_not_mem m crc hi h.1 h.2]
    exact (not_not.mp h.2).symm

/-! ### Block 0 in pieces -/

omit [DecidableEq κ]

/-- Block 0 with only its first `k` bytes programmed. -/
def cutBlock (k : ℕ) : List UInt8 :=
  (im.block 0).take k ++ List.replicate (im.size - k) 0xFF

/-- The flash after the blocks in `l` have been replaced and the first `k` bytes of block 0 have
been programmed. -/
def cut (l : List ℕ) (k : ℕ) : Flash :=
  (im.rewrite m l).store im.base (im.cutBlock k)

theorem length_cutBlock {k : ℕ} (hk : k ≤ im.size) : (im.cutBlock k).length = im.size := by
  have hlen := im.length_block 0 im.count_pos
  unfold cutBlock
  rw [List.length_append, List.length_take, List.length_replicate]
  omega

theorem program_emptied_take (l : List ℕ) {k : ℕ} (hk : k ≤ im.size) :
    (im.emptied m l).program im.base ((im.block 0).take k) = im.cut m l k := by
  have hlen := im.length_block 0 im.count_pos
  have htake : ((im.block 0).take k).length = k := by
    rw [List.length_take]
    omega
  have hsize := im.size_le
  have happend := @program_append (im.emptied m l) im.base ((im.block 0).take k)
    (List.replicate (im.size - k) 0xFF) (by rw [List.length_replicate]; omega)
  rw [program_blank] at happend
  rw [happend, emptied, addr_zero]
  exact program_erase _ _ (im.length_cutBlock hk)

theorem read_cut (l : List ℕ) {k : ℕ} (hk : k ≤ im.size) :
    (im.cut m l k).read im.base im.size = im.cutBlock k := by
  have hlen := im.length_cutBlock hk
  have hread := @read_store (im.rewrite m l) im.base (im.cutBlock k)
    (by rw [hlen]; exact im.size_le)
  rwa [hlen] at hread

/-- The rest of block 0 would not change anything. -/
theorem cut_eq_rewrite_iff (l : List ℕ) {k : ℕ} (hk : k ≤ im.size) :
    im.cut m l k = im.rewrite m (l ++ [0]) ↔ ∀ b ∈ (im.block 0).drop k, b = 0xFF := by
  have hlen := im.length_block 0 im.count_pos
  have hdrop : ((im.block 0).drop k).length = im.size - k := by
    rw [List.length_drop, hlen]
  have hblank : (∀ b ∈ (im.block 0).drop k, b = 0xFF) ↔
      (im.block 0).drop k = List.replicate (im.size - k) 0xFF := by
    rw [List.eq_replicate_iff, hdrop]
    exact (and_iff_right rfl).symm
  rw [hblank, rewrite_concat, addr_zero]
  constructor
  · intro h
    have hread := im.read_cut m l hk
    have hblock := @read_store (im.rewrite m l) im.base (im.block 0) (by
      rw [hlen]
      exact im.size_le)
    rw [hlen] at hblock
    rw [h, hblock] at hread
    have hrest := congrArg (List.drop k) hread
    rw [cutBlock, List.drop_left' (by rw [List.length_take]; omega)] at hrest
    exact hrest
  · intro h
    unfold cut cutBlock
    rw [← h, List.take_append_drop]

/-- The flash is as it was. -/
theorem cut_eq_iff [DecidableEq κ] {k : ℕ} (hk : k ≤ im.size) :
    im.cut m (im.outdated m crc (im.count - 1)) k = m ↔
      (∀ i < im.count, i ≠ 0 → ¬ im.Differs m crc i) ∧ m.read im.base im.size = im.cutBlock k := by
  set l := im.outdated m crc (im.count - 1) with hl
  have hmem (i : ℕ) : i ∈ l ↔ (1 ≤ i ∧ i ≤ im.count - 1) ∧ im.Differs m crc i :=
    im.mem_outdated m crc
  have hlt : ∀ i ∈ l, i < im.count := by
    intro i hi
    have h := ((hmem i).mp hi).1
    have hpos := im.count_pos
    omega
  constructor
  · intro h
    have hread := im.read_cut m l hk
    rw [h] at hread
    refine ⟨fun i hi h0 hdiff => hdiff ?_, hread⟩
    -- an outdated block has been replaced
    have hil : i ∈ l := (hmem i).mpr ⟨by omega, hdiff⟩
    have hapart : Apart (im.addr i) im.size im.base (im.cutBlock k).length := by
      rw [im.length_cutBlock hk, ← im.addr_zero]
      exact im.apart hi im.count_pos h0
    have hkeep := @read_store_of_apart (im.rewrite m l) im.base (im.addr i) (im.cutBlock k) im.size
      im.size_le hapart
    rw [im.read_rewrite_of_mem m hlt hil] at hkeep
    have hcut : (im.rewrite m l).store im.base (im.cutBlock k) = m := h
    rw [hcut] at hkeep
    rw [hkeep]
  · rintro ⟨hsame, hread⟩
    have hnil : l = [] := by
      refine List.eq_nil_iff_forall_not_mem.mpr fun i hi => ?_
      obtain ⟨h1, hdiff⟩ := (hmem i).mp hi
      exact hsame i (hlt i hi) (by omega) hdiff
    unfold cut
    rw [hnil]
    refine store_of_read_eq m ?_
    rw [im.length_cutBlock hk]
    exact hread

/-- The head of block 0, once programmed, looks erased only if it is blank itself. -/
theorem cut_erased_iff (l : List ℕ) {n k : ℕ} (hn : n ≤ k) (hk : k ≤ im.size) :
    (im.cut m l k).Erased im.base n ↔ ∀ b ∈ (im.block 0).take n, b = 0xFF := by
  have hsize := im.size_le
  have hlen := im.length_block 0 im.count_pos
  have hread : (im.cut m l k).read im.base n = (im.block 0).take n := by
    rw [← take_read _ im.base (show n ≤ im.size by omega), im.read_cut m l hk, cutBlock,
      List.take_append_of_le_length (by rw [List.length_take]; omega), List.take_take,
      Nat.min_eq_left hn]
  rw [erased_iff_read _ (by omega), hread]

end Checksum

end BlockImage
