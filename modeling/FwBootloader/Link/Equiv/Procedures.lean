import FwBootloader.CrcList
import FwBootloader.ZoneDevice

/-!
## The loops that all hosts have, against a flash

A `FlashTriple` is any reading of "the procedure gives `v` and turns the flash `f` into `f'`" that
`pure` and `>>=` respect.  What the loops do follows from what their one exchange does:
`eraseUnits_does`, `fetchBatches_does`, `storeBatches_does` and, for the blocks of an image,
`updateBlocks_does`.
-/

namespace FwBootloader

open Bytes

/-- What the procedures of a host do to the flash. -/
structure FlashTriple (m : Type → Type) [Monad m] where
  Does : {α : Type} → m α → α → Flash → Flash → Prop
  pure : ∀ {α : Type} (v : α) (f : Flash), Does (pure v) v f f
  bind : ∀ {α β : Type} {p : m α} {g : α → m β} {v : α} {w : β} {f f' f'' : Flash},
    Does p v f f' → Does (g v) w f' f'' → Does (p >>= g) w f f''

namespace FlashTriple

variable {m : Type → Type} [Monad m] (T : FlashTriple m)

/-- One erase unit is one command. -/
theorem eraseUnits_does {stuck : m Bool} {doEraseFlash : UInt32 → UInt32 → m Bool}
    {address len : UInt32} {f : Flash} (hlen : len = 256 ∨ len = 4096)
    (hdo : T.Does (doEraseFlash address len) true f (f.erase address len.toNat)) (fuel : ℕ) :
    T.Does (eraseUnits stuck doEraseFlash (fuel + 1) address len) true f
      (f.erase address len.toNat) := by
  rcases hlen with rfl | rfl
  · exact hdo
  · have hrest : eraseLoop stuck doEraseFlash fuel (address + 4096) (4096 - 4096)
        = Pure.pure true := by
      cases fuel <;> rfl
    refine T.bind hdo ?_
    show T.Does (eraseLoop stuck doEraseFlash fuel (address + 4096) (4096 - 4096)) _ _ _
    rw [hrest]
    exact T.pure ..

/-! ### Checksums -/

/-- Two runs of blocks, one behind the other. -/
theorem blockCrcs_add (flash : Flash) (address l : UInt32) (k n : ℕ) :
    blockCrcs flash address l (k + n)
      = blockCrcs flash address l k ++ blockCrcs flash (address + UInt32.ofNat k * l) l n := by
  have hadd (i : ℕ) : address + UInt32.ofNat (k + i) * l
      = address + UInt32.ofNat k * l + UInt32.ofNat i * l := by
    rw [UInt32.ofNat_add, UInt32.add_mul, UInt32.add_assoc]
  rw [blockCrcs, List.range_add, List.map_append, List.map_map, blockCrcs, blockCrcs]
  simp only [Function.comp_def, hadd]

/-- The next batch, and the blocks behind it. -/
theorem blockCrcs_readCount (f : Flash) (address unit n : UInt32) :
    blockCrcs f address unit (readCountOf n).toNat
        ++ blockCrcs f (address + readCountOf n * unit) unit (n - readCountOf n).toNat
      = blockCrcs f address unit n.toNat := by
  have hle := UInt32.le_iff_toNat_le.mp (readCountOf_le n)
  have h := blockCrcs_add f address unit (readCountOf n).toNat (n.toNat - (readCountOf n).toNat)
  rw [UInt32.ofNat_toNat, Nat.add_sub_cancel' hle] at h
  rw [toNat_sub_readCountOf, h]

/-- A bound for the next request bounds all of them. -/
theorem readCountOf_bounds {n : UInt32} {most : ℕ} (h : min n.toNat 16 ≤ most) :
    (readCountOf n).toNat ≤ most ∧ min (n - readCountOf n).toNat 16 ≤ most := by
  rw [toNat_sub_readCountOf, toNat_readCountOf]
  omega

/-- **The checksums are fetched in full**, however many requests it takes. -/
theorem fetchBatches_does {fetchBatch : UInt32 → UInt32 → m (Option (List UInt16))}
    {unit : UInt32} {f : Flash} {most : ℕ}
    (hbatch : ∀ address k, k.toNat ≤ most →
      T.Does (fetchBatch address k) (some (blockCrcs f address unit k.toNat)) f f)
    (address n : UInt32) (hmost : min n.toNat 16 ≤ most) :
    T.Does (fetchBatches fetchBatch unit address n) (some (blockCrcs f address unit n.toNat)) f
      f := by
  induction address, n using fetchBatches.induct unit with
  | case1 address =>
    rw [fetchBatches, dif_pos rfl]
    exact T.pure ..
  | case2 address n hn readCount ih =>
    obtain ⟨hfirst, hrest⟩ := readCountOf_bounds hmost
    rw [fetchBatches, dif_neg hn]
    refine T.bind (hbatch address (readCountOf n) hfirst) ?_
    dsimp only
    refine T.bind (ih hrest) ?_
    dsimp only
    rw [blockCrcs_readCount]
    exact T.pure ..

/-- **The checksums are copied one behind the other**, and nothing else is. -/
theorem storeBatches_does {storeBatch : Mem → ℕ → UInt32 → UInt32 → m (Option Mem)}
    {unit : UInt32} {f : Flash} {most : ℕ}
    (hbatch : ∀ mem crcList address k, k.toNat ≤ most →
      T.Does (storeBatch mem crcList address k)
        (some (mem.write crcList (le16s (blockCrcs f address unit k.toNat)))) f f)
    (mem : Mem) (crcList : ℕ) (address n : UInt32) (hmost : min n.toNat 16 ≤ most) :
    T.Does (storeBatches storeBatch unit mem crcList address n)
      (true, mem.write crcList (le16s (blockCrcs f address unit n.toNat))) f f := by
  induction address, n using fetchBatches.induct unit generalizing mem crcList with
  | case1 address =>
    have hnil : le16s (blockCrcs f address unit (0 : UInt32).toNat) = [] := rfl
    rw [storeBatches, dif_pos rfl, hnil, Mem.write_nil]
    exact T.pure ..
  | case2 address n hn readCount ih =>
    obtain ⟨hfirst, hrest⟩ := readCountOf_bounds hmost
    set words := le16s (blockCrcs f address unit (readCountOf n).toNat) with hwords
    have hend : crcList + words.length = crcList + 2 * (readCountOf n).toNat := by simp [hwords]
    -- what the next replies bring stands behind this one's words
    have hnext := ih (mem.write crcList words) (crcList + 2 * (readCountOf n).toNat) hrest
    rw [Mem.write_append _ _ _ hend, hwords, ← le16s_append, blockCrcs_readCount] at hnext
    rw [storeBatches, dif_neg hn]
    refine T.bind (hbatch mem crcList address (readCountOf n) hfirst) ?_
    exact hnext

/-- What the device reads in place of an image. -/
theorem blockCrcs_image (a : AppImage) (f : Flash) :
    blockCrcs f a.app.flashEoffsetSize a.app.eraseUnitSize a.count
      = a.blocks.readChecksums f Crc16.xmodem := by
  refine List.map_congr_left fun i _ => ?_
  rw [a.offset_eq]
  rfl

/-! ### The blocks of an image -/

/-- While block 0 of an image is erased, an erase unit can be erased and its blocks can be
programmed. -/
structure Updates (a : AppImage) (eraseFlash : UInt32 → UInt32 → m Bool)
    (writeFlash : List UInt8 → UInt32 → UInt32 → UInt32 → m Bool) : Prop where
  erase : ∀ address f, f.Erased a.app.flashEoffsetSize a.unit →
    T.Does (eraseFlash address a.app.eraseUnitSize) true f (f.erase address a.unit)
  write : ∀ i < a.count, i ≠ 0 → ∀ f : Flash, f.Erased a.app.flashEoffsetSize a.unit →
    T.Does (writeFlash (a.data.drop (UInt32.ofNat i * a.app.eraseUnitSize).toNat)
      (a.blocks.addr i) a.app.eraseUnitSize a.app.eraseUnitSize) true f
      (f.program (a.blocks.addr i) (a.block i))

variable {T} {a : AppImage} {eraseFlash : UInt32 → UInt32 → m Bool}
  {writeFlash : List UInt8 → UInt32 → UInt32 → UInt32 → m Bool}

/-- **The loop replaces the outdated blocks**, one step a block. -/
theorem Updates.updateBlocks_does (h : T.Updates a eraseFlash writeFlash) (f : Flash) (n k : ℕ)
    (hk : k + n < a.count) :
    T.Does
      (updateBlocks eraseFlash writeFlash a.data (a.blocks.checksums Crc16.xmodem)
        (a.blocks.readChecksums f Crc16.xmodem) a.app.flashEoffsetSize a.app.eraseUnitSize n
        (UInt32.ofNat (k + 1)))
      true (a.blocks.emptied f (a.blocks.outdated f Crc16.xmodem k))
      (a.blocks.emptied f (a.blocks.outdated f Crc16.xmodem (k + n))) := by
  induction n generalizing k with
  | zero => exact T.pure ..
  | succ n ih =>
    have hi : k + 1 < a.count := by omega
    have htoNat : (UInt32.ofNat (k + 1)).toNat = k + 1 := by
      have hlt := a.count_lt
      exact UInt32.toNat_ofNat_of_lt' (show _ < 2 ^ 32 by omega)
    have hnext : UInt32.ofNat (k + 1) + 1 = UInt32.ofNat (k + 1 + 1) :=
      (UInt32.ofNat_add (k + 1) 1).symm
    have hdiffers : a.blocks.Differs f Crc16.xmodem (k + 1) ↔
        (a.blocks.checksums Crc16.xmodem).getD (k + 1) 0
          ≠ (a.blocks.readChecksums f Crc16.xmodem).getD (k + 1) 0 := by
      rw [a.checksums_getD hi, a.readChecksums_getD hi]
      rfl
    have haddr : a.app.flashEoffsetSize + UInt32.ofNat (k + 1) * a.app.eraseUnitSize
        = a.blocks.addr (k + 1) := by
      rw [a.offset_eq]
      rfl
    have hrest := ih (k + 1) (by omega)
    rw [show k + 1 + n = k + (n + 1) by omega] at hrest
    rw [updateBlocks, htoNat, hnext, haddr]
    -- a block that differs is erased and written, and counts as outdated from then on
    by_cases hd : a.blocks.Differs f Crc16.xmodem (k + 1)
    · set l := a.blocks.outdated f Crc16.xmodem k with hl
      have hempty := a.blocks.erased_emptied f l
      have hwrite := h.write (k + 1) hi (Nat.succ_ne_zero k) _
        (hempty.erase (a.blocks.addr (k + 1)) a.unit)
      have hprogram : ((a.blocks.emptied f l).erase (a.blocks.addr (k + 1)) a.unit).program
          (a.blocks.addr (k + 1)) (a.block (k + 1)) = a.blocks.emptied f (l ++ [k + 1]) :=
        a.blocks.program_emptied f l hi (Nat.succ_ne_zero k)
      rw [hprogram] at hwrite
      rw [a.blocks.outdated_succ_of_differs f Crc16.xmodem hd, ← hl] at hrest
      rw [if_pos (hdiffers.mp hd)]
      exact T.bind (h.erase (a.blocks.addr (k + 1)) _ hempty) (T.bind hwrite hrest)
    · rw [a.blocks.outdated_succ_of_not_differs f Crc16.xmodem hd] at hrest
      rw [if_neg fun hne => hd (hdiffers.mpr hne)]
      exact hrest

end FlashTriple

end FwBootloader
