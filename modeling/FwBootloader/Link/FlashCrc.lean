import FwBootloader.Link.Equiv.Device

/-!
## The block size of a request for checksums

`jl_su_flash_crc` counts the blocks with the request's `block_size` but reads and hashes
`flash_alignsize` bytes for each.  `flashCrc_iff`: the reply is the list that the protocol
describes, whatever the flash holds, if and only if the two are the same or no block is asked for.
CRC-16 tells a flash with one byte set from one with none, so the sizes do show.
-/

namespace FwBootloader

open Bytes User DevM

variable {σ : Type} {chip : Chip σ} {view : σ → Flash}

/-- The reply to the current command has `len / block_size` checksums, and they are those of the
blocks of `block_size` bytes from `address` on. -/
def RepliesBlockCrcs (chip : Chip σ) (view : σ → Flash) (d : Device σ) : Prop :=
  ∃ d', jlSuFlashCrc chip d = .ok () d' ∧
    d'.sent = d.sent ++ [replyFrame chip (Answer.flashCrc
      (blockCrcs (view d.fs) (d.cmd32 CommandItem.crcListAddress)
        (d.cmd32 CommandItem.crcListBlockSize) (flashCrcCount d))).payload]

/-- What the handler does reply: blocks of `flash_alignsize` bytes. -/
theorem repliesBlockCrcs_iff (hread : ReadsFlash chip view)
    (hcrc : chip.chipCrc16 = Crc16.xmodem) {d : Device σ}
    (hsize : d.cmd32 CommandItem.crcListBlockSize ≠ 0) (hcount : flashCrcCount d ≤ 28) :
    RepliesBlockCrcs chip view d ↔
      blockCrcs (view d.fs) (d.cmd32 CommandItem.crcListAddress) d.flashAlignsize (flashCrcCount d)
        = blockCrcs (view d.fs) (d.cmd32 CommandItem.crcListAddress)
          (d.cmd32 CommandItem.crcListBlockSize) (flashCrcCount d) := by
  obtain ⟨hpos, hview⟩ := hread.seek d.upgradeFile (d.cmd32 CommandItem.crcListAddress) d.fs
  have hcall : (flashCrcCall chip d).1 = blockCrcs (view d.fs)
      (d.cmd32 CommandItem.crcListAddress) d.flashAlignsize (flashCrcCount d) := by
    rw [flashCrcCall, (readCrcs_eq hread hcrc _ _ _ _ _).1, hpos, hview]
  obtain ⟨d', hrun, hans⟩ := jlSuFlashCrc_answered chip d hsize (by omega)
  have hsent := hans.sent
  rw [hcall] at hsent
  constructor
  · rintro ⟨d'', hrun', hsent'⟩
    cases hrun.symm.trans hrun'
    have hframe := List.singleton_inj.mp (List.append_cancel_left (hsent.symm.trans hsent'))
    have hpayload := replyFrame_inj chip hframe
    have hbytes : le16s _ = le16s _ :=
      (List.cons.inj (List.cons.inj hpayload).2).2
    rw [← ofLe16s_le16s (blockCrcs (view d.fs) _ d.flashAlignsize _), hbytes, ofLe16s_le16s]
  · intro heq
    rw [heq] at hsent
    exact ⟨d', hrun, hsent⟩

/-! ### A flash with one byte set -/

/-- All bytes are zero but the one at offset `k` from `a`. -/
def singleByte (a : UInt32) (k : ℕ) : Flash := fun x =>
  if (x - a).toNat = k then 1 else 0

theorem read_singleByte_before (a : UInt32) {k n : ℕ} (hk : k < 2 ^ 32) (hn : n ≤ k) :
    (singleByte a k).read a n = List.replicate n 0 := by
  apply List.ext_getElem (by simp)
  intro i hi _
  rw [Flash.length_read] at hi
  rw [Flash.getElem_read, List.getElem_replicate, singleByte,
    Flash.toNat_ofNat_add_sub a (by omega), if_neg (by omega)]

theorem read_singleByte_behind (a : UInt32) {k n : ℕ} (hn : n ≤ 2 ^ 32) (hk : k < n) :
    (singleByte a k).read a n
      = List.replicate k 0 ++ 1 :: List.replicate (n - k - 1) 0 := by
  apply List.ext_getElem
  · simp
    omega
  intro i hi _
  rw [Flash.length_read] at hi
  rw [Flash.getElem_read, singleByte, Flash.toNat_ofNat_add_sub a (by omega)]
  rcases Nat.lt_trichotomy i k with hlt | rfl | hgt
  · rw [if_neg (by omega), List.getElem_append_left (by simpa using hlt), List.getElem_replicate]
  · rw [if_pos rfl, List.getElem_append_right (by simp)]
    simp
  · obtain ⟨j, rfl⟩ := Nat.exists_eq_add_of_lt hgt
    rw [if_neg (by omega), List.getElem_append_right (by simp; omega)]
    simp [show k + j + 1 - k = j + 1 by omega]

/-- A byte between two lengths tells their checksums apart. -/
theorem xmodem_singleByte_ne (a : UInt32) {m n : ℕ} (hn : n < 2 ^ 32) (h : m < n) :
    Crc16.xmodem ((singleByte a m).read a m) ≠ Crc16.xmodem ((singleByte a m).read a n) := by
  rw [read_singleByte_before a (by omega) (Nat.le_refl m),
    read_singleByte_behind a (Nat.le_of_lt hn) h]
  have hzeros := Crc16.xmodem_zeros (l := []) rfl m
  rw [List.nil_append] at hzeros
  rw [hzeros]
  exact (Crc16.xmodem_single_ne_zero m (n - m - 1)).symm

/-- For every two sizes there is a flash on which they show. -/
theorem exists_crc_ne (a : UInt32) {l size : UInt32} (h : l ≠ size) :
    ∃ flash : Flash,
      Crc16.xmodem (flash.read a l.toNat) ≠ Crc16.xmodem (flash.read a size.toNat) := by
  rcases Nat.lt_trichotomy l.toNat size.toNat with hlt | heq | hgt
  · exact ⟨singleByte a l.toNat, xmodem_singleByte_ne a size.toNat_lt hlt⟩
  · exact absurd (UInt32.toNat_inj.mp heq) h
  · exact ⟨singleByte a size.toNat, (xmodem_singleByte_ne a l.toNat_lt hgt).symm⟩

/-- **The protocol's list is replied whatever the flash holds** exactly when the block size is the
device's align size, or no block is asked for. -/
theorem flashCrc_iff (hread : ReadsFlash chip view) (hview : Function.Surjective view)
    (hcrc : chip.chipCrc16 = Crc16.xmodem) (d : Device σ)
    (hsize : d.cmd32 CommandItem.crcListBlockSize ≠ 0) (hcount : flashCrcCount d ≤ 28) :
    (∀ fs, RepliesBlockCrcs chip view { d with fs := fs }) ↔
      d.flashAlignsize = d.cmd32 CommandItem.crcListBlockSize ∨ flashCrcCount d = 0 := by
  have hiff (fs : σ) :=
    @repliesBlockCrcs_iff σ chip view hread hcrc { d with fs := fs } hsize hcount
  constructor
  · intro h
    by_contra hnot
    obtain ⟨hne, hpos⟩ := not_or.mp hnot
    obtain ⟨n, hn⟩ := Nat.exists_eq_succ_of_ne_zero hpos
    -- the first block shows the difference
    obtain ⟨flash, hflash⟩ := exists_crc_ne (d.cmd32 CommandItem.crcListAddress) hne
    obtain ⟨fs, rfl⟩ := hview flash
    have heq : blockCrcs (view fs) (d.cmd32 CommandItem.crcListAddress) d.flashAlignsize
        (flashCrcCount d) = blockCrcs (view fs) (d.cmd32 CommandItem.crcListAddress)
          (d.cmd32 CommandItem.crcListBlockSize) (flashCrcCount d) := (hiff fs).mp (h fs)
    rw [hn, blockCrcs_succ, blockCrcs_succ] at heq
    exact hflash (List.cons.inj heq).1
  · rintro (heq | hzero) fs
    · refine (hiff fs).mpr ?_
      show blockCrcs (view fs) _ d.flashAlignsize _ = _
      rw [heq]
      rfl
    · refine (hiff fs).mpr ?_
      show blockCrcs (view fs) _ _ (flashCrcCount d) = blockCrcs (view fs) _ _ (flashCrcCount d)
      rw [hzero]
      rfl

/-! ### A request for pages from a device with sectors -/

/-- The sample device, whose align size is 4096, with a request for the checksum of one block of 256
bytes. -/
def pageRequest : Device Flash :=
  sampleDevice.loaded (fun _ => 0) (Cmd.flashCrc 0 256 256).payload

theorem pageRequest_params :
    pageRequest.cmd32 CommandItem.crcListAddress = 0 ∧
      pageRequest.cmd32 CommandItem.crcListLen = 256 ∧
      pageRequest.cmd32 CommandItem.crcListBlockSize = 256 :=
  crcParams_loaded sampleDevice _ 0 256 256

theorem pageRequest_count : flashCrcCount pageRequest = 1 := by
  obtain ⟨-, hlen, hsize⟩ := pageRequest_params
  rw [flashCrcCount, hlen, hsize]
  rfl

theorem flashCrc_iff_page :
    (∀ fs, RepliesBlockCrcs sampleChip id { pageRequest with fs := fs }) ↔
      pageRequest.flashAlignsize = pageRequest.cmd32 CommandItem.crcListBlockSize ∨
        flashCrcCount pageRequest = 0 :=
  flashCrc_iff (readsFlash_norChip _ _ _) Function.surjective_id rfl pageRequest
    (by rw [pageRequest_params.2.2]; decide) (by rw [pageRequest_count]; decide)

/-- With a byte set behind the page the reply is not the page's checksum. -/
theorem pageRequest_wrong :
    ¬ RepliesBlockCrcs sampleChip id { pageRequest with fs := singleByte 0 256 } := by
  obtain ⟨haddr, -, hsize⟩ := pageRequest_params
  have hcount := pageRequest_count
  rw [@repliesBlockCrcs_iff Flash sampleChip id (readsFlash_norChip _ _ _) rfl
    { pageRequest with fs := singleByte 0 256 }
    (by show pageRequest.cmd32 CommandItem.crcListBlockSize ≠ 0; rw [hsize]; decide)
    (by show flashCrcCount pageRequest ≤ 28; rw [hcount]; decide)]
  show blockCrcs (singleByte 0 256) (pageRequest.cmd32 CommandItem.crcListAddress) 4096
      (flashCrcCount pageRequest)
    ≠ blockCrcs (singleByte 0 256) (pageRequest.cmd32 CommandItem.crcListAddress)
      (pageRequest.cmd32 CommandItem.crcListBlockSize) (flashCrcCount pageRequest)
  rw [haddr, hsize, hcount, blockCrcs_succ, blockCrcs_succ]
  intro h
  have hne := xmodem_singleByte_ne 0 (show 4096 < 2 ^ 32 by decide) (show 256 < 4096 by decide)
  exact hne (List.cons.inj h).1.symm

end FwBootloader
