import FwBootloader.User.CheckUpgrade
import FwBootloader.User.Equiv.Run

/-!
## Copying the bootloader back

`user_check_upgrade` does not check where the ranges lie that it erases.  `copiesBack_exact`: the
bootloader is copied back, whatever the flash holds, if and only if neither the head of the app nor
the place of the copy meets the source at 64K.  `copyLoop_apply` is the loop's invariant: the two
files stand at one position, and what is in front of it has been copied.
-/

namespace FwBootloader.User

open DevM Flash

variable {σ α : Type} {boot : Boot σ} {view : σ → Flash}

/-- The functions of `jlfs` act on the flash that `view` finds in their state: at the address of the
file plus its position, which reading and writing advance, and reading ends with the file. -/
structure ActsOnFlash (boot : Boot σ) (view : σ → Flash) : Prop where
  seek : ∀ file offset fs, (boot.jlfsFseek file offset fs).1 = { file with pos := offset } ∧
    view (boot.jlfsFseek file offset fs).2 = view fs
  read : ∀ file len fs,
    let n := min len.toNat (file.size.toNat - file.pos.toNat)
    (boot.jlfsFread file len fs).1 = (view fs).read (file.addr + file.pos) n ∧
      (boot.jlfsFread file len fs).2.1 = { file with pos := file.pos + UInt32.ofNat n } ∧
      view (boot.jlfsFread file len fs).2.2 = view fs
  erase : ∀ file len fs, (boot.jlfsErase file len fs).2.1 = file ∧
    view (boot.jlfsErase file len fs).2.2 = (view fs).erase (file.addr + file.pos) len.toNat
  write : ∀ file buf fs,
    (boot.jlfsWrite file buf fs).2.1 = { file with pos := file.pos + UInt32.ofNat buf.length } ∧
      view (boot.jlfsWrite file buf fs).2.2 = (view fs).program (file.addr + file.pos) buf
  setUbootOffset : ∀ offset fs, view (boot.setUbootOffset offset fs) = view fs

theorem actsOnFlash_norBoot (z : Zone) (key : UInt32) (crc : List UInt8 → UInt16)
    (flashAppBaseAddr : UInt32) : ActsOnFlash (norBoot z key crc flashAppBaseAddr) id where
  seek _ _ _ := ⟨rfl, rfl⟩
  read _ _ _ := ⟨rfl, rfl, rfl⟩
  erase _ _ _ := ⟨rfl, rfl⟩
  write _ _ _ := ⟨rfl, rfl⟩
  setUbootOffset _ _ := rfl

/-- `jlfs` has left its state. -/
@[simps -fullyApplied fs] def Device.withFs (d : Device σ) (fs : σ) : Device σ :=
  { d with fs := fs }

theorem onFile_apply (file : JlfsFile) (call : JlfsFile → σ → α × JlfsFile × σ) (d : Device σ) :
    onFile file call d
      = .ok ((call file d.fs).1, (call file d.fs).2.1) (d.withFs (call file d.fs).2.2) := rfl

/-! ### The loop -/

/-- One turn: what has been read goes through the global buffer. -/
theorem copyLoop_succ (l : UInt32) (fuel : ℕ) (fileCopy filePaste : JlfsFile) (d : Device σ) :
    let r := boot.jlfsFread fileCopy l d.fs
    let d₁ := (d.withFs r.2.2).buffered r.1
    let w := boot.jlfsWrite filePaste r.1 r.2.2
    copyLoop boot l (fuel + 1) fileCopy filePaste d
      = if r.1.length = 0 then .ok true d₁
        else copyLoop boot l fuel r.2.1 w.2.1 (d₁.withFs w.2.2) := by
  intro r d₁ w
  rw [copyLoop, bind_ok (onFile_apply ..)]
  dsimp only
  rw [bind_ok (modify_buffered ..)]
  split_ifs with h
  · rfl
  · rw [bind_ok (get_apply ..), bind_ok (onFile_apply ..)]
    have hbytes : d₁.globalBuffer.bytes 0 r.1.length = r.1 := Mem.bytes_write_self ..
    rw [hbytes]
    rfl

/-- **The loop copies the rest of the file.**  Both files stand at the same position, and what is in
front of it has been copied. -/
theorem copyLoop_apply (hacts : ActsOnFlash boot view) {l : UInt32} (hl : 0 < l.toNat)
    (fileCopy filePaste : JlfsFile) {flash : Flash}
    (hapart : Apart fileCopy.addr fileCopy.size.toNat filePaste.addr fileCopy.size.toNat)
    {fuel k : ℕ} (hk : k ≤ fileCopy.size.toNat) (hfuel : fileCopy.size.toNat - k < fuel)
    {d : Device σ}
    (hview : view d.fs = flash.program filePaste.addr (flash.read fileCopy.addr k)) :
    ∃ d', copyLoop boot l fuel { fileCopy with pos := UInt32.ofNat k }
        { filePaste with pos := UInt32.ofNat k } d = .ok true d' ∧
      view d'.fs
        = flash.program filePaste.addr (flash.read fileCopy.addr fileCopy.size.toNat) := by
  have hsize := fileCopy.size.toNat_lt
  induction fuel generalizing k d with
  | zero => omega
  | succ fuel ih =>
    set copy : JlfsFile := { fileCopy with pos := UInt32.ofNat k } with hcopy
    set paste : JlfsFile := { filePaste with pos := UInt32.ofNat k } with hpaste
    have hpos : (UInt32.ofNat k).toNat = k := UInt32.toNat_ofNat_of_lt' (show k < 2 ^ 32 by omega)
    obtain ⟨hdata, hcopy', hview'⟩ := hacts.read copy l d.fs
    obtain ⟨hpaste', hwritten⟩ :=
      hacts.write paste (boot.jlfsFread copy l d.fs).1 (boot.jlfsFread copy l d.fs).2.2
    set n := min l.toNat (copy.size.toNat - copy.pos.toNat) with hn
    rw [hcopy] at hn
    dsimp only at hn
    rw [hpos] at hn
    -- the source is as it was
    have hpiece : (boot.jlfsFread copy l d.fs).1
        = flash.read (fileCopy.addr + UInt32.ofNat k) n := by
      rw [hdata, hview]
      refine read_program_of_apart _ (by omega) fun x hx hx' => ?_
      rw [length_read] at hx'
      exact hapart x (hx.widen (by omega) (by omega)) (hx'.mono hk)
    have hlen : (boot.jlfsFread copy l d.fs).1.length = n := by rw [hpiece, length_read]
    rw [copyLoop_succ, hlen]
    by_cases h0 : n = 0
    · -- the end of the file
      rw [if_pos h0]
      obtain rfl : k = fileCopy.size.toNat := by omega
      exact ⟨_, rfl, hview'.trans hview⟩
    · have hnext : UInt32.ofNat k + UInt32.ofNat n = UInt32.ofNat (k + n) :=
        (UInt32.ofNat_add k n).symm
      rw [if_neg h0, hcopy', hpaste', hlen, hcopy, hpaste]
      dsimp only
      rw [hnext]
      refine ih (by omega) (by omega) ?_
      -- what has been copied is one piece longer
      have happend := program_append flash filePaste.addr
        (show (flash.read fileCopy.addr k).length
          + (flash.read (fileCopy.addr + UInt32.ofNat k) n).length ≤ 2 ^ 32 by
          rw [length_read, length_read]
          omega)
      rw [length_read] at happend
      rw [Device.withFs_fs, hwritten, hview', hview, hpiece, happend, read_add]

/-! ### The block -/

theorem eraseAppHead_apply (hacts : ActsOnFlash boot view) (flashAppBaseAddr : UInt32)
    (d : Device σ) :
    ∃ fs, eraseAppHead boot flashAppBaseAddr d = .ok () (d.withFs fs) ∧
      view fs = (view d.fs).erase flashAppBaseAddr d.flashAlignsize.toNat := by
  obtain ⟨-, hview⟩ := hacts.erase ⟨flashAppBaseAddr, d.flashAlignsize, 0, 0⟩ d.flashAlignsize d.fs
  refine ⟨_, rfl, hview.trans ?_⟩
  rw [UInt32.add_zero]

theorem erasePaste_apply (hacts : ActsOnFlash boot view) (flashAppBaseAddr flashOffsetSize : UInt32)
    (d : Device σ) :
    ∃ fs, erasePaste boot flashAppBaseAddr flashOffsetSize d
        = .ok ⟨flashOffsetSize, flashAppBaseAddr, 0, 0⟩ (d.withFs fs) ∧
      view fs = (view d.fs).erase flashOffsetSize flashAppBaseAddr.toNat := by
  set fs₁ := boot.setUbootOffset flashOffsetSize d.fs with hfs₁
  set filePaste : JlfsFile := ⟨flashOffsetSize, flashAppBaseAddr, 0, 0⟩ with hfile
  obtain ⟨hseek, hseekView⟩ := hacts.seek filePaste 0 fs₁
  obtain ⟨hfile', hview⟩ := hacts.erase filePaste filePaste.size (boot.jlfsFseek filePaste 0 fs₁).2
  have hrun : erasePaste boot flashAppBaseAddr flashOffsetSize d
      = .ok (boot.jlfsErase (boot.jlfsFseek filePaste 0 fs₁).1
          (boot.jlfsFseek filePaste 0 fs₁).1.size (boot.jlfsFseek filePaste 0 fs₁).2).2.1
        (d.withFs (boot.jlfsErase (boot.jlfsFseek filePaste 0 fs₁).1
          (boot.jlfsFseek filePaste 0 fs₁).1.size (boot.jlfsFseek filePaste 0 fs₁).2).2.2) := rfl
  rw [show (boot.jlfsFseek filePaste 0 fs₁).1 = filePaste from hseek, hfile'] at hrun
  refine ⟨_, hrun, ?_⟩
  rw [hview, hseekView, hfs₁, hacts.setUbootOffset, hfile]
  exact congrArg (Flash.erase _ · _) (UInt32.add_zero _)

/-- **What the block leaves in the flash**: the copy, and the head of the app erased. -/
theorem copyUboot_apply (hacts : ActsOnFlash boot view)
    (flashAppBaseAddr flashOffsetSize flashUbootOffset : UInt32) {d : Device σ}
    (hl : 0 < d.flashAlignsize.toNat)
    (hapart : Apart flashUbootOffset flashAppBaseAddr.toNat flashOffsetSize
      flashAppBaseAddr.toNat) :
    ∃ d', copyUboot boot (flashAppBaseAddr.toNat + 1) flashAppBaseAddr flashOffsetSize
        flashUbootOffset d = .ok true d' ∧
      view d'.fs = ((view d.fs).erase flashAppBaseAddr d.flashAlignsize.toNat).store flashOffsetSize
        (((view d.fs).erase flashAppBaseAddr d.flashAlignsize.toNat).read flashUbootOffset
          flashAppBaseAddr.toNat) := by
  obtain ⟨fs₁, hhead, hview₁⟩ := eraseAppHead_apply hacts flashAppBaseAddr d
  obtain ⟨fs₂, hpaste, hview₂⟩ :=
    erasePaste_apply hacts flashAppBaseAddr flashOffsetSize (d.withFs fs₁)
  rw [Device.withFs_fs, hview₁] at hview₂
  set head := (view d.fs).erase flashAppBaseAddr d.flashAlignsize.toNat with hheadFlash
  set fileCopy : JlfsFile := ⟨flashUbootOffset, flashAppBaseAddr, 0, 0⟩ with hcopy
  set filePaste : JlfsFile := ⟨flashOffsetSize, flashAppBaseAddr, 0, 0⟩ with hpasteFile
  obtain ⟨hseek, hseekView⟩ := hacts.seek fileCopy 0 fs₂
  obtain ⟨hseek', hseekView'⟩ := hacts.seek filePaste 0 (boot.jlfsFseek fileCopy 0 fs₂).2
  set fs₃ := (boot.jlfsFseek filePaste 0 (boot.jlfsFseek fileCopy 0 fs₂).2).2 with hfs₃
  have hrun (fuel : ℕ) : copyUboot boot fuel flashAppBaseAddr flashOffsetSize flashUbootOffset d
      = copyLoop boot d.flashAlignsize fuel (boot.jlfsFseek fileCopy 0 fs₂).1
        (boot.jlfsFseek filePaste 0 (boot.jlfsFseek fileCopy 0 fs₂).2).1 (d.withFs fs₃) := by
    rw [copyUboot, bind_ok hhead, bind_ok hpaste]
    rfl
  have hsize := flashAppBaseAddr.toNat_lt
  -- the erased place does not meet the source, so the loop starts with an empty prefix
  have hsource : (head.erase flashOffsetSize flashAppBaseAddr.toNat).read flashUbootOffset
      flashAppBaseAddr.toNat = head.read flashUbootOffset flashAppBaseAddr.toNat :=
    read_erase_of_apart head (by omega) hapart
  have hstart : view (d.withFs fs₃).fs
      = (head.erase flashOffsetSize flashAppBaseAddr.toNat).program filePaste.addr
        ((head.erase flashOffsetSize flashAppBaseAddr.toNat).read fileCopy.addr 0) := by
    rw [Device.withFs_fs, hseekView', hseekView, hview₂]
    exact (program_nil _ _).symm
  have hfuel : fileCopy.size.toNat - 0 < flashAppBaseAddr.toNat + 1 := Nat.lt_succ_self _
  obtain ⟨d', hloop, hview'⟩ :=
    copyLoop_apply hacts hl fileCopy filePaste hapart (Nat.zero_le _) hfuel hstart
  refine ⟨d', ?_, ?_⟩
  · rw [hrun, hseek, hseek']
    exact hloop
  · rw [hview', hsource]
    exact program_erase _ _ (length_read ..)

/-! ### Copying back -/

/-- The bytes of the bootloader that runs. -/
def ubootSource (view : σ → Flash) (flashAppBaseAddr : UInt32) (d : Device σ) : List UInt8 :=
  (view d.fs).read (1024 * 64) flashAppBaseAddr.toNat

/-- Both erases spare the source, and the block ends with its bytes in their place. -/
def CopiesBack (boot : Boot σ) (view : σ → Flash) (flashAppBaseAddr flashOffsetSize : UInt32)
    (d : Device σ) : Prop :=
  ∃ d₁ filePaste d₂ fuel d₃,
    eraseAppHead boot flashAppBaseAddr d = .ok () d₁ ∧
    ubootSource view flashAppBaseAddr d₁ = ubootSource view flashAppBaseAddr d ∧
    erasePaste boot flashAppBaseAddr flashOffsetSize d₁ = .ok filePaste d₂ ∧
    ubootSource view flashAppBaseAddr d₂ = ubootSource view flashAppBaseAddr d ∧
    copyUboot boot fuel flashAppBaseAddr flashOffsetSize (1024 * 64) d = .ok true d₃ ∧
    (view d₃.fs).read flashOffsetSize flashAppBaseAddr.toNat = ubootSource view flashAppBaseAddr d

/-- There is nothing to copy, or the head of the app ends in front of 64K and the place of the copy
does not meet the source. -/
def SourceSpared (flashAppBaseAddr flashOffsetSize flashAlignsize : UInt32) : Prop :=
  flashAppBaseAddr = 0 ∨
    flashAppBaseAddr.toNat + flashAlignsize.toNat ≤ 65536 ∧
      (flashOffsetSize.toNat + flashAppBaseAddr.toNat ≤ 65536 ∨
        65536 + flashAppBaseAddr.toNat ≤ flashOffsetSize.toNat)

section Layout

variable {flashAppBaseAddr flashOffsetSize flashAlignsize : UInt32}

theorem apart_head_iff (hpos : 0 < flashAppBaseAddr.toNat) (hl : 0 < flashAlignsize.toNat)
    (hsource : 65536 + flashAppBaseAddr.toNat < 2 ^ 32)
    (hhead : flashAppBaseAddr.toNat + flashAlignsize.toNat < 2 ^ 32) :
    Apart (1024 * 64) flashAppBaseAddr.toNat flashAppBaseAddr flashAlignsize.toNat ↔
      flashAppBaseAddr.toNat + flashAlignsize.toNat ≤ 65536 := by
  have hoff : (1024 * 64 : UInt32).toNat = 65536 := rfl
  rw [apart_iff (by omega) (by omega) hpos hl, hoff]
  omega

theorem apart_paste_iff (hpos : 0 < flashAppBaseAddr.toNat)
    (hsource : 65536 + flashAppBaseAddr.toNat < 2 ^ 32)
    (hpaste : flashOffsetSize.toNat + flashAppBaseAddr.toNat < 2 ^ 32) :
    Apart (1024 * 64) flashAppBaseAddr.toNat flashOffsetSize flashAppBaseAddr.toNat ↔
      flashOffsetSize.toNat + flashAppBaseAddr.toNat ≤ 65536 ∨
        65536 + flashAppBaseAddr.toNat ≤ flashOffsetSize.toNat := by
  have hoff : (1024 * 64 : UInt32).toNat = 65536 := rfl
  rw [apart_iff (by omega) (by omega) hpos hpos, hoff]
  omega

theorem sourceSpared_iff (hl : 0 < flashAlignsize.toNat)
    (hsource : 65536 + flashAppBaseAddr.toNat < 2 ^ 32)
    (hhead : flashAppBaseAddr.toNat + flashAlignsize.toNat < 2 ^ 32)
    (hpaste : flashOffsetSize.toNat + flashAppBaseAddr.toNat < 2 ^ 32) :
    SourceSpared flashAppBaseAddr flashOffsetSize flashAlignsize ↔
      Apart (1024 * 64) flashAppBaseAddr.toNat flashAppBaseAddr flashAlignsize.toNat ∧
        Apart (1024 * 64) flashAppBaseAddr.toNat flashOffsetSize flashAppBaseAddr.toNat := by
  by_cases h0 : flashAppBaseAddr = 0
  · subst h0
    exact iff_of_true (Or.inl rfl)
      ⟨fun x hx => absurd hx (Nat.not_lt_zero _), fun x hx => absurd hx (Nat.not_lt_zero _)⟩
  · have hpos : 0 < flashAppBaseAddr.toNat := Bytes.toNat_pos_of_ne_zero h0
    rw [apart_head_iff hpos hl hsource hhead, apart_paste_iff hpos hsource hpaste, SourceSpared,
      or_iff_right h0]

end Layout

/-- The erases spare a source that they do not meet. -/
theorem copiesBack_of_apart (hacts : ActsOnFlash boot view)
    (flashAppBaseAddr flashOffsetSize : UInt32) {d : Device σ} (hl : 0 < d.flashAlignsize.toNat)
    (hhead : Apart (1024 * 64) flashAppBaseAddr.toNat flashAppBaseAddr d.flashAlignsize.toNat)
    (hpaste : Apart (1024 * 64) flashAppBaseAddr.toNat flashOffsetSize flashAppBaseAddr.toNat) :
    CopiesBack boot view flashAppBaseAddr flashOffsetSize d := by
  have hsize := flashAppBaseAddr.toNat_lt
  obtain ⟨fs₁, hrun₁, hview₁⟩ := eraseAppHead_apply hacts flashAppBaseAddr d
  obtain ⟨fs₂, hrun₂, hview₂⟩ :=
    erasePaste_apply hacts flashAppBaseAddr flashOffsetSize (d.withFs fs₁)
  obtain ⟨d₃, hrun₃, hview₃⟩ := copyUboot_apply hacts flashAppBaseAddr flashOffsetSize
    (1024 * 64) hl hpaste
  -- neither erase meets the source
  have hsource₁ : ubootSource view flashAppBaseAddr (d.withFs fs₁)
      = ubootSource view flashAppBaseAddr d := by
    rw [ubootSource, Device.withFs_fs, hview₁]
    exact read_erase_of_apart _ (by omega) hhead
  refine ⟨_, _, _, _, d₃, hrun₁, hsource₁, hrun₂, ?_, hrun₃, ?_⟩
  · rw [← hsource₁, ubootSource, Device.withFs_fs, hview₂]
    exact read_erase_of_apart _ (by omega) hpaste
  · rw [hview₃, read_store_read _ _ _ (by omega), ← hview₁]
    exact hsource₁

/-- **`user_check_upgrade` opens the zone with the bootloader copied back**, if it runs at 64K and
the layout spares it. -/
theorem userCheckUpgrade_apply (hacts : ActsOnFlash boot view) (chunks : List (List UInt8))
    {d : Device σ} (hoffset : boot.getUbootOffset d.fs = 1024 * 64)
    (hl : 0 < (boot.jlfsGetFlashAlignSize d.fs).toNat)
    (hhead : Apart (1024 * 64) (boot.jlfsGetFlashAppBaseAddr d.fs).toNat
      (boot.jlfsGetFlashAppBaseAddr d.fs) (boot.jlfsGetFlashAlignSize d.fs).toNat)
    (hpaste : Apart (1024 * 64) (boot.jlfsGetFlashAppBaseAddr d.fs).toNat
      (boot.jlfsGetFlashEoffsetSize d.fs) (boot.jlfsGetFlashAppBaseAddr d.fs).toNat) :
    ∃ fuel d', userCheckUpgrade boot fuel chunks d = (some <$> openUpgradeFile boot chunks) d' ∧
      (view d'.fs).read (boot.jlfsGetFlashEoffsetSize d.fs)
          (boot.jlfsGetFlashAppBaseAddr d.fs).toNat
        = ubootSource view (boot.jlfsGetFlashAppBaseAddr d.fs) d := by
  set d₀ : Device σ := { d with flashAlignsize := boot.jlfsGetFlashAlignSize d.fs } with hd₀
  obtain ⟨_, _, _, fuel, d', -, -, -, -, hrun, hread⟩ :=
    copiesBack_of_apart hacts _ _ (d := d₀) hl hhead hpaste
  refine ⟨fuel, d', ?_, hread⟩
  -- up to the block only the align size is read
  have hmodify : (modify fun d => { d with flashAlignsize := boot.jlfsGetFlashAlignSize d.fs } :
      DevM σ PUnit) d = .ok () d₀ := rfl
  rw [userCheckUpgrade, bind_ok hmodify, bind_ok (get_apply ..)]
  dsimp only
  rw [if_pos (show boot.getUbootOffset d₀.fs = 1024 * 64 from hoffset),
    show boot.getUbootOffset d₀.fs = 1024 * 64 from hoffset, bind_ok hrun, if_pos rfl]

/-- Where there are zeros, an erase that meets the source shows. -/
theorem apart_of_copiesBack (hacts : ActsOnFlash boot view)
    {flashAppBaseAddr flashOffsetSize : UInt32} {d : Device σ} (hzero : view d.fs = fun _ => 0)
    (h : CopiesBack boot view flashAppBaseAddr flashOffsetSize d) :
    Apart (1024 * 64) flashAppBaseAddr.toNat flashAppBaseAddr d.flashAlignsize.toNat ∧
      Apart (1024 * 64) flashAppBaseAddr.toNat flashOffsetSize flashAppBaseAddr.toNat := by
  obtain ⟨d₁, filePaste, d₂, -, -, hrun₁, hsource₁, hrun₂, hsource₂, -⟩ := h
  obtain ⟨fs₁, hrun₁', hview₁⟩ := eraseAppHead_apply hacts flashAppBaseAddr d
  obtain ⟨-, rfl⟩ := EStateM.Result.ok.inj (hrun₁.symm.trans hrun₁')
  obtain ⟨fs₂, hrun₂', hview₂⟩ :=
    erasePaste_apply hacts flashAppBaseAddr flashOffsetSize (d.withFs fs₁)
  obtain ⟨-, rfl⟩ := EStateM.Result.ok.inj (hrun₂.symm.trans hrun₂')
  rw [ubootSource, ubootSource, hzero, Device.withFs_fs, hview₁] at hsource₁
  rw [ubootSource, ubootSource, hzero, Device.withFs_fs, hview₂] at hsource₂
  exact ⟨apart_of_read_erase hsource₁, apart_of_read_erase hsource₂⟩

/-- **The bootloader is copied back**, whatever the flash holds, exactly when the erases spare the
source. -/
theorem copiesBack_exact (hacts : ActsOnFlash boot view) {d : Device σ}
    (hl : d.flashAlignsize ≠ 0) {flashAppBaseAddr flashOffsetSize : UInt32}
    (hsource : 65536 + flashAppBaseAddr.toNat < 2 ^ 32)
    (hhead : flashAppBaseAddr.toNat + d.flashAlignsize.toNat < 2 ^ 32)
    (hpaste : flashOffsetSize.toNat + flashAppBaseAddr.toNat < 2 ^ 32) :
    (SourceSpared flashAppBaseAddr flashOffsetSize d.flashAlignsize →
      ∀ fs, CopiesBack boot view flashAppBaseAddr flashOffsetSize (d.withFs fs)) ∧
    (Function.Surjective view →
      (∀ fs, CopiesBack boot view flashAppBaseAddr flashOffsetSize (d.withFs fs)) →
      SourceSpared flashAppBaseAddr flashOffsetSize d.flashAlignsize) := by
  have hpos : 0 < d.flashAlignsize.toNat := Bytes.toNat_pos_of_ne_zero hl
  rw [sourceSpared_iff hpos hsource hhead hpaste]
  constructor
  · rintro ⟨happ, hdest⟩ fs
    exact copiesBack_of_apart hacts flashAppBaseAddr flashOffsetSize hpos happ hdest
  · intro hsurj h
    obtain ⟨fs, hfs⟩ := hsurj fun _ => 0
    exact apart_of_copiesBack (d := d.withFs fs) hacts hfs (h fs)

/-- A bootloader of 16K, with the copy behind the first sector. -/
theorem copiesBack_exact_small :
    CopiesBack (sampleBoot 0x4000) id 0x4000 0x1000
      ((Device.initial (sampleBoot 0x4000).toChip fun _ => 0).withFs fun _ => 0xA5) :=
  (copiesBack_exact (actsOnFlash_norBoot _ _ _ _) (by decide) (by decide) (by decide)
    (by decide)).1 (Or.inr ⟨by decide, Or.inl (by decide)⟩) fun _ => 0xA5

/-- With 64K in front of the app, the head of the app is where the bootloader runs. -/
theorem not_copiesBack_large :
    ¬ CopiesBack (sampleBoot 0x10000) id 0x10000 0x1000
      (Device.initial (sampleBoot 0x10000).toChip fun _ => 0) := by
  intro h
  obtain ⟨hhead, -⟩ := apart_of_copiesBack (actsOnFlash_norBoot _ _ _ _) rfl h
  exact hhead 0x10000 (by decide) (by decide)

end FwBootloader.User
