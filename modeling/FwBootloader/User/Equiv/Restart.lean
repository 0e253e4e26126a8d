import FwBootloader.Lib.NorRun
import FwBootloader.User.Equiv.CopyUboot

/-!
## Copying the bootloader back, with power cuts

The block of `user_check_upgrade` is not one step: the power can fail between any two of its
operations on the flash, or within one.  `copyUboot_restarts`: however often it does, a run that
goes through leaves the flash that it would have left had nothing happened before, as long as the
erases spare the source.  An interrupted run changes no byte outside the two ranges that are erased
(`copyUboot_confined`), and the whole run determines every byte in them (`Flash.run_congr`).
-/

namespace FwBootloader.User

open DevM Flash

variable {σ : Type} {boot : Boot σ} {view : σ → Flash}

/-! ### Runs that may be interrupted -/

/-- The functions of `jlfs` change no byte that they are not asked to change and go no further in a
file than they are asked to, whether they do what they are asked or not.  So behaves a device whose
power fails, also in the middle of an operation: the rest of the run does nothing. -/
structure Confined (boot : Boot σ) (view : σ → Flash) : Prop where
  seek : ∀ file offset fs, (boot.jlfsFseek file offset fs).1 = { file with pos := offset } ∧
    view (boot.jlfsFseek file offset fs).2 = view fs
  read : ∀ file len fs, ∃ n ≤ file.size.toNat - file.pos.toNat,
    (boot.jlfsFread file len fs).1.length ≤ n ∧
      (boot.jlfsFread file len fs).2.1 = { file with pos := file.pos + UInt32.ofNat n } ∧
      view (boot.jlfsFread file len fs).2.2 = view fs
  erase : ∀ file len fs, (boot.jlfsErase file len fs).2.1 = file ∧
    ∀ x, ¬ Within (file.addr + file.pos) len.toNat x →
      view (boot.jlfsErase file len fs).2.2 x = view fs x
  write : ∀ file buf fs, (∃ n ≤ buf.length,
      (boot.jlfsWrite file buf fs).2.1 = { file with pos := file.pos + UInt32.ofNat n }) ∧
    ∀ x, ¬ Within (file.addr + file.pos) buf.length x →
      view (boot.jlfsWrite file buf fs).2.2 x = view fs x
  setUbootOffset : ∀ offset fs, view (boot.setUbootOffset offset fs) = view fs

/-- A device that works is one of them. -/
theorem ActsOnFlash.confined (hacts : ActsOnFlash boot view) : Confined boot view where
  seek := hacts.seek
  read file len fs := by
    obtain ⟨hdata, hfile, hview⟩ := hacts.read file len fs
    exact ⟨_, Nat.min_le_right _ _, by rw [hdata, length_read], hfile, hview⟩
  erase file len fs := by
    obtain ⟨hfile, hview⟩ := hacts.erase file len fs
    refine ⟨hfile, fun x hx => ?_⟩
    rw [hview, erase_of_not_within _ hx]
  write file buf fs := by
    obtain ⟨hfile, hview⟩ := hacts.write file buf fs
    refine ⟨⟨_, le_rfl, hfile⟩, fun x hx => ?_⟩
    rw [hview, program_of_not_within _ hx]
  setUbootOffset := hacts.setUbootOffset

section Interrupted

variable (h : Confined boot view)
include h

/-- The loop writes nowhere but into the place of the copy: the file that is written stands no
further than the file that is read. -/
theorem copyLoop_confined (l : UInt32) (fileCopy filePaste : JlfsFile) {fuel k k' : ℕ}
    (hk : k ≤ fileCopy.size.toNat) (hk' : k' ≤ k) (d : Device σ) :
    ∃ b d', copyLoop boot l fuel { fileCopy with pos := UInt32.ofNat k }
        { filePaste with pos := UInt32.ofNat k' } d = .ok b d' ∧
      ∀ x, ¬ Within filePaste.addr fileCopy.size.toNat x → view d'.fs x = view d.fs x := by
  have hsize := fileCopy.size.toNat_lt
  induction fuel generalizing k k' d with
  | zero => exact ⟨false, d, rfl, fun _ _ => rfl⟩
  | succ fuel ih =>
    set copy : JlfsFile := { fileCopy with pos := UInt32.ofNat k } with hcopy
    set paste : JlfsFile := { filePaste with pos := UInt32.ofNat k' } with hpaste
    have hpos : (UInt32.ofNat k).toNat = k := UInt32.toNat_ofNat_of_lt' (show k < 2 ^ 32 by omega)
    obtain ⟨n, hn, hdata, hcopy', hview⟩ := h.read copy l d.fs
    obtain ⟨⟨n', hn', hpaste'⟩, hwritten⟩ :=
      h.write paste (boot.jlfsFread copy l d.fs).1 (boot.jlfsFread copy l d.fs).2.2
    have hroom : k + n ≤ fileCopy.size.toNat := by
      rw [hcopy] at hn
      dsimp only at hn
      omega
    rw [copyLoop_succ]
    by_cases h0 : (boot.jlfsFread copy l d.fs).1.length = 0
    · rw [if_pos h0]
      exact ⟨true, _, rfl, fun x _ => congrFun hview x⟩
    · have hnext (i j : ℕ) : UInt32.ofNat i + UInt32.ofNat j = UInt32.ofNat (i + j) :=
        (UInt32.ofNat_add i j).symm
      rw [if_neg h0, hcopy', hpaste', hcopy, hpaste]
      dsimp only
      rw [hnext, hnext]
      obtain ⟨b, d', hrun, hframe⟩ := ih hroom (show k' + n' ≤ k + n by omega) _
      refine ⟨b, d', hrun, fun x hx => (hframe x hx).trans ?_⟩
      have hout : ¬ Within (paste.addr + paste.pos) (boot.jlfsFread copy l d.fs).1.length x :=
        fun hin => hx (hin.widen (by omega) (by omega))
      exact (hwritten x hout).trans (congrFun hview x)

/-- **An interrupted run changes nothing but the head of the app and the place of the copy.** -/
theorem copyUboot_confined (fuel : ℕ) (flashAppBaseAddr flashOffsetSize flashUbootOffset : UInt32)
    (d : Device σ) :
    ∃ b d', copyUboot boot fuel flashAppBaseAddr flashOffsetSize flashUbootOffset d = .ok b d' ∧
      ∀ x, ¬ Within flashAppBaseAddr d.flashAlignsize.toNat x →
        ¬ Within flashOffsetSize flashAppBaseAddr.toNat x → view d'.fs x = view d.fs x := by
  set appHead : JlfsFile := ⟨flashAppBaseAddr, d.flashAlignsize, 0, 0⟩ with happHead
  set filePaste : JlfsFile := ⟨flashOffsetSize, flashAppBaseAddr, 0, 0⟩ with hpaste
  set fileCopy : JlfsFile := ⟨flashUbootOffset, flashAppBaseAddr, 0, 0⟩ with hcopy
  obtain ⟨-, hview₁⟩ := h.erase appHead appHead.size d.fs
  set fs₁ := (boot.jlfsErase appHead appHead.size d.fs).2.2 with hfs₁
  set fs₂ := boot.setUbootOffset flashOffsetSize fs₁ with hfs₂
  obtain ⟨hseek₃, hview₃⟩ := h.seek filePaste 0 fs₂
  set fs₃ := (boot.jlfsFseek filePaste 0 fs₂).2 with hfs₃
  obtain ⟨hfile₄, hview₄⟩ := h.erase filePaste filePaste.size fs₃
  set fs₄ := (boot.jlfsErase filePaste filePaste.size fs₃).2.2 with hfs₄
  obtain ⟨hseek₅, hview₅⟩ := h.seek fileCopy 0 fs₄
  set fs₅ := (boot.jlfsFseek fileCopy 0 fs₄).2 with hfs₅
  obtain ⟨hseek₆, hview₆⟩ := h.seek filePaste 0 fs₅
  set fs₆ := (boot.jlfsFseek filePaste 0 fs₅).2 with hfs₆
  -- up to the loop
  have hpasted : erasePaste boot flashAppBaseAddr flashOffsetSize (d.withFs fs₁)
      = .ok filePaste (d.withFs fs₄) := by
    have hrun : erasePaste boot flashAppBaseAddr flashOffsetSize (d.withFs fs₁)
        = .ok (boot.jlfsErase (boot.jlfsFseek filePaste 0 fs₂).1
            (boot.jlfsFseek filePaste 0 fs₂).1.size fs₃).2.1
          (d.withFs (boot.jlfsErase (boot.jlfsFseek filePaste 0 fs₂).1
            (boot.jlfsFseek filePaste 0 fs₂).1.size fs₃).2.2) := rfl
    rw [show (boot.jlfsFseek filePaste 0 fs₂).1 = filePaste from hseek₃, hfile₄] at hrun
    exact hrun
  have hrun : copyUboot boot fuel flashAppBaseAddr flashOffsetSize flashUbootOffset d
      = copyLoop boot d.flashAlignsize fuel (boot.jlfsFseek fileCopy 0 fs₄).1
        (boot.jlfsFseek filePaste 0 fs₅).1 (d.withFs fs₆) := by
    have hhead : eraseAppHead boot flashAppBaseAddr d = .ok () (d.withFs fs₁) := rfl
    rw [copyUboot, bind_ok hhead, bind_ok hpasted]
    rfl
  obtain ⟨b, d', hloop, hframe⟩ := copyLoop_confined h d.flashAlignsize fileCopy filePaste
    (Nat.zero_le _) le_rfl (d.withFs fs₆)
  refine ⟨b, d', ?_, fun x hhead hx => ?_⟩
  · rw [hrun, hseek₅, hseek₆]
    exact hloop
  · have hhead' : ¬ Within (appHead.addr + appHead.pos) appHead.size.toNat x := by
      rwa [happHead, show flashAppBaseAddr + 0 = flashAppBaseAddr from UInt32.add_zero _]
    have hpaste' : ¬ Within (filePaste.addr + filePaste.pos) filePaste.size.toNat x := by
      rwa [hpaste, show flashOffsetSize + 0 = flashOffsetSize from UInt32.add_zero _]
    rw [hframe x hx, Device.withFs_fs, hview₆, hview₅, hview₄ x hpaste', hview₃, hfs₂,
      h.setUbootOffset, hview₁ x hhead']

end Interrupted

/-! ### Redoing the copy -/

/-- What is left behind by runs of the block that may have been interrupted, one after the other:
each on a device of its own kind, its memory in any state. -/
inductive Attempts (view : σ → Flash)
    (flashAppBaseAddr flashOffsetSize flashUbootOffset flashAlignsize : UInt32) (fs : σ) : σ → Prop
  | none : Attempts view flashAppBaseAddr flashOffsetSize flashUbootOffset flashAlignsize fs fs
  | again {boot : Boot σ} {fuel : ℕ} {b : Bool} {d d' : Device σ} :
      Attempts view flashAppBaseAddr flashOffsetSize flashUbootOffset flashAlignsize fs d.fs →
      Confined boot view → d.flashAlignsize = flashAlignsize →
      copyUboot boot fuel flashAppBaseAddr flashOffsetSize flashUbootOffset d = .ok b d' →
      Attempts view flashAppBaseAddr flashOffsetSize flashUbootOffset flashAlignsize fs d'.fs

section Redo

variable {flashAppBaseAddr flashOffsetSize flashUbootOffset flashAlignsize : UInt32}

theorem Attempts.confined {fs fs' : σ}
    (h : Attempts view flashAppBaseAddr flashOffsetSize flashUbootOffset flashAlignsize fs fs') :
    ∀ x, ¬ Within flashAppBaseAddr flashAlignsize.toNat x →
      ¬ Within flashOffsetSize flashAppBaseAddr.toNat x → view fs' x = view fs x := by
  induction h with
  | none => exact fun _ _ _ => rfl
  | @again boot fuel b d d' _ hconfined halign hrun ih =>
    intro x hhead hpaste
    obtain ⟨b', e, hrun', hframe⟩ := copyUboot_confined hconfined fuel flashAppBaseAddr
      flashOffsetSize flashUbootOffset d
    obtain ⟨-, rfl⟩ := EStateM.Result.ok.inj (hrun.symm.trans hrun')
    exact (hframe x (halign ▸ hhead) hpaste).trans (ih x hhead hpaste)

/-- The source survives them. -/
theorem Attempts.read_source {fs fs' : σ}
    (h : Attempts view flashAppBaseAddr flashOffsetSize flashUbootOffset flashAlignsize fs fs')
    (hhead : Apart flashUbootOffset flashAppBaseAddr.toNat flashAppBaseAddr flashAlignsize.toNat)
    (hpaste : Apart flashUbootOffset flashAppBaseAddr.toNat flashOffsetSize
      flashAppBaseAddr.toNat) :
    (view fs').read flashUbootOffset flashAppBaseAddr.toNat
      = (view fs).read flashUbootOffset flashAppBaseAddr.toNat := by
  have hsize := flashAppBaseAddr.toNat_lt
  exact read_congr (by omega) fun x hx => h.confined x (hhead x hx) (hpaste x hx)

/-- The block as a run of operations on the flash. -/
theorem copyUboot_run (hacts : ActsOnFlash boot view) {d : Device σ} {data : List UInt8}
    (hl : 0 < d.flashAlignsize.toNat)
    (hhead : Apart flashUbootOffset flashAppBaseAddr.toNat flashAppBaseAddr d.flashAlignsize.toNat)
    (hpaste : Apart flashUbootOffset flashAppBaseAddr.toNat flashOffsetSize
      flashAppBaseAddr.toNat)
    (hdata : (view d.fs).read flashUbootOffset flashAppBaseAddr.toNat = data) :
    ∃ d', copyUboot boot (flashAppBaseAddr.toNat + 1) flashAppBaseAddr flashOffsetSize
        flashUbootOffset d = .ok true d' ∧
      view d'.fs = (view d.fs).run [.erase flashAppBaseAddr d.flashAlignsize.toNat,
        .erase flashOffsetSize flashAppBaseAddr.toNat, .program flashOffsetSize data] := by
  have hsize := flashAppBaseAddr.toNat_lt
  obtain ⟨d', hrun, hview⟩ := copyUboot_apply hacts flashAppBaseAddr flashOffsetSize
    flashUbootOffset hl hpaste
  refine ⟨d', hrun, ?_⟩
  rw [hview, read_erase_of_apart _ (by omega) hhead, hdata]
  refine (program_erase _ flashOffsetSize ?_).symm
  rw [← hdata, length_read]

/-- **The copy can be redone.**  However often it has been interrupted, and wherever, a run that
goes through leaves the flash that it leaves when it has never been interrupted. -/
theorem copyUboot_restarts (hacts : ActsOnFlash boot view) {fs fs' : σ}
    (h : Attempts view flashAppBaseAddr flashOffsetSize flashUbootOffset flashAlignsize fs fs')
    (hl : 0 < flashAlignsize.toNat)
    (hhead : Apart flashUbootOffset flashAppBaseAddr.toNat flashAppBaseAddr flashAlignsize.toNat)
    (hpaste : Apart flashUbootOffset flashAppBaseAddr.toNat flashOffsetSize
      flashAppBaseAddr.toNat)
    {d d' : Device σ} (hd : d.fs = fs ∧ d.flashAlignsize = flashAlignsize)
    (hd' : d'.fs = fs' ∧ d'.flashAlignsize = flashAlignsize) :
    ∃ e e', copyUboot boot (flashAppBaseAddr.toNat + 1) flashAppBaseAddr flashOffsetSize
        flashUbootOffset d = .ok true e ∧
      copyUboot boot (flashAppBaseAddr.toNat + 1) flashAppBaseAddr flashOffsetSize
        flashUbootOffset d' = .ok true e' ∧
      view e'.fs = view e.fs := by
  obtain ⟨rfl, rfl⟩ := hd
  obtain ⟨rfl, halign⟩ := hd'
  have hsource := h.read_source hhead hpaste
  obtain ⟨e, hrun, hview⟩ := copyUboot_run hacts hl hhead hpaste rfl
  obtain ⟨e', hrun', hview'⟩ := copyUboot_run (d := d') hacts (halign ▸ hl) (halign ▸ hhead) hpaste
    hsource
  refine ⟨e, e', hrun, hrun', ?_⟩
  rw [hview, hview', halign]
  refine run_congr fun x hx => h.confined x (fun hin => ?_) fun hin => ?_
  · exact hx _ List.mem_cons_self hin
  · exact hx _ (List.mem_cons_of_mem _ List.mem_cons_self) hin

end Redo

/-- A device whose power fails during its first operation on the flash, after half of the range. -/
def tornBoot (flashAppBaseAddr : UInt32) : Boot Flash :=
  { sampleBoot flashAppBaseAddr with
    jlfsErase := fun file len flash =>
      (0, file, flash.erase (file.addr + file.pos) (len.toNat / 2))
    jlfsWrite := fun file _ flash => (0, file, flash) }

theorem confined_tornBoot (flashAppBaseAddr : UInt32) : Confined (tornBoot flashAppBaseAddr) id :=
  have hsample : ActsOnFlash (sampleBoot flashAppBaseAddr) id := actsOnFlash_norBoot _ _ _ _
  { hsample.confined with
    erase := fun _ _ _ =>
      ⟨rfl, fun _ hx => erase_of_not_within _ fun hin => hx (hin.mono (Nat.div_le_self _ _))⟩
    write := fun file _ _ =>
      ⟨⟨0, Nat.zero_le _, congrArg (JlfsFile.mk _ _ · _) (UInt32.add_zero file.pos).symm⟩,
        fun _ _ => rfl⟩ }

/-- A bootloader of 16K is copied back after a power cut. -/
theorem copyUboot_restarts_torn :
    ∃ b torn e e', copyUboot (tornBoot 0x4000) 1 0x4000 0x1000 (1024 * 64)
        (.initial (sampleBoot 0x4000).toChip fun _ => 0xA5) = .ok b torn ∧
      copyUboot (sampleBoot 0x4000) 0x4001 0x4000 0x1000 (1024 * 64)
        (.initial (sampleBoot 0x4000).toChip fun _ => 0xA5) = .ok true e ∧
      copyUboot (sampleBoot 0x4000) 0x4001 0x4000 0x1000 (1024 * 64)
        (.initial (sampleBoot 0x4000).toChip torn.fs) = .ok true e' ∧ id e'.fs = id e.fs := by
  obtain ⟨b, torn, hrun, -⟩ := copyUboot_confined (confined_tornBoot 0x4000) 1 0x4000 0x1000
    (1024 * 64) (.initial (sampleBoot 0x4000).toChip fun _ => 0xA5)
  have hsource : Apart (1024 * 64) (0x4000 : UInt32).toNat 0x4000 (4096 : UInt32).toNat :=
    (apart_head_iff (by decide) (by decide) (by decide) (by decide)).mpr (by decide)
  have hplace : Apart (1024 * 64) (0x4000 : UInt32).toNat 0x1000 (0x4000 : UInt32).toNat :=
    (apart_paste_iff (by decide) (by decide) (by decide)).mpr (by decide)
  have hattempt : Attempts id 0x4000 0x1000 (1024 * 64) 4096 (fun _ => 0xA5) torn.fs :=
    .again .none (confined_tornBoot 0x4000) rfl hrun
  have hacts : ActsOnFlash (sampleBoot 0x4000) id := actsOnFlash_norBoot _ _ _ _
  have hinitial (flash : Flash) : (Device.initial (sampleBoot 0x4000).toChip flash).fs = flash ∧
      (Device.initial (sampleBoot 0x4000).toChip flash).flashAlignsize = 4096 := ⟨rfl, rfl⟩
  obtain ⟨e, e', he, he', hview⟩ := copyUboot_restarts hacts hattempt (by decide) hsource hplace
    (hinitial fun _ => 0xA5) (hinitial torn.fs)
  exact ⟨b, torn, e, e', hrun, he, he', hview⟩

end FwBootloader.User
