import FwBootloader.Equiv.Writes
import FwBootloader.Uart.Equiv.History
import FwBootloader.Uart.Equiv.Image
import FwBootloader.Uart.Ordering

/-!
## The updater of an application

Without a bootloader, whatever is replied: on a device with pages or sectors as erase units all
commands fit the device (`runInner_fitting`), and the reboot command comes directly behind the
checksums of the image (`runInner_checked`).
-/

namespace FwBootloader.Uart

open Dialog

variable {S : Cmd → Prop}

/-! ### Commands that fit -/

variable (S) in
/-- Only commands in `S` are sent, step by step. -/
def sendSteps : Steps HostM where
  Ok := Sends S
  pure_true := trivial
  seq hp hq htrue hfalse := by
    refine sends_bind hp fun b => ?_
    cases b with
    | false =>
      rw [hfalse]
      exact trivial
    | true =>
      rw [htrue]
      exact hq

theorem Steady.sends {α : Type} {p : HostM α} {G : List Exchange → α → Prop} (hp : Steady S p G) :
    Sends S p :=
  sends_of_safe (fun _ _ hc => hc.1) hp.spec

/-- Every piece holds as many bytes as its command says, and no more than a unit. -/
theorem writeFlash_fits (fuel : ℕ) {buffer : List UInt8} {address len unit : UInt32}
    (hunit : unit.toNat ≤ 4096) : Sends Fits (writeFlash fuel buffer address len unit) := by
  induction fuel generalizing buffer address len with
  | zero =>
    rw [writeFlash]
    split_ifs
    · exact trivial
    · exact trivial
  | succ fuel ih =>
    by_cases h0 : len = 0
    · rw [writeFlash, if_pos h0]
      exact trivial
    · rw [writeFlash_succ h0]
      refine (sendSteps Fits).seq ?_ ih rfl rfl
      rcases hbuf : readBuf buffer 0 (writeLenOf unit len) with _ | content
      · rw [doWriteFlash, hbuf]
        exact trivial
      · rw [doWriteFlash_eq hbuf]
        obtain ⟨hlong, rfl⟩ := readBuf_zero_iff.mp hbuf
        have hlen : (buffer.take (writeLenOf unit len).toNat).length
            = (writeLenOf unit len).toNat := by
          rw [List.length_take, Nat.min_eq_left hlong]
        have hmost : (writeLenOf unit len).toNat ≤ 4096 := by
          rw [toNat_writeLenOf]
          exact (Nat.min_le_right _ _).trans hunit
        exact ⟨⟨hlen, hmost⟩, fun _ => trivial⟩

theorem eraseFlash_fits (fuel : ℕ) (address len : UInt32) :
    Sends Fits (eraseFlash fuel address len) :=
  (eraseFlash_stops fuel (fun _ => trivial) fun _ _ => trivial).sends

theorem updateApp_fits (fuel : ℕ) (fileBuf : List UInt8) (fileCrcList : List UInt16)
    {flashEoffsetSize unit n : UInt32} (hunit : unit = 256 ∨ unit = 4096)
    (hfit : n.toNat * unit.toNat < 2 ^ 32) :
    Sends Fits (updateApp fuel fileBuf fileCrcList flashEoffsetSize unit n) := by
  have hne : unit ≠ 0 := by
    rcases hunit with rfl | rfl <;> decide
  have hle : unit.toNat ≤ 4096 := by
    rcases hunit with rfl | rfl <;> decide
  have hcrc (address len : UInt32) (hcount : (len / unit).toNat ≤ 16) :
      Fits (.flashCrc address len unit) := ⟨hne, hcount⟩
  have hreboot (v : Outcome) :
      Sends Fits (exchange .reboot >>= fun _ => (pure v : HostM Outcome)) :=
    ⟨trivial, fun _ => trivial⟩
  simp only [updateApp]
  refine sends_bind (fetchChipCrcList_steady hcrc hne hfit).sends ?_
  rintro (_ | chipCrcList)
  · exact trivial
  dsimp only
  split_ifs with hsame
  · exact hreboot .sameCrc
  refine sends_bind (eraseFlash_fits fuel _ _) ?_
  rintro (_ | _)
  · exact trivial
  refine sends_bind ((sendSteps Fits).updateBlocks_ok _ _ _ _ _ _ 1 fun i _ _ =>
    ⟨eraseFlash_fits fuel _ _, writeFlash_fits fuel hle⟩) ?_
  rintro (_ | _)
  · exact trivial
  refine sends_bind (writeFlash_fits fuel hle) ?_
  rintro (_ | _)
  · exact trivial
  refine sends_bind (ensureCrcMatch_steady hcrc hne hfit).sends ?_
  rintro (_ | _)
  · exact trivial
  exact hreboot .updateOk

/-! ### The whole run -/

/-- The erase units that the device has reported are pages or sectors. -/
def Paged (h : List Exchange) : Prop :=
  ∀ app, Started app h → app.eraseUnitSize = 256 ∨ app.eraseUnitSize = 4096

/-- Without a bootloader the updater introduces itself and updates the application.  Other erase
units than pages and sectors are left out. -/
theorem runInner_application {t : UpdateThread} (hmode : t.isUpdateUboot = false) (fuel : ℕ)
    {P : List Exchange → Cmd → Prop} (hinit : ∀ h, P h (.deviceInit "app_dir_head" 0))
    (hcheck : ∀ h, P h (.deviceCheck 0x12345678))
    (happ : ∀ h (a : AppImage), a.file = t.fileContent → Started a.app h →
      safe P (fun _ _ => True) (updateApp fuel a.data (a.blocks.checksums Crc16.xmodem)
        a.app.flashEoffsetSize a.app.eraseUnitSize (UInt32.ofNat a.count)) (fun _ _ => True) h) :
    safe (fun h c => Paged h → P h c) (fun _ _ => True) (runInner t fuel) (fun _ _ => True) [] := by
  simp only [runInner]
  refine (@deviceUpdateZoneInit_steady (· = .deviceInit "app_dir_head" 0) _ _ rfl).bind
    (fun h c _ hc _ => hc ▸ hinit _) ?_
  rintro t₁ (_ | info) - h₁
  · exact trivial
  obtain ⟨-, reply, rfl, hreply⟩ := h₁ info rfl
  refine (@steady_exchange (· = .deviceCheck 0x12345678) _ rfl).bind
    (fun h c _ hc _ => hc ▸ hcheck _) ?_
  rintro t₂ (_ | cmd) - rfl
  · exact trivial
  dsimp only
  rcases hchecked : isReplyDeviceCheckCmd cmd (List.replicate 4 0) (List.replicate 16 0) with
    e | checked
  · exact trivial
  dsimp only
  split_ifs with hzone hboot
  · exact trivial
  · exact absurd (hmode.symm.trans hboot) Bool.false_ne_true
  have hs : Started info ([(.deviceInit "app_dir_head" 0, some reply)] ++
      [(.deviceCheck 0x12345678, some cmd)]) := ⟨reply, cmd, checked, [], rfl, hreply, hchecked⟩
  by_cases hunit : info.eraseUnitSize = 256 ∨ info.eraseUnitSize = 4096
  · let a : AppImage :=
      { file := t.fileContent
        app := info
        zone_lt := not_le.mp fun h => hzone ((t.fileContent.size_le_iff _).mpr h)
        unit_cases := hunit }
    rw [show appPhase fuel t.fileContent.data info = _ from appPhase_eq a fuel]
    exact safe_frame (happ _ a rfl hs) (fun _ _ hc _ => hc) (fun _ _ he => he) fun _ _ ha => ha
  · refine safe_of_forall _ (fun t c hpaged => ?_) (fun _ _ => trivial) fun _ _ => trivial
    exact absurd (hpaged info (hs.append t)) hunit

theorem count_fit (a : AppImage) :
    (UInt32.ofNat a.count).toNat * a.app.eraseUnitSize.toNat < 2 ^ 32 := by
  rw [a.toNat_count]
  exact a.buffer.count_mul_lt

/-- **On a device with pages or sectors the commands fit**, whatever is replied. -/
theorem runInner_fitting {t : UpdateThread} (hmode : t.isUpdateUboot = false) (fuel : ℕ) :
    safe (fun h c => Paged h → Fits c) (fun _ _ => True) (runInner t fuel) (fun _ _ => True)
      [] := by
  refine runInner_application hmode fuel (fun _ => trivial) (fun _ => rfl) fun h a _ _ => ?_
  exact Sends.safe (fun _ _ hc => hc) (updateApp_fits fuel _ _ a.unit_cases (count_fit a)) h

/-- **The reboot command comes directly behind the checksums of the image.** -/
theorem runInner_checked {t : UpdateThread} (hmode : t.isUpdateUboot = false) (fuel : ℕ) :
    safe (fun h c => Paged h → c = .reboot →
        ∃ a : AppImage, a.file = t.fileContent ∧ Started a.app h ∧ AppChecked a h)
      (fun _ _ => True) (runInner t fuel) (fun _ _ => True) [] := by
  have hmodifies (c : Cmd) (hc : c.Modifies) : c ≠ .reboot := by
    rintro rfl
    exact hc
  refine runInner_application hmode fuel (fun _ hc => by cases hc) (fun _ hc => by cases hc) ?_
  intro h a hfile hs
  refine updateApp_safe hmodifies fuel _ (fun _ _ _ => by rintro ⟨⟩) a.eraseUnitSize_ne
    (count_fit a) (fun _ _ _ hc hreboot => absurd hreboot hc)
    (fun t t' _ ht' _ => ⟨a, hfile, hs.append _, h ++ t, t', ?_, ?_⟩)
    (fun _ => trivial) fun _ _ _ _ => trivial
  · rw [List.append_assoc]
  · rw [a.toNat_count] at ht'
    exact ht'

end FwBootloader.Uart
