import FwBootloader.Lib.Straying
import FwBootloader.Link.LossyUpdate
import FwBootloader.Link.UbootRepair
import FwBootloader.Uart.Equiv.Application
import FwBootloader.Uart.Equiv.Ordering

/-!
## The bootloader's update over a serial link that loses packets

In bootloader mode the updater goes on after a failed write to the bootloader, and old replies may
then be taken for new ones.  Up to the check of the backup it is careful, and from there on none of
its commands touches the backup: `bootloader_survives` says that a bootloader can be restored after
any run that is still in the phase or has stopped in it.
-/

namespace FwBootloader

open Bytes Dialog StopAndWait User Uart

/-! ### The backup and the bootloader -/

/-- `ubootFileBuf` -/
def Uart.ubootFileBuf (fileContent : List UInt8) (abs64kLen : UInt32) : List UInt8 :=
  let ubootFileContent := qMid fileContent abs64kLen
  if UInt32.ofNat ubootFileContent.length < abs64kLen then
    qAppend ubootFileContent (abs64kLen - UInt32.ofNat ubootFileContent.length) 0xFF
  else ubootFileContent

theorem Uart.ubootFileBuf_eq (fileContent : List UInt8) (abs64kLen : UInt32) :
    (if UInt32.ofNat (qMid fileContent abs64kLen).length < abs64kLen then
        qAppend (qMid fileContent abs64kLen)
          (abs64kLen - UInt32.ofNat (qMid fileContent abs64kLen).length) 0xFF
      else qMid fileContent abs64kLen) = ubootFileBuf fileContent abs64kLen := rfl

theorem Uart.ubootFileBuf_boot (a : UbootImage) :
    ubootFileBuf a.file.data (65536 - a.app.flashEoffsetSize) = a.bootData := by
  rw [← ubootFileBuf_eq, a.bootData_eq]

/-- `ubootPhase` up to the check of the backup; `none` for `return`. -/
def Uart.backupUboot (fuel : ℕ) (fileContent : List UInt8) (app : DeviceInitInfo) :
    HostM (Option (List UInt16)) := do
  match ← deviceUpdateZoneInit "uboot_zone" 0 with
  | none => return none
  | some _ =>
    let abs64kLen := 65536 - app.flashEoffsetSize
    if !(← eraseFlash fuel app.zoneAddr app.eraseUnitSize) then return none
    if !(← eraseFlash fuel 65536 abs64kLen) then return none
    if app.eraseUnitSize = 0 then .abort .divByZero
    let buf := ubootFileBuf fileContent abs64kLen
    if !(← writeFlash fuel buf 65536 abs64kLen app.eraseUnitSize) then return none
    match getBufferCrcList buf (abs64kLen / app.eraseUnitSize) app.eraseUnitSize with
    | none => .abort .outOfBounds
    | some crcs =>
      if !(← ensureCrcMatch crcs 65536 (abs64kLen / app.eraseUnitSize) app.eraseUnitSize) then
        return none
      return some crcs

/-- The rest of `ubootPhase`. -/
def Uart.replaceUboot (fuel : ℕ) (fileContent : List UInt8) (app : DeviceInitInfo) :
    Option (List UInt16) → HostM Bool
  | none => return false
  | some crcs =>
    let abs64kLen := 65536 - app.flashEoffsetSize
    updateUboot fuel (ubootFileBuf fileContent abs64kLen) crcs app.flashEoffsetSize abs64kLen
      app.eraseUnitSize (abs64kLen / app.eraseUnitSize)

/-- `if (!p) return`, with what comes behind the `return`. -/
theorem Uart.stop_bind {α β : Type} {p : HostM Bool} {x : α} {y : β} {q : HostM α} {r : HostM β}
    {f : α → HostM β} (hstop : f x = pure y) (hgo : r = q >>= f) :
    (p >>= fun ok => if !ok then pure y else r)
      = (p >>= fun ok => if !ok then pure x else q) >>= f := by
  rw [Dialog.bind_assoc]
  refine congrArg (p >>= ·) (funext fun ok => ?_)
  cases ok with
  | false => exact hstop.symm
  | true => exact hgo

theorem Uart.ubootPhase_eq_bind (fuel : ℕ) (fileContent : List UInt8) (app : DeviceInitInfo) :
    ubootPhase fuel fileContent app
      = backupUboot fuel fileContent app >>= replaceUboot fuel fileContent app := by
  unfold ubootPhase backupUboot
  rw [Dialog.bind_assoc]
  refine congrArg (deviceUpdateZoneInit _ _ >>= ·) (funext fun info => ?_)
  rcases info with _ | info
  · rfl
  dsimp only
  rw [ubootFileBuf_eq]
  -- the notice, then the copy at 64K
  refine stop_bind rfl (stop_bind rfl ?_)
  by_cases hunit : app.eraseUnitSize = 0
  · rw [if_pos hunit, if_pos hunit]
    rfl
  rw [if_neg hunit, if_neg hunit]
  refine stop_bind rfl ?_
  rcases getBufferCrcList (ubootFileBuf _ _) _ _ with _ | crcs
  · rfl
  refine stop_bind rfl ?_
  rw [pure_def, done_bind, replaceUboot]

/-- `untilApp` up to the check of the backup; `none` for `return`. -/
def Uart.untilBackup (t : UpdateThread) (fuel : ℕ) :
    HostM (Option (DeviceInitInfo × List UInt16)) := do
  match ← deviceUpdateZoneInit "app_dir_head" 0 with
  | none => return none
  | some app =>
    match ← exchange (.deviceCheck 0x12345678) with
    | none => return none
    | some cmd =>
      match isReplyDeviceCheckCmd cmd (List.replicate 4 0) (List.replicate 16 0) with
      | .error _ => return none
      | .ok _ =>
        let fileContent := t.fileContent.data
        if UInt32.ofNat fileContent.length ≤ app.zoneAddr then return none
        match ← backupUboot fuel fileContent app with
        | none => return none
        | some crcs => return some (app, crcs)

/-- The rest of `untilApp`. -/
def Uart.fromBackup (t : UpdateThread) (fuel : ℕ) :
    Option (DeviceInitInfo × List UInt16) → HostM (Option DeviceInitInfo)
  | none => return none
  | some (app, crcs) => do
    if !(← replaceUboot fuel t.fileContent.data app (some crcs)) then return none
    return some app

theorem Uart.fromBackup_some (t : UpdateThread) (fuel : ℕ) (app : DeviceInitInfo)
    (crcs : List UInt16) :
    fromBackup t fuel (some (app, crcs)) = (do
      if !(← replaceUboot fuel t.fileContent.data app (some crcs)) then return none
      return some app) := rfl

theorem Uart.untilApp_eq_bind {t : UpdateThread} (hmode : t.isUpdateUboot = true) (fuel : ℕ) :
    untilApp t fuel = untilBackup t fuel >>= fromBackup t fuel := by
  unfold untilApp untilBackup
  rw [Dialog.bind_assoc]
  refine congrArg (deviceUpdateZoneInit _ _ >>= ·) (funext fun info => ?_)
  rcases info with _ | app
  · rfl
  dsimp only
  rw [Dialog.bind_assoc]
  refine congrArg (exchange _ >>= ·) (funext fun reply => ?_)
  rcases reply with _ | cmd
  · rfl
  dsimp only
  rcases isReplyDeviceCheckCmd cmd (List.replicate 4 0) (List.replicate 16 0) with e | checked
  · rfl
  dsimp only
  split_ifs
  · rfl
  rw [ubootPhase_eq_bind, Dialog.bind_assoc, Dialog.bind_assoc]
  refine congrArg (backupUboot fuel _ app >>= ·) (funext fun crcs => ?_)
  rcases crcs with _ | crcs
  · rfl
  · exact (done_bind (some (app, crcs)) (fromBackup t fuel)).symm

/-! ### Up to the check of the backup -/

theorem Uart.backupUboot_steady (fuel : ℕ) (fileContent : List UInt8) (app : DeviceInitInfo) :
    Steady Answerable (backupUboot fuel fileContent app) fun t r =>
      ∀ crcs, r = some crcs → Clean Answerable t ∧ app.eraseUnitSize ≠ 0 := by
  have hnone {t : List Exchange} (ht : ∀ x ∈ t, Answerable x.1) :
      (∀ x ∈ t, Answerable x.1) ∧ ∀ crcs, (none : Option (List UInt16)) = some crcs →
        Clean Answerable t ∧ app.eraseUnitSize ≠ 0 :=
    ⟨ht, by rintro crcs ⟨⟩⟩
  have hinit : Answerable (.deviceInit "uboot_zone" 0) := ⟨by rintro ⟨⟩, trivial⟩
  have herase (address len : UInt32) : Stops Answerable (eraseFlash fuel address len) :=
    eraseFlash_stops fuel (fun _ => modifies_answerable trivial) fun _ _ =>
      modifies_answerable trivial
  simp only [backupUboot]
  generalize 65536 - app.flashEoffsetSize = abs64kLen
  refine (deviceUpdateZoneInit_steady hinit).seq ?_
  rintro t (_ | info) hS h₁
  · exact hnone hS
  obtain ⟨ht, -⟩ := h₁ info rfl
  dsimp only
  refine (herase _ _).bind (fun t' c ht' hc => ⟨hc, ht.append ht'⟩) ?_
  rintro t₂ (_ | _) hS₂ h₂
  · exact hnone (List.forall_mem_append.mpr ⟨hS, hS₂⟩)
  replace ht := ht.append (h₂ rfl)
  refine (herase _ _).bind (fun t' c ht' hc => ⟨hc, ht.append ht'⟩) ?_
  rintro t₃ (_ | _) hS₃ h₃
  · exact hnone (List.forall_mem_append.mpr ⟨ht.mem, hS₃⟩)
  replace ht := ht.append (h₃ rfl)
  simp only [Bool.not_true, Bool.false_eq_true, if_false]
  by_cases hunit : app.eraseUnitSize = 0
  · rw [if_pos hunit]
    exact trivial
  rw [if_neg hunit]
  refine (writeFlash_stops fuel fun _ _ _ _ => modifies_answerable trivial).bind
    (fun t' c ht' hc => ⟨hc, ht.append ht'⟩) ?_
  rintro t₄ (_ | _) hS₄ h₄
  · exact hnone (List.forall_mem_append.mpr ⟨ht.mem, hS₄⟩)
  replace ht := ht.append (h₄ rfl)
  simp only [Bool.not_true, Bool.false_eq_true, if_false]
  rcases getBufferCrcList _ _ _ with _ | crcs
  · exact trivial
  refine (ensureCrcMatch_steady (fun _ _ hcount => ⟨by rintro ⟨⟩, hunit, hcount⟩) hunit
    (div_fit _ _)).bind (fun t' c ht' hc => ⟨hc, ht.append ht'⟩) ?_
  rintro t₅ (_ | _) hS₅ h₅
  · exact hnone (List.forall_mem_append.mpr ⟨ht.mem, hS₅⟩)
  replace ht := ht.append (h₅ rfl).1
  exact ⟨ht.mem, fun _ _ => ⟨ht, hunit⟩⟩

/-- The updater goes on to the bootloader only while no exchange has failed. -/
theorem Uart.untilBackup_careful (t : UpdateThread) (fuel : ℕ) :
    safe (fun h c => Answerable c ∧ Clean Answerable h) (fun _ _ => True) (untilBackup t fuel)
      (fun h b => ∀ x, b = some x → Clean Answerable h) [] := by
  have hinit : Answerable (.deviceInit "app_dir_head" 0) := ⟨by rintro ⟨⟩, trivial⟩
  have hcheck : Answerable (.deviceCheck 0x12345678) := ⟨by rintro ⟨⟩, trivial⟩
  have hnone {h : List Exchange} (x : DeviceInitInfo × List UInt16) (hx : none = some x) :
      Clean Answerable h := by cases hx
  simp only [untilBackup]
  refine (deviceUpdateZoneInit_steady hinit).bind (fun t c ht hc => ⟨hc, ht⟩) ?_
  rintro t₁ (_ | app) - h₁
  · exact hnone
  obtain ⟨ht, -⟩ := h₁ app rfl
  refine (steady_exchange hcheck).bind (fun t c ht' hc => ⟨hc, ht.append ht'⟩) ?_
  rintro t₂ (_ | cmd) - rfl
  · exact hnone
  dsimp only
  rcases hreply : isReplyDeviceCheckCmd cmd (List.replicate 4 0) (List.replicate 16 0) with
    e | checked
  · exact hnone
  have hchecked : Clean Answerable [(.deviceCheck 0x12345678, some cmd)] := by
    refine clean_singleton hcheck ?_
    dsimp only [failed]
    rw [hreply]
    rfl
  replace ht := ht.append hchecked
  dsimp only
  split_ifs
  · exact hnone
  refine (backupUboot_steady fuel _ app).bind (fun t c ht' hc => ⟨hc, ht.append ht'⟩) ?_
  rintro t₃ (_ | crcs) - h₃
  · exact hnone
  · exact fun _ _ => ht.append (h₃ crcs rfl).1

/-! ### What is sent -/

theorem Uart.updateUboot_sends {S : Cmd → Prop} {fuel : ℕ} {ubootFileBuf : List UInt8}
    {ubootFileCrcList : List UInt16} {flashEoffsetSize abs64kLen unit n : UInt32}
    (herase : Sends S (eraseFlash fuel flashEoffsetSize abs64kLen))
    (htail : Sends S (writeFlash fuel (ubootFileBuf.drop unit.toNat) (unit + flashEoffsetSize)
      ((n - 1) * unit) unit))
    (hfirst : Sends S (writeFlash fuel ubootFileBuf flashEoffsetSize unit unit))
    (hcheck : Sends S (ensureCrcMatch ubootFileCrcList flashEoffsetSize n unit))
    (hinit : S (.deviceInit "app_dir_head" 0)) :
    Sends S (updateUboot fuel ubootFileBuf ubootFileCrcList flashEoffsetSize abs64kLen unit n) := by
  have hfinish : Sends S (finishUboot fuel ubootFileBuf ubootFileCrcList flashEoffsetSize unit
      n) := by
    simp only [finishUboot, UInt32.zero_add]
    refine sends_bind hfirst ?_
    rintro (_ | _)
    · exact trivial
    refine sends_bind hcheck ?_
    rintro (_ | _)
    · exact trivial
    refine sends_bind (deviceUpdateZoneInit_steady hinit).sends ?_
    rintro (_ | info)
    · exact trivial
    · exact trivial
  simp only [updateUboot, UInt32.zero_add, UInt32.one_mul]
  refine sends_bind herase ?_
  rintro (_ | _)
  · exact trivial
  simp only [Bool.not_true, Bool.false_eq_true, if_false]
  split_ifs
  · exact sends_bind htail fun _ => hfinish
  · exact hfinish

/-- In either mode all commands can be answered. -/
theorem Uart.runInner_replyFits (t : UpdateThread) (fuel : ℕ) :
    Sends ReplyFits (runInner t fuel) := by
  have happ (app : DeviceInitInfo) : Sends ReplyFits (appPhase fuel t.fileContent.data app) :=
    sends_of_safe (fun _ _ hc => hc.2) (appPhase_answerable fuel _ app Clean.nil)
  have hmodifies {c : Cmd} (hc : c.Modifies) : ReplyFits c := (modifies_answerable hc).2
  have huboot (app : DeviceInitInfo) :
      Sends ReplyFits (ubootPhase fuel t.fileContent.data app) := by
    have hphase : safe (fun _ c => ReplyFits c) (fun _ _ => True)
        (ubootPhase fuel t.fileContent.data app) (fun _ _ => True) [] := by
      rw [ubootPhase_eq_bind]
      refine (backupUboot_steady fuel _ app).bind (fun _ _ _ hc => hc.2) ?_
      rintro t₁ (_ | crcs) - h₁
      · exact trivial
      have hunit := (h₁ crcs rfl).2
      have herase {address len : UInt32} : Sends ReplyFits (eraseFlash fuel address len) :=
        (eraseFlash_stops fuel (fun _ => hmodifies trivial) fun _ _ => hmodifies trivial).sends
      have hwrite {buffer : List UInt8} {address len unit : UInt32} :
          Sends ReplyFits (writeFlash fuel buffer address len unit) :=
        (writeFlash_stops fuel fun _ _ _ _ => hmodifies trivial).sends
      refine Sends.safe (fun _ _ hc => hc) (updateUboot_sends herase hwrite hwrite ?_ trivial) _
      exact (ensureCrcMatch_steady (fun _ _ hcount => ⟨hunit, hcount⟩) hunit (div_fit _ _)).sends
    exact sends_of_safe (P := fun _ c => ReplyFits c) (fun _ _ hc => hc) hphase
  simp only [runInner]
  refine sends_bind (deviceUpdateZoneInit_steady (S := ReplyFits) trivial).sends ?_
  rintro (_ | app)
  · exact trivial
  refine sends_bind ⟨trivial, fun _ => trivial⟩ ?_
  rintro (_ | cmd)
  · exact trivial
  dsimp only
  rcases isReplyDeviceCheckCmd cmd (List.replicate 4 0) (List.replicate 16 0) with e | checked
  · exact trivial
  dsimp only
  split_ifs
  · exact trivial
  · refine sends_bind (huboot app) ?_
    rintro (_ | _)
    · exact trivial
    · exact happ app
  · exact happ app

/-- While the bootloader is replaced no command touches the backup. -/
theorem Uart.updateUboot_spares (a : UbootImage) (fuel : ℕ) (crcs : List UInt16)
    {abs64kLen : UInt32} (habs : abs64kLen.toNat = a.bootSize) :
    Sends (fun c => Fits c ∧ ¬ c.Touches 65536 (65536 + 65536))
      (updateUboot fuel a.bootData crcs a.app.flashEoffsetSize abs64kLen a.app.eraseUnitSize
        (UInt32.ofNat a.bootCount)) := by
  have hle := eraseUnitSize_le a.toAppImage
  have hfirst : a.app.eraseUnitSize.toNat ≤ a.bootSize := by
    have htail := a.unit_add_tail
    show a.unit ≤ a.bootSize
    omega
  have hspares {p : HostM Bool} (hp : Sends Fits p)
      (hp' : Stops (InArea a a.app.flashEoffsetSize) p) :
      Sends (fun c => Fits c ∧ ¬ c.Touches 65536 (65536 + 65536)) p :=
    hp.and (hp'.sends.mono fun _ hc => hc.not_touches_backup)
  refine updateUboot_sends (hspares (eraseFlash_fits fuel _ _) (eraseFlash_inArea fuel _ habs))
    (hspares (writeFlash_fits fuel hle) (writeFlash_inArea fuel a.unit ?_ a.unit_add_tail.le))
    (hspares (writeFlash_fits fuel hle) (writeFlash_inArea fuel 0 (UInt32.add_zero _).symm ?_)) ?_
    ⟨trivial, (question_deviceInit _ _).not_touches _ _⟩
  · rw [AppImage.unit, UInt32.ofNat_toNat, UInt32.add_comm]
  · rwa [Nat.zero_add]
  · refine (ensureCrcMatch_steady (fun _ _ hcount => ⟨⟨a.eraseUnitSize_ne, hcount⟩, ?_⟩)
      a.eraseUnitSize_ne bootCount_fit).sends
    exact (question_flashCrc _ _ _).not_touches _ _

/-! ### Over a lossless link -/

section

variable {z : Zone} {a : UbootImage} {t : UpdateThread} {fuel : ℕ}

/-- A command that does not touch the backup leaves it as it is. -/
theorem read_backup_serve {c : Cmd} (hc : Fits c ∧ ¬ c.Touches 65536 (65536 + 65536))
    (u : ZoneDevice) :
    (ZoneDevice.serve z u c).2.flash.read 65536 a.bootSize = u.flash.read 65536 a.bootSize := by
  have hle := a.bootSize_le
  have hstep : (ZoneDevice.step u.flash c).read 65536 a.bootSize
      = u.flash.read 65536 a.bootSize := by
    refine Flash.read_congr (by omega) fun x hx => ?_
    refine ZoneDevice.step_of_not_reaches u.flash hc.1 fun hreaches => hc.2 ⟨x, hreaches, ?_⟩
    have hlt := x.toNat_lt
    rw [Flash.Within, UInt32.toNat_sub, show (65536 : UInt32).toNat = 65536 from rfl] at hx
    omega
  rw [ZoneDevice.serve]
  split_ifs
  · rfl
  · exact hstep
  · rfl

/-- What a client that does not touch the backup finds there at its end has been there before. -/
theorem backup_of_wp {p : HostM (Option DeviceInitInfo)} {J : ZoneDevice → Prop}
    {Q : Option DeviceInitInfo → ZoneDevice → Prop} {u : ZoneDevice}
    (hp : wp (ZoneDevice.serve z) Fits J p Q u)
    (hspares : Sends (fun c => Fits c ∧ ¬ c.Touches 65536 (65536 + 65536)) p)
    (hQ : ∀ b w, Q b w → w.flash.read 65536 a.bootSize = a.bootData) :
    u.flash.read 65536 a.bootSize = a.bootData := by
  obtain ⟨-, -, v, -, hv⟩ := wp_sound hp
  have hstep (w : ZoneDevice) (c : Cmd)
      (hw : w.flash.read 65536 a.bootSize = u.flash.read 65536 a.bootSize)
      (hc : Fits c ∧ ¬ c.Touches 65536 (65536 + 65536)) :
      (ZoneDevice.serve z w c).2.flash.read 65536 a.bootSize = u.flash.read 65536 a.bootSize :=
    (read_backup_serve hc w).trans hw
  have hkept := final_of_requests hstep (hspares.requests u) rfl
  exact hkept.symm.trans (hQ v _ hv)

/-- A client that ends in front of `if (m_isUpdateUboot)` has ended with the layout it was given. -/
theorem eq_of_wp {q : HostM (Option DeviceInitInfo)} {app info : DeviceInitInfo}
    {J : ZoneDevice → Prop} {Q : Option DeviceInitInfo → ZoneDevice → Prop} {u : ZoneDevice}
    (hq : wp (ZoneDevice.serve z) Fits J q Q u) {p : HostM Bool}
    {f : Bool → HostM (Option DeviceInitInfo)} (hbind : q = p >>= f)
    (htrue : f true = pure (some app)) (hfalse : f false = pure none)
    (hQ : ∀ b w, Q b w → b = some info) : app = info := by
  rw [hbind] at hq
  obtain ⟨-, -, ok, -, hok⟩ := wp_sound (wp_bind.mp hq)
  cases ok with
  | false =>
    rw [hfalse] at hok
    cases hQ _ _ hok
  | true =>
    rw [htrue] at hok
    exact Option.some.inj (hQ _ _ hok)

/-- Until the backup has been checked a good copy is kept; then the backup is complete, and nothing
behind it touches it. -/
theorem untilBackup_keeps (hfuel : 256 ≤ fuel) (hmode : t.isUpdateUboot = true)
    (hfile : a.file = t.fileContent) (happ : a.app = z.info) (flash : Flash) :
    wp (ZoneDevice.serve z) Fits (fun u => a.KeepsCopy flash u.flash) (untilBackup t fuel)
      (fun b u => (∃ crcs, b = some (a.app, crcs)) ∧
        u.flash.read 65536 a.bootSize = a.bootData ∧
        Sends (Keeps (ZoneDevice.serve z) Fits
          fun u => u.flash.read 65536 a.bootSize = a.bootData) (fromBackup t fuel b))
      ⟨flash, true⟩ := by
  obtain ⟨m', hdoes, -, hbackup⟩ := @untilApp_does z a flash fuel hfuel t hmode hfile happ
  rw [Does, untilApp_eq_bind hmode] at hdoes
  refine wp_mono (wp_bind.mp hdoes) (fun _ hc => hc) (fun _ hu => hu) ?_
  rintro (_ | ⟨app, crcs⟩) u
  · rintro ⟨⟨⟩, -⟩
  have hrest := fromBackup_some t fuel app crcs
  generalize fromBackup t fuel (some (app, crcs)) = rest at hrest ⊢
  intro hwp
  -- the run goes on with the device's own layout
  obtain rfl : app = a.app := by
    rw [happ]
    exact eq_of_wp hwp hrest rfl rfl fun _ _ h => h.1
  have hspares : Sends (fun c => Fits c ∧ ¬ c.Touches 65536 (65536 + 65536)) rest := by
    have hbuf : ubootFileBuf t.fileContent.data (65536 - a.app.flashEoffsetSize) = a.bootData := by
      rw [← hfile, ubootFileBuf_boot]
    have habs := a.toNat_abs64kLen
    rw [hrest, replaceUboot]
    rw [hbuf, a.bootCount_eq]
    generalize 65536 - a.app.flashEoffsetSize = abs64kLen at habs ⊢
    refine sends_bind (updateUboot_spares a fuel crcs habs) fun ok => ?_
    cases ok <;> exact trivial
  refine ⟨⟨crcs, rfl⟩, backup_of_wp hwp hspares fun _ w h => ?_, hspares.mono fun c hc =>
    ⟨hc.1, fun u hu => (read_backup_serve hc u).trans hu⟩⟩
  rw [h.2]
  exact hbackup

end

/-! ### Over a lossy link -/

namespace Messages

variable {σ : Type} {chip : Chip σ} {t : UpdateThread} {fuel : ℕ} {device : Device σ}
  {s : Messages σ}

/-- The updater has not come behind `if (m_isUpdateUboot)`, or it has returned in front of it. -/
def InUboot (t : UpdateThread) (fuel : ℕ) (s : Messages σ) : Prop :=
  ∃ q, Follows (untilApp t fuel) s.history q ∧ ∀ app, q ≠ .done (some app)

/-- **A good copy is kept over a lossy link.** -/
theorem keepsCopy_of_reachable {z : Zone} {a : UbootImage} (hfuel : 256 ≤ fuel)
    (hmode : t.isUpdateUboot = true) (hfile : a.file = t.fileContent) (happ : a.app = z.info)
    {device : Device Flash} (halign : device.flashAlignsize = z.alignSize) {s : Messages Flash}
    (hs : Reachable (norChip z t.encKey Crc16.xmodem) t fuel device s)
    (hphase : s.InUboot t fuel) : a.KeepsCopy device.fs s.device.fs := by
  obtain ⟨q, hfollows, hq⟩ := hphase
  obtain ⟨requests, replies, hrun, -⟩ :=
    reachable_refines_of_sends (runInner_replyFits t fuel) rfl rfl hs
  rw [runInner_eq_bind] at hrun
  -- the phase by itself, and its two parts
  obtain ⟨-, hrun⟩ := reachable_of_bind hrun hfollows fun b hb c k hask => by
    rcases b with _ | app
    · cases hask
    · exact hq app hb
  rw [untilApp_eq_bind hmode] at hrun
  have hcareful : safe (fun h _ => ∀ x ∈ h, succeeded x = true) (fun _ _ => True)
      (untilBackup t fuel) (fun h b => (∀ x ∈ h, succeeded x = true) ∨
        ∀ c k, fromBackup t fuel b ≠ .ask c k) [] := by
    refine safe_frame (untilBackup_careful t fuel) (fun _ _ hc => succeeded_of_clean hc.2)
      (fun _ _ he => he) fun h b hb => ?_
    rcases b with _ | x
    · exact Or.inr fun c k => by rintro ⟨⟩
    · exact Or.inl (succeeded_of_clean (hb x rfl))
  have hkeeps := wp_mono (untilBackup_keeps hfuel hmode hfile happ device.fs) (fun _ hc => hc)
    (fun _ hu => hu) fun b u hb => hb.2
  obtain ⟨u, hrel, hu⟩ := kept_of_reachable replays_serves not_succeeded_none
    not_succeeded_of_ack hcareful hkeeps (Or.inl fun _ _ => rfl) ⟨rfl, rfl, halign⟩ hrun
  rw [show s.device.fs = u.flash from hrel.flash]
  rcases hu with hkeeps | hbackup
  · exact hkeeps
  · exact Or.inr (Or.inr hbackup)

/-- **The bootloader survives its update over a lossy link.**  Anywhere in the phase packets may be
lost or delayed and waits may time out, also when the updater has gone on after a failed write: the
old bootloader is there, or the next copy that goes through leaves the new one and opens the
zone. -/
theorem bootloader_survives {z : Zone} (hzone : z.zoneAddr.toNat < t.fileContent.data.length)
    (hunit : z.alignSize = 256 ∨ z.alignSize = 4096) (hdvd : 4096 ∣ z.flashEoffsetSize.toNat)
    (hlt : z.flashEoffsetSize.toNat < 65536) (hmode : t.isUpdateUboot = true) (hfuel : 256 ≤ fuel)
    {flashAppBaseAddr : UInt32} (hplace : z.flashEoffsetSize.toNat + flashAppBaseAddr.toNat ≤ 65536)
    (hhead : flashAppBaseAddr.toNat + z.alignSize.toNat ≤ 65536) {device : Device Flash}
    (halign : device.flashAlignsize = z.alignSize) {s : Messages Flash}
    (hs : Reachable (norChip z t.encKey Crc16.xmodem) t fuel device s)
    (hphase : s.InUboot t fuel) :
    let e := z.flashEoffsetSize
    let n := 65536 - e.toNat
    let new := t.fileContent.data.take n ++ List.replicate (n - t.fileContent.data.length) 0xFF
    let boot := norBoot z t.encKey Crc16.xmodem flashAppBaseAddr
    (∀ x, e ≤ x ∧ x < 65536 → s.device.fs x = device.fs x) ∨
      (∀ x, e ≤ x ∧ x < 65536 →
        s.device.fs x = device.fs.erase z.zoneAddr z.alignSize.toNat x) ∨
      ∀ d : Device Flash,
        Attempts id flashAppBaseAddr e (1024 * 64) z.alignSize s.device.fs d.fs →
          ∀ chunks, ∃ turns d', userCheckUpgrade boot turns chunks d
              = (some <$> openUpgradeFile boot chunks) d' ∧
            d'.fs.read e flashAppBaseAddr.toNat = new.take flashAppBaseAddr.toNat := by
  intro e n new boot
  let a : UbootImage :=
    { z.image t.fileContent hzone hunit with eoffset_dvd := hdvd, eoffset_lt := hlt }
  have hkeeps := @keepsCopy_of_reachable t fuel z a hfuel hmode rfl rfl device halign s hs hphase
  rcases hkeeps.cases with h | h | hbackup
  · exact Or.inl h
  · exact Or.inr (Or.inl h)
  · exact Or.inr (Or.inr fun d hattempts chunks =>
      repaired_of_backup hunit hplace hhead hbackup t.encKey hattempts chunks)

/-- Behind the check of the backup the bootloader is erased. -/
theorem fromBackup_asks (t : UpdateThread) {fuel : ℕ} (hfuel : fuel ≠ 0) (a : UbootImage)
    (crcs : List UInt16) : ∃ c k, fromBackup t fuel (some (a.app, crcs)) = .ask c k := by
  obtain ⟨fuel, rfl⟩ := Nat.exists_eq_succ_of_ne_zero hfuel
  have hne : 65536 - a.app.flashEoffsetSize ≠ 0 := by
    intro h
    have hpos := a.eoffset_lt
    have hsize := a.eoffset_add_bootSize
    rw [← a.toNat_abs64kLen, h, UInt32.toNat_zero] at hsize
    omega
  rw [fromBackup_some, replaceUboot]
  generalize 65536 - a.app.flashEoffsetSize = len at hne
  obtain ⟨c, k, hask⟩ : ∃ c k, eraseFlash (fuel + 1) a.app.flashEoffsetSize len = .ask c k := by
    rw [eraseFlash, eraseUnits]
    split_ifs
    · exact ⟨_, _, rfl⟩
    · rw [eraseLoop, if_neg hne]
      exact ⟨_, _, rfl⟩
  rw [updateUboot, UInt32.zero_add, hask]
  exact ⟨c, _, rfl⟩

/-- The update can come to the check of the backup, and is still in the phase then. -/
theorem exists_backupChecked {z : Zone} {a : UbootImage} (hfuel : 256 ≤ fuel)
    (hmode : t.isUpdateUboot = true) (hfile : a.file = t.fileContent) (happ : a.app = z.info)
    {device : Device Flash} (halign : device.flashAlignsize = z.alignSize) :
    ∃ s, Reachable (norChip z t.encKey Crc16.xmodem) t fuel device s ∧ s.InUboot t fuel ∧
      s.device.fs.read 65536 a.bootSize = a.bootData := by
  obtain ⟨hfits, -, b, hresult, ⟨crcs, rfl⟩, hbackup, -⟩ :=
    wp_sound (untilBackup_keeps hfuel hmode hfile happ device.fs)
  have hupdater := runInner_eq_bind t fuel
  rw [untilApp_eq_bind hmode, Dialog.bind_assoc] at hupdater
  obtain ⟨s, hrun, -, hfollows, hs⟩ :=
    (quiet_initial t fuel halign).passes_bind hupdater rfl hfits (passes_of_result hresult)
  refine ⟨s, hrun, ?_, ?_⟩
  · have hphase := hfollows.bind_left (fromBackup t fuel)
    rw [done_bind, ← untilApp_eq_bind hmode] at hphase
    refine ⟨_, hphase, fun app hdone => ?_⟩
    have hne : fuel ≠ 0 := by omega
    obtain ⟨c, k, hask⟩ := fromBackup_asks t hne a crcs
    cases hask.symm.trans hdone
  · rw [hs.device.flash]
    exact hbackup

/-- The backup has been checked, and the bootloader is about to be erased. -/
theorem bootloader_survives_backupChecked :
    let chip := norChip twoSectorZone oneByteUpdate.encKey Crc16.xmodem
    let boot := norBoot twoSectorZone oneByteUpdate.encKey Crc16.xmodem 0x2000
    let n := 65536 - twoSectorZone.flashEoffsetSize.toNat
    let new := oneByteUpdate.fileContent.data.take n
      ++ List.replicate (n - oneByteUpdate.fileContent.data.length) 0xFF
    ∃ s, Reachable chip oneByteUpdate 256 (.initial chip fun _ => 0xFF) s ∧
      s.device.fs.read 65536 n = new ∧
      ((∀ x, twoSectorZone.flashEoffsetSize ≤ x ∧ x < 65536 → s.device.fs x = 0xFF) ∨
        (∀ x, twoSectorZone.flashEoffsetSize ≤ x ∧ x < 65536 → s.device.fs x
          = Flash.erase (fun _ => 0xFF) twoSectorZone.zoneAddr twoSectorZone.alignSize.toNat x) ∨
        ∀ d : Device Flash, Attempts id 0x2000 twoSectorZone.flashEoffsetSize (1024 * 64)
            twoSectorZone.alignSize s.device.fs d.fs →
          ∀ chunks, ∃ turns d', userCheckUpgrade boot turns chunks d
              = (some <$> openUpgradeFile boot chunks) d' ∧
            d'.fs.read twoSectorZone.flashEoffsetSize 0x2000 = new.take 0x2000) := by
  intro chip boot n new
  have hzone : twoSectorZone.zoneAddr.toNat < oneByteUpdate.fileContent.data.length := by decide
  have hlt : twoSectorZone.flashEoffsetSize.toNat < 65536 := by decide
  let a : UbootImage :=
    { twoSectorZone.image oneByteUpdate.fileContent hzone (Or.inr rfl) with
      eoffset_dvd := ⟨14, rfl⟩, eoffset_lt := hlt }
  obtain ⟨s, hs, hphase, hbackup⟩ := @exists_backupChecked oneByteUpdate 256 twoSectorZone a
    le_rfl rfl rfl rfl (.initial chip fun _ => 0xFF) rfl
  refine ⟨s, hs, hbackup, ?_⟩
  exact bootloader_survives hzone (Or.inr rfl) ⟨14, rfl⟩ hlt rfl le_rfl (by decide) (by decide) rfl
    hs hphase

end Messages

end FwBootloader
